import MidIR.Proofs.Binary.Height
import MidIR.Proofs.Binary.Taking

namespace MidIR

/-- A sort of values whose outline, binary form, nesting and decoder belong together. -/
class LawfulRecord (α : Type) [Record α] [Outlined α] [Nested α] : Prop where
  outline_bytes (value : α) : (outline value).bytes = encode value
  outline_height (value : α) : (outline value).HasHeight (nest value)
  reads (value : α) {depth : Nat} (inside : depth ≤ maxDepth) :
    Reads depth Record.decode value (outline value)
  yields : YieldsAs (Record.decode (α := α)) outline

open LawfulRecord Outline

section Parts

variable {α : Type} {offset depth bound : Nat}

theorem append_bytes (o p : Outline) : (o ++ p).bytes = o.bytes ++ p.bytes := rfl

theorem join_nil_bytes : (join []).bytes = [] := rfl

theorem join_cons_bytes (o : Outline) (os : List Outline) :
    (join (o :: os)).bytes = o.bytes ++ (join os).bytes := rfl

theorem record_bytes (parts : List Outline) : (record parts).bytes = (join parts).bytes := rfl

theorem plain_bytes (bs : List UInt8) : (plain bs).bytes = bs := rfl

theorem name_bytes (text : String) : (name text).bytes = Encode.text text := rfl

theorem length_bytes (n : Nat) : (Outline.length n).bytes = Encode.length n := rfl

theorem byteString_bytes (bs : List UInt8) : (byteString bs).bytes = Encode.bytes bs := by
  rw [byteString, join_cons_bytes, join_cons_bytes, join_nil_bytes, List.append_nil]
  rfl

theorem join_map_bytes {outline : α → Outline} {encode : α → List UInt8} {values : List α}
    (each : ∀ a ∈ values, (outline a).bytes = encode a) :
    (join (values.map outline)).bytes = values.flatMap encode := by
  induction values with
  | nil => rfl
  | cons a values ih =>
    rw [List.map_cons, join_cons_bytes, each a (List.mem_cons_self ..), List.flatMap_cons,
      ih fun b member => each b (List.mem_cons_of_mem _ member)]

variable [Record α] [Outlined α] [Nested α] [LawfulRecord α]

theorem seq_bytes (values : List α) :
    (Outline.seq outline values).bytes = Encode.seq encode values := by
  rw [Outline.seq, append_bytes, join_map_bytes fun a _ => outline_bytes a]
  rfl

theorem seq_height (values : List α) : (Outline.seq outline values).HasHeight (nestAll values) :=
  .seq fun a _ => outline_height a

theorem seq_reads (values : List α) (inside : depth ≤ maxDepth) :
    Reads depth (Decoder.seq Record.decode) values (.seq outline values) :=
  .seq values fun a _ => reads a inside

theorem option_bytes (value : Option α) :
    (Outline.option outline value).bytes = Encode.option encode value := by
  cases value with
  | none => rfl
  | some a =>
    rw [Outline.option, join_cons_bytes, join_cons_bytes, join_nil_bytes, List.append_nil, outline_bytes]
    rfl

end Parts

/-! ## Values without places and types -/

instance : LawfulRecord UInt32 where
  outline_bytes _ := rfl
  outline_height _ := .plain _
  reads n _ _ := .u32 n
  yields := .u32

instance : LawfulRecord UInt64 where
  outline_bytes _ := rfl
  outline_height _ := .plain _
  reads n _ _ := .u64 n
  yields := .u64

instance : LawfulRecord String where
  outline_bytes s := byteString_bytes (utf8 s)
  outline_height _ := .byteString _
  reads s _ _ := .text s
  yields := .text

theorem nestAll_texts (texts : List String) : nestAll texts = 0 := by
  induction texts with
  | nil => rfl
  | cons t texts ih =>
    change max 0 (nestAll texts) = 0
    rw [ih, Nat.max_self]

instance : LawfulRecord ItemPath where
  outline_bytes path := by
    change (join [outline path.package, Outline.seq outline path.components]).bytes = _
    rw [join_cons_bytes, join_cons_bytes, join_nil_bytes, List.append_nil, seq_bytes, outline_bytes]
    rfl
  outline_height path := by
    refine ((outline_height path.package).cons ((seq_height path.components).cons .nil)).cast ?_
    rw [nestAll_texts]
    rfl
  reads path depth inside := (reads path.package inside).bind (seq_reads path.components inside).last
  yields := yields.part fun package => yields.seq.part fun components => .pure rfl

instance : LawfulRecord Scalar where
  outline_bytes _ := rfl
  outline_height _ := .plain _
  reads s _ _ := .tag (by decide) s
  yields := .tag _ _

instance : LawfulRecord RefKind where
  outline_bytes _ := rfl
  outline_height _ := .plain _
  reads k _ _ := .tag (by decide) k
  yields := .tag _ _

instance : LawfulRecord BinaryOp where
  outline_bytes _ := rfl
  outline_height _ := .plain _
  reads op _ _ := .tag (by decide) op
  yields := .tag _ _

instance : LawfulRecord UnaryOp where
  outline_bytes _ := rfl
  outline_height _ := .plain _
  reads op _ _ := .tag (by decide) op
  yields := .tag _ _

instance : LawfulRecord Label where
  outline_bytes _ := rfl
  outline_height _ := .plain _
  reads label _ _ := (Reads.u32 label.index).map
  yields := Yields.u32.map fun _ _ equal => equal

/-! ## Types -/

namespace Ty

theorem outlineAll_eq (types : List Ty) : outlineAll types = join (types.map outline) := by
  induction types with
  | nil => rfl
  | cons t types ih => rw [outlineAll, ih, List.map_cons, join]

theorem encodeAll_eq (types : List Ty) : encodeAll types = types.flatMap encode := by
  induction types with
  | nil => rfl
  | cons t types ih => rw [encodeAll, ih, List.flatMap_cons]

theorem outline_tuple (elements : List Ty) :
    (tuple elements).outline = record [name "Tuple", .seq outline elements] := by
  rw [outline, outlineAll_eq, Outline.seq]

theorem outline_path (item : ItemPath) (arguments : List Ty) :
    (path item arguments).outline =
      record [name "Path", Outlined.outline item, .seq outline arguments] := by
  rw [outline, outlineAll_eq, Outline.seq]

theorem seq_outline_bytes {types : List Ty} (each : ∀ t ∈ types, t.outline.bytes = t.encode) :
    (Outline.seq outline types).bytes = Encode.length types.length ++ encodeAll types := by
  rw [Outline.seq, append_bytes, join_map_bytes each, encodeAll_eq]
  rfl

theorem outline_bytes (t : Ty) : t.outline.bytes = t.encode := by
  induction t using Ty.inductionOn with
  | tuple elements ih =>
    simp only [outline_tuple, encode, seq_outline_bytes ih, record_bytes, join_cons_bytes,
      join_nil_bytes, name_bytes, List.append_nil, List.append_assoc]
  | path item arguments ih =>
    simp only [outline_path, encode, seq_outline_bytes ih, record_bytes, join_cons_bytes,
      join_nil_bytes, name_bytes, LawfulRecord.outline_bytes, List.append_nil, List.append_assoc]
  | array inner size ih =>
    simp only [outline, encode, record_bytes, join_cons_bytes, join_nil_bytes, name_bytes,
      List.append_nil, List.append_assoc, ih]
    rfl
  | _ =>
    simp only [outline, encode, record_bytes, join_cons_bytes, join_nil_bytes, name_bytes,
      LawfulRecord.outline_bytes, List.append_nil, List.append_assoc, *]

theorem seq_outline_height {types : List Ty} (each : ∀ t ∈ types, t.outline.HasHeight t.nest) :
    (Outline.seq outline types).HasHeight (nestAll types) := by
  rw [nestAll_eq]
  exact .seq each

theorem outline_height (t : Ty) : t.outline.HasHeight t.nest := by
  induction t using Ty.inductionOn with
  | scalar s => exact .record ((HasHeight.name _).cons ((LawfulRecord.outline_height s).cons .nil))
  | tuple elements ih =>
    rw [outline_tuple]
    have parts := (HasHeight.name "Tuple").cons ((seq_outline_height ih).cons .nil)
    exact parts.record.cast (by simp only [nest]; omega)
  | path item arguments ih =>
    rw [outline_path]
    have parts := (HasHeight.name "Path").cons
      ((LawfulRecord.outline_height item).cons ((seq_outline_height ih).cons .nil))
    exact parts.record.cast (by simp only [nest, Nested.nest]; omega)
  | ref kind inner ih =>
    have parts := (HasHeight.name "Borrow").cons ((LawfulRecord.outline_height kind).cons (ih.cons .nil))
    exact parts.record.cast (by simp only [nest, Nested.nest]; omega)
  | pointer kind inner ih =>
    have parts := (HasHeight.name "Pointer").cons ((LawfulRecord.outline_height kind).cons (ih.cons .nil))
    exact parts.record.cast (by simp only [nest, Nested.nest]; omega)
  | array inner size ih =>
    have parts := (HasHeight.name "Array").cons (ih.cons ((LawfulRecord.outline_height size).cons .nil))
    exact parts.record.cast (by simp only [nest, Nested.nest]; omega)
  | slice inner ih =>
    have parts := (HasHeight.name "Slice").cons (ih.cons .nil)
    exact parts.record.cast (by simp only [nest]; omega)

theorem exists_parts (t : Ty) : ∃ parts, t.outline = record parts := by
  cases t <;> exact ⟨_, rfl⟩

theorem reads_within (levels : Nat) {depth : Nat} (room : depth + levels = maxDepth) (t : Ty) :
    Reads depth (decodeWithin levels) t t.outline := by
  induction levels generalizing depth t with
  -- With no level left the record itself is the first one too deep.
  | zero =>
    obtain ⟨parts, equal⟩ := t.exists_parts
    rw [equal]
    exact .full room
  | succ levels ih =>
    have inside : depth ≤ maxDepth := by omega
    have inner (t : Ty) : Reads (depth + 1) (decodeWithin levels) t t.outline := ih (by omega) t
    cases t with
    | scalar s =>
      refine .nested inside fun deeper => ?_
      exact (Reads.tag (by decide) Form.scalar).bind (reads s deeper).last
    | tuple elements =>
      rw [outline_tuple]
      refine .nested inside fun deeper => ?_
      exact (Reads.tag (by decide) Form.tuple).bind (Reads.seq elements fun t _ => inner t).last
    | path item arguments =>
      rw [outline_path]
      refine .nested inside fun deeper => ?_
      exact (Reads.tag (by decide) Form.path).bind
        ((reads item deeper).bind (Reads.seq arguments fun t _ => inner t).last)
    | ref kind t =>
      refine .nested inside fun deeper => ?_
      exact (Reads.tag (by decide) Form.ref).bind ((reads kind deeper).bind (inner t).last)
    | pointer kind t =>
      refine .nested inside fun deeper => ?_
      exact (Reads.tag (by decide) Form.pointer).bind ((reads kind deeper).bind (inner t).last)
    | array t size =>
      refine .nested inside fun deeper => ?_
      exact (Reads.tag (by decide) Form.array).bind ((inner t).bind (reads size deeper).last)
    | slice t =>
      refine .nested inside fun deeper => ?_
      exact (Reads.tag (by decide) Form.slice).bind (inner t).last

theorem yields_within (levels : Nat) : YieldsAs (decodeWithin levels) outline := by
  induction levels with
  | zero => exact .get fun reader => .throw _
  | succ levels ih =>
    refine .nested ((Yields.tag _ _).part fun form => ?_)
    cases form with
    | scalar => exact yields.part fun s => .pure ⟨_, rfl, rfl⟩
    | tuple => exact ih.seq.part fun elements => .pure ⟨_, outline_tuple elements, rfl⟩
    | path =>
      exact yields.part fun item => ih.seq.part fun arguments => .pure ⟨_, outline_path item arguments, rfl⟩
    | ref => exact yields.part fun kind => ih.part fun inner => .pure ⟨_, rfl, rfl⟩
    | pointer => exact yields.part fun kind => ih.part fun inner => .pure ⟨_, rfl, rfl⟩
    | array => exact ih.part fun inner => Yields.u64.part fun size => .pure ⟨_, rfl, rfl⟩
    | slice => exact ih.part fun inner => .pure ⟨_, rfl, rfl⟩

end Ty

instance : LawfulRecord Ty where
  outline_bytes := Ty.outline_bytes
  outline_height := Ty.outline_height
  reads t depth inside := .get fun reader same => Ty.reads_within _ (by omega) t
  yields := .get fun reader => Ty.yields_within _

instance : LawfulRecord TypeArgs where
  outline_bytes arguments := seq_bytes arguments.types
  outline_height arguments := seq_height arguments.types
  reads arguments _ inside := (seq_reads arguments.types inside).map
  yields := yields.seq.map fun _ _ equal => equal

end MidIR
