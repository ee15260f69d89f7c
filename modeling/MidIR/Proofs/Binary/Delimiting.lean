import MidIR.Proofs.Binary.RoundTrip
import MidIR.Proofs.Equality
import MidIR.Proofs.Hashing

namespace MidIR

open Outline (plain join record name text byteString seq option)

theorem number_tells {width m n : Nat} (m_small : m < LittleEndian.capacity width)
    (n_small : n < LittleEndian.capacity width) :
    Tells (LittleEndian.bytes width m) (LittleEndian.bytes width n) (m = n) := by
  have sized : (LittleEndian.bytes width m).length = (LittleEndian.bytes width n).length := by simp
  apply (Tells.sized sized).imp
  intro same
  have numbers := congrArg LittleEndian.ofBytes same
  rwa [LittleEndian.ofBytes_bytes, LittleEndian.ofBytes_bytes, Nat.mod_eq_of_lt m_small,
    Nat.mod_eq_of_lt n_small] at numbers

theorem u32_tells (m n : UInt32) : Tells (Encode.u32 m) (Encode.u32 n) (m = n) :=
  (number_tells m.toNat_lt n.toNat_lt).imp UInt32.toNat_inj.1

theorem u64_tells (m n : UInt64) : Tells (Encode.u64 m) (Encode.u64 n) (m = n) :=
  (number_tells m.toNat_lt n.toNat_lt).imp UInt64.toNat_inj.1

theorem i64_tells (m n : Int64) : Tells (Encode.i64 m) (Encode.i64 n) (m = n) :=
  (u64_tells m.toUInt64 n.toUInt64).imp fun same => congrArg UInt64.toInt64 same

theorem bool_tells (b c : Bool) : Tells (Encode.bool b) (Encode.bool c) (b = c) := by
  apply Tells.cons
  intro same
  apply Tells.nil
  cases b <;> cases c <;> simp at same ⊢

theorem length_tells {m n : Nat} (m_short : m ≤ 0xffffffff) (n_short : n ≤ 0xffffffff) :
    Tells (Encode.length m) (Encode.length n) (m = n) := by
  have toNat {n : Nat} (short : n ≤ 0xffffffff) : n.toUInt32.toNat = n :=
    UInt32.toNat_ofNat_of_lt' (Nat.lt_succ_of_le short)
  apply (u32_tells m.toUInt32 n.toUInt32).imp
  intro same
  rw [← toNat m_short, same, toNat n_short]

theorem bytes_tells {bs cs : List UInt8} (bs_short : bs.length ≤ 0xffffffff)
    (cs_short : cs.length ≤ 0xffffffff) : Tells (Encode.bytes bs) (Encode.bytes cs) (bs = cs) :=
  (length_tells bs_short cs_short).append .sized

theorem text_tells {s t : String} (s_short : (utf8 s).length ≤ 0xffffffff)
    (t_short : (utf8 t).length ≤ 0xffffffff) : Tells (Encode.text s) (Encode.text t) (s = t) :=
  (bytes_tells s_short t_short).imp utf8_injective

namespace Outline

/-- The bytes of two outlines tell their values apart, if no length in them is too long. -/
def Tells (o p : Outline) (Same : Prop) : Prop :=
  o.Short → p.Short → MidIR.Tells o.bytes p.bytes Same

namespace Tells

variable {α : Type} {o p : Outline} {os ps : List Outline} {P Q : Prop}

theorem imp (tells : o.Tells p P) (implies : P → Q) : o.Tells p Q :=
  fun short short' => (tells short short').imp implies

theorem append {o' p' : Outline} (first : o.Tells p P) (second : P → o'.Tells p' Q) :
    (o ++ o').Tells (p ++ p') Q := by
  intro short short'
  apply (first (fun n member => short n (List.mem_append_left _ member))
    fun n member => short' n (List.mem_append_left _ member)).append
  intro holds
  exact second holds (fun n member => short n (List.mem_append_right _ member))
    fun n member => short' n (List.mem_append_right _ member)

theorem nil : (join []).Tells (join []) True := fun _ _ => .nil trivial

theorem cons (first : o.Tells p P) (others : (join os).Tells (join ps) Q) :
    (join (o :: os)).Tells (join (p :: ps)) (P ∧ Q) :=
  first.append fun holds => others.imp fun also => ⟨holds, also⟩

theorem last (only : o.Tells p P) : (join [o]).Tells (join [p]) P :=
  only.append fun holds => nil.imp fun _ => holds

theorem record (parts : (join os).Tells (join ps) P) : (record os).Tells (record ps) P := parts

theorem plain {bs cs : List UInt8} (tells : MidIR.Tells bs cs P) : (plain bs).Tells (plain cs) P :=
  fun _ _ => tells

theorem name (names : NameTable α) (brief : ∀ a ∈ names.all, (utf8 (names.name a)).length ≤ 0xffffffff)
    (a b : α) : (name (names.name a)).Tells (name (names.name b)) (a = b) :=
  .plain <| (text_tells (brief a (names.complete a)) (brief b (names.complete b))).imp
    names.name_injective

theorem length (m n : Nat) : (length m).Tells (length n) (m = n) := by
  intro short short'
  exact length_tells (short m (List.mem_singleton_self m)) (short' n (List.mem_singleton_self n))

theorem byteString (bs cs : List UInt8) : (byteString bs).Tells (byteString cs) (bs = cs) := by
  apply (length _ _).append
  intro same
  exact (plain (.sized same)).last

theorem text (s t : String) : (text s).Tells (text t) (s = t) :=
  (byteString _ _).imp utf8_injective

theorem join_map {outline : α → Outline} {values others : List α}
    (each : ∀ a ∈ values, ∀ b, (outline a).Tells (outline b) (a = b))
    (length : values.length = others.length) :
    (join (values.map outline)).Tells (join (others.map outline)) (values = others) := by
  induction values generalizing others with
  | nil =>
    cases others with
    | nil => exact nil.imp fun _ => rfl
    | cons b others => cases length
  | cons a values ih =>
    cases others with
    | nil => cases length
    | cons b others =>
      have tail := ih (fun c member => each c (List.mem_cons_of_mem _ member)) (Nat.succ.inj length)
      simpa using (each a (List.mem_cons_self ..) b).cons tail

theorem seq {outline : α → Outline} {values : List α}
    (each : ∀ a ∈ values, ∀ b, (outline a).Tells (outline b) (a = b)) (others : List α) :
    (seq outline values).Tells (seq outline others) (values = others) :=
  (length _ _).append (join_map each)

theorem option {outline : α → Outline} (each : ∀ a b, (outline a).Tells (outline b) (a = b))
    (value other : Option α) : (option outline value).Tells (option outline other) (value = other) := by
  cases value with
  | none =>
    cases other with
    | none => exact fun _ _ => .cons fun _ => .nil rfl
    | some b => exact fun _ _ => .cons fun same => by cases same
  | some a =>
    cases other with
    | none => exact fun _ _ => .cons fun same => by cases same
    | some b =>
      exact (plain (bool_tells true true)).append fun _ => (each a b).last.imp (congrArg some)

theorem form {names : NameTable α} (brief : ∀ a ∈ names.all, (utf8 (names.name a)).length ≤ 0xffffffff)
    {a b : α} (fields : a = b → (join os).Tells (join ps) P) :
    (join (.name (names.name a) :: os)).Tells (join (.name (names.name b) :: ps)) P :=
  (name names brief a b).append fields

end Tells

end Outline

class Delimited (α : Type) [Outlined α] : Prop where
  tells (a b : α) : (outline a).Tells (outline b) (a = b)

open Delimited

section Parts

variable {α : Type} [Outlined α] [Delimited α]

theorem seq_tells (values others : List α) :
    (Outline.seq outline values).Tells (Outline.seq outline others) (values = others) :=
  .seq (fun a _ b => tells a b) others

theorem option_tells (value other : Option α) :
    (Outline.option outline value).Tells (Outline.option outline other) (value = other) :=
  .option tells value other

end Parts

/-! ## Values of one form -/

instance : Delimited UInt32 where
  tells m n := .plain (u32_tells m n)

instance : Delimited UInt64 where
  tells m n := .plain (u64_tells m n)

instance : Delimited String where
  tells := .text

instance : Delimited Scalar where
  tells := .name Scalar.names (by decide)

instance : Delimited RefKind where
  tells := .name RefKind.names (by decide)

instance : Delimited BinaryOp where
  tells := .name BinaryOp.mnemonics (by decide)

instance : Delimited UnaryOp where
  tells := .name UnaryOp.mnemonics (by decide)

instance : Delimited Label where
  tells a b := (tells a.index b.index).imp fun same => by cases a; cases b; cases same; rfl

instance : Delimited ItemPath where
  tells
    | ⟨package, components⟩, ⟨package', components'⟩ => by
      rw [ItemPath.mk.injEq]
      exact (tells package package').cons (seq_tells components components').last

/-! ## Types -/

namespace Ty

def fieldOutlines : Ty → List Outline
  | .scalar s => [Outlined.outline s]
  | .tuple elements => [.seq outline elements]
  | .path item arguments => [Outlined.outline item, .seq outline arguments]
  | .ref kind inner => [Outlined.outline kind, inner.outline]
  | .pointer kind inner => [Outlined.outline kind, inner.outline]
  | .array inner size => [inner.outline, Outlined.outline size]
  | .slice inner => [inner.outline]

theorem outline_eq (t : Ty) : t.outline = record (name (forms.name t.form) :: t.fieldOutlines) := by
  cases t with
  | tuple elements => exact outline_tuple elements
  | path item arguments => exact outline_path item arguments
  | _ => rfl

theorem outline_tells (t u : Ty) : t.outline.Tells u.outline (t = u) := by
  -- Different forms differ in the name, so the cases that are left are of one form each.
  induction t using Ty.inductionOn generalizing u <;> rw [outline_eq, outline_eq] <;>
    refine .record (.form (by decide) fun same => ?_) <;> cases u <;> cases same
  case scalar.scalar s s' => exact (tells s s').last.imp (congrArg scalar)
  case tuple.tuple elements ih others =>
    exact (Outline.Tells.seq ih others).last.imp (congrArg tuple)
  case path.path item arguments ih item' others =>
    rw [path.injEq]
    exact (tells item item').cons (Outline.Tells.seq ih others).last
  case ref.ref kind inner ih kind' inner' =>
    rw [ref.injEq]
    exact (tells kind kind').cons (ih inner').last
  case pointer.pointer kind inner ih kind' inner' =>
    rw [pointer.injEq]
    exact (tells kind kind').cons (ih inner').last
  case array.array inner size ih inner' size' =>
    rw [array.injEq]
    exact (ih inner').cons (tells size size').last
  case slice.slice inner ih inner' => exact (ih inner').last.imp (congrArg slice)

end Ty

instance : Delimited Ty where
  tells := Ty.outline_tells

instance : Delimited TypeArgs where
  tells a b := (seq_tells a.types b.types).imp fun same => by cases a; cases b; cases same; rfl

instance : Delimited Path where
  tells
    | ⟨item, arguments⟩, ⟨item', arguments'⟩ => by
      rw [Path.mk.injEq]
      exact (tells item item').cons (tells arguments arguments').last

/-! ## Values with places and constants -/

namespace Place

def fieldOutlines : Place → List Outline
  | .var i | .temp i | .arg i => [Outlined.outline i]
  | .static path => [Outlined.outline path]
  | .returnSlot => []
  | .field base i | .downcast base i => [base.outline, Outlined.outline i]
  | .deref base => [base.outline]
  | .index base position => [base.outline, position.outline]

theorem outline_eq (p : Place) : p.outline = record (name (forms.name p.form) :: p.fieldOutlines) := by
  cases p <;> rfl

theorem outline_tells (p q : Place) : p.outline.Tells q.outline (p = q) := by
  induction p generalizing q <;> rw [outline_eq, outline_eq] <;>
    refine .record (.form (by decide) fun same => ?_) <;> cases q <;> cases same
  case var.var i j => exact (tells i j).last.imp (congrArg var)
  case temp.temp i j => exact (tells i j).last.imp (congrArg temp)
  case arg.arg i j => exact (tells i j).last.imp (congrArg arg)
  case static.static path path' => exact (tells path path').last.imp (congrArg static)
  case returnSlot.returnSlot => exact Outline.Tells.nil.imp fun _ => rfl
  case field.field base i ih base' j =>
    rw [field.injEq]
    exact (ih base').cons (tells i j).last
  case deref.deref base ih base' => exact (ih base').last.imp (congrArg deref)
  case index.index base position ih ih' base' position' =>
    rw [index.injEq]
    exact (ih base').cons (ih' position').last
  case downcast.downcast base i ih base' j =>
    rw [downcast.injEq]
    exact (ih base').cons (tells i j).last

end Place

instance : Delimited Place where
  tells := Place.outline_tells

instance : Delimited Constant where
  tells a b := by
    refine .form (by decide) fun same => ?_
    cases a <;> cases b <;> cases same
    case int.int m n => exact (Outline.Tells.plain (i64_tells m n)).last.imp (congrArg _)
    case uint.uint m n => exact (tells m n).last.imp (congrArg _)
    case float.float m n => exact (tells m n).last.imp (congrArg _)
    case bool.bool m n => exact (Outline.Tells.plain (bool_tells m n)).last.imp (congrArg _)
    case bytes.bytes bs cs => exact (Outline.Tells.byteString bs cs).last.imp (congrArg _)
    case text.text t u => exact (tells t u).last.imp (congrArg _)
    case item.item path path' => exact (tells path path').last.imp (congrArg _)
    case address.address path offset path' offset' =>
      rw [Constant.address.injEq]
      exact (tells path path').cons (option_tells offset offset').last

def Operand.fieldOutlines : Operand → List Outline
  | .place p => [outline p]
  | .constant c => [outline c]

theorem Operand.outline_eq (operand : Operand) :
    outline operand = join (name (forms.name operand.form) :: operand.fieldOutlines) := by
  cases operand <;> rfl

instance : Delimited Operand where
  tells a b := by
    rw [a.outline_eq, b.outline_eq]
    refine .form (by decide) fun same => ?_
    cases a <;> cases b <;> cases same
    case place.place p q => exact (tells p q).last.imp (congrArg _)
    case constant.constant c d => exact (tells c d).last.imp (congrArg _)

instance : Delimited Expr where
  tells a b := by
    refine .form (by decide) fun same => ?_
    cases a <;> cases b <;> cases same
    case use.use v w => exact (tells v w).last.imp (congrArg _)
    case constant.constant c d => exact (tells c d).last.imp (congrArg _)
    case repeated.repeated v m w n =>
      rw [Expr.repeated.injEq]
      exact (tells v w).cons (tells m n).last
    case borrow.borrow r k p r' k' p' =>
      rw [Expr.borrow.injEq]
      exact (tells r r').cons ((tells k k').cons (tells p p').last)
    case cast.cast v t w u =>
      rw [Expr.cast.injEq]
      exact (tells v w).cons (tells t u).last
    case binary.binary v op v' w op' w' =>
      rw [Expr.binary.injEq]
      exact (tells v w).cons ((tells op op').cons (tells v' w').last)
    case unary.unary v op w op' =>
      rw [Expr.unary.injEq]
      exact (tells v w).cons (tells op op').last
    case metadataOf.metadataOf v w => exact (tells v w).last.imp (congrArg _)
    case pointerOf.pointerOf v w => exact (tells v w).last.imp (congrArg _)
    case fatPointer.fatPointer v v' w w' =>
      rw [Expr.fatPointer.injEq]
      exact (tells v w).cons (tells v' w').last
    case tuple.tuple vs ws => exact (seq_tells vs ws).last.imp (congrArg _)
    case array.array vs ws => exact (seq_tells vs ws).last.imp (congrArg _)
    case variant.variant p i v q j w =>
      rw [Expr.variant.injEq]
      exact (tells p q).cons ((tells i j).cons (tells v w).last)
    case struct.struct p i vs q j ws =>
      rw [Expr.struct.injEq]
      exact (tells p q).cons ((option_tells i j).cons (seq_tells vs ws).last)

instance : Delimited Callee where
  tells a b := by
    refine .form (by decide) fun same => ?_
    cases a <;> cases b <;> cases same
    case value.value v w => exact (tells v w).last.imp (congrArg _)
    case path.path p q => exact (tells p q).last.imp (congrArg _)
    case intrinsic.intrinsic name arguments name' arguments' =>
      rw [Callee.intrinsic.injEq]
      exact (tells name name').cons (tells arguments arguments').last

instance : Delimited Terminator where
  tells a b := by
    refine .form (by decide) fun same => ?_
    cases a <;> cases b <;> cases same
    case incomplete.incomplete => exact Outline.Tells.nil.imp fun _ => rfl
    case ret.ret => exact Outline.Tells.nil.imp fun _ => rfl
    case diverge.diverge => exact Outline.Tells.nil.imp fun _ => rfl
    case goto.goto l l' => exact (tells l l').last.imp (congrArg _)
    case unwind.unwind l l' => exact (tells l l').last.imp (congrArg _)
    case branch.branch v yes no w yes' no' =>
      rw [Terminator.branch.injEq]
      exact (tells v w).cons ((tells yes yes').cons (tells no no').last)
    case switch.switch v ls w ls' =>
      rw [Terminator.switch.injEq]
      exact (tells v w).cons (seq_tells ls ls').last
    case call.call f vs p r u f' vs' p' r' u' =>
      rw [Terminator.call.injEq]
      exact (tells f f').cons ((seq_tells vs vs').cons
        ((tells p p').cons ((tells r r').cons (tells u u').last)))

instance : Delimited Statement where
  tells
    | ⟨target, source⟩, ⟨target', source'⟩ => by
      rw [Statement.mk.injEq]
      exact (tells target target').cons (tells source source').last

instance : Delimited Block where
  tells
    | ⟨statements, terminator⟩, ⟨statements', terminator'⟩ => by
      rw [Block.mk.injEq]
      exact (seq_tells statements statements').cons (tells terminator terminator').last

instance : Delimited Body where
  tells
    | ⟨args, result, vars, temps, blocks⟩, ⟨args', result', vars', temps', blocks'⟩ => by
      rw [Body.mk.injEq]
      exact (seq_tells args args').cons ((tells result result').cons ((seq_tells vars vars').cons
        ((seq_tells temps temps').cons (seq_tells blocks blocks').last)))

/-! ## Any kind of value -/

instance (kind : Kind) : Delimited kind.Node := by
  cases kind <;> exact inferInstance

theorem encode_tells {kind : Kind} {a b : kind.Node} (a_short : (outline a).Short)
    (b_short : (outline b).Short) : Tells (encode a) (encode b) (a = b) := by
  rw [← LawfulRecord.outline_bytes, ← LawfulRecord.outline_bytes]
  exact tells a b a_short b_short

/-- Values compare equal just when their binary forms cannot be told apart, whatever follows them, and
just when the same is hashed of them. -/
theorem beq_iff_encode_iff_writes :
    (∀ (kind : Kind) (a b : kind.Node), (outline a).Short → (outline b).Short → ∀ s t : List UInt8,
      encode a ++ s = encode b ++ t ↔ (a == b) = true ∧ s = t) ∧
    (∀ kind : Kind, Equivalence fun a b : kind.Node => (a == b) = true) ∧
    ∀ (kind : Kind) (hashed : kind.Node → List Write), kind.writes? = some hashed →
      ∀ a b, hashed a = hashed b ↔ (a == b) = true := by
  refine ⟨?_, ?_, ?_⟩
  · intro kind a b a_short b_short s t
    rw [beq_iff_eq]
    constructor
    · intro equal
      exact encode_tells a_short b_short s t equal
    · rintro ⟨rfl, rfl⟩
      rfl
  · intro kind
    simp only [beq_iff_eq]
    exact eq_equivalence
  · intro kind hashed has a b
    rw [beq_iff_eq]
    exact kind.writes?_eq_iff has a b

/-- A place that nests as deep as places are read. -/
def Place.sunk : Place := Nat.repeat .deref (maxDepth - 1) (.var 0)

theorem beq_iff_encode_iff_writes_sunk :
    maxDepth < nest (Place.deref Place.sunk) ∧
    encode (Place.deref Place.sunk) ++ [7] ≠ encode (Place.field Place.sunk 0) ++ [7] ∧
    writes (Constant.float 0) ≠ writes (Constant.float 0x8000000000000000) := by
  have short (p : Place) (none : (outline p).lengths = []) : (outline p).Short := by
    intro n member
    rw [none] at member
    cases member
  refine ⟨by decide +kernel, ?_, ?_⟩
  · intro same
    have told := (beq_iff_encode_iff_writes.1 .place (.deref Place.sunk) (.field Place.sunk 0)
      (short _ (by decide +kernel)) (short _ (by decide +kernel)) [7] [7]).1 same
    exact absurd told.1 (by decide)
  · intro same
    have equal :=
      (beq_iff_encode_iff_writes.2.2 .constant _ rfl (.float 0) (.float 0x8000000000000000)).1 same
    exact absurd equal (by decide)

end MidIR
