import Mathlib
import MidIR.Proofs.Binary.RoundTrip
import MidIR.Proofs.Json.Paying
import MidIR.Proofs.Json.RoundTrip

namespace MidIR

open Outline (join record name seq option)
open Json (Pays PaysFields ofItems)

/-! ## Lengths in outlines -/

namespace Outline

def extent (o : Outline) : Nat := o.lengths.sum

variable {α : Type}

@[simp]
theorem extent_append (a b : Outline) : (a ++ b).extent = a.extent + b.extent := List.sum_append

@[simp]
theorem extent_plain (bytes : List UInt8) : (plain bytes).extent = 0 := rfl

@[simp]
theorem extent_join_nil : (join []).extent = 0 := rfl

@[simp]
theorem extent_join_cons (o : Outline) (os : List Outline) :
    (join (o :: os)).extent = o.extent + (join os).extent :=
  extent_append o (join os)

@[simp]
theorem extent_record (parts : List Outline) : (record parts).extent = (join parts).extent := rfl

@[simp]
theorem extent_name (text : String) : (name text).extent = 0 := rfl

@[simp]
theorem extent_length (n : Nat) : (length n).extent = n := rfl

@[simp]
theorem extent_byteString (bytes : List UInt8) : (byteString bytes).extent = bytes.length := by
  simp [byteString]

theorem extent_join_map (outline : α → Outline) (values : List α) :
    (join (values.map outline)).extent = (values.map fun a => (outline a).extent).sum := by
  induction values with
  | nil => rfl
  | cons a values ih => rw [List.map_cons, extent_join_cons, ih, List.map_cons, List.sum_cons]

@[simp]
theorem extent_seq (outline : α → Outline) (values : List α) :
    (seq outline values).extent = ofItems (fun a => (outline a).extent) values := by
  rw [seq, extent_append, extent_join_map, extent_length, ofItems]

end Outline

namespace Json

/-- Values whose lengths a read pays for. -/
class Paid (α : Type) [JsonForm α] [Outlined α] : Prop where
  pays (levels : Nat) : Pays 0 (JsonForm.read levels) fun value : α => (outline value).extent

open Paid

section Parts

variable {α β : Type} [JsonForm α] [Outlined α] [Paid α] {levels : Nat}

theorem Pays.values (levels : Nat) :
    Pays 0 (Read.values levels) (ofItems fun value : α => (outline value).extent) :=
  .list fun below _ => pays below

theorem PaysFields.of (name : String) (below : Nat) :
    PaysFields (.of name below) fun value : α => (outline value).extent :=
  .required (pays below)

theorem Pays.form {make : α → β} {cost : β → Nat} (cheap : ∀ a, cost (make a) ≤ (outline a).extent) :
    Pays.Covers (.of make : Variant levels β) cost :=
  fun below _ => (pays below).map cheap

end Parts

instance : Paid UInt32 where
  pays _ := Pays.u32

instance : Paid UInt64 where
  pays _ := Pays.u64

instance : Paid String where
  pays _ := Pays.text.imp fun s => by simp [outline, Outline.text]

instance : Paid Label where
  pays _ := Pays.u32.map fun _ => Nat.le_refl _

instance : Paid Scalar where
  pays _ := .variant fun _ => rfl

instance : Paid RefKind where
  pays _ := .variant fun _ => rfl

instance : Paid BinaryOp where
  pays _ := .variant fun _ => rfl

instance : Paid UnaryOp where
  pays _ := .variant fun _ => rfl

instance : Paid ItemPath where
  pays levels := .record fun below _ => .map (.both (.of _ below) (.required (.values below)))
    fun (package, components) => by
      simp [outline]

/-! ## Types -/

theorem extent_outlineAll (types : List Ty) :
    (Ty.outlineAll types).extent = (types.map fun t => (outline t).extent).sum := by
  induction types with
  | nil => rfl
  | cons t types ih => rw [Ty.outlineAll, Outline.extent_append, ih, List.map_cons, List.sum_cons]; rfl

theorem pays_ty (levels : Nat) : Pays 0 (Ty.read levels) fun t => (outline t).extent := by
  -- Strong induction, since the types in a record are read two or three levels further in.
  induction levels using Nat.strongRecOn with
  | ind levels ih =>
    have list (below : Nat) (inside : below < levels) :
        Pays 0 (Read.list below fun under _ => Ty.read under) (ofItems fun t => (outline t).extent) :=
      .list fun under deeper => ih under (by omega)
    rw [Ty.read]
    refine .variant fun form => ?_
    cases form with
    | scalar => exact .form fun s => by simp [outline, Ty.outline]
    | tuple =>
      intro below inside
      refine (list below inside).map fun elements => ?_
      simp [outline, Ty.outline, extent_outlineAll, ofItems]
    | path =>
      intro below inside
      refine .record fun under deeper => .map (.both (.of _ under)
        (.required (.record fun lower nested => .required (list lower (by omega))))) ?_
      rintro ⟨item, arguments⟩
      simp [outline, Ty.outline, extent_outlineAll, ofItems]
    | ref =>
      intro below inside
      refine .record fun under deeper => .map (.both (.of _ under) (.required (ih under (by omega)))) ?_
      rintro ⟨kind, inner⟩
      simp [outline, Ty.outline]
    | pointer =>
      intro below inside
      refine .record fun under deeper => .map (.both (.of _ under) (.required (ih under (by omega)))) ?_
      rintro ⟨kind, inner⟩
      simp [outline, Ty.outline]
    | array =>
      intro below inside
      refine .record fun under deeper => .map (.both (.required (ih under (by omega))) (.of _ under)) ?_
      rintro ⟨inner, size⟩
      simp [outline, Ty.outline]
    | slice =>
      intro below inside
      refine (ih below inside).map fun inner => ?_
      simp [outline, Ty.outline]

instance : Paid Ty := ⟨pays_ty⟩

instance : Paid TypeArgs where
  pays levels := .record fun below _ => .map (.required (.values below)) fun types => by
    simp [outline]

instance : Paid Path where
  pays levels := .record fun below _ => .map (.both (.of _ below) (.of _ below))
    fun (item, arguments) => by simp [outline]

/-! ## Constants and places -/

instance : Paid Constant where
  pays levels := by
    refine .variant fun form => ?_
    cases form with
    | int =>
      intro below inside
      exact Pays.i64.map fun value => by simp [outline, Constant.fieldOutlines]
    | uint => exact .form fun value => by simp [outline, Constant.fieldOutlines]
    | float => exact .form fun bits => by simp [outline, Constant.fieldOutlines]
    | bool =>
      intro below inside
      exact Pays.bool.map fun value => by simp [outline, Constant.fieldOutlines]
    | bytes =>
      intro below inside
      have bytes : Pays 0 (Read.list below fun _ _ => Read.u8) (ofItems fun _ => 0) :=
        .list fun _ _ => Pays.u8
      exact bytes.map fun bs => by simp [outline, Constant.fieldOutlines, ofItems]
    | text => exact .form fun t => by simp [outline, Constant.fieldOutlines]
    | item =>
      intro below inside
      exact .record fun under _ => .map (.of _ under) fun path => by
        simp [outline, Constant.fieldOutlines]
    | address =>
      intro below inside
      have offset : Pays 0 (Read.option Read.u64) fun _ => 0 :=
        Pays.u64.option (Nat.le_refl _) fun _ => Nat.le_refl _
      refine .record fun under _ => .map (.both (.of _ under) (.one offset fun _ _ => rfl)) ?_
      rintro ⟨path, offset⟩
      cases offset <;> simp [outline, Constant.fieldOutlines, Outline.option]

theorem pays_place (levels : Nat) : Pays 0 (Place.read levels) fun p => (outline p).extent := by
  induction levels using Nat.strongRecOn with
  | ind levels ih =>
    rw [Place.read]
    refine .variant fun form => ?_
    cases form with
    | var => exact .form fun i => by simp [outline, Place.outline]
    | temp => exact .form fun i => by simp [outline, Place.outline]
    | arg => exact .form fun i => by simp [outline, Place.outline]
    | static => exact .form fun path => by simp [outline, Place.outline]
    | returnSlot => exact rfl
    | field =>
      intro below inside
      refine .record fun under deeper => .map (.both (.required (ih under (by omega))) (.of _ under)) ?_
      rintro ⟨base, i⟩
      simp [outline, Place.outline]
    | deref =>
      intro below inside
      refine .record fun under deeper => .map (.required (ih under (by omega))) fun base => ?_
      simp [outline, Place.outline]
    | index =>
      intro below inside
      refine .record fun under deeper => .map
        (.both (.required (ih under (by omega))) (.required (ih under (by omega)))) ?_
      rintro ⟨base, position⟩
      simp [outline, Place.outline]
    | downcast =>
      intro below inside
      refine .record fun under deeper => .map (.both (.required (ih under (by omega))) (.of _ under)) ?_
      rintro ⟨base, i⟩
      simp [outline, Place.outline]

instance : Paid Place := ⟨pays_place⟩

instance : Paid Operand where
  pays levels := by
    refine .variant fun form => ?_
    cases form with
    | place => exact .form fun p => by simp [outline]
    | constant => exact .form fun c => by simp [outline]

/-! ## Expressions and terminators -/

instance : Paid Expr where
  pays levels := by
    refine .variant fun form => ?_
    cases form with
    | use => exact .form fun value => by simp [outline, Expr.fieldOutlines]
    | constant => exact .form fun c => by simp [outline, Expr.fieldOutlines]
    | repeated =>
      intro below inside
      exact .record fun under _ => .map (.both (.of _ under) (.of _ under)) fun (value, count) => by
        simp [outline, Expr.fieldOutlines]
    | borrow =>
      intro below inside
      exact .record fun under _ => .map (.both (.of _ under) (.both (.of _ under) (.of _ under)))
        fun (region, kind, place) => by simp [outline, Expr.fieldOutlines]
    | cast =>
      intro below inside
      exact .record fun under _ => .map (.both (.of _ under) (.of _ under)) fun (value, ty) => by
        simp [outline, Expr.fieldOutlines]
    | binary =>
      intro below inside
      exact .record fun under _ => .map (.both (.of _ under) (.both (.of _ under) (.of _ under)))
        fun (left, op, right) => by simp [outline, Expr.fieldOutlines]
    | unary =>
      intro below inside
      exact .record fun under _ => .map (.both (.of _ under) (.of _ under)) fun (value, op) => by
        simp [outline, Expr.fieldOutlines]
    | metadataOf => exact .form fun value => by simp [outline, Expr.fieldOutlines]
    | pointerOf => exact .form fun value => by simp [outline, Expr.fieldOutlines]
    | fatPointer =>
      intro below inside
      exact .record fun under _ => .map (.both (.of _ under) (.of _ under))
        fun (pointer, metadata) => by simp [outline, Expr.fieldOutlines]
    | tuple =>
      intro below inside
      exact (Pays.values below).map fun values => by simp [outline, Expr.fieldOutlines]
    | array =>
      intro below inside
      exact (Pays.values below).map fun values => by simp [outline, Expr.fieldOutlines]
    | variant =>
      intro below inside
      exact .record fun under _ => .map (.both (.of _ under) (.both (.of _ under) (.of _ under)))
        fun (path, index, value) => by simp [outline, Expr.fieldOutlines]
    | struct =>
      intro below inside
      have index : Pays 0 (Read.option Read.u32) fun _ => 0 :=
        Pays.u32.option (Nat.le_refl _) fun _ => Nat.le_refl _
      refine .record fun under _ => .map
        (.both (.of _ under) (.both (.one index fun _ _ => rfl) (.required (.values under)))) ?_
      rintro ⟨path, index, fields⟩
      cases index <;> simp [outline, Expr.fieldOutlines, Outline.option]

instance : Paid Callee where
  pays levels := by
    refine .variant fun form => ?_
    cases form with
    | value => exact .form fun v => by simp [outline, Callee.fieldOutlines]
    | path => exact .form fun p => by simp [outline, Callee.fieldOutlines]
    | intrinsic =>
      intro below inside
      exact .record fun under _ => .map (.both (.of _ under) (.of _ under)) fun (name, arguments) => by
        simp [outline, Callee.fieldOutlines]

instance : Paid Terminator where
  pays levels := by
    refine .variant fun form => ?_
    cases form with
    | incomplete | ret | diverge => exact rfl
    | goto => exact .form fun target => by simp [outline, Terminator.fieldOutlines]
    | unwind =>
      intro below inside
      exact .record fun under _ => .map (.of _ under) fun target => by
        simp [outline, Terminator.fieldOutlines]
    | branch =>
      intro below inside
      exact .record fun under _ => .map (.both (.of _ under) (.both (.of _ under) (.of _ under)))
        fun (condition, yes, no) => by simp [outline, Terminator.fieldOutlines]
    | switch =>
      intro below inside
      exact .record fun under _ => .map (.both (.of _ under) (.required (.values under)))
        fun (value, targets) => by simp [outline, Terminator.fieldOutlines]
    | call =>
      intro below inside
      refine .record fun under _ => .map (.both (.of _ under) (.both (.required (.values under))
        (.both (.of _ under) (.both (.of _ under) (.of _ under))))) ?_
      rintro ⟨callee, arguments, result, returns, unwinds⟩
      simp [outline, Terminator.fieldOutlines]

/-! ## Bodies -/

instance : Paid Statement where
  pays levels := .record fun below _ => .map (.both (.of _ below) (.of _ below))
    fun (target, source) => by simp [outline]

instance : Paid Block where
  pays levels := .record fun below _ => .map (.both (.required (.values below)) (.of _ below))
    fun (statements, terminator) => by simp [outline]

instance : Paid Body where
  pays levels := .record fun below _ => .map (.both (.required (.values below)) (.both (.of _ below)
    (.both (.required (.values below)) (.both (.required (.values below)) (.required (.values below))))))
    fun (args, result, vars, temps, blocks) => by simp [outline]

theorem extent_le_of_ofText {α : Type} [JsonForm α] [Outlined α] [Paid α] {text : String} {value : α}
    (read : ofText JsonForm.read text = .ok value) : (outline value).extent ≤ (utf8 text).length := by
  unfold ofText at read
  split at read
  · cases read
  · rename_i found
    cases read
    have paid := Paid.pays maxLevels _ _ _ found
    have weighed := weight_scan text.toList
    rw [length_utf8]
    simp only [weight_nil] at paid
    omega
  · cases read

end Json

namespace Body

open Json (Fault)

/-- The text that is written for what a text is read as. -/
def rewritten (text : String) : Except Fault String := toJsonText <$> ofJsonText text

/-- Whatever JSON text a body was read from, it can be written and read again in both formats. Its places
and types nest no deeper than a binary reader follows them. The last case is beyond what is asked of any
text that is shorter than 2^32 bytes: only a longer one can hold a sequence, a text or bytes of a length
that takes more than 32 bits, for which there is no binary form. -/
theorem stored_of_ofJsonText {text : String} {body : Body} (read : ofJsonText text = .ok body) :
    ofJsonText body.toJsonText = .ok body ∧
    (∀ canonical, rewritten text = .ok canonical → rewritten canonical = .ok canonical) ∧
    nest body ≤ maxDepth ∧
    ((∃ bytes, Binary.file body = .ok bytes ∧ Binary.decodeBody bytes = .ok body) ∨
      ∃ n, Binary.file body = .error (.tooLong n) ∧ 2 ^ 32 ≤ n ∧ n ≤ (utf8 text).length) := by
  have again : ofJsonText body.toJsonText = .ok body := by
    have written : Json.ofText JsonForm.read (body.toJsonText ++ "") = _ :=
      Json.ofText_written body (by simp)
    rw [String.append_empty, if_pos (Json.depth_le_of_ofText read)] at written
    exact written
  have shallow : nest body ≤ maxDepth :=
    Nat.le_trans (Json.nest_le_of_ofText read) (by decide)
  refine ⟨again, ?_, shallow, ?_⟩
  · intro canonical written
    rw [rewritten, read] at written
    cases written
    rw [rewritten, again]
    rfl
  · unfold Binary.file
    cases long : tooLong? body with
    | none =>
      have short := Binary.file_eq_ok.2 ⟨Binary.short_of_tooLong?_eq_none long, rfl⟩
      exact .inl ⟨_, rfl, Binary.decodeBody_eq_ok_iff.2 ⟨short, shallow⟩⟩
    | some n =>
      have large : 0xffffffff < n := by simpa using List.find?_some long
      have summed : n ≤ (outline body).extent := List.le_sum_of_mem (List.mem_of_find?_eq_some long)
      have paid := Json.extent_le_of_ofText read
      exact .inr ⟨n, rfl, large, Nat.le_trans summed paid⟩

/-- Fields out of order or as arrays, one that is unknown and one that is missing, bare names with null
behind them, and blanks. -/
def presented : String :=
  "[[], \x7b\"Tuple\":[]\x7d,[],[],[\x7b\"note\":[0],\"terminator\":\x7b\"Return\":null\x7d,\"statements\":[" ++
  "[\"Return\",\x7b\"Constant\":\x7b\"ItemAddr\":\x7b\"path\":[[\"a\",[]],[[]]]\x7d\x7d\x7d]]\x7d] ]\n"

theorem stored_presented :
    let body : Body := {
      args := [], result := .unit
      blocks := [⟨[⟨.returnSlot, .constant (.address (.ofItem ⟨"a", []⟩) none)⟩], .ret⟩] }
    ofJsonText presented = .ok body ∧ ofJsonText body.toJsonText = .ok body ∧
      ∃ bytes, Binary.file body = .ok bytes ∧ Binary.decodeBody bytes = .ok body := by
  intro body
  have read : ofJsonText presented = .ok body := by cbv
  obtain ⟨again, -, -, stored | ⟨n, -, large, small⟩⟩ := stored_of_ofJsonText read
  · exact ⟨read, again, stored⟩
  · have short : (utf8 presented).length < 2 ^ 32 := by decide +kernel
    omega

end Body

end MidIR
