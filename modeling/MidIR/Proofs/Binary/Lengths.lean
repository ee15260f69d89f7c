import MidIR.Proofs.Bulk
import MidIR.Proofs.Binary.Lawful

namespace MidIR

/-! ## The length of what is written -/

namespace Encode

@[simp]
theorem length_u32 (n : UInt32) : (u32 n).length = 4 := LittleEndian.length_bytes ..

@[simp]
theorem length_u64 (n : UInt64) : (u64 n).length = 8 := LittleEndian.length_bytes ..

@[simp]
theorem length_length (n : Nat) : (length n).length = 4 := LittleEndian.length_bytes ..

@[simp]
theorem length_bytes (bs : List UInt8) : (bytes bs).length = 4 + bs.length := by
  rw [bytes, List.length_append, length_length]

@[simp]
theorem length_text (s : String) : (text s).length = 4 + (utf8 s).length := length_bytes _

theorem le_length_name (name : String) (named : name ≠ "") : 5 ≤ (text name).length := by
  have some : utf8 name ≠ [] := fun none => named (utf8_injective (none.trans rfl))
  have := List.length_pos_iff.2 some
  rw [length_text]
  omega

end Encode

/-- A sort of values whose records take four bytes more than the bulk of the value. -/
class BulkyRecord (α : Type) [Record α] [Bulky α] : Prop where
  bulk_le (value : α) : bulk value + 4 ≤ (encode value).length

open BulkyRecord

theorem bulkAll_le_flatMap {α : Type} [Bulky α] {encode : α → List UInt8} {values : List α}
    (each : ∀ value ∈ values, bulk value + 4 ≤ (encode value).length) :
    bulkAll values ≤ (values.flatMap encode).length ∧
      4 * values.length ≤ (values.flatMap encode).length := by
  induction values with
  | nil => exact ⟨Nat.le_refl _, Nat.le_refl _⟩
  | cons value values ih =>
    have first := each value (List.mem_cons_self ..)
    have others := ih fun other member => each other (List.mem_cons_of_mem _ member)
    rw [bulkAll, List.flatMap_cons, List.length_append, List.length_cons]
    omega

theorem bulkAll_le {α : Type} [Record α] [Bulky α] [BulkyRecord α] (values : List α) :
    bulkAll values + 4 ≤ (Encode.seq encode values).length ∧
      4 + 4 * values.length ≤ (Encode.seq encode values).length := by
  have items : bulkAll values ≤ (values.flatMap encode).length ∧
      4 * values.length ≤ (values.flatMap encode).length :=
    bulkAll_le_flatMap fun value _ => bulk_le value
  rw [Encode.seq, List.length_append, Encode.length_length]
  omega

instance : BulkyRecord UInt32 := ⟨fun n => Nat.le_of_eq (Encode.length_u32 n).symm⟩

instance : BulkyRecord UInt64 where
  bulk_le n := by
    change 4 ≤ (Encode.u64 n).length
    rw [Encode.length_u64]
    decide

instance : BulkyRecord String where
  bulk_le s := by
    change (utf8 s).length + 4 ≤ (Encode.text s).length
    rw [Encode.length_text]
    omega

theorem bulk_le_append {m n : Nat} {front behind : List UInt8} (first : m + 4 ≤ front.length)
    (second : n + 4 ≤ behind.length) : m + n + 4 ≤ (front ++ behind).length := by
  rw [List.length_append]
  omega

instance : BulkyRecord ItemPath :=
  ⟨fun path => bulk_le_append (bulk_le path.package) (bulkAll_le path.components).1⟩

theorem le_length_text (name : String) : 0 + 4 ≤ (Encode.text name).length := by
  rw [Encode.length_text]
  omega

instance : BulkyRecord Scalar := ⟨fun _ => le_length_text _⟩

instance : BulkyRecord RefKind := ⟨fun _ => le_length_text _⟩

instance : BulkyRecord BinaryOp := ⟨fun _ => le_length_text _⟩

instance : BulkyRecord UnaryOp := ⟨fun _ => le_length_text _⟩

instance : BulkyRecord Label := ⟨fun label => bulk_le label.index⟩

namespace Ty

theorem bulk_le_encode (t : Ty) : t.bulk + 4 ≤ t.encode.length := by
  induction t using Ty.inductionOn with
  | scalar s =>
    have name := Encode.le_length_name "Primitive" (by decide)
    simp only [bulk, encode, List.length_append]
    omega
  | tuple elements ih =>
    have name := Encode.le_length_name "Tuple" (by decide)
    have items := (bulkAll_le_flatMap ih).1
    simp only [bulk, encode, bulkAll_eq, encodeAll_eq, List.length_append, Encode.length_length]
    omega
  | path item arguments ih =>
    have name := Encode.le_length_name "Path" (by decide)
    have itself := bulk_le item
    have items := (bulkAll_le_flatMap ih).1
    simp only [bulk, encode, bulkAll_eq, encodeAll_eq, List.length_append, Encode.length_length]
    omega
  | ref kind inner ih =>
    have name := Encode.le_length_name "Borrow" (by decide)
    simp only [bulk, encode, List.length_append]
    omega
  | pointer kind inner ih =>
    have name := Encode.le_length_name "Pointer" (by decide)
    simp only [bulk, encode, List.length_append]
    omega
  | array inner size ih =>
    have name := Encode.le_length_name "Array" (by decide)
    simp only [bulk, encode, List.length_append]
    omega
  | slice inner ih =>
    have name := Encode.le_length_name "Slice" (by decide)
    simp only [bulk, encode, List.length_append]
    omega

end Ty

instance : BulkyRecord Ty := ⟨Ty.bulk_le_encode⟩

instance : BulkyRecord TypeArgs := ⟨fun arguments => (bulkAll_le arguments.types).1⟩

instance : BulkyRecord Path :=
  ⟨fun path => bulk_le_append (bulk_le path.item) (bulk_le path.arguments)⟩

theorem bulk_le_tagged {α : Type} (names : NameTable α) (named : ∀ a ∈ names.all, names.name a ≠ "")
    (a : α) {payload : List UInt8} {n : Nat} (paid : n ≤ payload.length + 1) :
    n + 4 ≤ (Encode.text (names.name a) ++ payload).length := by
  have name := Encode.le_length_name (names.name a) (named a (names.complete a))
  rw [List.length_append]
  omega

/-! ## Constants and places -/

theorem Constant.bulk_le_payload (c : Constant) : c.bulk ≤ c.payload.length + 1 := by
  cases c with
  | int value => exact Nat.le_add_left ..
  | uint value => exact Nat.le_add_left ..
  | float bits => exact Nat.le_add_left ..
  | bool value => exact Nat.le_add_left ..
  | bytes bs =>
    rw [payload, Encode.length_bytes, bulk]
    omega
  | text t =>
    have : Bulky.bulk t + 4 ≤ (Encode.text t).length := bulk_le t
    rw [payload, Constant.bulk]
    omega
  | item path =>
    have := bulk_le path
    rw [payload, bulk]
    omega
  | address path offset =>
    have := bulk_le path
    rw [payload, bulk, List.length_append]
    omega

instance : BulkyRecord Constant :=
  ⟨fun c => bulk_le_tagged Constant.forms (by decide) c.form c.bulk_le_payload⟩

theorem Place.bulk_le_encode (p : Place) : p.bulk + 4 ≤ p.encode.length := by
  induction p with
  | var i =>
    have name := Encode.le_length_name "Variable" (by decide)
    rw [encode, bulk, List.length_append]
    omega
  | temp i =>
    have name := Encode.le_length_name "Temporary" (by decide)
    rw [encode, bulk, List.length_append]
    omega
  | arg i =>
    have name := Encode.le_length_name "Argument" (by decide)
    rw [encode, bulk, List.length_append]
    omega
  | static path =>
    have name := Encode.le_length_name "Static" (by decide)
    have := bulk_le path
    rw [encode, bulk, List.length_append]
    omega
  | returnSlot => exact Encode.le_length_name "Return" (by decide)
  | field base i ih =>
    have name := Encode.le_length_name "Field" (by decide)
    rw [encode, bulk, List.length_append, List.length_append]
    omega
  | deref base ih =>
    have name := Encode.le_length_name "Deref" (by decide)
    rw [encode, bulk, List.length_append]
    omega
  | index base position base_ih position_ih =>
    have name := Encode.le_length_name "Index" (by decide)
    rw [encode, bulk, List.length_append, List.length_append]
    omega
  | downcast base i ih =>
    have name := Encode.le_length_name "Downcast" (by decide)
    rw [encode, bulk, List.length_append, List.length_append]
    omega

instance : BulkyRecord Place := ⟨Place.bulk_le_encode⟩

/-! ## Expressions, blocks and bodies -/

instance : BulkyRecord Operand where
  bulk_le value := by
    cases value with
    | place p =>
      have := bulk_le p
      exact bulk_le_tagged Operand.forms (by decide) .place (by omega : 1 + bulk p ≤ _)
    | constant c =>
      have := bulk_le c
      exact bulk_le_tagged Operand.forms (by decide) .constant (by omega : 1 + bulk c ≤ _)

theorem Expr.bulk_le_payload (e : Expr) : e.bulk ≤ e.payload.length + 1 := by
  cases e with
  | use value | metadataOf value | pointerOf value =>
    have := bulk_le value
    rw [payload, bulk]
    omega
  | constant c =>
    have := bulk_le c
    rw [payload, bulk]
    omega
  | repeated value count =>
    have := bulk_le value
    rw [payload, bulk, List.length_append]
    omega
  | borrow region kind place =>
    have := bulk_le place
    rw [payload, bulk, List.length_append]
    omega
  | cast value ty =>
    have := bulk_le value
    have := bulk_le ty
    rw [payload, bulk, List.length_append]
    omega
  | binary left op right =>
    have := bulk_le left
    have := bulk_le right
    rw [payload, bulk, List.length_append, List.length_append]
    omega
  | unary value op =>
    have := bulk_le value
    rw [payload, bulk, List.length_append]
    omega
  | fatPointer pointer metadata =>
    have := bulk_le pointer
    have := bulk_le metadata
    rw [payload, bulk, List.length_append]
    omega
  | tuple values | array values =>
    have := (bulkAll_le values).1
    rw [payload, bulk]
    omega
  | variant path index value =>
    have := bulk_le path
    have := bulk_le value
    rw [payload, bulk, List.length_append, List.length_append]
    omega
  | struct path index fields =>
    have := bulk_le path
    have := (bulkAll_le fields).1
    rw [payload, bulk, List.length_append, List.length_append]
    omega

instance : BulkyRecord Expr :=
  ⟨fun e => bulk_le_tagged Expr.forms (by decide) e.form e.bulk_le_payload⟩

theorem Callee.bulk_le_payload (callee : Callee) : callee.bulk ≤ callee.payload.length := by
  cases callee with
  | value v => exact Nat.le_of_add_right_le (bulk_le v)
  | path p => exact Nat.le_of_add_right_le (bulk_le p)
  | intrinsic name arguments =>
    have : Bulky.bulk name + 4 ≤ (Encode.text name).length := bulk_le name
    have := bulk_le arguments
    rw [payload, Callee.bulk, List.length_append]
    omega

instance : BulkyRecord Callee where
  bulk_le callee :=
    bulk_le_tagged Callee.forms (by decide) callee.form (Nat.le_succ_of_le callee.bulk_le_payload)

theorem Terminator.bulk_le_payload (terminator : Terminator) :
    terminator.bulk ≤ terminator.payload.length + 1 := by
  cases terminator with
  | incomplete | ret | diverge => exact Nat.le_refl _
  | goto target | unwind target => exact Nat.le_add_left ..
  | branch condition yes no =>
    have := bulk_le condition
    rw [payload, bulk, List.length_append, List.length_append]
    omega
  | switch value targets =>
    have := bulk_le value
    have := (bulkAll_le targets).1
    rw [payload, bulk, List.length_append]
    omega
  | call callee arguments result returns unwinds =>
    have := bulk_le callee
    have := (bulkAll_le arguments).1
    have := bulk_le result
    simp only [payload, bulk, List.length_append]
    omega

instance : BulkyRecord Terminator where
  bulk_le terminator :=
    bulk_le_tagged Terminator.forms (by decide) terminator.form terminator.bulk_le_payload

instance : BulkyRecord Statement :=
  ⟨fun statement => bulk_le_append (bulk_le statement.target) (bulk_le statement.source)⟩

instance : BulkyRecord Block :=
  ⟨fun block => bulk_le_append (bulkAll_le block.statements).1 (bulk_le block.terminator)⟩

instance : BulkyRecord Body where
  bulk_le body := by
    have args := (bulkAll_le body.args).1
    have vars := (bulkAll_le body.vars).1
    have temps := (bulkAll_le body.temps).1
    have blocks := (bulkAll_le body.blocks).1
    have signature := bulk_le_append args (bulk_le body.result)
    exact bulk_le_append (bulk_le_append (bulk_le_append signature vars) temps) blocks

instance (kind : Kind) : BulkyRecord kind.Node := by
  cases kind <;> exact inferInstance

end MidIR
