import MidIR.Kind

namespace MidIR

def deepest : List Nat → Nat
  | [] => 0
  | n :: ns => max n (deepest ns)

/-- Values in which records of places and types may nest. -/
class Nested (α : Type) where
  nest : α → Nat

export Nested (nest)

abbrev Nested.flat (α : Type) : Nested α := ⟨fun _ => 0⟩

def nestAll {α : Type} [Nested α] (values : List α) : Nat := deepest (values.map nest)

instance : Nested UInt32 := .flat _

instance : Nested UInt64 := .flat _

instance : Nested String := .flat _

instance : Nested ItemPath := .flat _

instance : Nested Scalar := .flat _

instance : Nested RefKind := .flat _

instance : Nested BinaryOp := .flat _

instance : Nested UnaryOp := .flat _

instance : Nested Label := .flat _

namespace Ty

mutual

def nest : Ty → Nat
  | .scalar _ => 1
  | .tuple elements => 1 + nestAll elements
  | .path _ arguments => 1 + nestAll arguments
  | .ref _ inner | .pointer _ inner | .array inner _ | .slice inner => 1 + inner.nest
termination_by structural t => t

def nestAll : List Ty → Nat
  | [] => 0
  | t :: ts => max t.nest (nestAll ts)
termination_by structural ts => ts

end

end Ty

instance : Nested Ty := ⟨Ty.nest⟩

instance : Nested TypeArgs := ⟨fun arguments => nestAll arguments.types⟩

instance : Nested Path := ⟨fun path => nest path.arguments⟩

def Place.nest : Place → Nat
  | .var _ | .temp _ | .arg _ | .returnSlot => 1
  | .static path => 1 + Nested.nest path
  | .field base _ | .deref base | .downcast base _ => 1 + base.nest
  | .index base position => 1 + max base.nest position.nest

instance : Nested Place := ⟨Place.nest⟩

def Constant.nest : Constant → Nat
  | .item path | .address path _ => Nested.nest path
  | .int _ | .uint _ | .float _ | .bool _ | .bytes _ | .text _ => 0

instance : Nested Constant := ⟨Constant.nest⟩

def Operand.nest : Operand → Nat
  | .place p => Nested.nest p
  | .constant c => Nested.nest c

instance : Nested Operand := ⟨Operand.nest⟩

def Expr.nest : Expr → Nat
  | .use value | .repeated value _ | .unary value _ | .metadataOf value | .pointerOf value =>
    Nested.nest value
  | .constant c => Nested.nest c
  | .borrow _ _ place => Nested.nest place
  | .cast value ty => max (Nested.nest value) (Nested.nest ty)
  | .binary left _ right => max (Nested.nest left) (Nested.nest right)
  | .fatPointer pointer metadata => max (Nested.nest pointer) (Nested.nest metadata)
  | .tuple values | .array values => nestAll values
  | .variant path _ value => max (Nested.nest path) (Nested.nest value)
  | .struct path _ fields => max (Nested.nest path) (nestAll fields)

instance : Nested Expr := ⟨Expr.nest⟩

def Callee.nest : Callee → Nat
  | .value v => Nested.nest v
  | .path p => Nested.nest p
  | .intrinsic _ arguments => Nested.nest arguments

instance : Nested Callee := ⟨Callee.nest⟩

def Terminator.nest : Terminator → Nat
  | .incomplete | .ret | .diverge | .goto _ | .unwind _ => 0
  | .branch condition _ _ => Nested.nest condition
  | .switch value _ => Nested.nest value
  | .call callee arguments result _ _ =>
    max (Nested.nest callee) (max (nestAll arguments) (Nested.nest result))

instance : Nested Terminator := ⟨Terminator.nest⟩

instance : Nested Statement := ⟨fun statement => max (nest statement.target) (nest statement.source)⟩

instance : Nested Block := ⟨fun block => max (nestAll block.statements) (nest block.terminator)⟩

instance : Nested Body where
  nest body := deepest
    [nestAll body.args, nest body.result, nestAll body.vars, nestAll body.temps, nestAll body.blocks]

instance : (kind : Kind) → Nested kind.Node := Kind.each

theorem Ty.nestAll_eq (types : List Ty) : Ty.nestAll types = MidIR.nestAll types := by
  induction types with
  | nil => rfl
  | cons t types ih =>
    change max _ _ = max _ _
    rw [ih]
    rfl

end MidIR
