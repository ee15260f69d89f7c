import MidIR.Kind

namespace MidIR

class Bulky (α : Type) where
  bulk : α → Nat

export Bulky (bulk)

abbrev Bulky.none (α : Type) : Bulky α := ⟨fun _ => 0⟩

/-- The bulk of a sequence: each element counts besides what there is to hold of it. -/
def bulkAll {α : Type} [Bulky α] : List α → Nat
  | [] => 0
  | value :: values => 1 + bulk value + bulkAll values

instance : Bulky UInt32 := .none _

instance : Bulky UInt64 := .none _

instance : Bulky String := ⟨fun s => (utf8 s).length⟩

instance : Bulky ItemPath := ⟨fun path => bulk path.package + bulkAll path.components⟩

instance : Bulky Scalar := .none _

instance : Bulky RefKind := .none _

instance : Bulky BinaryOp := .none _

instance : Bulky UnaryOp := .none _

instance : Bulky Label := .none _

namespace Ty

mutual

def bulk : Ty → Nat
  | .scalar _ => 1
  | .tuple elements => 1 + bulkAll elements
  | .path item arguments => 1 + Bulky.bulk item + bulkAll arguments
  | .ref _ inner | .pointer _ inner | .array inner _ | .slice inner => 1 + inner.bulk
termination_by structural t => t

def bulkAll : List Ty → Nat
  | [] => 0
  | t :: ts => 1 + t.bulk + bulkAll ts
termination_by structural ts => ts

end

end Ty

instance : Bulky Ty := ⟨Ty.bulk⟩

instance : Bulky TypeArgs := ⟨fun arguments => bulkAll arguments.types⟩

instance : Bulky Path := ⟨fun path => bulk path.item + bulk path.arguments⟩

def Constant.bulk : Constant → Nat
  | .int _ | .uint _ | .float _ | .bool _ => 1
  | .bytes bs => 1 + bs.length
  | .text t => 1 + Bulky.bulk t
  | .item path | .address path _ => 1 + Bulky.bulk path

instance : Bulky Constant := ⟨Constant.bulk⟩

def Place.bulk : Place → Nat
  | .var _ | .temp _ | .arg _ | .returnSlot => 1
  | .static path => 1 + Bulky.bulk path
  | .field base _ | .deref base | .downcast base _ => 1 + base.bulk
  | .index base position => 1 + base.bulk + position.bulk

instance : Bulky Place := ⟨Place.bulk⟩

def Operand.bulk : Operand → Nat
  | .place p => 1 + Bulky.bulk p
  | .constant c => 1 + Bulky.bulk c

instance : Bulky Operand := ⟨Operand.bulk⟩

def Expr.bulk : Expr → Nat
  | .use value | .repeated value _ | .unary value _ | .metadataOf value | .pointerOf value =>
    1 + Bulky.bulk value
  | .constant c => 1 + Bulky.bulk c
  | .borrow _ _ place => 1 + Bulky.bulk place
  | .cast value ty => 1 + Bulky.bulk value + Bulky.bulk ty
  | .binary left _ right => 1 + Bulky.bulk left + Bulky.bulk right
  | .fatPointer pointer metadata => 1 + Bulky.bulk pointer + Bulky.bulk metadata
  | .tuple values | .array values => 1 + bulkAll values
  | .variant path _ value => 1 + Bulky.bulk path + Bulky.bulk value
  | .struct path _ fields => 1 + Bulky.bulk path + bulkAll fields

instance : Bulky Expr := ⟨Expr.bulk⟩

def Callee.bulk : Callee → Nat
  | .value v => Bulky.bulk v
  | .path p => Bulky.bulk p
  | .intrinsic name arguments => Bulky.bulk name + Bulky.bulk arguments

instance : Bulky Callee := ⟨Callee.bulk⟩

def Terminator.bulk : Terminator → Nat
  | .incomplete | .ret | .diverge | .goto _ | .unwind _ => 1
  | .branch condition _ _ => 1 + Bulky.bulk condition
  | .switch value targets => 1 + Bulky.bulk value + bulkAll targets
  | .call callee arguments result _ _ =>
    1 + Bulky.bulk callee + bulkAll arguments + Bulky.bulk result

instance : Bulky Terminator := ⟨Terminator.bulk⟩

instance : Bulky Statement := ⟨fun statement => bulk statement.target + bulk statement.source⟩

instance : Bulky Block := ⟨fun block => bulkAll block.statements + bulk block.terminator⟩

instance : Bulky Body where
  bulk body := bulkAll body.args + bulk body.result + bulkAll body.vars + bulkAll body.temps +
    bulkAll body.blocks

instance : (kind : Kind) → Bulky kind.Node := Kind.each

theorem Ty.bulkAll_eq (types : List Ty) : Ty.bulkAll types = MidIR.bulkAll types := by
  induction types with
  | nil => rfl
  | cons t types ih =>
    rw [Ty.bulkAll, ih]
    rfl

end MidIR
