import MidIR.Ty.Order

namespace MidIR

inductive Place
  | var (index : UInt32)
  | temp (index : UInt32)
  | arg (index : UInt32)
  | static (path : Path)
  | returnSlot
  | field (base : Place) (field : UInt32)
  | deref (base : Place)
  | index (base index : Place)
  | downcast (base : Place) (variant : UInt32)
  deriving Repr

namespace Place

inductive Form
  | var | temp | arg | static | returnSlot | field | deref | index | downcast
  deriving DecidableEq, Repr

def form : Place → Form
  | .var _ => .var
  | .temp _ => .temp
  | .arg _ => .arg
  | .static _ => .static
  | .returnSlot => .returnSlot
  | .field .. => .field
  | .deref _ => .deref
  | .index .. => .index
  | .downcast .. => .downcast

def forms : NameTable Form where
  all := [.var, .temp, .arg, .static, .returnSlot, .field, .deref, .index, .downcast]
  name
    | .var => "Variable" | .temp => "Temporary" | .arg => "Argument" | .static => "Static"
    | .returnSlot => "Return" | .field => "Field" | .deref => "Deref" | .index => "Index"
    | .downcast => "Downcast"
  complete a := by cases a <;> decide
  distinct := by decide

def base? : Place → Option Place
  | .field base _ | .deref base | .index base _ | .downcast base _ => some base
  | _ => none

def isLeaf (place : Place) : Bool :=
  place.base?.isNone

def root : Place → Place
  | .field base _ | .deref base | .index base _ | .downcast base _ => base.root
  | leaf => leaf

/-- The number of projections between a place and its root. -/
def depth : Place → Nat
  | .field base _ | .deref base | .index base _ | .downcast base _ => base.depth + 1
  | _ => 0

/-- Whether a pointer is followed between the root and this place. -/
def isIndirect : Place → Bool
  | .deref _ => true
  | .field base _ | .index base _ | .downcast base _ => base.isIndirect
  | _ => false

end Place

end MidIR
