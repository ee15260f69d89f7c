import MidIR.Expr

namespace MidIR

structure Label where
  index : UInt32
  deriving DecidableEq, Repr

namespace Label

/-- The label of a position, which wraps past the last 32-bit number. -/
def ofNat (n : Nat) : Label := ⟨n.toUInt32⟩

def toNat (label : Label) : Nat := label.index.toNat

def entry : Label := ⟨0⟩

def compare (a b : Label) : Ordering := Ord.compare a.index b.index

end Label

inductive Callee
  | value (value : Operand)
  | path (path : Path)
  | intrinsic (name : String) (arguments : TypeArgs)
  deriving DecidableEq, Repr

namespace Callee

inductive Form
  | value | path | intrinsic
  deriving DecidableEq, Repr

def form : Callee → Form
  | .value _ => .value
  | .path _ => .path
  | .intrinsic .. => .intrinsic

def forms : NameTable Form where
  all := [.value, .path, .intrinsic]
  name | .value => "Value" | .path => "Path" | .intrinsic => "Intrinsic"
  complete a := by cases a <;> decide
  distinct := by decide

end Callee

inductive Terminator
  | incomplete
  | ret
  | diverge
  | goto (target : Label)
  | unwind (target : Label)
  | branch (condition : Operand) (yes no : Label)
  | switch (value : Operand) (targets : List Label)
  | call (callee : Callee) (arguments : List Operand) (result : Place) (returns unwinds : Label)
  deriving DecidableEq, Repr

namespace Terminator

inductive Form
  | incomplete | ret | diverge | goto | unwind | branch | switch | call
  deriving DecidableEq, Repr

def form : Terminator → Form
  | .incomplete => .incomplete
  | .ret => .ret
  | .diverge => .diverge
  | .goto _ => .goto
  | .unwind _ => .unwind
  | .branch .. => .branch
  | .switch .. => .switch
  | .call .. => .call

def forms : NameTable Form where
  all := [.incomplete, .ret, .diverge, .goto, .unwind, .branch, .switch, .call]
  name
    | .incomplete => "Incomplete" | .ret => "Return" | .diverge => "Diverge" | .goto => "Goto"
    | .unwind => "Panic" | .branch => "If" | .switch => "Switch" | .call => "Call"
  complete a := by cases a <;> decide
  distinct := by decide

def isIncomplete : Terminator → Bool
  | .incomplete => true
  | _ => false

/-- The blocks that may come next, in field order and with repetitions. -/
def successors : Terminator → List Label
  | .incomplete | .ret | .diverge => []
  | .goto target | .unwind target => [target]
  | .branch _ yes no => [yes, no]
  | .switch _ targets => targets
  | .call _ _ _ returns unwinds => [returns, unwinds]

def mapSuccessors (f : Label → Label) : Terminator → Terminator
  | .goto target => .goto (f target)
  | .unwind target => .unwind (f target)
  | .branch condition yes no => .branch condition (f yes) (f no)
  | .switch value targets => .switch value (targets.map f)
  | .call callee arguments result returns unwinds =>
    .call callee arguments result (f returns) (f unwinds)
  | terminator => terminator

theorem successors_mapSuccessors (f : Label → Label) (terminator : Terminator) :
    (terminator.mapSuccessors f).successors = terminator.successors.map f := by
  cases terminator <;> rfl

end Terminator

end MidIR
