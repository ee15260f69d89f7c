import Mathlib.Algebra.Group.Nat.Defs
import MidIR.Body.Places

namespace MidIR

/-- What is asked of a body that grows. An assignment is a statement that is pushed. -/
inductive Request
  | newBlock
  | newVariable (ty : Ty)
  | newTemporary (ty : Ty)
  | push (label : Label) (statement : Statement)
  | setTerminator (label : Label) (terminator : Terminator)
  deriving DecidableEq, Repr

namespace Request

def varType? : Request → Option Ty
  | .newVariable ty => some ty
  | _ => none

def tempType? : Request → Option Ty
  | .newTemporary ty => some ty
  | _ => none

def statement? (label : Label) : Request → Option Statement
  | .push other statement => if other = label then some statement else none
  | _ => none

def terminator? (label : Label) : Request → Option Terminator
  | .setTerminator other terminator => if other = label then some terminator else none
  | _ => none

end Request

/-- A body and what it has handed out, in the order of the requests. -/
structure Progress where
  body : Body
  labels : List Label := []
  vars : List Place := []
  temps : List Place := []
  deriving DecidableEq, Repr

namespace Progress

def start (args : List Ty) (result : Ty) : Progress where
  body := { args, result }

def step (progress : Progress) : Request → Except Misuse Progress
  | .newBlock =>
    let grown := progress.body.newBlock
    .ok { progress with body := grown.body, labels := progress.labels ++ [grown.handed] }
  | .newVariable ty =>
    let grown := progress.body.newVariable ty
    .ok { progress with body := grown.body, vars := progress.vars ++ [grown.handed] }
  | .newTemporary ty =>
    let grown := progress.body.newTemporary ty
    .ok { progress with body := grown.body, temps := progress.temps ++ [grown.handed] }
  | .push label statement => do
    return { progress with body := ← progress.body.modifyBlock label (·.push statement) }
  | .setTerminator label terminator => do
    return { progress with body := ← progress.body.modifyBlock label (·.setTerminator terminator) }

def Offers (progress : Progress) : Place → Prop
  | .arg i => i.toNat < progress.body.args.length
  | p => p ∈ progress.vars ∨ p ∈ progress.temps

/-- The request names only blocks and locals that were handed out, and arguments. -/
def Admits (progress : Progress) : Request → Prop
  | .newBlock | .newVariable _ | .newTemporary _ => True
  | .push label statement =>
    label ∈ progress.labels ∧ ∀ p ∈ statement.places, ∀ q ∈ p.locals, progress.Offers q
  | .setTerminator label terminator =>
    label ∈ progress.labels ∧ (∀ p ∈ terminator.places, ∀ q ∈ p.locals, progress.Offers q) ∧
      ∀ target ∈ terminator.successors, target ∈ progress.labels

/-- From `first`, honest requests have led here. -/
inductive Run (first : Progress) : List Request → Progress → Prop
  | nil : Run first [] first
  | snoc {requests : List Request} {progress next : Progress} {request : Request} :
    Run first requests progress → progress.Admits request → progress.step request = .ok next →
    Run first (requests ++ [request]) next

/-- Fewer than 2^32 blocks and locals of each sort, so that their numbers tell them apart. -/
structure Few (progress : Progress) : Prop where
  labels : progress.labels.length < 2 ^ 32
  vars : progress.vars.length < 2 ^ 32
  temps : progress.temps.length < 2 ^ 32

end Progress

/-- A block with what the requests ask for it: all statements pushed to it, and the last terminator. -/
def Block.requested (requests : List Request) (label : Label) : Block where
  statements := requests.filterMap (Request.statement? label)
  terminator := (requests.filterMap (Request.terminator? label)).getLast?.getD .incomplete

end MidIR
