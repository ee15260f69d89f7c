import MidIR.Body.Graph
import MidIR.Walk.Event
import MidIR.Text.Render

/-!
# Validation

A finished body has a block to enter, a terminator in every block, a block for every jump and a
declaration for every local. `defect?` finds the first thing amiss: without blocks nothing else is
looked at, then come the blocks in order, then the locals in the order of a walk.
-/

namespace MidIR

inductive Defect
  | noBlocks
  | incomplete (block : Label)
  | missingTarget (block target : Label)
  | undeclared (block : Label) (place : Place)
  deriving DecidableEq, Repr

def Defect.message : Defect → String
  | .noBlocks => "Internal compiler error: function body has no blocks"
  | .incomplete block =>
    "Internal compiler error: block " ++ block.render ++ " was never given a terminator"
  | .missingTarget block target =>
    "Internal compiler error: block " ++ block.render ++ " jumps to non-existent block "
      ++ target.render
  | .undeclared block place =>
    "Internal compiler error: block " ++ block.render ++ " uses undeclared local " ++ place.render

namespace Body

/-- Whether a place is no local, or one that the body declares. -/
def declares (body : Body) : Place → Bool
  | .var i => i.toNat < body.vars.length
  | .temp i => i.toNat < body.temps.length
  | .arg i => i.toNat < body.args.length
  | _ => true

def exitDefect? (body : Body) (label : Label) (block : Block) : Option Defect :=
  if block.isTerminated then
    (block.successors.find? fun target => (body.block? target).isNone).map (.missingTarget label)
  else some (.incomplete label)

def exitDefects? (body : Body) : Option Defect :=
  body.labelledBlocks.findSome? fun (label, block) => body.exitDefect? label block

def checkLocal (body : Body) (found : Option Defect) (event : Event) : Option Defect :=
  match found, event with
  | none, .place location _ p =>
    if body.declares p then none else some (.undeclared location.block p)
  | found, _ => found

def localDefects? (body : Body) : Option Defect :=
  body.walk.foldl body.checkLocal none

def defect? (body : Body) : Option Defect :=
  if body.blocks.isEmpty then some .noBlocks
  else body.exitDefects? <|> body.localDefects?

structure Summary where
  blocks : Nat
  statements : Nat
  unreachable : List Label
  deriving DecidableEq, Repr

def validate (body : Body) : Except Defect Summary :=
  match body.defect? with
  | some defect => .error defect
  | none => .ok ⟨body.blocks.length, body.statementCount, body.unreachable⟩

end Body

end MidIR
