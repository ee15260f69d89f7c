import MidIR.Note

namespace MidIR

structure Statement where
  target : Place
  source : Expr
  deriving DecidableEq, Repr

structure Block where
  statements : List Statement := []
  terminator : Terminator := .incomplete
  deriving DecidableEq, Repr

namespace Block

def push (block : Block) (statement : Statement) : Block :=
  { block with statements := block.statements ++ [statement] }

def setTerminator (block : Block) (terminator : Terminator) : Block :=
  { block with terminator }

def isTerminated (block : Block) : Bool :=
  !block.terminator.isIncomplete

def successors (block : Block) : List Label :=
  block.terminator.successors

end Block

structure Body where
  args : List Ty
  result : Ty
  vars : List Ty := []
  temps : List Ty := []
  blocks : List Block := []
  deriving DecidableEq, Repr

/-- A request that no body built to its rules makes: for a block or a switch target that is not there,
or for the binary form of a text or sequence that is too long for one. -/
inductive Misuse
  | noSuchBlock (label : Label) (blocks : Nat)
  | noSuchTarget (value targets : Nat)
  | notSwitch (form : Terminator.Form)
  | tooLong (elements : Nat)
  deriving DecidableEq, Repr

def Terminator.switchTarget (value : Nat) : Terminator → Except Misuse Label
  | .switch _ targets =>
    match targets[value]? with
    | some target => .ok target
    | none => .error (.noSuchTarget value targets.length)
  | terminator => .error (.notSwitch terminator.form)

/-- What a body hands out, the body after that and what is noted of it. -/
structure Grown (α : Type) where
  handed : α
  body : Body
  note : Note

namespace Body

def newBlock (body : Body) : Grown Label :=
  let label := .ofNat body.blocks.length
  ⟨label, { body with blocks := body.blocks ++ [{}] }, .allocatedBlock label⟩

def newVariable (body : Body) (ty : Ty) : Grown Place :=
  let index := body.vars.length.toUInt32
  ⟨.var index, { body with vars := body.vars ++ [ty] }, .declaredVariable index ty⟩

def newTemporary (body : Body) (ty : Ty) : Grown Place :=
  let index := body.temps.length.toUInt32
  ⟨.temp index, { body with temps := body.temps ++ [ty] }, .declaredTemporary index ty⟩

def block? (body : Body) (label : Label) : Option Block :=
  body.blocks[label.toNat]?

def entry? (body : Body) : Option Block :=
  body.block? .entry

def block (body : Body) (label : Label) : Except Misuse Block :=
  match body.block? label with
  | some block => .ok block
  | none => .error (.noSuchBlock label body.blocks.length)

def modifyBlock (body : Body) (label : Label) (change : Block → Block) : Except Misuse Body :=
  match body.block? label with
  | some block => .ok { body with blocks := body.blocks.set label.toNat (change block) }
  | none => .error (.noSuchBlock label body.blocks.length)

def statementCount (body : Body) : Nat :=
  (body.blocks.flatMap (·.statements)).length

/-- The labels of the blocks, of which there are as many as a 32-bit number says. -/
def labels (body : Body) : List Label :=
  (List.range body.blocks.length.toUInt32.toNat).map .ofNat

def labelledBlocks (body : Body) : List (Label × Block) :=
  body.blocks.zipIdx.map fun (block, i) => (.ofNat i, block)

end Body

end MidIR
