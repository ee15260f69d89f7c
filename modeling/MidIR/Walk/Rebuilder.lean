import MidIR.Walk.Event

/-!
# Rebuilding walks

A rebuilder goes through a node in the order of a walk and builds it anew. It is shown each node
before what the node holds, and may put another place for any place that it meets; the walk does not
go into a place that was put there.
-/

namespace MidIR

structure Rebuilder (σ : Type) where
  meet : Event → StateM σ Unit
  replace : Place → StateM σ (Option Place)

namespace Rebuilder

variable {σ : Type} (rebuilder : Rebuilder σ)

def constant (location : Location) (c : Constant) : StateM σ Constant := do
  rebuilder.meet (.constant location c)
  return c

def place (location : Location) (use : Use) (p : Place) : StateM σ Place := do
  rebuilder.meet (.place location use p)
  match ← rebuilder.replace p with
  | some other => return other
  | none =>
    match p with
    | .field base i => return .field (← place location .projection base) i
    | .deref base => return .deref (← place location .projection base)
    | .index base position =>
      return .index (← place location .projection base)
        (← place location .read position)
    | .downcast base i => return .downcast (← place location .projection base) i
    | leaf => return leaf

def operand (location : Location) (operand : Operand) : StateM σ Operand := do
  rebuilder.meet (.operand location operand)
  match operand with
  | .place p => return .place (← rebuilder.place location .read p)
  | .constant c => return .constant (← rebuilder.constant location c)

def operands (location : Location) (values : List Operand) : StateM σ (List Operand) :=
  values.mapM (rebuilder.operand location)

def expr (location : Location) (e : Expr) : StateM σ Expr := do
  rebuilder.meet (.expr location e)
  match e with
  | .use value => return .use (← rebuilder.operand location value)
  | .constant c => return .constant (← rebuilder.constant location c)
  | .repeated value count => return .repeated (← rebuilder.operand location value) count
  | .borrow region kind p => return .borrow region kind (← rebuilder.place location .borrow p)
  | .cast value ty => return .cast (← rebuilder.operand location value) ty
  | .binary left op right =>
    return .binary (← rebuilder.operand location left) op (← rebuilder.operand location right)
  | .unary value op => return .unary (← rebuilder.operand location value) op
  | .metadataOf value => return .metadataOf (← rebuilder.operand location value)
  | .pointerOf value => return .pointerOf (← rebuilder.operand location value)
  | .fatPointer pointer metadata =>
    return .fatPointer (← rebuilder.operand location pointer) (← rebuilder.operand location metadata)
  | .tuple values => return .tuple (← rebuilder.operands location values)
  | .array values => return .array (← rebuilder.operands location values)
  | .variant path index value => return .variant path index (← rebuilder.operand location value)
  | .struct path index fields => return .struct path index (← rebuilder.operands location fields)

def callee (location : Location) : Callee → StateM σ Callee
  | .value v => return .value (← rebuilder.operand location v)
  | other => return other

def terminator (location : Location) (terminator : Terminator) : StateM σ Terminator := do
  rebuilder.meet (.terminator location terminator)
  match terminator with
  | .branch condition yes no => return .branch (← rebuilder.operand location condition) yes no
  | .switch value targets => return .switch (← rebuilder.operand location value) targets
  | .call callee arguments result returns unwinds =>
    return .call (← rebuilder.callee location callee) (← rebuilder.operands location arguments)
      (← rebuilder.place location .store result) returns unwinds
  | other => return other

def statement (location : Location) (statement : Statement) : StateM σ Statement := do
  rebuilder.meet (.statement location statement)
  return ⟨← rebuilder.place location .store statement.target,
    ← rebuilder.expr location statement.source⟩

def block (label : Label) (block : Block) : StateM σ Block := do
  rebuilder.meet (.block label block)
  return ⟨← block.statements.zipIdx.mapM fun (statement, i) =>
      rebuilder.statement ⟨label, .statement i⟩ statement,
    ← rebuilder.terminator ⟨label, .terminator⟩ block.terminator⟩

def body (body : Body) : StateM σ Body := do
  rebuilder.meet (.body body)
  return { body with
    blocks := ← body.labelledBlocks.mapM fun (label, block) => rebuilder.block label block }

def recorder : Rebuilder (List Event) where
  meet event := modify (· ++ [event])
  replace _ := return none

/-- Puts one place for another wherever that occurs, and counts how often. -/
def substitution (source target : Place) : Rebuilder Nat where
  meet _ := return
  replace p := if p = source then do modify (· + 1); return some target else return none

end Rebuilder

end MidIR
