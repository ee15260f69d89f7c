import MidIR.Walk.Event

namespace MidIR

structure Visitor (σ : Type) where
  meet : Event → (inside : StateM σ Unit) → StateM σ Unit

namespace Visitor

variable {σ : Type} (visitor : Visitor σ)

def constant (location : Location) (c : Constant) : StateM σ Unit :=
  visitor.meet (.constant location c) (return)

def place (location : Location) (use : Use) (p : Place) : StateM σ Unit :=
  visitor.meet (.place location use p) <|
    match p with
    | .var _ | .temp _ | .arg _ | .static _ | .returnSlot => return
    | .field base _ | .deref base | .downcast base _ => place location .projection base
    | .index base position => do
      place location .projection base
      place location .read position

def operand (location : Location) (operand : Operand) : StateM σ Unit :=
  visitor.meet (.operand location operand) <|
    match operand with
    | .place p => visitor.place location .read p
    | .constant c => visitor.constant location c

def operands (location : Location) (values : List Operand) : StateM σ Unit :=
  values.forM (visitor.operand location)

def expr (location : Location) (e : Expr) : StateM σ Unit :=
  visitor.meet (.expr location e) <|
    match e with
    | .constant c => visitor.constant location c
    | .borrow _ _ p => visitor.place location .borrow p
    | e => visitor.operands location e.operands

def callee (location : Location) : Callee → StateM σ Unit
  | .value v => visitor.operand location v
  | .path _ | .intrinsic .. => return

def terminator (location : Location) (terminator : Terminator) : StateM σ Unit :=
  visitor.meet (.terminator location terminator) <|
    match terminator with
    | .incomplete | .ret | .diverge | .goto _ | .unwind _ => return
    | .branch value _ _ | .switch value _ => visitor.operand location value
    | .call callee arguments result _ _ => do
      visitor.callee location callee
      visitor.operands location arguments
      visitor.place location .store result

def statement (location : Location) (statement : Statement) : StateM σ Unit :=
  visitor.meet (.statement location statement) do
    visitor.place location .store statement.target
    visitor.expr location statement.source

def block (label : Label) (block : Block) : StateM σ Unit :=
  visitor.meet (.block label block) do
    block.statements.zipIdx.forM fun (statement, i) =>
      visitor.statement ⟨label, .statement i⟩ statement
    visitor.terminator ⟨label, .terminator⟩ block.terminator

def body (body : Body) : StateM σ Unit :=
  visitor.meet (.body body) <|
    body.labelledBlocks.forM fun (label, block) => visitor.block label block

def recorder : Visitor (List Event) where
  meet event inside := do
    modify (· ++ [event])
    inside

end Visitor

end MidIR
