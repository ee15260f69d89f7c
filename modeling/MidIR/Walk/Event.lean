import MidIR.Body.Basic

/-!
# Walks

A walk meets every node of a body in the order in which it is written: a node comes before what it
holds, and fields come in declared order. `walk` lists what a walk meets.
-/

namespace MidIR

inductive Position
  | statement (number : Nat)
  | terminator
  deriving DecidableEq, Repr

/-- The position that a 64-bit number names: the greatest number is kept for the terminator. -/
def Position.ofNumber (number : UInt64) : Position :=
  if number = 0xffffffffffffffff then .terminator else .statement number.toNat

structure Location where
  block : Label
  position : Position
  deriving DecidableEq, Repr

inductive Use
  | store
  | read
  | borrow
  | projection
  deriving DecidableEq, Repr

inductive Event
  | body (body : Body)
  | block (label : Label) (block : Block)
  | statement (location : Location) (statement : Statement)
  | terminator (location : Location) (terminator : Terminator)
  | expr (location : Location) (expr : Expr)
  | operand (location : Location) (operand : Operand)
  | place (location : Location) (use : Use) (place : Place)
  | constant (location : Location) (constant : Constant)
  deriving DecidableEq, Repr

def Constant.walk (location : Location) (c : Constant) : List Event :=
  [.constant location c]

def Place.walk (location : Location) (use : Use) (p : Place) : List Event :=
  .place location use p ::
    match p with
    | .field base _ | .deref base | .downcast base _ => base.walk location .projection
    | .index base position => base.walk location .projection ++ position.walk location .read
    | .var _ | .temp _ | .arg _ | .static _ | .returnSlot => []

def Operand.walk (location : Location) (operand : Operand) : List Event :=
  .operand location operand ::
    match operand with
    | .place p => p.walk location .read
    | .constant c => c.walk location

def Expr.walk (location : Location) (e : Expr) : List Event :=
  .expr location e ::
    match e with
    | .constant c => c.walk location
    | .borrow _ _ p => p.walk location .borrow
    | e => e.operands.flatMap (Operand.walk location)

def Callee.walk (location : Location) : Callee → List Event
  | .value v => v.walk location
  | .path _ | .intrinsic .. => []

def Terminator.walk (location : Location) (terminator : Terminator) : List Event :=
  .terminator location terminator ::
    match terminator with
    | .incomplete | .ret | .diverge | .goto _ | .unwind _ => []
    | .branch value _ _ | .switch value _ => value.walk location
    | .call callee arguments result _ _ =>
      callee.walk location ++ arguments.flatMap (Operand.walk location)
        ++ result.walk location .store

def Statement.walk (location : Location) (statement : Statement) : List Event :=
  .statement location statement ::
    (statement.target.walk location .store ++ statement.source.walk location)

def Block.walk (label : Label) (block : Block) : List Event :=
  .block label block ::
    (block.statements.zipIdx.flatMap (fun (statement, i) => statement.walk ⟨label, .statement i⟩)
      ++ block.terminator.walk ⟨label, .terminator⟩)

def Body.walk (body : Body) : List Event :=
  .body body :: body.labelledBlocks.flatMap fun (label, block) => block.walk label

end MidIR
