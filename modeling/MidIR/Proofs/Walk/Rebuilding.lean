import MidIR.Body.Places
import MidIR.Walk.Rebuilder
import MidIR.Proofs.Walk.Contexts

namespace MidIR

section Rules

variable {σ α β : Type} {step : σ → Event → σ}

/-- A walk that builds this value and takes in these events, one by one. -/
def Rebuilds (step : σ → Event → σ) (walk : StateM σ α) (built : α) (events : List Event) : Prop :=
  ∀ s, walk.run s = (built, events.foldl step s)

namespace Rebuilds

variable {walk : StateM σ α} {a : α} {b : β} {events others : List Event}

theorem pure : Rebuilds step (Pure.pure a) a [] := fun _ => rfl

theorem bind {next : α → StateM σ β} (first : Rebuilds step walk a events)
    (second : Rebuilds step (next a) b others) : Rebuilds step (walk >>= next) b (events ++ others) := by
  intro s
  rw [StateT.run_bind, first s, List.foldl_append]
  exact second _

theorem returning {f : α → β} (rebuilds : Rebuilds step walk a events) :
    Rebuilds step (walk >>= fun a => Pure.pure (f a)) (f a) events := by
  intro s
  rw [StateT.run_bind, rebuilds s]
  rfl

theorem cast (rebuilds : Rebuilds step walk a events) (equal : events = others) :
    Rebuilds step walk a others :=
  equal ▸ rebuilds

theorem mapM {γ : Type} {visit : γ → StateM σ α} {build : γ → α} {list : γ → List Event}
    (each : ∀ c, Rebuilds step (visit c) (build c) (list c)) (values : List γ) :
    Rebuilds step (values.mapM visit) (values.map build) (values.flatMap list) := by
  induction values with
  | nil => exact pure
  | cons c values ih =>
    rw [List.mapM_cons, List.map_cons, List.flatMap_cons]
    exact (each c).bind ih.returning

end Rebuilds

theorem map_zipIdx_fst (f : α → β) (values : List α) :
    values.zipIdx.map (fun entry => f entry.1) = values.map f := by
  rw [← Function.comp_def f Prod.fst, ← List.map_map, List.zipIdx_map_fst]

end Rules

namespace Rebuilder

variable {σ : Type}

/-- A rebuilder that takes in what it meets by `step` and puts `change p` for each place `p`. -/
structure Follows (rebuilder : Rebuilder σ) (step : σ → Event → σ) (change : Place → Place) : Prop where
  meet : ∀ event, event.placed? = none → Rebuilds step (rebuilder.meet event) () [event]
  place : ∀ location use p,
    Rebuilds step (rebuilder.place location use p) (change p) (p.walk location use)

namespace Follows

variable {rebuilder : Rebuilder σ} {step : σ → Event → σ} {change : Place → Place}
  (follows : rebuilder.Follows step change) (location : Location)

include follows

theorem constant (c : Constant) :
    Rebuilds step (rebuilder.constant location c) c (c.walk location) :=
  (follows.meet _ rfl).returning

theorem operand (operand : Operand) :
    Rebuilds step (rebuilder.operand location operand) (operand.mapPlaces change)
      (operand.walk location) := by
  apply (follows.meet _ rfl).bind
  cases operand with
  | place p => exact (follows.place location .read p).returning
  | constant c => exact (follows.constant location c).returning

theorem operands (values : List Operand) :
    Rebuilds step (rebuilder.operands location values) (values.map (·.mapPlaces change))
      (values.flatMap (Operand.walk location)) :=
  .mapM (follows.operand location) values

theorem expr (e : Expr) :
    Rebuilds step (rebuilder.expr location e) (e.mapPlaces change) (e.walk location) := by
  apply (follows.meet _ rfl).bind
  have operand (value : Operand) := follows.operand location value
  have one (value : Operand) {f : Operand → Expr} :
      Rebuilds step (rebuilder.operand location value >>= fun v => return f v)
        (f (value.mapPlaces change)) ([value].flatMap (Operand.walk location)) := by
    simpa using (operand value).returning (f := f)
  have two (left right : Operand) {f : Operand → Operand → Expr} :
      Rebuilds step (rebuilder.operand location left >>= fun v =>
          rebuilder.operand location right >>= fun w => return f v w)
        (f (left.mapPlaces change) (right.mapPlaces change))
        ([left, right].flatMap (Operand.walk location)) := by
    simpa using (operand left).bind ((operand right).returning (f := f (left.mapPlaces change)))
  cases e with
  | use value => exact one value
  | constant c => exact (follows.constant location c).returning
  | repeated value count => exact one value
  | borrow region kind p => exact (follows.place location .borrow p).returning
  | cast value ty => exact one value
  | binary left op right => exact two left right
  | unary value op => exact one value
  | metadataOf value => exact one value
  | pointerOf value => exact one value
  | fatPointer pointer metadata => exact two pointer metadata
  | tuple values => exact (follows.operands location values).returning
  | array values => exact (follows.operands location values).returning
  | variant path index value => exact one value
  | struct path index fields => exact (follows.operands location fields).returning

theorem callee (callee : Callee) :
    Rebuilds step (rebuilder.callee location callee) (callee.mapPlaces change)
      (callee.walk location) := by
  cases callee with
  | value v => exact (follows.operand location v).returning
  | path p => exact .pure
  | intrinsic name arguments => exact .pure

theorem terminator (terminator : Terminator) :
    Rebuilds step (rebuilder.terminator location terminator) (terminator.mapPlaces change)
      (terminator.walk location) := by
  apply (follows.meet _ rfl).bind
  cases terminator with
  | branch condition yes no => exact (follows.operand location condition).returning
  | switch value targets => exact (follows.operand location value).returning
  | call callee arguments result returns unwinds =>
    refine Rebuilds.cast ?_ (List.append_assoc ..).symm
    apply (follows.callee location callee).bind
    apply (follows.operands location arguments).bind
    exact (follows.place location .store result).returning
  | _ => exact .pure

theorem statement (statement : Statement) :
    Rebuilds step (rebuilder.statement location statement) (statement.mapPlaces change)
      (statement.walk location) := by
  apply (follows.meet _ rfl).bind
  apply (follows.place location .store statement.target).bind
  exact (follows.expr location statement.source).returning

theorem block (label : Label) (block : Block) :
    Rebuilds step (rebuilder.block label block) (block.mapPlaces change) (block.walk label) := by
  have statements := Rebuilds.mapM
    (fun entry => follows.statement ⟨label, .statement entry.2⟩ entry.1) block.statements.zipIdx
  rw [map_zipIdx_fst (Statement.mapPlaces change)] at statements
  apply (follows.meet _ rfl).bind
  apply statements.bind
  exact (follows.terminator ⟨label, .terminator⟩ block.terminator).returning

theorem body (body : Body) :
    Rebuilds step (rebuilder.body body) (body.mapPlaces change) body.walk := by
  have each (entry : Label × Block) := follows.block entry.1 entry.2
  have blocks := Rebuilds.mapM each body.labelledBlocks
  have same : body.labelledBlocks.map (fun entry => entry.2.mapPlaces change) =
      body.blocks.map (Block.mapPlaces change) := by
    rw [Body.labelledBlocks, List.map_map]
    exact map_zipIdx_fst _ _
  rw [same] at blocks
  apply (follows.meet _ rfl).bind
  exact blocks.returning

end Follows

end Rebuilder

end MidIR
