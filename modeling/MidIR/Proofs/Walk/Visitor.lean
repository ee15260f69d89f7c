import MidIR.Walk.Visitor
import MidIR.Proofs.Walk.Enumeration

namespace MidIR

open Visitor (recorder)

def Notes (walk : StateM (List Event) Unit) (events : List Event) : Prop :=
  ∀ noted, walk.run noted = ((), noted ++ events)

namespace Notes

variable {first second : StateM (List Event) Unit} {events others : List Event}

theorem nothing : Notes (return) [] := by
  intro noted
  rw [List.append_nil]
  rfl

theorem andThen (notes : Notes first events) (notes' : Notes second others) :
    Notes (first >>= fun _ => second) (events ++ others) := by
  intro noted
  rw [StateT.run_bind, notes noted, ← List.append_assoc]
  exact notes' _

theorem meet {event : Event} (inside : Notes first events) :
    Notes (recorder.meet event first) (event :: events) := by
  intro noted
  have run := inside (noted ++ [event])
  rw [List.append_assoc] at run
  exact run

theorem forM {α : Type} {visit : α → StateM (List Event) Unit} {walk : α → List Event}
    (each : ∀ a, Notes (visit a) (walk a)) (values : List α) :
    Notes (values.forM visit) (values.flatMap walk) := by
  induction values with
  | nil => exact nothing
  | cons a values ih => exact (each a).andThen ih

end Notes

open Notes

variable (location : Location)

theorem Constant.notes (c : Constant) : Notes (recorder.constant location c) (c.walk location) :=
  nothing.meet

theorem Place.notes (use : Use) (p : Place) :
    Notes (recorder.place location use p) (p.walk location use) := by
  induction p generalizing use with
  | var i => exact nothing.meet
  | temp i => exact nothing.meet
  | arg i => exact nothing.meet
  | static path => exact nothing.meet
  | returnSlot => exact nothing.meet
  | field base i ih => exact (ih _).meet
  | deref base ih => exact (ih _).meet
  | index base position base_ih position_ih => exact ((base_ih _).andThen (position_ih _)).meet
  | downcast base i ih => exact (ih _).meet

theorem Operand.notes (operand : Operand) :
    Notes (recorder.operand location operand) (operand.walk location) := by
  cases operand with
  | place p => exact (p.notes location .read).meet
  | constant c => exact (c.notes location).meet

theorem Operand.notes_all (values : List Operand) :
    Notes (recorder.operands location values) (values.flatMap (walk location)) :=
  .forM (notes location) values

theorem Expr.notes (e : Expr) : Notes (recorder.expr location e) (e.walk location) := by
  apply Notes.meet
  cases e with
  | constant c => exact c.notes location
  | borrow region kind p => exact p.notes location .borrow
  | _ => exact Operand.notes_all location _

theorem Callee.notes (callee : Callee) :
    Notes (recorder.callee location callee) (callee.walk location) := by
  cases callee with
  | value v => exact v.notes location
  | path p => exact nothing
  | intrinsic name arguments => exact nothing

theorem Terminator.notes (terminator : Terminator) :
    Notes (recorder.terminator location terminator) (terminator.walk location) := by
  apply Notes.meet
  cases terminator with
  | branch condition yes no => exact condition.notes location
  | switch value targets => exact value.notes location
  | call callee arguments result returns unwinds =>
    have called := (callee.notes location).andThen
      ((Operand.notes_all location arguments).andThen (result.notes location .store))
    rwa [← List.append_assoc] at called
  | _ => exact nothing

theorem Statement.notes (statement : Statement) :
    Notes (recorder.statement location statement) (statement.walk location) :=
  ((statement.target.notes location .store).andThen (statement.source.notes location)).meet

theorem Block.notes (label : Label) (block : Block) :
    Notes (recorder.block label block) (block.walk label) := by
  apply Notes.meet
  apply Notes.andThen
  · exact .forM (fun entry => entry.1.notes ⟨label, .statement entry.2⟩) _
  · exact block.terminator.notes ⟨label, .terminator⟩

theorem Body.notes (body : Body) : Notes (recorder.body body) body.walk :=
  (Notes.forM (fun entry => entry.2.notes entry.1) _).meet

end MidIR
