import MidIR.Proofs.Walk.Substitution
import MidIR.Proofs.Walk.Visitor

namespace MidIR

/-- Whatever was noted before, both walks note the same behind it, and the first gives back the node. -/
def Agree {α : Type} (node : α) (rebuilding : StateM (List Event) α)
    (visiting : StateM (List Event) Unit) : Prop :=
  ∃ events, ∀ noted, rebuilding.run noted = (node, noted ++ events) ∧
    visiting.run noted = ((), noted ++ events)

theorem foldl_note (noted events : List Event) :
    events.foldl (fun noted event => noted ++ [event]) noted = noted ++ events := by
  induction events generalizing noted with
  | nil => simp
  | cons event events ih => simp [ih]

theorem Agree.of {α : Type} {node built : α} {rebuilding : StateM (List Event) α}
    {visiting : StateM (List Event) Unit} {events : List Event}
    (rebuilds : Rebuilds (fun noted event => noted ++ [event]) rebuilding built events)
    (same : built = node) (notes : Notes visiting events) : Agree node rebuilding visiting := by
  refine ⟨events, fun noted => ⟨?_, notes noted⟩⟩
  rw [rebuilds noted, same, foldl_note]

/-- Both recorders note every node of what they walk alike: the same nodes with the same uses at the
same locations in the same order. -/
theorem recorders_agree :
    (∀ body, Agree body (Rebuilder.recorder.body body) (Visitor.recorder.body body)) ∧
    (∀ label block,
      Agree block (Rebuilder.recorder.block label block) (Visitor.recorder.block label block)) ∧
    (∀ location statement, Agree statement (Rebuilder.recorder.statement location statement)
      (Visitor.recorder.statement location statement)) ∧
    (∀ location terminator, Agree terminator (Rebuilder.recorder.terminator location terminator)
      (Visitor.recorder.terminator location terminator)) ∧
    (∀ location e, Agree e (Rebuilder.recorder.expr location e) (Visitor.recorder.expr location e)) ∧
    (∀ location operand, Agree operand (Rebuilder.recorder.operand location operand)
      (Visitor.recorder.operand location operand)) ∧
    (∀ location use p, Agree p (Rebuilder.recorder.place location use p)
      (Visitor.recorder.place location use p)) ∧
    ∀ location c, Agree c (Rebuilder.recorder.constant location c)
      (Visitor.recorder.constant location c) := by
  have follows := Rebuilder.recorder_follows
  refine ⟨?_, ?_, ?_, ?_, ?_, ?_, ?_, ?_⟩
  · intro body
    exact .of (follows.body body) (congrFun Body.mapPlaces_id body) body.notes
  · intro label block
    exact .of (follows.block label block) (congrFun Block.mapPlaces_id block) (block.notes label)
  · intro location statement
    exact .of (follows.statement location statement) (congrFun Statement.mapPlaces_id statement)
      (statement.notes location)
  · intro location terminator
    exact .of (follows.terminator location terminator) (congrFun Terminator.mapPlaces_id terminator)
      (terminator.notes location)
  · intro location e
    exact .of (follows.expr location e) (congrFun Expr.mapPlaces_id e) (e.notes location)
  · intro location operand
    exact .of (follows.operand location operand) (congrFun Operand.mapPlaces_id operand)
      (operand.notes location)
  · intro location use p
    exact .of (follows.place location use p) rfl (p.notes location use)
  · intro location c
    exact .of (follows.constant location c) rfl (c.notes location)

end MidIR
