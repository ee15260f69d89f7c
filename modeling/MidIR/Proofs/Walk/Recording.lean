import MidIR.Proofs.Walk.Contexts
import MidIR.Proofs.Walk.Visitor
import MidIR.Proofs.Walk.Writing

namespace MidIR

open Visitor (recorder)

/-- A visitor that notes each node and goes on inside notes the blocks in the order of their positions,
in each block the statements in their order and then the terminator, and below each of these its nodes,
with its location and in the order in which their records are written. It notes all nodes of the body
once, in the order of their addresses, and each place with the use that belongs to its position. -/
theorem recorder_notes_all (body : Body) :
    let events := ((recorder.body body).run []).2
    events = .body body :: body.blocks.zipIdx.flatMap (fun (block, i) =>
      .block (.ofNat i) block ::
        (block.statements.zipIdx.flatMap (fun (statement, j) =>
            statement.walk ⟨.ofNat i, .statement j⟩) ++
          block.terminator.walk ⟨.ofNat i, .terminator⟩)) ∧
    (∀ location (statement : Statement), ∃ below,
      statement.walk location = .statement location statement :: below ∧
        Stands location (encode statement) below) ∧
    (∀ location (terminator : Terminator), ∃ below,
      terminator.walk location = .terminator location terminator :: below ∧
        Stands location (encode terminator) below) ∧
    Enumerates body.locate events ∧
    ∀ front field location use p, body.locate (front ++ [field]) = some (.place location use p) ↔
      ∃ parent, body.locate front = some parent ∧ parent.placeAt field = some (location, use, p) := by
  intro events
  have noted : events = body.walk := congrArg Prod.snd (body.notes [])
  refine ⟨?_, fun location statement => statement.walk_stands location,
    fun location terminator => terminator.walk_stands location, ?_,
    fun _ _ _ _ _ => body.locate_place_iff⟩
  · rw [noted, Body.walk, Body.labelledBlocks, List.flatMap_map]
    rfl
  · rw [noted]
    exact body.walk_enumerates

end MidIR
