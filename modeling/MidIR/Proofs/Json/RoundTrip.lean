import MidIR.Proofs.Json.Nodes

namespace MidIR.Json

open Lawful

variable {α : Type} [JsonForm α] [Nested α] [Lawful α]

theorem ofText_written (value : α) {blanks : String} (all : ∀ c ∈ blanks.toList, isBlank c) :
    ofText JsonForm.read ((toJson value).pretty ++ blanks) =
      if (toJson value).depth ≤ maxLevels then .ok value else .error .malformed := by
  have given := reads value maxLevels []
  rw [List.append_nil] at given
  unfold ofText
  rw [String.toList_append, scan_pretty _ all, given]
  by_cases room : (toJson value).depth ≤ maxLevels
  · rw [if_pos room, if_pos room]
  · rw [if_neg room, if_neg room]

theorem depth_le_of_ofText {text : String} {value : α} (read : ofText JsonForm.read text = .ok value) :
    (toJson value).depth ≤ maxLevels := by
  unfold ofText at read
  split at read
  · cases read
  · rename_i found
    cases read
    exact accepts maxLevels _ _ _ found
  · cases read

theorem nest_le_of_ofText {text : String} {value : α} (read : ofText JsonForm.read text = .ok value) :
    nest value ≤ maxLevels + 1 := by
  have shallow := depth_le_of_ofText read
  have nested := nest_le value
  omega

end MidIR.Json
