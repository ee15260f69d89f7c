namespace MidIR

/-- The values of a finite type and their names, no two alike. -/
structure NameTable (α : Type) where
  all : List α
  name : α → String
  complete : ∀ a, a ∈ all
  distinct : (all.map name).Nodup

namespace NameTable

variable {α : Type} (table : NameTable α)

def find? (text : String) : Option α :=
  table.all.find? fun a => table.name a == text

theorem name_injective {a b : α} (equal : table.name a = table.name b) : a = b := by
  have memberA := table.complete a
  have memberB := table.complete b
  have distinct := table.distinct
  generalize table.all = values at *
  induction values with
  | nil => simp at memberA
  | cons v vs ih =>
    simp only [List.map_cons, List.nodup_cons, List.mem_map, not_exists, not_and] at distinct
    rcases List.mem_cons.1 memberA with rfl | inA <;> rcases List.mem_cons.1 memberB with rfl | inB
    · rfl
    · exact absurd equal.symm (distinct.1 b inB)
    · exact absurd equal (distinct.1 a inA)
    · exact ih inA inB distinct.2

theorem find?_eq_some_iff {text : String} {a : α} : table.find? text = some a ↔ table.name a = text := by
  constructor
  · intro found
    simpa using List.find?_some found
  · rintro rfl
    cases found : table.find? (table.name a) with
    | none => simpa using List.find?_eq_none.1 found a (table.complete a)
    | some b => rw [table.name_injective (a := b) (b := a) (by simpa using List.find?_some found)]

@[simp]
theorem find?_name (a : α) : table.find? (table.name a) = some a :=
  table.find?_eq_some_iff.2 rfl

theorem find?_eq_none_iff {text : String} : table.find? text = none ↔ ∀ a, table.name a ≠ text := by
  simp [find?, List.find?_eq_none, table.complete]

end NameTable

end MidIR
