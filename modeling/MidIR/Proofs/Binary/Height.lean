import MidIR.Proofs.Binary.Reading
import MidIR.Proofs.Nesting

namespace MidIR.Outline

/-- The records of an outline nest so deep: with room for so many more below a bound none starts
deeper, otherwise the first that does starts one below it. -/
def HasHeight (o : Outline) (height : Nat) : Prop :=
  ∀ offset ⦃depth bound⦄, depth ≤ bound →
    ((o.records offset depth).find? fun start => bound < start.level).map Start.level =
      if depth + height ≤ bound then none else some (bound + 1)

namespace HasHeight

variable {o p : Outline} {os : List Outline} {m n : Nat}

theorem cast (height : o.HasHeight m) (equal : m = n) : o.HasHeight n := equal ▸ height

theorem plain (bytes : List UInt8) : (plain bytes).HasHeight 0 := by
  intro offset depth bound inside
  exact (if_pos inside).symm

theorem name (text : String) : (name text).HasHeight 0 := plain _

theorem length (n : Nat) : (length n).HasHeight 0 := by
  intro offset depth bound inside
  exact (if_pos inside).symm

theorem append (first : o.HasHeight m) (second : p.HasHeight n) : (o ++ p).HasHeight (max m n) := by
  intro offset depth bound inside
  change (List.find? _ (_ ++ _)).map _ = _
  rw [List.find?_append, Option.map_or, first _ inside, second _ inside]
  by_cases room : depth + m ≤ bound
  · have same : depth + max m n ≤ bound ↔ depth + n ≤ bound := by omega
    simp only [if_pos room, Option.none_or, same]
  · rw [if_neg room, Option.some_or, if_neg (by omega)]

theorem nil : (join []).HasHeight 0 := plain []

theorem cons (first : o.HasHeight m) (others : (join os).HasHeight n) :
    (join (o :: os)).HasHeight (max m n) := first.append others

theorem record (parts : (join os).HasHeight n) : (record os).HasHeight (1 + n) := by
  intro offset depth bound inside
  change (List.find? _ (_ :: _)).map _ = _
  rw [List.find?_cons]
  by_cases room : depth + 1 ≤ bound
  · rw [decide_eq_false (by omega : ¬ bound < depth + 1)]
    have same : depth + (1 + n) ≤ bound ↔ depth + 1 + n ≤ bound := by omega
    simp only [same]
    exact parts _ room
  · rw [decide_eq_true (by omega : bound < depth + 1), if_neg (by omega)]
    exact congrArg some (by omega : depth + 1 = bound + 1)

theorem byteString (bytes : List UInt8) : (byteString bytes).HasHeight 0 :=
  ((length _).cons ((plain _).cons nil)).cast rfl

theorem join_map {α : Type} {outline : α → Outline} {nest : α → Nat} {values : List α}
    (each : ∀ a ∈ values, (outline a).HasHeight (nest a)) :
    (join (values.map outline)).HasHeight (deepest (values.map nest)) := by
  induction values with
  | nil => exact nil
  | cons a values ih =>
    have tail := ih fun b member => each b (List.mem_cons_of_mem _ member)
    exact (each a (List.mem_cons_self ..)).cons tail

theorem seq {α : Type} {outline : α → Outline} {nest : α → Nat} {values : List α}
    (each : ∀ a ∈ values, (outline a).HasHeight (nest a)) :
    (seq outline values).HasHeight (deepest (values.map nest)) :=
  ((length _).append (join_map each)).cast (Nat.zero_max _)

theorem option {α : Type} {outline : α → Outline} (value : Option α)
    (flat : ∀ a, (outline a).HasHeight 0) : (option outline value).HasHeight 0 := by
  cases value with
  | none => exact plain _
  | some a => exact ((plain _).cons ((flat a).cons nil)).cast rfl

end HasHeight

end MidIR.Outline
