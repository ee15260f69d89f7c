import Mathlib.Data.List.Basic

/-!
# Delimiting

When a value is written in front of others, what was written should tell where it ends. Two written
forms `Tells` apart what they are of: whatever follows each of them, the same whole comes of the same
value followed by the same.
-/

namespace MidIR

/-- Two lists that begin the same list, whatever follows them there, make `Same` true and are followed
by the same. -/
def Tells {σ : Type} (u v : List σ) (Same : Prop) : Prop :=
  ∀ s t, u ++ s = v ++ t → Same ∧ s = t

namespace Tells

variable {σ α : Type} {x y : σ} {u v u' v' : List σ} {P Q : Prop}

theorem nil (holds : P) : Tells ([] : List σ) [] P := by
  intro s t equal
  exact ⟨holds, equal⟩

theorem imp (tells : Tells u v P) (implies : P → Q) : Tells u v Q := by
  intro s t equal
  obtain ⟨holds, rest⟩ := tells s t equal
  exact ⟨implies holds, rest⟩

theorem append (first : Tells u v P) (second : P → Tells u' v' Q) : Tells (u ++ u') (v ++ v') Q := by
  intro s t equal
  rw [List.append_assoc, List.append_assoc] at equal
  obtain ⟨holds, rest⟩ := first _ _ equal
  exact second holds s t rest

theorem and (first : Tells u v P) (second : Tells u' v' Q) : Tells (u ++ u') (v ++ v') (P ∧ Q) :=
  first.append fun holds => second.imp fun also => ⟨holds, also⟩

theorem cons (others : x = y → Tells u v P) : Tells (x :: u) (y :: v) P := by
  intro s t equal
  obtain ⟨same, rest⟩ := List.cons.inj equal
  exact others same s t rest

theorem sized (length : u.length = v.length) : Tells u v (u = v) :=
  fun _ _ equal => List.append_inj equal length

theorem flatMap {write : α → List σ} {values others : List α}
    (each : ∀ a ∈ values, ∀ b, Tells (write a) (write b) (a = b))
    (length : values.length = others.length) :
    Tells (values.flatMap write) (others.flatMap write) (values = others) := by
  induction values generalizing others with
  | nil =>
    cases others with
    | nil => exact nil rfl
    | cons b others => cases length
  | cons a values ih =>
    cases others with
    | nil => cases length
    | cons b others =>
      have tail := ih (fun c member => each c (List.mem_cons_of_mem _ member)) (Nat.succ.inj length)
      rw [List.flatMap_cons, List.flatMap_cons]
      apply (each a (List.mem_cons_self ..) b).append
      rintro rfl
      exact tail.imp fun same => congrArg _ same

end Tells

end MidIR
