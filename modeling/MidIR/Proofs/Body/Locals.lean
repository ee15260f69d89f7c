import MidIR.Proofs.Body.Validation
import MidIR.Proofs.Walk.Shown

namespace MidIR

namespace Body

variable {body : Body}

/-- The body declares every local that these places are built from. -/
def Covers (body : Body) (places : List Place) : Prop :=
  ∀ p ∈ places, ∀ q ∈ p.locals, body.declares q

end Body

theorem Place.declares_parts (body : Body) (p : Place) :
    (∀ q ∈ p.parts, body.declares q) ↔ ∀ q ∈ p.locals, body.declares q := by
  induction p with
  | field base i ih | deref base ih | downcast base i ih =>
    rw [parts, List.forall_mem_cons, ih]
    exact and_iff_right rfl
  | index base position ih ih' =>
    rw [parts, locals, List.forall_mem_cons, List.forall_mem_append, List.forall_mem_append, ih, ih']
    exact and_iff_right rfl
  | _ => simp [parts, locals, Body.declares]

theorem Body.declaresLocals_iff (body : Body) : body.DeclaresLocals ↔ body.Covers body.places := by
  have held : body.DeclaresLocals ↔ ∀ p, body.Holds p → body.declares p := by
    simp only [DeclaresLocals, undeclared_iff, Decidable.not_not]
    exact ⟨fun declared p ⟨address, location, use, found⟩ => declared address location use p found,
      fun declared address location use p found => declared p ⟨address, location, use, found⟩⟩
  simp only [held, holds_iff, parts, Covers, ← Place.declares_parts]
  exact List.forall_mem_flatMap

end MidIR
