import Mathlib
import MidIR.Proofs.Body.Locals
import MidIR.Proofs.Walk.Substitution

namespace MidIR

theorem Place.mem_locals_subst {source target p q : Place}
    (member : q ∈ (Place.subst source target p).locals) : q ∈ p.locals ∨ q ∈ target.locals := by
  induction p with
  | field base i ih | deref base ih | downcast base i ih =>
    rw [subst] at member
    split at member
    · exact .inr member
    · exact ih member
  | index base position ih ih' =>
    rw [subst] at member
    split at member
    · exact .inr member
    · rcases List.mem_append.1 member with member | member
      · exact (ih member).imp_left (List.mem_append_left _)
      · exact (ih' member).imp_left (List.mem_append_right _)
  | _ =>
    rw [subst.eq_def] at member
    split at member
    · exact .inr member
    · exact .inl member

namespace Body

variable {body : Body} {f : Place → Place}

section Shape

variable (body f)

@[simp]
theorem length_blocks_mapPlaces : (body.mapPlaces f).blocks.length = body.blocks.length :=
  List.length_map _

theorem statementCount_mapPlaces : (body.mapPlaces f).statementCount = body.statementCount := by
  simp [statementCount, mapPlaces, List.length_flatMap, Function.comp_def]

theorem block?_mapPlaces (label : Label) :
    (body.mapPlaces f).block? label = (body.block? label).map (·.mapPlaces f) :=
  List.getElem?_map ..

theorem labelledBlocks_mapPlaces : (body.mapPlaces f).labelledBlocks =
    body.labelledBlocks.map fun (label, block) => (label, block.mapPlaces f) := by
  simp [labelledBlocks, mapPlaces, List.zipIdx_map, Function.comp_def]

theorem exitDefect?_mapPlaces (label : Label) (block : Block) :
    (body.mapPlaces f).exitDefect? label (block.mapPlaces f) = body.exitDefect? label block := by
  simp [exitDefect?, block?_mapPlaces]

theorem exitDefects?_mapPlaces : (body.mapPlaces f).exitDefects? = body.exitDefects? := by
  rw [exitDefects?, labelledBlocks_mapPlaces, List.findSome?_map]
  simp [exitDefects?, exitDefect?_mapPlaces, Function.comp_def]

theorem successorsOf_mapPlaces : (body.mapPlaces f).successorsOf = body.successorsOf := by
  funext label
  rw [successorsOf, successorsOf, block?_mapPlaces]
  cases body.block? label with
  | none => rfl
  | some block => exact block.successors_mapPlaces f

theorem explore_mapPlaces (seen waiting : List Label) :
    (body.mapPlaces f).explore seen waiting = body.explore seen waiting := by
  fun_induction body.explore seen waiting with
  | case1 seen => rw [explore]
  | case2 seen label waiting known ih => rw [explore, if_pos known, ih]
  | case3 seen label waiting fresh ih => rw [explore, if_neg fresh, successorsOf_mapPlaces, ih]

theorem unreachable_mapPlaces : (body.mapPlaces f).unreachable = body.unreachable := by
  have reachable : (body.mapPlaces f).reachable = body.reachable := by
    rw [Body.reachable, Body.reachable, explore_mapPlaces]
    simp [mapPlaces]
  simp [unreachable, reachable, labels]

theorem declares_mapPlaces : (body.mapPlaces f).declares = body.declares := by
  funext p
  cases p <;> rfl

end Shape

variable {defect : Defect} {source target : Place} {summary : Summary}

theorem validate_eq_error : body.validate = .error defect ↔ body.defect? = some defect := by
  unfold validate
  cases body.defect? <;> simp

theorem validate_eq_ok : body.validate = .ok summary ↔ body.defect? = none ∧
    summary = ⟨body.blocks.length, body.statementCount, body.unreachable⟩ := by
  unfold validate
  cases body.defect? <;> simp [eq_comm]

theorem defect?_eq_some_of_exit (other : ∀ block p, defect ≠ .undeclared block p) :
    body.defect? = some defect ↔ body.blocks = [] ∧ defect = .noBlocks ∨
      body.blocks ≠ [] ∧ body.exitDefects? = some defect := by
  by_cases empty : body.blocks = []
  · rw [defect?, if_pos (List.isEmpty_iff.2 empty)]
    simp [empty, eq_comm]
  · rw [defect?_of_entered empty, Option.or_eq_some_iff]
    have local' : body.localDefects? ≠ some defect := by
      intro found
      obtain ⟨_, location, _, p, _, _, equal, _⟩ := localDefects?_eq_some.1 found
      exact other location.block p equal
    simp [empty, local']

theorem wellFormed_mapPlaces (wellFormed : body.WellFormed)
    (covers : body.Covers (body.places.map f)) : (body.mapPlaces f).WellFormed := by
  constructor
  · simpa [mapPlaces] using wellFormed.entered
  · rw [← exitDefects?_eq_none, exitDefects?_mapPlaces, exitDefects?_eq_none]
    exact wellFormed.exits
  · rw [declaresLocals_iff, places_mapPlaces]
    intro p held q member
    rw [declares_mapPlaces]
    exact covers p held q member

theorem covers_subst (covers : body.Covers body.places) (declared : ∀ p ∈ target.locals, body.declares p) :
    body.Covers (body.places.map (Place.subst source target)) := by
  intro p held q member
  obtain ⟨original, standing, rfl⟩ := List.mem_map.1 held
  rcases Place.mem_locals_subst member with member | member
  · exact covers original standing q member
  · exact declared q member

/-- Putting a place for another keeps all that validation says of the blocks and jumps of a body, and
keeps a valid body valid if the new place is built from locals that the body declares. -/
theorem validate_substitution (body : Body) (source target : Place) (count : Nat) :
    let after := (((Rebuilder.substitution source target).body body).run count).1
    (after.args = body.args ∧ after.result = body.result ∧ after.vars = body.vars ∧
      after.temps = body.temps) ∧
    (after.blocks.map (·.statements.length) = body.blocks.map (·.statements.length) ∧
      after.blocks.map Block.successors = body.blocks.map Block.successors) ∧
    ((∀ p ∈ target.locals, body.declares p) →
      ∀ summary, body.validate = .ok summary → after.validate = .ok summary) ∧
    ∀ defect, (∀ block p, defect ≠ .undeclared block p) →
      (after.validate = .error defect ↔ body.validate = .error defect) := by
  have built : (((Rebuilder.substitution source target).body body).run count).1 =
      body.mapPlaces (Place.subst source target) :=
    congrArg Prod.fst (Rebuilder.substitution_follows.body body count)
  intro after
  rw [show after = body.mapPlaces (Place.subst source target) from built]
  refine ⟨⟨rfl, rfl, rfl, rfl⟩, ?_, ?_, ?_⟩
  · simp [mapPlaces, Function.comp_def]
  · intro declared summary valid
    obtain ⟨fine, rfl⟩ := validate_eq_ok.1 valid
    have wellFormed := defect?_eq_none.1 fine
    have covers : body.Covers (body.places.map (Place.subst source target)) :=
      covers_subst (body.declaresLocals_iff.1 wellFormed.locals) declared
    refine validate_eq_ok.2 ⟨defect?_eq_none.2 (wellFormed_mapPlaces wellFormed covers), ?_⟩
    rw [length_blocks_mapPlaces, statementCount_mapPlaces, unreachable_mapPlaces]
  · intro defect other
    rw [validate_eq_error, validate_eq_error, defect?_eq_some_of_exit other,
      defect?_eq_some_of_exit other, exitDefects?_mapPlaces]
    simp [mapPlaces]

/-- A body with a place inside another, and with a block that is never entered. -/
def indexing : Body where
  args := [.ref .shared (.scalar .usize)]
  result := .unit
  vars := [.slice (.scalar .u8)]
  temps := [.scalar .usize]
  blocks := [⟨[⟨.index (.var 0) (.temp 0), .use (.place (.field (.temp 0) 1))⟩], .ret⟩, ⟨[], .goto ⟨0⟩⟩]

theorem validate_substitution_indexing :
    let place := Place.deref (.arg 0)
    ((∀ p ∈ place.locals, indexing.declares p) ∧ indexing.validate = .ok ⟨2, 1, [⟨1⟩]⟩ ∧
      (((Rebuilder.substitution (.temp 0) place).body indexing).run 0).1.validate =
        .ok ⟨2, 1, [⟨1⟩]⟩) ∧
    let unfinished := { indexing with blocks := [{}] }
    unfinished.validate = .error (.incomplete ⟨0⟩) ∧
      (((Rebuilder.substitution (.temp 0) (.var 7)).body unfinished).run 0).1.validate =
        .error (.incomplete ⟨0⟩) := by
  have declared : ∀ p ∈ (Place.deref (.arg 0)).locals, indexing.declares p := by decide
  have valid : indexing.validate = .ok ⟨2, 1, [⟨1⟩]⟩ := by cbv
  have kept := (validate_substitution indexing (.temp 0) (.deref (.arg 0)) 0).2.2.1 declared _ valid
  have failed : { indexing with blocks := [{}] }.validate = .error (.incomplete ⟨0⟩) := by cbv
  have still := ((validate_substitution { indexing with blocks := [{}] } (.temp 0) (.var 7) 0).2.2.2
    (.incomplete ⟨0⟩) (by simp)).2 failed
  exact ⟨⟨declared, valid, kept⟩, failed, still⟩

end Body

end MidIR
