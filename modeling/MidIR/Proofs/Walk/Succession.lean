import Mathlib
import MidIR.Proofs.Walk.Substitution

namespace MidIR

namespace Place

variable {source target p : Place}

theorem subst_of_not_mem (absent : source ∉ p.parts) : subst source target p = p := by
  induction p using held_induction with
  | step p ih =>
    rw [mem_parts, not_or, not_exists] at absent
    rw [subst_of_ne (Ne.symm absent.1)]
    exact mapInner_of_fixed fun q held => ih q held fun within => absent.2 q ⟨held, within⟩

theorem mem_held_subst {inner : Place} (kept : p ≠ source) (held : inner ∈ p.held) :
    subst source target inner ∈ (subst source target p).held := by
  rw [subst_of_ne kept, held_mapInner]
  exact List.mem_map_of_mem held

theorem mem_parts_subst (present : source ∈ p.parts) : target ∈ (subst source target p).parts := by
  induction p using held_induction with
  | step p ih =>
    by_cases same : p = source
    · rw [same, subst_self]
      exact mem_parts.2 (.inl rfl)
    · obtain equal | ⟨q, held, within⟩ := mem_parts.1 present
      · exact absurd equal.symm same
      · exact mem_parts.2 (.inr ⟨_, mem_held_subst same held, ih q held within⟩)

theorem subst_ne_target (kept : p ≠ source) (fresh : target ∉ p.parts) :
    subst source target p ≠ target := by
  intro equal
  by_cases present : source ∈ p.parts
  · obtain same | ⟨q, held, within⟩ := mem_parts.1 present
    · exact kept same.symm
    · have inside : subst source target q ∈ (subst source target p).held := mem_held_subst kept held
      rw [equal] at inside
      exact not_mem_parts_of_held inside (mem_parts_subst within)
  · rw [subst_of_not_mem present] at equal
    exact fresh (mem_parts.2 (.inl equal.symm))

/-! ## The same substitution again -/

theorem not_mem_parts_subst (outside : source ∉ target.parts) (notInside : target ∉ source.parts) :
    source ∉ (subst source target p).parts := by
  induction p using held_induction with
  | step p ih =>
    by_cases present : source ∈ p.parts
    · by_cases same : p = source
      · rwa [same, subst_self]
      · intro still
        obtain equal | ⟨q, held, within⟩ := mem_parts.1 still
        -- What is left of a place that held the old one holds the new one.
        · rw [equal] at notInside
          exact notInside (mem_parts_subst present)
        · rw [subst_of_ne same, held_mapInner] at held
          obtain ⟨inner, standing, rfl⟩ := List.mem_map.1 held
          exact ih inner standing within
    · rwa [subst_of_not_mem present]

/-! ## The substitution back -/

theorem subst_subst (fresh : target ∉ p.parts) : subst target source (subst source target p) = p := by
  induction p using held_induction with
  | step p ih =>
    by_cases same : p = source
    · rw [same, subst_self, subst_self]
    · rw [subst_of_ne (subst_ne_target same fresh), subst_of_ne same, mapInner_mapInner]
      refine mapInner_of_fixed fun q held => ih q held fun within => ?_
      exact fresh (mem_parts.2 (.inr ⟨q, held, within⟩))

theorem count_parts_subst (fresh : target ∉ p.parts) :
    (subst source target p).parts.count target = p.parts.count source := by
  induction p using held_induction with
  | step p ih =>
    by_cases same : p = source
    · rw [same, subst_self, count_parts_self, count_parts_self]
    · rw [parts_eq, parts_eq p, List.count_cons_of_ne (subst_ne_target same fresh),
        List.count_cons_of_ne same, subst_of_ne same, held_mapInner, List.flatMap_map,
        List.count_flatMap, List.count_flatMap]
      refine congrArg List.sum (List.map_congr_left fun q held => ih q held fun within => ?_)
      exact fresh (mem_parts.2 (.inr ⟨q, held, within⟩))

/-! ## Substitutions for two leaves -/

section Leaves

variable {other otherTarget : Place}

theorem parts_of_isLeaf (leaf : p.isLeaf) : p.parts = [p] := by
  rw [parts_eq, held_eq_nil.2 leaf, List.flatMap_nil]

theorem subst_ne_leaf (kept : p ≠ source) (leaf : other.isLeaf) (apart : p ≠ other) :
    subst source target p ≠ other := by
  rw [subst_of_ne kept]
  rintro rfl
  rw [← held_eq_nil, held_mapInner, List.map_eq_nil_iff] at leaf
  exact apart (mapInner_of_fixed (by simp [leaf])).symm

theorem subst_comm (leaf : source.isLeaf) (otherLeaf : other.isLeaf) (apart : source ≠ other)
    (absent : other ∉ target.parts) (otherAbsent : source ∉ otherTarget.parts) :
    subst other otherTarget (subst source target p) =
      subst source target (subst other otherTarget p) := by
  induction p using held_induction with
  | step p ih =>
    by_cases same : p = source
    · rw [same, subst_leaf leaf apart, subst_self, subst_of_not_mem absent]
    · by_cases otherSame : p = other
      · rw [otherSame, subst_leaf otherLeaf apart.symm, subst_self, subst_of_not_mem otherAbsent]
      · rw [subst_of_ne (subst_ne_leaf same otherLeaf otherSame), subst_of_ne same, mapInner_mapInner,
          subst_of_ne (subst_ne_leaf otherSame leaf same), subst_of_ne otherSame, mapInner_mapInner]
        exact mapInner_congr ih

theorem count_parts_subst_of_leaf (leaf : source.isLeaf) (otherLeaf : other.isLeaf)
    (apart : source ≠ other) (absent : other ∉ target.parts) :
    (subst source target p).parts.count other = p.parts.count other := by
  induction p using held_induction with
  | step p ih =>
    by_cases same : p = source
    · rw [same, subst_self, List.count_eq_zero.2 absent, parts_of_isLeaf leaf,
        List.count_singleton, beq_eq_false_iff_ne.2 apart]
      rfl
    · have rest : ((subst source target p).held.flatMap parts).count other =
          (p.held.flatMap parts).count other := by
        rw [subst_of_ne same, held_mapInner, List.flatMap_map, List.count_flatMap, List.count_flatMap]
        exact congrArg List.sum (List.map_congr_left ih)
      by_cases otherSame : p = other
      · rw [otherSame, subst_leaf otherLeaf apart.symm]
      · rw [parts_eq, parts_eq p, List.count_cons_of_ne (subst_ne_leaf same otherLeaf otherSame),
          List.count_cons_of_ne otherSame, rest]

end Leaves

end Place

namespace Body

variable {source target p : Place}

/-- A body with one place put for another throughout, and how often that was done. -/
def replace (body : Body) (source target : Place) : Body × Nat :=
  ((Rebuilder.substitution source target).body body).run 0

theorem replace_eq (body : Body) (source target : Place) : body.replace source target =
    (body.mapPlaces (Place.subst source target), body.parts.count source) := by
  rw [replace, Rebuilder.substitution_follows.body body 0, foldl_tally, countP_shows, shown_walk,
    Nat.zero_add]

theorem parts_mapPlaces (body : Body) (f : Place → Place) :
    (body.mapPlaces f).parts = body.places.flatMap fun p => (f p).parts := by
  rw [parts, places_mapPlaces, List.flatMap_map]

theorem count_parts_mapPlaces {body : Body} {f : Place → Place} {before after : Place}
    (each : ∀ p ∈ body.places, (f p).parts.count after = p.parts.count before) :
    (body.mapPlaces f).parts.count after = body.parts.count before := by
  rw [parts_mapPlaces, parts, List.count_flatMap, List.count_flatMap]
  exact congrArg List.sum (List.map_congr_left each)

theorem not_mem_parts_of_mem_places {body : Body} (fresh : ¬ body.Holds target) :
    ∀ p ∈ body.places, target ∉ p.parts := by
  intro p held within
  exact fresh (holds_iff.2 (List.mem_flatMap.2 ⟨p, held, within⟩))

/-- A replacement leaves nothing of the place that it replaces, if of the two places neither stands in the
other. Done again, it changes and counts nothing. -/
theorem replace_removes (body : Body) (outside : source ∉ target.parts)
    (notInside : target ∉ source.parts) :
    let after := (body.replace source target).1
    ¬ after.Holds source ∧ after.replace source target = (after, 0) := by
  have removed (p : Place) : source ∉ (Place.subst source target p).parts :=
    Place.not_mem_parts_subst outside notInside
  have gone : source ∉ (body.mapPlaces (Place.subst source target)).parts := by
    rw [parts_mapPlaces, List.mem_flatMap]
    rintro ⟨p, -, within⟩
    exact removed p within
  have settled : (body.mapPlaces (Place.subst source target)).mapPlaces (Place.subst source target) =
      body.mapPlaces (Place.subst source target) :=
    mapPlaces_mapPlaces fun p _ => Place.subst_of_not_mem (removed p)
  intro after
  have built : after = body.mapPlaces (Place.subst source target) :=
    congrArg Prod.fst (body.replace_eq source target)
  rw [built, replace_eq, settled, List.count_eq_zero.2 gone]
  exact ⟨gone ∘ holds_iff.1, rfl⟩

/-- A body whose places stand in one another, as bases and as indices. -/
def nested : Body where
  args := []
  result := .unit
  blocks := [⟨[⟨.deref (.deref (.temp 0)), .use (.place (.index (.var 0) (.deref (.temp 0))))⟩], .ret⟩]

theorem replace_removes_nested :
    let source := Place.deref (.temp 0)
    let target := Place.index (.var 0) (.temp 0)
    source ∉ target.parts ∧ target ∉ source.parts ∧ (nested.replace source target).2 = 2 ∧
      let after := (nested.replace source target).1
      ¬ after.Holds source ∧ after.replace source target = (after, 0) := by
  intro source target
  have outside : source ∉ target.parts := by decide
  have notInside : target ∉ source.parts := by decide
  exact ⟨outside, notInside, by cbv, replace_removes nested outside notInside⟩

/-- Where the new place stands in the old one, a base that is replaced may make the old one anew. -/
example : (nested.replace (.deref (.temp 0)) (.temp 0)).1.Holds (.deref (.temp 0)) := by
  rw [replace_eq, holds_iff]
  decide

/-- A replacement by a place that the body does not hold is undone by the replacement back, which counts
as much. -/
theorem replace_back (body : Body) (source : Place) (fresh : ¬ body.Holds target) :
    let after := body.replace source target
    after.1.replace target source = (body, after.2) := by
  have absent := not_mem_parts_of_mem_places fresh
  have restored : (body.mapPlaces (Place.subst source target)).mapPlaces (Place.subst target source) =
      body.mapPlaces id :=
    mapPlaces_mapPlaces fun p held => Place.subst_subst (absent p held)
  have counted : (body.mapPlaces (Place.subst source target)).parts.count target =
      body.parts.count source :=
    count_parts_mapPlaces fun p held => Place.count_parts_subst (absent p held)
  intro after
  rw [show after = _ from body.replace_eq source target, replace_eq, restored, counted, mapPlaces_id]
  rfl

theorem replace_back_nested :
    let target := Place.field (.deref (.temp 0)) 1
    ¬ nested.Holds target ∧ (nested.replace (.temp 0) target).2 = 2 ∧
      (nested.replace (.temp 0) target).1.replace target (.temp 0) = (nested, 2) := by
  intro target
  have fresh : ¬ nested.Holds target := by decide
  have counted : (nested.replace (.temp 0) target).2 = 2 := by cbv
  refine ⟨fresh, counted, ?_⟩
  rw [← counted]
  exact replace_back nested (.temp 0) fresh

/-- Replacements of two leaves, neither of which brings in the leaf that the other replaces, may be done in
either order: they make the same body and count the same. -/
theorem replace_comm (body : Body) {other otherTarget : Place} (leaf : source.isLeaf)
    (otherLeaf : other.isLeaf) (apart : source ≠ other) (absent : other ∉ target.parts)
    (otherAbsent : source ∉ otherTarget.parts) :
    let first := body.replace source target
    let second := body.replace other otherTarget
    ∃ both, first.1.replace other otherTarget = (both, second.2) ∧
      second.1.replace source target = (both, first.2) := by
  have sameBody : (body.mapPlaces (Place.subst source target)).mapPlaces
        (Place.subst other otherTarget) =
      (body.mapPlaces (Place.subst other otherTarget)).mapPlaces (Place.subst source target) := by
    rw [mapPlaces_mapPlaces fun p _ => Place.subst_comm leaf otherLeaf apart absent otherAbsent]
    exact (mapPlaces_mapPlaces fun _ _ => rfl).symm
  have counted : (body.mapPlaces (Place.subst source target)).parts.count other =
      body.parts.count other :=
    count_parts_mapPlaces fun _ _ => Place.count_parts_subst_of_leaf leaf otherLeaf apart absent
  have otherCounted : (body.mapPlaces (Place.subst other otherTarget)).parts.count source =
      body.parts.count source :=
    count_parts_mapPlaces fun _ _ =>
      Place.count_parts_subst_of_leaf otherLeaf leaf apart.symm otherAbsent
  intro first second
  rw [show first = _ from body.replace_eq source target,
    show second = _ from body.replace_eq other otherTarget, replace_eq, replace_eq, sameBody, counted,
    otherCounted]
  exact ⟨_, rfl, rfl⟩

theorem replace_comm_nested :
    let target := Place.deref (.temp 0)
    let otherTarget := Place.index (.var 0) (.arg 1)
    (.var 0 ∉ target.parts ∧ .temp 0 ∉ otherTarget.parts) ∧
      ∃ both, (nested.replace (.temp 0) target).1.replace (.var 0) otherTarget = (both, 1) ∧
        (nested.replace (.var 0) otherTarget).1.replace (.temp 0) target = (both, 2) := by
  intro target otherTarget
  have absent : .var 0 ∉ target.parts := by decide
  have otherAbsent : .temp 0 ∉ otherTarget.parts := by decide
  have counted : (nested.replace (.temp 0) target).2 = 2 := by cbv
  have otherCounted : (nested.replace (.var 0) otherTarget).2 = 1 := by cbv
  refine ⟨⟨absent, otherAbsent⟩, ?_⟩
  rw [← counted, ← otherCounted]
  exact replace_comm nested (by decide) (by decide) (by decide) absent otherAbsent

end Body

end MidIR
