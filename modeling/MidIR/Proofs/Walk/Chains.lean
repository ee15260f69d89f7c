import MidIR.Proofs.Walk.Substitution

namespace MidIR.Place

/-- The place that so many bases lead to. -/
def follow (p : Place) : Nat → Option Place
  | 0 => some p
  | steps + 1 => p.base?.bind (follow · steps)

/-- After so many bases stands a place behind a pointer. -/
def PointsAt (p : Place) (steps : Nat) : Prop := ∃ base, p.follow steps = some (.deref base)

variable {p q base source target : Place} {steps : Nat}

theorem follow_of_base (based : p.base? = some base) (steps : Nat) :
    p.follow (steps + 1) = base.follow steps := by
  rw [follow, based, Option.bind_some]

theorem follow_succ : p.follow (steps + 1) = some q ↔
    ∃ base, p.base? = some base ∧ base.follow steps = some q := by
  rw [follow, Option.bind_eq_some_iff]

/-! ## What a base tells -/

theorem root_of_base (based : p.base? = some base) : p.root = base.root := by
  cases p <;> cases based <;> rfl

theorem depth_of_base (based : p.base? = some base) : p.depth = base.depth + 1 := by
  cases p <;> cases based <;> rfl

theorem isIndirect_of_base (based : p.base? = some base) :
    p.isIndirect ↔ p.PointsAt 0 ∨ base.isIndirect := by
  cases p <;> cases based <;> simp [isIndirect, PointsAt, follow]

theorem root_of_leaf (leaf : p.isLeaf) : p.root = p := by
  cases p <;> first | rfl | cases leaf

theorem depth_of_leaf (leaf : p.isLeaf) : p.depth = 0 := by
  cases p <;> first | rfl | cases leaf

theorem not_isIndirect_of_leaf (leaf : p.isLeaf) : ¬ p.isIndirect := by
  cases p <;> first | exact Bool.false_ne_true | cases leaf

theorem base_induction {motive : Place → Prop} (leaf : ∀ p, p.isLeaf → motive p)
    (step : ∀ p base, p.base? = some base → motive base → motive p) (p : Place) : motive p := by
  induction p with
  | field base i ih | deref base ih | downcast base i ih => exact step _ base rfl ih
  | index base position ih _ => exact step _ base rfl ih
  | _ => exact leaf _ rfl

/-! ## What a place further down the chain tells -/

theorem root_follow (found : p.follow steps = some q) : p.root = q.root := by
  induction steps generalizing p with
  | zero => rw [Option.some.inj found]
  | succ steps ih =>
    obtain ⟨base, based, found⟩ := follow_succ.1 found
    rw [root_of_base based, ih found]

theorem depth_follow (found : p.follow steps = some q) : p.depth = steps + q.depth := by
  induction steps generalizing p with
  | zero => rw [Option.some.inj found, Nat.zero_add]
  | succ steps ih =>
    obtain ⟨base, based, found⟩ := follow_succ.1 found
    rw [depth_of_base based, ih found]
    omega

theorem isIndirect_follow (found : p.follow steps = some q) :
    p.isIndirect ↔ (∃ before < steps, p.PointsAt before) ∨ q.isIndirect := by
  induction steps generalizing p with
  | zero =>
    rw [Option.some.inj found]
    simp
  | succ steps ih =>
    obtain ⟨base, based, found⟩ := follow_succ.1 found
    have further (before : Nat) : p.PointsAt (before + 1) ↔ base.PointsAt before := by
      simp only [PointsAt, follow_of_base based]
    rw [isIndirect_of_base based, ih found, Nat.exists_lt_succ_left]
    simp only [further, or_assoc]

theorem follow_depth (p : Place) : p.follow p.depth = some p.root ∧ p.root.isLeaf := by
  induction p using base_induction with
  | leaf p leaf => rw [depth_of_leaf leaf, root_of_leaf leaf]; exact ⟨rfl, leaf⟩
  | step p base based ih => rwa [depth_of_base based, root_of_base based, follow_of_base based]

theorem exists_follow (before : steps < p.depth) : ∃ q, p.follow steps = some q ∧ ¬ q.isLeaf := by
  induction p using base_induction generalizing steps with
  | leaf p leaf => rw [depth_of_leaf leaf] at before; omega
  | step p base based ih =>
    rw [depth_of_base based] at before
    cases steps with
    | zero => exact ⟨p, rfl, by simp [isLeaf, based]⟩
    | succ steps =>
      rw [follow_of_base based]
      exact ih (by omega)

theorem isIndirect_iff (p : Place) : p.isIndirect ↔ ∃ steps, p.PointsAt steps := by
  obtain ⟨last, leaf⟩ := p.follow_depth
  rw [isIndirect_follow last, or_iff_left (not_isIndirect_of_leaf leaf)]
  constructor
  · rintro ⟨steps, -, points⟩
    exact ⟨steps, points⟩
  · rintro ⟨steps, base, found⟩
    have further := depth_follow found
    have deeper : (deref base).depth = base.depth + 1 := rfl
    exact ⟨steps, by omega, base, found⟩

theorem steps_unique {other : Nat} (found : p.follow steps = some q) (again : p.follow other = some q) :
    other = steps := by
  have first := depth_follow found
  have second := depth_follow again
  omega

/-! ## Substitutions -/

theorem base?_subst (kept : p ≠ source) :
    (subst source target p).base? = p.base?.map (subst source target) := by
  rw [subst_of_ne kept]
  cases p <;> rfl

theorem follow_subst (missed : ∀ before < steps, p.follow before ≠ some source) :
    (subst source target p).follow steps = (p.follow steps).map (subst source target) := by
  -- A place that is not the source keeps its form, so the base of the new place is the new place of the base.
  induction steps generalizing p with
  | zero => rfl
  | succ steps ih =>
    have kept : p ≠ source := fun same => missed 0 (by omega) (congrArg some same)
    rw [follow, follow, base?_subst kept]
    cases based : p.base? with
    | none => rfl
    | some base =>
      apply ih
      intro before earlier
      rw [← follow_of_base based]
      exact missed (before + 1) (by omega)

theorem pointsAt_subst (missed : ∀ before ≤ steps, p.follow before ≠ some source) :
    (subst source target p).PointsAt steps ↔ p.PointsAt steps := by
  unfold PointsAt
  rw [follow_subst fun before earlier => missed before (Nat.le_of_lt earlier)]
  cases found : p.follow steps with
  | none => simp
  | some q =>
    have kept : q ≠ source := by
      rintro rfl
      exact missed steps (Nat.le_refl _) found
    rw [Option.map_some, subst_of_ne kept]
    cases q <;> simp [mapInner]

section Hit

variable (hit : p.follow steps = some source)

include hit

theorem follow_subst_of_hit : (subst source target p).follow steps = some target := by
  rw [follow_subst, hit, Option.map_some, subst_self]
  intro before earlier found
  exact absurd (steps_unique hit found) (by omega)

theorem root_subst_of_hit : (subst source target p).root = target.root :=
  root_follow (follow_subst_of_hit hit)

theorem depth_subst_of_hit : source.depth ≤ p.depth ∧
    (subst source target p).depth = p.depth - source.depth + target.depth := by
  have before := depth_follow hit
  have found : (subst source target p).follow steps = some target := follow_subst_of_hit hit
  have after := depth_follow found
  omega

theorem isIndirect_subst_of_hit : (subst source target p).isIndirect ↔
    (∃ before < steps, p.PointsAt before) ∨ target.isIndirect := by
  rw [isIndirect_follow (follow_subst_of_hit hit)]
  refine or_congr_left (exists_congr fun before => and_congr_right fun earlier => ?_)
  apply pointsAt_subst
  intro first within found
  exact absurd (steps_unique hit found) (by omega)

end Hit

section Missed

variable (missed : ∀ steps, p.follow steps ≠ some source)

include missed

theorem follow_subst_of_missed : (subst source target p).follow p.depth = some p.root := by
  obtain ⟨last, leaf⟩ := p.follow_depth
  rw [follow_subst fun before _ => missed before, last, Option.map_some, subst_leaf leaf]
  rintro same
  exact missed p.depth (same ▸ last)

theorem root_subst_of_missed : (subst source target p).root = p.root := by
  rw [root_follow (follow_subst_of_missed missed), root_of_leaf p.follow_depth.2]

theorem depth_subst_of_missed : (subst source target p).depth = p.depth := by
  rw [depth_follow (follow_subst_of_missed missed), depth_of_leaf p.follow_depth.2, Nat.add_zero]

theorem isIndirect_subst_of_missed : (subst source target p).isIndirect = p.isIndirect := by
  rw [Bool.eq_iff_iff, isIndirect_iff, isIndirect_iff]
  exact exists_congr fun steps => pointsAt_subst fun before _ => missed before

end Missed

/-- Root, depth and indirection of a place are told by its chain of bases: the chain has as many steps as
the place is deep and ends at the root, the only leaf on it, and it goes through a pointer just when the
place is indirect. A substitution that meets the chain, which it does at one point, puts the chain of the
new place below that point; any other leaves all three as they are, whatever it changes in index places. -/
theorem chain_tells (p : Place) :
    (p.follow p.depth = some p.root ∧ p.root.isLeaf ∧
      ∀ steps < p.depth, ∃ q, p.follow steps = some q ∧ ¬ q.isLeaf) ∧
    (p.isIndirect ↔ ∃ steps, p.PointsAt steps) ∧
    ∀ source target location use count,
      let after := (((Rebuilder.substitution source target).place location use p).run count).1
      (∀ steps, p.follow steps = some source →
        (∀ other, p.follow other = some source → other = steps) ∧
        after.root = target.root ∧
        (source.depth ≤ p.depth ∧ after.depth = p.depth - source.depth + target.depth) ∧
        (after.isIndirect ↔ (∃ before < steps, p.PointsAt before) ∨ target.isIndirect)) ∧
      ((∀ steps, p.follow steps ≠ some source) →
        after.root = p.root ∧ after.depth = p.depth ∧ after.isIndirect = p.isIndirect) := by
  obtain ⟨last, leaf⟩ := p.follow_depth
  refine ⟨⟨last, leaf, fun steps => exists_follow⟩, p.isIndirect_iff, ?_⟩
  intro source target location use count after
  have built : after = subst source target p :=
    congrArg Prod.fst (Rebuilder.substitution_follows.place location use p count)
  rw [built]
  constructor
  · intro steps hit
    exact ⟨fun other => steps_unique hit, root_subst_of_hit hit, depth_subst_of_hit hit,
      isIndirect_subst_of_hit hit⟩
  · intro missed
    exact ⟨root_subst_of_missed missed, depth_subst_of_missed missed,
      isIndirect_subst_of_missed missed⟩

/-- One substitution that meets the chain below a pointer, and one that changes its index place only. -/
theorem chain_tells_indexed :
    let p := field (deref (index (deref (var 0)) (temp 1))) 2
    let met := (((Rebuilder.substitution (.deref (.var 0)) (.arg 1)).place
      ⟨.entry, .terminator⟩ .read p).run 0).1
    let passed := (((Rebuilder.substitution (.temp 1) (.deref (.arg 1))).place
      ⟨.entry, .terminator⟩ .read p).run 0).1
    (p.follow 3 = some (.deref (.var 0)) ∧ met.root = .arg 1 ∧ met.depth = 4 - 1 + 0 ∧ met.isIndirect) ∧
    (∀ steps, p.follow steps ≠ some (.temp 1)) ∧ passed.root = .var 0 ∧ passed.depth = 4 := by
  intro p met passed
  have hit : p.follow 3 = some (.deref (.var 0)) := rfl
  have missed : ∀ steps, p.follow steps ≠ some (.temp 1) := by
    intro steps found
    have root : var 0 = temp 1 := root_follow found
    cases root
  obtain ⟨-, root, depth, indirect⟩ := ((chain_tells p).2.2 (.deref (.var 0)) (.arg 1)
    ⟨.entry, .terminator⟩ .read 0).1 3 hit
  have kept := ((chain_tells p).2.2 (.temp 1) (.deref (.arg 1)) ⟨.entry, .terminator⟩ .read 0).2 missed
  exact ⟨⟨hit, root, depth.2, indirect.2 (.inl ⟨1, by decide, _, rfl⟩)⟩, missed, kept.1, kept.2.1⟩

end MidIR.Place
