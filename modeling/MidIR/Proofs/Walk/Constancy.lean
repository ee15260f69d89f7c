import MidIR.Proofs.Walk.Substitution
import MidIR.Proofs.Walk.Visitor

namespace MidIR

/-- The operand that a walk meets, and where. -/
def Event.operand? : Event → Option (Location × Operand)
  | .operand location value => some (location, value)
  | _ => none

variable (location : Location)

/-! ## Operands met -/

theorem Constant.operands_walk (c : Constant) : (c.walk location).filterMap Event.operand? = [] := rfl

theorem Place.operands_walk (use : Use) (p : Place) :
    (p.walk location use).filterMap Event.operand? = [] := by
  induction p generalizing use with
  | field base i ih | deref base ih | downcast base i ih =>
    rw [walk, List.filterMap_cons_none rfl, ih]
  | index base position ih ih' =>
    rw [walk, List.filterMap_cons_none rfl, List.filterMap_append, ih, ih', List.append_nil]
  | _ => rfl

theorem Operand.operands_walk (operand : Operand) :
    (operand.walk location).filterMap Event.operand? = [(location, operand)] := by
  cases operand with
  | place p =>
    have inside := p.operands_walk location .read
    exact congrArg ((location, .place p) :: ·) inside
  | constant c => rfl

theorem Operand.operands_walks (values : List Operand) :
    (values.flatMap (walk location)).filterMap Event.operand? = values.map (location, ·) := by
  rw [List.filterMap_flatMap, List.map_eq_flatMap]
  simp only [operands_walk]

namespace Expr

theorem operands_walk (e : Expr) :
    (e.walk location).filterMap Event.operand? = e.operands.map (location, ·) := by
  refine (List.filterMap_cons_none rfl).trans ?_
  cases e with
  | constant c => exact c.operands_walk location
  | borrow region kind p => exact p.operands_walk location .borrow
  | _ => exact Operand.operands_walks location _

/-! ## Places met -/

theorem places_eq_nil {e : Expr} : e.places = [] ↔ e.isConstant := by
  cases e with
  | borrow region kind p => simp [places, isConstant]
  | _ => simp [places, isConstant, operands, Operand.places]

theorem shown_walk_eq_nil {e : Expr} : shown (e.walk location) = [] ↔ e.isConstant := by
  rw [e.shown_walk, ← places_eq_nil]
  cases e.places with
  | nil => simp
  | cons p places => simp [p.parts_eq]

/-! ## Substitutions -/

theorem isConstant_mapPlaces (f : Place → Place) (e : Expr) :
    (e.mapPlaces f).isConstant = e.isConstant := by
  rw [Bool.eq_iff_iff, ← places_eq_nil, ← places_eq_nil, places_mapPlaces, List.map_eq_nil_iff]

theorem mapPlaces_of_isConstant {e : Expr} (constant : e.isConstant) (f : Place → Place) :
    e.mapPlaces f = e := by
  have nothing : ∀ p ∈ e.places, id (f p) = id p := by simp [places_eq_nil.2 constant]
  calc e.mapPlaces f = (e.mapPlaces f).mapPlaces id := by rw [mapPlaces_id, id]
    _ = e.mapPlaces id := mapPlaces_mapPlaces nothing
    _ = e := congrFun mapPlaces_id e

theorem substitution_run (source target : Place) (e : Expr) (count : Nat) :
    ((Rebuilder.substitution source target).expr location e).run count =
      (e.mapPlaces (Place.subst source target), count + (shown (e.walk location)).count source) := by
  rw [Rebuilder.substitution_follows.expr location e count, foldl_tally, countP_shows]

/-- An expression is constant just when a visitor meets no place in it, at any depth; and its operands are
those that the visitor meets. So a substitution leaves a constant expression as it is and counts nothing,
and no substitution makes an expression constant that was not, or the other way. -/
theorem isConstant_iff_walk (e : Expr) :
    let events := ((Visitor.recorder.expr location e).run []).2
    (e.isConstant ↔ ∀ location use p, .place location use p ∉ events) ∧
    events.filterMap Event.operand? = e.operands.map (location, ·) ∧
    ∀ source target count,
      let rewritten := ((Rebuilder.substitution source target).expr location e).run count
      (e.isConstant → rewritten = (e, count)) ∧ rewritten.1.isConstant = e.isConstant := by
  intro events
  have noted : events = e.walk location := congrArg Prod.snd (e.notes location [])
  rw [noted]
  refine ⟨?_, e.operands_walk location, fun source target count => ⟨fun constant => ?_, ?_⟩⟩
  · rw [← shown_walk_eq_nil location, List.eq_nil_iff_forall_not_mem]
    simp only [mem_shown, not_exists]
    exact ⟨fun absent location use p => absent p location use,
      fun absent p location use => absent location use p⟩
  · rw [substitution_run, (shown_walk_eq_nil location).2 constant, mapPlaces_of_isConstant constant]
    rfl
  · rw [substitution_run]
    exact isConstant_mapPlaces _ e

theorem isConstant_iff_walk_array :
    let e : Expr := .array [.constant (.int 1), .constant (.text "one")]
    e.isConstant ∧
      ((Rebuilder.substitution (.var 0) (.arg 0)).expr ⟨.entry, .terminator⟩ e).run 2 = (e, 2) := by
  intro e
  have constant : e.isConstant := by decide
  exact ⟨constant, ((isConstant_iff_walk ⟨.entry, .terminator⟩ e).2.2 _ _ 2).1 constant⟩

/-- A borrow has no operand, and still is not constant: a walk meets the place that it names. -/
example : (borrow 0 .shared .returnSlot).operands = [] ∧ ¬ (borrow 0 .shared .returnSlot).isConstant := by
  decide

end Expr

end MidIR
