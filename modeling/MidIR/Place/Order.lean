import MidIR.Place.Basic

namespace MidIR.Place

def compare : Place → Place → Ordering
  | .var i, .var j | .temp i, .temp j | .arg i, .arg j => Ord.compare i j
  | .static p, .static q => p.compare q
  | .field a i, .field b j => (a.compare b).then (Ord.compare i j)
  | .deref a, .deref b => a.compare b
  | .index a i, .index b j => (a.compare b).then (i.compare j)
  | .downcast a i, .downcast b j => (a.compare b).then (Ord.compare i j)
  | a, b => Ord.compare a.ctorIdx b.ctorIdx

theorem compare_eq_iff {a b : Place} : a.compare b = .eq ↔ a = b := by
  induction a generalizing b with
  | index base index baseLaw indexLaw =>
    cases b <;> simp [compare, Place.ctorIdx, Ordering.then_eq_eq, baseLaw, indexLaw]
  | _ =>
    cases b <;> simp [compare, Place.ctorIdx, Ordering.then_eq_eq, Path.compare_eq_iff, *]

instance : DecidableEq Place := fun _ _ => decidable_of_iff _ compare_eq_iff

end MidIR.Place
