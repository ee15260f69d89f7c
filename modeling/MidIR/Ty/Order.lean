import MidIR.Ty.Basic

namespace MidIR

/-- Lexicographic comparison by `cmp`, a proper beginning first. -/
def compareLists {α : Type} (cmp : α → α → Ordering) : List α → List α → Ordering
  | [], [] => .eq
  | [], _ :: _ => .lt
  | _ :: _, [] => .gt
  | a :: as, b :: bs => (cmp a b).then (compareLists cmp as bs)

theorem compareLists_eq_iff {α : Type} {cmp : α → α → Ordering} (law : ∀ a b, cmp a b = .eq ↔ a = b)
    {as bs : List α} : compareLists cmp as bs = .eq ↔ as = bs := by
  induction as generalizing bs with
  | nil => cases bs <;> simp [compareLists]
  | cons a as ih => cases bs <;> simp [compareLists, Ordering.then_eq_eq, law, ih]

def utf8 (text : String) : List UInt8 :=
  text.toByteArray.data.toList

theorem utf8_injective {s t : String} (equal : utf8 s = utf8 t) : s = t := by
  apply String.toByteArray_inj.1
  apply ByteArray.ext
  exact Array.toList_inj.1 equal

def compareText (s t : String) : Ordering :=
  compareLists compare (utf8 s) (utf8 t)

theorem compareText_eq_iff {s t : String} : compareText s t = .eq ↔ s = t := by
  rw [compareText, compareLists_eq_iff fun a b => Std.compare_eq_iff_eq]
  exact ⟨utf8_injective, congrArg utf8⟩

namespace ItemPath

def compare (a b : ItemPath) : Ordering :=
  (compareText a.package b.package).then (compareLists compareText a.components b.components)

theorem compare_eq_iff {a b : ItemPath} : a.compare b = .eq ↔ a = b := by
  rw [compare, Ordering.then_eq_eq, compareText_eq_iff,
    compareLists_eq_iff fun _ _ => compareText_eq_iff]
  cases a; cases b; simp

end ItemPath

def Scalar.compare (a b : Scalar) : Ordering :=
  Ord.compare a.ctorIdx b.ctorIdx

theorem Scalar.compare_eq_iff {a b : Scalar} : a.compare b = .eq ↔ a = b := by
  rw [compare, Std.compare_eq_iff_eq]
  cases a <;> cases b <;> simp [Scalar.ctorIdx]

def RefKind.compare (a b : RefKind) : Ordering :=
  Ord.compare a.ctorIdx b.ctorIdx

theorem RefKind.compare_eq_iff {a b : RefKind} : a.compare b = .eq ↔ a = b := by
  rw [compare, Std.compare_eq_iff_eq]
  cases a <;> cases b <;> simp [RefKind.ctorIdx]

namespace Ty

mutual

def compare : Ty → Ty → Ordering
  | .scalar s, .scalar t => s.compare t
  | .tuple as, .tuple bs => compareAll as bs
  | .path p as, .path q bs => (p.compare q).then (compareAll as bs)
  | .ref j a, .ref k b => (j.compare k).then (a.compare b)
  | .pointer j a, .pointer k b => (j.compare k).then (a.compare b)
  | .array a m, .array b n => (a.compare b).then (Ord.compare m n)
  | .slice a, .slice b => a.compare b
  | a, b => Ord.compare a.ctorIdx b.ctorIdx
termination_by structural a => a

def compareAll : List Ty → List Ty → Ordering
  | [], [] => .eq
  | [], _ :: _ => .lt
  | _ :: _, [] => .gt
  | a :: as, b :: bs => (a.compare b).then (compareAll as bs)
termination_by structural as => as

end

mutual

theorem compare_eq_iff {a b : Ty} : a.compare b = .eq ↔ a = b := by
  cases a <;> cases b <;>
    simp [compare, Ty.ctorIdx, Ordering.then_eq_eq, compare_eq_iff, compareAll_eq_iff,
      Scalar.compare_eq_iff, RefKind.compare_eq_iff, ItemPath.compare_eq_iff]

theorem compareAll_eq_iff {as bs : List Ty} : compareAll as bs = .eq ↔ as = bs := by
  cases as <;> cases bs <;>
    simp [compareAll, Ordering.then_eq_eq, compare_eq_iff, compareAll_eq_iff]

end

theorem compareAll_eq_compareLists (as bs : List Ty) : compareAll as bs = compareLists compare as bs := by
  induction as generalizing bs with
  | nil => cases bs <;> simp [compareAll, compareLists]
  | cons a as ih => cases bs <;> simp [compareAll, compareLists, ih]

instance : DecidableEq Ty := fun _ _ => decidable_of_iff _ compare_eq_iff

end Ty

deriving instance DecidableEq for TypeArgs, Path

def TypeArgs.compare (a b : TypeArgs) : Ordering :=
  Ty.compareAll a.types b.types

theorem TypeArgs.compare_eq_iff {a b : TypeArgs} : a.compare b = .eq ↔ a = b := by
  rw [compare, Ty.compareAll_eq_iff]
  cases a; cases b; simp

def Path.compare (a b : Path) : Ordering :=
  (a.item.compare b.item).then (a.arguments.compare b.arguments)

theorem Path.compare_eq_iff {a b : Path} : a.compare b = .eq ↔ a = b := by
  rw [compare, Ordering.then_eq_eq, ItemPath.compare_eq_iff, TypeArgs.compare_eq_iff]
  cases a; cases b; simp

end MidIR
