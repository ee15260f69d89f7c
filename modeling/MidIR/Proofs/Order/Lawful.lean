import MidIR.Proofs.Equality
import MidIR.Proofs.Order.Spelling

namespace MidIR

/-- Texts come in the order of the bytes of their UTF-8 form. -/
def TextBefore (s t : String) : Prop := utf8 s < utf8 t

def ItemPath.Before (p q : ItemPath) : Prop :=
  Prod.Lex TextBefore (List.Lex TextBefore) (p.package, p.components) (q.package, q.components)

def Scalar.Before (s t : Scalar) : Prop := names.all.idxOf s < names.all.idxOf t

def RefKind.Before (j k : RefKind) : Prop := names.all.idxOf j < names.all.idxOf k

inductive Ty.Before : Ty → Ty → Prop
  | form {t u : Ty} : forms.all.idxOf t.form < forms.all.idxOf u.form → Before t u
  | scalar {s s' : Scalar} : s.Before s' → Before (.scalar s) (.scalar s')
  | tuple {ts us : List Ty} : List.Lex Before ts us → Before (.tuple ts) (.tuple us)
  | path {p q : ItemPath} {ts us : List Ty} :
    Prod.Lex ItemPath.Before (List.Lex Before) (p, ts) (q, us) → Before (.path p ts) (.path q us)
  | ref {j k : RefKind} {t u : Ty} :
    Prod.Lex RefKind.Before Before (j, t) (k, u) → Before (.ref j t) (.ref k u)
  | pointer {j k : RefKind} {t u : Ty} :
    Prod.Lex RefKind.Before Before (j, t) (k, u) → Before (.pointer j t) (.pointer k u)
  | array {t u : Ty} {m n : UInt64} :
    Prod.Lex Before (· < ·) (t, m) (u, n) → Before (.array t m) (.array u n)
  | slice {t u : Ty} : Before t u → Before (.slice t) (.slice u)

def TypeArgs.Before (a b : TypeArgs) : Prop := List.Lex Ty.Before a.types b.types

def Path.Before (p q : Path) : Prop :=
  Prod.Lex ItemPath.Before TypeArgs.Before (p.item, p.arguments) (q.item, q.arguments)

inductive Place.Before : Place → Place → Prop
  | form {p q : Place} : forms.all.idxOf p.form < forms.all.idxOf q.form → Before p q
  | var {i j : UInt32} : i < j → Before (.var i) (.var j)
  | temp {i j : UInt32} : i < j → Before (.temp i) (.temp j)
  | arg {i j : UInt32} : i < j → Before (.arg i) (.arg j)
  | static {p q : Path} : p.Before q → Before (.static p) (.static q)
  | field {p q : Place} {i j : UInt32} :
    Prod.Lex Before (· < ·) (p, i) (q, j) → Before (.field p i) (.field q j)
  | deref {p q : Place} : Before p q → Before (.deref p) (.deref q)
  | index {p q i j : Place} : Prod.Lex Before Before (p, i) (q, j) → Before (.index p i) (.index q j)
  | downcast {p q : Place} {i j : UInt32} :
    Prod.Lex Before (· < ·) (p, i) (q, j) → Before (.downcast p i) (.downcast q j)

/-! ## Comparison decides the rules -/

section Fields

variable {α β : Type} {cmp : α → α → Ordering} {R : α → α → Prop} {S : β → β → Prop}

theorem then_eq_lt_iff {a b : α} {x y : β} {rest : Ordering} (less : cmp a b = .lt ↔ R a b)
    (equal : cmp a b = .eq ↔ a = b) (others : rest = .lt ↔ S x y) :
    (cmp a b).then rest = .lt ↔ Prod.Lex R S (a, x) (b, y) := by
  rw [Ordering.then_eq_lt, Prod.lex_def, less, equal, others]

theorem compareLists_eq_lt_iff {as bs : List α} (less : ∀ a ∈ as, ∀ b, cmp a b = .lt ↔ R a b)
    (equal : ∀ a b, cmp a b = .eq ↔ a = b) : compareLists cmp as bs = .lt ↔ List.Lex R as bs := by
  induction as generalizing bs with
  | nil => cases bs <;> simp [compareLists]
  | cons a as ih =>
    cases bs with
    | nil => simp [compareLists]
    | cons b bs =>
      have tail := @ih bs fun x member => less x (List.mem_cons_of_mem _ member)
      rw [compareLists, Ordering.then_eq_lt, less a (List.mem_cons_self ..), equal, tail,
        List.cons_lex_cons_iff]

end Fields

theorem word_before_iff (i j : UInt32) : compare i j = .lt ↔ i < j := by
  rw [UInt32.compare_eq_toNat_compare_toNat, Nat.compare_eq_lt, UInt32.lt_iff_toNat_lt]

theorem longWord_before_iff (m n : UInt64) : compare m n = .lt ↔ m < n := by
  rw [UInt64.compare_eq_toNat_compare_toNat, Nat.compare_eq_lt, UInt64.lt_iff_toNat_lt]

theorem compareText_eq_lt_iff (s t : String) : compareText s t = .lt ↔ TextBefore s t := by
  have bytes (b : UInt8) (_ : b ∈ utf8 s) (c : UInt8) : Ord.compare b c = .lt ↔ b < c := by
    rw [UInt8.compare_eq_toNat_compare_toNat, Nat.compare_eq_lt, UInt8.lt_iff_toNat_lt]
  rw [compareText, compareLists_eq_lt_iff bytes fun _ _ => Std.compare_eq_iff_eq]
  rfl

theorem ItemPath.before_iff (p q : ItemPath) : p.compare q = .lt ↔ p.Before q := by
  apply then_eq_lt_iff (compareText_eq_lt_iff ..) compareText_eq_iff
  exact compareLists_eq_lt_iff (fun s _ => compareText_eq_lt_iff s) fun _ _ => compareText_eq_iff

theorem Scalar.before_iff (s t : Scalar) : s.compare t = .lt ↔ s.Before t := by
  have position (s : Scalar) : s.ctorIdx = names.all.idxOf s := by cases s <;> rfl
  rw [compare, Nat.compare_eq_lt, position, position, Before]

theorem RefKind.before_iff (j k : RefKind) : j.compare k = .lt ↔ j.Before k := by
  have position (k : RefKind) : k.ctorIdx = names.all.idxOf k := by cases k <;> rfl
  rw [compare, Nat.compare_eq_lt, position, position, Before]

namespace Ty

theorem compare_of_form_ne {t u : Ty} (other : t.form ≠ u.form) :
    t.compare u = Ord.compare (forms.all.idxOf t.form) (forms.all.idxOf u.form) := by
  cases t <;> cases u <;> first | rfl | exact absurd rfl other

theorem before_of_form_ne {t u : Ty} (other : t.form ≠ u.form) :
    t.compare u = .lt ↔ t.Before u := by
  rw [compare_of_form_ne other, Nat.compare_eq_lt]
  constructor
  · exact .form
  · intro before
    cases before with
    | form less => exact less
    | _ => exact absurd rfl other

theorem compareAll_eq_lt_iff {ts us : List Ty}
    (each : ∀ t ∈ ts, ∀ u, t.compare u = .lt ↔ t.Before u) :
    compareAll ts us = .lt ↔ List.Lex Before ts us := by
  rw [compareAll_eq_compareLists]
  exact compareLists_eq_lt_iff each fun _ _ => compare_eq_iff

theorem before_iff (t u : Ty) : t.compare u = .lt ↔ t.Before u := by
  induction t using Ty.inductionOn generalizing u with
  | scalar s =>
    cases u with
    | scalar s' =>
      exact (s.before_iff s').trans ⟨.scalar, fun
        | .form less => absurd less (Nat.lt_irrefl _)
        | .scalar less => less⟩
    | _ => exact before_of_form_ne (by simp [form])
  | tuple elements ih =>
    cases u with
    | tuple elements' =>
      exact (compareAll_eq_lt_iff ih).trans ⟨.tuple, fun
        | .form less => absurd less (Nat.lt_irrefl _)
        | .tuple less => less⟩
    | _ => exact before_of_form_ne (by simp [form])
  | path item arguments ih =>
    cases u with
    | path item' arguments' =>
      have tail : compareAll arguments arguments' = .lt ↔ _ := compareAll_eq_lt_iff ih
      have fields := then_eq_lt_iff (item.before_iff item') ItemPath.compare_eq_iff tail
      exact fields.trans ⟨.path, fun
        | .form less => absurd less (Nat.lt_irrefl _)
        | .path less => less⟩
    | _ => exact before_of_form_ne (by simp [form])
  | ref kind inner ih =>
    cases u with
    | ref kind' inner' =>
      have fields := then_eq_lt_iff (kind.before_iff kind') RefKind.compare_eq_iff (ih inner')
      exact fields.trans ⟨.ref, fun
        | .form less => absurd less (Nat.lt_irrefl _)
        | .ref less => less⟩
    | _ => exact before_of_form_ne (by simp [form])
  | pointer kind inner ih =>
    cases u with
    | pointer kind' inner' =>
      have fields := then_eq_lt_iff (kind.before_iff kind') RefKind.compare_eq_iff (ih inner')
      exact fields.trans ⟨.pointer, fun
        | .form less => absurd less (Nat.lt_irrefl _)
        | .pointer less => less⟩
    | _ => exact before_of_form_ne (by simp [form])
  | array inner size ih =>
    cases u with
    | array inner' size' =>
      have fields := then_eq_lt_iff (ih inner') compare_eq_iff (longWord_before_iff size size')
      exact fields.trans ⟨.array, fun
        | .form less => absurd less (Nat.lt_irrefl _)
        | .array less => less⟩
    | _ => exact before_of_form_ne (by simp [form])
  | slice inner ih =>
    cases u with
    | slice inner' =>
      exact (ih inner').trans ⟨.slice, fun
        | .form less => absurd less (Nat.lt_irrefl _)
        | .slice less => less⟩
    | _ => exact before_of_form_ne (by simp [form])

end Ty

theorem TypeArgs.before_iff (a b : TypeArgs) : a.compare b = .lt ↔ a.Before b :=
  Ty.compareAll_eq_lt_iff fun t _ => t.before_iff

theorem Path.before_iff (p q : Path) : p.compare q = .lt ↔ p.Before q :=
  then_eq_lt_iff (p.item.before_iff q.item) ItemPath.compare_eq_iff
    (p.arguments.before_iff q.arguments)

namespace Place

theorem compare_of_form_ne {p q : Place} (other : p.form ≠ q.form) :
    p.compare q = Ord.compare (forms.all.idxOf p.form) (forms.all.idxOf q.form) := by
  cases p <;> cases q <;> first | rfl | exact absurd rfl other

theorem before_of_form_ne {p q : Place} (other : p.form ≠ q.form) :
    p.compare q = .lt ↔ p.Before q := by
  rw [compare_of_form_ne other, Nat.compare_eq_lt]
  constructor
  · exact .form
  · intro before
    cases before with
    | form less => exact less
    | _ => exact absurd rfl other

theorem before_iff (p q : Place) : p.compare q = .lt ↔ p.Before q := by
  induction p generalizing q with
  | var i =>
    cases q with
    | var j =>
      exact (word_before_iff i j).trans ⟨.var, fun
        | .form less => absurd less (Nat.lt_irrefl _)
        | .var less => less⟩
    | _ => exact before_of_form_ne (by simp [form])
  | temp i =>
    cases q with
    | temp j =>
      exact (word_before_iff i j).trans ⟨.temp, fun
        | .form less => absurd less (Nat.lt_irrefl _)
        | .temp less => less⟩
    | _ => exact before_of_form_ne (by simp [form])
  | arg i =>
    cases q with
    | arg j =>
      exact (word_before_iff i j).trans ⟨.arg, fun
        | .form less => absurd less (Nat.lt_irrefl _)
        | .arg less => less⟩
    | _ => exact before_of_form_ne (by simp [form])
  | static path =>
    cases q with
    | static path' =>
      exact (path.before_iff path').trans ⟨.static, fun
        | .form less => absurd less (Nat.lt_irrefl _)
        | .static less => less⟩
    | _ => exact before_of_form_ne (by simp [form])
  | returnSlot =>
    cases q with
    | returnSlot => exact ⟨nofun, fun | .form less => absurd less (Nat.lt_irrefl _)⟩
    | _ => exact before_of_form_ne (by simp [form])
  | field base i ih =>
    cases q with
    | field base' j =>
      have fields := then_eq_lt_iff (ih base') compare_eq_iff (word_before_iff i j)
      exact fields.trans ⟨.field, fun
        | .form less => absurd less (Nat.lt_irrefl _)
        | .field less => less⟩
    | _ => exact before_of_form_ne (by simp [form])
  | deref base ih =>
    cases q with
    | deref base' =>
      exact (ih base').trans ⟨.deref, fun
        | .form less => absurd less (Nat.lt_irrefl _)
        | .deref less => less⟩
    | _ => exact before_of_form_ne (by simp [form])
  | index base position ih ih' =>
    cases q with
    | index base' position' =>
      have fields := then_eq_lt_iff (ih base') compare_eq_iff (ih' position')
      exact fields.trans ⟨.index, fun
        | .form less => absurd less (Nat.lt_irrefl _)
        | .index less => less⟩
    | _ => exact before_of_form_ne (by simp [form])
  | downcast base i ih =>
    cases q with
    | downcast base' j =>
      have fields := then_eq_lt_iff (ih base') compare_eq_iff (word_before_iff i j)
      exact fields.trans ⟨.downcast, fun
        | .form less => absurd less (Nat.lt_irrefl _)
        | .downcast less => less⟩
    | _ => exact before_of_form_ne (by simp [form])

end Place

/-! ## Total orders -/

def sortBy {α : Type} (cmp : α → α → Ordering) (as : List α) : List α :=
  as.mergeSort fun a b => (cmp a b).isLE

/-- Comparison orders all values in one row: equal just when they are one value, less just when the
rules put one first, and turned over with its sides. A list of them has one sorted form. -/
structure LawfulOrder {α : Type} [BEq α] (cmp : α → α → Ordering)
    (Before : α → α → Prop) : Prop where
  equal : ∀ a b, cmp a b = .eq ↔ a == b
  less : ∀ a b, cmp a b = .lt ↔ Before a b
  swap : ∀ a b, cmp b a = (cmp a b).swap
  trans : ∀ a b c, cmp a b = .lt → cmp b c = .lt → cmp a c = .lt
  sort_perm : ∀ as, (sortBy cmp as).Perm as
  sort_ascends : ∀ as, (sortBy cmp as).Pairwise fun a b => cmp a b ≠ .gt
  sorted_unique : ∀ as bs : List α, as.Perm bs → (as.Pairwise fun a b => cmp a b ≠ .gt) →
    (bs.Pairwise fun a b => cmp a b ≠ .gt) → as = bs
  sort_eq : ∀ as bs, as.Perm bs → sortBy cmp as = sortBy cmp bs

theorem Spells.lawful {α : Type} [BEq α] [LawfulBEq α] {cmp : α → α → Ordering}
    {Before : α → α → Prop} {spell : α → List Nat} (spells : Spells cmp spell)
    (equal : ∀ a b, cmp a b = .eq ↔ a = b) (less : ∀ a b, cmp a b = .lt ↔ Before a b) :
    LawfulOrder cmp Before := by
  have laws : Std.TransCmp cmp := spells.transCmp
  have swap (a b : α) : cmp b a = (cmp a b).swap := Std.OrientedCmp.eq_swap
  have le_iff {a b : α} : (cmp a b).isLE ↔ cmp a b ≠ .gt := Ordering.isLE_iff_ne_gt
  have ascends (as : List α) : (sortBy cmp as).Pairwise fun a b => cmp a b ≠ .gt := by
    refine List.Pairwise.imp le_iff.1 (List.pairwise_mergeSort ?_ ?_ as)
    · exact fun a b c => Std.TransCmp.isLE_trans
    · intro a b
      rw [swap a b]
      cases cmp a b <;> rfl
  have unique (as bs : List α) (perm : as.Perm bs) (asSorted : as.Pairwise fun a b => cmp a b ≠ .gt)
      (bsSorted : bs.Pairwise fun a b => cmp a b ≠ .gt) : as = bs := by
    -- Two values neither of which comes after the other are one value.
    refine perm.eq_of_pairwise (fun a b _ _ ab ba => (equal a b).1 ?_) asSorted bsSorted
    exact Std.OrientedCmp.isLE_antisymm (le_iff.2 ab) (le_iff.2 ba)
  exact {
    equal a b := (equal a b).trans beq_iff_eq.symm
    less
    swap
    trans a b c := Std.TransCmp.lt_trans
    sort_perm as := List.mergeSort_perm as _
    sort_ascends := ascends
    sorted_unique := unique
    sort_eq as bs perm := by
      refine unique _ _ ?_ (ascends as) (ascends bs)
      exact ((List.mergeSort_perm as _).trans perm).trans (List.mergeSort_perm bs _).symm }

theorem orders_lawful :
    LawfulOrder ItemPath.compare ItemPath.Before ∧
      LawfulOrder TypeArgs.compare TypeArgs.Before ∧
      LawfulOrder Path.compare Path.Before ∧
      LawfulOrder Ty.compare Ty.Before ∧
      LawfulOrder Place.compare Place.Before ∧
      (∀ t u : Ty, t.form ≠ u.form →
        t.compare u = Ord.compare (Ty.forms.all.idxOf t.form) (Ty.forms.all.idxOf u.form)) ∧
      ∀ p q : Place, p.form ≠ q.form →
        p.compare q = Ord.compare (Place.forms.all.idxOf p.form) (Place.forms.all.idxOf q.form) := by
  refine ⟨?_, ?_, ?_, ?_, ?_, fun _ _ => Ty.compare_of_form_ne, fun _ _ => Place.compare_of_form_ne⟩
  · exact ItemPath.spells.lawful (fun _ _ => ItemPath.compare_eq_iff) ItemPath.before_iff
  · exact TypeArgs.spells.lawful (fun _ _ => TypeArgs.compare_eq_iff) TypeArgs.before_iff
  · exact Path.spells.lawful (fun _ _ => Path.compare_eq_iff) Path.before_iff
  · exact Spells.lawful Ty.spellsAt (fun _ _ => Ty.compare_eq_iff) Ty.before_iff
  · exact Place.spells.lawful (fun _ _ => Place.compare_eq_iff) Place.before_iff

/-- `std::Vec<u8>` comes before `std::Vec<u8, bool>` and an element of a static so before one of the
other, however the indexes compare. Five places come out of a sort as their forms are declared. -/
theorem orders_lawful_nested :
    let vec (types : List Ty) : Path := ⟨⟨"std", ["Vec"]⟩, ⟨types⟩⟩
    let short : Place := .index (.static (vec [.scalar .u8])) (.temp 9)
    let long : Place := .index (.static (vec [.scalar .u8, .scalar .bool])) (.temp 0)
    short.Before long ∧ long.compare short = .gt ∧ long.compare (.deref long) = .gt ∧
      sortBy Place.compare [long, .deref .returnSlot, .temp 0, short, .var 4294967295] =
        [.var 4294967295, .temp 0, .deref .returnSlot, short, long] := by
  intro vec short long
  obtain ⟨-, -, -, -, places, -, apart⟩ := orders_lawful
  have less : short.compare long = .lt := by decide +kernel
  refine ⟨(places.less ..).1 less, ?_, ?_, ?_⟩
  · rw [places.swap short long, less]
    rfl
  · rw [apart _ _ (by decide)]
    rfl
  · refine places.sorted_unique _ _ ?_ (places.sort_ascends _) (by decide +kernel)
    exact (places.sort_perm _).trans (by decide +kernel)

end MidIR
