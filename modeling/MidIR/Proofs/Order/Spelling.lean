import Mathlib.Data.UInt
import MidIR.Place.Order

/-!
# Spelled values

Every value that is compared can be spelled as a row of numbers, so that values compare as their
spellings do. The spellings are ordered like words, and the laws of that order are laws of every order
of values.
-/

namespace MidIR

theorem compareLists_eq_compareLex {α : Type} (cmp : α → α → Ordering) (as bs : List α) :
    compareLists cmp as bs = List.compareLex cmp as bs := by
  induction as generalizing bs with
  | nil => cases bs <;> rfl
  | cons a as ih =>
    cases bs with
    | nil => rfl
    | cons b bs => rw [compareLists, List.compareLex_cons_cons, ih]

/-- However two rows of numbers go on, they compare by these parts of them first. -/
def SpellsAt {α : Type} (cmp : α → α → Ordering) (spell : α → List Nat) (a : α) : Prop :=
  ∀ b s t, compareLists Ord.compare (spell a ++ s) (spell b ++ t) =
    (cmp a b).then (compareLists Ord.compare s t)

def Spells {α : Type} (cmp : α → α → Ordering) (spell : α → List Nat) : Prop :=
  ∀ a, SpellsAt cmp spell a

/-- A list goes on at each 1 and ends at 0, so that a proper beginning comes first. -/
def spellList {α : Type} (spell : α → List Nat) : List α → List Nat
  | [] => [0]
  | a :: as => 1 :: (spell a ++ spellList spell as)

namespace Spells

variable {α : Type} {cmp : α → α → Ordering} {spell : α → List Nat}

theorem list_of_mem {as : List α} (each : ∀ a ∈ as, SpellsAt cmp spell a) :
    SpellsAt (compareLists cmp) (spellList spell) as := by
  intro bs s t
  induction as generalizing bs with
  | nil => cases bs <;> simp [spellList, compareLists, Nat.compare_eq_lt.2]
  | cons a as ih =>
    cases bs with
    | nil => simp [spellList, compareLists, Nat.compare_eq_gt.2]
    | cons b bs =>
      have head := each a (List.mem_cons_self ..) b
      have tail := ih (fun a member => each a (List.mem_cons_of_mem _ member)) bs
      simp [spellList, compareLists, head, tail, Ordering.then_assoc]

theorem list (spells : Spells cmp spell) : Spells (compareLists cmp) (spellList spell) :=
  fun _ => list_of_mem fun a _ => spells a

theorem number {rank : α → Nat} (same : ∀ a b, cmp a b = Ord.compare (rank a) (rank b)) :
    Spells cmp fun a => [rank a] := by
  intro a b s t
  simp [compareLists, same]

theorem differ {i j : Nat} (other : i ≠ j) (s t : List Nat) (rest : Ordering) :
    compareLists Ord.compare (i :: s) (j :: t) = (Ord.compare i j).then rest := by
  have decided : Ord.compare i j ≠ .eq := fun equal => other (Nat.compare_eq_eq.1 equal)
  rw [compareLists]
  cases found : Ord.compare i j with
  | eq => exact absurd found decided
  | _ => rfl

theorem same (i : Nat) (s t : List Nat) :
    compareLists Ord.compare (i :: s) (i :: t) = compareLists Ord.compare s t := by
  rw [compareLists, Nat.compare_eq_eq.2 rfl, Ordering.eq_then]

theorem compare_eq (spells : Spells cmp spell) (a b : α) :
    cmp a b = List.compareLex Ord.compare (spell a) (spell b) := by
  have whole := spells a b [] []
  rw [List.append_nil, List.append_nil, compareLists_eq_compareLex] at whole
  rw [whole, compareLists, Ordering.then_eq]

theorem transCmp (spells : Spells cmp spell) : Std.TransCmp cmp where
  eq_swap := by
    intro a b
    rw [spells.compare_eq, spells.compare_eq]
    exact Std.OrientedCmp.eq_swap
  isLE_trans := by
    intro a b c
    rw [spells.compare_eq, spells.compare_eq, spells.compare_eq]
    exact Std.TransCmp.isLE_trans

end Spells

def spellText (s : String) : List Nat :=
  spellList (fun b => [b.toNat]) (utf8 s)

theorem spells_byte : Spells Ord.compare fun b : UInt8 => [b.toNat] :=
  .number UInt8.compare_eq_toNat_compare_toNat

theorem spells_text : Spells compareText spellText := by
  intro s t
  exact spells_byte.list (utf8 s) (utf8 t)

def ItemPath.spell (path : ItemPath) : List Nat :=
  spellText path.package ++ spellList spellText path.components

theorem ItemPath.spells : Spells compare spell := by
  intro p q s t
  simp [spell, compare, spells_text p.package q.package, spells_text.list p.components q.components,
    Ordering.then_assoc]

/-! ## Types -/

namespace Ty

mutual

def spell : Ty → List Nat
  | .scalar s => [0, s.ctorIdx]
  | .tuple elements => 1 :: spellAll elements
  | .path item arguments => 2 :: (item.spell ++ spellAll arguments)
  | .ref kind inner => 3 :: kind.ctorIdx :: inner.spell
  | .pointer kind inner => 4 :: kind.ctorIdx :: inner.spell
  | .array inner size => 5 :: (inner.spell ++ [size.toNat])
  | .slice inner => 6 :: inner.spell
termination_by structural t => t

def spellAll : List Ty → List Nat
  | [] => [0]
  | t :: ts => 1 :: (t.spell ++ spellAll ts)
termination_by structural ts => ts

end

theorem spellAll_eq (types : List Ty) : spellAll types = spellList spell types := by
  induction types with
  | nil => rfl
  | cons t types ih => rw [spellAll, spellList, ih]

theorem spellsAll_of_mem {types : List Ty} (each : ∀ t ∈ types, SpellsAt compare spell t) :
    SpellsAt compareAll spellAll types := by
  intro others s t
  rw [spellAll_eq, spellAll_eq, compareAll_eq_compareLists]
  exact Spells.list_of_mem each others s t

theorem spellsAt (t : Ty) : SpellsAt compare spell t := by
  -- The first number of a spelling is the position of the form, where values of different forms differ.
  induction t using Ty.inductionOn with
  | scalar s =>
    intro u
    cases u with
    | scalar s' => simp [spell, compare, compareLists, Scalar.compare]
    | _ => exact fun _ _ => Spells.differ (by decide) ..
  | tuple elements ih =>
    intro u
    cases u with
    | tuple elements' =>
      intro s t
      exact (Spells.same ..).trans (spellsAll_of_mem ih elements' s t)
    | _ => exact fun _ _ => Spells.differ (by decide) ..
  | path item arguments ih =>
    intro u
    cases u with
    | path item' arguments' =>
      simp [spell, compare, Spells.same, ItemPath.spells item item', spellsAll_of_mem ih arguments',
        Ordering.then_assoc]
    | _ => exact fun _ _ => Spells.differ (by decide) ..
  | ref kind inner ih =>
    intro u
    cases u with
    | ref kind' inner' =>
      simp [spell, compare, compareLists, RefKind.compare, ih inner', Ordering.then_assoc]
    | _ => exact fun _ _ => Spells.differ (by decide) ..
  | pointer kind inner ih =>
    intro u
    cases u with
    | pointer kind' inner' =>
      simp [spell, compare, compareLists, RefKind.compare, ih inner', Ordering.then_assoc]
    | _ => exact fun _ _ => Spells.differ (by decide) ..
  | array inner size ih =>
    intro u
    cases u with
    | array inner' size' =>
      simp [spell, compare, compareLists, ih inner', UInt64.compare_eq_toNat_compare_toNat,
        Ordering.then_assoc]
    | _ => exact fun _ _ => Spells.differ (by decide) ..
  | slice inner ih =>
    intro u
    cases u with
    | slice inner' => simp [spell, compare, Spells.same, ih inner']
    | _ => exact fun _ _ => Spells.differ (by decide) ..

end Ty

theorem TypeArgs.spells : Spells compare fun arguments => Ty.spellAll arguments.types := by
  intro a b
  exact Ty.spellsAll_of_mem (fun t _ => t.spellsAt) b.types

def Path.spell (path : Path) : List Nat :=
  path.item.spell ++ Ty.spellAll path.arguments.types

theorem Path.spells : Spells compare spell := by
  intro p q s t
  simp [spell, compare, ItemPath.spells p.item q.item, TypeArgs.spells p.arguments q.arguments,
    Ordering.then_assoc]

/-! ## Places -/

namespace Place

def spell : Place → List Nat
  | .var i => [0, i.toNat]
  | .temp i => [1, i.toNat]
  | .arg i => [2, i.toNat]
  | .static path => 3 :: path.spell
  | .returnSlot => [4]
  | .field base i => 5 :: (base.spell ++ [i.toNat])
  | .deref base => 6 :: base.spell
  | .index base position => 7 :: (base.spell ++ position.spell)
  | .downcast base i => 8 :: (base.spell ++ [i.toNat])

theorem spells : Spells compare spell := by
  intro p
  induction p with
  | var i =>
    intro q
    cases q with
    | var j => simp [spell, compare, compareLists, UInt32.compare_eq_toNat_compare_toNat]
    | _ => exact fun _ _ => Spells.differ (by decide) ..
  | temp i =>
    intro q
    cases q with
    | temp j => simp [spell, compare, compareLists, UInt32.compare_eq_toNat_compare_toNat]
    | _ => exact fun _ _ => Spells.differ (by decide) ..
  | arg i =>
    intro q
    cases q with
    | arg j => simp [spell, compare, compareLists, UInt32.compare_eq_toNat_compare_toNat]
    | _ => exact fun _ _ => Spells.differ (by decide) ..
  | static path =>
    intro q
    cases q with
    | static path' => simp [spell, compare, Spells.same, Path.spells path path']
    | _ => exact fun _ _ => Spells.differ (by decide) ..
  | returnSlot =>
    intro q
    cases q with
    | returnSlot => simp [spell, compare, Spells.same]
    | _ => exact fun _ _ => Spells.differ (by decide) ..
  | field base i ih =>
    intro q
    cases q with
    | field base' j =>
      simp [spell, compare, compareLists, ih base', UInt32.compare_eq_toNat_compare_toNat,
        Ordering.then_assoc]
    | _ => exact fun _ _ => Spells.differ (by decide) ..
  | deref base ih =>
    intro q
    cases q with
    | deref base' => simp [spell, compare, Spells.same, ih base']
    | _ => exact fun _ _ => Spells.differ (by decide) ..
  | index base position ih ih' =>
    intro q
    cases q with
    | index base' position' =>
      simp [spell, compare, Spells.same, ih base', ih' position', Ordering.then_assoc]
    | _ => exact fun _ _ => Spells.differ (by decide) ..
  | downcast base i ih =>
    intro q
    cases q with
    | downcast base' j =>
      simp [spell, compare, compareLists, ih base', UInt32.compare_eq_toNat_compare_toNat,
        Ordering.then_assoc]
    | _ => exact fun _ _ => Spells.differ (by decide) ..

end Place

end MidIR
