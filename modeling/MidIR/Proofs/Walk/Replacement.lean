import Mathlib.Data.List.Forall2
import MidIR.Proofs.Walk.Substitution
import MidIR.Proofs.Walk.Visitor

namespace MidIR

open Locator

def Event.mapPlaces (f : Place → Place) : Event → Event
  | .body b => .body (b.mapPlaces f)
  | .block label b => .block label (b.mapPlaces f)
  | .statement location s => .statement location (s.mapPlaces f)
  | .terminator location t => .terminator location (t.mapPlaces f)
  | .expr location e => .expr location (e.mapPlaces f)
  | .operand location v => .operand location (v.mapPlaces f)
  | .place location use p => .place location use (p.mapInner f)
  | .constant location c => .constant location c

/-- Where the old place stood, the new one stands as a whole and with the same use. Outside the old
place every node is where it was and differs at most in the places that it holds, and there is no
other node. -/
structure Replaced (source target : Place) (before after : Locator) : Prop where
  put : ∀ address location use, before address = some (.place location use source) →
    ∀ inner, after (address ++ inner) = target.locate location use inner
  kept : ∀ address,
    (∀ front, front <+: address → ∀ location use, before front ≠ some (.place location use source)) →
    ∃ f, after address = (before address).map (Event.mapPlaces f)

namespace Replaced

variable {source target : Place} {ls ls' : List Locator}

theorem nowhere : Replaced source target nowhere nowhere where
  put _ _ _ found := by cases found
  kept _ _ := ⟨id, rfl⟩

theorem children (each : List.Forall₂ (Replaced source target) ls ls') :
    Replaced source target (children ls) (children ls') := by
  induction each with
  | nil =>
    have none (address : Address) : Locator.children [] address = .none := by cases address <;> rfl
    constructor
    · intro address location use found
      rw [none] at found
      cases found
    · intro address _
      exact ⟨id, by rw [none]; rfl⟩
  | @cons l l' ls ls' first _ rest =>
    constructor
    · intro address location use found
      match address with
      | [] => cases found
      | 0 :: address => exact first.put address location use found
      | (i + 1) :: address => exact rest.put (i :: address) location use found
    · intro address missed
      match address with
      | [] => exact ⟨id, rfl⟩
      | 0 :: address =>
        refine first.kept address fun front within => ?_
        exact missed (0 :: front) (List.cons_prefix_cons.2 ⟨rfl, within⟩)
      | (i + 1) :: address =>
        refine rest.kept (i :: address) fun front within location use held => ?_
        cases front with
        | nil =>
          rw [children_root] at held
          cases held
        | cons j front =>
          obtain ⟨rfl, shorter⟩ := List.cons_prefix_cons.1 within
          exact missed ((j + 1) :: front) (List.cons_prefix_cons.2 ⟨rfl, shorter⟩) location use held

theorem node {event : Event} {f : Place → Place}
    (other : ∀ location use, event ≠ .place location use source)
    (fields : List.Forall₂ (Replaced source target) ls ls') :
    Replaced source target (node event ls) (node (event.mapPlaces f) ls') := by
  have inside := children fields
  constructor
  · intro address location use found
    cases address with
    | nil => exact absurd (Option.some.inj found) (other location use)
    | cons i address => exact inside.put (i :: address) location use found
  · intro address missed
    cases address with
    | nil => exact ⟨f, rfl⟩
    | cons i address =>
      refine inside.kept (i :: address) fun front within location use held => ?_
      cases front with
      | nil =>
        rw [children_root] at held
        cases held
      | cons j front => exact missed (j :: front) within location use held

theorem row {α : Type} {before after : α → Locator}
    (each : ∀ a, Replaced source target (before a) (after a)) (values : List α) :
    Replaced source target (.children (values.map before)) (.children (values.map after)) := by
  apply children
  rw [List.forall₂_map_left_iff, List.forall₂_map_right_iff, List.forall₂_same]
  exact fun a _ => each a

end Replaced

/-! ## Places -/

def Below (size : Nat) (l : Locator) : Prop :=
  ∀ address location use q, l address = some (.place location use q) → sizeOf q < size

namespace Below

variable {size : Nat} {ls : List Locator}

theorem nowhere : Below size nowhere := by
  intro _ _ _ _ found
  cases found

theorem children (each : ∀ l ∈ ls, Below size l) : Below size (children ls) := by
  intro address location use q found
  cases address with
  | nil =>
    rw [children_root] at found
    cases found
  | cons i address =>
    rw [children_cons, Option.bind_eq_some_iff] at found
    obtain ⟨l, standing, found⟩ := found
    exact each l (List.mem_of_getElem? standing) address location use q found

theorem place {location : Location} {use : Use} {p : Place}
    (inside : Below (sizeOf p) (Locator.children ls)) (less : sizeOf p < size) :
    Below size (node (.place location use p) ls) := by
  intro address location' use' q found
  cases address with
  | nil =>
    cases found
    exact less
  | cons i address => exact Nat.lt_trans (inside (i :: address) location' use' q found) less

end Below

namespace Place

variable {location : Location} {use : Use} {source target p : Place}

def inner (location : Location) : Place → List Locator
  | .var _ | .temp _ | .arg _ | .static _ => [nowhere]
  | .returnSlot => []
  | .field base _ | .downcast base _ => [base.locate location .projection, nowhere]
  | .deref base => [base.locate location .projection]
  | .index base position => [base.locate location .projection, position.locate location .read]

theorem locate_eq (p : Place) :
    p.locate location use = node (.place location use p) (p.inner location) := by
  cases p <;> rfl

theorem locate_below {size : Nat} (inside : ∀ l ∈ p.inner location, Below (sizeOf p) l)
    (less : sizeOf p < size) : Below size (p.locate location use) := by
  rw [locate_eq]
  exact .place (.children inside) less

theorem inner_below (p : Place) : ∀ l ∈ p.inner location, Below (sizeOf p) l := by
  have nothing (size : Nat) : ∀ l ∈ ([] : List Locator), Below size l := by simp
  induction p with
  | field base i ih | downcast base i ih =>
    refine List.forall_mem_cons.2 ⟨locate_below ih ?_, List.forall_mem_cons.2 ⟨.nowhere, nothing _⟩⟩
    simp +arith
  | deref base ih =>
    refine List.forall_mem_cons.2 ⟨locate_below ih ?_, nothing _⟩
    simp +arith
  | index base position ih ih' =>
    refine List.forall_mem_cons.2 ⟨locate_below ih ?_,
      List.forall_mem_cons.2 ⟨locate_below ih' ?_, nothing _⟩⟩ <;> simp +arith
  | returnSlot => exact nothing _
  | _ => exact List.forall_mem_cons.2 ⟨.nowhere, nothing _⟩

theorem replaced_self :
    Replaced source target (source.locate location use) (target.locate location use) := by
  constructor
  · intro address location' use' found
    rw [locate_eq] at found
    cases address with
    | nil =>
      cases found
      exact fun _ => rfl
    | cons i address =>
      have smaller := Below.children source.inner_below (i :: address) location' use' source found
      exact absurd smaller (Nat.lt_irrefl _)
  · intro address missed
    exact absurd (locate_root location use source) (missed [] List.nil_prefix location use)

theorem replaced_of_inner (inside : List.Forall₂ (Replaced source target) (p.inner location)
      ((p.mapInner (subst source target)).inner location)) :
    Replaced source target (p.locate location use) ((subst source target p).locate location use) := by
  by_cases same : p = source
  · rw [same, subst_self]
    exact replaced_self
  · rw [subst_of_ne same, locate_eq, locate_eq]
    refine Replaced.node (fun location' use' equal => ?_) inside
    cases equal
    exact same rfl

theorem replaced (source target : Place) (location : Location) (use : Use) (p : Place) :
    Replaced source target (p.locate location use) ((subst source target p).locate location use) := by
  induction p generalizing use with
  | field base i ih | downcast base i ih =>
    exact replaced_of_inner (.cons (ih .projection) (.cons .nowhere .nil))
  | deref base ih => exact replaced_of_inner (.cons (ih .projection) .nil)
  | index base position ih ih' =>
    exact replaced_of_inner (.cons (ih .projection) (.cons (ih' .read) .nil))
  | returnSlot => exact replaced_of_inner .nil
  | _ => exact replaced_of_inner (.cons .nowhere .nil)

end Place

/-! ## Nodes -/

section Nodes

variable (source target : Place) (location : Location)

theorem Constant.replaced (c : Constant) :
    Replaced source target (c.locate location) (c.locate location) :=
  Replaced.node (f := id) nofun .nil

theorem Operand.replaced (operand : Operand) : Replaced source target (operand.locate location)
    ((operand.mapPlaces (Place.subst source target)).locate location) := by
  cases operand with
  | place p => exact .node nofun (.cons (Place.replaced source target location .read p) .nil)
  | constant c => exact .node nofun (.cons (Constant.replaced source target location c) .nil)

theorem Operand.replaced_all (values : List Operand) :
    Replaced source target (children (values.map (locate location)))
      (children ((values.map (·.mapPlaces (Place.subst source target))).map (locate location))) := by
  rw [List.map_map]
  exact .row (Operand.replaced source target location) values

theorem Expr.replaced (e : Expr) : Replaced source target (e.locate location)
    ((e.mapPlaces (Place.subst source target)).locate location) := by
  have operand (value : Operand) := Operand.replaced source target location value
  have operands (values : List Operand) :=
    Operand.replaced_all source target location values
  cases e with
  | use value => exact .node nofun (.cons (operand value) .nil)
  | constant c => exact .node nofun (.cons (Constant.replaced source target location c) .nil)
  | repeated value count => exact .node nofun (.cons (operand value) (.cons .nowhere .nil))
  | borrow region kind p =>
    have borrowed := Place.replaced source target location .borrow p
    exact .node nofun (.cons .nowhere (.cons .nowhere (.cons borrowed .nil)))
  | cast value ty => exact .node nofun (.cons (operand value) (.cons .nowhere .nil))
  | binary left op right =>
    exact .node nofun (.cons (operand left) (.cons .nowhere (.cons (operand right) .nil)))
  | unary value op => exact .node nofun (.cons (operand value) (.cons .nowhere .nil))
  | metadataOf value => exact .node nofun (.cons (operand value) .nil)
  | pointerOf value => exact .node nofun (.cons (operand value) .nil)
  | fatPointer pointer metadata =>
    exact .node nofun (.cons (operand pointer) (.cons (operand metadata) .nil))
  | tuple values => exact .node nofun (.cons (operands values) .nil)
  | array values => exact .node nofun (.cons (operands values) .nil)
  | variant path index value =>
    exact .node nofun (.cons .nowhere (.cons .nowhere (.cons (operand value) .nil)))
  | struct path index fields =>
    exact .node nofun (.cons .nowhere (.cons .nowhere (.cons (operands fields) .nil)))

theorem Callee.replaced (callee : Callee) : Replaced source target (callee.locate location)
    ((callee.mapPlaces (Place.subst source target)).locate location) := by
  cases callee with
  | value v => exact .children (.cons (Operand.replaced source target location v) .nil)
  | path p => exact .children (.cons .nowhere .nil)
  | intrinsic name arguments => exact .children (.cons .nowhere (.cons .nowhere .nil))

theorem Terminator.replaced (terminator : Terminator) : Replaced source target
    (terminator.locate location) ((terminator.mapPlaces (Place.subst source target)).locate location) := by
  cases terminator with
  | incomplete | ret | diverge => exact .node nofun .nil
  | goto label | unwind label => exact .node nofun (.cons .nowhere .nil)
  | branch condition yes no =>
    have held := Operand.replaced source target location condition
    exact .node nofun (.cons held (.cons .nowhere (.cons .nowhere .nil)))
  | switch value labels =>
    have held := Operand.replaced source target location value
    exact .node nofun (.cons held (.cons .nowhere .nil))
  | call callee arguments result returns unwinds =>
    have called := Callee.replaced source target location callee
    have given := Operand.replaced_all source target location arguments
    have stored := Place.replaced source target location .store result
    exact .node nofun
      (.cons called (.cons given (.cons stored (.cons .nowhere (.cons .nowhere .nil)))))

theorem Statement.replaced (statement : Statement) : Replaced source target
    (statement.locate location) ((statement.mapPlaces (Place.subst source target)).locate location) :=
  .node nofun (.cons (Place.replaced source target location .store statement.target)
    (.cons (Expr.replaced source target location statement.source) .nil))

theorem Block.replaced (label : Label) (block : Block) : Replaced source target (block.locate label)
    ((block.mapPlaces (Place.subst source target)).locate label) := by
  have exit := Terminator.replaced source target ⟨label, .terminator⟩ block.terminator
  refine .node nofun (.cons ?_ (.cons exit .nil))
  rw [mapPlaces, List.zipIdx_map, List.map_map]
  exact .row (fun numbered => Statement.replaced source target ⟨label, .statement numbered.2⟩ numbered.1)
    block.statements.zipIdx

theorem Body.replaced (body : Body) : Replaced source target body.locate
    (body.mapPlaces (Place.subst source target)).locate := by
  refine .node nofun (.cons .nowhere (.cons .nowhere (.cons .nowhere (.cons .nowhere (.cons ?_ .nil)))))
  rw [mapPlaces, labelledBlocks, labelledBlocks, List.zipIdx_map, List.map_map, List.map_map,
    List.map_map]
  exact .row (fun numbered => Block.replaced source target (.ofNat numbered.2) numbered.1)
    body.blocks.zipIdx

end Nodes

/-- A rebuilding puts one place for another, and adds to its count what a visitor notes of the old
one. -/
def Substitutes {α : Type} (source target : Place) (rebuilding : StateM Nat α)
    (visiting : StateM (List Event) Unit) (locate : α → Locator) (node : α) : Prop :=
  ∀ count,
    let (after, replaced) := rebuilding.run count
    let ((), noted) := visiting.run []
    Replaced source target (locate node) (locate after) ∧
      replaced = count + noted.countP (Event.shows source)

theorem Substitutes.of {α : Type} {source target : Place} {rebuilding : StateM Nat α}
    {visiting : StateM (List Event) Unit} {locate : α → Locator} {node built : α} {events : List Event}
    (rebuilds : Rebuilds (tally source) rebuilding built events) (notes : Notes visiting events)
    (replaced : Replaced source target (locate node) (locate built)) :
    Substitutes source target rebuilding visiting locate node := by
  intro count
  rw [rebuilds count, notes [], foldl_tally]
  exact ⟨replaced, rfl⟩

/-- A substitution puts the new place wherever the old one stands in what it was given, at every depth,
and changes nothing else. It counts exactly the places that a visitor meets of the old one. -/
theorem substitution_substitutes (source target : Place) :
    let replacer := Rebuilder.substitution source target
    let recorder := Visitor.recorder
    (∀ body, Substitutes source target (replacer.body body) (recorder.body body) Body.locate body) ∧
    (∀ label block, Substitutes source target (replacer.block label block) (recorder.block label block)
      (Block.locate label) block) ∧
    (∀ location statement, Substitutes source target (replacer.statement location statement)
      (recorder.statement location statement) (Statement.locate location) statement) ∧
    (∀ location terminator, Substitutes source target (replacer.terminator location terminator)
      (recorder.terminator location terminator) (Terminator.locate location) terminator) ∧
    (∀ location e, Substitutes source target (replacer.expr location e) (recorder.expr location e)
      (Expr.locate location) e) ∧
    (∀ location operand, Substitutes source target (replacer.operand location operand)
      (recorder.operand location operand) (Operand.locate location) operand) ∧
    ∀ location use p, Substitutes source target (replacer.place location use p)
      (recorder.place location use p) (Place.locate location use) p := by
  intro replacer recorder
  have follows : replacer.Follows (tally source) (Place.subst source target) :=
    Rebuilder.substitution_follows
  refine ⟨?_, ?_, ?_, ?_, ?_, ?_, ?_⟩
  · intro body
    exact .of (follows.body body) body.notes (body.replaced source target)
  · intro label block
    exact .of (follows.block label block) (block.notes label) (Block.replaced source target label block)
  · intro location statement
    exact .of (follows.statement location statement) (statement.notes location)
      (Statement.replaced source target location statement)
  · intro location terminator
    exact .of (follows.terminator location terminator) (terminator.notes location)
      (Terminator.replaced source target location terminator)
  · intro location e
    exact .of (follows.expr location e) (e.notes location) (Expr.replaced source target location e)
  · intro location operand
    exact .of (follows.operand location operand) (operand.notes location)
      (Operand.replaced source target location operand)
  · intro location use p
    exact .of (follows.place location use p) (p.notes location use)
      (Place.replaced source target location use p)

/-- The new place holds the old one and is not looked into. -/
example :
    let source := Place.deref (.temp 0)
    let target := Place.field source 1
    ((Rebuilder.substitution source target).place ⟨⟨0⟩, .terminator⟩ .read
      (.index (.deref source) source)).run 5 = (.index (.deref target) target, 7) := by
  cbv

end MidIR
