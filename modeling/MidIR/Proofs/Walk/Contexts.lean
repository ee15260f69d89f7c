import MidIR.Proofs.Walk.Enumeration

namespace MidIR

open Locator

namespace Event

def placed? : Event → Option (Location × Use × Place)
  | .place location use p => some (location, use, p)
  | _ => none

def placeAt : Event → (field : Nat) → Option (Location × Use × Place)
  | .statement location s, 0 => some (location, .store, s.target)
  | .terminator location (.call _ _ result _ _), 2 => some (location, .store, result)
  | .expr location (.borrow _ _ p), 2 => some (location, .borrow, p)
  | .place location _ (.field base _), 0 => some (location, .projection, base)
  | .place location _ (.deref base), 0 => some (location, .projection, base)
  | .place location _ (.index base _), 0 => some (location, .projection, base)
  | .place location _ (.downcast base _), 0 => some (location, .projection, base)
  | .operand location (.place p), 0 => some (location, .read, p)
  | .place location _ (.index _ position), 1 => some (location, .read, position)
  | _, _ => none

end Event

/-- The places of a tree are those that its nodes hold, with the uses that they have there. -/
def Contextual (l : Locator) : Prop :=
  ∀ front field, (l (front ++ [field])).bind Event.placed? = (l front).bind (·.placeAt field)

theorem Locator.children_cons (ls : List Locator) (i : Nat) (address : Address) :
    children ls (i :: address) = ls[i]?.bind (· address) := by
  induction ls generalizing i with
  | nil => rfl
  | cons l ls ih =>
    cases i with
    | zero => rfl
    | succ i => exact ih i

namespace Contextual

variable {event : Event} {ls : List Locator}

theorem nowhere : Contextual nowhere := fun _ _ => rfl

theorem nil : ∀ l ∈ ([] : List Locator), Contextual l := by
  simp

theorem cons {l : Locator} (first : Contextual l) (others : ∀ l ∈ ls, Contextual l) :
    ∀ l' ∈ l :: ls, Contextual l' :=
  List.forall_mem_cons.2 ⟨first, others⟩

theorem inner (each : ∀ l ∈ ls, Contextual l) (i : Nat) (front : Address) (field : Nat) :
    (children ls (i :: (front ++ [field]))).bind Event.placed? =
      (children ls (i :: front)).bind (·.placeAt field) := by
  rw [children_cons, children_cons]
  cases found : ls[i]? with
  | none => rfl
  | some l => exact each l (List.mem_of_getElem? found) front field

theorem node (each : ∀ l ∈ ls, Contextual l)
    (roots : ∀ field, (children ls [field]).bind Event.placed? = event.placeAt field) :
    Contextual (node event ls) := by
  intro front field
  cases front with
  | nil => exact roots field
  | cons i front => exact inner each i front field

theorem row (each : ∀ l ∈ ls, Contextual l) (roots : ∀ l ∈ ls, (l []).bind Event.placed? = none) :
    Contextual (children ls) := by
  intro front field
  cases front with
  | nil =>
    rw [children_root, List.nil_append, children_cons]
    cases found : ls[field]? with
    | none => rfl
    | some l => exact roots l (List.mem_of_getElem? found)
  | cons i front => exact inner each i front field

theorem map {α : Type} {locate : α → Locator} (each : ∀ a, Contextual (locate a))
    (roots : ∀ a, (locate a []).bind Event.placed? = none) (values : List α) :
    Contextual (children (values.map locate)) := by
  apply row
  · intro l member
    obtain ⟨a, _, rfl⟩ := List.mem_map.1 member
    exact each a
  · intro l member
    obtain ⟨a, _, rfl⟩ := List.mem_map.1 member
    exact roots a

end Contextual

open Contextual

variable (location : Location)

@[simp]
theorem Place.locate_root (use : Use) (p : Place) :
    p.locate location use [] = some (.place location use p) := by
  cases p <;> rfl

theorem Constant.locate_contextual (c : Constant) : Contextual (c.locate location) :=
  .node nil fun field => by cases field <;> rfl

theorem Place.locate_field (use : Use) (p : Place) (field : Nat) :
    (p.locate location use [field]).bind Event.placed? =
      (Event.place location use p).placeAt field := by
  cases p <;> rcases field with _ | _ | field <;>
    simp [locate, Locator.node, children, Locator.nowhere, Event.placed?, Event.placeAt]

theorem Place.locate_contextual (use : Use) (p : Place) : Contextual (p.locate location use) := by
  induction p generalizing use with
  | var i => exact .node (nowhere.cons nil) (locate_field location use (var i))
  | temp i => exact .node (nowhere.cons nil) (locate_field location use (temp i))
  | arg i => exact .node (nowhere.cons nil) (locate_field location use (arg i))
  | static path => exact .node (nowhere.cons nil) (locate_field location use (static path))
  | returnSlot => exact .node nil (locate_field location use returnSlot)
  | field base i ih =>
    exact .node ((ih .projection).cons (nowhere.cons nil)) (locate_field location use (field base i))
  | deref base ih => exact .node ((ih .projection).cons nil) (locate_field location use (deref base))
  | index base position ih ih' =>
    exact .node ((ih .projection).cons ((ih' .read).cons nil))
      (locate_field location use (index base position))
  | downcast base i ih =>
    exact .node ((ih .projection).cons (nowhere.cons nil)) (locate_field location use (downcast base i))

theorem Operand.locate_contextual (operand : Operand) : Contextual (operand.locate location) := by
  cases operand with
  | place p =>
    apply Contextual.node ((p.locate_contextual location .read).cons nil)
    rintro (_ | field) <;> simp [children, Event.placed?, Event.placeAt]
  | constant c =>
    apply Contextual.node ((c.locate_contextual location).cons nil)
    rintro (_ | field) <;> rfl

theorem Operand.locates_contextual (values : List Operand) :
    Contextual (children (values.map (locate location))) :=
  .map (locate_contextual location) (fun _ => rfl) values

theorem Expr.locate_field (e : Expr) (field : Nat) :
    (e.locate location [field]).bind Event.placed? = (Event.expr location e).placeAt field := by
  cases e <;> rcases field with _ | _ | _ | field <;>
    simp [locate, Locator.node, children, children_root, Locator.nowhere, Event.placed?, Event.placeAt,
      Operand.locate, Constant.locate]

theorem Expr.locate_contextual (e : Expr) : Contextual (e.locate location) := by
  have at_field := e.locate_field location
  have operand (v : Operand) := v.locate_contextual location
  cases e with
  | use value => exact .node ((operand value).cons nil) at_field
  | constant c => exact .node ((c.locate_contextual location).cons nil) at_field
  | repeated value count => exact .node ((operand value).cons (nowhere.cons nil)) at_field
  | borrow region kind p =>
    exact .node (nowhere.cons (nowhere.cons ((p.locate_contextual location .borrow).cons nil))) at_field
  | cast value ty => exact .node ((operand value).cons (nowhere.cons nil)) at_field
  | binary left op right =>
    exact .node ((operand left).cons (nowhere.cons ((operand right).cons nil))) at_field
  | unary value op => exact .node ((operand value).cons (nowhere.cons nil)) at_field
  | metadataOf value => exact .node ((operand value).cons nil) at_field
  | pointerOf value => exact .node ((operand value).cons nil) at_field
  | fatPointer pointer metadata =>
    exact .node ((operand pointer).cons ((operand metadata).cons nil)) at_field
  | tuple values => exact .node ((Operand.locates_contextual location values).cons nil) at_field
  | array values => exact .node ((Operand.locates_contextual location values).cons nil) at_field
  | variant path index value =>
    exact .node (nowhere.cons (nowhere.cons ((operand value).cons nil))) at_field
  | struct path index fields =>
    have fields := (Operand.locates_contextual location fields).cons nil
    exact .node (nowhere.cons (nowhere.cons fields)) at_field

theorem Callee.locate_contextual (callee : Callee) : Contextual (callee.locate location) := by
  cases callee with
  | value v =>
    apply Contextual.row ((v.locate_contextual location).cons nil)
    simp [Operand.locate, Locator.node, Event.placed?]
  | path p => exact .row (nowhere.cons nil) (by simp [Locator.nowhere])
  | intrinsic name arguments => exact .row (nowhere.cons (nowhere.cons nil)) (by simp [Locator.nowhere])

theorem Callee.locate_root (callee : Callee) : callee.locate location [] = none := by
  cases callee <;> rfl

theorem Terminator.locate_field (terminator : Terminator) (field : Nat) :
    (terminator.locate location [field]).bind Event.placed? =
      (Event.terminator location terminator).placeAt field := by
  cases terminator <;> rcases field with _ | _ | _ | _ | _ | field <;>
    simp [locate, Locator.node, children, children_root, Locator.nowhere, Event.placed?, Event.placeAt,
      Operand.locate, Callee.locate_root]

theorem Terminator.locate_contextual (terminator : Terminator) :
    Contextual (terminator.locate location) := by
  have at_field := terminator.locate_field location
  cases terminator with
  | incomplete => exact .node nil at_field
  | ret => exact .node nil at_field
  | diverge => exact .node nil at_field
  | goto target => exact .node (nowhere.cons nil) at_field
  | unwind target => exact .node (nowhere.cons nil) at_field
  | branch condition yes no =>
    exact .node ((condition.locate_contextual location).cons (nowhere.cons (nowhere.cons nil))) at_field
  | switch value targets =>
    exact .node ((value.locate_contextual location).cons (nowhere.cons nil)) at_field
  | call callee arguments result returns unwinds =>
    have result := (result.locate_contextual location .store).cons (nowhere.cons (nowhere.cons nil))
    exact .node ((callee.locate_contextual location).cons
      ((Operand.locates_contextual location arguments).cons result)) at_field

theorem Statement.locate_contextual (statement : Statement) :
    Contextual (statement.locate location) := by
  apply Contextual.node ((statement.target.locate_contextual location .store).cons
    ((statement.source.locate_contextual location).cons nil))
  rintro (_ | _ | field) <;> simp [children, Event.placed?, Event.placeAt, Expr.locate, Locator.node]

theorem Block.locate_contextual (label : Label) (block : Block) : Contextual (block.locate label) := by
  apply Contextual.node (cons ?_ ((block.terminator.locate_contextual _).cons nil))
  · rintro (_ | _ | field) <;>
      simp [children, children_root, Event.placed?, Event.placeAt, Terminator.locate, Locator.node]
  · exact .map (fun entry => entry.1.locate_contextual ⟨label, .statement entry.2⟩) (fun _ => rfl) _

theorem Body.locate_contextual (body : Body) : Contextual body.locate := by
  apply Contextual.node (nowhere.cons (nowhere.cons (nowhere.cons (nowhere.cons (cons ?_ nil)))))
  · rintro (_ | _ | _ | _ | _ | field) <;>
      simp [children, children_root, Locator.nowhere, Event.placeAt]
  · exact .map (fun entry => entry.2.locate_contextual entry.1) (fun _ => rfl) _

/-- A place stands in a body just where a node holds one, and its use is that of its field there. -/
theorem Body.locate_place_iff (body : Body) {front : Address} {field : Nat} {location : Location}
    {use : Use} {p : Place} :
    body.locate (front ++ [field]) = some (.place location use p) ↔
      ∃ parent, body.locate front = some parent ∧ parent.placeAt field = some (location, use, p) := by
  have law := body.locate_contextual front field
  rw [← Option.bind_eq_some_iff, ← law, Option.bind_eq_some_iff]
  constructor
  · intro found
    exact ⟨_, found, rfl⟩
  · rintro ⟨event, found, placed⟩
    cases event <;> cases placed
    exact found

end MidIR
