import MidIR.Walk.Event

/-!
# Walks as enumerations

Every node of a body has an address: the numbers of the fields and elements that lead to it from the
root, in declared order. A walk meets the nodes in the lexicographic order of their addresses, which
puts a node before what it holds, and meets each of them once.
-/

namespace MidIR

abbrev Address := List Nat

/-- What stands at each address of a tree. -/
abbrev Locator := Address → Option Event

namespace Locator

def nowhere : Locator := fun _ => none

def children : List Locator → Locator
  | l :: _, 0 :: address => l address
  | _ :: ls, (i + 1) :: address => children ls (i :: address)
  | _, _ => none

def node (event : Event) (fields : List Locator) : Locator
  | [] => some event
  | address => children fields address

end Locator

open Locator

def Constant.locate (location : Location) (c : Constant) : Locator :=
  node (.constant location c) []

def Place.locate (location : Location) (use : Use) (p : Place) : Locator :=
  node (.place location use p) <|
    match p with
    | .var _ | .temp _ | .arg _ | .static _ => [nowhere]
    | .returnSlot => []
    | .field base _ | .downcast base _ => [base.locate location .projection, nowhere]
    | .deref base => [base.locate location .projection]
    | .index base position => [base.locate location .projection, position.locate location .read]

def Operand.locate (location : Location) (operand : Operand) : Locator :=
  node (.operand location operand) <|
    match operand with
    | .place p => [p.locate location .read]
    | .constant c => [c.locate location]

def Expr.locate (location : Location) (e : Expr) : Locator :=
  node (.expr location e) <|
    match e with
    | .use value | .metadataOf value | .pointerOf value => [value.locate location]
    | .constant c => [c.locate location]
    | .repeated value _ | .cast value _ | .unary value _ => [value.locate location, nowhere]
    | .borrow _ _ p => [nowhere, nowhere, p.locate location .borrow]
    | .binary left _ right => [left.locate location, nowhere, right.locate location]
    | .fatPointer pointer metadata => [pointer.locate location, metadata.locate location]
    | .tuple values | .array values => [children (values.map (Operand.locate location))]
    | .variant _ _ value => [nowhere, nowhere, value.locate location]
    | .struct _ _ fields => [nowhere, nowhere, children (fields.map (Operand.locate location))]

def Callee.locate (location : Location) : Callee → Locator
  | .value v => children [v.locate location]
  | .path _ => children [nowhere]
  | .intrinsic .. => children [nowhere, nowhere]

def Terminator.locate (location : Location) (terminator : Terminator) : Locator :=
  node (.terminator location terminator) <|
    match terminator with
    | .incomplete | .ret | .diverge => []
    | .goto _ | .unwind _ => [nowhere]
    | .branch condition _ _ => [condition.locate location, nowhere, nowhere]
    | .switch value _ => [value.locate location, nowhere]
    | .call callee arguments result _ _ =>
      [callee.locate location, children (arguments.map (Operand.locate location)),
        result.locate location .store, nowhere, nowhere]

def Statement.locate (location : Location) (statement : Statement) : Locator :=
  node (.statement location statement)
    [statement.target.locate location .store, statement.source.locate location]

def Block.locate (label : Label) (block : Block) : Locator :=
  node (.block label block)
    [children (block.statements.zipIdx.map fun (statement, i) => statement.locate ⟨label, .statement i⟩),
      block.terminator.locate ⟨label, .terminator⟩]

def Body.locate (body : Body) : Locator :=
  node (.body body)
    [nowhere, nowhere, nowhere, nowhere,
      children (body.labelledBlocks.map fun (label, block) => block.locate label)]

/-- The events are what stands at the addresses of a tree, in the order of the addresses. -/
def Enumerates (l : Locator) (events : List Event) : Prop :=
  ∃ addresses : List Address, addresses.Pairwise (· < ·) ∧
    (∀ address event, l address = some event → address ∈ addresses) ∧
    addresses.map l = events.map some

def Address.next : Address → Address
  | [] => []
  | i :: address => (i + 1) :: address

theorem Address.next_lt_next {a b : Address} (less : a < b) : a.next < b.next := by
  cases a with
  | nil =>
    cases b with
    | nil => exact less
    | cons j b => exact List.nil_lt_cons _ _
  | cons i a =>
    cases b with
    | nil => exact absurd less (List.not_lt_nil _)
    | cons j b =>
      refine List.cons_lt_cons_iff.2 ?_
      rcases List.cons_lt_cons_iff.1 less with less | ⟨same, less⟩
      · exact .inl (Nat.succ_lt_succ less)
      · exact .inr ⟨congrArg _ same, less⟩

theorem Locator.children_root (ls : List Locator) : children ls [] = none := by
  cases ls <;> rfl

theorem Locator.children_next (l : Locator) (ls : List Locator) (address : Address) :
    children (l :: ls) address.next = children ls address := by
  cases address with
  | nil => exact (children_root _).trans (children_root _).symm
  | cons i address => rfl

namespace Enumerates

variable {l : Locator} {ls : List Locator} {events others : List Event}

theorem exists_cons {addresses : List Address} (places : addresses.map (children ls) = events.map some)
    {address : Address} (member : address ∈ addresses) : ∃ i rest, address = i :: rest := by
  have found : children ls address ∈ events.map some := places ▸ List.mem_map_of_mem member
  cases address with
  | nil =>
    rw [children_root] at found
    obtain ⟨event, _, found⟩ := List.mem_map.1 found
    cases found
  | cons i rest => exact ⟨i, rest, rfl⟩

theorem nowhere : Enumerates nowhere [] := by
  refine ⟨[], .nil, ?_, rfl⟩
  intro address event found
  cases found

theorem nil : Enumerates (children []) [] := by
  refine ⟨[], .nil, ?_, rfl⟩
  intro address event found
  cases address <;> cases found

theorem cons (first : Enumerates l events) (rest : Enumerates (children ls) others) :
    Enumerates (children (l :: ls)) (events ++ others) := by
  obtain ⟨front, frontSorted, frontAll, frontMap⟩ := first
  obtain ⟨back, backSorted, backAll, backMap⟩ := rest
  refine ⟨front.map (0 :: ·) ++ back.map Address.next, ?_, ?_, ?_⟩
  · refine List.pairwise_append.2 ⟨?_, ?_, ?_⟩
    · refine List.pairwise_map.2 (frontSorted.imp fun less => ?_)
      exact List.cons_lt_cons_iff.2 (.inr ⟨rfl, less⟩)
    · exact List.pairwise_map.2 (backSorted.imp Address.next_lt_next)
    -- Addresses in the first element start with 0, those in the others with a greater number.
    · intro _ memberFront _ memberBack
      obtain ⟨a, _, rfl⟩ := List.mem_map.1 memberFront
      obtain ⟨b, member, rfl⟩ := List.mem_map.1 memberBack
      obtain ⟨i, b, rfl⟩ := exists_cons backMap member
      exact List.cons_lt_cons_iff.2 (.inl (Nat.succ_pos i))
  · intro address event found
    cases address with
    | nil => cases found
    | cons i address =>
      cases i with
      | zero => exact List.mem_append_left _ (List.mem_map_of_mem (frontAll address event found))
      | succ i =>
        exact List.mem_append_right _ (List.mem_map.2 ⟨i :: address, backAll _ event found, rfl⟩)
  · have beyond : children (l :: ls) ∘ Address.next = children ls := funext (children_next l ls)
    rw [List.map_append, List.map_append, ← frontMap, ← backMap, List.map_map, List.map_map, beyond]
    rfl

theorem node {event : Event} (fields : Enumerates (children ls) events) :
    Enumerates (node event ls) (event :: events) := by
  obtain ⟨addresses, sorted, all, places⟩ := fields
  refine ⟨[] :: addresses, ?_, ?_, ?_⟩
  · refine List.pairwise_cons.2 ⟨?_, sorted⟩
    intro address member
    obtain ⟨i, rest, rfl⟩ := exists_cons places member
    exact List.nil_lt_cons _ _
  · intro address found equal
    cases address with
    | nil => exact List.mem_cons_self ..
    | cons i rest => exact List.mem_cons_of_mem _ (all _ found equal)
  · rw [List.map_cons, List.map_cons, ← places]
    refine congrArg _ (List.map_congr_left fun address member => ?_)
    obtain ⟨i, rest, rfl⟩ := exists_cons places member
    rfl

theorem map {α : Type} {locate : α → Locator} {walk : α → List Event} {values : List α}
    (each : ∀ a ∈ values, Enumerates (locate a) (walk a)) :
    Enumerates (children (values.map locate)) (values.flatMap walk) := by
  induction values with
  | nil => exact nil
  | cons a values ih =>
    exact (each a (List.mem_cons_self ..)).cons (ih fun b member => each b (List.mem_cons_of_mem _ member))

theorem cast (enumerates : Enumerates l events) (equal : events = others) : Enumerates l others :=
  equal ▸ enumerates

theorem only {event : Event} (field : Enumerates l events) : Enumerates (Locator.node event [l]) (event :: events) :=
  ((field.cons nil).cast (List.append_nil _)).node

theorem mem_iff (enumerates : Enumerates l events) {event : Event} :
    event ∈ events ↔ ∃ address, l address = some event := by
  obtain ⟨addresses, _, all, places⟩ := enumerates
  constructor
  · intro member
    have found : some event ∈ addresses.map l := places ▸ List.mem_map_of_mem member
    obtain ⟨address, _, found⟩ := List.mem_map.1 found
    exact ⟨address, found⟩
  · rintro ⟨address, found⟩
    have member : some event ∈ events.map some :=
      places ▸ List.mem_map.2 ⟨address, all _ _ found, found⟩
    obtain ⟨_, member, equal⟩ := List.mem_map.1 member
    exact Option.some.inj equal ▸ member

theorem first_of_findSome? {β : Type} {f : Event → Option β} {b : β} (enumerates : Enumerates l events)
    (search : events.findSome? f = some b) : ∃ address event, l address = some event ∧ f event = some b ∧
      ∀ earlier < address, ∀ other, l earlier = some other → f other = none := by
  obtain ⟨addresses, sorted, all, places⟩ := enumerates
  obtain ⟨front, event, back, rfl, hit, missed⟩ := List.findSome?_eq_some_iff.1 search
  rw [List.map_append] at places
  obtain ⟨before, onwards, rfl, placesBefore, places⟩ := List.map_eq_append_iff.1 places
  obtain ⟨address, after, rfl, found, _⟩ := List.map_eq_cons_iff.1 places
  refine ⟨address, event, found, hit, ?_⟩
  intro earlier less other foundOther
  have later := (List.pairwise_append.1 sorted).2.1
  rcases List.mem_append.1 (all _ _ foundOther) with member | member
  · have member : some other ∈ front.map some :=
      placesBefore ▸ List.mem_map.2 ⟨earlier, member, foundOther⟩
    obtain ⟨_, member, equal⟩ := List.mem_map.1 member
    exact missed other (Option.some.inj equal ▸ member)
  · rcases List.mem_cons.1 member with rfl | member
    · exact absurd less (List.lt_irrefl _)
    · exact absurd less (List.lt_asymm (List.rel_of_pairwise_cons later member))

theorem findSome?_eq_some_iff {β : Type} {f : Event → Option β} {b : β} (enumerates : Enumerates l events) :
    events.findSome? f = some b ↔ ∃ address event, l address = some event ∧ f event = some b ∧
      ∀ earlier < address, ∀ other, l earlier = some other → f other = none := by
  refine ⟨enumerates.first_of_findSome?, ?_⟩
  rintro ⟨address, event, found, hit, missed⟩
  cases search : events.findSome? f with
  | none =>
    rw [List.findSome?_eq_none_iff.1 search event (enumerates.mem_iff.2 ⟨address, found⟩)] at hit
    cases hit
  | some c =>
    -- Each of the two hits comes first, so neither stands before the other.
    obtain ⟨address', event', found', hit', missed'⟩ := enumerates.first_of_findSome? search
    have notBefore : ¬ address' < address := by
      intro less
      rw [missed _ less _ found'] at hit'
      cases hit'
    have notBehind : ¬ address < address' := by
      intro less
      rw [missed' _ less _ found] at hit
      cases hit
    have same := List.le_antisymm (List.not_lt.1 notBefore) (List.not_lt.1 notBehind)
    rw [← same, found] at found'
    rw [← hit', ← Option.some.inj found', hit]

theorem findSome?_eq_none_iff {β : Type} {f : Event → Option β} (enumerates : Enumerates l events) :
    events.findSome? f = none ↔ ∀ address event, l address = some event → f event = none := by
  rw [List.findSome?_eq_none_iff]
  constructor
  · intro missed address event found
    exact missed event (enumerates.mem_iff.2 ⟨address, found⟩)
  · intro missed event member
    obtain ⟨address, found⟩ := enumerates.mem_iff.1 member
    exact missed address event found

end Enumerates

open Enumerates

/-! ## Every node of the tree -/

theorem Constant.walk_enumerates (location : Location) (c : Constant) :
    Enumerates (c.locate location) (c.walk location) := nil.node

theorem Place.walk_enumerates (location : Location) (use : Use) (p : Place) :
    Enumerates (p.locate location use) (p.walk location use) := by
  induction p generalizing use with
  | var i => exact nowhere.only
  | temp i => exact nowhere.only
  | arg i => exact nowhere.only
  | static path => exact nowhere.only
  | returnSlot => exact nil.node
  | field base i ih => exact (((ih _).cons (nowhere.cons nil)).cast (List.append_nil _)).node
  | deref base ih => exact (ih _).only
  | index base position base_ih position_ih =>
    exact ((base_ih _).cons (((position_ih _).cons nil).cast (List.append_nil _))).node
  | downcast base i ih => exact (((ih _).cons (nowhere.cons nil)).cast (List.append_nil _)).node

theorem Operand.walk_enumerates (location : Location) (operand : Operand) :
    Enumerates (operand.locate location) (operand.walk location) := by
  cases operand with
  | place p => exact (p.walk_enumerates location .read).only
  | constant c => exact (c.walk_enumerates location).only

theorem Operand.walks_enumerate (location : Location) (operands : List Operand) :
    Enumerates (children (operands.map (locate location))) (operands.flatMap (walk location)) :=
  map fun operand _ => operand.walk_enumerates location

theorem Expr.walk_enumerates (location : Location) (e : Expr) :
    Enumerates (e.locate location) (e.walk location) := by
  have operand (v : Operand) := v.walk_enumerates location
  cases e with
  | use value => exact ((operand value).cons nil).node
  | constant c => exact (c.walk_enumerates location).only
  | repeated value count => exact ((operand value).cons (nowhere.cons nil)).node
  | borrow region kind place =>
    exact ((nowhere.cons (nowhere.cons ((place.walk_enumerates location .borrow).cons nil))).cast
      (List.append_nil _)).node
  | cast value ty => exact ((operand value).cons (nowhere.cons nil)).node
  | binary left op right =>
    exact ((operand left).cons (nowhere.cons ((operand right).cons nil))).node
  | unary value op => exact ((operand value).cons (nowhere.cons nil)).node
  | metadataOf value => exact ((operand value).cons nil).node
  | pointerOf value => exact ((operand value).cons nil).node
  | fatPointer pointer metadata => exact ((operand pointer).cons ((operand metadata).cons nil)).node
  | tuple values => exact (Operand.walks_enumerate location values).only
  | array values => exact (Operand.walks_enumerate location values).only
  | variant path index value =>
    exact (nowhere.cons (nowhere.cons ((operand value).cons nil))).node
  | struct path index fields =>
    exact ((nowhere.cons (nowhere.cons ((Operand.walks_enumerate location fields).cons nil))).cast
      (List.append_nil _)).node

theorem Callee.walk_enumerates (location : Location) (callee : Callee) :
    Enumerates (callee.locate location) (callee.walk location) := by
  cases callee with
  | value v => exact ((v.walk_enumerates location).cons nil).cast (List.append_nil _)
  | path p => exact nowhere.cons nil
  | intrinsic name arguments => exact nowhere.cons (nowhere.cons nil)

theorem Terminator.walk_enumerates (location : Location) (terminator : Terminator) :
    Enumerates (terminator.locate location) (terminator.walk location) := by
  cases terminator with
  | incomplete => exact nil.node
  | ret => exact nil.node
  | diverge => exact nil.node
  | goto target => exact nowhere.only
  | unwind target => exact nowhere.only
  | branch condition yes no =>
    exact (((condition.walk_enumerates location).cons (nowhere.cons (nowhere.cons nil))).cast
      (List.append_nil _)).node
  | switch value targets =>
    exact (((value.walk_enumerates location).cons (nowhere.cons nil)).cast (List.append_nil _)).node
  | call callee arguments result returns unwinds =>
    have result := (result.walk_enumerates location .store).cons (nowhere.cons (nowhere.cons nil))
    have fields := (callee.walk_enumerates location).cons
      ((Operand.walks_enumerate location arguments).cons (result.cast (List.append_nil _)))
    exact (fields.cast (List.append_assoc ..).symm).node

theorem Statement.walk_enumerates (location : Location) (statement : Statement) :
    Enumerates (statement.locate location) (statement.walk location) := by
  have source := ((statement.source.walk_enumerates location).cons nil).cast (List.append_nil _)
  exact ((statement.target.walk_enumerates location .store).cons source).node

theorem Block.walk_enumerates (label : Label) (block : Block) :
    Enumerates (block.locate label) (block.walk label) := by
  have terminator := ((block.terminator.walk_enumerates ⟨label, .terminator⟩).cons nil).cast
    (List.append_nil _)
  exact ((map fun (statement, i) _ => statement.walk_enumerates ⟨label, .statement i⟩).cons terminator).node

theorem Body.walk_enumerates (body : Body) : Enumerates body.locate body.walk := by
  have blocks : Enumerates (children (body.labelledBlocks.map fun (label, block) => block.locate label))
      (body.labelledBlocks.flatMap fun (label, block) => block.walk label) :=
    map fun (label, block) _ => block.walk_enumerates label
  exact (nowhere.cons (nowhere.cons (nowhere.cons (nowhere.cons
    ((blocks.cons nil).cast (List.append_nil _)))))).node

end MidIR
