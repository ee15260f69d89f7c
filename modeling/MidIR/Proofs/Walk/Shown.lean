import MidIR.Body.Places
import MidIR.Proofs.Equality
import MidIR.Proofs.Walk.Contexts

namespace MidIR

def shown (events : List Event) : List Place :=
  (events.filterMap Event.placed?).map (·.2.2)

section Events

variable {event : Event} {events others : List Event} {p : Place}

@[simp]
theorem shown_nil : shown [] = [] := rfl

@[simp]
theorem shown_place {location : Location} {use : Use} :
    shown (.place location use p :: events) = p :: shown events := rfl

theorem shown_cons (other : event.placed? = none) : shown (event :: events) = shown events := by
  rw [shown, List.filterMap_cons_none other, shown]

@[simp]
theorem shown_append : shown (events ++ others) = shown events ++ shown others := by
  rw [shown, List.filterMap_append, List.map_append, shown, shown]

theorem shown_flatMap {α : Type} {walk : α → List Event} {values : List α} :
    shown (values.flatMap walk) = values.flatMap fun a => shown (walk a) := by
  rw [shown, List.filterMap_flatMap, List.map_flatMap]
  rfl

theorem mem_shown : p ∈ shown events ↔ ∃ location use, .place location use p ∈ events := by
  simp only [shown, List.mem_map, List.mem_filterMap]
  constructor
  · rintro ⟨⟨location, use, p⟩, ⟨event, member, placed⟩, rfl⟩
    cases event <;> cases placed
    exact ⟨location, use, member⟩
  · rintro ⟨location, use, member⟩
    exact ⟨(location, use, p), ⟨_, member, rfl⟩, rfl⟩

end Events

theorem flatMap_zipIdx_fst {α β : Type} (f : α → List β) (values : List α) :
    values.zipIdx.flatMap (fun entry => f entry.1) = values.flatMap f := by
  rw [← List.flatMap_map, List.zipIdx_map_fst]

variable (location : Location)

theorem Place.shown_walk (use : Use) (p : Place) : shown (p.walk location use) = p.parts := by
  induction p generalizing use with
  | field base i ih | deref base ih | downcast base i ih => rw [walk, shown_place, ih, parts]
  | index base position ih ih' => rw [walk, shown_place, shown_append, ih, ih', parts]
  | _ => rfl

theorem Operand.shown_walk (operand : Operand) :
    shown (operand.walk location) = operand.places.flatMap Place.parts := by
  refine (shown_cons rfl).trans ?_
  cases operand with
  | place p => simp [places, place?, p.shown_walk location]
  | constant c => rfl

theorem Operand.shown_walks (values : List Operand) :
    shown (values.flatMap (walk location)) = (values.flatMap places).flatMap Place.parts := by
  simp only [shown_flatMap, shown_walk, List.flatMap_assoc]

theorem Expr.shown_walk (e : Expr) : shown (e.walk location) = e.places.flatMap Place.parts := by
  refine (shown_cons rfl).trans ?_
  cases e with
  | constant c => rfl
  | borrow region kind p => simp [places, p.shown_walk location]
  | _ => exact Operand.shown_walks location _

theorem Callee.shown_walk (callee : Callee) :
    shown (callee.walk location) = callee.places.flatMap Place.parts := by
  cases callee with
  | value v => exact v.shown_walk location
  | path p => rfl
  | intrinsic name arguments => rfl

theorem Terminator.shown_walk (terminator : Terminator) :
    shown (terminator.walk location) = terminator.places.flatMap Place.parts := by
  refine (shown_cons rfl).trans ?_
  cases terminator with
  | branch condition yes no => exact condition.shown_walk location
  | switch value targets => exact value.shown_walk location
  | call callee arguments result returns unwinds =>
    simp [places, callee.shown_walk location, Operand.shown_walks location arguments,
      result.shown_walk location]
  | _ => rfl

theorem Statement.shown_walk (statement : Statement) :
    shown (statement.walk location) = statement.places.flatMap Place.parts := by
  rw [walk, shown_cons rfl, shown_append, statement.target.shown_walk, statement.source.shown_walk,
    places, List.flatMap_cons]

theorem Block.shown_walk (label : Label) (block : Block) :
    shown (block.walk label) = block.places.flatMap Place.parts := by
  rw [walk, shown_cons rfl, shown_append, block.terminator.shown_walk, places, List.flatMap_append,
    shown_flatMap, List.flatMap_assoc]
  simp only [Statement.shown_walk]
  rw [flatMap_zipIdx_fst fun statement : Statement => statement.places.flatMap Place.parts]

namespace Body

variable {body : Body} {p : Place}

/-- Every place of a body, at every depth and as often as it stands there. -/
def parts (body : Body) : List Place :=
  body.places.flatMap Place.parts

theorem shown_walk (body : Body) : shown body.walk = body.parts := by
  rw [walk, shown_cons rfl, parts, places, List.flatMap_assoc, shown_flatMap, labelledBlocks,
    List.flatMap_map]
  simp only [Block.shown_walk]
  exact flatMap_zipIdx_fst (fun block : Block => block.places.flatMap Place.parts) body.blocks

/-- Somewhere in the body, at any depth, this place stands. -/
def Holds (body : Body) (p : Place) : Prop :=
  ∃ address location use, body.locate address = some (.place location use p)

theorem holds_iff : body.Holds p ↔ p ∈ body.parts := by
  rw [← shown_walk, mem_shown]
  constructor
  · rintro ⟨address, location, use, found⟩
    exact ⟨location, use, body.walk_enumerates.mem_iff.2 ⟨address, found⟩⟩
  · rintro ⟨location, use, member⟩
    obtain ⟨address, found⟩ := body.walk_enumerates.mem_iff.1 member
    exact ⟨address, location, use, found⟩

instance (body : Body) (p : Place) : Decidable (body.Holds p) :=
  decidable_of_iff _ holds_iff.symm

end Body

end MidIR
