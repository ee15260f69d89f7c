import MidIR.Body.Basic

namespace MidIR

namespace Place

def locals : Place → List Place
  | .var i => [.var i]
  | .temp i => [.temp i]
  | .arg i => [.arg i]
  | .static _ | .returnSlot => []
  | .field base _ | .deref base | .downcast base _ => base.locals
  | .index base position => base.locals ++ position.locals

/-- The places that a place projects from or is indexed by. -/
def held : Place → List Place
  | .field base _ | .deref base | .downcast base _ => [base]
  | .index base position => [base, position]
  | .var _ | .temp _ | .arg _ | .static _ | .returnSlot => []

def parts (p : Place) : List Place :=
  p :: match p with
    | .field base _ | .deref base | .downcast base _ => base.parts
    | .index base position => base.parts ++ position.parts
    | .var _ | .temp _ | .arg _ | .static _ | .returnSlot => []

/-- A place with `target` wherever `source` stands in it, the outermost ones first. -/
def subst (source target p : Place) : Place :=
  if p = source then target
  else
    match p with
    | .field base i => .field (subst source target base) i
    | .deref base => .deref (subst source target base)
    | .index base position => .index (subst source target base) (subst source target position)
    | .downcast base i => .downcast (subst source target base) i
    | leaf => leaf

def mapInner (f : Place → Place) : Place → Place
  | .field base i => .field (f base) i
  | .deref base => .deref (f base)
  | .index base position => .index (f base) (f position)
  | .downcast base i => .downcast (f base) i
  | leaf => leaf

variable {f g : Place → Place} {source target p q : Place}

theorem held_induction {motive : Place → Prop} (step : ∀ p, (∀ q ∈ p.held, motive q) → motive p)
    (p : Place) : motive p := by
  induction p with
  | field base i ih | deref base ih | downcast base i ih => exact step _ (by simpa [held] using ih)
  | index base position ih ih' => exact step _ (by simpa [held] using ⟨ih, ih'⟩)
  | _ => exact step _ (by simp [held])

theorem held_eq_nil : p.held = [] ↔ p.isLeaf := by
  cases p <;> simp [held, isLeaf, base?]

theorem held_mapInner : (p.mapInner f).held = p.held.map f := by
  cases p <;> rfl

theorem mapInner_mapInner : (p.mapInner f).mapInner g = p.mapInner fun q => g (f q) := by
  cases p <;> rfl

theorem mapInner_of_fixed (fixed : ∀ q ∈ p.held, f q = q) : p.mapInner f = p := by
  cases p <;> simp_all [held, mapInner]

theorem mapInner_congr (same : ∀ q ∈ p.held, f q = g q) : p.mapInner f = p.mapInner g := by
  cases p <;> simp_all [held, mapInner]

theorem subst_self : subst source target source = target := by
  rw [subst.eq_def, if_pos rfl]

theorem subst_of_ne (kept : p ≠ source) :
    subst source target p = p.mapInner (subst source target) := by
  rw [subst.eq_def, if_neg kept]
  cases p <;> rfl

theorem subst_leaf (leaf : p.isLeaf) (apart : p ≠ source) : subst source target p = p := by
  rw [subst_of_ne apart]
  exact mapInner_of_fixed (by simp [held_eq_nil.2 leaf])

theorem parts_eq (p : Place) : p.parts = p :: p.held.flatMap parts := by
  cases p <;> simp [parts, held]

theorem mem_parts : q ∈ p.parts ↔ q = p ∨ ∃ inner ∈ p.held, q ∈ inner.parts := by
  rw [parts_eq, List.mem_cons, List.mem_flatMap]

theorem sizeOf_lt_of_mem_held (member : q ∈ p.held) : sizeOf q < sizeOf p := by
  cases p with
  | field base i | deref base | downcast base i =>
    rw [List.mem_singleton.1 member]
    simp +arith
  | index base position =>
    simp only [held, List.mem_cons, List.not_mem_nil, or_false] at member
    rcases member with rfl | rfl <;> simp +arith
  | _ => cases member

theorem sizeOf_le_of_mem_parts (member : q ∈ p.parts) : sizeOf q ≤ sizeOf p := by
  induction p using held_induction with
  | step p ih =>
    rcases mem_parts.1 member with rfl | ⟨inner, held, member⟩
    · exact Nat.le_refl _
    · exact Nat.le_trans (ih inner held member) (Nat.le_of_lt (sizeOf_lt_of_mem_held held))

theorem not_mem_parts_of_held (member : q ∈ p.held) : p ∉ q.parts := by
  intro within
  have smaller := sizeOf_lt_of_mem_held member
  have larger := sizeOf_le_of_mem_parts within
  omega

theorem count_parts_self [BEq Place] [LawfulBEq Place] : p.parts.count p = 1 := by
  have inside : p ∉ p.held.flatMap parts := by
    intro member
    obtain ⟨q, held, within⟩ := List.mem_flatMap.1 member
    exact not_mem_parts_of_held held within
  rw [parts_eq, List.count_cons_self, List.count_eq_zero.2 inside]

end Place

namespace Operand

def places (operand : Operand) : List Place :=
  operand.place?.toList

def mapPlaces (f : Place → Place) : Operand → Operand
  | .place p => .place (f p)
  | .constant c => .constant c

theorem mapPlaces_id : mapPlaces id = id := by
  funext operand
  cases operand <;> rfl

theorem places_mapPlaces (f : Place → Place) (operand : Operand) :
    (operand.mapPlaces f).places = operand.places.map f := by
  cases operand <;> rfl

theorem flatMap_places_mapPlaces (f : Place → Place) (values : List Operand) :
    (values.map (mapPlaces f)).flatMap places = (values.flatMap places).map f := by
  simp [List.flatMap_map, List.map_flatMap, places_mapPlaces]

theorem mapPlaces_mapPlaces {f g h : Place → Place} {operand : Operand}
    (same : ∀ p ∈ operand.places, g (f p) = h p) :
    (operand.mapPlaces f).mapPlaces g = operand.mapPlaces h := by
  cases operand with
  | place p => exact congrArg Operand.place (same p (List.mem_singleton_self p))
  | constant c => rfl

theorem map_mapPlaces_mapPlaces {f g h : Place → Place} {values : List Operand}
    (same : ∀ p ∈ values.flatMap places, g (f p) = h p) :
    (values.map (mapPlaces f)).map (mapPlaces g) = values.map (mapPlaces h) := by
  rw [List.map_map]
  refine List.map_congr_left fun value member => mapPlaces_mapPlaces fun p held => ?_
  exact same p (List.mem_flatMap.2 ⟨value, member, held⟩)

end Operand

namespace Expr

def places : Expr → List Place
  | .borrow _ _ p => [p]
  | e => e.operands.flatMap Operand.places

def mapPlaces (f : Place → Place) : Expr → Expr
  | .use value => .use (value.mapPlaces f)
  | .constant c => .constant c
  | .repeated value count => .repeated (value.mapPlaces f) count
  | .borrow region kind p => .borrow region kind (f p)
  | .cast value ty => .cast (value.mapPlaces f) ty
  | .binary left op right => .binary (left.mapPlaces f) op (right.mapPlaces f)
  | .unary value op => .unary (value.mapPlaces f) op
  | .metadataOf value => .metadataOf (value.mapPlaces f)
  | .pointerOf value => .pointerOf (value.mapPlaces f)
  | .fatPointer pointer metadata => .fatPointer (pointer.mapPlaces f) (metadata.mapPlaces f)
  | .tuple values => .tuple (values.map (·.mapPlaces f))
  | .array values => .array (values.map (·.mapPlaces f))
  | .variant path index value => .variant path index (value.mapPlaces f)
  | .struct path index fields => .struct path index (fields.map (·.mapPlaces f))

theorem mapPlaces_id : mapPlaces id = id := by
  funext e
  cases e <;> simp [mapPlaces, Operand.mapPlaces_id]

theorem places_mapPlaces (f : Place → Place) (e : Expr) :
    (e.mapPlaces f).places = e.places.map f := by
  cases e <;>
    simp [mapPlaces, places, operands, Operand.places_mapPlaces, Operand.flatMap_places_mapPlaces]

theorem mapPlaces_mapPlaces {f g h : Place → Place} {e : Expr}
    (same : ∀ p ∈ e.places, g (f p) = h p) : (e.mapPlaces f).mapPlaces g = e.mapPlaces h := by
  cases e with
  | constant c => rfl
  | borrow region kind p => exact congrArg (borrow region kind) (same p (List.mem_singleton_self p))
  | _ => simpa [mapPlaces, operands] using Operand.map_mapPlaces_mapPlaces same

end Expr

namespace Callee

def places : Callee → List Place
  | .value v => v.places
  | .path _ | .intrinsic .. => []

def mapPlaces (f : Place → Place) : Callee → Callee
  | .value v => .value (v.mapPlaces f)
  | other => other

theorem mapPlaces_id : mapPlaces id = id := by
  funext callee
  cases callee <;> simp [mapPlaces, Operand.mapPlaces_id]

theorem places_mapPlaces (f : Place → Place) (callee : Callee) :
    (callee.mapPlaces f).places = callee.places.map f := by
  cases callee <;> simp [mapPlaces, places, Operand.places_mapPlaces]

theorem mapPlaces_mapPlaces {f g h : Place → Place} {callee : Callee}
    (same : ∀ p ∈ callee.places, g (f p) = h p) :
    (callee.mapPlaces f).mapPlaces g = callee.mapPlaces h := by
  cases callee with
  | value v => exact congrArg value (Operand.mapPlaces_mapPlaces same)
  | path p => rfl
  | intrinsic name arguments => rfl

end Callee

namespace Terminator

def places : Terminator → List Place
  | .branch value _ _ | .switch value _ => value.places
  | .call callee arguments result _ _ =>
    callee.places ++ arguments.flatMap Operand.places ++ [result]
  | .incomplete | .ret | .diverge | .goto _ | .unwind _ => []

def mapPlaces (f : Place → Place) : Terminator → Terminator
  | .branch condition yes no => .branch (condition.mapPlaces f) yes no
  | .switch value targets => .switch (value.mapPlaces f) targets
  | .call callee arguments result returns unwinds =>
    .call (callee.mapPlaces f) (arguments.map (·.mapPlaces f)) (f result) returns unwinds
  | other => other

theorem mapPlaces_id : mapPlaces id = id := by
  funext terminator
  cases terminator <;> simp [mapPlaces, Operand.mapPlaces_id, Callee.mapPlaces_id]

theorem places_mapPlaces (f : Place → Place) (terminator : Terminator) :
    (terminator.mapPlaces f).places = terminator.places.map f := by
  cases terminator <;>
    simp [mapPlaces, places, Operand.places_mapPlaces, Callee.places_mapPlaces,
      Operand.flatMap_places_mapPlaces]

theorem mapPlaces_mapPlaces {f g h : Place → Place} {terminator : Terminator}
    (same : ∀ p ∈ terminator.places, g (f p) = h p) :
    (terminator.mapPlaces f).mapPlaces g = terminator.mapPlaces h := by
  cases terminator with
  | branch condition yes no =>
    exact congrArg (branch · yes no) (Operand.mapPlaces_mapPlaces same)
  | switch value targets => exact congrArg (switch · targets) (Operand.mapPlaces_mapPlaces same)
  | call callee arguments result returns unwinds =>
    simp only [places, List.forall_mem_append, List.forall_mem_singleton] at same
    obtain ⟨⟨called, given⟩, stored⟩ := same
    have called := Callee.mapPlaces_mapPlaces called
    have given := Operand.map_mapPlaces_mapPlaces given
    simp only [mapPlaces, called, given, stored]
  | _ => rfl

@[simp]
theorem successors_mapPlaces (f : Place → Place) (terminator : Terminator) :
    (terminator.mapPlaces f).successors = terminator.successors := by
  cases terminator <;> rfl

@[simp]
theorem isIncomplete_mapPlaces (f : Place → Place) (terminator : Terminator) :
    (terminator.mapPlaces f).isIncomplete = terminator.isIncomplete := by
  cases terminator <;> rfl

end Terminator

namespace Statement

def places (statement : Statement) : List Place :=
  statement.target :: statement.source.places

def mapPlaces (f : Place → Place) (statement : Statement) : Statement :=
  ⟨f statement.target, statement.source.mapPlaces f⟩

theorem mapPlaces_id : mapPlaces id = id := by
  funext statement
  simp [mapPlaces, Expr.mapPlaces_id]

theorem places_mapPlaces (f : Place → Place) (statement : Statement) :
    (statement.mapPlaces f).places = statement.places.map f := by
  simp [mapPlaces, places, Expr.places_mapPlaces]

theorem mapPlaces_mapPlaces {f g h : Place → Place} {statement : Statement}
    (same : ∀ p ∈ statement.places, g (f p) = h p) :
    (statement.mapPlaces f).mapPlaces g = statement.mapPlaces h := by
  obtain ⟨stored, computed⟩ := List.forall_mem_cons.1 same
  have computed := Expr.mapPlaces_mapPlaces computed
  simp only [mapPlaces, stored, computed]

end Statement

namespace Block

def places (block : Block) : List Place :=
  block.statements.flatMap Statement.places ++ block.terminator.places

def mapPlaces (f : Place → Place) (block : Block) : Block :=
  ⟨block.statements.map (·.mapPlaces f), block.terminator.mapPlaces f⟩

theorem mapPlaces_id : mapPlaces id = id := by
  funext block
  simp [mapPlaces, Statement.mapPlaces_id, Terminator.mapPlaces_id]

theorem places_mapPlaces (f : Place → Place) (block : Block) :
    (block.mapPlaces f).places = block.places.map f := by
  simp [mapPlaces, places, List.flatMap_map, List.map_flatMap, Statement.places_mapPlaces,
    Terminator.places_mapPlaces]

theorem mapPlaces_mapPlaces {f g h : Place → Place} {block : Block}
    (same : ∀ p ∈ block.places, g (f p) = h p) :
    (block.mapPlaces f).mapPlaces g = block.mapPlaces h := by
  obtain ⟨inside, exit⟩ := List.forall_mem_append.1 same
  have exit := Terminator.mapPlaces_mapPlaces exit
  simp only [mapPlaces, exit, List.map_map, mk.injEq, and_true]
  refine List.map_congr_left fun statement member => Statement.mapPlaces_mapPlaces fun p held => ?_
  exact inside p (List.mem_flatMap.2 ⟨statement, member, held⟩)

@[simp]
theorem length_statements_mapPlaces (f : Place → Place) (block : Block) :
    (block.mapPlaces f).statements.length = block.statements.length :=
  List.length_map _

@[simp]
theorem successors_mapPlaces (f : Place → Place) (block : Block) :
    (block.mapPlaces f).successors = block.successors :=
  block.terminator.successors_mapPlaces f

@[simp]
theorem isTerminated_mapPlaces (f : Place → Place) (block : Block) :
    (block.mapPlaces f).isTerminated = block.isTerminated := by
  simp [isTerminated, mapPlaces]

theorem mem_places_push {p : Place} {block : Block} {statement : Statement}
    (held : p ∈ (block.push statement).places) : p ∈ block.places ∨ p ∈ statement.places := by
  simp only [push, places, List.flatMap_append, List.flatMap_singleton, List.mem_append] at held ⊢
  exact or_right_comm.1 held

theorem mem_places_setTerminator {p : Place} {block : Block} {terminator : Terminator}
    (held : p ∈ (block.setTerminator terminator).places) :
    p ∈ block.places ∨ p ∈ terminator.places := by
  simp only [setTerminator, places, List.mem_append] at held ⊢
  exact held.imp_left .inl

end Block

namespace Body

def places (body : Body) : List Place :=
  body.blocks.flatMap Block.places

def mapPlaces (f : Place → Place) (body : Body) : Body :=
  { body with blocks := body.blocks.map (·.mapPlaces f) }

theorem mapPlaces_id : mapPlaces id = id := by
  funext body
  simp [mapPlaces, Block.mapPlaces_id]

theorem places_mapPlaces (f : Place → Place) (body : Body) :
    (body.mapPlaces f).places = body.places.map f := by
  simp [mapPlaces, places, List.flatMap_map, List.map_flatMap, Block.places_mapPlaces]

theorem mapPlaces_mapPlaces {f g h : Place → Place} {body : Body}
    (same : ∀ p ∈ body.places, g (f p) = h p) :
    (body.mapPlaces f).mapPlaces g = body.mapPlaces h := by
  simp only [mapPlaces, List.map_map, mk.injEq, true_and]
  refine List.map_congr_left fun block member => Block.mapPlaces_mapPlaces fun p held => ?_
  exact same p (List.mem_flatMap.2 ⟨block, member, held⟩)

end Body

end MidIR
