import MidIR.Binary.Record
import MidIR.Walk.Event

namespace MidIR

/-- The binary form of the node of an event. -/
def Event.record : Event → List UInt8
  | .body b => encode b
  | .block _ b => encode b
  | .statement _ s => encode s
  | .terminator _ t => encode t
  | .expr _ e => encode e
  | .operand _ o => encode o
  | .place _ _ p => encode p
  | .constant _ c => encode c

/-- The location of the statement or terminator that a node is below. -/
def Event.partOf : Event → Option Location
  | .expr location _ | .operand location _ | .place location _ _ | .constant location _ => some location
  | .body _ | .block .. | .statement .. | .terminator .. => none

/-- The node of an event is below a location, and its record stands at an offset of the bytes. -/
structure Event.StandsAt (location : Location) (bytes : List UInt8) (offset : Nat) (event : Event) :
    Prop where
  part : event.partOf = some location
  nonempty : event.record ≠ []
  ahead : event.record <+: bytes.drop offset

/-- The records of the events stand in the bytes, each behind the start of the one before. -/
def Stands (location : Location) (bytes : List UInt8) (events : List Event) : Prop :=
  ∃ starts : List (Nat × Event), starts.map Prod.snd = events ∧ starts.Pairwise (·.1 < ·.1) ∧
    ∀ start ∈ starts, start.2.StandsAt location bytes start.1

namespace Event.StandsAt

variable {location : Location} {bytes : List UInt8} {offset : Nat} {event : Event}

theorem lt_length (stands : event.StandsAt location bytes offset) : offset < bytes.length := by
  rcases Nat.lt_or_ge offset bytes.length with before | beyond
  · exact before
  · have ahead := stands.ahead
    rw [List.drop_eq_nil_of_le beyond, List.prefix_nil] at ahead
    exact absurd ahead stands.nonempty

theorem before (stands : event.StandsAt location bytes offset) (others : List UInt8) :
    event.StandsAt location (bytes ++ others) offset := by
  refine ⟨stands.part, stands.nonempty, ?_⟩
  rw [List.drop_append_of_le_length (Nat.le_of_lt stands.lt_length)]
  exact stands.ahead.trans (List.prefix_append ..)

theorem behind (stands : event.StandsAt location bytes offset) (others : List UInt8) :
    event.StandsAt location (others ++ bytes) (others.length + offset) := by
  refine ⟨stands.part, stands.nonempty, ?_⟩
  rw [List.drop_length_add_append]
  exact stands.ahead

end Event.StandsAt

namespace Stands

variable {location : Location} {bytes others tag : List UInt8} {event : Event}
  {events events' : List Event}

theorem plain (bytes : List UInt8) : Stands location bytes [] :=
  ⟨[], rfl, .nil, fun _ member => by cases member⟩

theorem append (front : Stands location bytes events) (back : Stands location others events') :
    Stands location (bytes ++ others) (events ++ events') := by
  obtain ⟨starts, rfl, sorted, stand⟩ := front
  obtain ⟨starts', rfl, sorted', stand'⟩ := back
  refine ⟨starts ++ starts'.map (fun start => (bytes.length + start.1, start.2)), ?_, ?_, ?_⟩
  · simp
  · rw [List.pairwise_append]
    refine ⟨sorted, List.pairwise_map.2 (sorted'.imp fun less => Nat.add_lt_add_left less _), ?_⟩
    intro start member start' member'
    obtain ⟨later, _, rfl⟩ := List.mem_map.1 member'
    exact Nat.lt_add_right _ (stand start member).lt_length
  · intro start member
    rcases List.mem_append.1 member with member | member
    · exact (stand start member).before others
    · obtain ⟨later, back, rfl⟩ := List.mem_map.1 member
      exact (stand' later back).behind bytes

theorem node {payload : List UInt8} (part : event.partOf = some location)
    (record : event.record = tag ++ payload) (tagged : tag ≠ [])
    (inside : Stands location payload events) : Stands location event.record (event :: events) := by
  obtain ⟨starts, rfl, sorted, stand⟩ := inside
  refine ⟨(0, event) :: starts.map (fun start => (tag.length + start.1, start.2)), ?_, ?_, ?_⟩
  · simp
  · rw [List.pairwise_cons]
    refine ⟨?_, List.pairwise_map.2 (sorted.imp fun less => Nat.add_lt_add_left less _)⟩
    intro start member
    obtain ⟨later, _, rfl⟩ := List.mem_map.1 member
    exact Nat.lt_add_right _ (List.length_pos_iff.2 tagged)
  · intro start member
    rcases List.mem_cons.1 member with rfl | member
    · refine ⟨part, ?_, List.prefix_refl _⟩
      rw [record]
      exact List.append_ne_nil_of_left_ne_nil tagged payload
    · obtain ⟨later, held, rfl⟩ := List.mem_map.1 member
      rw [record]
      exact (stand later held).behind tag

theorem flatMap {α : Type} {encode : α → List UInt8} {walk : α → List Event}
    (each : ∀ a, Stands location (encode a) (walk a)) (values : List α) :
    Stands location (values.flatMap encode) (values.flatMap walk) := by
  induction values with
  | nil => exact plain []
  | cons a values ih => exact (each a).append ih

theorem seq {α : Type} {encode : α → List UInt8} {walk : α → List Event}
    (each : ∀ a, Stands location (encode a) (walk a)) (values : List α) :
    Stands location (Encode.seq encode values) (values.flatMap walk) :=
  (plain _).append (flatMap each values)

theorem first (bytes : List UInt8) (stands : Stands location others events) :
    Stands location (others ++ bytes) events := by
  have both := stands.append (plain bytes)
  rwa [List.append_nil] at both

theorem last (bytes : List UInt8) (stands : Stands location others events) :
    Stands location (bytes ++ others) events :=
  (plain bytes).append stands

end Stands

theorem Encode.text_ne_nil (s : String) : Encode.text s ≠ [] := by
  intro none
  have length := congrArg List.length none
  simp [Encode.text, Encode.bytes, Encode.length, Encode.u32] at length

variable (location : Location)

theorem Constant.walk_stands (c : Constant) : Stands location (encode c) (c.walk location) :=
  .node rfl rfl (Encode.text_ne_nil _) (.plain c.payload)

theorem Place.walk_stands (use : Use) (p : Place) :
    Stands location (encode p) (p.walk location use) := by
  induction p generalizing use with
  | var i => exact .node rfl rfl (Encode.text_ne_nil _) (.plain _)
  | temp i => exact .node rfl rfl (Encode.text_ne_nil _) (.plain _)
  | arg i => exact .node rfl rfl (Encode.text_ne_nil _) (.plain _)
  | static path => exact .node rfl rfl (Encode.text_ne_nil _) (.plain _)
  | returnSlot => exact .node rfl (List.append_nil _).symm (Encode.text_ne_nil _) (.plain _)
  | field base i ih =>
    exact .node rfl (List.append_assoc ..) (Encode.text_ne_nil _) ((ih .projection).first _)
  | deref base ih => exact .node rfl rfl (Encode.text_ne_nil _) (ih .projection)
  | index base position ih ih' =>
    exact .node rfl (List.append_assoc ..) (Encode.text_ne_nil _) ((ih .projection).append (ih' .read))
  | downcast base i ih =>
    exact .node rfl (List.append_assoc ..) (Encode.text_ne_nil _) ((ih .projection).first _)

theorem Operand.walk_stands (operand : Operand) :
    Stands location (encode operand) (operand.walk location) := by
  cases operand with
  | place p => exact .node rfl rfl (Encode.text_ne_nil _) (p.walk_stands location .read)
  | constant c => exact .node rfl rfl (Encode.text_ne_nil _) (c.walk_stands location)

theorem Operand.walks_stand (values : List Operand) :
    Stands location (Encode.seq encode values) (values.flatMap (walk location)) :=
  .seq (walk_stands location) values

theorem Expr.walk_stands (e : Expr) : Stands location (encode e) (e.walk location) := by
  apply Stands.node rfl rfl (Encode.text_ne_nil _)
  have only (v : Operand) : Stands location (encode v) (v.walk location ++ []) := by
    rw [List.append_nil]
    exact v.walk_stands location
  cases e with
  | use value => exact only value
  | constant c => exact c.walk_stands location
  | repeated value count => exact (value.walk_stands location).append (.plain _)
  | borrow region kind p => exact (p.walk_stands location .borrow).last _
  | cast value ty => exact (value.walk_stands location).append (.plain _)
  | binary left op right => exact ((left.walk_stands location).first _).append (only right)
  | unary value op => exact (value.walk_stands location).append (.plain _)
  | metadataOf value => exact only value
  | pointerOf value => exact only value
  | fatPointer pointer metadata => exact (pointer.walk_stands location).append (only metadata)
  | tuple values => exact Operand.walks_stand location values
  | array values => exact Operand.walks_stand location values
  | variant path index value => exact (only value).last _
  | struct path index fields => exact (Operand.walks_stand location fields).last _

theorem Callee.walk_stands (callee : Callee) :
    Stands location (encode callee) (callee.walk location) := by
  cases callee with
  | value v => exact (v.walk_stands location).last _
  | path p => exact .plain _
  | intrinsic name arguments => exact .plain _

theorem Terminator.walk_stands (terminator : Terminator) :
    ∃ inside, terminator.walk location = .terminator location terminator :: inside ∧
      Stands location (encode terminator) inside := by
  refine ⟨_, rfl, Stands.last _ ?_⟩
  cases terminator with
  | branch condition yes no => exact ((condition.walk_stands location).first _).first _
  | switch value targets => exact (value.walk_stands location).first _
  | call callee arguments result returns unwinds =>
    have arguments := (callee.walk_stands location).append (Operand.walks_stand location arguments)
    exact ((arguments.append (result.walk_stands location .store)).first _).first _
  | _ => exact .plain _

theorem Statement.walk_stands (statement : Statement) :
    ∃ inside, statement.walk location = .statement location statement :: inside ∧
      Stands location (encode statement) inside :=
  ⟨_, rfl,
    (statement.target.walk_stands location .store).append (statement.source.walk_stands location)⟩

end MidIR
