import MidIR.Proofs.Binary.Delimiting
import MidIR.Proofs.Binary.Formed
import MidIR.Proofs.Binary.Lengths

namespace MidIR

open Decoder Script BulkyRecord

/-! ## What is asked for -/

/-- How often something is asked for. -/
def asks (steps : List Step) : Nat := steps.countP fun
  | .ask _ _ => true
  | .opens | .closes => false

theorem asks_append (earlier later : List Step) : asks (earlier ++ later) = asks earlier + asks later :=
  List.countP_append ..

structure Script.Thrifty {α : Type} (script : Script α) (reader : Reader) : Prop where
  run : reader.offset + asks (script.steps reader) ≤ (script.final reader).offset + 1
  done {a : α} : script.outcome reader = .ok a →
    reader.offset + asks (script.steps reader) ≤ (script.final reader).offset

namespace Script.Thrifty

variable {α β : Type} {script : Script α} {reader : Reader}

theorem of_le (le : reader.offset + asks (script.steps reader) ≤ (script.final reader).offset) :
    script.Thrifty reader :=
  ⟨Nat.le_succ_of_le le, fun _ => le⟩

theorem value (a : α) : (Script.value a).Thrifty reader := of_le (Nat.le_refl _)

theorem take {n : Nat} (some : 0 < n) : (Script.take n).Thrifty reader where
  run := Nat.succ_le_succ ((Script.take n).moves_final reader).offset_le
  done ok := by
    by_cases enough : n ≤ reader.rest.length
    · rw [(run_take enough).2]
      exact Nat.add_le_add_left some reader.offset
    · rw [(run_take_short enough).1] at ok
      cases ok

theorem judge {verdict : α → Except Flaw β} (thrifty : script.Thrifty reader) :
    (Script.judge script verdict).Thrifty reader where
  run := by
    rw [final_judge]
    exact thrifty.run
  done ok := by
    rw [outcome_judge] at ok
    rw [final_judge]
    cases result : script.outcome reader with
    | error e =>
      rw [result] at ok
      cases ok
    | ok a => exact thrifty.done result

theorem andThen_error {next : α → Script β} {e : DecodeError} (failed : script.outcome reader = .error e)
    (thrifty : script.Thrifty reader) : (Script.andThen script next).Thrifty reader where
  run := by
    rw [steps_andThen_error next failed, (run_andThen_error next failed).2]
    exact thrifty.run
  done ok := by
    rw [(run_andThen_error next failed).1] at ok
    cases ok

theorem andThen {next : α → Script β} (first : script.Thrifty reader)
    (second : ∀ a, (next a).Thrifty (script.final reader)) :
    (Script.andThen script next).Thrifty reader := by
  cases result : script.outcome reader with
  | error e => exact andThen_error result first
  | ok a =>
    have paid := first.done result
    refine ⟨?_, fun ok => ?_⟩
    · have run := (second a).run
      rw [steps_andThen_ok next result, (run_andThen_ok next result).2, asks_append]
      omega
    · rw [(run_andThen_ok next result).1] at ok
      have done := (second a).done ok
      rw [steps_andThen_ok next result, (run_andThen_ok next result).2, asks_append]
      omega

theorem nested
    (thrifty : reader.depth < maxDepth → script.Thrifty (reader.atDepth (reader.depth + 1))) :
    (Script.nested script).Thrifty reader := by
  by_cases room : reader.depth < maxDepth
  · have same : asks ((Script.nested script).steps reader) =
        asks (script.steps (reader.atDepth (reader.depth + 1))) := by
      rw [steps_nested_room script room, asks_append]
      cases script.outcome (reader.atDepth (reader.depth + 1)) <;> exact Nat.add_zero _
    refine ⟨?_, fun ok => ?_⟩
    · rw [same, final_nested_room script room]
      exact (thrifty room).run
    · rw [outcome_nested_room script room] at ok
      rw [same, final_nested_room script room]
      exact (thrifty room).done ok
  · apply of_le
    rw [(run_nested_full script room).2, steps_nested_full script room]
    exact Nat.le_refl _

theorem u8 : Scripted.u8.script.Thrifty reader :=
  ((take (by decide)).andThen fun _ => value _).andThen fun _ => value _

theorem u32 : Scripted.u32.script.Thrifty reader :=
  ((take (by decide)).andThen fun _ => value _).andThen fun _ => value _

theorem bytes : Scripted.bytes.script.Thrifty reader := by
  let rest (length : UInt32) : Script (List UInt8) := .take length.toNat
  change (Script.andThen Scripted.u32.script rest).Thrifty reader
  cases counted : Scripted.u32.script.outcome reader with
  | error e => exact andThen_error counted u32
  | ok length =>
    have skipped : Scripted.u32.script.final reader = reader.skip 4 :=
      (Scripted.u32.takes .u32 counted).eq_skip
    have moved := ((rest length).moves_final (reader.skip 4)).offset_le
    change reader.offset + 4 ≤ _ at moved
    apply of_le
    rw [steps_andThen_ok rest counted, (run_andThen_ok rest counted).2, skipped, asks_append,
      Scripted.steps_u32]
    change reader.offset + 2 ≤ _
    omega

end Script.Thrifty

theorem Script.Formed.thrifty {α : Type} {depth : Nat} {script : Script α} (formed : Formed depth script)
    {reader : Reader} (level : reader.depth = depth) : script.Thrifty reader := by
  induction formed generalizing reader with
  | value a => exact .value a
  | fixed width =>
    refine .take ?_
    simp only [List.mem_cons, List.not_mem_nil, or_false] at width
    omega
  | bytes => exact .bytes
  | text => exact .judge .bytes
  | tag entity names known => exact .judge (.judge .bytes)
  | bool => exact .judge .u8
  | andThen _ _ ih ih_next =>
    exact (ih level).andThen fun a => ih_next a ((moves_final _ reader).depth.trans level)
  | nested _ ih =>
    subst level
    exact .nested fun room => ih room rfl
  | room _ ih =>
    subst level
    exact ⟨(ih rfl).run, (ih rfl).done⟩
  | full => exact .of_le (Nat.le_refl _)

/-! ## What values take -/

section Values

variable {α : Type} [Record α] [Outlined α] [Nested α] [LawfulRecord α] {before after : Reader}

theorem takes_seq {values : List α}
    (read : (Decoder.seq Record.decode).runOn before = (.ok values, after)) :
    before.rest = Encode.seq encode values ++ after.rest ∧ values.length ≤ 0xffffffff ∧
      after.offset = before.offset + (Encode.seq encode values).length := by
  obtain ⟨_, rfl, takes⟩ := LawfulRecord.yields.seq _ _ _ read
  have short : values.length ≤ 0xffffffff := takes.short _ (List.mem_cons_self ..)
  rw [← seq_bytes]
  exact ⟨takes.rest, short, takes.offset⟩

variable [Bulky α] [BulkyRecord α]

theorem bulk_of_decode {value : α} (read : Record.decode.runOn before = (.ok value, after)) :
    before.offset + 4 + bulk value ≤ after.offset := by
  have takes := takes_of_decode read
  have paid := bulk_le value
  have stop := takes.offset
  rw [LawfulRecord.outline_bytes] at stop
  omega

theorem bulkAll_of_decode {values : List α}
    (read : (Decoder.seq Record.decode).runOn before = (.ok values, after)) :
    before.offset + 4 + bulkAll values ≤ after.offset ∧
      before.offset + 4 + 4 * values.length ≤ after.offset := by
  obtain ⟨-, -, stop⟩ := takes_seq read
  have paid := bulkAll_le values
  omega

theorem seq_fails {data : List UInt8} {offset : Nat} (depth : Nat) {count : UInt32}
    (counted : Encode.u32 count <+: data.drop offset)
    (missing : data.length < offset + 4 + 4 * count.toNat) :
    ∃ e, ((Decoder.seq (Record.decode (α := α))).runOn (.within data offset depth)).1 = .error e := by
  rcases read : (Decoder.seq (Record.decode (α := α))).runOn (.within data offset depth) with
    ⟨e | values, after⟩
  · exact ⟨e, rfl⟩
  · obtain ⟨front, short, -⟩ := takes_seq read
    change data.drop offset = _ at front
    obtain ⟨behind, whole⟩ := counted
    have announced : count.toNat = values.length := by
      rw [front, Encode.seq, List.append_assoc] at whole
      rw [((u32_tells count values.length.toUInt32) _ _ whole).1]
      exact UInt32.toNat_ofNat_of_lt' (Nat.lt_succ_of_le short)
    have paid := (bulkAll_le values).2
    have present := congrArg List.length front
    rw [List.length_drop, List.length_append] at present
    omega

end Values

/-- Whatever the bytes announce, a reader asks at most as often as it takes bytes, once more if it fails. A
record takes four bytes more than the bulk of its value and a sequence four bytes for each of its elements
besides its count, so that a count that the bytes behind it cannot pay for is refused. -/
theorem decode_pays_in_bytes :
    (∀ (call : Call) (data : List UInt8) (offset depth : Nat) (result : Except DecodeError call.Answer)
      (after : Reader), depth ≤ maxDepth →
      call.decode.runOn (.within data offset depth) = (result, after) →
      let asked := asks (call.script.steps (.within data offset depth))
      call.script.decode = call.decode ∧ offset + asked ≤ after.offset + 1 ∧
      ∀ a, result = .ok a → offset + asked ≤ after.offset) ∧
    ∀ (kind : Kind) (data : List UInt8) (offset depth : Nat),
      (∀ value after, kind.decode.runOn (.within data offset depth) = (.ok value, after) →
        offset + 4 + bulk value ≤ after.offset) ∧
      (∀ values after, (Decoder.seq kind.decode).runOn (.within data offset depth) = (.ok values, after) →
        offset + 4 + 4 * values.length ≤ after.offset ∧ offset + 4 + bulkAll values ≤ after.offset) ∧
      ∀ count, Encode.u32 count <+: data.drop offset → data.length < offset + 4 + 4 * count.toNat →
        ∃ e, ((Decoder.seq kind.decode).runOn (.within data offset depth)).1 = .error e := by
  constructor
  · intro call data offset depth result after inside run asked
    obtain ⟨rfl, rfl⟩ := Call.run_of_runOn run
    have thrifty : call.script.Thrifty (.within data offset depth) := (call.formed inside).thrifty rfl
    exact ⟨call.decode_script, thrifty.run, fun a ok => thrifty.done ok⟩
  · intro kind data offset depth
    refine ⟨fun value after read => bulk_of_decode read, fun values after read => ?_,
      fun count counted missing => seq_fails depth counted missing⟩
    have paid := bulkAll_of_decode read
    exact ⟨paid.2, paid.1⟩

/-- Two places, a package of four bytes and a component of one take 40 bytes; four thousand million places
are announced in front of a single byte, and refused. -/
theorem decode_pays_in_bytes_announced :
    bulk Place.behindStatic = 8 ∧ 1 + 4 + bulk Place.behindStatic ≤ 41 ∧
    1 + asks ((Call.node .place).script.steps (.within (7 :: encode Place.behindStatic) 1 0)) ≤ 41 ∧
    ∃ e, ((Decoder.seq Kind.place.decode).runOn (.within [255, 255, 255, 255, 1] 0 0)).1 = .error e := by
  have read : Kind.place.decode.runOn (.within (7 :: encode Place.behindStatic) 1 0) =
      (.ok Place.behindStatic, ⟨[], 41, 0⟩) := rfl
  obtain ⟨_, _, done⟩ := decode_pays_in_bytes.1 (.node .place) _ 1 0 _ _ (by decide) read
  exact ⟨rfl, (decode_pays_in_bytes.2 .place _ 1 0).1 _ _ read, done _ rfl,
    (decode_pays_in_bytes.2 .place [255, 255, 255, 255, 1] 0 0).2.2 0xffffffff ⟨[1], rfl⟩ (by decide)⟩

end MidIR
