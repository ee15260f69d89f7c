import MidIR.Proofs.Binary.Formed

namespace MidIR

open Decoder Script

/-- What a failure says of the bytes, of a run over them from an offset, inside so many records, to where it
stopped, and of the steps of the run. -/
def DecodeError.TrueOf (data : List UInt8) (start depth stop : Nat) (steps : List Step) :
    DecodeError → Prop
  -- The last step is the one that is not done: it asks for more than is left.
  | .unexpectedEnd offset => offset = stop ∧
    ∃ count, steps.getLast? = some (.ask offset count) ∧ data.length < offset + count
  | .tooDeep offset => offset = stop ∧ depth + steps.count .opens = maxDepth + steps.count .closes
  | .invalidBool byte offset =>
    start ≤ offset ∧ data[offset]? = some byte ∧ byte ≠ 0 ∧ byte ≠ 1 ∧ stop = offset + 1
  | .invalidUtf8 offset => start ≤ offset ∧ ∃ bytes, bytes.length ≤ 0xffffffff ∧
    Encode.bytes bytes <+: data.drop offset ∧ (∀ text, utf8 text ≠ bytes) ∧
    stop = offset + 4 + bytes.length
  | .unknownTag entity tag => (∃ offset, start ≤ offset ∧ (utf8 tag).length ≤ 0xffffffff ∧
      Encode.text tag <+: data.drop offset ∧ stop = offset + 4 + (utf8 tag).length) ∧
    ∃ known : Entity, known.name = entity ∧ tag ∉ known.tags
  | .badMagic | .unsupportedVersion _ | .trailingBytes _ => False

theorem DecodeError.TrueOf.after {e : DecodeError} {data : List UInt8}
    {start depth middle inner stop : Nat} {earlier later : List Step} (behind : start ≤ middle)
    (level : depth + earlier.count .opens = inner + earlier.count .closes)
    (truth : e.TrueOf data middle inner stop later) :
    e.TrueOf data start depth stop (earlier ++ later) := by
  cases e with
  | unexpectedEnd offset =>
    obtain ⟨stopped, count, last, missing⟩ := truth
    refine ⟨stopped, count, ?_, missing⟩
    rw [List.getLast?_append, last]
    rfl
  | tooDeep offset =>
    obtain ⟨stopped, opened⟩ := truth
    refine ⟨stopped, ?_⟩
    rw [List.count_append, List.count_append]
    omega
  | invalidBool byte offset => exact ⟨Nat.le_trans behind truth.1, truth.2⟩
  | invalidUtf8 offset => exact ⟨Nat.le_trans behind truth.1, truth.2⟩
  | unknownTag entity tag =>
    obtain ⟨⟨offset, since, found⟩, unknown⟩ := truth
    exact ⟨⟨offset, Nat.le_trans behind since, found⟩, unknown⟩
  | badMagic => exact truth
  | unsupportedVersion version => exact truth
  | trailingBytes count => exact truth

theorem Takes.byteString {data bytes : List UInt8} {offset depth : Nat} {after : Reader}
    (takes : Takes (.within data offset depth) (.byteString bytes) after) :
    bytes.length ≤ 0xffffffff ∧ Encode.bytes bytes <+: data.drop offset ∧
      after.offset = offset + 4 + bytes.length := by
  have short : bytes.length ≤ 0xffffffff := takes.short _ (List.mem_cons_self ..)
  have front := takes.rest
  have stop := takes.offset
  rw [byteString_bytes] at front stop
  refine ⟨short, ⟨_, front.symm⟩, stop.trans ?_⟩
  rw [Encode.bytes, List.length_append]
  exact (Nat.add_assoc ..).symm

def Script.Honest {α : Type} (depth : Nat) (script : Script α) : Prop :=
  ∀ (data : List UInt8) (offset : Nat) (e : DecodeError),
    let reader := Reader.within data offset depth
    script.outcome reader = .error e →
      e.TrueOf data offset depth (script.final reader).offset (script.steps reader)

namespace Script.Honest

variable {α β : Type} {depth : Nat} {script : Script α}

theorem value (a : α) : (Script.value a).Honest depth := by
  intro data offset e reader failed
  cases failed

theorem take (n : Nat) : (Script.take n).Honest depth := by
  intro data offset e reader failed
  by_cases enough : n ≤ reader.rest.length
  · rw [(run_take enough).1] at failed
    cases failed
  · rw [(run_take_short enough).1] at failed
    cases failed
    rw [(run_take_short enough).2]
    refine ⟨rfl, n, rfl, ?_⟩
    change ¬ n ≤ (data.drop offset).length at enough
    change data.length < offset + n
    rw [List.length_drop] at enough
    omega

theorem andThen {next : α → Script β} (first : script.Honest depth)
    (second : ∀ a, (next a).Honest depth) : (Script.andThen script next).Honest depth := by
  intro data offset e reader failed
  cases result : script.outcome reader with
  | error found =>
    rw [(run_andThen_error next result).1] at failed
    cases failed
    rw [(run_andThen_error next result).2, steps_andThen_error next result]
    exact first data offset e result
  | ok a =>
    have moved := script.moves_final reader
    rw [(run_andThen_ok next result).1, moved.eq_within] at failed
    rw [(run_andThen_ok next result).2, steps_andThen_ok next result, moved.eq_within]
    refine (second a data _ e failed).after moved.offset_le ?_
    rw [script.opens_eq_closes result]

theorem judge {verdict : α → Except Flaw β} (honest : script.Honest depth)
    (right : ∀ (data : List UInt8) (offset : Nat) (a : α) (flaw : Flaw),
      let reader := Reader.within data offset depth
      script.outcome reader = .ok a → verdict a = .error flaw →
        (flaw.startingAt offset).TrueOf data offset depth (script.final reader).offset
          (script.steps reader)) :
    (Script.judge script verdict).Honest depth := by
  intro data offset e reader failed
  rw [outcome_judge] at failed
  rw [final_judge]
  cases result : script.outcome reader with
  | error found =>
    rw [result] at failed
    cases failed
    exact honest data offset e result
  | ok a =>
    rw [result] at failed
    change (verdict a).mapError _ = _ at failed
    cases judged : verdict a with
    | ok b =>
      rw [judged] at failed
      cases failed
    | error flaw =>
      rw [judged] at failed
      cases failed
      exact right data offset a flaw result judged

theorem nested (inside : depth ≤ maxDepth)
    (honest : depth < maxDepth → script.Honest (depth + 1)) : (Script.nested script).Honest depth := by
  intro data offset e reader failed
  by_cases room : depth < maxDepth
  · have roomToo : reader.depth < maxDepth := room
    rw [outcome_nested_room script roomToo] at failed
    have truth := honest room data offset e failed
    have opening : depth + [Step.opens].count .opens = depth + 1 + [Step.opens].count .closes := rfl
    rw [final_nested_room script roomToo, steps_nested_room script roomToo, failed, List.append_nil]
    exact truth.after (Nat.le_refl _) opening
  · have full : ¬ reader.depth < maxDepth := room
    rw [(run_nested_full script full).1] at failed
    cases failed
    rw [(run_nested_full script full).2, steps_nested_full script full]
    refine ⟨rfl, ?_⟩
    change depth = maxDepth
    omega

theorem u8 : Scripted.u8.script.Honest depth :=
  ((take 1).andThen fun _ => value _).andThen fun _ => value _

theorem u32 : Scripted.u32.script.Honest depth :=
  ((take 4).andThen fun _ => value _).andThen fun _ => value _

theorem bytes : Scripted.bytes.script.Honest depth := u32.andThen fun count => take count.toNat

theorem bool : Scripted.bool.script.Honest depth := by
  refine u8.judge ?_
  intro data offset byte flaw reader ok flawed
  have takes := Scripted.u8.takes .u8 ok
  split at flawed
  · cases flawed
  split at flawed
  · cases flawed
  cases flawed
  rw [takes.eq_skip]
  refine ⟨Nat.le_refl _, ?_, by assumption, by assumption, rfl⟩
  have front : data.drop offset = byte :: (Scripted.u8.script.final reader).rest := takes.rest
  rw [← List.head?_drop, front]
  rfl

theorem text : Scripted.text.script.Honest depth := by
  refine bytes.judge ?_
  intro data offset bytes flaw reader ok flawed
  obtain ⟨short, front, stop⟩ := (Scripted.bytes.takes .bytes ok).byteString
  split at flawed
  · cases flawed
  rename_i unread
  cases flawed
  refine ⟨Nat.le_refl _, bytes, short, front, ?_, stop⟩
  rintro text rfl
  rw [fromUTF8?_utf8] at unread
  cases unread

theorem tag {entity : Entity} {names : NameTable α} (known : entity.tags = names.spellings) :
    (Scripted.tag entity.name names).script.Honest depth := by
  refine text.judge ?_
  intro data offset name flaw reader ok flawed
  obtain ⟨short, front, stop⟩ := (Scripted.text.takes .text ok).byteString
  split at flawed
  · cases flawed
  rename_i unread
  cases flawed
  refine ⟨⟨offset, Nat.le_refl _, short, front, stop⟩, entity, rfl, ?_⟩
  rw [known, NameTable.spellings, List.mem_map]
  rintro ⟨a, -, named⟩
  exact names.find?_eq_none_iff.1 unread a named

end Script.Honest

theorem Script.Formed.honest {α : Type} {depth : Nat} {script : Script α}
    (formed : Formed depth script) (inside : depth ≤ maxDepth) : script.Honest depth := by
  induction formed with
  | value a => exact .value a
  | fixed => exact .take _
  | bytes => exact .bytes
  | text => exact .text
  | tag entity names known => exact .tag known
  | bool => exact .bool
  | andThen _ _ ih ih_next => exact (ih inside).andThen fun a => ih_next a inside
  | nested _ ih => exact .nested inside fun room => ih room room
  | room _ ih => exact ih inside
  | full =>
    intro data offset e reader failed
    cases failed
    exact ⟨rfl, rfl⟩

/-- Whatever a reader is asked for, a failure says what is true of the bytes. What is missing is missing where
the reader stopped; a byte that is no boolean, bytes that are no text and a name that is not known stand right
before; and where a record is too deep, exactly `maxDepth` are open. What was asked for on the way are fields
of the bytes. -/
theorem decode_fails_truthfully (call : Call) (data : List UInt8) (offset depth : Nat) (e : DecodeError)
    (after : Reader) (inside : depth ≤ maxDepth)
    (run : call.decode.runOn (.within data offset depth) = (.error e, after)) :
    let steps := call.script.steps (.within data offset depth)
    call.script.decode = call.decode ∧
    (∀ start count, .ask start count ∈ steps → Field data start count) ∧
    after = .within data after.offset depth ∧ e.TrueOf data offset depth after.offset steps := by
  intro steps
  obtain ⟨failed, rfl⟩ := Call.run_of_runOn run
  have formed := call.formed inside
  exact ⟨call.decode_script, fun start count asked => formed.field asked,
    (call.script.moves_final _).eq_within, formed.honest inside data offset e failed⟩

/-- A place behind a byte, whose inner place has a name that no place has. -/
def astray : List UInt8 := 7 :: (Encode.text "Deref" ++ Encode.text "Nowhere")

/-- Inside 254 records the name is found to be none, inside 255 the inner place is too deep before its name
is read. -/
theorem decode_fails_truthfully_astray :
    (Encode.text "Nowhere" <+: astray.drop 10 ∧ "Nowhere" ∉ Entity.place.tags) ∧
    255 + ((Call.node .place).script.steps (.within astray 1 255)).count .opens =
      256 + ((Call.node .place).script.steps (.within astray 1 255)).count .closes := by
  have unknown : Kind.place.decode.runOn (.within astray 1 254) =
      (.error (.unknownTag "Place" "Nowhere"), ⟨[], 21, 254⟩) := rfl
  have deep : Kind.place.decode.runOn (.within astray 1 255) =
      (.error (.tooDeep 10), .within astray 10 255) := rfl
  obtain ⟨_, _, _, ⟨offset, _, _, found, stop⟩, known, named, other⟩ :=
    decode_fails_truthfully (.node .place) astray 1 254 _ _ (by decide) unknown
  obtain ⟨_, _, _, _, opened⟩ :=
    decode_fails_truthfully (.node .place) astray 1 255 _ _ (by decide) deep
  obtain rfl : 10 = offset := Nat.add_right_cancel (m := 11) stop
  obtain rfl : known = .place := by
    cases known with
    | place => rfl
    | _ => exact absurd named (by decide)
  exact ⟨⟨found, other⟩, opened⟩

end MidIR
