import Mathlib.Tactic.IntervalCases
import MidIR.Proofs.Binary.Formed

namespace MidIR

open Decoder

variable {data : List UInt8} {offset depth : Nat} {after : Reader}

namespace Call

variable {call : Call} {result : Except DecodeError call.Answer}

theorem exists_took (run : call.decode.runOn (.within data offset depth) = (result, after)) :
    ∃ n ≤ (data.drop offset).length, after.offset = offset + n ∧
      call.script.outcome (.within data offset depth) = result ∧
      call.script.final (.within data offset depth) = (Reader.within data offset depth).skip n := by
  obtain ⟨outcome, rfl⟩ := run_of_runOn run
  obtain ⟨n, n_le, took⟩ := call.script.moves_final (.within data offset depth)
  exact ⟨n, n_le, congrArg Reader.offset took, outcome, took⟩

theorem runOn_other (run : call.decode.runOn (.within data offset depth) = (result, after))
    (complete : ∀ short, result ≠ .error (.unexpectedEnd short)) {other : List UInt8}
    (agree : other.take after.offset = data.take after.offset) :
    call.decode.runOn (.within other offset depth) = (result, .within other after.offset depth) := by
  obtain ⟨n, n_le, stop, rfl, took⟩ := exists_took run
  have behind : (other.drop offset).take n = (data.drop offset).take n := by
    have dropped := congrArg (List.drop offset) agree
    rwa [stop, List.drop_take, List.drop_take, Nat.add_sub_cancel_left] at dropped
  obtain ⟨outcome, final⟩ := call.script.run_facing took n_le complete behind
  have moved : (Reader.within other offset depth).skip n = .within other after.offset depth := by
    rw [stop]
    simp [Reader.within, Reader.skip]
  rw [← call.decode_script]
  exact Prod.ext outcome (final.trans moved)

theorem runOn_cut (run : call.decode.runOn (.within data offset depth) = (result, after)) {cut : Nat}
    (behind : offset ≤ cut) (short : cut < after.offset) :
    ∃ start count, .ask start count ∈ call.script.steps (.within data offset depth) ∧
      start ≤ cut ∧ cut < start + count ∧
      (call.decode.runOn (.within (data.take cut) offset depth)).1 = .error (.unexpectedEnd start) := by
  obtain ⟨n, n_le, stop, -, took⟩ := exists_took run
  obtain ⟨start, count, asked, le, lt, failed⟩ :=
    call.script.outcome_cut took n_le (show cut - offset < n by omega)
  have position : (Reader.within data offset depth).offset + (cut - offset) = cut :=
    Nat.add_sub_cancel' behind
  rw [position] at le lt
  refine ⟨start, count, asked, le, lt, ?_⟩
  rw [← call.decode_script, ← failed]
  change call.script.outcome ⟨(data.take cut).drop offset, offset, depth⟩ = _
  rw [List.drop_take]
  rfl

end Call

/-! ## Files -/

namespace Binary

theorem headedBody_runOn (rest : List UInt8) :
    headedBody.runOn (.ofBytes (magic ++ Encode.u16 version ++ rest)) =
      Record.decode.runOn ⟨rest, 6, 0⟩ := by
  change (header >>= fun _ => Record.decode).runOn _ = _
  rw [runOn_bind]
  rfl

theorem runOn_encode {body : Body} (read : decodeBody (encodeBody body) = .ok body) (rest : List UInt8) :
    Record.decode.runOn ⟨encode body ++ rest, 6, 0⟩ =
      (.ok body, ⟨rest, (encodeBody body).length, 0⟩) := by
  obtain ⟨written, room⟩ := decodeBody_eq_ok_iff.1 read
  rw [decode_of_room body (file_eq_ok.1 written).1 (by omega), encodeBody, List.length_append]
  rfl

theorem decodeBody_take_header (rest : List UInt8) {n : Nat} (short : n < 6) :
    decodeBody ((magic ++ Encode.u16 version ++ rest).take n) =
      if n < 4 then .error .badMagic else .error (.unexpectedEnd 4) := by
  interval_cases n <;> rfl

theorem decodeBody_take {body : Body} (read : decodeBody (encodeBody body) = .ok body) {n : Nat}
    (behind : 6 ≤ n) (short : n < (encodeBody body).length) :
    ∃ start ≤ n, decodeBody ((encodeBody body).take n) = .error (.unexpectedEnd start) := by
  have run : (Call.node .body).decode.runOn (.within (encodeBody body) 6 0) =
      (.ok body, ⟨[], (encodeBody body).length, 0⟩) := by
    rw [← runOn_encode read [], List.append_nil]
    rfl
  obtain ⟨start, _, -, le, -, failed⟩ := Call.runOn_cut run behind short
  obtain ⟨m, rfl⟩ := Nat.exists_eq_add_of_le' behind
  have cut : (encodeBody body).take (m + 6) = magic ++ Encode.u16 version ++ (encode body).take m := rfl
  refine ⟨start, le, ?_⟩
  rw [cut, decodeBody, headedBody_runOn]
  change (Kind.body.decode.runOn ⟨(encode body).take m, 6, 0⟩).1 = _ at failed
  rcases found : Kind.body.decode.runOn ⟨(encode body).take m, 6, 0⟩ with ⟨e | value, rest⟩
  · rw [found] at failed
    exact failed
  · rw [found] at failed
    cases failed

theorem decodeBody_append {body : Body} (read : decodeBody (encodeBody body) = .ok body)
    {extra : List UInt8} (more : extra ≠ []) :
    decodeBody (encodeBody body ++ extra) = .error (.trailingBytes extra.length) := by
  rw [encodeBody, List.append_assoc, decodeBody, headedBody_runOn, runOn_encode read]
  simp [Reader.atEnd, Reader.remaining, more]

end Binary

/-- What a run that does not end for want of bytes owes to the bytes that it took. -/
structure Call.GoesBy (data : List UInt8) (offset depth : Nat) (call : Call)
    (result : Except DecodeError call.Answer) (after : Reader) : Prop where
  scripted : call.script.decode = call.decode
  laid : Laid offset after.offset (call.script.steps (.within data offset depth))
  fields : ∀ start count, .ask start count ∈ call.script.steps (.within data offset depth) →
    Field data start count
  others : ∀ other, other.take after.offset = data.take after.offset →
    call.decode.runOn (.within other offset depth) = (result, .within other after.offset depth)
  cut : ∀ cut, offset ≤ cut → cut < after.offset →
    ∃ start count, .ask start count ∈ call.script.steps (.within data offset depth) ∧
      start ≤ cut ∧ cut < start + count ∧
      (call.decode.runOn (.within (data.take cut) offset depth)).1 = .error (.unexpectedEnd start)

/-- The file of a body is read whole and alone. -/
structure Binary.Whole (body : Body) : Prop where
  headless : ∀ n < 4, decodeBody ((encodeBody body).take n) = .error .badMagic
  cut : ∀ n, 4 ≤ n → n < (encodeBody body).length →
    ∃ start ≤ n, decodeBody ((encodeBody body).take n) = .error (.unexpectedEnd start)
  continued : ∀ extra, extra ≠ [] →
    decodeBody (encodeBody body ++ extra) = .error (.trailingBytes extra.length)

/-- Reading goes by the bytes that it takes. If it does not end for want of bytes, its fields lie one
behind the other up to where it ends, the same comes of all bytes that agree so far, and where they are cut
before, the field that the cut goes through is found to be missing. The file of a body that can be read is
refused when it is cut, at its first bytes or for want of bytes, and when anything stands behind it. -/
theorem decode_goes_by_taken :
    (∀ (call : Call) (data : List UInt8) (offset depth : Nat) (result : Except DecodeError call.Answer)
      (after : Reader), depth ≤ maxDepth →
      call.decode.runOn (.within data offset depth) = (result, after) →
      (∀ short, result ≠ .error (.unexpectedEnd short)) →
      call.GoesBy data offset depth result after) ∧
    ∀ body, Binary.decodeBody (Binary.encodeBody body) = .ok body → Binary.Whole body := by
  constructor
  · intro call data offset depth result after inside run complete
    obtain ⟨rfl, rfl⟩ := Call.run_of_runOn run
    constructor
    case scripted => exact call.decode_script
    case laid => exact call.script.laid_steps complete
    case fields => exact fun start count asked => (call.formed inside).field asked
    case others => exact fun other agree => Call.runOn_other run complete agree
    case cut => exact fun cut behind short => Call.runOn_cut run behind short
  · intro body read
    have header {n : Nat} (short : n < 6) := Binary.decodeBody_take_header (encode body) short
    constructor
    case headless =>
      intro n less
      exact (header (by omega)).trans (if_pos less)
    case cut =>
      intro n behind short
      by_cases early : n < 6
      · exact ⟨4, behind, (header early).trans (if_neg (Nat.not_lt.2 behind))⟩
      · exact Binary.decodeBody_take read (Nat.not_lt.1 early) short
    case continued => exact fun extra more => Binary.decodeBody_append read more

def Body.nothing : Body := ⟨[], .tuple [], [], [], []⟩

/-- The name in the inner of two records is cut, then a file in its first bytes and in its type, and at last
two bytes stand behind the file. -/
theorem decode_goes_by_taken_cut :
    (∃ count, .ask 14 count ∈
      (Call.node .place).script.steps (.within (7 :: encode Place.behindStatic) 1 0) ∧ 16 < 14 + count) ∧
    Kind.place.decode.runOn (.within (7 :: encode Place.behindStatic ++ [9]) 1 0) =
      (.ok Place.behindStatic, ⟨[9], 41, 0⟩) ∧
    Binary.decodeBody ((Binary.encodeBody .nothing).take 3) = .error .badMagic ∧
    (∃ start ≤ 14, Binary.decodeBody ((Binary.encodeBody .nothing).take 14) =
      .error (.unexpectedEnd start)) ∧
    Binary.decodeBody (Binary.encodeBody .nothing ++ [0, 0]) = .error (.trailingBytes 2) := by
  have read : Kind.place.decode.runOn (.within (7 :: encode Place.behindStatic) 1 0) =
      (.ok Place.behindStatic, ⟨[], 41, 0⟩) := rfl
  have goes :=
    decode_goes_by_taken.1 (.node .place) _ 1 0 _ _ (by decide) read (fun _ short => by cases short)
  obtain ⟨start, count, asked, _, lt, failed⟩ := goes.cut 16 (by decide) (by decide)
  have found : (Kind.place.decode.runOn
      (.within ((7 :: encode Place.behindStatic).take 16) 1 0)).1 = .error (.unexpectedEnd 14) := rfl
  obtain rfl : 14 = start := by
    cases found.symm.trans failed
    rfl
  have file := decode_goes_by_taken.2 .nothing rfl
  exact ⟨⟨count, asked, lt⟩, goes.others (7 :: encode Place.behindStatic ++ [9]) rfl,
    file.headless 3 (by decide), file.cut 14 (by decide) (by decide), file.continued [0, 0] (by decide)⟩

end MidIR
