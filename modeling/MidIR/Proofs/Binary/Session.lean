import MidIR.Proofs.Binary.RoundTrip
import MidIR.Proofs.Binary.Scripted

namespace MidIR

open Decoder

/-- What a reader may be asked for. -/
inductive Call
  | u8 | u16 | u32 | u64 | i64 | float | bool | bytes | text
  | seq (kind : Kind) | option (kind : Kind) | node (kind : Kind)
  | nested (call : Call)

namespace Call

/-- The values of an answer; floating-point numbers are their bits. -/
abbrev Answer : Call → Type
  | .u8 => UInt8
  | .u16 => UInt16
  | .u32 => UInt32
  | .u64 | .float => UInt64
  | .i64 => Int64
  | .bool => Bool
  | .bytes => List UInt8
  | .text => String
  | .seq kind => List kind.Node
  | .option kind => Option kind.Node
  | .node kind => kind.Node
  | .nested call => call.Answer

def decode : (call : Call) → Decoder call.Answer
  | .u8 => Decoder.u8
  | .u16 => Decoder.u16
  | .u32 => Decoder.u32
  | .u64 | .float => Decoder.u64
  | .i64 => Decoder.i64
  | .bool => Decoder.bool
  | .bytes => Decoder.bytes
  | .text => Decoder.text
  | .seq kind => Decoder.seq kind.decode
  | .option kind => Decoder.option kind.decode
  | .node kind => kind.decode
  | .nested call => Decoder.nested call.decode

noncomputable def scripted : (call : Call) → Scripted call.decode
  | .u8 => .u8
  | .u16 => .u16
  | .u32 => .u32
  | .u64 | .float => .u64
  | .i64 => .i64
  | .bool => .bool
  | .bytes => .bytes
  | .text => .text
  | .seq _ => ScriptedRecord.scripted.seq
  | .option _ => ScriptedRecord.scripted.option
  | .node _ => ScriptedRecord.scripted
  | .nested call => call.scripted.nested

noncomputable def script (call : Call) : Script call.Answer := call.scripted.script

theorem decode_script (call : Call) : call.script.decode = call.decode := call.scripted.decode_script

theorem run_of_runOn {call : Call} {reader after : Reader} {result : Except DecodeError call.Answer}
    (run : call.decode.runOn reader = (result, after)) :
    call.script.outcome reader = result ∧ call.script.final reader = after := by
  rw [Script.outcome, Script.final, call.decode_script, run]
  exact ⟨rfl, rfl⟩

end Call

namespace Reader

def after (reader : Reader) (calls : List Call) : Reader :=
  calls.foldl (fun reader call => (call.decode.runOn reader).2) reader

theorem moves_call (call : Call) (reader : Reader) : reader.Moves (call.decode.runOn reader).2 := by
  rw [← call.decode_script]
  exact call.script.moves_final reader

theorem moves_after (calls : List Call) (reader : Reader) : reader.Moves (reader.after calls) := by
  induction calls generalizing reader with
  | nil => exact .refl reader
  | cons call calls ih => exact (moves_call call reader).trans (ih _)

/-- A reader of these bytes that has come to some place in them from an offset on. -/
structure Stands (data : List UInt8) (offset depth : Nat) (reader : Reader) : Prop where
  place : reader = within data reader.offset depth
  since : offset ≤ reader.offset
  behind : reader.offset ≤ data.length
  remaining : reader.remaining = data.length - reader.offset
  atEnd : reader.atEnd = true ↔ reader.remaining = 0

variable {data : List UInt8} {offset depth : Nat} {after : Reader}

theorem Moves.eq_within (moves : (within data offset depth).Moves after) :
    after = within data after.offset depth := by
  obtain ⟨n, -, rfl⟩ := moves
  simp [within, skip]

theorem Moves.offset_le_length (moves : (within data offset depth).Moves after)
    (behind : offset ≤ data.length) : after.offset ≤ data.length := by
  obtain ⟨n, n_le, rfl⟩ := moves
  simp only [within, skip, List.length_drop] at n_le ⊢
  omega

theorem remaining_within (data : List UInt8) (offset depth : Nat) :
    (within data offset depth).remaining = data.length - offset :=
  List.length_drop ..

theorem shift_within (data : List UInt8) (offset depth : Nat) :
    (within (data.drop offset) 0 depth).shift offset = within data offset depth := by
  simp [within, shift]

theorem atEnd_iff (reader : Reader) : reader.atEnd = true ↔ reader.remaining = 0 := by
  rw [atEnd, remaining, List.isEmpty_iff, List.length_eq_zero_iff]

theorem Moves.stands (moves : (within data offset depth).Moves after)
    (behind : offset ≤ data.length) : after.Stands data offset depth where
  place := moves.eq_within
  since := moves.offset_le
  behind := moves.offset_le_length behind
  remaining := by
    rw [moves.eq_within, remaining_within]
    rfl
  atEnd := after.atEnd_iff

end Reader

/-- What a call does with a reader that has come somewhere in its bytes from an offset on. -/
structure Call.Keeps (data : List UInt8) (offset depth : Nat) (before : Reader) (call : Call) : Prop where
  came : before.Stands data offset depth
  goes : (call.decode.runOn before).2.Stands data before.offset depth
  closes : (call.decode.runOn before).2.depth = before.depth
  scripted : call.script.decode = call.decode
  starts : (call.script.trail before).head? = some before
  ends : (call.script.trail before).getLast? = some (call.decode.runOn before).2
  forward : (call.script.trail before).Pairwise fun earlier later => earlier.offset ≤ later.offset
  passes : ∀ state ∈ call.script.trail before, state.depth ≤ maxDepth ∧
    before.offset ≤ state.offset ∧ state.offset ≤ (call.decode.runOn before).2.offset
  answers : call.decode.runOn before =
    let fresh := call.decode.runOn (.within (data.drop before.offset) 0 depth)
    (fresh.1.mapError (DecodeError.shift before.offset), fresh.2.shift before.offset)

/-- Whatever a reader was asked for before, it stands somewhere in its bytes and no deeper than at first;
the next call moves it forward, opens no more records than may be and closes all of them, and is answered
as if the bytes that are left were all. -/
theorem reader_kept_by_calls {data : List UInt8} {offset depth : Nat} (behind : offset ≤ data.length)
    (inside : depth ≤ maxDepth) (calls : List Call) (call : Call) :
    call.Keeps data offset depth ((Reader.within data offset depth).after calls) := by
  have came := Reader.moves_after calls (.within data offset depth)
  generalize (Reader.within data offset depth).after calls = before at came
  have goes := Reader.moves_call call before
  have final : call.script.final before = (call.decode.runOn before).2 := by
    rw [Script.final, call.decode_script]
  have opened : before.depth ≤ maxDepth := by
    rw [came.depth]
    exact inside
  have stands := came.stands behind
  refine ⟨stands, ?_, goes.depth, call.decode_script, call.script.head?_trail before, ?_,
    call.script.trail_sorted opened, ?_, ?_⟩
  · have moved : (Reader.within data before.offset depth).Moves (call.decode.runOn before).2 := by
      rwa [← stands.place]
    exact moved.stands stands.behind
  · rw [call.script.getLast?_trail, final]
  · intro state passed
    have between := call.script.between_of_mem_trail opened passed
    rw [final] at between
    exact ⟨between.inside, between.since.offset_le, between.upTo.offset_le⟩
  · have shifted := call.script.runOn_shift (.within (data.drop before.offset) 0 depth) before.offset
    rw [Reader.shift_within, ← stands.place] at shifted
    rwa [Script.outcome, Script.final, call.decode_script] at shifted

def Reader.misread : Reader := .after (.within [7, 2, 5, 0, 0, 0, 9] 1 255) [.nested .bool, .bytes]

/-- After a byte that is no boolean, in the last record that may be opened, and after bytes of which only
the length is there, a number of two bytes is looked for in the one byte that is left. -/
theorem reader_kept_by_calls_misread :
    Reader.misread = .within [7, 2, 5, 0, 0, 0, 9] 6 255 ∧
    (Call.u16.decode.runOn Reader.misread).1 =
      (Call.u16.decode.runOn (.within [9] 0 255)).1.mapError (DecodeError.shift 6) ∧
    (Call.u16.decode.runOn Reader.misread).1 = .error (.unexpectedEnd 6) := by
  have kept := @reader_kept_by_calls [7, 2, 5, 0, 0, 0, 9] 1 255 (by decide) (by decide)
    [.nested .bool, .bytes] .u16
  exact ⟨kept.came.place, congrArg Prod.fst kept.answers, rfl⟩

end MidIR
