import MidIR.Proofs.Binary.Reading

/-!
# Scripts of decoders

How a decoder is put together of what a reader can do, as data. What holds of each step holds of a whole
run: the reader moves forward over its bytes, its depth comes back, also after a failure, and never
passes `maxDepth` on the way, and where the bytes stand only shifts the offsets.
-/

namespace MidIR

open Decoder

namespace Reader

def skip (reader : Reader) (n : Nat) : Reader :=
  ⟨reader.rest.drop n, reader.offset + n, reader.depth⟩

def atDepth (reader : Reader) (depth : Nat) : Reader := { reader with depth }

def shift (reader : Reader) (n : Nat) : Reader := { reader with offset := reader.offset + n }

/-- The reader as it is inside a record that is opened, unless too many are open. -/
def opened? (reader : Reader) : Option Reader :=
  ((Decoder.nested get).runOn reader).1.toOption

theorem opened?_room {reader : Reader} (room : reader.depth < maxDepth) :
    reader.opened? = some (reader.atDepth (reader.depth + 1)) := by
  rw [opened?, runOn_nested room]
  rfl

theorem opened?_full {reader : Reader} (full : ¬ reader.depth < maxDepth) : reader.opened? = none := by
  rw [opened?, runOn_nested_full (Nat.not_lt.1 full)]
  rfl

def Moves (before after : Reader) : Prop := ∃ n ≤ before.rest.length, after = before.skip n

namespace Moves

variable {before between after : Reader}

theorem refl (reader : Reader) : reader.Moves reader := ⟨0, Nat.zero_le _, rfl⟩

theorem trans (first : before.Moves between) (second : between.Moves after) : before.Moves after := by
  obtain ⟨m, m_le, rfl⟩ := first
  obtain ⟨n, n_le, rfl⟩ := second
  refine ⟨m + n, ?_, ?_⟩
  · simp only [skip, List.length_drop] at n_le
    omega
  · simp [skip, Nat.add_assoc]

theorem depth (moves : before.Moves after) : after.depth = before.depth := by
  obtain ⟨n, -, rfl⟩ := moves
  rfl

theorem offset_le (moves : before.Moves after) : before.offset ≤ after.offset := by
  obtain ⟨n, -, rfl⟩ := moves
  exact Nat.le_add_right ..

theorem atDepth (moves : before.Moves after) (depth : Nat) :
    (before.atDepth depth).Moves (after.atDepth depth) := by
  obtain ⟨n, n_le, rfl⟩ := moves
  exact ⟨n, n_le, rfl⟩

end Moves

/-- A state between two others, perhaps with more records open, but never too many. -/
structure Between (before after state : Reader) : Prop where
  deeper : before.depth ≤ state.depth
  inside : state.depth ≤ maxDepth
  since : before.Moves (state.atDepth before.depth)
  upTo : (state.atDepth before.depth).Moves after

namespace Between

variable {before start stop after state : Reader}

theorem first (moves : before.Moves after) (inside : before.depth ≤ maxDepth) :
    Between before after before :=
  ⟨Nat.le_refl _, inside, .refl before, moves⟩

theorem last (moves : before.Moves after) (inside : before.depth ≤ maxDepth) :
    Between before after after := by
  have same : after.atDepth before.depth = after := by rw [← moves.depth]; rfl
  have depth := moves.depth
  refine ⟨by omega, by omega, ?_, ?_⟩
  · rwa [same]
  · rw [same]
    exact .refl after

theorem outward (between : Between (before.atDepth (before.depth + 1)) after state) :
    Between before (after.atDepth before.depth) state :=
  ⟨Nat.le_of_succ_le between.deeper, between.inside, between.since.atDepth before.depth,
    between.upTo.atDepth before.depth⟩

theorem widen (between : Between start stop state) (earlier : before.Moves start)
    (later : stop.Moves after) : Between before after state := by
  obtain ⟨deeper, inside, since, upTo⟩ := between
  rw [earlier.depth] at deeper since upTo
  exact ⟨deeper, inside, earlier.trans since, upTo.trans later⟩

end Between

end Reader

open Reader (Moves Between)

def DecodeError.shift (n : Nat) : DecodeError → DecodeError
  | .unexpectedEnd offset => .unexpectedEnd (offset + n)
  | .invalidUtf8 offset => .invalidUtf8 (offset + n)
  | .invalidBool byte offset => .invalidBool byte (offset + n)
  | .tooDeep offset => .tooDeep (offset + n)
  | e => e

inductive Flaw
  | utf8
  | bool (byte : UInt8)
  | tag (entity name : String)

def Flaw.startingAt (offset : Nat) : Flaw → DecodeError
  | .utf8 => .invalidUtf8 offset
  | .bool byte => .invalidBool byte offset
  | .tag entity name => .unknownTag entity name

theorem Flaw.startingAt_shift (flaw : Flaw) (offset n : Nat) :
    flaw.startingAt (offset + n) = (flaw.startingAt offset).shift n := by
  cases flaw <;> rfl

inductive Script : Type → Type 1
  | value {α : Type} (value : α) : Script α
  | take (n : Nat) : Script (List UInt8)
  /-- Reads something and then finds it good or flawed. -/
  | judge {α β : Type} (script : Script α) (verdict : α → Except Flaw β) : Script β
  | andThen {α β : Type} (script : Script α) (next : α → Script β) : Script β
  | nested {α : Type} (script : Script α) : Script α
  /-- Goes on by how many records may still be opened. -/
  | room {α : Type} (next : Nat → Script α) : Script α
  | full {α : Type} : Script α

namespace Script

variable {α β : Type}

def decode {α : Type} : Script α → Decoder α
  | value a => return a
  | take n => Decoder.take n
  | judge script verdict => do
    let start := (← get).offset
    match verdict (← script.decode) with
    | .ok b => return b
    | .error flaw => throw (flaw.startingAt start)
  | andThen script next => do (next (← script.decode)).decode
  | nested script => Decoder.nested script.decode
  | room next => do (next (maxDepth - (← get).depth)).decode
  | full => do throw (.tooDeep (← get).offset)

def outcome (script : Script α) (reader : Reader) : Except DecodeError α :=
  (script.decode.runOn reader).1

def final (script : Script α) (reader : Reader) : Reader :=
  (script.decode.runOn reader).2

/-- The states of the reader in the course of a run, in their order. -/
def trail {α : Type} : Script α → Reader → List Reader
  | value _, reader | full, reader => [reader]
  | take n, reader => [reader, (take n).final reader]
  | judge script _, reader => script.trail reader
  | andThen script next, reader =>
    script.trail reader ++ match script.outcome reader with
      | .ok a => (next a).trail (script.final reader)
      | .error _ => []
  | nested script, reader =>
    match reader.opened? with
    | some opened => reader :: script.trail opened ++ [(nested script).final reader]
    | none => [reader]
  | room next, reader => (next (maxDepth - reader.depth)).trail reader

/-! ## Runs step by step -/

theorem runOn_take_eq (n : Nat) (reader : Reader) :
    (take n).decode.runOn reader =
      if n ≤ reader.rest.length then (.ok (reader.rest.take n), reader.skip n)
      else (.error (.unexpectedEnd reader.offset), reader) := by
  change (Decoder.take n).runOn reader = _
  rw [runOn_take]
  by_cases enough : n ≤ reader.rest.length
  · have length : (reader.rest.take n).length = n := List.length_take_of_le enough
    have split := splitExactly_append (reader.rest.take n) (reader.rest.drop n)
    rw [length, List.take_append_drop] at split
    rw [split, if_pos enough]
    rfl
  · rw [if_neg enough]
    split
    · rename_i front rest split
      obtain ⟨equal, length⟩ := splitExactly_eq_some split
      exact absurd (by rw [equal, List.length_append]; omega) enough
    · rfl

theorem runOn_judge (script : Script α) (verdict : α → Except Flaw β) (reader : Reader) :
    (judge script verdict).decode.runOn reader =
      ((script.outcome reader).bind fun a => (verdict a).mapError (Flaw.startingAt reader.offset),
        script.final reader) := by
  change runOn (get >>= _) reader = _
  rw [runOn_get_bind, runOn_bind, outcome, final]
  rcases script.decode.runOn reader with ⟨_ | a, after⟩
  · rfl
  · simp only [Except.bind]
    cases verdict a <;> rfl

theorem runOn_andThen_ok {script : Script α} {reader : Reader} {a : α} (next : α → Script β)
    (ok : script.outcome reader = .ok a) :
    (andThen script next).decode.runOn reader = (next a).decode.runOn (script.final reader) := by
  have run : script.decode.runOn reader = (.ok a, script.final reader) := Prod.ext ok rfl
  change runOn (_ >>= _) reader = _
  rw [runOn_bind, run]

theorem runOn_andThen_error {script : Script α} {reader : Reader} {e : DecodeError}
    (next : α → Script β) (error : script.outcome reader = .error e) :
    (andThen script next).decode.runOn reader = (.error e, script.final reader) := by
  have run : script.decode.runOn reader = (.error e, script.final reader) := Prod.ext error rfl
  change runOn (_ >>= _) reader = _
  rw [runOn_bind, run]

theorem runOn_nested_room (script : Script α) {reader : Reader} (room : reader.depth < maxDepth) :
    (nested script).decode.runOn reader = (script.outcome (reader.atDepth (reader.depth + 1)),
      (script.final (reader.atDepth (reader.depth + 1))).atDepth
        ((script.final (reader.atDepth (reader.depth + 1))).depth - 1)) :=
  runOn_nested room ..

theorem runOn_nested_full (script : Script α) {reader : Reader} (full : ¬ reader.depth < maxDepth) :
    (nested script).decode.runOn reader = (.error (.tooDeep reader.offset), reader) :=
  Decoder.runOn_nested_full (Nat.not_lt.1 full) ..

theorem trail_nested_room (script : Script α) {reader : Reader} (room : reader.depth < maxDepth) :
    (nested script).trail reader =
      reader :: script.trail (reader.atDepth (reader.depth + 1)) ++ [(nested script).final reader] := by
  rw [trail, Reader.opened?_room room]

theorem trail_nested_full (script : Script α) {reader : Reader} (full : ¬ reader.depth < maxDepth) :
    (nested script).trail reader = [reader] := by
  rw [trail, Reader.opened?_full full]

/-! ## What every run keeps -/

theorem moves_final (script : Script α) (reader : Reader) : reader.Moves (script.final reader) := by
  induction script generalizing reader with
  | value a => exact .refl reader
  | full => exact .refl reader
  | take n =>
    rw [final, runOn_take_eq]
    split
    · exact ⟨n, by assumption, rfl⟩
    · exact .refl reader
  | judge script verdict ih =>
    rw [final, runOn_judge]
    exact ih reader
  | andThen script next ih ih_next =>
    cases result : script.outcome reader with
    | error e =>
      rw [final, runOn_andThen_error next result]
      exact ih reader
    | ok a =>
      rw [final, runOn_andThen_ok next result]
      exact (ih reader).trans (ih_next a _)
  | nested script ih =>
    by_cases room : reader.depth < maxDepth
    · have moved := ih (reader.atDepth (reader.depth + 1))
      rw [final, runOn_nested_room script room, moved.depth]
      exact moved.atDepth reader.depth
    · rw [final, runOn_nested_full script room]
      exact .refl reader
  | room next ih => exact ih _ reader

theorem final_nested_room (script : Script α) {reader : Reader} (room : reader.depth < maxDepth) :
    (nested script).final reader =
      (script.final (reader.atDepth (reader.depth + 1))).atDepth reader.depth := by
  have moved := script.moves_final (reader.atDepth (reader.depth + 1))
  rw [final, runOn_nested_room script room, moved.depth]
  rfl

theorem runOn_shift (script : Script α) (reader : Reader) (n : Nat) :
    script.decode.runOn (reader.shift n) =
      ((script.outcome reader).mapError (DecodeError.shift n), (script.final reader).shift n) := by
  induction script generalizing reader with
  | value a => rfl
  | full => rfl
  | take m =>
    rw [outcome, final, runOn_take_eq, runOn_take_eq]
    by_cases enough : m ≤ reader.rest.length
    · rw [if_pos enough, if_pos (show m ≤ (reader.shift n).rest.length from enough)]
      apply Prod.ext
      · rfl
      · simp [Reader.shift, Reader.skip, Nat.add_right_comm]
    · rw [if_neg enough, if_neg (show ¬ m ≤ (reader.shift n).rest.length from enough)]
      rfl
  | judge script verdict ih =>
    have inner := ih reader
    rw [outcome, final, runOn_judge, runOn_judge, outcome, final, inner]
    cases script.outcome reader with
    | error e => rfl
    | ok a =>
      change ((verdict a).mapError _, _) = (((verdict a).mapError _).mapError _, _)
      cases verdict a with
      | error flaw =>
        apply Prod.ext
        · exact congrArg Except.error (flaw.startingAt_shift reader.offset n)
        · rfl
      | ok b => rfl
  | andThen script next ih ih_next =>
    have inner := ih reader
    cases result : script.outcome reader with
    | error e =>
      rw [result] at inner
      rw [outcome, final, runOn_andThen_error next result,
        runOn_andThen_error next (congrArg Prod.fst inner), final, inner]
      rfl
    | ok a =>
      rw [result] at inner
      rw [outcome, final, runOn_andThen_ok next result,
        runOn_andThen_ok next (congrArg Prod.fst inner), final, inner]
      exact ih_next a _
  | nested script ih =>
    by_cases room : reader.depth < maxDepth
    · have inner := ih (reader.atDepth (reader.depth + 1))
      have shifted : (reader.shift n).atDepth ((reader.shift n).depth + 1) =
        (reader.atDepth (reader.depth + 1)).shift n := rfl
      rw [outcome, final, runOn_nested_room script room,
        runOn_nested_room script (show (reader.shift n).depth < maxDepth from room), shifted,
        outcome, final, inner]
      rfl
    · rw [outcome, final, runOn_nested_full script room,
        runOn_nested_full script (show ¬ (reader.shift n).depth < maxDepth from room)]
      rfl
  | room next ih => exact ih _ reader

theorem final_judge (script : Script α) (verdict : α → Except Flaw β) (reader : Reader) :
    (judge script verdict).final reader = script.final reader := by
  rw [final, runOn_judge]

theorem between_of_mem_trail (script : Script α) {reader state : Reader}
    (inside : reader.depth ≤ maxDepth) (passed : state ∈ script.trail reader) : Between reader (script.final reader) state := by
  induction script generalizing reader state with
  | value a =>
    rw [List.mem_singleton.1 passed]
    exact .first (.refl reader) inside
  | full =>
    rw [List.mem_singleton.1 passed]
    exact .first (.refl reader) inside
  | take n =>
    have moved := (take n).moves_final reader
    simp only [trail, List.mem_cons, List.not_mem_nil, or_false] at passed
    rcases passed with rfl | rfl
    · exact .first moved inside
    · exact .last moved inside
  | judge script verdict ih =>
    rw [final_judge]
    exact ih inside passed
  | andThen script next ih ih_next =>
    have moved := script.moves_final reader
    cases result : script.outcome reader with
    | error e =>
      simp only [trail, result, List.append_nil] at passed
      rw [final, runOn_andThen_error next result]
      exact ih inside passed
    | ok a =>
      simp only [trail, result, List.mem_append] at passed
      rw [final, runOn_andThen_ok next result]
      rcases passed with earlier | later
      · exact (ih inside earlier).widen (.refl reader) ((next a).moves_final _)
      · exact (ih_next a (by rwa [moved.depth]) later).widen moved (.refl _)
  | nested script ih =>
    have moved := (nested script).moves_final reader
    by_cases room : reader.depth < maxDepth
    · simp only [trail_nested_room script room, List.cons_append, List.mem_cons, List.mem_append,
        List.not_mem_nil, or_false] at passed
      rcases passed with rfl | within | rfl
      · exact .first moved inside
      · have opened : (reader.atDepth (reader.depth + 1)).depth ≤ maxDepth := room
        rw [final_nested_room script room]
        exact (ih opened within).outward
      · exact .last moved inside
    · simp only [trail_nested_full script room, List.mem_singleton] at passed
      rw [passed]
      exact .first moved inside
  | room next ih => exact ih _ inside passed

theorem head?_trail (script : Script α) (reader : Reader) : (script.trail reader).head? = some reader := by
  induction script generalizing reader with
  | value a => rfl
  | full => rfl
  | take n => rfl
  | judge script verdict ih => exact ih reader
  | andThen script next ih ih_next => rw [trail, List.head?_append, ih, Option.some_or]
  | nested script ih =>
    by_cases room : reader.depth < maxDepth
    · rw [trail_nested_room script room]
      rfl
    · rw [trail_nested_full script room]
      rfl
  | room next ih => exact ih _ reader

theorem getLast?_trail (script : Script α) (reader : Reader) :
    (script.trail reader).getLast? = some (script.final reader) := by
  induction script generalizing reader with
  | value a => rfl
  | full => rfl
  | take n => rfl
  | judge script verdict ih =>
    rw [final_judge]
    exact ih reader
  | andThen script next ih ih_next =>
    rw [trail, List.getLast?_append, ih]
    cases result : script.outcome reader with
    | error e =>
      have stopped : (andThen script next).final reader = script.final reader :=
        congrArg Prod.snd (runOn_andThen_error next result)
      rw [stopped]
      rfl
    | ok a =>
      have went : (andThen script next).final reader = (next a).final (script.final reader) :=
        congrArg Prod.snd (runOn_andThen_ok next result)
      rw [went, ih_next, Option.some_or]
  | nested script ih =>
    by_cases room : reader.depth < maxDepth
    · rw [trail_nested_room script room, List.getLast?_concat]
    · rw [trail_nested_full script room, final, runOn_nested_full script room]
      rfl
  | room next ih => exact ih _ reader

theorem trail_sorted (script : Script α) {reader : Reader} (inside : reader.depth ≤ maxDepth) :
    (script.trail reader).Pairwise fun earlier later => earlier.offset ≤ later.offset := by
  induction script generalizing reader with
  | value a => exact List.pairwise_singleton ..
  | full => exact List.pairwise_singleton ..
  | take n => simpa [trail] using ((take n).moves_final reader).offset_le
  | judge script verdict ih => exact ih inside
  | andThen script next ih ih_next =>
    have moved := script.moves_final reader
    rw [trail, List.pairwise_append]
    refine ⟨ih inside, ?_, ?_⟩
    · cases result : script.outcome reader with
      | error e => exact .nil
      | ok a => exact ih_next a (by rwa [moved.depth])
    · intro earlier passed later passed'
      cases result : script.outcome reader with
      | error e =>
        rw [result] at passed'
        cases passed'
      | ok a =>
        rw [result] at passed'
        have before := script.between_of_mem_trail inside passed
        have after := (next a).between_of_mem_trail (by rwa [moved.depth]) passed'
        exact Nat.le_trans before.upTo.offset_le after.since.offset_le
  | nested script ih =>
    by_cases room : reader.depth < maxDepth
    · have opened : (reader.atDepth (reader.depth + 1)).depth ≤ maxDepth := room
      rw [trail_nested_room script room, List.cons_append, List.pairwise_cons, List.pairwise_append,
        final_nested_room script room]
      refine ⟨?_, ih opened, List.pairwise_singleton .., ?_⟩
      · intro state passed
        have later : state ∈ (nested script).trail reader := by
          rw [trail_nested_room script room, final_nested_room script room]
          exact List.mem_cons_of_mem reader passed
        exact ((nested script).between_of_mem_trail inside later).since.offset_le
      · intro state passed last equal
        rw [List.mem_singleton.1 equal]
        exact (script.between_of_mem_trail opened passed).upTo.offset_le
    · rw [trail_nested_full script room]
      exact List.pairwise_singleton ..
  | room next ih => exact ih _ inside

end Script

end MidIR
