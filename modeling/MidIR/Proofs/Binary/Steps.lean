import MidIR.Proofs.Binary.Script

/-!
# Steps of a run

What a run asks its reader for and which records it opens and closes, up to its end or its failure. A run
goes by the bytes that it took and by no others, and where its bytes are cut short it fails at what it asks
for across the cut.
-/

namespace MidIR

inductive Step
  /-- So many bytes are asked for at an offset, be they there or not. -/
  | ask (offset count : Nat)
  | opens
  | closes
  deriving DecidableEq

/-- What is asked for lies one behind the other from an offset to another. -/
def Laid (start stop : Nat) : List Step → Prop
  | [] => start = stop
  | .ask offset count :: steps => offset = start ∧ Laid (start + count) stop steps
  | .opens :: steps | .closes :: steps => Laid start stop steps

theorem Laid.append {start middle stop : Nat} {earlier later : List Step}
    (first : Laid start middle earlier) (second : Laid middle stop later) :
    Laid start stop (earlier ++ later) := by
  induction earlier generalizing start with
  | nil =>
    obtain rfl : start = middle := first
    exact second
  | cons step earlier ih =>
    cases step with
    | ask offset count => exact ⟨first.1, ih first.2⟩
    | opens => exact ih first
    | closes => exact ih first

namespace Reader

def facing (reader : Reader) (rest : List UInt8) : Reader := { reader with rest }

theorem skip_injective (reader : Reader) : Function.Injective reader.skip :=
  fun _ _ same => Nat.add_left_cancel (congrArg Reader.offset same)

end Reader

namespace Script

variable {α β : Type}

/-- The steps of a run. A record in which the run fails is not closed. -/
def steps {α : Type} : Script α → Reader → List Step
  | value _, _ | full, _ => []
  | take n, reader => [.ask reader.offset n]
  | judge script _, reader => script.steps reader
  | andThen script next, reader =>
    script.steps reader ++ match script.outcome reader with
      | .ok a => (next a).steps (script.final reader)
      | .error _ => []
  | nested script, reader =>
    match reader.opened? with
    | some opened =>
      .opens :: script.steps opened ++
        match script.outcome opened with
        | .ok _ => [.closes]
        | .error _ => []
    | none => []
  | room next, reader => (next (maxDepth - reader.depth)).steps reader

theorem steps_andThen_ok {script : Script α} {reader : Reader} {a : α} (next : α → Script β)
    (ok : script.outcome reader = .ok a) : (andThen script next).steps reader =
      script.steps reader ++ (next a).steps (script.final reader) := by
  rw [steps, ok]

theorem steps_andThen_error {script : Script α} {reader : Reader} {e : DecodeError}
    (next : α → Script β) (error : script.outcome reader = .error e) :
    (andThen script next).steps reader = script.steps reader := by
  rw [steps, error]
  exact List.append_nil _

theorem steps_nested_room (script : Script α) {reader : Reader} (room : reader.depth < maxDepth) :
    (nested script).steps reader =
      .opens :: script.steps (reader.atDepth (reader.depth + 1)) ++
        match script.outcome (reader.atDepth (reader.depth + 1)) with
        | .ok _ => [.closes]
        | .error _ => [] := by
  rw [steps, Reader.opened?_room room]

theorem steps_nested_full (script : Script α) {reader : Reader} (full : ¬ reader.depth < maxDepth) :
    (nested script).steps reader = [] := by
  rw [steps, Reader.opened?_full full]

/-! ## Runs step by step -/

theorem run_take {n : Nat} {reader : Reader} (enough : n ≤ reader.rest.length) :
    (take n).outcome reader = .ok (reader.rest.take n) ∧ (take n).final reader = reader.skip n := by
  rw [outcome, final, runOn_take_eq, if_pos enough]
  exact ⟨rfl, rfl⟩

theorem run_take_short {n : Nat} {reader : Reader} (short : ¬ n ≤ reader.rest.length) :
    (take n).outcome reader = .error (.unexpectedEnd reader.offset) ∧
      (take n).final reader = reader := by
  rw [outcome, final, runOn_take_eq, if_neg short]
  exact ⟨rfl, rfl⟩

theorem outcome_judge (script : Script α) (verdict : α → Except Flaw β) (reader : Reader) :
    (judge script verdict).outcome reader =
      (script.outcome reader).bind fun a => (verdict a).mapError (Flaw.startingAt reader.offset) :=
  congrArg Prod.fst (runOn_judge script verdict reader)

theorem run_andThen_ok {script : Script α} {reader : Reader} {a : α} (next : α → Script β)
    (ok : script.outcome reader = .ok a) :
    (andThen script next).outcome reader = (next a).outcome (script.final reader) ∧
      (andThen script next).final reader = (next a).final (script.final reader) :=
  have run := runOn_andThen_ok next ok
  ⟨congrArg Prod.fst run, congrArg Prod.snd run⟩

theorem run_andThen_error {script : Script α} {reader : Reader} {e : DecodeError}
    (next : α → Script β) (error : script.outcome reader = .error e) :
    (andThen script next).outcome reader = .error e ∧
      (andThen script next).final reader = script.final reader :=
  have run := runOn_andThen_error next error
  ⟨congrArg Prod.fst run, congrArg Prod.snd run⟩

theorem outcome_nested_room (script : Script α) {reader : Reader} (room : reader.depth < maxDepth) :
    (nested script).outcome reader = script.outcome (reader.atDepth (reader.depth + 1)) := by
  rw [outcome, runOn_nested_room script room]

theorem run_nested_full (script : Script α) {reader : Reader} (full : ¬ reader.depth < maxDepth) :
    (nested script).outcome reader = .error (.tooDeep reader.offset) ∧
      (nested script).final reader = reader :=
  have run := runOn_nested_full script full
  ⟨congrArg Prod.fst run, congrArg Prod.snd run⟩

def Complete (script : Script α) (reader : Reader) : Prop :=
  ∀ offset, script.outcome reader ≠ .error (.unexpectedEnd offset)

theorem complete_of_ok {script : Script α} {reader : Reader} {a : α}
    (ok : script.outcome reader = .ok a) : script.Complete reader := by
  intro offset short
  rw [ok] at short
  cases short

namespace Complete

variable {script : Script α} {reader : Reader}

theorem of_judge {verdict : α → Except Flaw β} (complete : (judge script verdict).Complete reader) :
    script.Complete reader := by
  intro offset short
  apply complete offset
  rw [outcome_judge, short]
  rfl

theorem of_andThen {next : α → Script β} (complete : (andThen script next).Complete reader) :
    script.Complete reader :=
  fun offset short => complete offset (run_andThen_error next short).1

theorem of_andThen_ok {next : α → Script β} {a : α} (ok : script.outcome reader = .ok a)
    (complete : (andThen script next).Complete reader) : (next a).Complete (script.final reader) := by
  intro offset short
  apply complete offset
  rw [(run_andThen_ok next ok).1, short]

theorem of_nested (room : reader.depth < maxDepth) (complete : (nested script).Complete reader) :
    script.Complete (reader.atDepth (reader.depth + 1)) := by
  intro offset short
  apply complete offset
  rw [outcome_nested_room script room, short]

end Complete

/-! ## What is opened is closed -/

theorem opens_eq_closes (script : Script α) {reader : Reader} {a : α}
    (ok : script.outcome reader = .ok a) :
    (script.steps reader).count .opens = (script.steps reader).count .closes := by
  induction script generalizing reader with
  | value b => rfl
  | full => cases ok
  | take n => rfl
  | judge script verdict ih =>
    rw [outcome_judge] at ok
    cases result : script.outcome reader with
    | error e =>
      rw [result] at ok
      cases ok
    | ok b => exact ih result
  | andThen script next ih ih_next =>
    cases result : script.outcome reader with
    | error e =>
      rw [(run_andThen_error next result).1] at ok
      cases ok
    | ok b =>
      rw [(run_andThen_ok next result).1] at ok
      rw [steps_andThen_ok next result, List.count_append, List.count_append, ih result,
        ih_next b ok]
  | nested script ih =>
    by_cases room : reader.depth < maxDepth
    · rw [outcome_nested_room script room] at ok
      simp [steps_nested_room script room, ok, ih ok, List.count_append]
    · rw [(run_nested_full script room).1] at ok
      cases ok
  | room next ih => exact ih _ ok

/-! ## Where things lie -/

theorem laid_steps (script : Script α) {reader : Reader} (complete : script.Complete reader) :
    Laid reader.offset (script.final reader).offset (script.steps reader) := by
  induction script generalizing reader with
  | value a => rfl
  | full => rfl
  | take n =>
    by_cases enough : n ≤ reader.rest.length
    · rw [(run_take enough).2]
      exact ⟨rfl, rfl⟩
    · exact absurd (run_take_short enough).1 (complete _)
  | judge script verdict ih =>
    rw [final_judge]
    exact ih complete.of_judge
  | andThen script next ih ih_next =>
    cases result : script.outcome reader with
    | error e =>
      rw [steps_andThen_error next result, (run_andThen_error next result).2]
      exact ih complete.of_andThen
    | ok a =>
      rw [steps_andThen_ok next result, (run_andThen_ok next result).2]
      exact (ih (complete_of_ok result)).append (ih_next a (complete.of_andThen_ok result))
  | nested script ih =>
    by_cases room : reader.depth < maxDepth
    · rw [final_nested_room script room, steps_nested_room script room]
      refine (ih (complete.of_nested room)).append ?_
      cases script.outcome (reader.atDepth (reader.depth + 1)) <;> rfl
    · rw [(run_nested_full script room).2, steps_nested_full script room]
      rfl
  | room next ih => exact ih _ complete

/-! ## Other bytes -/

theorem took_andThen {script : Script α} {next : α → Script β} {reader : Reader} {n : Nat} {a : α}
    (ok : script.outcome reader = .ok a) (took : (andThen script next).final reader = reader.skip n) :
    ∃ k m, k + m = n ∧ k ≤ reader.rest.length ∧ m ≤ (reader.skip k).rest.length ∧
      script.final reader = reader.skip k ∧ (next a).final (reader.skip k) = (reader.skip k).skip m := by
  obtain ⟨k, k_le, first⟩ := script.moves_final reader
  obtain ⟨m, m_le, second⟩ := (next a).moves_final (reader.skip k)
  refine ⟨k, m, ?_, k_le, m_le, first, second⟩
  rw [(run_andThen_ok next ok).2, first, second] at took
  apply reader.skip_injective
  rw [← took]
  simp [Reader.skip, Nat.add_assoc]

theorem took_nested {script : Script α} {reader : Reader} {n : Nat} (room : reader.depth < maxDepth)
    (took : (nested script).final reader = reader.skip n) :
    script.final (reader.atDepth (reader.depth + 1)) =
      (reader.atDepth (reader.depth + 1)).skip n := by
  obtain ⟨k, -, inner⟩ := script.moves_final (reader.atDepth (reader.depth + 1))
  rw [final_nested_room script room, inner] at took
  obtain rfl : k = n := reader.skip_injective took
  exact inner

/-- A run that does not end for want of bytes goes by those that it took. -/
theorem run_facing (script : Script α) {reader : Reader} {n : Nat}
    (took : script.final reader = reader.skip n) (n_le : n ≤ reader.rest.length)
    (complete : script.Complete reader) {other : List UInt8}
    (agree : other.take n = reader.rest.take n) :
    script.outcome (reader.facing other) = script.outcome reader ∧
      script.final (reader.facing other) = (reader.facing other).skip n := by
  induction script generalizing reader n other with
  | value a =>
    obtain rfl : 0 = n := reader.skip_injective took
    exact ⟨rfl, rfl⟩
  | full =>
    obtain rfl : 0 = n := reader.skip_injective took
    exact ⟨rfl, rfl⟩
  | take m =>
    by_cases enough : m ≤ reader.rest.length
    · rw [(run_take enough).2] at took
      obtain rfl : m = n := reader.skip_injective took
      have present : m ≤ (reader.facing other).rest.length := by
        have length := congrArg List.length agree
        rw [List.length_take, List.length_take] at length
        change m ≤ other.length
        omega
      rw [(run_take enough).1, (run_take present).1]
      exact ⟨congrArg Except.ok agree, (run_take present).2⟩
    · exact absurd (run_take_short enough).1 (complete _)
  | judge script verdict ih =>
    rw [final_judge] at took ⊢
    obtain ⟨outcome, final⟩ := ih took n_le complete.of_judge agree
    rw [outcome_judge, outcome_judge, outcome]
    exact ⟨rfl, final⟩
  | andThen script next ih ih_next =>
    cases result : script.outcome reader with
    | error e =>
      rw [(run_andThen_error next result).2] at took
      obtain ⟨outcome, final⟩ := ih took n_le complete.of_andThen agree
      rw [result] at outcome
      rw [(run_andThen_error next result).1]
      exact ⟨(run_andThen_error next outcome).1, (run_andThen_error next outcome).2.trans final⟩
    | ok a =>
      obtain ⟨k, m, rfl, k_le, m_le, first, second⟩ := took_andThen result took
      -- The others agree on what the first part took and, behind it, on what the second took.
      have agreeFirst : other.take k = reader.rest.take k := by
        have front := congrArg (List.take k) agree
        rwa [List.take_take, List.take_take, Nat.min_eq_left (Nat.le_add_right k m)] at front
      have agreeSecond : (other.drop k).take m = (reader.rest.drop k).take m := by
        have behind := congrArg (List.drop k) agree
        rwa [List.drop_take, List.drop_take, Nat.add_sub_cancel_left] at behind
      obtain ⟨outcome, final⟩ := ih first k_le (complete_of_ok result) agreeFirst
      rw [result] at outcome
      have completeNext := complete.of_andThen_ok result
      rw [first] at completeNext
      obtain ⟨outcome', final'⟩ := ih_next a second m_le completeNext agreeSecond
      rw [(run_andThen_ok next result).1, first, (run_andThen_ok next outcome).1,
        (run_andThen_ok next outcome).2, final]
      refine ⟨outcome', final'.trans ?_⟩
      simp [Reader.skip, Reader.facing, Nat.add_assoc]
  | nested script ih =>
    by_cases room : reader.depth < maxDepth
    · obtain ⟨outcome, final⟩ := ih (took_nested room took) n_le (complete.of_nested room) agree
      have roomToo : (reader.facing other).depth < maxDepth := room
      rw [outcome_nested_room script room, final_nested_room script roomToo]
      exact ⟨(outcome_nested_room script roomToo).trans outcome,
        congrArg (Reader.atDepth · reader.depth) final⟩
    · have nothing := run_nested_full script room
      rw [nothing.2] at took
      obtain rfl : 0 = n := reader.skip_injective took
      rw [nothing.1]
      exact run_nested_full script (show ¬ (reader.facing other).depth < maxDepth from room)
  | room next ih => exact ih _ took n_le complete agree

/-- Where the bytes that a run took are cut short, it fails at what it asks for across the cut. -/
theorem outcome_cut (script : Script α) {reader : Reader} {n cut : Nat}
    (took : script.final reader = reader.skip n) (n_le : n ≤ reader.rest.length) (short : cut < n) :
    ∃ offset count, .ask offset count ∈ script.steps reader ∧ offset ≤ reader.offset + cut ∧
      reader.offset + cut < offset + count ∧
      script.outcome (reader.facing (reader.rest.take cut)) = .error (.unexpectedEnd offset) := by
  induction script generalizing reader n cut with
  | value a =>
    obtain rfl : 0 = n := reader.skip_injective took
    cases short
  | full =>
    obtain rfl : 0 = n := reader.skip_injective took
    cases short
  | take m =>
    by_cases enough : m ≤ reader.rest.length
    · rw [(run_take enough).2] at took
      obtain rfl : m = n := reader.skip_injective took
      have missing : ¬ m ≤ (reader.facing (reader.rest.take cut)).rest.length := by
        change ¬ m ≤ (reader.rest.take cut).length
        rw [List.length_take]
        omega
      exact ⟨_, m, List.mem_singleton_self _, Nat.le_add_right .., Nat.add_lt_add_left short _,
        (run_take_short missing).1⟩
    · rw [(run_take_short enough).2] at took
      obtain rfl : 0 = n := reader.skip_injective took
      cases short
  | judge script verdict ih =>
    rw [final_judge] at took
    obtain ⟨offset, count, asked, le, lt, failed⟩ := ih took n_le short
    refine ⟨offset, count, asked, le, lt, ?_⟩
    rw [outcome_judge, failed]
    rfl
  | andThen script next ih ih_next =>
    cases result : script.outcome reader with
    | error e =>
      rw [(run_andThen_error next result).2] at took
      obtain ⟨offset, count, asked, le, lt, failed⟩ := ih took n_le short
      rw [steps_andThen_error next result]
      exact ⟨offset, count, asked, le, lt, (run_andThen_error next failed).1⟩
    | ok a =>
      obtain ⟨k, m, rfl, k_le, m_le, first, second⟩ := took_andThen result took
      rw [steps_andThen_ok next result, first]
      -- Either the cut goes through what the first part took, or that part runs as before.
      by_cases early : cut < k
      · obtain ⟨offset, count, asked, le, lt, failed⟩ := ih first k_le early
        exact ⟨offset, count, List.mem_append_left _ asked, le, lt, (run_andThen_error next failed).1⟩
      · obtain ⟨offset, count, asked, le, lt, failed⟩ :=
          ih_next a second m_le (show cut - k < m by omega)
        have behind : (reader.skip k).offset + (cut - k) = reader.offset + cut := by
          change reader.offset + k + (cut - k) = _
          omega
        rw [behind] at le lt
        have agree : (reader.rest.take cut).take k = reader.rest.take k := by
          rw [List.take_take, Nat.min_eq_left (Nat.not_lt.1 early)]
        obtain ⟨outcome, final⟩ := script.run_facing first k_le (complete_of_ok result) agree
        rw [result] at outcome
        refine ⟨offset, count, List.mem_append_right _ asked, le, lt, ?_⟩
        rw [(run_andThen_ok next outcome).1, final, ← failed]
        simp [Reader.skip, Reader.facing, List.drop_take]
  | nested script ih =>
    by_cases room : reader.depth < maxDepth
    · obtain ⟨offset, count, asked, le, lt, failed⟩ := ih (took_nested room took) n_le short
      refine ⟨offset, count, ?_, le, lt, ?_⟩
      · rw [steps_nested_room script room]
        exact List.mem_cons_of_mem _ (List.mem_append_left _ asked)
      · have roomToo : (reader.facing (reader.rest.take cut)).depth < maxDepth := room
        exact (outcome_nested_room script roomToo).trans failed
    · rw [(run_nested_full script room).2] at took
      obtain rfl : 0 = n := reader.skip_injective took
      cases short
  | room next ih => exact ih _ took n_le short

end Script

end MidIR
