import MidIR.Proofs.Json.Reading

namespace MidIR.Json

variable {α β τ : Type}

def Accepts (read : Read α) (P : α → Prop) : Prop :=
  ∀ tokens a rest, read tokens = .ok (a, rest) → P a

namespace Accepts

variable {read : Read α} {next : α → Read β} {P : α → Prop} {Q : β → Prop}

theorem any (read : Read α) : Accepts read fun _ => True := fun _ _ _ _ => trivial

theorem imp {R : α → Prop} (accepts : Accepts read P) (implies : ∀ a, P a → R a) : Accepts read R := by
  intro tokens a rest given
  exact implies a (accepts tokens a rest given)

theorem pure {a : α} (holds : P a) : Accepts (pure a) P := by
  intro tokens _ rest given
  cases given
  exact holds

theorem fail (fault : Fault) : Accepts (Read.fail fault) P := by
  intro tokens a rest given
  cases given

theorem misfit : Accepts Read.misfit P := by
  intro tokens a rest given
  cases tokens <;> cases given

theorem bind (first : Accepts read P) (second : ∀ a, P a → Accepts (next a) Q) :
    Accepts (read >>= next) Q := by
  intro tokens b rest given
  rw [Read.bind_apply] at given
  split at given
  · rename_i a between found
    exact second a (first _ _ _ found) _ _ _ given
  · cases given

theorem map (f : α → β) (accepts : Accepts read P) : Accepts (f <$> read) fun b => ∃ a, P a ∧ f a = b := by
  intro tokens b rest given
  rw [Read.map_apply] at given
  split at given
  · rename_i a between found
    cases given
    exact ⟨a, accepts _ _ _ found, rfl⟩
  · cases given

/-! ## Arrays -/

variable {levels : Nat} {P : Nat → α → Prop}

theorem descend {read : (below : Nat) → below < levels → Read α} {Q : α → Prop}
    (accepts : ∀ below inside, Accepts (read below inside) Q) : Accepts (Read.descend levels read) Q := by
  cases levels with
  | zero => exact fail _
  | succ below => exact accepts below _

theorem items {Q : α → Prop} (accepts : Accepts read Q) (bound : Nat) (first : Bool) :
    Accepts (Read.items read bound first) fun values => ∀ a ∈ values, Q a := by
  induction bound generalizing first with
  | zero => exact fail _
  | succ bound ih =>
    refine (any _).bind fun more _ => ?_
    cases more with
    | false =>
      refine pure fun a member => ?_
      cases member
    | true =>
      refine accepts.bind fun a holds => (ih false).bind fun values all => pure ?_
      intro b member
      rcases List.mem_cons.1 member with rfl | member
      · exact holds
      · exact all b member

theorem list {item : (below : Nat) → below < levels → Read α}
    (accepts : ∀ below inside, Accepts (item below inside) (P below)) :
    Accepts (Read.list levels item) fun values => ∃ below < levels, ∀ a ∈ values, P below a := by
  intro tokens values rest given
  unfold Read.list at given
  split at given
  · rename_i tokens
    have inner : Accepts (Read.descend levels fun below inside =>
        Read.items (item below inside) (tokens.length + 1) true)
        fun values => ∃ below < levels, ∀ a ∈ values, P below a := by
      refine descend fun below inside => ?_
      exact ((accepts below inside).items _ _).imp fun values all => ⟨below, inside, all⟩
    exact inner _ _ _ given
  · exact absurd given (misfit (P := fun _ => False) _ _ _)

end Accepts

/-! ## Fields -/

/-- Every value that fields make up has a property, for which the slots keep an invariant. -/
structure Keeps (fields : Fields α) (I : fields.Slots → Prop) (P : α → Prop) : Prop where
  empty : I fields.empty
  accept : ∀ key slots read, I slots → fields.accept key slots = some read → Accepts read I
  finish : ∀ slots a, I slots → fields.finish slots = .ok a → P a
  inOrder : ∀ first, Accepts (fields.inOrder first) P

def AcceptsFields (fields : Fields α) (P : α → Prop) : Prop := ∃ I, Keeps fields I P

namespace AcceptsFields

variable {fields : Fields α} {others : Fields β} {P : α → Prop} {Q : β → Prop}

theorem one {read : Read α} {name : String} {absent : Option α} (accepts : Accepts read P)
    (spare : ∀ a, absent = some a → P a) : AcceptsFields (.one name read absent) P := by
  -- The slot is empty until a value is read into it.
  refine ⟨fun slot => ∀ a, slot = some a → P a, ?_, ?_, ?_, ?_⟩
  · intro a empty
    cases empty
  · intro key slot found _ accepted
    simp only [Fields.one] at accepted
    split at accepted
    · cases accepted
      split
      · exact .fail _
      · refine (Accepts.any _).bind fun _ _ => (accepts.map some).imp ?_
        rintro _ ⟨a, holds, rfl⟩ _ ⟨⟩
        exact holds
    · cases accepted
  · intro slot a invariant finished
    simp only [Fields.one] at finished
    split at finished
    · rename_i value found
      cases finished
      cases slot with
      | none => exact spare a found
      | some b => exact invariant a found
    · cases finished
  · intro first
    refine (Accepts.any _).bind fun more _ => ?_
    cases more with
    | false => exact .fail _
    | true => exact accepts

theorem required {read : Read α} {name : String} (accepts : Accepts read P) :
    AcceptsFields (.one name read) P := one accepts fun a absent => by cases absent

theorem both (first : AcceptsFields fields P) (second : AcceptsFields others Q) :
    AcceptsFields (fields.both others) fun value => P value.1 ∧ Q value.2 := by
  obtain ⟨I, first⟩ := first
  obtain ⟨J, second⟩ := second
  refine ⟨fun slots => I slots.1 ∧ J slots.2, ⟨first.empty, second.empty⟩, ?_, ?_, ?_⟩
  · rintro key slots read ⟨left, right⟩ accepted
    simp only [Fields.both] at accepted
    split at accepted
    · rename_i found
      cases accepted
      exact (first.accept _ _ _ left found).bind fun _ holds => .pure ⟨holds, right⟩
    · split at accepted
      · rename_i found
        cases accepted
        exact (second.accept _ _ _ right found).bind fun _ holds => .pure ⟨left, holds⟩
      · cases accepted
  · rintro slots ⟨a, b⟩ ⟨left, right⟩ finished
    obtain ⟨a, finishA, finished⟩ := bind_eq_ok.1 finished
    obtain ⟨b, finishB, finished⟩ := bind_eq_ok.1 finished
    cases finished
    exact ⟨first.finish _ _ left finishA, second.finish _ _ right finishB⟩
  · intro start
    exact (first.inOrder start).bind fun a holdsA =>
      (second.inOrder false).bind fun b holdsB => .pure ⟨holdsA, holdsB⟩

theorem map (f : α → β) (accepts : AcceptsFields fields P) :
    AcceptsFields (fields.map f) fun b => ∃ a, P a ∧ f a = b := by
  obtain ⟨I, keeps⟩ := accepts
  refine ⟨I, keeps.empty, keeps.accept, ?_, fun first => (keeps.inOrder first).map f⟩
  intro slots b invariant finished
  obtain ⟨a, found, rfl⟩ := (map_eq_ok (x := fields.finish slots)).1 finished
  exact ⟨a, keeps.finish slots a invariant found, rfl⟩

end AcceptsFields

theorem Keeps.members {fields : Fields α} {I : fields.Slots → Prop} {P : α → Prop}
    (keeps : Keeps fields I P) (bound : Nat) (first : Bool) (slots : fields.Slots)
    (invariant : I slots) : Accepts (fields.members bound first slots) P := by
  induction bound generalizing first slots with
  | zero => exact .fail _
  | succ bound ih =>
    refine (Accepts.any _).bind fun key _ => ?_
    cases key with
    | none =>
      intro tokens a rest given
      obtain ⟨_, finished, given⟩ := bind_eq_ok.1 given
      cases given
      exact keeps.finish _ _ invariant finished
    | some key =>
      simp only
      split
      · rename_i accepted
        exact (keeps.accept _ _ _ invariant accepted).bind fun slots invariant => ih false slots invariant
      · exact (Accepts.any _).bind fun _ _ => (Accepts.any _).bind fun _ _ => ih false slots invariant

namespace Accepts

variable {levels : Nat}

theorem record {fields : (below : Nat) → below < levels → Fields α} {P : Nat → α → Prop}
    (accepts : ∀ below inside, AcceptsFields (fields below inside) (P below)) :
    Accepts (Read.record levels fields) fun a => ∃ below < levels, P below a := by
  intro tokens a rest given
  unfold Read.record at given
  split at given
  · have inner : Accepts (Read.descend levels fun below inside => do
        let value ← (fields below inside).inOrder true
        Read.close .square
        return value) fun a => ∃ below < levels, P below a := by
      refine descend fun below inside => ?_
      obtain ⟨_, keeps⟩ := accepts below inside
      exact (keeps.inOrder true).bind fun a holds => (any _).bind fun _ _ =>
        .pure ⟨below, inside, holds⟩
    exact inner _ _ _ given
  · rename_i tokens
    have inner : Accepts (Read.descend levels fun below inside =>
        (fields below inside).members (tokens.length + 1) true (fields below inside).empty)
        fun a => ∃ below < levels, P below a := by
      refine descend fun below inside => ?_
      obtain ⟨_, keeps⟩ := accepts below inside
      exact (keeps.members _ true _ keeps.empty).imp fun a holds => ⟨below, inside, holds⟩
    exact inner _ _ _ given
  · exact absurd given (misfit (P := fun _ => False) _ _ _)

/-! ## Values of several forms -/

def Vouches (shape : Variant levels α) (P : α → Prop) : Prop :=
  match shape with
  | .bare value => P value
  | .holds read => ∀ below inside, Accepts (read below inside) P

theorem Vouches.payload {below : Nat} {inside : below < levels} {shape : Variant levels α} {P : α → Prop}
    (vouches : Vouches shape P) : Accepts (Read.payload below inside shape) P := by
  cases shape with
  | bare value => exact (any _).bind fun _ _ => .pure vouches
  | holds read => exact vouches below inside

theorem variant {names : NameTable τ} {form : τ → Variant levels α} {P : α → Prop}
    (accepts : ∀ t, Vouches (form t) P) : Accepts (Read.variant levels names form) P := by
  intro tokens a rest given
  unfold Read.variant at given
  split at given
  · split at given
    · rename_i found
      cases given
      obtain ⟨t, _, shape⟩ := Option.map_eq_some_iff.1 found
      have vouches := accepts t
      rwa [shape] at vouches
    · cases given
  · cases given
  · refine (descend fun below inside => ?_ : Accepts (Read.descend levels _) P) _ _ _ given
    refine (any _).bind fun key _ => ?_
    split
    · exact fail _
    · rename_i t _
      refine (any _).bind fun _ _ => ?_
      exact (accepts t).payload.bind fun a holds => (any _).bind fun _ _ => .pure holds
  · cases given
  · cases given

end Accepts

end MidIR.Json
