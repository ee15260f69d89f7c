import MidIR.Json.Node
import MidIR.Proofs.Json.Reading
import MidIR.Proofs.Json.Weighing

namespace MidIR.Json

variable {α β τ : Type}

/-- With so much to spare at first, the read gives values that cost no more than that and the tokens
that it takes. -/
def Pays (spare : Nat) (read : Read α) (cost : α → Nat) : Prop :=
  ∀ tokens a rest, read tokens = .ok (a, rest) → cost a + weight rest ≤ spare + weight tokens

def ofItems (cost : α → Nat) (values : List α) : Nat := values.length + (values.map cost).sum

namespace Pays

variable {spare : Nat} {read : Read α} {next : α → Read β} {cost : α → Nat} {price : β → Nat}

theorem imp {other : α → Nat} (pays : Pays spare read cost) (cheaper : ∀ a, other a ≤ cost a) :
    Pays spare read other := by
  intro tokens a rest given
  have := pays tokens a rest given
  have := cheaper a
  omega

theorem keep_right (kept : Nat) (pays : Pays spare read cost) :
    Pays (spare + kept) read fun a => cost a + kept := by
  intro tokens a rest given
  have := pays tokens a rest given
  dsimp only
  omega

theorem keep_left (kept : Nat) (pays : Pays spare read cost) :
    Pays (kept + spare) read fun a => kept + cost a := by
  intro tokens a rest given
  have := pays tokens a rest given
  dsimp only
  omega

theorem rich (pays : Pays 0 read cost) : Pays spare read cost := by
  intro tokens a rest given
  have := pays tokens a rest given
  omega

theorem pure {a : α} (paid : cost a ≤ spare) : Pays spare (pure a) cost := by
  intro tokens _ rest given
  cases given
  omega

theorem fail (fault : Fault) : Pays spare (Read.fail fault) cost := by
  intro tokens a rest given
  cases given

theorem bind (first : Pays spare read cost) (second : ∀ a, Pays (cost a) (next a) price) :
    Pays spare (read >>= next) price := by
  intro tokens b rest given
  rw [Read.bind_apply] at given
  split at given
  · rename_i a between found
    have := first _ _ _ found
    have := second a _ _ _ given
    omega
  · cases given

theorem map {f : α → β} (pays : Pays spare read cost) (cheap : ∀ a, price (f a) ≤ cost a) :
    Pays spare (f <$> read) price := by
  intro tokens b rest given
  rw [Read.map_apply] at given
  split at given
  · rename_i a between found
    cases given
    have := pays _ _ _ found
    have := cheap a
    omega
  · cases given

/-! ## Tokens -/

theorem misfit_ne {tokens rest : List Token} {a : α} : Read.misfit tokens ≠ .ok (a, rest) := by
  cases tokens <;> exact nofun

theorem one (taken : ∀ tokens a rest, read tokens = .ok (a, rest) →
    ∃ token, tokens = token :: rest ∧ cost a ≤ spare + token.weight) : Pays spare read cost := by
  intro tokens a rest given
  obtain ⟨token, rfl, paid⟩ := taken tokens a rest given
  rw [weight_cons]
  omega

theorem null : Pays spare Read.null fun _ => spare := by
  refine one fun tokens a rest given => ?_
  unfold Read.null at given
  split at given
  · cases given
    exact ⟨_, rfl, Nat.le_add_right ..⟩
  · exact absurd given misfit_ne

theorem bool : Pays spare Read.bool fun _ => spare := by
  refine one fun tokens a rest given => ?_
  unfold Read.bool at given
  split at given
  · cases given
    exact ⟨_, rfl, Nat.le_add_right ..⟩
  · exact absurd given misfit_ne

theorem text : Pays spare Read.text fun s => spare + (utf8 s).length := by
  refine one fun tokens a rest given => ?_
  unfold Read.text at given
  split at given
  · cases given
    exact ⟨_, rfl, by simp +arith [Token.weight]⟩
  · exact absurd given misfit_ne

theorem whole (least greatest : Int) : Pays spare (Read.whole least greatest) fun _ => spare := by
  refine one fun tokens a rest given => ?_
  unfold Read.whole at given
  split at given
  · split at given
    · cases given
      exact ⟨_, rfl, Nat.le_add_right ..⟩
    · cases given
  · exact absurd given misfit_ne

theorem colon : Pays spare Read.colon fun _ => spare := by
  refine one fun tokens a rest given => ?_
  unfold Read.colon at given
  split at given
  · cases given
    exact ⟨_, rfl, Nat.le_add_right ..⟩
  · cases given
  · cases given

theorem close (bracket : Bracket) : Pays spare (Read.close bracket) fun _ => spare := by
  refine one fun tokens a rest given => ?_
  unfold Read.close at given
  split at given
  · split at given
    · cases given
      exact ⟨_, rfl, Nat.le_add_right ..⟩
    · cases given
  · cases given
  · cases given

theorem key : Pays spare Read.key fun _ => spare := by
  refine one fun tokens a rest given => ?_
  unfold Read.key at given
  split at given
  · cases given
    exact ⟨_, rfl, Nat.le_add_right ..⟩
  · cases given
  · cases given
  · cases given

theorem nextItem (first : Bool) :
    Pays spare (Read.nextItem first) fun more => spare + if first && more then 0 else 1 := by
  intro tokens a rest given
  unfold Read.nextItem at given
  split at given
  · cases given
  · cases given
    simp +arith [Token.weight]
  · split at given
    · rename_i start
      cases given
      simp [start]
    · split at given
      · cases given
      · cases given
      · cases given
        simp +arith [Token.weight, *]
      · cases given

theorem nextKey (first : Bool) : Pays spare (Read.nextKey first) fun _ => spare := by
  have named : Pays spare (some <$> Read.key) fun _ => spare := key.map fun _ => Nat.le_refl _
  intro tokens a rest given
  unfold Read.nextKey at given
  split at given
  · cases given
    exact Nat.add_le_add_left (Nat.le_add_left ..) _
  · split at given
    · exact named _ _ _ given
    · split at given
      · have := named _ _ _ given
        rw [weight_cons]
        omega
      · cases given
      · cases given

theorem skip : Pays spare Read.skip fun _ => spare := by
  have run (state : Skip) (tokens rest : List Token) (skipped : state.run tokens = .ok rest) :
      weight rest ≤ weight tokens := by
    induction tokens generalizing state with
    | nil => cases skipped
    | cons token tokens ih =>
      rw [weight_cons]
      unfold Skip.run at skipped
      split at skipped
      · cases skipped
      · cases skipped
        exact Nat.le_add_left ..
      · have := ih _ skipped
        omega
  intro tokens a rest given
  obtain ⟨_, skipped, equal⟩ := map_eq_ok.1 given
  cases equal
  exact Nat.add_le_add_left (run _ _ _ skipped) _

/-! ## Numbers -/

theorem u8 : Pays spare Read.u8 fun _ => spare :=
  (whole _ _).bind fun _ => pure (Nat.le_refl _)

theorem u32 : Pays spare Read.u32 fun _ => spare :=
  (whole _ _).bind fun _ => pure (Nat.le_refl _)

theorem u64 : Pays spare Read.u64 fun _ => spare :=
  (whole _ _).bind fun _ => pure (Nat.le_refl _)

theorem i64 : Pays spare Read.i64 fun _ => spare :=
  (whole _ _).bind fun _ => pure (Nat.le_refl _)

theorem option {price : Option α → Nat} (pays : Pays spare read cost) (free : price none ≤ spare)
    (cheap : ∀ a, price (some a) ≤ cost a) : Pays spare (Read.option read) price := by
  intro tokens value rest given
  unfold Read.option at given
  split at given
  · cases given
    rw [weight_cons]
    omega
  · exact pays.map cheap _ _ _ given

/-! ## Arrays -/

variable {levels : Nat}

theorem descend {read : (below : Nat) → below < levels → Read α}
    (pays : ∀ below inside, Pays spare (read below inside) cost) :
    Pays spare (Read.descend levels read) cost := by
  cases levels with
  | zero => exact fail _
  | succ below => exact pays below _

theorem items (pays : Pays 0 read cost) (bound : Nat) (first : Bool) :
    Pays spare (Read.items read bound first) fun values =>
      spare + ofItems cost values + if first then 0 else 1 := by
  -- What the items so far have paid for is part of what there is to spare for the others.
  induction bound generalizing first spare with
  | zero => exact fail _
  | succ bound ih =>
    refine (nextItem first).bind fun more => ?_
    cases more with
    | false =>
      refine pure ?_
      cases first <;> simp [ofItems]
    | true =>
      rw [Bool.and_true]
      refine (pays.keep_left _).bind fun a => (ih false).bind fun values => pure ?_
      simp +arith [ofItems]

theorem list {item : (below : Nat) → below < levels → Read α}
    (pays : ∀ below inside, Pays 0 (item below inside) cost) :
    Pays 0 (Read.list levels item) (ofItems cost) := by
  intro tokens values rest given
  unfold Read.list at given
  split at given
  · rename_i tokens
    have inner : Pays 0 (Read.descend levels fun below inside =>
        Read.items (item below inside) (tokens.length + 1) true) (ofItems cost) := by
      refine descend fun below inside => ?_
      exact ((pays below inside).items _ true).imp fun values => by simp
    have := inner _ _ _ given
    rw [weight_cons]
    omega
  · exact absurd given misfit_ne

end Pays

/-! ## Fields -/

/-- Every value that fields make up costs no more than was paid into the slots. -/
structure Pricing (fields : Fields α) (paid : fields.Slots → Nat) (cost : α → Nat) : Prop where
  empty : paid fields.empty = 0
  accept : ∀ key slots read, fields.accept key slots = some read → Pays (paid slots) read paid
  finish : ∀ slots a, fields.finish slots = .ok a → cost a ≤ paid slots
  inOrder : ∀ first, Pays 0 (fields.inOrder first) cost

def PaysFields (fields : Fields α) (cost : α → Nat) : Prop := ∃ paid, Pricing fields paid cost

namespace PaysFields

variable {fields : Fields α} {others : Fields β} {cost : α → Nat} {price : β → Nat}

theorem one {read : Read α} {name : String} {absent : Option α} (pays : Pays 0 read cost)
    (free : ∀ a, absent = some a → cost a = 0) : PaysFields (.one name read absent) cost := by
  refine ⟨fun slot => slot.elim 0 cost, rfl, ?_, ?_, ?_⟩
  · intro key found read accepted
    simp only [Fields.one] at accepted
    split at accepted
    · cases accepted
      split
      · exact .fail _
      · refine Pays.colon.bind fun _ => ?_
        cases found with
        | none => exact pays.map fun a => Nat.le_refl _
        | some b => contradiction
    · cases accepted
  · intro slot a finished
    simp only [Fields.one] at finished
    split at finished
    · rename_i value found
      cases finished
      cases slot with
      | none => exact Nat.le_of_eq (free a found)
      | some b =>
        cases found
        exact Nat.le_refl _
    · cases finished
  · intro first
    refine (Pays.nextItem first).bind fun more => ?_
    cases more with
    | false => exact .fail _
    | true => exact pays.rich

theorem required {read : Read α} {name : String} (pays : Pays 0 read cost) :
    PaysFields (.one name read) cost :=
  one pays nofun

theorem both (first : PaysFields fields cost) (second : PaysFields others price) :
    PaysFields (fields.both others) fun value => cost value.1 + price value.2 := by
  obtain ⟨paid, first⟩ := first
  obtain ⟨paid', second⟩ := second
  refine ⟨fun slots => paid slots.1 + paid' slots.2, ?_, ?_, ?_, ?_⟩
  · simp only [Fields.both, first.empty, second.empty]
  · -- A member goes into the slots of one side; what the other side has been paid stays.
    intro key slots read accepted
    simp only [Fields.both] at accepted
    split at accepted
    · rename_i found
      cases accepted
      exact ((first.accept _ _ _ found).keep_right _).bind fun _ => .pure (Nat.le_refl _)
    · split at accepted
      · rename_i found
        cases accepted
        exact ((second.accept _ _ _ found).keep_left _).bind fun _ => .pure (Nat.le_refl _)
      · cases accepted
  · rintro slots ⟨a, b⟩ finished
    obtain ⟨a, finishA, finished⟩ := bind_eq_ok.1 finished
    obtain ⟨b, finishB, finished⟩ := bind_eq_ok.1 finished
    cases finished
    exact Nat.add_le_add (first.finish _ _ finishA) (second.finish _ _ finishB)
  · intro start
    exact (first.inOrder start).bind fun a =>
      ((second.inOrder false).keep_left (cost a)).bind fun b => .pure (Nat.le_refl _)

theorem map {f : α → β} (pays : PaysFields fields cost) (cheap : ∀ a, price (f a) ≤ cost a) :
    PaysFields (fields.map f) price := by
  obtain ⟨paid, pricing⟩ := pays
  refine ⟨paid, pricing.empty, pricing.accept, ?_, fun first => (pricing.inOrder first).map cheap⟩
  intro slots b finished
  obtain ⟨a, found, rfl⟩ := (map_eq_ok (x := fields.finish slots)).1 finished
  exact Nat.le_trans (cheap a) (pricing.finish slots a found)

end PaysFields

theorem Pricing.members {fields : Fields α} {paid : fields.Slots → Nat} {cost : α → Nat}
    (pricing : Pricing fields paid cost) (bound : Nat) (first : Bool) (slots : fields.Slots) :
    Pays (paid slots) (fields.members bound first slots) cost := by
  induction bound generalizing first slots with
  | zero => exact .fail _
  | succ bound ih =>
    refine (Pays.nextKey first).bind fun key => ?_
    cases key with
    | none =>
      intro tokens a rest given
      obtain ⟨_, finished, given⟩ := bind_eq_ok.1 given
      cases given
      exact Nat.add_le_add_right (pricing.finish _ _ finished) _
    | some key =>
      simp only
      split
      · rename_i accepted
        exact (pricing.accept _ _ _ accepted).bind fun slots => ih false slots
      · exact Pays.colon.bind fun _ => Pays.skip.bind fun _ => ih false slots

namespace Pays

variable {levels : Nat} {cost : α → Nat}

theorem record {fields : (below : Nat) → below < levels → Fields α}
    (pays : ∀ below inside, PaysFields (fields below inside) cost) :
    Pays 0 (Read.record levels fields) cost := by
  intro tokens a rest given
  unfold Read.record at given
  split at given
  · have inner : Pays 0 (Read.descend levels fun below inside => do
        let value ← (fields below inside).inOrder true
        Read.close .square
        return value) cost := by
      refine descend fun below inside => ?_
      obtain ⟨_, pricing⟩ := pays below inside
      exact (pricing.inOrder true).bind fun a => (close _).bind fun _ => .pure (Nat.le_refl _)
    have := inner _ _ _ given
    rw [weight_cons]
    omega
  · rename_i tokens
    have inner : Pays 0 (Read.descend levels fun below inside =>
        (fields below inside).members (tokens.length + 1) true (fields below inside).empty) cost := by
      refine descend fun below inside => ?_
      obtain ⟨paid, pricing⟩ := pays below inside
      have := pricing.members (tokens.length + 1) true (fields below inside).empty
      rwa [pricing.empty] at this
    have := inner _ _ _ given
    rw [weight_cons]
    omega
  · exact absurd given misfit_ne

/-! ## Values of several forms -/

def Covers (shape : Variant levels α) (cost : α → Nat) : Prop :=
  match shape with
  | .bare value => cost value = 0
  | .holds read => ∀ below inside, Pays 0 (read below inside) cost

theorem payload {below : Nat} {inside : below < levels} {shape : Variant levels α}
    (covers : Covers shape cost) : Pays 0 (Read.payload below inside shape) cost := by
  cases shape with
  | bare value => exact null.bind fun _ => .pure (Nat.le_of_eq covers)
  | holds read => exact covers below inside

theorem variant {names : NameTable τ} {form : τ → Variant levels α}
    (covers : ∀ t, Covers (form t) cost) : Pays 0 (Read.variant levels names form) cost := by
  intro tokens a rest given
  unfold Read.variant at given
  split at given
  · split at given
    · rename_i found
      cases given
      obtain ⟨t, _, shape⟩ := Option.map_eq_some_iff.1 found
      have free : cost a = 0 := by
        have covered := covers t
        rwa [shape] at covered
      rw [weight_cons]
      omega
    · cases given
  · cases given
  · rw [weight_cons]
    refine Nat.le_trans (m := 0 + weight _)
      (descend (fun below inside => key.bind fun name => ?_) _ _ _ given) ?_
    · split
      · exact fail _
      · rename_i t _
        exact colon.bind fun _ => (payload (covers t)).bind fun a => (close _).bind fun _ =>
          .pure (Nat.le_refl _)
    · omega
  · cases given
  · cases given

end Pays

end MidIR.Json
