import MidIR.Json.Node
import MidIR.Proofs.Json.Scanning

namespace MidIR.Json

mutual

def depth : Json → Nat
  | .null | .bool _ | .number _ | .text _ => 0
  | .array items => 1 + depthAll items
  | .object members => 1 + depthMembers members
termination_by structural j => j

def depthAll : List Json → Nat
  | [] => 0
  | item :: items => max item.depth (depthAll items)
termination_by structural items => items

def depthMembers : List (String × Json) → Nat
  | [] => 0
  | (_, value) :: members => max value.depth (depthMembers members)
termination_by structural members => members

end

theorem exists_tokens (j : Json) : ∃ token tokens, j.tokens = token :: tokens ∧
    ∀ bracket, token ≠ .closing bracket := by
  cases j with
  | array items => cases items <;> exact ⟨_, _, rfl, fun bracket equal => by cases equal⟩
  | object members => cases members <;> exact ⟨_, _, rfl, fun bracket equal => by cases equal⟩
  | _ => exact ⟨_, _, rfl, fun bracket equal => by cases equal⟩

variable {α β τ : Type}

theorem Read.bind_apply (read : Read α) (next : α → Read β) (tokens : List Token) :
    (read >>= next) tokens = match read tokens with
      | .ok (a, rest) => next a rest
      | .error fault => .error fault := by
  change Except.bind (read tokens) _ = _
  rcases read tokens with _ | ⟨_, _⟩ <;> rfl

theorem Read.map_apply (f : α → β) (read : Read α) (tokens : List Token) :
    (f <$> read) tokens = match read tokens with
      | .ok (a, rest) => .ok (f a, rest)
      | .error fault => .error fault := by
  change Except.bind (read tokens) _ = _
  rcases read tokens with _ | ⟨_, _⟩ <;> rfl

/-- What a read makes of the tokens in front of others: a value, if there are levels enough. -/
def Gives (read : Read α) (front : List Token) (need levels : Nat) (value : α) : Prop :=
  ∀ rest, read (front ++ rest) = if need ≤ levels then .ok (value, rest) else .error .malformed

namespace Gives

variable {read : Read α} {next : α → Read β} {front behind : List Token} {m n levels : Nat} {a : α} {b : β}

theorem pure (a : α) : Gives (pure a) [] 0 levels a := fun _ => rfl

theorem bind (first : Gives read front m levels a) (second : Gives (next a) behind n levels b) :
    Gives (read >>= next) (front ++ behind) (max m n) levels b := by
  intro rest
  rw [List.append_assoc, Read.bind_apply, first]
  by_cases room : m ≤ levels
  · rw [if_pos room]
    refine (second rest).trans ?_
    by_cases roomBehind : n ≤ levels
    · rw [if_pos roomBehind, if_pos (Nat.max_le.2 ⟨room, roomBehind⟩)]
    · rw [if_neg roomBehind, if_neg fun both => roomBehind (Nat.max_le.1 both).2]
  · rw [if_neg room, if_neg fun both => room (Nat.max_le.1 both).1]

theorem returning (f : α → β) (first : Gives read front m levels a) :
    Gives (do return f (← read)) front m levels (f a) := by
  have whole : Gives (do return f (← read)) (front ++ []) (max m 0) levels (f a) :=
    first.bind (pure (f a))
  rwa [List.append_nil, Nat.max_zero] at whole

theorem map (f : α → β) (first : Gives read front m levels a) :
    Gives (f <$> read) front m levels (f a) := by
  intro rest
  rw [Read.map_apply, first]
  by_cases room : m ≤ levels
  · rw [if_pos room, if_pos room]
  · rw [if_neg room, if_neg room]

end Gives

abbrev Reads (read : Read α) (levels : Nat) (j : Json) (value : α) : Prop :=
  Gives read j.tokens j.depth levels value

namespace Reads

variable {read : Read α} {levels : Nat} {j : Json} {a : α}

/-! ## Scalars -/

theorem bool (b : Bool) : Reads Read.bool levels (.bool b) b := fun _ => rfl

theorem text (s : String) : Reads Read.text levels (.text s) s := fun _ => rfl

theorem whole {least greatest n : Int} (above : least ≤ n) (below : n ≤ greatest)
    (small : -0x8000000000000000 ≤ least) (large : greatest ≤ 0xffffffffffffffff) :
    Reads (Read.whole least greatest) levels (.number n) n := by
  intro rest
  change Read.whole least greatest (.number (numeral n).value (.ok ()) :: rest) = _
  rw [numeral_value (by omega) (by omega)]
  exact if_pos ⟨above, below⟩

theorem u8 (n : UInt8) : Reads Read.u8 levels (.number n.toNat) n := by
  have small := n.toNat_lt
  have number : Reads (Read.whole 0 0xff) levels (.number n.toNat) n.toNat :=
    whole (by omega) (by omega) (by decide) (by decide)
  have same : (n.toNat : Int).toNat.toUInt8 = n := UInt8.ofNat_toNat
  have reads := number.returning fun n => n.toNat.toUInt8
  rwa [same] at reads

theorem u32 (n : UInt32) : Reads Read.u32 levels (ofUInt32 n) n := by
  have small := n.toNat_lt
  have number : Reads (Read.whole 0 0xffffffff) levels (.number n.toNat) n.toNat :=
    whole (by omega) (by omega) (by decide) (by decide)
  have same : (n.toNat : Int).toNat.toUInt32 = n := UInt32.ofNat_toNat
  have reads := number.returning fun n => n.toNat.toUInt32
  rwa [same] at reads

theorem u64 (n : UInt64) : Reads Read.u64 levels (ofUInt64 n) n := by
  have small := n.toNat_lt
  have number : Reads (Read.whole 0 0xffffffffffffffff) levels (.number n.toNat) n.toNat :=
    whole (by omega) (by omega) (by decide) (by decide)
  have same : (n.toNat : Int).toNat.toUInt64 = n := UInt64.ofNat_toNat
  have reads := number.returning fun n => n.toNat.toUInt64
  rwa [same] at reads

theorem i64 (n : Int64) : Reads Read.i64 levels (.number n.toInt) n := by
  have least := n.le_toInt
  have greatest := n.toInt_lt
  have number : Reads (Read.whole (-0x8000000000000000) 0x7fffffffffffffff) levels (.number n.toInt) n.toInt :=
    whole (by omega) (by omega) (by decide) (by decide)
  have same : n.toInt.toInt64 = n := Int64.ofInt_toInt n
  have reads := number.returning fun n => n.toInt64
  rwa [same] at reads

/-! ## Arrays -/

theorem nextItem_first {j : Json} (rest : List Token) :
    Read.nextItem true (j.tokens ++ rest) = .ok (true, j.tokens ++ rest) := by
  obtain ⟨token, tokens, equal, start⟩ := exists_tokens j
  rw [equal]
  cases token with
  | closing bracket => exact absurd rfl (start bracket)
  | _ => rfl

theorem nextItem_next {j : Json} (rest : List Token) :
    Read.nextItem false (.comma :: (j.tokens ++ rest)) = .ok (true, j.tokens ++ rest) := by
  obtain ⟨token, tokens, equal, start⟩ := exists_tokens j
  rw [equal]
  cases token with
  | closing bracket => exact absurd rfl (start bracket)
  | _ => rfl

theorem items_step {bound : Nat} {first : Bool} {tokens : List Token} {as : List α} {j : Json}
    {items : List Json} {rest : List Token} (reads : Reads read levels j a)
    (more : Read.nextItem first tokens = .ok (true, j.tokens ++ (itemTokens items ++ rest)))
    (others : Read.items read bound false (itemTokens items ++ rest) =
      if depthAll items ≤ levels then .ok (as, rest.tail) else .error .malformed) :
    Read.items read (bound + 1) first tokens =
      if depthAll (j :: items) ≤ levels then .ok (a :: as, rest.tail) else .error .malformed := by
  rw [Read.items, Read.bind_apply, more]
  change (read >>= fun a => Read.items read bound false >>= fun as => pure (a :: as)) _ = _
  rw [Read.bind_apply, reads, depthAll]
  by_cases room : j.depth ≤ levels
  · rw [if_pos room]
    change (Read.items read bound false >>= fun as => pure (a :: as)) _ = _
    rw [Read.bind_apply, others]
    by_cases roomBehind : depthAll items ≤ levels
    · rw [if_pos roomBehind, if_pos (Nat.max_le.2 ⟨room, roomBehind⟩)]
      rfl
    · rw [if_neg roomBehind, if_neg fun both => roomBehind (Nat.max_le.1 both).2]
  · rw [if_neg room, if_neg fun both => room (Nat.max_le.1 both).1]

theorem items_next {f : α → Json} (values : List α) (each : ∀ a ∈ values, Reads read levels (f a) a)
    {bound : Nat} (enough : values.length < bound) (rest : List Token) :
    Read.items read bound false (itemTokens (values.map f) ++ .closing .square :: rest) =
      if depthAll (values.map f) ≤ levels then .ok (values, rest) else .error .malformed := by
  induction values generalizing bound with
  | nil =>
    cases bound with
    | zero => cases enough
    | succ bound => rfl
  | cons a values ih =>
    cases bound with
    | zero => cases enough
    | succ bound =>
      have others := ih (fun b member => each b (List.mem_cons_of_mem _ member)) (Nat.lt_of_succ_lt_succ enough)
      refine items_step (each a (List.mem_cons_self ..)) ?_ others
      rw [List.map_cons, itemTokens, List.cons_append, List.append_assoc, nextItem_next]

theorem items_first {f : α → Json} (values : List α) (each : ∀ a ∈ values, Reads read levels (f a) a)
    {bound : Nat} (enough : values.length < bound) (rest : List Token) :
    Read.items read bound true ((Json.array (values.map f)).tokens.tail ++ rest) =
      if depthAll (values.map f) ≤ levels then .ok (values, rest) else .error .malformed := by
  cases bound with
  | zero => cases enough
  | succ bound =>
    cases values with
    | nil => rfl
    | cons a values =>
      have others := items_next values (fun b member => each b (List.mem_cons_of_mem _ member))
        (Nat.lt_of_succ_lt_succ enough) rest
      refine items_step (each a (List.mem_cons_self ..)) ?_ others
      rw [List.map_cons, tokens, List.tail_cons, List.append_assoc, List.append_assoc, nextItem_first]
      rfl

theorem length_le_itemTokens (items : List Json) : items.length ≤ (itemTokens items).length := by
  induction items with
  | nil => exact Nat.zero_le _
  | cons item items ih =>
    rw [itemTokens, List.length_cons, List.length_cons, List.length_append]
    omega

theorem length_le_arrayTokens (items : List Json) : items.length ≤ (Json.array items).tokens.tail.length := by
  cases items with
  | nil => exact Nat.zero_le _
  | cons item items =>
    have := length_le_itemTokens items
    rw [tokens, List.tail_cons, List.length_append, List.length_append, List.length_cons]
    simp only [List.length_cons, List.length_nil]
    omega

theorem arrayTokens (items : List Json) :
    (Json.array items).tokens = .opening .square :: (Json.array items).tokens.tail := by
  cases items <;> rfl

theorem list {item : (below : Nat) → below < levels → Read α} {f : α → Json} (values : List α)
    (each : ∀ a ∈ values, ∀ below inside, Reads (item below inside) below (f a) a) :
    Reads (Read.list levels item) levels (.array (values.map f)) values := by
  intro rest
  rw [arrayTokens, List.cons_append, depth]
  cases levels with
  | zero =>
    rw [if_neg (by omega)]
    rfl
  | succ below =>
    have enough : values.length < ((Json.array (values.map f)).tokens.tail ++ rest).length + 1 := by
      have := length_le_arrayTokens (values.map f)
      rw [List.length_map] at this
      rw [List.length_append]
      omega
    change Read.items (item below _) _ true _ = _
    rw [items_first values (fun a member => each a member below _) enough rest]
    simp only [Nat.add_comm 1, Nat.add_le_add_iff_right]

/-! ## Optional values -/

theorem absent : Reads (Read.option read) levels .null none := fun _ => rfl

theorem present {n : Int} (reads : Reads read levels (.number n) a) :
    Reads (Read.option read) levels (.number n) (some a) := Gives.map some reads

end Reads

/-! ## Fields -/

/-- Members with these keys and values, one behind the other, take slots from one state to another. -/
inductive Fills (fields : Fields α) (levels : Nat) :
    fields.Slots → List (String × Json) → fields.Slots → Prop
  | nil (slots : fields.Slots) : Fills fields levels slots [] slots
  | cons {slots between filled : fields.Slots} {key : String} {j : Json}
    {members : List (String × Json)} {read : Read fields.Slots} :
    fields.accept key slots = some read →
    Gives read (.colon :: j.tokens) j.depth levels between →
    Fills fields levels between members filled →
    Fills fields levels slots ((key, j) :: members) filled

structure Holds (fields : Fields α) (names : List String) (levels : Nat)
    (members : List (String × Json)) (value : α) : Prop where
  keys : members.map (·.1) = names
  fills : ∃ slots, Fills fields levels fields.empty members slots ∧ fields.finish slots = .ok value
  others : ∀ key ∉ names, ∀ slots, fields.accept key slots = none

namespace Fills

variable {fields : Fields α} {others : Fields β} {levels : Nat} {members behind : List (String × Json)}

theorem append {slots between filled : fields.Slots} (first : Fills fields levels slots members between)
    (second : Fills fields levels between behind filled) :
    Fills fields levels slots (members ++ behind) filled := by
  induction first with
  | nil => exact second
  | cons accept reads _ ih => exact .cons accept reads (ih second)

theorem left {slots filled : fields.Slots} (fills : Fills fields levels slots members filled)
    (beside : others.Slots) :
    Fills (fields.both others) levels (slots, beside) members (filled, beside) := by
  induction fills with
  | nil => exact .nil _
  | @cons slots between filled key j members read accept reads _ ih =>
    have taken : (fields.both others).accept key (slots, beside) =
        some (do return (← read, beside)) := by
      simp only [Fields.both, accept]
    exact .cons taken (reads.returning fun slots => (slots, beside)) ih

theorem right {slots filled : others.Slots} (fills : Fills others levels slots members filled)
    (unknown : ∀ key ∈ members.map (·.1), ∀ slots, fields.accept key slots = none)
    (beside : fields.Slots) :
    Fills (fields.both others) levels (beside, slots) members (beside, filled) := by
  induction fills with
  | nil => exact .nil _
  | @cons slots between filled key j members read accept reads _ ih =>
    have taken : (fields.both others).accept key (beside, slots) =
        some (do return (beside, ← read)) := by
      simp only [Fields.both, accept, unknown key (List.mem_cons_self ..)]
    refine .cons taken (reads.returning fun slots => (beside, slots)) (ih fun key member => ?_)
    exact unknown key (List.mem_cons_of_mem _ member)

theorem map {slots filled : fields.Slots} (f : α → β) (fills : Fills fields levels slots members filled) :
    Fills (fields.map f) levels slots members filled := by
  induction fills with
  | nil => exact .nil _
  | cons accept reads _ ih => exact .cons accept reads ih

end Fills

namespace Holds

variable {fields : Fields α} {others : Fields β} {names behind : List String} {levels : Nat}
  {members more : List (String × Json)} {a : α} {b : β}

theorem one {read : Read α} {name : String} {absent : Option α} {j : Json}
    (reads : Reads read levels j a) : Holds (.one name read absent) [name] levels [(name, j)] a where
  keys := rfl
  fills := by
    refine ⟨some a, ?_, rfl⟩
    have taken : (Fields.one name read absent).accept name none =
        some (do Read.colon; some <$> read) := if_pos rfl
    have colon : Gives Read.colon [.colon] 0 levels () := fun _ => rfl
    have given : Gives (do Read.colon; some <$> read) ([.colon] ++ j.tokens) (max 0 j.depth) levels (some a) :=
      colon.bind (reads.map some)
    rw [Nat.zero_max] at given
    exact .cons taken given (.nil _)
  others key other slots := if_neg fun same => other (List.mem_singleton.2 same)

theorem both (first : Holds fields names levels members a) (second : Holds others behind levels more b)
    (distinct : ∀ key ∈ behind, key ∉ names) :
    Holds (fields.both others) (names ++ behind) levels (members ++ more) (a, b) where
  keys := by rw [List.map_append, first.keys, second.keys]
  fills := by
    obtain ⟨slots, fills, finish⟩ := first.fills
    obtain ⟨slotsBehind, fillsBehind, finishBehind⟩ := second.fills
    refine ⟨(slots, slotsBehind), (fills.left _).append (fillsBehind.right ?_ _), ?_⟩
    · intro key member
      exact first.others key (distinct key (second.keys ▸ member))
    · simp only [Fields.both, finish, finishBehind]
      rfl
  others key other slots := by
    have here := first.others key (fun member => other (List.mem_append_left _ member)) slots.1
    have there := second.others key (fun member => other (List.mem_append_right _ member)) slots.2
    simp only [Fields.both, here, there]

theorem map (f : α → β) (holds : Holds fields names levels members a) :
    Holds (fields.map f) names levels members (f a) where
  keys := holds.keys
  fills := by
    obtain ⟨slots, fills, finish⟩ := holds.fills
    refine ⟨slots, fills.map f, ?_⟩
    change f <$> fields.finish slots = _
    rw [finish]
    rfl
  others := holds.others

end Holds

namespace Reads

variable {fields : Fields α} {levels : Nat} {members : List (String × Json)} {a : α}

theorem members_step {slots between : fields.Slots} {bound : Nat} {first : Bool} {key : String} {j : Json}
    {read : Read fields.Slots} {tokens rest : List Token}
    (next : Read.nextKey first tokens = .ok (some key, .colon :: (j.tokens ++ (memberTokens members ++ rest))))
    (accept : fields.accept key slots = some read)
    (reads : Gives read (.colon :: j.tokens) j.depth levels between)
    (others : fields.members bound false between (memberTokens members ++ rest) =
      if depthMembers members ≤ levels then .ok (a, rest.tail) else .error .malformed) :
    fields.members (bound + 1) first slots tokens =
      if depthMembers ((key, j) :: members) ≤ levels then .ok (a, rest.tail) else .error .malformed := by
  rw [Fields.members, Read.bind_apply, next]
  simp only [accept]
  have given := reads (memberTokens members ++ rest)
  rw [List.cons_append] at given
  rw [Read.bind_apply, given, depthMembers]
  by_cases room : j.depth ≤ levels
  · rw [if_pos room]
    refine others.trans ?_
    by_cases roomBehind : depthMembers members ≤ levels
    · rw [if_pos roomBehind, if_pos (Nat.max_le.2 ⟨room, roomBehind⟩)]
    · rw [if_neg roomBehind, if_neg fun both => roomBehind (Nat.max_le.1 both).2]
  · rw [if_neg room, if_neg fun both => room (Nat.max_le.1 both).1]

theorem members_next {slots filled : fields.Slots} (fills : Fills fields levels slots members filled)
    (finish : fields.finish filled = .ok a) {bound : Nat} (enough : members.length < bound)
    (rest : List Token) :
    fields.members bound false slots (memberTokens members ++ .closing .curly :: rest) =
      if depthMembers members ≤ levels then .ok (a, rest) else .error .malformed := by
  -- Each member takes a round, and one more round closes the object.
  induction fills generalizing bound with
  | nil slots =>
    cases bound with
    | zero => cases enough
    | succ bound =>
      change Except.bind (fields.finish slots) _ = _
      rw [finish]
      rfl
  | @cons slots between filled key j members read accept reads _ ih =>
    cases bound with
    | zero => cases enough
    | succ bound =>
      have others := ih finish (Nat.lt_of_succ_lt_succ enough)
      refine members_step ?_ accept reads others
      rw [memberTokens, List.cons_append, List.cons_append, List.cons_append, List.append_assoc]
      rfl

theorem length_le_memberTokens (members : List (String × Json)) :
    members.length ≤ (memberTokens members).length := by
  induction members with
  | nil => exact Nat.zero_le _
  | cons member members ih =>
    obtain ⟨key, j⟩ := member
    rw [memberTokens]
    simp only [List.length_cons, List.length_append]
    omega

theorem record {fields : (below : Nat) → below < levels → Fields α} {key : String} {j : Json}
    {names : List String}
    (holds : ∀ below inside, Holds (fields below inside) names below ((key, j) :: members) a) :
    Reads (Read.record levels fields) levels (.object ((key, j) :: members)) a := by
  intro rest
  cases levels with
  | zero =>
    rw [if_neg (by rw [depth]; omega), tokens]
    rfl
  | succ below =>
    obtain ⟨filled, fills, finish⟩ := (holds below (Nat.lt_succ_self below)).fills
    cases fills with
    | cons accept reads more =>
      have tail : (Json.object ((key, j) :: members)).tokens ++ rest = .opening .curly :: textToken key ::
          .colon :: (j.tokens ++ (memberTokens members ++ .closing .curly :: rest)) := by
        simp only [tokens, List.cons_append, List.append_assoc, List.nil_append]
      rw [tail, depth]
      change (fields below _).members _ true (fields below _).empty _ = _
      have enough := length_le_memberTokens members
      refine (members_step rfl accept reads (members_next more finish ?_ rest)).trans ?_
      · simp only [List.length_cons, List.length_append]
        omega
      · simp only [Nat.add_comm 1, Nat.add_le_add_iff_right, List.tail_cons]

/-! ## Values of several forms -/

theorem bare {names : NameTable τ} {form : τ → Variant levels α} {t : τ} (shape : form t = .bare a) :
    Reads (Read.variant levels names form) levels (.text (names.name t)) a := by
  intro rest
  have known : (names.find? (names.name t)).map form = some (.bare a) := by
    rw [names.find?_name, Option.map_some, shape]
  simp only [tokens, textToken, List.singleton_append, Read.variant, known]
  rfl

theorem tagged {names : NameTable τ} {form : τ → Variant levels α} {t : τ}
    {read : (below : Nat) → below < levels → Read α} {j : Json} (shape : form t = .holds read)
    (reads : ∀ below inside, Reads (read below inside) below j a) :
    Reads (Read.variant levels names form) levels (tagged (names.name t) j) a := by
  intro rest
  cases levels with
  | zero =>
    rw [if_neg (by rw [Json.tagged, depth]; omega)]
    rfl
  | succ below =>
    have inside := Nat.lt_succ_self below
    have close : Gives (Read.close .curly) [.closing .curly] 0 below () := fun _ => rfl
    have payload : Gives (Read.payload below inside (form t)) j.tokens j.depth below a := by
      rw [shape]
      exact reads below inside
    have held : Gives (do
        let value ← Read.payload below inside (form t)
        Read.close .curly
        return value) (j.tokens ++ ([.closing .curly] ++ [])) (max j.depth (max 0 0)) below a :=
      payload.bind (close.bind (Gives.pure a))
    have tail : (Json.tagged (names.name t) j).tokens ++ rest = .opening .curly :: textToken (names.name t) ::
          .colon :: (j.tokens ++ ([.closing .curly] ++ []) ++ rest) := by
      simp only [Json.tagged, tokens, memberTokens, List.cons_append, List.append_assoc, List.nil_append]
    have need : (Json.tagged (names.name t) j).depth ≤ below + 1 ↔ max j.depth (max 0 0) ≤ below := by
      simp only [Json.tagged, depth, depthMembers]
      omega
    have given := held rest
    simp only [Read.bind_apply] at given
    simp only [tail, need, Read.variant, Read.descend, Read.bind_apply, Read.key, textToken,
      names.find?_name, Read.colon]
    exact given

end Reads

end MidIR.Json
