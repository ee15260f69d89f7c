import MidIR.Json.Skip
import MidIR.NameTable

/-!
# Reading values from tokens

A read takes a value of one sort from the front of the tokens; the first fault from left to right
decides. Brackets may nest only so deep: a read is told how many may still be opened, its `levels`,
and one that opens a bracket hands on the levels below it.
-/

namespace MidIR.Json

abbrev Read := StateT (List Token) (Except Fault)

def maxLevels : Nat := 127

def Token.misfit : Token → Fault
  | .text (.error fault) _ | .number (.error fault) _ | .broken fault => fault
  | .closing _ | .comma | .colon => .malformed
  | _ => .mismatch

namespace Read

variable {α β : Type}

def fail (fault : Fault) : Read α := fun _ => .error fault

def misfit : Read α
  | [] => .error .truncated
  | token :: _ => .error token.misfit

/-! ## Scalars -/

def null : Read Unit
  | .null :: tokens => .ok ((), tokens)
  | tokens => misfit tokens

def bool : Read Bool
  | .bool b :: tokens => .ok (b, tokens)
  | tokens => misfit tokens

def text : Read String
  | .text (.ok s) _ :: tokens => .ok (s, tokens)
  | tokens => misfit tokens

def whole (least greatest : Int) : Read Int
  | .number (.ok (.whole n)) _ :: tokens =>
    if least ≤ n ∧ n ≤ greatest then .ok (n, tokens) else .error .mismatch
  | tokens => misfit tokens

def u8 : Read UInt8 := return (← whole 0 0xff).toNat.toUInt8

def u32 : Read UInt32 := return (← whole 0 0xffffffff).toNat.toUInt32

def u64 : Read UInt64 := return (← whole 0 0xffffffffffffffff).toNat.toUInt64

def i64 : Read Int64 := return (← whole (-0x8000000000000000) 0x7fffffffffffffff).toInt64

def option (read : Read α) : Read (Option α)
  | .null :: tokens => .ok (none, tokens)
  | tokens => (some <$> read) tokens

/-! ## Punctuation -/

def colon : Read Unit
  | .colon :: tokens => .ok ((), tokens)
  | [] => .error .truncated
  | _ => .error .malformed

def close (bracket : Bracket) : Read Unit
  | .closing b :: tokens => if b = bracket then .ok ((), tokens) else .error .malformed
  | [] => .error .truncated
  | _ => .error .malformed

def nextItem (first : Bool) : Read Bool
  | [] => .error .truncated
  | .closing .square :: tokens => .ok (false, tokens)
  | tokens =>
    if first then .ok (true, tokens)
    else
      match tokens with
      | [.comma] => .error .truncated
      | .comma :: .closing .square :: _ => .error .malformed
      | .comma :: tokens => .ok (true, tokens)
      | _ => .error .malformed

def key : Read String
  | .text (.ok s) _ :: tokens => .ok (s, tokens)
  | .text (.error fault) _ :: _ => .error fault
  | [] => .error .truncated
  | _ => .error .malformed

def nextKey (first : Bool) : Read (Option String)
  | .closing .curly :: tokens => .ok (none, tokens)
  | tokens =>
    if first then (some <$> key) tokens
    else
      match tokens with
      | .comma :: tokens => (some <$> key) tokens
      | [] => .error .truncated
      | _ => .error .malformed

def skip : Read Unit := fun tokens =>
  (Skip.run ⟨.value, []⟩ tokens).map fun rest => ((), rest)

def descend : (levels : Nat) → ((below : Nat) → below < levels → Read α) → Read α
  | 0, _ => fail .malformed
  | below + 1, read => read below (Nat.lt_succ_self below)

/-! ## Arrays -/

def items (read : Read α) : (bound : Nat) → (first : Bool) → Read (List α)
  | 0, _ => fail .truncated
  | bound + 1, first => do
    if ← nextItem first then return (← read) :: (← items read bound false) else return []

def list (levels : Nat) (item : (below : Nat) → below < levels → Read α) : Read (List α)
  | .opening .square :: tokens =>
    descend levels (fun below inside => items (item below inside) (tokens.length + 1) true) tokens
  | tokens => misfit tokens

/-! ## Objects with fixed fields -/

end Read

/-- The fields that make up a value. Until all of them are known their values wait in slots. -/
structure Fields (α : Type) where
  Slots : Type
  empty : Slots
  accept : String → Slots → Option (Read Slots)
  finish : Slots → Except Fault α
  inOrder : (first : Bool) → Read α

namespace Fields

variable {α β : Type}

/-- One field, with its value when it is absent, if it may be. It must not come twice. -/
def one (name : String) (read : Read α) (absent : Option α := none) : Fields α where
  Slots := Option α
  empty := none
  accept key slot :=
    if key = name then
      some (if slot.isSome then Read.fail .mismatch else do Read.colon; some <$> read)
    else none
  finish slot :=
    match slot <|> absent with
    | some value => .ok value
    | none => .error .mismatch
  inOrder first := do
    if ← Read.nextItem first then read else Read.fail .mismatch

def both (fields : Fields α) (others : Fields β) : Fields (α × β) where
  Slots := fields.Slots × others.Slots
  empty := (fields.empty, others.empty)
  accept key slots :=
    match fields.accept key slots.1 with
    | some read => some do return (← read, slots.2)
    | none =>
      match others.accept key slots.2 with
      | some read => some do return (slots.1, ← read)
      | none => none
  finish slots := do return (← fields.finish slots.1, ← others.finish slots.2)
  inOrder first := do return (← fields.inOrder first, ← others.inOrder false)

def map (f : α → β) (fields : Fields α) : Fields β where
  Slots := fields.Slots
  empty := fields.empty
  accept := fields.accept
  finish slots := f <$> fields.finish slots
  inOrder first := f <$> fields.inOrder first

def members (fields : Fields α) : (bound : Nat) → (first : Bool) → fields.Slots → Read α
  | 0, _, _ => Read.fail .truncated
  | bound + 1, first, slots => do
    match ← Read.nextKey first with
    | none => StateT.lift (fields.finish slots)
    | some key =>
      match fields.accept key slots with
      | some read => members fields bound false (← read)
      | none =>
        Read.colon
        Read.skip
        members fields bound false slots

end Fields

namespace Read

variable {α β : Type}

/-- A value made up of fields: an object that has them under their names, or an array that has them
in order. An object may have other members, which are passed over. -/
def record (levels : Nat) (fields : (below : Nat) → below < levels → Fields α) : Read α
  | .opening .square :: tokens =>
    descend levels (fun below inside => do
      let value ← (fields below inside).inOrder true
      close .square
      return value) tokens
  | .opening .curly :: tokens =>
    descend levels (fun below inside =>
      (fields below inside).members (tokens.length + 1) true (fields below inside).empty) tokens
  | tokens => misfit tokens

/-! ## Values of several forms -/

end Read

/-- How a form is read: it has nothing to it but its name, or it holds something. -/
inductive Variant (levels : Nat) (α : Type) where
  | bare (value : α)
  | holds (read : (below : Nat) → below < levels → Read α)

namespace Read

variable {α τ : Type}

def payload {levels : Nat} (below : Nat) (inside : below < levels) : Variant levels α → Read α
  | .bare value => do null; return value
  | .holds read => read below inside

/-- A value of one of several forms: the name alone of a bare form, or an object with the name as
its only key. -/
def variant (levels : Nat) (names : NameTable τ) (form : τ → Variant levels α) : Read α
  | .text (.ok name) _ :: tokens =>
    match (names.find? name).map form with
    | some (.bare value) => .ok (value, tokens)
    | _ => .error .mismatch
  | .text (.error fault) _ :: _ => .error fault
  | .opening .curly :: tokens =>
    descend levels (fun below inside => do
      -- A key without quotes is malformed: it is no JSON, whatever value is wanted.
      match names.find? (← key) with
      | none => fail .mismatch
      | some t =>
        colon
        let value ← payload below inside (form t)
        close .curly
        return value) tokens
  | [] => .error .truncated
  | _ => .error .malformed

end Read

def ofText {α : Type} (read : (levels : Nat) → Read α) (text : String) (levels : Nat := maxLevels) :
    Except Fault α :=
  match read levels (scan text.toList) with
  | .error fault => .error fault
  | .ok (value, []) => .ok value
  | .ok (_, _ :: _) => .error .malformed

end MidIR.Json
