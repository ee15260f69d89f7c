import MidIR.Json.Quoted
import MidIR.Proofs.Text.Telling
import MidIR.Text.Plain

namespace MidIR.Text

theorem digitChar_inj : ∀ m < 16, ∀ n < 16, Nat.digitChar m = Nat.digitChar n → m = n := by decide

theorem isNameChar_digitChar : ∀ n < 16, isNameChar (Nat.digitChar n) := by decide

theorem toDigits_inj {m n : Nat} (equal : Nat.toDigits 16 m = Nat.toDigits 16 n) : m = n := by
  induction m using Nat.strongRecOn generalizing n with
  | ind m ih =>
    rw [Nat.toDigits_eq_if (n := m) (by decide), Nat.toDigits_eq_if (n := n) (by decide)] at equal
    have last (k : Nat) : k % 16 < 16 := Nat.mod_lt _ (by decide)
    split at equal <;> split at equal
    case isTrue.isTrue small small' => exact digitChar_inj m small n small' (by simpa using equal)
    case isTrue.isFalse =>
      obtain ⟨impossible, -⟩ := List.append_inj' (show [] ++ [_] = _ from equal) rfl
      exact absurd impossible.symm Nat.toDigits_ne_nil
    case isFalse.isTrue =>
      obtain ⟨impossible, -⟩ := List.append_inj' (show _ = [] ++ [_] from equal) rfl
      exact absurd impossible Nat.toDigits_ne_nil
    case isFalse.isFalse large large' =>
      obtain ⟨front, back⟩ := List.append_inj' equal rfl
      have front := ih (m / 16) (by omega) front
      have back := digitChar_inj _ (last m) _ (last n) (by simpa using back)
      rw [← Nat.div_add_mod m 16, ← Nat.div_add_mod n 16, front, back]

theorem exists_digit_of_mem_hex {n : Nat} : ∀ c ∈ (hex n).toList, ∃ d < 16, c = Nat.digitChar d := by
  induction n using Nat.strongRecOn with
  | ind n ih =>
    rw [hex, String.toList_ofList, Nat.toDigits_eq_if (by decide)]
    split
    case isTrue small => exact fun c member => ⟨n, small, List.mem_singleton.1 member⟩
    case isFalse large =>
      intro c member
      rcases List.mem_append.1 member with member | member
      · exact ih (n / 16) (by omega) c (by simpa [hex] using member)
      · exact ⟨n % 16, Nat.mod_lt _ (by decide), List.mem_singleton.1 member⟩

theorem isNameChar_of_mem_hex {n : Nat} : ∀ c ∈ (hex n).toList, isNameChar c := by
  intro c member
  obtain ⟨d, small, rfl⟩ := exists_digit_of_mem_hex c member
  exact isNameChar_digitChar d small

theorem hex_ne_empty {n : Nat} : hex n ≠ "" := by
  intro empty
  exact Nat.toDigits_ne_nil (String.ofList_eq_empty_iff.1 empty)

theorem hex_tells (m n : Nat) : TellsBefore (Halts isNameChar) (hex m) (hex n) (m = n) := by
  apply (TellsBefore.run isNameChar_of_mem_hex isNameChar_of_mem_hex).imp
  intro equal
  exact toDigits_inj (String.ofList_injective equal)

/-! ## The ways to write a byte -/

/-- Printable ASCII. -/
def IsPrintable (c : Char) : Prop := 0x20 ≤ c.toNat ∧ c.toNat ≤ 0x7e

instance : DecidablePred IsPrintable := fun _ => inferInstanceAs (Decidable (_ ∧ _))

theorem toNat_ofNat {n : Nat} (small : n ≤ 0x7e) : (Char.ofNat n).toNat = n := by
  have valid : n.isValidChar := .inl (by omega)
  rw [Char.ofNat, dif_pos valid]
  rfl

def shortByte : Char → UInt8
  | '"' => 0x22
  | '\\' => 0x5c
  | _ => 0x0a

/-- These characters write this byte. -/
inductive Writes : UInt8 → List Char → Prop
  | short {c : Char} (letter : c = '"' ∨ c = '\\' ∨ c = 'n') : Writes (shortByte c) ['\\', c]
  | plain {byte : UInt8} {c : Char} (number : c.toNat = byte.toNat) (printable : IsPrintable c)
      (notQuote : c ≠ '"') (notBackslash : c ≠ '\\') : Writes byte [c]
  | numbered (byte : UInt8) :
      Writes byte ('\\' :: 'u' :: '\x7b' :: (hex byte.toNat).toList ++ ['\x7d'])

theorem writes_escapeByte (byte : UInt8) : Writes byte (escapeByte byte).toList := by
  unfold escapeByte
  split_ifs with quote backslash lineEnd printable
  · exact quote ▸ .short (.inl rfl)
  · exact backslash ▸ .short (.inr (.inl rfl))
  · exact lineEnd ▸ .short (.inr (.inr rfl))
  · have small := UInt8.le_iff_toNat_le.1 printable.2
    have number : (Char.ofNat byte.toNat).toNat = byte.toNat := toNat_ofNat small
    have other {c : Char} (differs : byte.toNat ≠ c.toNat) : Char.ofNat byte.toNat ≠ c := by
      rintro rfl
      exact differs number.symm
    rw [String.toList_singleton]
    refine .plain number ?_ (other fun equal => quote ?_) (other fun equal => backslash ?_)
    · rw [IsPrintable, number]
      exact ⟨UInt8.le_iff_toNat_le.1 printable.1, small⟩
    · exact UInt8.toNat_inj.1 equal
    · exact UInt8.toNat_inj.1 equal
  · simpa using Writes.numbered byte

theorem toList_escaped (text : String) :
    (escaped text).toList = '"' :: ((escapeBytes (utf8 text)).toList ++ ['"']) := by
  simp [escaped]

/-! ## Reading back -/

/-- What is read next: bytes, or the rest of an escape. -/
inductive Reading
  | bytes
  | escape
  | opening
  | number (value : Nat)

def push (byte : UInt8) : Option (List UInt8 × List Char) → Option (List UInt8 × List Char) :=
  Option.map fun (bytes, rest) => (byte :: bytes, rest)

def unescape : Reading → List Char → Option (List UInt8 × List Char)
  | _, [] => none
  | .bytes, c :: cs =>
    if c = '"' then some ([], cs)
    else if c = '\\' then unescape .escape cs
    else push c.toNat.toUInt8 (unescape .bytes cs)
  | .escape, c :: cs =>
    if c = '"' ∨ c = '\\' ∨ c = 'n' then push (shortByte c) (unescape .bytes cs)
    else if c = 'u' then unescape .opening cs
    else none
  | .opening, c :: cs => if c = '\x7b' then unescape (.number 0) cs else none
  | .number value, c :: cs =>
    if c = '\x7d' then push value.toUInt8 (unescape .bytes cs)
    else (Json.hexDigit? c).bind fun digit => unescape (.number (16 * value + digit)) cs

/-- The bytes of an escaped text, and what stands behind it. -/
def readEscaped (text : String) : Option (List UInt8 × String) :=
  match text.toList with
  | '"' :: cs => (unescape .bytes cs).map fun (bytes, rest) => (bytes, String.ofList rest)
  | _ => none

theorem hexDigit?_digitChar : ∀ n < 16,
    Nat.digitChar n ≠ '\x7d' ∧ Json.hexDigit? (Nat.digitChar n) = some n := by decide

theorem unescape_digit {n : Nat} (small : n < 16) (value : Nat) (cs : List Char) :
    unescape (.number value) (Nat.digitChar n :: cs) = unescape (.number (16 * value + n)) cs := by
  obtain ⟨other, digit⟩ := hexDigit?_digitChar n small
  rw [unescape, if_neg other, digit, Option.bind_some]

theorem unescape_hex (n : Nat) (cs : List Char) :
    unescape (.number 0) ((hex n).toList ++ cs) = unescape (.number n) cs := by
  rw [hex, String.toList_ofList]
  induction n using Nat.strongRecOn generalizing cs with
  | ind n ih =>
    rw [Nat.toDigits_eq_if (by decide)]
    split
    case isTrue small =>
      rw [List.singleton_append, unescape_digit small, Nat.mul_zero, Nat.zero_add]
    case isFalse large =>
      rw [List.append_assoc, ih (n / 16) (by omega), List.singleton_append,
        unescape_digit (Nat.mod_lt _ (by decide)), Nat.div_add_mod]

theorem Writes.unescape {byte : UInt8} {cs : List Char} (writes : Writes byte cs) (rest : List Char) :
    unescape .bytes (cs ++ rest) = push byte (Text.unescape .bytes rest) := by
  cases writes with
  | short letter => simp [Text.unescape, letter]
  | plain number printable notQuote notBackslash =>
    simp [Text.unescape, notQuote, notBackslash, number]
  | numbered byte => simp [Text.unescape, unescape_hex]

theorem unescape_escapeBytes (bytes : List UInt8) (rest : List Char) :
    unescape .bytes ((escapeBytes bytes).toList ++ '"' :: rest) = some (bytes, rest) := by
  induction bytes with
  | nil => rfl
  | cons byte bytes ih =>
    rw [escapeBytes, String.toList_append, List.append_assoc, (writes_escapeByte byte).unescape, ih]
    rfl

theorem readEscaped_escaped (text rest : String) :
    readEscaped (escaped text ++ rest) = some (utf8 text, rest) := by
  have read := unescape_escapeBytes (utf8 text) rest.toList
  simp [readEscaped, toList_escaped, read]

theorem escaped_tells {Next : String → Prop} (text other : String) :
    TellsBefore Next (escaped text) (escaped other) (text = other) := by
  intro s t _ _ equal
  have read : some (utf8 text, s) = some (utf8 other, t) := by
    rw [← readEscaped_escaped, equal, readEscaped_escaped]
  obtain ⟨bytes, rfl⟩ := Prod.mk.inj (Option.some.inj read)
  exact ⟨utf8_injective bytes, rfl⟩

end MidIR.Text
