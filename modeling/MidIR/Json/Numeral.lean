import MidIR.Json.Quoted

namespace MidIR.Json

/-- The value of a written number: one beyond 64 bits, or not written as a whole number, is inexact. -/
inductive Number
  | whole (value : Int)
  | inexact
  deriving DecidableEq, Repr

structure Numeral where
  negative : Bool
  whole : List Char
  fraction : Option (List Char) := none
  /-- The sign of the exponent, `true` when negative, and its digits. -/
  exponent : Option (Bool × List Char) := none

def missingDigit (rest : List Char) : Fault :=
  if rest.isEmpty then .truncated else .malformed

def digits1 (cs : List Char) : Except Fault (List Char × List Char) :=
  if (cs.takeWhile Char.isDigit).isEmpty then .error (missingDigit cs)
  else .ok (cs.takeWhile Char.isDigit, cs.dropWhile Char.isDigit)

def readWhole (cs : List Char) : Except Fault (List Char × List Char) := do
  let (digits, rest) ← digits1 cs
  if digits.head? = some '0' ∧ digits.length ≠ 1 then .error .malformed else .ok (digits, rest)

def readFraction : List Char → Except Fault (Option (List Char) × List Char)
  | '.' :: rest => (digits1 rest).map fun (digits, rest) => (some digits, rest)
  | rest => .ok (none, rest)

def readExponentSign : List Char → Bool × List Char
  | '-' :: rest => (true, rest)
  | '+' :: rest => (false, rest)
  | rest => (false, rest)

def readExponent : List Char → Except Fault (Option (Bool × List Char) × List Char)
  | c :: rest =>
    if c = 'e' ∨ c = 'E' then
      let (negative, rest) := readExponentSign rest
      (digits1 rest).map fun (digits, rest) => (some (negative, digits), rest)
    else .ok (none, c :: rest)
  | [] => .ok (none, [])

def readSign : List Char → Bool × List Char
  | '-' :: rest => (true, rest)
  | rest => (false, rest)

def readNumeral (cs : List Char) : Except Fault (Numeral × List Char) := do
  let (negative, rest) := readSign cs
  let (whole, rest) ← readWhole rest
  let (fraction, rest) ← readFraction rest
  let (exponent, rest) ← readExponent rest
  return ({ negative, whole, fraction, exponent }, rest)

theorem digits1_length {cs rest ds : List Char} (read : digits1 cs = .ok (ds, rest)) :
    rest.length < cs.length := by
  unfold digits1 at read
  split at read
  · simp at read
  · rename_i some_digit
    simp only [Except.ok.injEq, Prod.mk.injEq] at read
    have whole := congrArg List.length (@List.takeWhile_append_dropWhile _ Char.isDigit cs)
    rw [List.length_append] at whole
    have : (cs.takeWhile Char.isDigit).length ≠ 0 := by simpa using some_digit
    rw [← read.2]
    omega

theorem readWhole_length {cs rest ds : List Char} (read : readWhole cs = .ok (ds, rest)) :
    rest.length < cs.length := by
  obtain ⟨⟨digits, behind⟩, first, read⟩ := bind_eq_ok.1 read
  have := digits1_length first
  dsimp only at read
  split at read <;> simp_all

theorem readFraction_length {cs rest : List Char} {ds : Option (List Char)}
    (read : readFraction cs = .ok (ds, rest)) : rest.length ≤ cs.length := by
  unfold readFraction at read
  split at read
  · obtain ⟨⟨digits, behind⟩, first, read⟩ := map_eq_ok.1 read
    have := digits1_length first
    simp only [Prod.mk.injEq] at read
    simp only [List.length_cons, ← read.2]
    omega
  · simp_all

theorem readExponentSign_length (cs : List Char) : (readExponentSign cs).2.length ≤ cs.length := by
  unfold readExponentSign
  split <;> simp

theorem readExponent_length {cs rest : List Char} {e : Option (Bool × List Char)}
    (read : readExponent cs = .ok (e, rest)) : rest.length ≤ cs.length := by
  unfold readExponent at read
  split at read
  · rename_i c tail
    split at read
    · obtain ⟨⟨digits, behind⟩, first, read⟩ := map_eq_ok.1 read
      have : behind.length < (readExponentSign tail).2.length := digits1_length first
      have := readExponentSign_length tail
      simp only [Prod.mk.injEq] at read
      simp only [List.length_cons, ← read.2]
      omega
    · simp_all
  · simp_all

theorem readNumeral_length {cs rest : List Char} {n : Numeral}
    (read : readNumeral cs = .ok (n, rest)) : rest.length < cs.length := by
  have sign : (readSign cs).2.length ≤ cs.length := by
    unfold readSign
    split <;> simp
  obtain ⟨⟨whole, behind₁⟩, first, read⟩ := bind_eq_ok.1 read
  obtain ⟨⟨fraction, behind₂⟩, second, read⟩ := bind_eq_ok.1 read
  obtain ⟨⟨exponent, behind₃⟩, third, read⟩ := bind_eq_ok.1 read
  have : behind₁.length < (readSign cs).2.length := readWhole_length first
  have := readFraction_length second
  have := readExponent_length third
  simp only [pure, Except.pure, Except.ok.injEq, Prod.mk.injEq] at read
  rw [← read.2]
  omega

/-- A natural number to the nearest one with 53 binary digits before its zeros, a tie to even. -/
def nearestDouble (n : Nat) : Nat :=
  let unit := 1 <<< (n.log2 - 52)
  let below := n / unit
  let up := unit < 2 * (n % unit) || (unit = 2 * (n % unit) && below % 2 = 1)
  (if up then below + 1 else below) * unit

def takeDigits : Nat → List Char → Nat × Nat
  | n, [] => (n, 0)
  | n, c :: cs =>
    let next := n * 10 + (c.toNat - 48)
    if next ≤ 0xffffffffffffffff then takeDigits next cs else (n, cs.length + 1)

namespace Numeral

/-- The number as at most 64 bits times a power of ten: digits that do not fit are dropped. -/
def scaled (n : Numeral) : Nat × Int :=
  let (value, dropped) := takeDigits 0 n.whole
  let fraction := n.fraction.getD []
  let (value, left) := takeDigits value fraction
  let exponent : Int :=
    match n.exponent with
    | none => 0
    | some (negative, digits) =>
      let e : Int := digits.foldl (fun e c => e * 10 + (c.toNat - 48)) 0
      if negative then -e else e
  (value, dropped - (fraction.length - left) + exponent)

/-- Whether the number rounds to more than the largest double: it is taken as the product of two
doubles, and no double reaches `2 ^ 1024`. -/
def exceedsDouble (n : Numeral) : Bool :=
  let (value, exponent) := n.scaled
  value ≠ 0 && 0 ≤ exponent && (308 < exponent
    || 1 <<< 1024 - 1 <<< 970 ≤ nearestDouble value * nearestDouble (Nat.pow 10 exponent.toNat))

def value (n : Numeral) : Except Fault Number :=
  let (whole, dropped) := takeDigits 0 n.whole
  if n.fraction.isNone ∧ n.exponent.isNone ∧ dropped = 0 ∧ ¬ n.negative then .ok (.whole whole)
  else if n.fraction.isNone ∧ n.exponent.isNone ∧ dropped = 0 ∧ 0 < whole ∧ whole ≤ 0x8000000000000000 then
    .ok (.whole (-whole))
  else if n.exceedsDouble then .error .malformed
  else .ok .inexact

end Numeral

end MidIR.Json
