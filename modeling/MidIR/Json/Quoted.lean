import MidIR.ExceptLaws

namespace MidIR.Json

inductive Fault
  /-- The text is not JSON, nests too deep, or holds a number too large to be read. -/
  | malformed
  | truncated
  /-- The text does not fit the value that is wanted. -/
  | mismatch
  deriving DecidableEq, Repr

def hexDigit? (c : Char) : Option Nat :=
  if '0' ≤ c ∧ c ≤ '9' then some (c.toNat - 48)
  else if 'a' ≤ c ∧ c ≤ 'f' then some (c.toNat - 87)
  else if 'A' ≤ c ∧ c ≤ 'F' then some (c.toNat - 55)
  else none

def hexNumber? (a b c d : Char) : Option Nat := do
  return (((← hexDigit? a) * 16 + (← hexDigit? b)) * 16 + (← hexDigit? c)) * 16 + (← hexDigit? d)

/-- Four hexadecimal digits. A text is too short for them if less than four bytes of it are left. -/
def hexEscape : List Char → Except Fault (Nat × List Char)
  | a :: b :: c :: d :: rest =>
    match hexNumber? a b c d with
    | some n => .ok (n, rest)
    | none => .error .malformed
  | short => .error (if (short.flatMap String.utf8EncodeChar).length < 4 then .truncated else .malformed)

def isHighSurrogate (n : Nat) : Bool := 0xd800 ≤ n && n ≤ 0xdbff

def isLowSurrogate (n : Nat) : Bool := 0xdc00 ≤ n && n ≤ 0xdfff

/-- The character of an escape by number. Two surrogates make one character and stand together. -/
def numberedChar (cs : List Char) : Except Fault (Char × List Char) := do
  let (n, rest) ← hexEscape cs
  if isLowSurrogate n then .error .malformed
  else if isHighSurrogate n then
    match rest with
    | '\\' :: 'u' :: rest => do
      let (low, rest) ← hexEscape rest
      if isLowSurrogate low then
        .ok (Char.ofNat (0x10000 + (n - 0xd800) * 0x400 + (low - 0xdc00)), rest)
      else .error .malformed
    | [] | ['\\'] => .error .truncated
    | _ => .error .malformed
  else .ok (Char.ofNat n, rest)

def letteredChar? (c : Char) : Option Char :=
  if c = '"' ∨ c = '\\' ∨ c = '/' then some c
  else if c = 'b' then some (Char.ofNat 8)
  else if c = 'f' then some (Char.ofNat 12)
  else if c = 'n' then some '\n'
  else if c = 'r' then some '\r'
  else if c = 't' then some '\t'
  else none

def escapedChar : List Char → Except Fault (Char × List Char)
  | [] => .error .truncated
  | 'u' :: rest => numberedChar rest
  | c :: rest =>
    match letteredChar? c with
    | some char => .ok (char, rest)
    | none => .error .malformed

/-- Skips an escape. A surrogate may stand alone here. -/
def skipEscape : List Char → Except Fault (List Char)
  | [] => .error .truncated
  | 'u' :: rest => (hexEscape rest).map (·.2)
  | c :: rest => if (letteredChar? c).isSome then .ok rest else .error .malformed

theorem hexEscape_length {cs rest : List Char} {n : Nat} (read : hexEscape cs = .ok (n, rest)) :
    rest.length < cs.length := by
  unfold hexEscape at read
  split at read
  · split at read <;> simp_all
    omega
  · simp at read

theorem numberedChar_length {cs rest : List Char} {c : Char}
    (read : numberedChar cs = .ok (c, rest)) : rest.length < cs.length := by
  obtain ⟨⟨n, behind⟩, first, read⟩ := bind_eq_ok.1 read
  have shorter := hexEscape_length first
  dsimp only at read
  split at read
  · simp at read
  split at read
  · split at read
    · obtain ⟨⟨low, behind⟩, second, read⟩ := bind_eq_ok.1 read
      have := hexEscape_length second
      dsimp only at read
      simp only [List.length_cons] at shorter
      split at read
      · simp only [Except.ok.injEq, Prod.mk.injEq] at read
        rw [← read.2]
        omega
      · simp at read
    all_goals simp at read
  · simp only [Except.ok.injEq, Prod.mk.injEq] at read
    rw [← read.2]
    exact shorter

theorem escapedChar_length {cs rest : List Char} {c : Char}
    (read : escapedChar cs = .ok (c, rest)) : rest.length < cs.length := by
  unfold escapedChar at read
  split at read
  · simp at read
  · have := numberedChar_length read
    simp only [List.length_cons]
    omega
  · split at read <;> simp_all

theorem skipEscape_length {cs rest : List Char} (read : skipEscape cs = .ok rest) :
    rest.length < cs.length := by
  unfold skipEscape at read
  split at read
  · simp at read
  · obtain ⟨⟨n, behind⟩, first, rfl⟩ := map_eq_ok.1 read
    have := hexEscape_length first
    simp only [List.length_cons]
    omega
  · split at read <;> simp_all

def readText (cs : List Char) : Except Fault (List Char × List Char) :=
  match cs with
  | [] => .error .truncated
  | '"' :: rest => .ok ([], rest)
  | '\\' :: rest =>
    match read : escapedChar rest with
    | .error fault => .error fault
    | .ok (c, rest') =>
      have := escapedChar_length read
      (readText rest').map fun (text, rest) => (c :: text, rest)
  | c :: rest =>
    if c.toNat < 32 then .error .malformed
    else (readText rest).map fun (text, rest) => (c :: text, rest)
termination_by cs.length
decreasing_by all_goals grind

def skipText (cs : List Char) : Except Fault (List Char) :=
  match cs with
  | [] => .error .truncated
  | '"' :: rest => .ok rest
  | '\\' :: rest =>
    match read : skipEscape rest with
    | .error fault => .error fault
    | .ok rest' =>
      have := skipEscape_length read
      skipText rest'
  | c :: rest => if c.toNat < 32 then .error .malformed else skipText rest
termination_by cs.length
decreasing_by all_goals grind

theorem skipText_length {cs rest : List Char} (read : skipText cs = .ok rest) :
    rest.length < cs.length := by
  fun_induction skipText cs with
  | case1 => simp at read
  | case2 => simp_all
  | case3 => simp at read
  | case4 tail behind _ shorter ih =>
    have := ih read
    simp only [List.length_cons]
    omega
  | case5 => simp at read
  | case6 _ _ _ _ _ ih =>
    have := ih read
    simp only [List.length_cons]
    omega

end MidIR.Json
