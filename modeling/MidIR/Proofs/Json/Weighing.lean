import Mathlib.Algebra.GroupWithZero.Nat
import MidIR.Place.Order
import MidIR.Proofs.Json.Scanning

/-!
# The weight of tokens

A token weighs one, and a text as many more as its UTF-8 form has bytes. The tokens of a text weigh no
more than it has bytes: an escape is never shorter than the character it stands for.
-/

namespace MidIR.Json

def Token.weight : Token → Nat
  | .text (.ok s) _ => (utf8 s).length + 1
  | _ => 1

def weight (tokens : List Token) : Nat := (tokens.map Token.weight).sum

def size (cs : List Char) : Nat := (cs.map Char.utf8Size).sum

theorem length_utf8 (s : String) : (utf8 s).length = size s.toList := by
  obtain ⟨cs, rfl⟩ : ∃ cs, String.ofList cs = s := ⟨s.toList, String.ofList_toList⟩
  rw [utf8, String.toByteArray_ofList, String.toList_ofList]
  simp [List.utf8Encode, size, List.length_flatMap]

@[simp]
theorem weight_nil : weight [] = 0 := rfl

@[simp]
theorem weight_cons (token : Token) (tokens : List Token) :
    weight (token :: tokens) = token.weight + weight tokens :=
  List.sum_cons

@[simp]
theorem size_nil : size [] = 0 := rfl

@[simp]
theorem size_cons (c : Char) (cs : List Char) : size (c :: cs) = c.utf8Size + size cs :=
  List.sum_cons

theorem size_le_of_suffix {rest cs : List Char} (suffix : rest <:+ cs) : size rest ≤ size cs := by
  obtain ⟨front, rfl⟩ := suffix
  simp [size]

/-! ## Quoted texts -/

theorem size_hexEscape {cs rest : List Char} {n : Nat} (read : hexEscape cs = .ok (n, rest)) :
    4 + size rest ≤ size cs := by
  unfold hexEscape at read
  split at read
  · rename_i a b c d behind
    have := a.utf8Size_pos
    have := b.utf8Size_pos
    have := c.utf8Size_pos
    have := d.utf8Size_pos
    split at read
    · cases read
      simp only [size_cons]
      omega
    · cases read
  · cases read

theorem numberedChar_cases {cs rest : List Char} {c : Char} (read : numberedChar cs = .ok (c, rest)) :
    (∃ n, hexEscape cs = .ok (n, rest)) ∨
      ∃ high low between, hexEscape cs = .ok (high, '\\' :: 'u' :: between) ∧
        hexEscape between = .ok (low, rest) := by
  obtain ⟨⟨n, behind⟩, first, read⟩ := bind_eq_ok.1 read
  dsimp only at read
  split at read
  · cases read
  split at read
  · split at read
    · obtain ⟨⟨low, after⟩, second, read⟩ := bind_eq_ok.1 read
      dsimp only at read
      split at read
      · simp only [Except.ok.injEq, Prod.mk.injEq] at read
        exact .inr ⟨n, low, _, first, read.2 ▸ second⟩
      · cases read
    all_goals cases read
  · simp only [Except.ok.injEq, Prod.mk.injEq] at read
    exact .inl ⟨n, read.2 ▸ first⟩

theorem size_escapedChar {cs rest : List Char} {c : Char} (read : escapedChar cs = .ok (c, rest)) :
    c.utf8Size + size rest ≤ 1 + size cs := by
  unfold escapedChar at read
  split at read
  · cases read
  · have := c.utf8Size_le_four
    rw [size_cons]
    rcases numberedChar_cases read with ⟨n, first⟩ | ⟨high, low, between, first, second⟩
    · have := size_hexEscape first
      omega
    · have := size_hexEscape first
      have := size_hexEscape second
      simp only [size_cons] at *
      omega
  · rename_i letter behind _
    split at read
    · rename_i char found
      cases read
      have := letter.utf8Size_pos
      have small : c.utf8Size = 1 := by
        unfold letteredChar? at found
        split at found
        · rename_i equal
          cases found
          rcases equal with rfl | rfl | rfl <;> rfl
        repeat' split at found
        all_goals cases found <;> rfl
      rw [size_cons]
      omega
    · cases read

theorem skipText_of_escapedChar {cs rest : List Char} {c : Char}
    (read : escapedChar cs = .ok (c, rest)) : skipText ('\\' :: cs) = skipText rest := by
  unfold escapedChar at read
  split at read
  · cases read
  · rename_i tail
    have skipped {cs rest : List Char} {n : Nat} (read : hexEscape cs = .ok (n, rest)) :
        skipText ('\\' :: 'u' :: cs) = skipText rest :=
      skipText_escape (by rw [skipEscape, read]; rfl)
    rcases numberedChar_cases read with ⟨n, first⟩ | ⟨high, low, between, first, second⟩
    · exact skipped first
    · rw [skipped first, skipped second]
  · rename_i letter behind other
    split at read
    · rename_i char found
      cases read
      apply skipText_escape
      unfold skipEscape
      split
      · rename_i equal
        cases equal
      · rename_i equal
        cases equal
        exact absurd rfl other
      · rename_i equal
        cases equal
        rw [found]
        rfl
    · cases read

theorem size_readText {cs rest s : List Char} (read : readText cs = .ok (s, rest)) :
    size s + 1 + size rest ≤ size cs ∧ skipText cs = .ok rest := by
  fun_induction readText cs generalizing s rest with
  | case1 => cases read
  | case2 tail =>
    cases read
    simp only [size_cons, size_nil, show ('"').utf8Size = 1 from rfl]
    refine ⟨by omega, ?_⟩
    rw [skipText.eq_def]
    rfl
  | case3 => cases read
  | case4 tail char behind escaped shorter ih =>
    obtain ⟨⟨text, after⟩, inner, equal⟩ := map_eq_ok.1 read
    cases equal
    obtain ⟨smaller, skipped⟩ := ih inner
    have := size_escapedChar escaped
    simp only [size_cons, show ('\\').utf8Size = 1 from rfl]
    refine ⟨by omega, ?_⟩
    rw [skipText_of_escapedChar escaped, skipped]
  | case5 => cases read
  | case6 c tail quote backslash printable ih =>
    obtain ⟨⟨text, after⟩, inner, equal⟩ := map_eq_ok.1 read
    cases equal
    obtain ⟨smaller, skipped⟩ := ih inner
    simp only [size_cons]
    refine ⟨by omega, ?_⟩
    rw [skipText_plain quote backslash (Nat.not_lt.1 printable), skipped]

theorem size_skipEscape {cs rest : List Char} (read : skipEscape cs = .ok rest) : size rest ≤ size cs := by
  unfold skipEscape at read
  split at read
  · cases read
  · obtain ⟨⟨n, behind⟩, first, rfl⟩ := map_eq_ok.1 read
    have : 4 + size behind ≤ _ := size_hexEscape first
    rw [size_cons]
    dsimp only
    omega
  · split at read
    · cases read
      exact Nat.le_add_left ..
    · cases read

theorem size_skipText {cs rest : List Char} (read : skipText cs = .ok rest) : size rest ≤ size cs := by
  fun_induction skipText cs with
  | case1 => cases read
  | case2 =>
    cases read
    exact Nat.le_add_left ..
  | case3 => cases read
  | case4 tail behind escaped shorter ih =>
    have := size_skipEscape escaped
    have := ih read
    rw [size_cons]
    omega
  | case5 => cases read
  | case6 c tail quote backslash printable ih =>
    have := ih read
    rw [size_cons]
    omega

/-! ## Numbers and words -/

theorem digits1_suffix {cs rest ds : List Char} (read : digits1 cs = .ok (ds, rest)) : rest <:+ cs := by
  unfold digits1 at read
  split at read
  · cases read
  · cases read
    exact List.dropWhile_suffix _

theorem readWhole_suffix {cs rest ds : List Char} (read : readWhole cs = .ok (ds, rest)) : rest <:+ cs := by
  obtain ⟨⟨digits, behind⟩, first, read⟩ := bind_eq_ok.1 read
  dsimp only at read
  split at read
  · cases read
  · cases read
    exact digits1_suffix first

theorem readFraction_suffix {cs rest : List Char} {ds : Option (List Char)}
    (read : readFraction cs = .ok (ds, rest)) : rest <:+ cs := by
  unfold readFraction at read
  split at read
  · obtain ⟨⟨digits, behind⟩, first, equal⟩ := map_eq_ok.1 read
    cases equal
    exact (digits1_suffix first).trans (List.suffix_cons ..)
  · cases read
    exact List.suffix_rfl

theorem readExponent_suffix {cs rest : List Char} {e : Option (Bool × List Char)}
    (read : readExponent cs = .ok (e, rest)) : rest <:+ cs := by
  have sign (cs : List Char) : (readExponentSign cs).2 <:+ cs := by
    unfold readExponentSign
    split
    · exact List.suffix_cons ..
    · exact List.suffix_cons ..
    · exact List.suffix_rfl
  unfold readExponent at read
  split at read
  · split at read
    · obtain ⟨⟨digits, behind⟩, first, equal⟩ := map_eq_ok.1 read
      cases equal
      exact ((digits1_suffix first).trans (sign _)).trans (List.suffix_cons ..)
    · cases read
      exact List.suffix_rfl
  · cases read
    exact List.suffix_rfl

theorem readNumeral_suffix {cs rest : List Char} {n : Numeral} (read : readNumeral cs = .ok (n, rest)) :
    rest <:+ cs := by
  have sign : (readSign cs).2 <:+ cs := by
    unfold readSign
    split
    · exact List.suffix_cons ..
    · exact List.suffix_rfl
  obtain ⟨⟨whole, behindWhole⟩, first, read⟩ := bind_eq_ok.1 read
  obtain ⟨⟨fraction, behindFraction⟩, second, read⟩ := bind_eq_ok.1 read
  obtain ⟨⟨exponent, behindExponent⟩, third, read⟩ := bind_eq_ok.1 read
  cases read
  exact (((readExponent_suffix third).trans (readFraction_suffix second)).trans
    (readWhole_suffix first)).trans sign

theorem afterWord_suffix {word cs rest : List Char} (read : afterWord word cs = .ok rest) : rest <:+ cs := by
  fun_induction afterWord word cs with
  | case1 =>
    cases read
    exact List.suffix_rfl
  | case2 => cases read
  | case3 _ _ _ ih => exact (ih read).trans (List.suffix_cons ..)
  | case4 => cases read

/-! ## Scanning -/

/-- A token and what is left behind it are no more than one byte and these characters. -/
def Fits (cs : List Char) (scanned : Token × List Char) : Prop :=
  scanned.1.weight + size scanned.2 ≤ 1 + size cs

theorem scanText_fits (cs : List Char) : Fits cs (scanText cs) := by
  unfold scanText Fits
  cases readable : readText cs with
  | error fault =>
    split
    · rename_i rest skipped
      have := size_skipText skipped
      simp only [Except.map, Token.weight]
      omega
    · exact Nat.le_add_right ..
  | ok found =>
    obtain ⟨s, rest⟩ := found
    obtain ⟨smaller, skipped⟩ := size_readText readable
    rw [skipped]
    simp only [Except.map, Token.weight, length_utf8, String.toList_ofList]
    omega

theorem scanNumber_fits (c : Char) (cs : List Char) : Fits cs (scanNumber (c :: cs)) := by
  unfold scanNumber Fits
  split
  · rename_i numeral rest read
    have shorter := readNumeral_length read
    rcases List.suffix_cons_iff.1 (readNumeral_suffix read) with rfl | suffix
    · exact absurd shorter (Nat.lt_irrefl _)
    · have := size_le_of_suffix suffix
      simp only [Token.weight]
      omega
  · exact Nat.le_add_right ..

theorem scanWord_fits (word : List Char) {token : Token} (light : token.weight = 1) (cs : List Char) :
    Fits cs (scanWord word token cs) := by
  unfold scanWord Fits
  split
  · rename_i rest read
    have := size_le_of_suffix (afterWord_suffix read)
    dsimp only
    omega
  · exact Nat.le_add_right ..

theorem scanToken_fits (c : Char) (cs : List Char) : Fits cs (scanToken c cs) := by
  have choice {p : Prop} [Decidable p] {a b : Token × List Char} (yes : Fits cs a) (no : Fits cs b) :
      Fits cs (if p then a else b) := by
    split <;> assumption
  have one {token : Token} (light : token.weight = 1) : Fits cs (token, cs) := by
    unfold Fits
    dsimp only
    omega
  unfold scanToken
  repeat' apply choice
  all_goals first
    | exact one rfl
    | exact scanText_fits cs
    | exact scanNumber_fits c cs
    | exact scanWord_fits _ rfl cs
    | exact Nat.le_add_right ..

theorem weight_scan (cs : List Char) : weight (scan cs) ≤ size cs := by
  fun_induction scan cs with
  | case1 => exact Nat.le_refl _
  | case2 c cs blank ih =>
    rw [size_cons]
    omega
  | case3 c cs visible ih =>
    have fits := scanToken_fits c cs
    have := c.utf8Size_pos
    unfold Fits at fits
    rw [weight_cons, size_cons]
    omega

end MidIR.Json
