import MidIR.Json.Token
import MidIR.Json.Value

namespace MidIR.Json

/-! ## Texts -/

theorem readText_escape {cs rest : List Char} {c : Char} (read : escapedChar cs = .ok (c, rest)) :
    readText ('\\' :: cs) = (readText rest).map fun (s, rest) => (c :: s, rest) := by
  rw [readText.eq_def]
  simp only
  split
  · rename_i failed
    rw [read] at failed
    cases failed
  · rename_i found
    rw [read] at found
    cases found
    rfl

theorem readText_plain {c : Char} (quote : c ≠ '"') (backslash : c ≠ '\\') (printable : 32 ≤ c.toNat)
    (cs : List Char) : readText (c :: cs) = (readText cs).map fun (s, rest) => (c :: s, rest) := by
  rw [readText.eq_def]
  split
  · rename_i empty
    cases empty
  · rename_i equal
    exact absurd (List.cons.inj equal).1 quote
  · rename_i equal
    exact absurd (List.cons.inj equal).1 backslash
  · rename_i equal
    obtain ⟨rfl, rfl⟩ := List.cons.inj equal
    rw [if_neg (Nat.not_lt.2 printable)]

theorem skipText_escape {cs rest : List Char} (read : skipEscape cs = .ok rest) :
    skipText ('\\' :: cs) = skipText rest := by
  rw [skipText.eq_def]
  simp only
  split
  · rename_i failed
    rw [read] at failed
    cases failed
  · rename_i found
    rw [read] at found
    cases found
    rfl

theorem skipText_plain {c : Char} (quote : c ≠ '"') (backslash : c ≠ '\\') (printable : 32 ≤ c.toNat)
    (cs : List Char) : skipText (c :: cs) = skipText cs := by
  rw [skipText.eq_def]
  split
  · rename_i empty
    cases empty
  · rename_i equal
    exact absurd (List.cons.inj equal).1 quote
  · rename_i equal
    exact absurd (List.cons.inj equal).1 backslash
  · rename_i equal
    obtain ⟨rfl, rfl⟩ := List.cons.inj equal
    rw [if_neg (Nat.not_lt.2 printable)]

theorem hexEscape_hexPair {n : Nat} (small : n < 32) (rest : List Char) :
    hexEscape ('0' :: '0' :: (hexPair n ++ rest)) = .ok (n, rest) := by
  have found : ∀ n < 32, hexNumber? '0' '0' (Nat.digitChar (n / 16)) (Nat.digitChar (n % 16)) = some n := by
    decide
  simp only [hexPair, hexEscape, List.cons_append, List.nil_append, found n small]

theorem ofNat_eq_of_toNat {c : Char} {n : Nat} (equal : c.toNat = n) : Char.ofNat n = c := by
  rw [← equal, Char.ofNat_toNat]

theorem escapeChar_cases (c : Char) :
    (escapeChar c = [c] ∧ c ≠ '"' ∧ c ≠ '\\' ∧ 32 ≤ c.toNat) ∨
    ∃ escape, escapeChar c = '\\' :: escape ∧ ∀ rest,
      escapedChar (escape ++ rest) = .ok (c, rest) ∧ skipEscape (escape ++ rest) = .ok rest := by
  unfold escapeChar
  split
  · rename_i equal
    subst equal
    exact .inr ⟨['"'], rfl, fun rest => ⟨rfl, rfl⟩⟩
  split
  · rename_i equal
    subst equal
    exact .inr ⟨['\\'], rfl, fun rest => ⟨rfl, rfl⟩⟩
  split
  · rename_i equal
    subst equal
    exact .inr ⟨['n'], rfl, fun rest => ⟨rfl, rfl⟩⟩
  split
  · rename_i equal
    subst equal
    exact .inr ⟨['r'], rfl, fun rest => ⟨rfl, rfl⟩⟩
  split
  · rename_i equal
    subst equal
    exact .inr ⟨['t'], rfl, fun rest => ⟨rfl, rfl⟩⟩
  split
  · rename_i equal
    rw [← ofNat_eq_of_toNat equal]
    exact .inr ⟨['b'], rfl, fun rest => ⟨rfl, rfl⟩⟩
  split
  · rename_i equal
    rw [← ofNat_eq_of_toNat equal]
    exact .inr ⟨['f'], rfl, fun rest => ⟨rfl, rfl⟩⟩
  split
  · rename_i small
    refine .inr ⟨'u' :: '0' :: '0' :: hexPair c.toNat, rfl, fun rest => ?_⟩
    have number := hexEscape_hexPair small rest
    constructor
    · change numberedChar ('0' :: '0' :: (hexPair c.toNat ++ rest)) = _
      have low : isLowSurrogate c.toNat = false := by
        simp only [isLowSurrogate, Bool.and_eq_false_iff, decide_eq_false_iff_not]
        omega
      have high : isHighSurrogate c.toNat = false := by
        simp only [isHighSurrogate, Bool.and_eq_false_iff, decide_eq_false_iff_not]
        omega
      simp only [numberedChar, number, bind, Except.bind, low, high, Char.ofNat_toNat]
      rfl
    · change (hexEscape ('0' :: '0' :: (hexPair c.toNat ++ rest))).map _ = _
      rw [number]
      rfl
  · exact .inl ⟨rfl, ‹_›, ‹_›, by omega⟩

theorem readText_escapeChar (c : Char) (cs : List Char) :
    readText (escapeChar c ++ cs) = (readText cs).map fun (s, rest) => (c :: s, rest) := by
  rcases escapeChar_cases c with ⟨plain, quote, backslash, printable⟩ | ⟨escape, escaped, read⟩
  · rw [plain]
    exact readText_plain quote backslash printable cs
  · rw [escaped]
    exact readText_escape (read cs).1

theorem skipText_escapeChar (c : Char) (cs : List Char) : skipText (escapeChar c ++ cs) = skipText cs := by
  rcases escapeChar_cases c with ⟨plain, quote, backslash, printable⟩ | ⟨escape, escaped, read⟩
  · rw [plain]
    exact skipText_plain quote backslash printable cs
  · rw [escaped]
    exact skipText_escape (read cs).2

theorem readText_escaped (s rest : List Char) :
    readText (s.flatMap escapeChar ++ '"' :: rest) = .ok (s, rest) := by
  induction s with
  | nil =>
    rw [List.flatMap_nil, List.nil_append, readText.eq_def]
    rfl
  | cons c s ih =>
    rw [List.flatMap_cons, List.append_assoc, readText_escapeChar, ih]
    rfl

theorem skipText_escaped (s rest : List Char) :
    skipText (s.flatMap escapeChar ++ '"' :: rest) = .ok rest := by
  induction s with
  | nil =>
    rw [List.flatMap_nil, List.nil_append, skipText.eq_def]
    rfl
  | cons c s ih =>
    rw [List.flatMap_cons, List.append_assoc, skipText_escapeChar, ih]

/-! ## Numbers -/

def Ends (rest : List Char) : Prop :=
  ∀ c, rest.head? = some c → ¬ c.isDigit ∧ c ≠ '.' ∧ c ≠ 'e' ∧ c ≠ 'E'

theorem digits1_append {digits rest : List Char} (all : ∀ c ∈ digits, c.isDigit) (some : digits ≠ [])
    (ends : Ends rest) : digits1 (digits ++ rest) = .ok (digits, rest) := by
  have stop : rest.takeWhile Char.isDigit = [] ∧ rest.dropWhile Char.isDigit = rest := by
    cases rest with
    | nil => exact ⟨rfl, rfl⟩
    | cons c rest =>
      have := (ends c rfl).1
      simp [this]
  unfold digits1
  rw [List.takeWhile_append_of_pos all, List.dropWhile_append_of_pos all, stop.1, stop.2,
    List.append_nil, if_neg (by simpa using some)]

theorem readFraction_ends {rest : List Char} (ends : Ends rest) : readFraction rest = .ok (none, rest) := by
  unfold readFraction
  split
  · exact absurd rfl (ends '.' rfl).2.1
  · rfl

theorem readExponent_ends {rest : List Char} (ends : Ends rest) : readExponent rest = .ok (none, rest) := by
  cases rest with
  | nil => rfl
  | cons c rest =>
    obtain ⟨_, _, small, capital⟩ := ends c rfl
    exact if_neg fun mark => mark.elim small capital

theorem isDigit_of_mem_digits {n : Nat} {c : Char} (member : c ∈ Nat.toDigits 10 n) : c.isDigit :=
  Nat.isDigit_of_mem_toDigits (by decide) (by decide) member

theorem head?_digits {n : Nat} (positive : 0 < n) : (Nat.toDigits 10 n).head? ≠ some '0' := by
  induction n using Nat.strongRecOn with
  | ind n ih =>
    rw [Nat.toDigits_eq_if (by decide)]
    split
    · rename_i small
      have nonzero : ∀ n < 10, 0 < n → Nat.digitChar n ≠ '0' := by decide
      intro zero
      exact nonzero n small positive (Option.some.inj zero)
    · have smaller := ih (n / 10) (by omega) (by omega)
      rw [List.head?_append]
      cases digits : Nat.toDigits 10 (n / 10) with
      | nil => exact absurd digits Nat.toDigits_ne_nil
      | cons c cs => rwa [digits] at smaller

theorem readWhole_digits (n : Nat) {rest : List Char} (ends : Ends rest) :
    readWhole (Nat.toDigits 10 n ++ rest) = .ok (Nat.toDigits 10 n, rest) := by
  have digits : digits1 (Nat.toDigits 10 n ++ rest) = .ok (Nat.toDigits 10 n, rest) :=
    digits1_append (fun c => isDigit_of_mem_digits) Nat.toDigits_ne_nil ends
  have zero : ¬ ((Nat.toDigits 10 n).head? = some '0' ∧ (Nat.toDigits 10 n).length ≠ 1) := by
    rintro ⟨head, length⟩
    rcases Nat.eq_zero_or_pos n with rfl | positive
    · exact length rfl
    · exact head?_digits positive head
  simp only [readWhole, digits, bind, Except.bind, if_neg zero]

def numeral (n : Int) : Numeral where
  negative := n < 0
  whole := Nat.toDigits 10 n.natAbs

theorem readSign_digits (n : Nat) (rest : List Char) :
    readSign (Nat.toDigits 10 n ++ rest) = (false, Nat.toDigits 10 n ++ rest) := by
  cases digits : Nat.toDigits 10 n with
  | nil => exact absurd digits Nat.toDigits_ne_nil
  | cons c cs =>
    have digit : c.isDigit := isDigit_of_mem_digits (digits ▸ List.mem_cons_self ..)
    unfold readSign
    split
    · rename_i equal
      obtain ⟨rfl, _⟩ := List.cons.inj equal
      exact absurd digit (by decide)
    · rfl

theorem readNumeral_wholeNumber (n : Int) {rest : List Char} (ends : Ends rest) :
    readNumeral (wholeNumber n ++ rest) = .ok (numeral n, rest) := by
  have sign : readSign (wholeNumber n ++ rest) = (decide (n < 0), Nat.toDigits 10 n.natAbs ++ rest) := by
    unfold wholeNumber
    split
    · rename_i negative
      rw [decide_eq_true negative]
      rfl
    · rename_i positive
      rw [decide_eq_false positive]
      exact readSign_digits _ rest
  simp only [readNumeral, sign, readWhole_digits _ ends, readFraction_ends ends, readExponent_ends ends,
    bind, Except.bind]
  rfl

theorem takeDigits_append {m n value : Nat} {digits : List Char} (taken : takeDigits m digits = (n, 0))
    (digit : Char) (equal : n * 10 + (digit.toNat - 48) = value) (small : value ≤ 0xffffffffffffffff) :
    takeDigits m (digits ++ [digit]) = (value, 0) := by
  induction digits generalizing m with
  | nil =>
    obtain ⟨rfl, _⟩ := Prod.mk.inj taken
    subst equal
    exact if_pos small
  | cons c digits ih =>
    simp only [takeDigits] at taken
    simp only [List.cons_append, takeDigits]
    split at taken
    · rename_i fits
      rw [if_pos fits]
      exact ih taken
    · cases taken

theorem takeDigits_digits {n : Nat} (small : n ≤ 0xffffffffffffffff) : takeDigits 0 (Nat.toDigits 10 n) = (n, 0) := by
  have last : ∀ d < 10, (Nat.digitChar d).toNat - 48 = d := by decide
  induction n using Nat.strongRecOn with
  | ind n ih =>
    rw [Nat.toDigits_eq_if (by decide)]
    split
    · rename_i digit
      have start : takeDigits 0 [] = (0, 0) := rfl
      exact takeDigits_append start _ (by rw [last n digit]; omega) small
    · refine takeDigits_append (ih (n / 10) (by omega) (by omega)) _ ?_ small
      rw [last (n % 10) (Nat.mod_lt _ (by decide))]
      omega

theorem numeral_value {n : Int} (least : -0x8000000000000000 ≤ n) (greatest : n ≤ 0xffffffffffffffff) :
    (numeral n).value = .ok (.whole n) := by
  have digits : takeDigits 0 (numeral n).whole = (n.natAbs, 0) := takeDigits_digits (by omega)
  unfold Numeral.value
  rw [digits]
  by_cases negative : n < 0
  · have sign : (numeral n).negative = true := decide_eq_true negative
    have value : -(n.natAbs : Int) = n := by omega
    have whole : 0 < n.natAbs ∧ n.natAbs ≤ 0x8000000000000000 := by omega
    simp only [sign, not_true, and_false, if_false, whole, and_true, value]
    rfl
  · have sign : (numeral n).negative = false := decide_eq_false negative
    have value : (n.natAbs : Int) = n := by omega
    simp only [sign, value]
    rfl

/-! ## Values -/

def textToken (s : String) : Token := .text (.ok s) (.ok ())

def numberToken (n : Int) : Token := .number (numeral n).value (.ok ())

mutual

def tokens : Json → List Token
  | .null => [.null]
  | .bool b => [.bool b]
  | .number n => [numberToken n]
  | .text s => [textToken s]
  | .array [] => [.opening .square, .closing .square]
  | .array (item :: items) =>
    .opening .square :: (item.tokens ++ (itemTokens items ++ [.closing .square]))
  | .object [] => [.opening .curly, .closing .curly]
  | .object ((key, value) :: members) =>
    .opening .curly :: textToken key :: .colon ::
      (value.tokens ++ (memberTokens members ++ [.closing .curly]))
termination_by structural j => j

def itemTokens : List Json → List Token
  | [] => []
  | item :: items => .comma :: (item.tokens ++ itemTokens items)
termination_by structural items => items

def memberTokens : List (String × Json) → List Token
  | [] => []
  | (key, value) :: members =>
    .comma :: textToken key :: .colon :: (value.tokens ++ memberTokens members)
termination_by structural members => members

end

structure Layout.Blank (layout : Layout) : Prop where
  before (level : Nat) : ∀ c ∈ layout.before level, isBlank c
  afterColon : ∀ c ∈ layout.afterColon, isBlank c

theorem scan_blank {c : Char} (blank : isBlank c) (cs : List Char) : scan (c :: cs) = scan cs := by
  rw [scan, if_pos blank]

theorem scan_blanks {blanks : List Char} (all : ∀ c ∈ blanks, isBlank c) (cs : List Char) :
    scan (blanks ++ cs) = scan cs := by
  induction blanks with
  | nil => rfl
  | cons c blanks ih =>
    rw [List.cons_append, scan_blank (all c (List.mem_cons_self ..)),
      ih fun c member => all c (List.mem_cons_of_mem _ member)]

theorem scan_token {c : Char} {cs rest : List Char} {token : Token} (visible : isBlank c = false)
    (found : scanToken c cs = (token, rest)) : scan (c :: cs) = token :: scan rest := by
  rw [scan, visible, found]
  rfl

theorem scan_quoted (s : String) (rest : List Char) :
    scan (quoted s ++ rest) = textToken s :: scan rest := by
  have cut : quoted s ++ rest = '"' :: (s.toList.flatMap escapeChar ++ '"' :: rest) := by
    rw [quoted, List.append_assoc]
    rfl
  have text : scanText (s.toList.flatMap escapeChar ++ '"' :: rest) = (textToken s, rest) := by
    rw [scanText, readText_escaped, skipText_escaped]
    change (Token.text (.ok (String.ofList s.toList)) (.ok ()), rest) = _
    rw [String.ofList_toList]
    rfl
  rw [cut]
  exact scan_token rfl text

theorem exists_wholeNumber (n : Int) : ∃ c cs, wholeNumber n = c :: cs ∧ (c = '-' ∨ c.isDigit) := by
  unfold wholeNumber
  split
  · exact ⟨'-', _, rfl, .inl rfl⟩
  · cases digits : Nat.toDigits 10 n.natAbs with
    | nil => exact absurd digits Nat.toDigits_ne_nil
    | cons c cs => exact ⟨c, cs, rfl, .inr (isDigit_of_mem_digits (digits ▸ List.mem_cons_self ..))⟩

theorem scan_wholeNumber (n : Int) {rest : List Char} (ends : Ends rest) :
    scan (wholeNumber n ++ rest) = numberToken n :: scan rest := by
  have number := readNumeral_wholeNumber n ends
  obtain ⟨c, cs, equal, start⟩ := exists_wholeNumber n
  rw [equal, List.cons_append] at number ⊢
  have other (x : Char) (no : ¬ (x = '-' ∨ x.isDigit)) : c ≠ x := fun same => no (same ▸ start)
  have visible : isBlank c = false := by
    simp only [isBlank, Bool.or_eq_false_iff, decide_eq_false_iff_not]
    exact ⟨⟨⟨other _ (by decide), other _ (by decide)⟩, other _ (by decide)⟩, other _ (by decide)⟩
  -- A digit or minus sign is none of the characters that are tried before it.
  refine scan_token visible ?_
  unfold scanToken
  rw [if_neg (other _ (by decide)), if_neg (other _ (by decide)), if_neg (other _ (by decide)),
    if_neg (other _ (by decide)), if_neg (other _ (by decide)), if_neg (other _ (by decide)),
    if_neg (other _ (by decide)), if_pos start, scanNumber, number]
  rfl

theorem ends_nil : Ends [] := by
  intro c found
  cases found

theorem ends_cons {c : Char} (stop : ¬ c.isDigit ∧ c ≠ '.' ∧ c ≠ 'e' ∧ c ≠ 'E') (cs : List Char) :
    Ends (c :: cs) := by
  intro d found
  rwa [← Option.some.inj found]

theorem ends_blanks {blanks : List Char} (all : ∀ c ∈ blanks, isBlank c) {rest : List Char}
    (ends : Ends rest) : Ends (blanks ++ rest) := by
  cases blanks with
  | nil => exact ends
  | cons c blanks =>
    refine ends_cons ?_ _
    have blank := all c (List.mem_cons_self ..)
    simp only [isBlank, Bool.or_eq_true, decide_eq_true_eq] at blank
    rcases blank with ((rfl | rfl) | rfl) | rfl <;> decide

variable {layout : Layout}

theorem ends_itemChars (level : Nat) (items : List Json) {rest : List Char} (ends : Ends rest) :
    Ends (itemChars layout level items ++ rest) := by
  cases items with
  | nil => exact ends
  | cons item items => exact ends_cons (by decide) _

theorem ends_memberChars (level : Nat) (members : List (String × Json)) {rest : List Char}
    (ends : Ends rest) : Ends (memberChars layout level members ++ rest) := by
  cases members with
  | nil => exact ends
  | cons member members => exact ends_cons (by decide) _

theorem scan_opening_square (cs : List Char) : scan ('[' :: cs) = .opening .square :: scan cs :=
  scan_token rfl rfl

theorem scan_closing_square (cs : List Char) : scan (']' :: cs) = .closing .square :: scan cs :=
  scan_token rfl rfl

theorem scan_opening_curly (cs : List Char) : scan ('\x7b' :: cs) = .opening .curly :: scan cs :=
  scan_token rfl rfl

theorem scan_closing_curly (cs : List Char) : scan ('\x7d' :: cs) = .closing .curly :: scan cs :=
  scan_token rfl rfl

theorem scan_comma (cs : List Char) : scan (',' :: cs) = .comma :: scan cs := scan_token rfl rfl

theorem scan_colon (cs : List Char) : scan (':' :: cs) = .colon :: scan cs := scan_token rfl rfl

mutual

theorem scan_chars (blank : layout.Blank) (level : Nat) {rest : List Char} (ends : Ends rest) :
    (j : Json) → scan (j.chars layout level ++ rest) = j.tokens ++ scan rest
  | .null => scan_token rfl rfl
  | .bool true => scan_token rfl rfl
  | .bool false => scan_token rfl rfl
  | .number n => scan_wholeNumber n ends
  | .text s => scan_quoted s rest
  | .array [] => by
    change scan ('[' :: ']' :: rest) = _
    rw [scan_opening_square, scan_closing_square]
    rfl
  | .array (item :: items) => by
    have close := ends_blanks (blank.before level) (ends_cons (c := ']') (by decide) rest)
    simp only [chars, tokens, List.append_assoc, List.cons_append, List.nil_append]
    rw [scan_opening_square, scan_blanks (blank.before _),
      scan_chars blank (level + 1) (ends_itemChars _ items close) item,
      scan_itemChars blank (level + 1) close items, scan_blanks (blank.before _), scan_closing_square]
  | .object [] => by
    change scan ('\x7b' :: '\x7d' :: rest) = _
    rw [scan_opening_curly, scan_closing_curly]
    rfl
  | .object ((key, value) :: members) => by
    have close := ends_blanks (blank.before level) (ends_cons (c := '\x7d') (by decide) rest)
    simp only [chars, tokens, List.append_assoc, List.cons_append, List.nil_append]
    rw [scan_opening_curly, scan_blanks (blank.before _), scan_quoted, scan_colon,
      scan_blanks blank.afterColon,
      scan_chars blank (level + 1) (ends_memberChars _ members close) value,
      scan_memberChars blank (level + 1) close members, scan_blanks (blank.before _), scan_closing_curly]
termination_by structural j => j

theorem scan_itemChars (blank : layout.Blank) (level : Nat) {rest : List Char} (ends : Ends rest) :
    (items : List Json) → scan (itemChars layout level items ++ rest) = itemTokens items ++ scan rest
  | [] => rfl
  | item :: items => by
    simp only [itemChars, itemTokens, List.append_assoc, List.cons_append]
    rw [scan_comma, scan_blanks (blank.before _),
      scan_chars blank level (ends_itemChars _ items ends) item, scan_itemChars blank level ends items]
termination_by structural items => items

theorem scan_memberChars (blank : layout.Blank) (level : Nat) {rest : List Char} (ends : Ends rest) :
    (members : List (String × Json)) →
      scan (memberChars layout level members ++ rest) = memberTokens members ++ scan rest
  | [] => rfl
  | (key, value) :: members => by
    simp only [memberChars, memberTokens, List.append_assoc, List.cons_append]
    rw [scan_comma, scan_blanks (blank.before _), scan_quoted, scan_colon, scan_blanks blank.afterColon,
      scan_chars blank level (ends_memberChars _ members ends) value,
      scan_memberChars blank level ends members]
termination_by structural members => members

end

theorem scan_pretty (j : Json) {blanks : List Char} (all : ∀ c ∈ blanks, isBlank c) :
    scan (j.pretty.toList ++ blanks) = j.tokens := by
  have nothing : scan blanks = [] := by
    have gone := scan_blanks all []
    rwa [List.append_nil, scan.eq_def []] at gone
  have ends : Ends blanks := by
    have gone := ends_blanks all ends_nil
    rwa [List.append_nil] at gone
  rw [pretty, String.toList_ofList, scan_chars _ 0 ends, nothing, List.append_nil]
  refine ⟨fun level c member => ?_, fun c member => ?_⟩
  · rcases List.mem_cons.1 member with rfl | member
    · rfl
    · rw [List.eq_of_mem_replicate member]
      rfl
  · rw [List.mem_singleton.1 member]
    rfl

end MidIR.Json
