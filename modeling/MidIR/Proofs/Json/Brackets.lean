import MidIR.Proofs.Json.RoundTrip

namespace MidIR.Json

/-- Where the next character of a text stands. -/
inductive Surroundings
  | open
  | quoted
  | escaped
  deriving DecidableEq

structure Cursor where
  brackets : Nat := 0
  surroundings : Surroundings := .open
  deriving DecidableEq

def Cursor.step (cursor : Cursor) (c : Char) : Cursor :=
  match cursor.surroundings with
  | .open =>
    if c = '"' then { cursor with surroundings := .quoted }
    else if c = '[' ∨ c = '\x7b' then { cursor with brackets := cursor.brackets + 1 }
    else if c = ']' ∨ c = '\x7d' then { cursor with brackets := cursor.brackets - 1 }
    else cursor
  | .quoted =>
    if c = '"' then { cursor with surroundings := .open }
    else if c = '\\' then { cursor with surroundings := .escaped }
    else cursor
  | .escaped => { cursor with surroundings := .quoted }

/-- The most brackets that are open at once from a cursor on. -/
def Cursor.deepest (cursor : Cursor) : List Char → Nat
  | [] => cursor.brackets
  | c :: cs => max cursor.brackets ((cursor.step c).deepest cs)

def nesting (text : String) : Nat := Cursor.deepest {} text.toList

theorem Cursor.brackets_le_deepest (cursor : Cursor) (cs : List Char) :
    cursor.brackets ≤ cursor.deepest cs := by
  cases cs with
  | nil => exact Nat.le_refl _
  | cons c cs => exact Nat.le_max_left ..

/-- Characters outside of quotes whose brackets are closed again and nest so deep. -/
def Nests (cs : List Char) (depth : Nat) : Prop :=
  ∀ brackets rest, Cursor.deepest ⟨brackets, .open⟩ (cs ++ rest) =
    max (brackets + depth) (Cursor.deepest ⟨brackets, .open⟩ rest)

namespace Nests

variable {cs ds : List Char} {m n : Nat}

theorem nil : Nests [] 0 := by
  intro brackets rest
  exact (Nat.max_eq_right (Cursor.brackets_le_deepest ..)).symm

theorem append (first : Nests cs m) (second : Nests ds n) : Nests (cs ++ ds) (max m n) := by
  intro brackets rest
  rw [List.append_assoc, first, second]
  omega

theorem plain {c : Char} (quote : c ≠ '"') (opening : ¬ (c = '[' ∨ c = '\x7b'))
    (closing : ¬ (c = ']' ∨ c = '\x7d')) : Nests [c] 0 := by
  intro brackets rest
  simp [Cursor.deepest, Cursor.step, quote, opening, closing]

theorem cons {c : Char} (quote : c ≠ '"') (opening : ¬ (c = '[' ∨ c = '\x7b'))
    (closing : ¬ (c = ']' ∨ c = '\x7d')) (rest : Nests cs n) : Nests (c :: cs) n := by
  have whole := (plain quote opening closing).append rest
  rwa [Nat.zero_max] at whole

theorem all (harmless : ∀ c ∈ cs, c ≠ '"' ∧ ¬ (c = '[' ∨ c = '\x7b') ∧ ¬ (c = ']' ∨ c = '\x7d')) :
    Nests cs 0 := by
  induction cs with
  | nil => exact nil
  | cons c cs ih =>
    obtain ⟨quote, opening, closing⟩ := harmless c (by simp)
    apply cons quote opening closing
    apply ih
    simp_all

theorem blanks (blank : ∀ c ∈ cs, isBlank c) : Nests cs 0 := by
  apply all
  intro c member
  have given := blank c member
  simp only [isBlank, Bool.or_eq_true, decide_eq_true_eq] at given
  obtain ((rfl | rfl) | rfl) | rfl := given <;> decide

theorem bracketed {c d : Char} (opens : c = '[' ∨ c = '\x7b') (closes : d = ']' ∨ d = '\x7d')
    (inside : Nests cs n) : Nests (c :: (cs ++ [d])) (1 + n) := by
  intro brackets rest
  have opened : Cursor.step ⟨brackets, .open⟩ c = ⟨brackets + 1, .open⟩ := by
    obtain rfl | rfl := opens <;> rfl
  have closed : Cursor.step ⟨brackets + 1, .open⟩ d = ⟨brackets, .open⟩ := by
    obtain rfl | rfl := closes <;> rfl
  have least := Cursor.brackets_le_deepest ⟨brackets, .open⟩ rest
  simp only [List.cons_append, List.append_assoc, List.nil_append, Cursor.deepest, opened, closed,
    inside (brackets + 1)]
  simp only at least
  omega

end Nests

/-! ## Texts -/

def Quotable (cs : List Char) : Prop :=
  ∀ brackets rest, Cursor.deepest ⟨brackets, .quoted⟩ (cs ++ rest) =
    Cursor.deepest ⟨brackets, .quoted⟩ rest

namespace Quotable

variable {cs ds : List Char}

theorem nil : Quotable [] := fun _ _ => rfl

theorem append (first : Quotable cs) (second : Quotable ds) : Quotable (cs ++ ds) := by
  intro brackets rest
  rw [List.append_assoc, first, second]

theorem plain {c : Char} (quote : c ≠ '"') (backslash : c ≠ '\\') : Quotable [c] := by
  intro brackets rest
  have least := Cursor.brackets_le_deepest ⟨brackets, .quoted⟩ rest
  simp only [List.cons_append, List.nil_append, Cursor.deepest, Cursor.step, quote, backslash, if_false]
  exact Nat.max_eq_right least

theorem escaped (c : Char) : Quotable ['\\', c] := by
  intro brackets rest
  have least := Cursor.brackets_le_deepest ⟨brackets, .quoted⟩ rest
  simp only at least
  simp only [List.cons_append, List.nil_append, Cursor.deepest, Cursor.step, Char.reduceEq, if_false,
    if_true]
  omega

theorem hexPair {n : Nat} (small : n < 32) : Quotable (hexPair n) := by
  have digits : ∀ d < 16, Nat.digitChar d ≠ '"' ∧ Nat.digitChar d ≠ '\\' := by decide
  have high := digits (n / 16) (by omega)
  have low := digits (n % 16) (by omega)
  exact (plain high.1 high.2).append (plain low.1 low.2)

theorem escapeChar_shape (c : Char) : (escapeChar c = [c] ∧ c ≠ '"' ∧ c ≠ '\\') ∨
    (∃ letter, escapeChar c = ['\\', letter]) ∨
    (c.toNat < 32 ∧ escapeChar c = '\\' :: 'u' :: '0' :: '0' :: Json.hexPair c.toNat) := by
  unfold escapeChar
  grind

theorem escapeChar (c : Char) : Quotable (escapeChar c) := by
  obtain ⟨shape, quote, backslash⟩ | ⟨letter, shape⟩ | ⟨small, shape⟩ := escapeChar_shape c <;> rw [shape]
  · exact plain quote backslash
  · exact escaped letter
  · have zero : Quotable ['0'] := plain (by decide) (by decide)
    exact (escaped 'u').append (zero.append (zero.append (hexPair small)))

theorem content (cs : List Char) : Quotable (cs.flatMap Json.escapeChar) := by
  induction cs with
  | nil => exact nil
  | cons c cs ih => exact (escapeChar c).append ih

end Quotable

namespace Nests

variable {cs ds : List Char} {m n : Nat}

theorem quoted (s : String) : Nests (quoted s) 0 := by
  intro brackets rest
  have closed : Cursor.deepest ⟨brackets, .quoted⟩ ('"' :: rest) = Cursor.deepest ⟨brackets, .open⟩ rest :=
    Nat.max_eq_right (Cursor.brackets_le_deepest ⟨brackets, .open⟩ rest)
  have cut : Json.quoted s ++ rest = '"' :: (s.toList.flatMap escapeChar ++ '"' :: rest) := by
    rw [Json.quoted, List.append_assoc]
    rfl
  rw [cut, Cursor.deepest, ← closed]
  exact congrArg (max brackets) (Quotable.content s.toList brackets ('"' :: rest))

/-! ## Values -/

theorem digits (n : Nat) : Nests (Nat.toDigits 10 n) 0 := by
  apply all
  intro c member
  have digit := isDigit_of_mem_digits member
  have other (x : Char) (no : x.isDigit = false) : c ≠ x := by
    rintro rfl
    rw [no] at digit
    cases digit
  simp [other _]

theorem wholeNumber (n : Int) : Nests (wholeNumber n) 0 := by
  unfold Json.wholeNumber
  split
  · exact cons (by decide) (by decide) (by decide) (digits _)
  · exact digits _

theorem comma (rest : Nests cs n) : Nests (',' :: cs) n :=
  rest.cons (by decide) (by decide) (by decide)

theorem colon (rest : Nests cs n) : Nests (':' :: cs) n :=
  rest.cons (by decide) (by decide) (by decide)

theorem cast (nests : Nests cs m) (text : cs = ds) (depth : m = n) : Nests ds n :=
  text ▸ depth ▸ nests

variable {layout : Layout}

mutual

theorem chars (blank : layout.Blank) (level : Nat) : (j : Json) → Nests (j.chars layout level) j.depth
  | .null => show Nests ['n', 'u', 'l', 'l'] 0 from all (by simp)
  | .bool true => show Nests ['t', 'r', 'u', 'e'] 0 from all (by simp)
  | .bool false => show Nests ['f', 'a', 'l', 's', 'e'] 0 from all (by simp)
  | .number n => wholeNumber n
  | .text s => quoted s
  | .array [] => bracketed (.inl rfl) (.inl rfl) nil
  | .array (item :: items) => by
    have inside := (blanks (blank.before (level + 1))).append ((chars blank (level + 1) item).append
      ((itemChars blank (level + 1) items).append (blanks (blank.before level))))
    apply (bracketed (c := '[') (d := ']') (.inl rfl) (.inl rfl) inside).cast
    · simp only [Json.chars, List.append_assoc, List.cons_append]
    · simp only [depth, depthAll, Nat.zero_max, Nat.max_zero]
  | .object [] => bracketed (.inr rfl) (.inr rfl) nil
  | .object ((key, value) :: members) => by
    have payload := (blanks blank.afterColon).append ((chars blank (level + 1) value).append
      ((memberChars blank (level + 1) members).append (blanks (blank.before level))))
    have inside := (blanks (blank.before (level + 1))).append ((quoted key).append payload.colon)
    apply (bracketed (c := '\x7b') (d := '\x7d') (.inr rfl) (.inr rfl) inside).cast
    · simp only [Json.chars, List.append_assoc, List.cons_append]
    · simp only [depth, depthMembers, Nat.zero_max, Nat.max_zero]
termination_by structural j => j

theorem itemChars (blank : layout.Blank) (level : Nat) :
    (items : List Json) → Nests (itemChars layout level items) (depthAll items)
  | [] => nil
  | item :: items => by
    have text := (blanks (blank.before level)).append
      ((chars blank level item).append (itemChars blank level items))
    apply text.comma.cast
    · simp only [Json.itemChars, List.append_assoc, List.cons_append]
    · simp only [depthAll, Nat.zero_max]
termination_by structural items => items

theorem memberChars (blank : layout.Blank) (level : Nat) :
    (members : List (String × Json)) → Nests (memberChars layout level members) (depthMembers members)
  | [] => nil
  | (key, value) :: members => by
    have payload := (blanks blank.afterColon).append
      ((chars blank level value).append (memberChars blank level members))
    have text := (blanks (blank.before level)).append ((quoted key).append payload.colon)
    apply text.comma.cast
    · simp only [Json.memberChars, List.append_assoc, List.cons_append]
    · simp only [depthMembers, Nat.zero_max]
termination_by structural members => members

end

end Nests

theorem pretty_blank : Layout.Blank ⟨fun level => '\n' :: List.replicate (2 * level) ' ', [' ']⟩ where
  before level c member := by
    obtain rfl | member := List.mem_cons.1 member
    · rfl
    · rw [List.eq_of_mem_replicate member]
      rfl
  afterColon c member := by
    rw [List.mem_singleton.1 member]
    rfl

theorem nesting_pretty (j : Json) : nesting j.pretty = j.depth := by
  have nests := Nests.chars pretty_blank 0 j 0 []
  rw [List.append_nil] at nests
  rw [nesting, pretty, String.toList_ofList, nests]
  simp [Cursor.deepest]

end MidIR.Json

namespace MidIR.Body

/-- The text of a body is read back as the body, down to the bits of its floating-point constants, if
its brackets nest at most 127 deep; any deeper, and it is refused. -/
theorem ofJsonText_toJsonText (body : Body) : ofJsonText body.toJsonText =
    if Json.nesting body.toJsonText ≤ 127 then .ok body else .error .malformed := by
  have written : Json.ofText JsonForm.read (body.toJsonText ++ "") =
      if (toJson body).depth ≤ Json.maxLevels then .ok body else .error .malformed :=
    Json.ofText_written body (by simp)
  rw [String.append_empty] at written
  rw [toJsonText, Json.nesting_pretty]
  exact written

end MidIR.Body
