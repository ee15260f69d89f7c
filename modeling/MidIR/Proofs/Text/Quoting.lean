import MidIR.Proofs.Text.Escaped

namespace MidIR.Text

/-! ## Printable characters -/

theorem isPrintable_digitChar : ∀ d < 16, IsPrintable (Nat.digitChar d) := by decide

theorem Writes.isPrintable {byte : UInt8} {cs : List Char} (writes : Writes byte cs) :
    ∀ c ∈ cs, IsPrintable c := by
  cases writes with
  | short letter => rcases letter with rfl | rfl | rfl <;> simp [IsPrintable]
  | plain number printable notQuote notBackslash => simpa using printable
  | numbered byte =>
    have digits : ∀ c ∈ (hex byte.toNat).toList, IsPrintable c := by
      intro c member
      obtain ⟨d, small, rfl⟩ := exists_digit_of_mem_hex c member
      exact isPrintable_digitChar d small
    simp only [List.forall_mem_cons, List.cons_append, List.forall_mem_append]
    exact ⟨by decide, by decide, by decide, digits, by simp [IsPrintable]⟩

theorem isPrintable_of_mem_escaped (text : String) : ∀ c ∈ (escaped text).toList, IsPrintable c := by
  have inside (bytes : List UInt8) : ∀ c ∈ (escapeBytes bytes).toList, IsPrintable c := by
    induction bytes with
    | nil => simp [escapeBytes]
    | cons byte bytes ih =>
      rw [escapeBytes, String.toList_append, List.forall_mem_append]
      exact ⟨(writes_escapeByte byte).isPrintable, ih⟩
  rw [toList_escaped, List.forall_mem_cons, List.forall_mem_append, List.forall_mem_singleton]
  exact ⟨by decide, inside _, by decide⟩

/-! ## Quotes and the backslashes before them -/

def trailing (cs : List Char) : Nat := (cs.reverse.takeWhile (· = '\\')).length

/-- The next character is escaped: an odd number of backslashes stands before it. -/
def Escapes (cs : List Char) : Prop := trailing cs % 2 = 1

instance : DecidablePred Escapes := fun cs => inferInstanceAs (Decidable (trailing cs % 2 = 1))

theorem trailing_append_singleton (cs : List Char) (c : Char) :
    trailing (cs ++ [c]) = if c = '\\' then trailing cs + 1 else 0 := by
  unfold trailing
  rw [List.reverse_append, List.reverse_singleton, List.singleton_append, List.takeWhile_cons]
  split_ifs <;> simp_all

theorem escapes_append_backslash {cs : List Char} : Escapes (cs ++ ['\\']) ↔ ¬ Escapes cs := by
  unfold Escapes
  rw [trailing_append_singleton, if_pos rfl]
  omega

theorem not_escapes_append {c : Char} (other : c ≠ '\\') (cs : List Char) : ¬ Escapes (cs ++ [c]) := by
  unfold Escapes
  rw [trailing_append_singleton, if_neg other]
  decide

/-- Behind characters that do not escape what follows them, these do not either, and every quote in them is
escaped. -/
def Guarded (cs : List Char) : Prop := ∀ front, ¬ Escapes front →
  ¬ Escapes (front ++ cs) ∧ ∀ before behind, cs = before ++ '"' :: behind → Escapes (front ++ before)

namespace Guarded

theorem nil : Guarded [] := by
  intro front opens
  rw [List.append_nil]
  exact ⟨opens, fun before behind equal => by simp at equal⟩

theorem append {cs ds : List Char} (first : Guarded cs) (second : Guarded ds) : Guarded (cs ++ ds) := by
  intro front opens
  obtain ⟨between, quotes⟩ := first front opens
  obtain ⟨closes, laterQuotes⟩ := second (front ++ cs) between
  rw [← List.append_assoc]
  refine ⟨closes, fun before behind equal => ?_⟩
  -- The quote stands in the second part, or in the first with what is left of it before the second.
  obtain ⟨middle, rfl, rest⟩ | ⟨middle, rfl, rest⟩ := List.append_eq_append_iff.1 equal
  · rw [← List.append_assoc]
    exact laterQuotes middle behind rest
  · cases middle with
    | nil =>
      rw [List.append_nil] at laterQuotes
      simpa using laterQuotes [] behind (by simpa using rest.symm)
    | cons c middle =>
      obtain ⟨rfl, rfl⟩ := List.cons.inj rest
      exact quotes before middle rfl

theorem plain (cs : List Char) {c : Char} (absent : '"' ∉ cs ++ [c]) (other : c ≠ '\\') :
    Guarded (cs ++ [c]) := by
  intro front _
  rw [← List.append_assoc]
  refine ⟨not_escapes_append other _, fun before behind equal => ?_⟩
  rw [equal] at absent
  simp at absent

theorem short {c : Char} (opens : c = '"' ∨ c = '\\') : Guarded ['\\', c] := by
  intro front closed
  have escaping : Escapes (front ++ ['\\']) := escapes_append_backslash.2 closed
  rw [show front ++ ['\\', c] = front ++ ['\\'] ++ [c] by simp]
  constructor
  · rcases opens with rfl | rfl
    · exact not_escapes_append (by decide) _
    · exact fun still => escapes_append_backslash.1 still escaping
  · intro before behind equal
    match before, equal with
    | [], equal => simp at equal
    | ['\\'], _ => exact escaping
    | _ :: _ :: _, equal => simp at equal

end Guarded

theorem Writes.guarded {byte : UInt8} {cs : List Char} (writes : Writes byte cs) : Guarded cs := by
  cases writes with
  | short letter =>
    rcases letter with rfl | rfl | rfl
    · exact .short (.inl rfl)
    · exact .short (.inr rfl)
    · exact .plain ['\\'] (by decide) (by decide)
  | plain number printable notQuote notBackslash =>
    exact .plain [] (by simpa using notQuote.symm) notBackslash
  | numbered byte =>
    have digits : '"' ∉ (hex byte.toNat).toList := by
      intro member
      have name := isNameChar_of_mem_hex '"' member
      simp [isNameChar] at name
    exact .plain _ (by simp [digits]) (by decide)

theorem guarded_escapeBytes (bytes : List UInt8) : Guarded (escapeBytes bytes).toList := by
  induction bytes with
  | nil => exact .nil
  | cons byte bytes ih =>
    rw [escapeBytes, String.toList_append]
    exact (writes_escapeByte byte).guarded.append ih

theorem not_escapes_iff_outer {cs before behind : List Char} (guarded : Guarded cs)
    (split : '"' :: (cs ++ ['"']) = before ++ '"' :: behind) :
    ¬ Escapes before ↔ before = [] ∨ behind = [] := by
  obtain ⟨closes, quotes⟩ := guarded ['"'] (by decide)
  cases before with
  | nil => exact iff_of_true (by decide) (.inl rfl)
  | cons c before =>
    obtain ⟨rfl, inner⟩ : '"' = c ∧ cs ++ ['"'] = before ++ '"' :: behind := by simpa using split
    obtain rfl | ⟨others, d, rfl⟩ := behind.eq_nil_or_concat
    · obtain ⟨rfl, -⟩ := List.append_inj' inner rfl
      exact iff_of_true closes (.inr rfl)
    · rw [List.concat_eq_append, ← List.cons_append, ← List.append_assoc] at inner
      obtain ⟨rfl, -⟩ := List.append_inj' inner rfl
      exact iff_of_false (not_not.2 (quotes before others rfl)) (by simp)

/-! ## Written texts -/

/-- A text constant is written in printable ASCII, between two quotes, and these are the only ones that are
not escaped. Whatever stands behind it, its bytes can be read back, and what stands there; so two texts are
not written alike, in whatever surroundings. -/
theorem text_reads_back :
    (∀ text : String,
      let written := (Constant.text text).render
      (∀ c ∈ written.toList, IsPrintable c) ∧
      (∃ inner, written.toList = '"' :: (inner ++ ['"'])) ∧
      (∀ before behind, written.toList = before ++ '"' :: behind →
        (¬ Escapes before ↔ before = [] ∨ behind = [])) ∧
      ∀ rest, readEscaped (written ++ rest) = some (utf8 text, rest)) ∧
    ∀ front text other rest rest',
      front ++ (Constant.text text).render ++ rest = front ++ (Constant.text other).render ++ rest' →
        text = other ∧ rest = rest' := by
  constructor
  · intro text written
    refine ⟨isPrintable_of_mem_escaped text, ⟨_, toList_escaped text⟩, ?_, readEscaped_escaped text⟩
    intro before behind split
    rw [show written.toList = _ from toList_escaped text] at split
    exact not_escapes_iff_outer (guarded_escapeBytes _) split
  · intro front text other rest rest' equal
    rw [String.append_assoc, String.append_assoc, String.append_right_inj] at equal
    have tells : TellsBefore (fun _ => True) (escaped text) (escaped other) (text = other) :=
      escaped_tells text other
    exact tells rest rest' trivial trivial equal

theorem text_reads_back_quote :
    let written := (Constant.text "\"").render
    written.toList = ['"', '\\'] ++ '"' :: ['"'] ∧ Escapes ['"', '\\'] ∧
      "(" ++ written ++ ")" = "(" ++ (Constant.text (String.singleton '"')).render ++ ")" ∧
        "\"" = String.singleton '"' := by
  intro written
  have split : written.toList = ['"', '\\'] ++ '"' :: ['"'] := by decide
  have alike : "(" ++ written ++ ")" = "(" ++ (Constant.text (String.singleton '"')).render ++ ")" := by
    decide
  have inside := (text_reads_back.1 "\"").2.2.1 _ _ split
  exact ⟨split, by simpa using inside, alike, (text_reads_back.2 _ _ _ _ _ alike).1⟩

/-- A text that looks like an escape is told from the byte that is written so. -/
example : (Constant.text "\t").render = "\"\\u\x7b9\x7d\"" ∧
    (Constant.text "\\u\x7b9\x7d").render = "\"\\\\u\x7b9\x7d\"" := by
  decide

end MidIR.Text
