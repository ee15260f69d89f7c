import MidIR.Json.Numeral

/-!
# Tokens of JSON text

`scan` cuts a text into tokens. A text or number can be at fault in ways that matter only to one who
reads its value, not to one who skips over it, so such a token holds the outcome of both. Nothing is
scanned behind a token that cannot even be skipped.
-/

namespace MidIR.Json

inductive Bracket
  | square | curly
  deriving DecidableEq, Repr

inductive Token
  | opening (bracket : Bracket)
  | closing (bracket : Bracket)
  | comma
  | colon
  | null
  | bool (value : Bool)
  | text (value : Except Fault String) (skip : Except Fault Unit)
  | number (value : Except Fault Number) (skip : Except Fault Unit)
  | broken (fault : Fault)

def isBlank (c : Char) : Bool :=
  c = ' ' || c = '\n' || c = '\t' || c = '\r'

def afterWord : (word cs : List Char) → Except Fault (List Char)
  | [], cs => .ok cs
  | _ :: _, [] => .error .truncated
  | w :: word, c :: cs => if w = c then afterWord word cs else .error .malformed

theorem afterWord_length {word cs rest : List Char} (read : afterWord word cs = .ok rest) :
    rest.length ≤ cs.length := by
  fun_induction afterWord word cs with
  | case1 => simp_all
  | case2 => simp at read
  | case3 _ _ _ ih =>
    have := ih read
    simp only [List.length_cons]
    omega
  | case4 => simp at read

def scanWord (word : List Char) (token : Token) (cs : List Char) : Token × List Char :=
  match afterWord word cs with
  | .ok rest => (token, rest)
  | .error fault => (.broken fault, [])

def scanText (cs : List Char) : Token × List Char :=
  let token := Token.text ((readText cs).map fun (text, _) => String.ofList text)
  match skipText cs with
  | .ok rest => (token (.ok ()), rest)
  | .error fault => (token (.error fault), [])

/-- A number that is no number at all cannot be skipped, and it is then no matter whether the text
ends in it. -/
def scanNumber (cs : List Char) : Token × List Char :=
  match readNumeral cs with
  | .ok (numeral, rest) => (.number numeral.value (.ok ()), rest)
  | .error fault => (.number (.error fault) (.error .malformed), [])

def scanToken (c : Char) (cs : List Char) : Token × List Char :=
  if c = '[' then (.opening .square, cs)
  else if c = ']' then (.closing .square, cs)
  else if c = '\x7b' then (.opening .curly, cs)
  else if c = '\x7d' then (.closing .curly, cs)
  else if c = ',' then (.comma, cs)
  else if c = ':' then (.colon, cs)
  else if c = '"' then scanText cs
  else if c = '-' ∨ c.isDigit then scanNumber (c :: cs)
  else if c = 'n' then scanWord ['u', 'l', 'l'] .null cs
  else if c = 't' then scanWord ['r', 'u', 'e'] (.bool true) cs
  else if c = 'f' then scanWord ['a', 'l', 's', 'e'] (.bool false) cs
  else (.broken .malformed, [])

theorem scanWord_length (word : List Char) (token : Token) (cs : List Char) :
    (scanWord word token cs).2.length ≤ cs.length := by
  unfold scanWord
  split
  · exact afterWord_length ‹_›
  · simp

theorem scanToken_length (c : Char) (cs : List Char) : (scanToken c cs).2.length ≤ cs.length := by
  have text : (scanText cs).2.length ≤ cs.length := by
    unfold scanText
    split
    · exact Nat.le_of_lt (skipText_length ‹_›)
    · simp
  have number : (scanNumber (c :: cs)).2.length ≤ cs.length := by
    unfold scanNumber
    split
    · exact Nat.le_of_lt_succ (readNumeral_length ‹_›)
    · simp
  have choice {p : Prop} [Decidable p] {a b : Token × List Char} (yes : a.2.length ≤ cs.length)
      (no : b.2.length ≤ cs.length) : (if p then a else b).2.length ≤ cs.length := by
    split <;> assumption
  unfold scanToken
  repeat' apply choice
  all_goals simp [text, number, scanWord_length]

def scan (cs : List Char) : List Token :=
  match cs with
  | [] => []
  | c :: cs =>
    if isBlank c then scan cs
    else (scanToken c cs).1 :: scan (scanToken c cs).2
termination_by cs.length
decreasing_by
  · simp
  · have := scanToken_length c cs
    simp only [List.length_cons]
    omega

end MidIR.Json
