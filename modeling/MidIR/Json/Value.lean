namespace MidIR

inductive Json
  | null
  | bool (value : Bool)
  | number (value : Int)
  | text (value : String)
  | array (items : List Json)
  | object (members : List (String × Json))
  deriving Repr

namespace Json

def hexPair (n : Nat) : List Char :=
  [Nat.digitChar (n / 16), Nat.digitChar (n % 16)]

def escapeChar (c : Char) : List Char :=
  if c = '"' then ['\\', '"']
  else if c = '\\' then ['\\', '\\']
  else if c = '\n' then ['\\', 'n']
  else if c = '\r' then ['\\', 'r']
  else if c = '\t' then ['\\', 't']
  else if c.toNat = 8 then ['\\', 'b']
  else if c.toNat = 12 then ['\\', 'f']
  else if c.toNat < 32 then ['\\', 'u', '0', '0'] ++ hexPair c.toNat
  else [c]

def quoted (text : String) : List Char :=
  '"' :: text.toList.flatMap escapeChar ++ ['"']

def wholeNumber (n : Int) : List Char :=
  if n < 0 then '-' :: Nat.toDigits 10 n.natAbs else Nat.toDigits 10 n.natAbs

/-- The blanks of a text: before an item or closing bracket at a level, and after a colon. -/
structure Layout where
  before : (level : Nat) → List Char
  afterColon : List Char

mutual

def chars (layout : Layout) (level : Nat) : Json → List Char
  | .null => ['n', 'u', 'l', 'l']
  | .bool true => ['t', 'r', 'u', 'e']
  | .bool false => ['f', 'a', 'l', 's', 'e']
  | .number n => wholeNumber n
  | .text s => quoted s
  | .array [] => ['[', ']']
  | .array (item :: items) =>
    '[' :: layout.before (level + 1) ++ item.chars layout (level + 1)
      ++ itemChars layout (level + 1) items ++ layout.before level ++ [']']
  | .object [] => ['\x7b', '\x7d']
  | .object ((key, value) :: members) =>
    '\x7b' :: layout.before (level + 1) ++ quoted key ++ ':' :: layout.afterColon
      ++ value.chars layout (level + 1) ++ memberChars layout (level + 1) members
      ++ layout.before level ++ ['\x7d']
termination_by structural j => j

def itemChars (layout : Layout) (level : Nat) : List Json → List Char
  | [] => []
  | item :: items =>
    ',' :: layout.before level ++ item.chars layout level ++ itemChars layout level items
termination_by structural items => items

def memberChars (layout : Layout) (level : Nat) : List (String × Json) → List Char
  | [] => []
  | (key, value) :: members =>
    ',' :: layout.before level ++ quoted key ++ ':' :: layout.afterColon
      ++ value.chars layout level ++ memberChars layout level members
termination_by structural members => members

end

def compact (json : Json) : String :=
  String.ofList (json.chars ⟨fun _ => [], []⟩ 0)

def pretty (json : Json) : String :=
  String.ofList (json.chars ⟨fun level => '\n' :: List.replicate (2 * level) ' ', [' ']⟩ 0)

end Json

end MidIR
