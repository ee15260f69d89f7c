import MidIR.Ty.Order

namespace MidIR.Text

def hex (n : Nat) : String :=
  String.ofList (Nat.toDigits 16 n)

def escapeByte (byte : UInt8) : String :=
  if byte = 0x22 then "\\\""
  else if byte = 0x5c then "\\\\"
  else if byte = 0x0a then "\\n"
  else if 0x20 ≤ byte ∧ byte ≤ 0x7e then String.singleton (Char.ofNat byte.toNat)
  else "\\u\x7b" ++ hex byte.toNat ++ "\x7d"

def escapeBytes : List UInt8 → String
  | [] => ""
  | byte :: bytes => escapeByte byte ++ escapeBytes bytes

def escaped (text : String) : String :=
  "\"" ++ escapeBytes (utf8 text) ++ "\""

end MidIR.Text
