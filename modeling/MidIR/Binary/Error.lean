namespace MidIR

def maxDepth : Nat := 256

inductive DecodeError
  /-- Fewer bytes are left at the offset than the field or payload there takes. -/
  | unexpectedEnd (offset : Nat)
  /-- The text whose length stands at the offset is not UTF-8. -/
  | invalidUtf8 (offset : Nat)
  | invalidBool (byte : UInt8) (offset : Nat)
  | unknownTag (entity tag : String)
  | badMagic
  | unsupportedVersion (version : UInt16)
  | trailingBytes (count : Nat)
  /-- The record at the offset would be nested in `maxDepth` others. -/
  | tooDeep (offset : Nat)
  deriving DecidableEq, Repr

def DecodeError.message : DecodeError → String
  | .unexpectedEnd offset => "Unexpected end of input at offset " ++ offset.repr
  | .invalidUtf8 offset => "Invalid UTF-8 string at offset " ++ offset.repr
  | .invalidBool byte offset =>
    "Invalid boolean byte " ++ byte.toNat.repr ++ " at offset " ++ offset.repr
  | .unknownTag entity tag => "Unknown " ++ entity ++ " tag \x60" ++ tag ++ "\x60"
  | .badMagic => "Missing CMIR header"
  | .unsupportedVersion version => "Unsupported format version " ++ version.toNat.repr
  | .trailingBytes count => count.repr ++ " trailing bytes after encoded body"
  | .tooDeep offset =>
    "Records nested deeper than " ++ maxDepth.repr ++ " levels at offset " ++ offset.repr

end MidIR
