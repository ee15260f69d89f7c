import MidIR.Binary.Outline

namespace MidIR.Binary

def magic : List UInt8 := utf8 "CMIR"

def version : UInt16 := 1

def encodeBody (body : Body) : List UInt8 :=
  magic ++ Encode.u16 version ++ encode body

/-- The file of a body, if no length in it takes more than 32 bits. -/
def file (body : Body) : Except Misuse (List UInt8) :=
  match tooLong? body with
  | some elements => .error (.tooLong elements)
  | none => .ok (encodeBody body)

def header : Decoder Unit := do
  let start ← tryCatch (Decoder.take magic.length) fun _ => throw .badMagic
  Decoder.require (start = magic) .badMagic
  let found ← Decoder.u16
  Decoder.require (found = version) (.unsupportedVersion found)

def headedBody : Decoder Body := do
  header
  Record.decode

def decodeBody (bytes : List UInt8) : Except DecodeError Body :=
  match headedBody.runOn (.ofBytes bytes) with
  | (.error e, _) => .error e
  | (.ok body, after) => if after.atEnd then .ok body else .error (.trailingBytes after.remaining)

end MidIR.Binary
