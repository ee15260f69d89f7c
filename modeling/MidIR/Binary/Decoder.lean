import MidIR.Binary.Error
import MidIR.Binary.LittleEndian
import MidIR.NameTable

/-!
# Decoders

A decoder reads a value from the front of the bytes that are left. The reader it runs on counts the
bytes behind it and the records that are open around it. A decoder that fails leaves the reader where
the failure was found, so reading can go on from there.
-/

namespace MidIR

structure Reader where
  rest : List UInt8
  offset : Nat := 0
  /-- The number of records that are open. -/
  depth : Nat := 0
  deriving DecidableEq, Repr

namespace Reader

def ofBytes (bytes : List UInt8) : Reader :=
  { rest := bytes }

def remaining (reader : Reader) : Nat := reader.rest.length

def atEnd (reader : Reader) : Bool := reader.rest.isEmpty

end Reader

abbrev Decoder := ExceptT DecodeError (StateM Reader)

def splitExactly {α : Type} : Nat → List α → Option (List α × List α)
  | 0, as => some ([], as)
  | _ + 1, [] => none
  | n + 1, a :: as => (splitExactly n as).map fun (front, rest) => (a :: front, rest)

namespace Decoder

variable {α : Type}

def runOn (decode : Decoder α) (reader : Reader) : Except DecodeError α × Reader :=
  (ExceptT.run decode).run reader

def require (condition : Prop) [Decidable condition] (e : DecodeError) : Decoder Unit :=
  if condition then return () else throw e

/-- Takes the next `n` bytes, or none at all if there are fewer. -/
def take (n : Nat) : Decoder (List UInt8) := do
  let reader ← get
  match splitExactly n reader.rest with
  | some (front, rest) =>
    set { reader with rest, offset := reader.offset + n }
    return front
  | none => throw (.unexpectedEnd reader.offset)

def number (width : Nat) : Decoder Nat := do
  return LittleEndian.ofBytes (← take width)

def u8 : Decoder UInt8 := return (← number 1).toUInt8

def u16 : Decoder UInt16 := return (← number 2).toUInt16

def u32 : Decoder UInt32 := return (← number 4).toUInt32

def u64 : Decoder UInt64 := return (← number 8).toUInt64

def i64 : Decoder Int64 := return (← u64).toInt64

def bool : Decoder Bool := do
  let start := (← get).offset
  match ← u8 with
  | 0 => return false
  | 1 => return true
  | byte => throw (.invalidBool byte start)

def bytes : Decoder (List UInt8) := do
  take (← u32).toNat

def text : Decoder String := do
  let start := (← get).offset
  let bytes ← bytes
  match String.fromUTF8? ⟨bytes.toArray⟩ with
  | some text => return text
  | none => throw (.invalidUtf8 start)

def tag (entity : String) (names : NameTable α) : Decoder α := do
  let name ← text
  match names.find? name with
  | some value => return value
  | none => throw (.unknownTag entity name)

def times (decode : Decoder α) : Nat → Decoder (List α)
  | 0 => return []
  | n + 1 => return (← decode) :: (← times decode n)

def seq (decode : Decoder α) : Decoder (List α) := do
  times decode (← u32).toNat

def option (decode : Decoder α) : Decoder (Option α) := do
  if ← bool then return some (← decode) else return none

/-- Decodes with one more record open, unless `maxDepth` are open already. -/
def nested (decode : Decoder α) : Decoder α := fun reader =>
  if reader.depth < maxDepth then
    let (result, after) := decode.runOn { reader with depth := reader.depth + 1 }
    (result, { after with depth := after.depth - 1 })
  else (.error (.tooDeep reader.offset), reader)

end Decoder

end MidIR
