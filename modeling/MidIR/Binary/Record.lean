import MidIR.Binary.Decoder
import MidIR.Text.Render

/-!
# Binary records

The binary form of every node. A value of one of several forms starts with the name of its form;
fields follow in declared order. Texts, bytes and sequences start with their length in 32 bits.
-/

namespace MidIR

class Record (α : Type) where
  encode : α → List UInt8
  decode : Decoder α

export Record (encode)

namespace Encode

def u16 (n : UInt16) : List UInt8 := LittleEndian.bytes 2 n.toNat

def u32 (n : UInt32) : List UInt8 := LittleEndian.bytes 4 n.toNat

def u64 (n : UInt64) : List UInt8 := LittleEndian.bytes 8 n.toNat

def i64 (n : Int64) : List UInt8 := u64 n.toUInt64

def bool (b : Bool) : List UInt8 := [if b then 1 else 0]

def length (n : Nat) : List UInt8 := u32 n.toUInt32

def bytes (bs : List UInt8) : List UInt8 := length bs.length ++ bs

def text (s : String) : List UInt8 := bytes (utf8 s)

def seq {α : Type} (encode : α → List UInt8) (values : List α) : List UInt8 :=
  length values.length ++ values.flatMap encode

def option {α : Type} (encode : α → List UInt8) : Option α → List UInt8
  | none => bool false
  | some value => bool true ++ encode value

end Encode

open Encode

instance : Record UInt32 := ⟨u32, Decoder.u32⟩

instance : Record UInt64 := ⟨u64, Decoder.u64⟩

instance : Record String := ⟨text, Decoder.text⟩

namespace ItemPath

instance : Record ItemPath where
  encode path := text path.package ++ seq text path.components
  decode := return ⟨← Decoder.text, ← Decoder.seq Decoder.text⟩

end ItemPath

instance : Record Scalar where
  encode scalar := text (Scalar.names.name scalar)
  decode := Decoder.tag "CoreType" Scalar.names

instance : Record RefKind where
  encode kind := text (RefKind.names.name kind)
  decode := Decoder.tag "BorrowKind" RefKind.names

namespace Ty

mutual

def encode : Ty → List UInt8
  | .scalar s => text "Primitive" ++ Record.encode s
  | .tuple elements => text "Tuple" ++ length elements.length ++ encodeAll elements
  | .path item arguments =>
    text "Path" ++ Record.encode item ++ length arguments.length ++ encodeAll arguments
  | .ref kind inner => text "Borrow" ++ Record.encode kind ++ inner.encode
  | .pointer kind inner => text "Pointer" ++ Record.encode kind ++ inner.encode
  | .array inner size => text "Array" ++ inner.encode ++ u64 size
  | .slice inner => text "Slice" ++ inner.encode
termination_by structural t => t

def encodeAll : List Ty → List UInt8
  | [] => []
  | t :: ts => t.encode ++ encodeAll ts
termination_by structural ts => ts

end

def decodeRecord (inner : Decoder Ty) : Decoder Ty := do
  match ← Decoder.tag "TypeRef" Ty.forms with
  | .scalar => return .scalar (← Record.decode)
  | .tuple => return .tuple (← Decoder.seq inner)
  | .path => return .path (← Record.decode) (← Decoder.seq inner)
  | .ref => return .ref (← Record.decode) (← inner)
  | .pointer => return .pointer (← Record.decode) (← inner)
  | .array => return .array (← inner) (← Decoder.u64)
  | .slice => return .slice (← inner)

/-- A type in at most `levels` nested records. -/
def decodeWithin : (levels : Nat) → Decoder Ty
  | 0 => do throw (.tooDeep (← get).offset)
  | levels + 1 => Decoder.nested (decodeRecord (decodeWithin levels))

def decode : Decoder Ty := do
  decodeWithin (maxDepth - (← get).depth)

end Ty

instance : Record Ty := ⟨Ty.encode, Ty.decode⟩

instance : Record TypeArgs where
  encode arguments := seq encode arguments.types
  decode := return ⟨← Decoder.seq Record.decode⟩

instance : Record Path where
  encode path := encode path.item ++ encode path.arguments
  decode := return ⟨← Record.decode, ← Record.decode⟩

namespace Constant

def payload : Constant → List UInt8
  | .int value => i64 value
  | .uint value => u64 value
  | .float bits => u64 bits
  | .bool value => Encode.bool value
  | .bytes bs => Encode.bytes bs
  | .text t => Encode.text t
  | .item path => encode path
  | .address path offset => encode path ++ option encode offset

instance : Record Constant where
  encode c := Encode.text (forms.name c.form) ++ c.payload
  decode := do
    match ← Decoder.tag "Constant" forms with
    | .int => return .int (← Decoder.i64)
    | .uint => return .uint (← Decoder.u64)
    | .float => return .float (← Decoder.u64)
    | .bool => return .bool (← Decoder.bool)
    | .bytes => return .bytes (← Decoder.bytes)
    | .text => return .text (← Decoder.text)
    | .item => return .item (← Record.decode)
    | .address => return .address (← Record.decode) (← Decoder.option Decoder.u64)

end Constant

namespace Place

def encode : Place → List UInt8
  | .var i => text "Variable" ++ u32 i
  | .temp i => text "Temporary" ++ u32 i
  | .arg i => text "Argument" ++ u32 i
  | .static path => text "Static" ++ Record.encode path
  | .returnSlot => text "Return"
  | .field base i => text "Field" ++ base.encode ++ u32 i
  | .deref base => text "Deref" ++ base.encode
  | .index base position => text "Index" ++ base.encode ++ position.encode
  | .downcast base i => text "Downcast" ++ base.encode ++ u32 i

def decodeRecord (inner : Decoder Place) : Decoder Place := do
  match ← Decoder.tag "Place" Place.forms with
  | .var => return .var (← Decoder.u32)
  | .temp => return .temp (← Decoder.u32)
  | .arg => return .arg (← Decoder.u32)
  | .static => return .static (← Record.decode)
  | .returnSlot => return .returnSlot
  | .field => return .field (← inner) (← Decoder.u32)
  | .deref => return .deref (← inner)
  | .index => return .index (← inner) (← inner)
  | .downcast => return .downcast (← inner) (← Decoder.u32)

def decodeWithin : (levels : Nat) → Decoder Place
  | 0 => do throw (.tooDeep (← get).offset)
  | levels + 1 => Decoder.nested (decodeRecord (decodeWithin levels))

def decode : Decoder Place := do
  decodeWithin (maxDepth - (← get).depth)

end Place

instance : Record Place := ⟨Place.encode, Place.decode⟩

namespace Operand

instance : Record Operand where
  encode
    | .place p => text "Place" ++ encode p
    | .constant c => text "Constant" ++ encode c
  decode := do
    match ← Decoder.tag "Operand" forms with
    | .place => return .place (← Record.decode)
    | .constant => return .constant (← Record.decode)

end Operand

instance : Record BinaryOp where
  encode op := text (BinaryOp.mnemonics.name op)
  decode := Decoder.tag "BinOp" BinaryOp.mnemonics

instance : Record UnaryOp where
  encode op := text (UnaryOp.mnemonics.name op)
  decode := Decoder.tag "UniOp" UnaryOp.mnemonics

namespace Expr

def payload : Expr → List UInt8
  | .use value | .metadataOf value | .pointerOf value => encode value
  | .constant c => encode c
  | .repeated value count => encode value ++ u64 count
  | .borrow region kind place => u32 region ++ encode kind ++ encode place
  | .cast value ty => encode value ++ encode ty
  | .binary left op right => encode left ++ encode op ++ encode right
  | .unary value op => encode value ++ encode op
  | .fatPointer pointer metadata => encode pointer ++ encode metadata
  | .tuple values | .array values => seq encode values
  | .variant path index value => encode path ++ u32 index ++ encode value
  | .struct path index fields => encode path ++ option encode index ++ seq encode fields

instance : Record Expr where
  encode e := text (forms.name e.form) ++ e.payload
  decode := do
    match ← Decoder.tag "RValue" forms with
    | .use => return .use (← Record.decode)
    | .constant => return .constant (← Record.decode)
    | .repeated => return .repeated (← Record.decode) (← Decoder.u64)
    | .borrow => return .borrow (← Decoder.u32) (← Record.decode) (← Record.decode)
    | .cast => return .cast (← Record.decode) (← Record.decode)
    | .binary => return .binary (← Record.decode) (← Record.decode) (← Record.decode)
    | .unary => return .unary (← Record.decode) (← Record.decode)
    | .metadataOf => return .metadataOf (← Record.decode)
    | .pointerOf => return .pointerOf (← Record.decode)
    | .fatPointer => return .fatPointer (← Record.decode) (← Record.decode)
    | .tuple => return .tuple (← Decoder.seq Record.decode)
    | .array => return .array (← Decoder.seq Record.decode)
    | .variant => return .variant (← Record.decode) (← Decoder.u32) (← Record.decode)
    | .struct =>
      return .struct (← Record.decode) (← Decoder.option Decoder.u32) (← Decoder.seq Record.decode)

end Expr

instance : Record Label where
  encode label := u32 label.index
  decode := return ⟨← Decoder.u32⟩

namespace Callee

def payload : Callee → List UInt8
  | .value v => encode v
  | .path p => encode p
  | .intrinsic name arguments => text name ++ encode arguments

instance : Record Callee where
  encode callee := text (forms.name callee.form) ++ callee.payload
  decode := do
    match ← Decoder.tag "CallTarget" forms with
    | .value => return .value (← Record.decode)
    | .path => return .path (← Record.decode)
    | .intrinsic => return .intrinsic (← Decoder.text) (← Record.decode)

end Callee

namespace Terminator

def payload : Terminator → List UInt8
  | .incomplete | .ret | .diverge => []
  | .goto target | .unwind target => encode target
  | .branch condition yes no => encode condition ++ encode yes ++ encode no
  | .switch value targets => encode value ++ seq encode targets
  | .call callee arguments result returns unwinds =>
    encode callee ++ seq encode arguments ++ encode result ++ encode returns ++ encode unwinds

instance : Record Terminator where
  encode terminator := text (forms.name terminator.form) ++ terminator.payload
  decode := do
    match ← Decoder.tag "Terminator" forms with
    | .incomplete => return .incomplete
    | .ret => return .ret
    | .diverge => return .diverge
    | .goto => return .goto (← Record.decode)
    | .unwind => return .unwind (← Record.decode)
    | .branch => return .branch (← Record.decode) (← Record.decode) (← Record.decode)
    | .switch => return .switch (← Record.decode) (← Decoder.seq Record.decode)
    | .call =>
      return .call (← Record.decode) (← Decoder.seq Record.decode) (← Record.decode)
        (← Record.decode) (← Record.decode)

end Terminator

instance : Record Statement where
  encode statement := encode statement.target ++ encode statement.source
  decode := return ⟨← Record.decode, ← Record.decode⟩

instance : Record Block where
  encode block := seq encode block.statements ++ encode block.terminator
  decode := return ⟨← Decoder.seq Record.decode, ← Record.decode⟩

instance : Record Body where
  encode body :=
    seq encode body.args ++ encode body.result ++ seq encode body.vars
      ++ seq encode body.temps ++ seq encode body.blocks
  decode :=
    return ⟨← Decoder.seq Record.decode, ← Record.decode, ← Decoder.seq Record.decode,
      ← Decoder.seq Record.decode, ← Decoder.seq Record.decode⟩

end MidIR
