import MidIR.Ty.Order

namespace MidIR

inductive Constant
  | int (value : Int64)
  | uint (value : UInt64)
  | float (bits : UInt64)
  | bool (value : Bool)
  | bytes (bytes : List UInt8)
  | text (text : String)
  | item (path : Path)
  /-- The address of a function or static, possibly some bytes further on. -/
  | address (path : Path) (offset : Option UInt64)
  deriving DecidableEq, Repr

namespace Constant

inductive Form
  | int | uint | float | bool | bytes | text | item | address
  deriving DecidableEq, Repr

def form : Constant → Form
  | .int _ => .int
  | .uint _ => .uint
  | .float _ => .float
  | .bool _ => .bool
  | .bytes _ => .bytes
  | .text _ => .text
  | .item _ => .item
  | .address .. => .address

def forms : NameTable Form where
  all := [.int, .uint, .float, .bool, .bytes, .text, .item, .address]
  name
    | .int => "Int" | .uint => "Uint" | .float => "Float" | .bool => "Bool" | .bytes => "Bytes"
    | .text => "StaticString" | .item => "Const" | .address => "ItemAddr"
  complete a := by cases a <;> decide
  distinct := by decide

def isNumeric : Constant → Bool
  | .int _ | .uint _ | .float _ => true
  | _ => false

def asBool? : Constant → Option Bool
  | .bool value => some value
  | _ => none

def asUInt? : Constant → Option UInt64
  | .uint value => some value
  | .int value => if 0 ≤ value then some value.toUInt64 else none
  | _ => none

end Constant

end MidIR
