import MidIR.Constant
import MidIR.Place.Order

namespace MidIR

inductive Operand
  | place (place : Place)
  | constant (constant : Constant)
  deriving DecidableEq, Repr

namespace Operand

inductive Form
  | place | constant
  deriving DecidableEq, Repr

def form : Operand → Form
  | .place _ => .place
  | .constant _ => .constant

def forms : NameTable Form where
  all := [.place, .constant]
  name | .place => "Place" | .constant => "Constant"
  complete a := by cases a <;> decide
  distinct := by decide

def place? : Operand → Option Place
  | .place p => some p
  | .constant _ => none

def constant? : Operand → Option Constant
  | .place _ => none
  | .constant c => some c

end Operand

/-- Binary operators. The names that end in `Ov` check for overflow. -/
inductive BinaryOp
  | add | sub | mul | div | mod
  | addOv | subOv | mulOv | divOv
  | bitOr | bitAnd | bitXor | bitShl | bitShr
  | eq | ne | gt | ge | lt | le
  deriving DecidableEq, Repr

namespace BinaryOp

def mnemonics : NameTable BinaryOp where
  all := [.add, .sub, .mul, .div, .mod, .addOv, .subOv, .mulOv, .divOv, .bitOr, .bitAnd, .bitXor,
    .bitShl, .bitShr, .eq, .ne, .gt, .ge, .lt, .le]
  name
    | .add => "ADD" | .sub => "SUB" | .mul => "MUL" | .div => "DIV" | .mod => "MOD"
    | .addOv => "ADD_OV" | .subOv => "SUB_OV" | .mulOv => "MUL_OV" | .divOv => "DIV_OV"
    | .bitOr => "BIT_OR" | .bitAnd => "BIT_AND" | .bitXor => "BIT_XOR"
    | .bitShl => "BIT_SHL" | .bitShr => "BIT_SHR"
    | .eq => "EQ" | .ne => "NE" | .gt => "GT" | .ge => "GE" | .lt => "LT" | .le => "LE"
  complete a := by cases a <;> decide
  distinct := by decide

def identifiers : NameTable BinaryOp where
  all := mnemonics.all
  name
    | .add => "Add" | .sub => "Sub" | .mul => "Mul" | .div => "Div" | .mod => "Mod"
    | .addOv => "AddOv" | .subOv => "SubOv" | .mulOv => "MulOv" | .divOv => "DivOv"
    | .bitOr => "BitOr" | .bitAnd => "BitAnd" | .bitXor => "BitXor"
    | .bitShl => "BitShl" | .bitShr => "BitShr"
    | .eq => "Eq" | .ne => "Ne" | .gt => "Gt" | .ge => "Ge" | .lt => "Lt" | .le => "Le"
  complete := mnemonics.complete
  distinct := by decide

def isComparison : BinaryOp → Bool
  | .eq | .ne | .gt | .ge | .lt | .le => true
  | _ => false

def checksOverflow : BinaryOp → Bool
  | .addOv | .subOv | .mulOv | .divOv => true
  | _ => false

end BinaryOp

inductive UnaryOp
  | inv | neg
  deriving DecidableEq, Repr

namespace UnaryOp

def mnemonics : NameTable UnaryOp where
  all := [.inv, .neg]
  name | .inv => "INV" | .neg => "NEG"
  complete a := by cases a <;> decide
  distinct := by decide

def identifiers : NameTable UnaryOp where
  all := mnemonics.all
  name | .inv => "Inv" | .neg => "Neg"
  complete := mnemonics.complete
  distinct := by decide

end UnaryOp

inductive Expr
  | use (value : Operand)
  | constant (constant : Constant)
  | repeated (value : Operand) (count : UInt64)
  | borrow (region : UInt32) (kind : RefKind) (place : Place)
  | cast (value : Operand) (ty : Ty)
  | binary (left : Operand) (op : BinaryOp) (right : Operand)
  | unary (value : Operand) (op : UnaryOp)
  | metadataOf (value : Operand)
  | pointerOf (value : Operand)
  | fatPointer (pointer metadata : Operand)
  | tuple (values : List Operand)
  | array (values : List Operand)
  | variant (path : Path) (index : UInt32) (value : Operand)
  | struct (path : Path) (variant : Option UInt32) (fields : List Operand)
  deriving DecidableEq, Repr

namespace Expr

inductive Form
  | use | constant | repeated | borrow | cast | binary | unary | metadataOf | pointerOf
  | fatPointer | tuple | array | variant | struct
  deriving DecidableEq, Repr

def form : Expr → Form
  | .use _ => .use
  | .constant _ => .constant
  | .repeated .. => .repeated
  | .borrow .. => .borrow
  | .cast .. => .cast
  | .binary .. => .binary
  | .unary .. => .unary
  | .metadataOf _ => .metadataOf
  | .pointerOf _ => .pointerOf
  | .fatPointer .. => .fatPointer
  | .tuple _ => .tuple
  | .array _ => .array
  | .variant .. => .variant
  | .struct .. => .struct

def forms : NameTable Form where
  all := [.use, .constant, .repeated, .borrow, .cast, .binary, .unary, .metadataOf, .pointerOf,
    .fatPointer, .tuple, .array, .variant, .struct]
  name
    | .use => "Use" | .constant => "Constant" | .repeated => "SizedArray" | .borrow => "Borrow"
    | .cast => "Cast" | .binary => "BinOp" | .unary => "UniOp" | .metadataOf => "DstMeta"
    | .pointerOf => "DstPtr" | .fatPointer => "MakeDst" | .tuple => "Tuple" | .array => "Array"
    | .variant => "Variant" | .struct => "Struct"
  complete a := by cases a <;> decide
  distinct := by decide

def operands : Expr → List Operand
  | .use value | .repeated value _ | .cast value _ | .unary value _ | .metadataOf value
  | .pointerOf value | .variant _ _ value => [value]
  | .binary left _ right => [left, right]
  | .fatPointer pointer metadata => [pointer, metadata]
  | .tuple values | .array values | .struct _ _ values => values
  | .constant _ | .borrow .. => []

/-- Whether evaluation reads and borrows no place. -/
def isConstant : Expr → Bool
  | .borrow .. => false
  | e => e.operands.all fun operand => operand.place?.isNone

end Expr

end MidIR
