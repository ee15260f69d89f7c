import MidIR.Binary.Outline
import MidIR.Equality
import MidIR.Hashing
import MidIR.Json.Node

namespace MidIR

inductive Kind
  | itemPath | typeArgs | path | scalar | refKind | ty | place | label | constant | operand
  | binaryOp | unaryOp | expr | callee | terminator | statement | block | body
  | word | longWord | text
  deriving DecidableEq, Repr

namespace Kind

abbrev Node : Kind → Type
  | .itemPath => ItemPath
  | .typeArgs => TypeArgs
  | .path => Path
  | .scalar => Scalar
  | .refKind => RefKind
  | .ty => Ty
  | .place => Place
  | .label => Label
  | .constant => Constant
  | .operand => Operand
  | .binaryOp => BinaryOp
  | .unaryOp => UnaryOp
  | .expr => Expr
  | .callee => Callee
  | .terminator => Terminator
  | .statement => Statement
  | .block => Block
  | .body => Body
  | .word => UInt32
  | .longWord => UInt64
  | .text => String

/-- What there is for every kind, if each has an instance of it. -/
@[reducible]
def each {motive : Kind → Sort _}
    (itemPath : motive .itemPath := by infer_instance)
    (typeArgs : motive .typeArgs := by infer_instance)
    (path : motive .path := by infer_instance)
    (scalar : motive .scalar := by infer_instance)
    (refKind : motive .refKind := by infer_instance)
    (ty : motive .ty := by infer_instance)
    (place : motive .place := by infer_instance)
    (label : motive .label := by infer_instance)
    (constant : motive .constant := by infer_instance)
    (operand : motive .operand := by infer_instance)
    (binaryOp : motive .binaryOp := by infer_instance)
    (unaryOp : motive .unaryOp := by infer_instance)
    (expr : motive .expr := by infer_instance)
    (callee : motive .callee := by infer_instance)
    (terminator : motive .terminator := by infer_instance)
    (statement : motive .statement := by infer_instance)
    (block : motive .block := by infer_instance)
    (body : motive .body := by infer_instance)
    (word : motive .word := by infer_instance)
    (longWord : motive .longWord := by infer_instance)
    (text : motive .text := by infer_instance) :
    (kind : Kind) → motive kind
  | .itemPath => itemPath
  | .typeArgs => typeArgs
  | .path => path
  | .scalar => scalar
  | .refKind => refKind
  | .ty => ty
  | .place => place
  | .label => label
  | .constant => constant
  | .operand => operand
  | .binaryOp => binaryOp
  | .unaryOp => unaryOp
  | .expr => expr
  | .callee => callee
  | .terminator => terminator
  | .statement => statement
  | .block => block
  | .body => body
  | .word => word
  | .longWord => longWord
  | .text => text

instance : (kind : Kind) → Record kind.Node := each

instance : (kind : Kind) → Outlined kind.Node := each

instance : (kind : Kind) → JsonForm kind.Node := each

instance : (kind : Kind) → DecidableEq kind.Node := each

instance : (kind : Kind) → BEq kind.Node := each

def compare? : (kind : Kind) → Option (kind.Node → kind.Node → Ordering)
  | .itemPath => some ItemPath.compare
  | .typeArgs => some TypeArgs.compare
  | .path => some Path.compare
  | .scalar => some Scalar.compare
  | .refKind => some RefKind.compare
  | .ty => some Ty.compare
  | .place => some Place.compare
  | .label => some Label.compare
  | .word => some Ord.compare
  | .longWord => some Ord.compare
  | .text => some compareText
  | _ => none

def writes? : (kind : Kind) → Option (kind.Node → List Write)
  | .itemPath => some (writes (α := ItemPath))
  | .typeArgs => some (writes (α := TypeArgs))
  | .path => some (writes (α := Path))
  | .scalar => some (writes (α := Scalar))
  | .refKind => some (writes (α := RefKind))
  | .ty => some (writes (α := Ty))
  | .place => some (writes (α := Place))
  | .label => some (writes (α := Label))
  | .constant => some (writes (α := Constant))
  | .operand => some (writes (α := Operand))
  | .binaryOp => some (writes (α := BinaryOp))
  | .unaryOp => some (writes (α := UnaryOp))
  | .expr => some (writes (α := Expr))
  | .callee => some (writes (α := Callee))
  | .terminator => some (writes (α := Terminator))
  | .statement => some (writes (α := Statement))
  | .word => some (writes (α := UInt32))
  | .longWord => some (writes (α := UInt64))
  | .text => some (writes (α := String))
  | _ => none

end Kind

end MidIR
