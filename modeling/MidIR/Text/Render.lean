import MidIR.Decimal
import MidIR.Text.Escaped
import MidIR.Body.Basic

namespace MidIR

namespace Text

def separated (separator : String) : List String → String
  | [] => ""
  | [item] => item
  | item :: items => item ++ separator ++ separated separator items

def ended (ending : String) : List String → String
  | [] => ""
  | item :: items => item ++ ending ++ ended ending items

def pieces (separator : Char) (text : String) : List String :=
  (text.toList.splitOn separator).map String.ofList

def word (n : UInt32) : String := n.toNat.repr

def longWord (n : UInt64) : String := n.toNat.repr

end Text

open Text

def ItemPath.render (path : ItemPath) : String :=
  "::" ++ separated "::" (path.package :: path.components)

def RefKind.referencePrefix : RefKind → String
  | .shared => "&"
  | .unique => "&mut "
  | .owned => "&move "

def RefKind.pointerPrefix : RefKind → String
  | .shared => "*const "
  | .unique => "*mut "
  | .owned => "*move "

def renderArguments : List String → String
  | [] => ""
  | types => "<" ++ separated ", " types ++ ">"

namespace Ty

mutual

/-- A tuple of one type keeps a comma, to tell it from a type in parentheses. -/
def render : Ty → String
  | .scalar s => Scalar.names.name s
  | .tuple [element] => "(" ++ element.render ++ ",)"
  | .tuple elements => "(" ++ separated ", " (renderAll elements) ++ ")"
  | .path item arguments => item.render ++ renderArguments (renderAll arguments)
  | .ref kind inner => kind.referencePrefix ++ inner.render
  | .pointer kind inner => kind.pointerPrefix ++ inner.render
  | .array inner size => "[" ++ inner.render ++ "; " ++ longWord size ++ "]"
  | .slice inner => "[" ++ inner.render ++ "]"
termination_by structural t => t

def renderAll : List Ty → List String
  | [] => []
  | t :: ts => t.render :: renderAll ts
termination_by structural ts => ts

end

end Ty

def TypeArgs.render (arguments : TypeArgs) : String :=
  renderArguments (Ty.renderAll arguments.types)

def Path.render (path : Path) : String :=
  path.item.render ++ path.arguments.render

/-- Signed integers always carry a sign, which tells them from unsigned ones. -/
def Constant.render : Constant → String
  | .int value => (if value < 0 then "-" else "+") ++ value.toInt.natAbs.repr
  | .uint value => longWord value
  | .float bits => Double.text bits
  | .bool true => "true"
  | .bool false => "false"
  | .bytes bs => "[" ++ separated " " (bs.map fun b => hex b.toNat) ++ "]"
  | .text t => escaped t
  | .item path => path.render
  | .address path none => "&" ++ path.render
  | .address path (some offset) => "&" ++ path.render ++ "+" ++ longWord offset

def Place.render : Place → String
  | .var i => "Variable(" ++ word i ++ ")"
  | .temp i => "Temporary(" ++ word i ++ ")"
  | .arg i => "Argument(" ++ word i ++ ")"
  | .static path => "Static(" ++ path.render ++ ")"
  | .returnSlot => "Return"
  | .field base i => "Field(" ++ word i ++ ", " ++ base.render ++ ")"
  | .deref base => "Deref(" ++ base.render ++ ")"
  | .index base position => "Index(" ++ base.render ++ ", " ++ position.render ++ ")"
  | .downcast base i => "Downcast(" ++ word i ++ ", " ++ base.render ++ ")"

def Operand.render : Operand → String
  | .place p => p.render
  | .constant c => c.render

def renderOperands (values : List Operand) : String :=
  separated ", " (values.map Operand.render)

def Expr.render : Expr → String
  | .use value => "Use(" ++ value.render ++ ")"
  | .constant c => "Constant(" ++ c.render ++ ")"
  | .repeated value count => "SizedArray(" ++ value.render ++ "; " ++ longWord count ++ ")"
  | .borrow region kind place =>
    "Borrow(" ++ word region ++ ", " ++ RefKind.names.name kind ++ ", " ++ place.render ++ ")"
  | .cast value ty => "Cast(" ++ value.render ++ " as " ++ ty.render ++ ")"
  | .binary left op right =>
    "BinOp(" ++ left.render ++ " " ++ BinaryOp.mnemonics.name op ++ " " ++ right.render ++ ")"
  | .unary value op => "UniOp(" ++ value.render ++ " " ++ UnaryOp.mnemonics.name op ++ ")"
  | .metadataOf value => "DstMeta(" ++ value.render ++ ")"
  | .pointerOf value => "DstPtr(" ++ value.render ++ ")"
  | .fatPointer pointer metadata =>
    "MakeDst(" ++ pointer.render ++ ", " ++ metadata.render ++ ")"
  | .tuple values => "Tuple([" ++ renderOperands values ++ "])"
  | .array values => "Array([" ++ renderOperands values ++ "])"
  | .variant path index value =>
    "Variant(" ++ path.render ++ " #" ++ word index ++ ", " ++ value.render ++ ")"
  | .struct path none fields =>
    "Struct(" ++ path.render ++ ", \x7b[" ++ renderOperands fields ++ "]\x7d)"
  | .struct path (some index) fields =>
    "Struct(" ++ path.render ++ " #" ++ word index ++ ", \x7b[" ++ renderOperands fields ++ "]\x7d)"

def Label.render (label : Label) : String :=
  "bb" ++ word label.index

def Callee.render : Callee → String
  | .value v => "(" ++ v.render ++ ")"
  | .path p => p.render
  | .intrinsic name arguments => "\"" ++ name ++ "\"::" ++ arguments.render

def Terminator.render : Terminator → String
  | .incomplete => "Invalid"
  | .ret => "Return"
  | .diverge => "Diverge"
  | .goto target => "Goto(" ++ word target.index ++ ")"
  | .unwind target => "Panic(" ++ word target.index ++ ";)"
  | .branch condition yes no =>
    "If( " ++ condition.render ++ " : " ++ word yes.index ++ ", " ++ word no.index ++ ")"
  | .switch value targets =>
    "Switch( " ++ value.render ++ " : "
      ++ ended ", " (targets.zipIdx.map fun (target, i) => i.repr ++ " => " ++ target.render) ++ ")"
  | .call callee arguments result returns unwinds =>
    "Call( " ++ result.render ++ " = " ++ callee.render ++ "( "
      ++ ended ", " (arguments.map Operand.render) ++ "), "
      ++ returns.render ++ ", " ++ unwinds.render ++ ")"

def Statement.render (statement : Statement) : String :=
  statement.target.render ++ " = " ++ statement.source.render ++ ";"

def Misuse.message : Misuse → String
  | .noSuchBlock label blocks =>
    "internal compiler error: " ++ label.render ++ " out of range (" ++ blocks.repr ++ " blocks)"
  | .noSuchTarget value targets =>
    "internal compiler error: switch discriminant " ++ value.repr ++ " out of range ("
      ++ targets.repr ++ " targets)"
  | .notSwitch form =>
    "internal compiler error: switch_target on " ++ Terminator.forms.name form ++ " terminator"
  | .tooLong elements =>
    "internal compiler error: sequence of " ++ elements.repr ++ " elements is too long to encode"

end MidIR
