import MidIR.Body.Basic

namespace MidIR

namespace Text

/-- The characters of names, all of them ASCII. -/
def isNameChar (c : Char) : Bool :=
  c.isAlphanum || c == '_'

def isName (text : String) : Bool :=
  text != "" && text.toList.all isNameChar

end Text

open Text

def ItemPath.isPlain (path : ItemPath) : Bool :=
  isName path.package && path.components.all isName

namespace Ty

mutual

def isPlain : Ty → Bool
  | .scalar _ => true
  | .tuple elements => allPlain elements
  | .path item arguments => item.isPlain && allPlain arguments
  | .ref _ inner | .pointer _ inner | .array inner _ | .slice inner => inner.isPlain
termination_by structural t => t

def allPlain : List Ty → Bool
  | [] => true
  | t :: ts => t.isPlain && allPlain ts
termination_by structural ts => ts

end

@[simp]
theorem allPlain_iff {types : List Ty} : allPlain types ↔ ∀ t ∈ types, t.isPlain := by
  induction types with
  | nil => simp [allPlain]
  | cons t ts ih => simp [allPlain, ih]

end Ty

def TypeArgs.isPlain (arguments : TypeArgs) : Bool :=
  arguments.types.all Ty.isPlain

def Path.isPlain (path : Path) : Bool :=
  path.item.isPlain && path.arguments.isPlain

def Constant.isPlain : Constant → Bool
  | .int _ | .uint _ | .bool _ | .bytes _ | .text _ => true
  | .float _ => false
  | .item path | .address path _ => path.isPlain

def Place.isPlain : Place → Bool
  | .var _ | .temp _ | .arg _ | .returnSlot => true
  | .static path => path.isPlain
  | .field base _ | .deref base | .downcast base _ => base.isPlain
  | .index base position => base.isPlain && position.isPlain

def Operand.isPlain : Operand → Bool
  | .place p => p.isPlain
  | .constant c => c.isPlain

def Expr.isPlain : Expr → Bool
  | .use value | .repeated value _ | .unary value _ | .metadataOf value | .pointerOf value => value.isPlain
  | .constant c => c.isPlain
  | .borrow _ _ place => place.isPlain
  | .cast value ty => value.isPlain && ty.isPlain
  | .binary left _ right => left.isPlain && right.isPlain
  | .fatPointer pointer metadata => pointer.isPlain && metadata.isPlain
  | .tuple values | .array values => values.all Operand.isPlain
  | .variant path _ value => path.isPlain && value.isPlain
  | .struct path _ fields => path.isPlain && fields.all Operand.isPlain

def Callee.isPlain : Callee → Bool
  | .value v => v.isPlain
  | .path p => p.isPlain
  | .intrinsic name arguments => isName name && arguments.isPlain

def Terminator.isPlain : Terminator → Bool
  | .incomplete | .ret | .diverge | .goto _ | .unwind _ => true
  | .branch condition _ _ => condition.isPlain
  | .switch value _ => value.isPlain
  | .call callee arguments result _ _ => callee.isPlain && arguments.all Operand.isPlain && result.isPlain

def Statement.isPlain (statement : Statement) : Bool :=
  statement.target.isPlain && statement.source.isPlain

def Block.isPlain (block : Block) : Bool :=
  block.statements.all Statement.isPlain && block.terminator.isPlain

def Body.isPlain (body : Body) : Bool :=
  body.args.all Ty.isPlain && body.result.isPlain && body.vars.all Ty.isPlain && body.temps.all Ty.isPlain
    && body.blocks.all Block.isPlain

end MidIR
