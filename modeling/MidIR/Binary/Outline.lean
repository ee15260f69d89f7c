import MidIR.Binary.Record

/-!
# Outlines of binary records

What stands in the binary form of a value: its bytes, the lengths among them, and where the records
of places and types start in it. A length has 32 bits, so a value with a longer text or sequence has
no binary form (`tooLong?`).
-/

namespace MidIR

/-- Where the record of a place or type starts, and how many are open in it, itself included. -/
structure Start where
  offset : Nat
  level : Nat
  deriving DecidableEq, Repr

structure Outline where
  bytes : List UInt8
  /-- The lengths of texts, byte strings and sequences, in the order in which they are written. -/
  lengths : List Nat
  /-- The starts of the records of a value that stands at an offset inside so many open records. -/
  records : (offset depth : Nat) → List Start

namespace Outline

def plain (bytes : List UInt8) : Outline := ⟨bytes, [], fun _ _ => []⟩

instance : Append Outline where
  append a b := ⟨a.bytes ++ b.bytes, a.lengths ++ b.lengths,
    fun offset depth => a.records offset depth ++ b.records (offset + a.bytes.length) depth⟩

def join : List Outline → Outline
  | [] => plain []
  | o :: os => o ++ join os

def record (parts : List Outline) : Outline :=
  { join parts with
    records := fun offset depth => ⟨offset, depth + 1⟩ :: (join parts).records offset (depth + 1) }

def name (text : String) : Outline := plain (Encode.text text)

def length (n : Nat) : Outline := ⟨Encode.length n, [n], fun _ _ => []⟩

def byteString (bytes : List UInt8) : Outline := join [length bytes.length, plain bytes]

def text (s : String) : Outline := byteString (utf8 s)

def seq {α : Type} (outline : α → Outline) (values : List α) : Outline :=
  length values.length ++ join (values.map outline)

def option {α : Type} (outline : α → Outline) : Option α → Outline
  | none => plain (Encode.bool false)
  | some value => join [plain (Encode.bool true), outline value]

end Outline

class Outlined (α : Type) where
  outline : α → Outline

export Outlined (outline)

def tooLong? {α : Type} [Outlined α] (value : α) : Option Nat :=
  (outline value).lengths.find? fun n => 0xffffffff < n

open Outline (plain join record name text seq option)

instance : Outlined UInt32 := ⟨fun n => plain (Encode.u32 n)⟩

instance : Outlined UInt64 := ⟨fun n => plain (Encode.u64 n)⟩

instance : Outlined String := ⟨text⟩

instance : Outlined ItemPath := ⟨fun path => join [text path.package, seq text path.components]⟩

instance : Outlined Scalar := ⟨fun scalar => name (Scalar.names.name scalar)⟩

instance : Outlined RefKind := ⟨fun kind => name (RefKind.names.name kind)⟩

namespace Ty

mutual

def outline : Ty → Outline
  | .scalar s => record [name "Primitive", Outlined.outline s]
  | .tuple elements => record [name "Tuple", .length elements.length ++ outlineAll elements]
  | .path item arguments =>
    record [name "Path", Outlined.outline item, .length arguments.length ++ outlineAll arguments]
  | .ref kind inner => record [name "Borrow", Outlined.outline kind, inner.outline]
  | .pointer kind inner => record [name "Pointer", Outlined.outline kind, inner.outline]
  | .array inner size => record [name "Array", inner.outline, Outlined.outline size]
  | .slice inner => record [name "Slice", inner.outline]
termination_by structural t => t

def outlineAll : List Ty → Outline
  | [] => join []
  | t :: ts => t.outline ++ outlineAll ts
termination_by structural ts => ts

end

end Ty

instance : Outlined Ty := ⟨Ty.outline⟩

instance : Outlined TypeArgs := ⟨fun arguments => seq outline arguments.types⟩

instance : Outlined Path := ⟨fun path => join [outline path.item, outline path.arguments]⟩

namespace Constant

def fieldOutlines : Constant → List Outline
  | .int value => [plain (Encode.i64 value)]
  | .uint value => [outline value]
  | .float bits => [outline bits]
  | .bool value => [plain (Encode.bool value)]
  | .bytes bs => [.byteString bs]
  | .text t => [outline t]
  | .item path => [outline path]
  | .address path offset => [outline path, option outline offset]

instance : Outlined Constant := ⟨fun c => join (name (forms.name c.form) :: c.fieldOutlines)⟩

end Constant

namespace Place

def outline : Place → Outline
  | .var i => record [name "Variable", Outlined.outline i]
  | .temp i => record [name "Temporary", Outlined.outline i]
  | .arg i => record [name "Argument", Outlined.outline i]
  | .static path => record [name "Static", Outlined.outline path]
  | .returnSlot => record [name "Return"]
  | .field base i => record [name "Field", base.outline, Outlined.outline i]
  | .deref base => record [name "Deref", base.outline]
  | .index base position => record [name "Index", base.outline, position.outline]
  | .downcast base i => record [name "Downcast", base.outline, Outlined.outline i]

end Place

instance : Outlined Place := ⟨Place.outline⟩

instance : Outlined Operand where
  outline
    | .place p => join [name "Place", outline p]
    | .constant c => join [name "Constant", outline c]

instance : Outlined BinaryOp := ⟨fun op => name (BinaryOp.mnemonics.name op)⟩

instance : Outlined UnaryOp := ⟨fun op => name (UnaryOp.mnemonics.name op)⟩

namespace Expr

def fieldOutlines : Expr → List Outline
  | .use value | .metadataOf value | .pointerOf value => [outline value]
  | .constant c => [outline c]
  | .repeated value count => [outline value, outline count]
  | .borrow region kind place => [outline region, outline kind, outline place]
  | .cast value ty => [outline value, outline ty]
  | .binary left op right => [outline left, outline op, outline right]
  | .unary value op => [outline value, outline op]
  | .fatPointer pointer metadata => [outline pointer, outline metadata]
  | .tuple values | .array values => [seq outline values]
  | .variant path index value => [outline path, outline index, outline value]
  | .struct path index fields => [outline path, option outline index, seq outline fields]

instance : Outlined Expr := ⟨fun e => join (name (forms.name e.form) :: e.fieldOutlines)⟩

end Expr

instance : Outlined Label := ⟨fun label => outline label.index⟩

namespace Callee

def fieldOutlines : Callee → List Outline
  | .value v => [outline v]
  | .path p => [outline p]
  | .intrinsic name arguments => [outline name, outline arguments]

instance : Outlined Callee := ⟨fun callee => join (name (forms.name callee.form) :: callee.fieldOutlines)⟩

end Callee

namespace Terminator

def fieldOutlines : Terminator → List Outline
  | .incomplete | .ret | .diverge => []
  | .goto target | .unwind target => [outline target]
  | .branch condition yes no => [outline condition, outline yes, outline no]
  | .switch value targets => [outline value, seq outline targets]
  | .call callee arguments result returns unwinds =>
    [outline callee, seq outline arguments, outline result, outline returns, outline unwinds]

instance : Outlined Terminator :=
  ⟨fun terminator => join (name (forms.name terminator.form) :: terminator.fieldOutlines)⟩

end Terminator

instance : Outlined Statement :=
  ⟨fun statement => join [outline statement.target, outline statement.source]⟩

instance : Outlined Block :=
  ⟨fun block => join [seq outline block.statements, outline block.terminator]⟩

instance : Outlined Body where
  outline body := join
    [seq outline body.args, outline body.result, seq outline body.vars, seq outline body.temps,
      seq outline body.blocks]

end MidIR
