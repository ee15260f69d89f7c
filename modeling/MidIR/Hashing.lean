import MidIR.Body.Basic

namespace MidIR

inductive Write
  | u8 (value : UInt8)
  | u32 (value : UInt32)
  | u64 (value : UInt64)
  | i64 (value : Int64)
  | text (value : String)
  /-- All bytes of a byte string at once. -/
  | bytes (bytes : List UInt8)
  | length (elements : Nat)
  | form (position : Nat)
  deriving DecidableEq, Repr

class Hashed (α : Type) where
  writes : α → List Write

export Hashed (writes)

namespace Write

variable {α : Type} [Hashed α]

def seq (values : List α) : List Write := .length values.length :: values.flatMap writes

def option : Option α → List Write
  | none => [.form 0]
  | some value => .form 1 :: writes value

end Write

open Write

instance : Hashed UInt32 := ⟨fun n => [.u32 n]⟩

instance : Hashed UInt64 := ⟨fun n => [.u64 n]⟩

instance : Hashed Bool := ⟨fun b => [.u8 b.toUInt8]⟩

instance : Hashed String := ⟨fun s => [.text s]⟩

instance : Hashed ItemPath := ⟨fun path => writes path.package ++ seq path.components⟩

instance : Hashed Scalar := ⟨fun s => [.form s.ctorIdx]⟩

instance : Hashed RefKind := ⟨fun kind => [.form kind.ctorIdx]⟩

namespace Ty

mutual

def hashed : Ty → List Write
  | .scalar s => .form 0 :: writes s
  | .tuple elements => .form 1 :: .length elements.length :: hashedAll elements
  | .path item arguments => .form 2 :: writes item ++ .length arguments.length :: hashedAll arguments
  | .ref kind inner => .form 3 :: writes kind ++ inner.hashed
  | .pointer kind inner => .form 4 :: writes kind ++ inner.hashed
  | .array inner size => .form 5 :: inner.hashed ++ writes size
  | .slice inner => .form 6 :: inner.hashed
termination_by structural t => t

def hashedAll : List Ty → List Write
  | [] => []
  | t :: ts => t.hashed ++ hashedAll ts
termination_by structural ts => ts

end

end Ty

instance : Hashed Ty := ⟨Ty.hashed⟩

instance : Hashed TypeArgs := ⟨fun arguments => seq arguments.types⟩

instance : Hashed Path := ⟨fun path => writes path.item ++ writes path.arguments⟩

def Place.hashed : Place → List Write
  | .var i => .form 0 :: writes i
  | .temp i => .form 1 :: writes i
  | .arg i => .form 2 :: writes i
  | .static path => .form 3 :: writes path
  | .returnSlot => [.form 4]
  | .field base i => .form 5 :: base.hashed ++ writes i
  | .deref base => .form 6 :: base.hashed
  | .index base position => .form 7 :: base.hashed ++ position.hashed
  | .downcast base i => .form 8 :: base.hashed ++ writes i

instance : Hashed Place := ⟨Place.hashed⟩

instance : Hashed Constant where
  writes c := .form c.ctorIdx :: match c with
    | .int value => [.i64 value]
    | .uint value => writes value
    | .float bits => writes bits
    | .bool value => writes value
    | .bytes bs => [.length bs.length, .bytes bs]
    | .text t => writes t
    | .item path => writes path
    | .address path offset => writes path ++ option offset

instance : Hashed Operand where
  writes operand := .form operand.ctorIdx :: match operand with
    | .place p => writes p
    | .constant c => writes c

instance : Hashed BinaryOp := ⟨fun op => [.form op.ctorIdx]⟩

instance : Hashed UnaryOp := ⟨fun op => [.form op.ctorIdx]⟩

instance : Hashed Expr where
  writes e := .form e.ctorIdx :: match e with
    | .use value | .metadataOf value | .pointerOf value => writes value
    | .constant c => writes c
    | .repeated value count => writes value ++ writes count
    | .borrow region kind place => writes region ++ writes kind ++ writes place
    | .cast value ty => writes value ++ writes ty
    | .binary left op right => writes left ++ writes op ++ writes right
    | .unary value op => writes value ++ writes op
    | .fatPointer pointer metadata => writes pointer ++ writes metadata
    | .tuple values | .array values => seq values
    | .variant path index value => writes path ++ writes index ++ writes value
    | .struct path index fields => writes path ++ option index ++ seq fields

instance : Hashed Label := ⟨fun label => writes label.index⟩

instance : Hashed Callee where
  writes callee := .form callee.ctorIdx :: match callee with
    | .value v => writes v
    | .path p => writes p
    | .intrinsic name arguments => writes name ++ writes arguments

instance : Hashed Terminator where
  writes terminator := .form terminator.ctorIdx :: match terminator with
    | .incomplete | .ret | .diverge => []
    | .goto target | .unwind target => writes target
    | .branch condition yes no => writes condition ++ writes yes ++ writes no
    | .switch value targets => writes value ++ seq targets
    | .call callee arguments result returns unwinds =>
      writes callee ++ seq arguments ++ writes result ++ writes returns ++ writes unwinds

instance : Hashed Statement :=
  ⟨fun statement => writes statement.target ++ writes statement.source⟩

end MidIR
