import MidIR.NameTable

namespace MidIR

/-- An absolute path to an item, without type arguments. -/
structure ItemPath where
  package : String
  components : List String
  deriving DecidableEq, Repr

def ItemPath.name? (path : ItemPath) : Option String :=
  path.components.getLast?

inductive Scalar
  | u8 | u16 | u32 | u64 | u128 | usize
  | i8 | i16 | i32 | i64 | i128 | isize
  | f32 | f64 | bool | char | str
  deriving DecidableEq, Repr

namespace Scalar

def names : NameTable Scalar where
  all := [.u8, .u16, .u32, .u64, .u128, .usize, .i8, .i16, .i32, .i64, .i128, .isize,
    .f32, .f64, .bool, .char, .str]
  name
    | .u8 => "u8" | .u16 => "u16" | .u32 => "u32" | .u64 => "u64" | .u128 => "u128"
    | .usize => "usize" | .i8 => "i8" | .i16 => "i16" | .i32 => "i32" | .i64 => "i64"
    | .i128 => "i128" | .isize => "isize" | .f32 => "f32" | .f64 => "f64" | .bool => "bool"
    | .char => "char" | .str => "str"
  complete a := by cases a <;> decide
  distinct := by decide

def identifiers : NameTable Scalar where
  all := names.all
  name
    | .u8 => "U8" | .u16 => "U16" | .u32 => "U32" | .u64 => "U64" | .u128 => "U128"
    | .usize => "Usize" | .i8 => "I8" | .i16 => "I16" | .i32 => "I32" | .i64 => "I64"
    | .i128 => "I128" | .isize => "Isize" | .f32 => "F32" | .f64 => "F64" | .bool => "Bool"
    | .char => "Char" | .str => "Str"
  complete := names.complete
  distinct := by decide

def isSigned : Scalar → Bool
  | .i8 | .i16 | .i32 | .i64 | .i128 | .isize => true
  | _ => false

def isFloat : Scalar → Bool
  | .f32 | .f64 => true
  | _ => false

end Scalar

/-- What a reference or pointer grants: shared use, exclusive use, or ownership. -/
inductive RefKind
  | shared | unique | owned
  deriving DecidableEq, Repr

def RefKind.names : NameTable RefKind where
  all := [.shared, .unique, .owned]
  name | .shared => "Shared" | .unique => "Unique" | .owned => "Owned"
  complete a := by cases a <;> decide
  distinct := by decide

/-- A fully resolved type. A path keeps its type arguments beside the item it names. -/
inductive Ty
  | scalar (scalar : Scalar)
  | tuple (elements : List Ty)
  | path (item : ItemPath) (arguments : List Ty)
  | ref (kind : RefKind) (inner : Ty)
  | pointer (kind : RefKind) (inner : Ty)
  | array (inner : Ty) (size : UInt64)
  | slice (inner : Ty)
  deriving Repr

structure TypeArgs where
  types : List Ty
  deriving Repr

structure Path where
  item : ItemPath
  arguments : TypeArgs
  deriving Repr

def Path.ofItem (item : ItemPath) : Path :=
  ⟨item, ⟨[]⟩⟩

namespace Ty

def unit : Ty := .tuple []

def isUnit : Ty → Bool
  | .tuple [] => true
  | _ => false

inductive Form
  | scalar | tuple | path | ref | pointer | array | slice
  deriving DecidableEq, Repr

def form : Ty → Form
  | .scalar _ => .scalar
  | .tuple _ => .tuple
  | .path .. => .path
  | .ref .. => .ref
  | .pointer .. => .pointer
  | .array .. => .array
  | .slice _ => .slice

def forms : NameTable Form where
  all := [.scalar, .tuple, .path, .ref, .pointer, .array, .slice]
  name
    | .scalar => "Primitive" | .tuple => "Tuple" | .path => "Path" | .ref => "Borrow"
    | .pointer => "Pointer" | .array => "Array" | .slice => "Slice"
  complete a := by cases a <;> decide
  distinct := by decide

theorem inductionOn {P : Ty → Prop} (t : Ty) (scalar : ∀ s, P (.scalar s))
    (tuple : ∀ elements, (∀ e ∈ elements, P e) → P (.tuple elements))
    (path : ∀ item arguments, (∀ a ∈ arguments, P a) → P (.path item arguments))
    (ref : ∀ kind inner, P inner → P (.ref kind inner))
    (pointer : ∀ kind inner, P inner → P (.pointer kind inner))
    (array : ∀ inner size, P inner → P (.array inner size))
    (slice : ∀ inner, P inner → P (.slice inner)) : P t :=
  @Ty.rec P (fun ts => ∀ t ∈ ts, P t) scalar tuple path ref pointer array slice
    (by simp) (fun _ _ head tail => by simpa using ⟨head, tail⟩) t

end Ty

end MidIR
