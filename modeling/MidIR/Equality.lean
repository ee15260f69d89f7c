import MidIR.Body.Basic

namespace MidIR

deriving instance BEq for ItemPath, Scalar, RefKind

namespace Ty

mutual

def same : Ty → Ty → Bool
  | .scalar s, .scalar t => s == t
  | .tuple as, .tuple bs => sameAll as bs
  | .path i as, .path j bs => i == j && sameAll as bs
  | .ref j a, .ref k b => j == k && a.same b
  | .pointer j a, .pointer k b => j == k && a.same b
  | .array a m, .array b n => a.same b && m == n
  | .slice a, .slice b => a.same b
  | _, _ => false
termination_by structural a => a

def sameAll : List Ty → List Ty → Bool
  | [], [] => true
  | a :: as, b :: bs => a.same b && sameAll as bs
  | _, _ => false
termination_by structural as => as

end

end Ty

instance : BEq Ty := ⟨Ty.same⟩

deriving instance BEq for TypeArgs, Path, Place

def Constant.same : Constant → Constant → Bool
  | .int a, .int b => a == b
  | .uint a, .uint b => a == b
  | .float a, .float b => a == b
  | .bool a, .bool b => a == b
  | .bytes a, .bytes b => a == b
  | .text a, .text b => a == b
  | .item a, .item b => a == b
  | .address p m, .address q n => p == q && m == n
  | _, _ => false

instance : BEq Constant := ⟨Constant.same⟩

deriving instance BEq for Operand, BinaryOp, UnaryOp, Expr, Label, Callee, Terminator, Statement,
  Block, Body

end MidIR
