import MidIR.Terminator

namespace MidIR

inductive Format
  | binary | json
  deriving DecidableEq, Repr

/-- What the library and the tool report while they work. -/
inductive Note
  | allocatedBlock (block : Label)
  | declaredVariable (index : UInt32) (ty : Ty)
  | declaredTemporary (index : UInt32) (ty : Ty)
  | unreachableBlock (block : Label)
  | validatedBody (blocks statements : Nat)
  | decodedBody (bytes blocks : Nat)
  | loadingBody (path : String) (format : Format)
  | savingBody (path : String) (format : Format)
  | convertedBody (input output : String) (blocks : Nat)
  deriving DecidableEq, Repr

end MidIR
