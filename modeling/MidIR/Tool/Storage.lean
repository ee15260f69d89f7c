import MidIR.Binary.File
import MidIR.Json.Node
import MidIR.Tool.Failure
import MidIR.Tool.Note

namespace MidIR.Tool

def fileName? (path : String) : Option String :=
  match ((Text.pieces '/' path).filter fun name => name ≠ "" ∧ name ≠ ".").getLast? with
  | some name => if name = ".." then none else some name
  | none => none

/-- What follows the last point of a file name. A point at its start belongs to the name. -/
def nameExtension? (name : List Char) : Option (List Char) :=
  match name.reverse.dropWhile (· ≠ '.') with
  | _ :: _ :: _ => some (name.reverse.takeWhile (· ≠ '.')).reverse
  | _ => none

def extension? (path : String) : Option (List Char) :=
  (fileName? path).bind fun name => nameExtension? name.toList

/-- Upper-case ASCII letters count as lower-case ones. -/
def Format.ofPath (path : String) : Format :=
  if (extension? path).map (·.map Char.toLower) = some ['j', 's', 'o', 'n'] then .json else .binary

def Format.resolve (asked : Option Format) (path : String) : Format :=
  asked.getD (ofPath path)

def parse (format : Format) (bytes : List UInt8) : Except (FileError ⊕ LoadError) (Body × List Note) :=
  match format with
  | .binary =>
    match Binary.decodeBody bytes with
    | .ok body => .ok (body, [.decodedBody bytes.length body.blocks.length])
    | .error error => .error (.inr (.binary error))
  | .json =>
    match String.fromUTF8? ⟨bytes.toArray⟩ with
    | none => .error (.inl .notText)
    | some text =>
      match Body.ofJsonText text with
      | .ok body => .ok (body, [])
      | .error fault => .error (.inr (.json fault))

structure Outcome (α : Type) where
  notes : List Note
  result : Except Failure α

def load (path : String) (asked : Option Format) (contents : Except FileError (List UInt8)) :
    Outcome Body :=
  let format := Format.resolve asked path
  let start := Note.loadingBody path format
  match contents with
  | .error error => ⟨[start], .error (.unreadable path error)⟩
  | .ok bytes =>
    match parse format bytes with
    | .ok (body, notes) => ⟨start :: notes, .ok body⟩
    | .error (.inl error) => ⟨[start], .error (.unreadable path error)⟩
    | .error (.inr error) => ⟨[start], .error (.unloadable path error)⟩

/-- The contents of a file that stores a body. JSON text ends its last line. -/
def store (format : Format) (body : Body) : Except Misuse (List UInt8) :=
  match format with
  | .binary => Binary.file body
  | .json => .ok (utf8 (body.toJsonText ++ "\n"))

end MidIR.Tool
