import MidIR.Binary.Error
import MidIR.Body.Validation
import MidIR.Json.Quoted

namespace MidIR.Tool

inductive FileError
  | notFound
  | notDirectory
  | isDirectory
  | notText
  | other (message : String)
  deriving DecidableEq, Repr

def FileError.message : FileError → String
  | .notFound => "No such file or directory (os error 2)"
  | .notDirectory => "Not a directory (os error 20)"
  | .isDirectory => "Is a directory (os error 21)"
  | .notText => "stream did not contain valid UTF-8"
  | .other message => message

inductive LoadError
  | binary (error : DecodeError)
  | json (fault : Json.Fault)
  deriving DecidableEq, Repr

/-- The words are this library's own. The tool promises none for a text that it cannot read. -/
def faultMessage : Json.Fault → String
  | .malformed => "malformed JSON"
  | .truncated => "unexpected end of JSON text"
  | .mismatch => "JSON of another shape than a function body"

namespace LoadError

def cause : LoadError → String
  | .binary error => error.message
  | .json fault => faultMessage fault

def message (error : LoadError) : String :=
  match error with
  | .binary _ => "Failed to decode MIR: " ++ error.cause
  | .json _ => "Failed to read MIR JSON: " ++ error.cause

end LoadError

inductive Failure
  | unreadable (path : String) (error : FileError)
  | unwritable (path : String) (error : FileError)
  | unloadable (path : String) (error : LoadError)
  | defective (defect : Defect)
  deriving DecidableEq, Repr

namespace Failure

def causes : Failure → String × List String
  | .unreadable path error => ("Failed to read " ++ path, [error.message])
  | .unwritable path error => ("Failed to write " ++ path, [error.message])
  | .unloadable path error => ("Failed to load " ++ path, [error.message, error.cause])
  | .defective defect => (defect.message, [])

def line (failure : Failure) : String :=
  Text.separated ": " (failure.causes.1 :: failure.causes.2)

def indentLines (indent text : String) : String :=
  Text.separated ("\n" ++ indent) (Text.pieces '\n' text)

def causeLines : List String → String
  | [cause] => "    " ++ indentLines "    " cause ++ "\n"
  | causes => String.join <| causes.zipIdx.map fun (cause, i) =>
      "    " ++ i.repr ++ ": " ++ indentLines "       " cause ++ "\n"

def report (failure : Failure) : String :=
  match failure.causes with
  | (outermost, []) => "Error: " ++ outermost ++ "\n"
  | (outermost, causes) => "Error: " ++ outermost ++ "\n\nCaused by:\n" ++ causeLines causes

end Failure

end MidIR.Tool
