import MidIR.Text.Render

namespace MidIR

inductive Level
  | error | warn | info | debug | trace
  deriving DecidableEq, Repr

/-- How much a level lets through: each lets through what those before it do. -/
def Level.rank (level : Level) : Nat := level.ctorIdx

def Level.name : Level → String
  | .error => "ERROR"
  | .warn => "WARN"
  | .info => "INFO"
  | .debug => "DEBUG"
  | .trace => "TRACE"

def Format.name : Format → String
  | .binary => "Bin"
  | .json => "Json"

namespace Note

def level : Note → Level
  | .allocatedBlock _ | .declaredVariable .. | .declaredTemporary .. => .trace
  | .unreachableBlock _ => .warn
  | .convertedBody .. => .info
  | .validatedBody .. | .decodedBody .. | .loadingBody .. | .savingBody .. => .debug

def origin : Note → String
  | .allocatedBlock _ | .declaredVariable .. | .declaredTemporary .. | .unreachableBlock _
  | .validatedBody .. => "corvid_mir::body"
  | .decodedBody .. => "corvid_mir::serial"
  | .loadingBody .. | .savingBody .. => "corvid_mir::io"
  | .convertedBody .. => "corvid_mir::commands::convert"

def message : Note → String
  | .allocatedBlock block => "allocated block block=" ++ block.render
  | .declaredVariable index ty => "declared variable index=" ++ Text.word index ++ " ty=" ++ ty.render
  | .declaredTemporary index ty => "declared temporary index=" ++ Text.word index ++ " ty=" ++ ty.render
  | .unreachableBlock block => "block is unreachable from entry block=" ++ block.render
  | .validatedBody blocks statements =>
    "validated function body blocks=" ++ blocks.repr ++ " statements=" ++ statements.repr
  | .decodedBody bytes blocks =>
    "decoded function body bytes=" ++ bytes.repr ++ " blocks=" ++ blocks.repr
  | .loadingBody path format => "loading body path=" ++ path ++ " format=" ++ format.name
  | .savingBody path format => "saving body path=" ++ path ++ " format=" ++ format.name
  | .convertedBody input output blocks =>
    "converted body input=" ++ input ++ " output=" ++ output ++ " blocks=" ++ blocks.repr

def shortLine (note : Note) : String := note.level.name ++ " " ++ note.message

def line (note : Note) : String := note.level.name ++ " " ++ note.origin ++ ": " ++ note.message

end Note

end MidIR
