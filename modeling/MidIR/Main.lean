import MidIR.Tool.Run

namespace MidIR.Tool

def FileError.ofIO : IO.Error → FileError
  | .noFileOrDirectory .. | .noSuchThing .. => .notFound
  | .inappropriateType .. => .isDirectory
  | error => .other error.toString

def readFile (path : String) : IO (Except FileError (List UInt8)) := do
  try return .ok (← IO.FS.readBinFile path).data.toList
  catch error => return .error (.ofIO error)

def writeFile (path : String) (bytes : List UInt8) : IO (Except FileError Unit) := do
  try
    IO.FS.writeBinFile path ⟨bytes.toArray⟩
    return .ok ()
  catch error => return .error (.ofIO error)

def Output.emit (output : Output) : IO UInt32 := do
  for note in output.notes do IO.eprintln note.line
  IO.print output.stdout
  IO.eprint output.stderr
  return output.status.toUInt32

def perform (invocation : Invocation) : IO UInt32 := do
  let contents ← invocation.command.inputs.mapM fun path => return (path, ← readFile path)
  match invocation.run fun path => (contents.lookup path).getD (.error .notFound) with
  | .done output => output.emit
  | .write path bytes next => do (next (← writeFile path bytes)).emit

end MidIR.Tool

def main (arguments : List String) : IO UInt32 :=
  match MidIR.Tool.Invocation.ofArguments arguments with
  | .error stop => stop.output.emit
  | .ok invocation => MidIR.Tool.perform invocation
