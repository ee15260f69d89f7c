import MidIR.Text.Listing
import MidIR.Tool.Arguments
import MidIR.Tool.Directory
import MidIR.Tool.Storage

/-!
# Running commands

What the tool prints, notes and writes, as a function of its arguments and of the files it reads.
`print` shows the listing of a body, `check` validates bodies and gives a verdict on every file, and
`convert` stores a body in another format.
-/

namespace MidIR.Tool

structure Output where
  status : UInt8
  stdout : String := ""
  stderr : String := ""
  notes : List Note := []

/-- A run is over, or it has a file to write and goes on with the outcome of that. -/
inductive Action
  | done (output : Output)
  | write (path : String) (bytes : List UInt8) (next : Except FileError Unit → Output)

def failed (notes : List Note) (failure : Failure) : Output :=
  { status := 1, stderr := failure.report, notes }

def aborted (notes : List Note) (misuse : Misuse) : Output :=
  { status := 101, stderr := misuse.message ++ "\n", notes }

abbrev Files := String → Except FileError (List UInt8)

/-! ## Print -/

def printListing (files : Files) (path : String) (format : Option Format) : Output :=
  match load path format (files path) with
  | ⟨notes, .ok body⟩ => { status := 0, stdout := body.listing, notes }
  | ⟨notes, .error failure⟩ => failed notes failure

/-! ## Check -/

structure Verdict where
  file : String
  result : Except Failure Body.Summary
  notes : List Note

def summaryNotes (summary : Body.Summary) : List Note :=
  summary.unreachable.map .unreachableBlock ++ [.validatedBody summary.blocks summary.statements]

def Verdict.ofFile (files : Files) (format : Option Format) (path : String) : Verdict :=
  match load path format (files path) with
  | ⟨notes, .error failure⟩ => ⟨path, .error failure, notes⟩
  | ⟨notes, .ok body⟩ =>
    match body.validate with
    | .ok summary => ⟨path, .ok summary, notes ++ summaryNotes summary⟩
    | .error defect => ⟨path, .error (.defective defect), notes⟩

namespace Verdict

def passed (verdict : Verdict) : Bool := verdict.result.isOk

def okLine (verdict : Verdict) : String :=
  match verdict.result with
  | .ok summary => "ok: " ++ verdict.file ++ " (" ++ summary.blocks.repr ++ " blocks, "
      ++ summary.statements.repr ++ " statements)\n"
  | .error _ => ""

def errorLine (verdict : Verdict) : String :=
  match verdict.result with
  | .ok _ => ""
  | .error failure => "error: " ++ verdict.file ++ ": " ++ failure.line ++ "\n"

def toJson (verdict : Verdict) : Json :=
  match verdict.result with
  | .ok summary => .object [("blocks", .number summary.blocks), ("file", .text verdict.file),
      ("ok", .bool true), ("statements", .number summary.statements)]
  | .error failure => .object
      [("error", .text failure.line), ("file", .text verdict.file), ("ok", .bool false)]

end Verdict

def checkFiles (files : Files) (paths : List String) (format : Option Format) (asJson : Bool) : Output :=
  let verdicts := paths.map (Verdict.ofFile files format)
  let status := if verdicts.all (·.passed) then 0 else 1
  let notes := verdicts.flatMap (·.notes)
  if asJson then
    { status, notes, stdout := (Json.array (verdicts.map Verdict.toJson)).pretty ++ "\n" }
  else
    { status, notes, stdout := String.join (verdicts.map Verdict.okLine),
      stderr := String.join (verdicts.map Verdict.errorLine) }

/-! ## Convert -/

def convertFile (files : Files) (input output : String) (source target : Option Format) : Action :=
  match load input source (files input) with
  | ⟨notes, .error failure⟩ => .done (failed notes failure)
  | ⟨notes, .ok body⟩ =>
    let format := Format.resolve target output
    let notes := notes ++ [.savingBody output format]
    match store format body with
    | .error misuse => .done (aborted notes misuse)
    | .ok bytes => .write output bytes fun
      | .error error => failed notes (.unwritable output error)
      | .ok () => { status := 0, notes := notes ++ [.convertedBody input output body.blocks.length] }

/-! ## The tool -/

def Command.run (files : Files) : Command → Action
  | .print file format => .done (printListing files file format)
  | .check paths format asJson => .done (checkFiles files paths format asJson)
  | .convert input output source target => convertFile files input output source target

def Command.inputs : Command → List String
  | .print file _ => [file]
  | .check files _ _ => files
  | .convert input _ _ _ => [input]

def usage : String :=
  "Usage: corvid-mir [-v | -q] <command>\n\n"
    ++ "  print FILE [-f bin|json]\n"
    ++ "  check FILE... [-f bin|json] [--json]\n"
    ++ "  convert INPUT OUTPUT [--from bin|json] [--to bin|json]\n"

def Stop.output : Stop → Output
  | .misuse => { status := 2, stderr := usage }
  | .help => { status := 0, stdout := usage }
  | .version => { status := 0, stdout := "corvid-mir 0.1.0\n" }

def Output.upTo (threshold : Level) (output : Output) : Output :=
  { output with notes := output.notes.filter fun note => note.level.rank ≤ threshold.rank }

def Action.upTo (threshold : Level) : Action → Action
  | .done output => .done (output.upTo threshold)
  | .write path bytes next => .write path bytes fun written => (next written).upTo threshold

def Invocation.run (files : Files) (invocation : Invocation) : Action :=
  (invocation.command.run files).upTo invocation.threshold

def Action.perform (directory : Directory) : Action → Output × Directory
  | .done output => (output, directory)
  | .write path bytes next =>
    match directory.write path bytes with
    | .ok changed => (next (.ok ()), changed)
    | .error error => (next (.error error), directory)

def runIn (directory : Directory) (arguments : List String) : Output × Directory :=
  match Invocation.ofArguments arguments with
  | .error stop => (stop.output, directory)
  | .ok invocation => (invocation.run directory.read).perform directory

end MidIR.Tool
