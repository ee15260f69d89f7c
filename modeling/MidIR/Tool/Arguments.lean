import MidIR.Tool.Note

/-!
# Command-line arguments

The arguments are read from left to right. Switches of one letter may share a dash; a switch with a
value takes it from the rest of its argument or from the next one; after `--` all arguments are
operands. The switches for the amount of notes may stand before the command as well as after it, and
those after it win.
-/

namespace MidIR.Tool

inductive Command
  | print (file : String) (format : Option Format)
  | check (files : List String) (format : Option Format) (asJson : Bool)
  | convert (input output : String) (source target : Option Format)
  deriving DecidableEq, Repr

structure Invocation where
  command : Command
  threshold : Level
  deriving DecidableEq, Repr

inductive Stop
  | misuse
  | help
  | version
  deriving DecidableEq, Repr

inductive Switch
  | verbose | quiet | help | version | json | format | source | target
  deriving DecidableEq, Repr

namespace Switch

def long : Switch → String
  | .verbose => "verbose"
  | .quiet => "quiet"
  | .help => "help"
  | .version => "version"
  | .json => "json"
  | .format => "format"
  | .source => "from"
  | .target => "to"

def short? : Switch → Option Char
  | .verbose => some 'v'
  | .quiet => some 'q'
  | .help => some 'h'
  | .version => some 'V'
  | .format => some 'f'
  | .json | .source | .target => none

def takesFormat : Switch → Bool
  | .format | .source | .target => true
  | _ => false

end Switch

inductive CommandName
  | print | check | convert
  deriving DecidableEq, Repr

namespace CommandName

def names : NameTable CommandName where
  all := [.print, .check, .convert]
  name | .print => "print" | .check => "check" | .convert => "convert"
  complete a := by cases a <;> decide
  distinct := by decide

end CommandName

def switchesOf : Option CommandName → List Switch
  | none => [.verbose, .quiet, .help, .version]
  | some .print => [.verbose, .quiet, .help, .format]
  | some .check => [.verbose, .quiet, .help, .format, .json]
  | some .convert => [.verbose, .quiet, .help, .source, .target]

def CommandName.operandLimit : CommandName → Option Nat
  | .print => some 1
  | .check => none
  | .convert => some 2

structure Settings where
  verbose : Nat := 0
  quiet : Bool := false
  json : Bool := false
  format : Option Format := none
  source : Option Format := none
  target : Option Format := none
  operands : List String := []

def format? (name : String) : Option Format :=
  if name = "bin" then some .binary else if name = "json" then some .json else none

namespace Settings

def turnOn (settings : Settings) : Switch → Except Stop Settings
  | .verbose => .ok { settings with verbose := settings.verbose + 1 }
  | .quiet => if settings.quiet then .error .misuse else .ok { settings with quiet := true }
  | .json => if settings.json then .error .misuse else .ok { settings with json := true }
  | .help => .error .help
  | .version => .error .version
  | .format | .source | .target => .error .misuse

def give (settings : Settings) (switch : Switch) (value : String) : Except Stop Settings :=
  match format? value, switch with
  | some format, .format =>
    if settings.format.isSome then .error .misuse else .ok { settings with format := some format }
  | some format, .source =>
    if settings.source.isSome then .error .misuse else .ok { settings with source := some format }
  | some format, .target =>
    if settings.target.isSome then .error .misuse else .ok { settings with target := some format }
  | _, _ => .error .misuse

def addOperand (settings : Settings) (limit : Option Nat) (operand : String) :
    Except Stop Settings :=
  if operand = "" ∨ limit = some settings.operands.length then .error .misuse
  else .ok { settings with operands := settings.operands ++ [operand] }

end Settings

abbrev Pending := Option Switch

def afterEquals : List Char → String
  | '=' :: value => String.ofList value
  | value => String.ofList value

def readLetters (switches : List Switch) (settings : Settings) :
    List Char → Except Stop (Settings × Pending)
  | [] => .ok (settings, none)
  | letter :: letters =>
    match switches.find? fun switch => switch.short? == some letter with
    | none => .error .misuse
    | some switch =>
      if switch.takesFormat then
        if letters.isEmpty then .ok (settings, some switch)
        else (settings.give switch (afterEquals letters)).map fun settings => (settings, none)
      else
        match settings.turnOn switch with
        | .error stop => .error stop
        | .ok settings => readLetters switches settings letters

/-- Reads what follows two dashes: a name, possibly with a value after `=`. -/
def readLong (switches : List Switch) (settings : Settings) (text : List Char) :
    Except Stop (Settings × Pending) :=
  let name := String.ofList (text.takeWhile (· ≠ '='))
  match switches.find? fun switch => switch.long == name with
  | none => .error .misuse
  | some switch =>
    match text.dropWhile (· ≠ '='), switch.takesFormat with
    | _ :: value, true =>
      (settings.give switch (String.ofList value)).map fun settings => (settings, none)
    | [], true => .ok (settings, some switch)
    | [], false => (settings.turnOn switch).map fun settings => (settings, none)
    | _ :: _, false => .error .misuse

def readArguments (name : CommandName) (settings : Settings) (pending : Pending) :
    List String → Except Stop Settings
  | [] => if pending.isSome then .error .misuse else .ok settings
  | argument :: arguments => do
    match pending with
    | some switch => readArguments name (← settings.give switch argument) none arguments
    | none =>
      let operand (settings : Settings) := settings.addOperand name.operandLimit
      match argument.toList with
      | ['-', '-'] => arguments.foldlM operand settings
      | '-' :: '-' :: text =>
        let (settings, pending) ← readLong (switchesOf (some name)) settings text
        readArguments name settings pending arguments
      | '-' :: letter :: letters =>
        let (settings, pending) ← readLetters (switchesOf (some name)) settings (letter :: letters)
        readArguments name settings pending arguments
      | _ => readArguments name (← operand settings argument) none arguments

def Settings.conflicting (settings : Settings) : Bool :=
  settings.quiet && settings.verbose != 0

def Settings.command? (settings : Settings) : CommandName → Option Command
  | .print =>
    match settings.operands with
    | [file] => some (.print file settings.format)
    | _ => none
  | .check =>
    match settings.operands with
    | [] => none
    | files => some (.check files settings.format settings.json)
  | .convert =>
    match settings.operands with
    | [input, output] => some (.convert input output settings.source settings.target)
    | _ => none

def thresholdOf (verbose : Nat) (quiet : Bool) : Level :=
  if quiet then .error else
    match verbose with
    | 0 => .warn
    | 1 => .debug
    | _ => .trace

/-- The switches before the command give way to those after it. -/
def finish (before after : Settings) (name : CommandName) : Except Stop Invocation :=
  match after.command? name with
  | none => .error .misuse
  | some command =>
    if before.conflicting || after.conflicting then .error .misuse
    else
      let verbose := if after.verbose = 0 then before.verbose else after.verbose
      .ok ⟨command, thresholdOf verbose (before.quiet || after.quiet)⟩

def helpWith : List String → Stop
  | [] => .help
  | [name] => if (CommandName.names.find? name).isSome ∨ name = "help" then .help else .misuse
  | _ => .misuse

def readInvocation (before : Settings) : List String → Except Stop Invocation
  | [] => .error .misuse
  | argument :: arguments => do
    match argument.toList with
    | ['-', '-'] => .error .misuse
    | '-' :: '-' :: text =>
      let (before, _) ← readLong (switchesOf none) before text
      readInvocation before arguments
    | '-' :: letter :: letters =>
      let (before, _) ← readLetters (switchesOf none) before (letter :: letters)
      readInvocation before arguments
    | _ =>
      match CommandName.names.find? argument with
      | some name => finish before (← readArguments name {} none arguments) name
      | none => .error (if argument = "help" then helpWith arguments else .misuse)

def Invocation.ofArguments (arguments : List String) : Except Stop Invocation :=
  readInvocation {} arguments

end MidIR.Tool
