set_option autoImplicit false

/-!
# Command line options

The command line names a script and two options: `-i` or `--interactive`, a flag, and `--log`,
which takes a value, either behind an equals sign or as the next argument.  Behind `--` every
argument is a value.  One-letter flags can be written together.

A value is checked when the next argument that stands for something known is met, or at the end.
So of two mistakes an unknown argument is the one that is reported, even if a value before it is
missing.
-/

namespace Scriptlet

/-- Why a command line was not accepted. -/
inductive UsageError where
  | unknownArgument
  /-- a value that is missing, or empty where it must not be -/
  | invalidValue
  /-- an option that was given before -/
  | argumentConflict
  /-- a value for a flag -/
  | tooManyValues
  deriving DecidableEq, Repr, Inhabited

/-- The error in words. -/
def UsageError.message : UsageError → String
  | .unknownArgument => "error: unexpected argument found"
  | .invalidValue => "error: a value is required but none was supplied"
  | .argumentConflict => "error: an option cannot be used multiple times"
  | .tooManyValues => "error: a value was found for a flag"

/-- Why a command line leads to no run. -/
inductive Refusal where
  /-- help was asked for -/
  | help
  | misuse (error : UsageError)
  deriving DecidableEq, Repr, Inhabited

/-- What a run was asked to do. -/
structure Options where
  /-- the script to run -/
  file : Option String
  /-- whether to start the prompt also behind a script -/
  interactive : Bool
  /-- which messages to log -/
  logFilter : String
  deriving DecidableEq, Repr, Inhabited

namespace Options

/-- Whether the prompt is started: when it was asked for, or when there is no script. -/
def wantsRepl (options : Options) : Bool := options.interactive || options.file.isNone

/-- The log filter where nothing else is said. -/
def defaultLogFilter : String := "warn"

/-! ## Reading arguments -/

/-- An argument that has been met and not been checked. -/
inductive Pending where
  | nothing
  | file (value : String)
  /-- the option `--log`, with its value if that has been met -/
  | log (value : Option String)
  deriving DecidableEq, Repr, Inhabited

/-- What has been read of a command line. -/
structure Reading where
  file : Option String
  interactive : Bool
  log : Option String
  pending : Pending
  /-- whether `--` has been met -/
  onlyValues : Bool
  deriving DecidableEq, Repr, Inhabited

/-- A step that may refuse the command line. -/
abbrev Read := Except Refusal

namespace Reading

/-- Before the first argument. -/
def start : Reading := ⟨none, false, none, .nothing, false⟩

/-- Refuses a command line for a mistake. -/
def misuse {α : Type} (error : UsageError) : Read α := .error (.misuse error)

/-- Takes the value of `--log`, which must not have one yet. -/
def setLog (value : String) (reading : Reading) : Read Reading :=
  if reading.log.isSome then misuse .argumentConflict
  else .ok { reading with log := some value }

/-- Checks the argument that has not been checked. -/
def settle (reading : Reading) : Read Reading :=
  let settled := { reading with pending := .nothing }
  match reading.pending with
  | .nothing => .ok settled
  | .file "" => misuse .invalidValue
  | .file value => .ok { settled with file := some value }
  | .log none => misuse .invalidValue
  | .log (some value) => settled.setLog value

/-- Sets the flag of the prompt, which must not be set yet. -/
def setInteractive (reading : Reading) : Read Reading := do
  let settled ← reading.settle
  if settled.interactive then misuse .argumentConflict
  else .ok { settled with interactive := true }

/-- Asks for help. -/
def askHelp (reading : Reading) : Read Reading := do
  let _ ← reading.settle
  .error .help

/-- A value that belongs to no option: the script, which is the only one. -/
def positional (value : String) (reading : Reading) : Read Reading :=
  match reading.file, reading.pending with
  | some _, _ | none, .file _ => misuse .unknownArgument
  | none, _ => do .ok { ← reading.settle with pending := .file value }

/-- An option that is written out, with the value behind its equals sign. -/
def long (name : String) (value : Option String) (reading : Reading) : Read Reading :=
  match name, value with
  | "log", some value => do (← reading.settle).setLog value
  | "log", none => do .ok { ← reading.settle with pending := .log none }
  | "interactive", none => reading.setInteractive
  | "help", none => reading.askHelp
  | "interactive", some _ | "help", some _ => misuse .tooManyValues
  | _, _ => misuse .unknownArgument

/-- Flags of one letter. -/
def shorts (letters : List Char) (reading : Reading) : Read Reading :=
  match letters with
  | [] => .ok reading
  | 'i' :: rest => do (← reading.setInteractive).shorts rest
  | 'h' :: _ => reading.askHelp
  | _ => misuse .unknownArgument

/-- An argument that is a value. -/
def value (text : String) (reading : Reading) : Read Reading :=
  match reading.pending with
  | .log none => .ok { reading with pending := .log (some text) }
  | _ => reading.positional text

/-- The next argument. -/
def argument (reading : Reading) (text : String) : Read Reading :=
  if reading.onlyValues then reading.positional text
  else
    match text.toList with
    | ['-', '-'] => .ok { reading with onlyValues := true }
    | '-' :: '-' :: option =>
      let name := String.ofList (option.takeWhile (· != '='))
      match option.dropWhile (· != '=') with
      | _ :: attached => reading.long name (some (String.ofList attached))
      | [] => reading.long name none
    | '-' :: letter :: letters => reading.shorts (letter :: letters)
    | _ => reading.value text

end Reading

/-- The options that a command line asks for; `environment` is the log filter that holds unless
the command line gives one.  The first argument is the name of the program. -/
def ofArguments (arguments : List String) (environment : Option String) : Except Refusal Options :=
  do
  let reading ← (← arguments.tail.foldlM Reading.argument Reading.start).settle
  return ⟨reading.file, reading.interactive,
    (reading.log.or environment).getD defaultLogFilter⟩

/-- The help text. -/
def helpText : String :=
  "A tree-walking interpreter for the Kestrel scripting language\n" ++
  "\n" ++
  "Usage: kestrel [OPTIONS] [FILE]\n" ++
  "\n" ++
  "Arguments:\n" ++
  "  [FILE]  The script file to execute\n" ++
  "\n" ++
  "Options:\n" ++
  "  -i, --interactive   Start the REPL (after running FILE, if given)\n" ++
  "      --log <FILTER>  Log filter, overrides RUST_LOG (default: warn)\n" ++
  "  -h, --help          Print help\n"

end Options

end Scriptlet
