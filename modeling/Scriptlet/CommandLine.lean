import Scriptlet.Options
import Scriptlet.Repl
import Scriptlet.Report

set_option autoImplicit false

/-!
# The command line

A run of the program from the command line: it runs the script it was given, if any, and starts
the prompt if asked to or if there is no script.  Both use one frame.

A run proceeds in stages, each of which changes the machine once.  `run` goes through all of them:
it is a function from the files, the arguments, the environment and the whole input to everything
that the run does to the outside.
-/

namespace Scriptlet

/-- What is written where errors go. -/
inductive Notice where
  | report (report : Report)
  | line (text : String)
  deriving DecidableEq, Repr, Inhabited

/-- The first line of a notice. -/
def Notice.heading : Notice → String
  | .report shown => firstLine shown.heading
  | .line text => firstLine text

namespace CommandLine

/-! ## Stages -/

/-- What a run does next. -/
inductive Stage where
  /-- it runs the script at a path -/
  | script (path : String)
  /-- it greets -/
  | greeting
  /-- it takes a turn at the prompt -/
  | turn
  /-- it has ended -/
  | ended (status : UInt32)
  deriving DecidableEq, Repr, Inhabited

/-- How far a run has come: what it does next, and the notices so far. -/
structure Progress where
  stage : Stage
  notices : List Notice
  deriving Repr, Inhabited

/-- What a run does first. -/
def Stage.first (options : Options) : Stage :=
  match options.file with
  | some path => .script path
  | none => .greeting

/-- What a run does behind a script, which ran to its end or did not. -/
def Stage.afterScript (options : Options) (completed : Bool) : Stage :=
  if !completed && !options.interactive then .ended 1
  else if options.wantsRepl then .greeting
  else .ended 0

/-- The notices about how the script at a path ended. -/
def reports (result : ScriptResult) (text path : String) : List Notice :=
  result.diagnostics.map fun diagnostic => .report (diagnostic.report text (some path))

/-- Runs the script at a path; says whether it ran to its end. -/
def runFile (setup : Setup) (frame : FrameId) (path : String) (machine : Machine) :
    (Bool × List Notice) × Machine :=
  let machine := { machine with filesAsked := path :: machine.filesAsked }
  if setup.files.exist path then
    match setup.files.read path with
    | .ok text =>
      match runScript setup frame ⟨[frame], []⟩ text machine with
      | (result, machine) => ((result.isOk, reports result text path), machine)
    | .error fault =>
      ((false, [.line ("Error reading file '" ++ path ++ "': " ++ fault.message)]), machine)
  else
    ((false, [.line ("Error: File '" ++ path ++ "' not found")]), machine)

/-- Has a part of the conversation, which says what is done next. -/
def Progress.converse (progress : Progress) (part : Repl Stage) (machine : Machine) :
    Progress × Machine :=
  match part machine with
  | .ok stage machine => ({ progress with stage := stage }, machine)
  | .error fault machine =>
    (⟨.ended 1, progress.notices ++ [.line ("Error reading input: " ++ fault.message)]⟩, machine)

/-- Does what is next. -/
def Progress.advance (setup : Setup) (options : Options) (frame : FrameId) (progress : Progress)
    (machine : Machine) : Progress × Machine :=
  match progress.stage with
  | .script path =>
    match runFile setup frame path machine with
    | ((completed, notices), machine) =>
      (⟨.afterScript options completed, progress.notices ++ notices⟩, machine)
  | .greeting =>
    progress.converse (do Repl.say Repl.banner; return .turn) machine
  | .turn =>
    progress.converse
      (do return if ← Repl.turn setup frame ⟨[frame], []⟩ then .turn else .ended 0) machine
  | .ended _ => (progress, machine)

/-! ## Whole runs -/

/-- Goes through at most so many stages. -/
def advances (setup : Setup) (options : Options) (frame : FrameId) :
    Nat → Progress → Machine → Progress × Machine
  | 0, progress, machine => (progress, machine)
  | count + 1, progress, machine =>
    match progress.advance setup options frame machine with
    | (progress, machine) => advances setup options frame count progress machine

/-- A machine that waits to run scripts in the frame. -/
def ready (setup : Setup) (console : Console) : FrameId × Machine :=
  (Machine.ofConsole console).newFrame setup ⟨[], []⟩ none

/-- What a run does to the outside. -/
structure Exit where
  status : UInt32
  output : List UInt8
  notices : List Notice
  deriving Repr, Inhabited

/-- The end of a run that does not start. -/
def Exit.ofRefusal : Refusal → Exit
  | .help => ⟨0, Text.encode Options.helpText, []⟩
  | .misuse error => ⟨2, [], [.line error.message]⟩

/-- The end of a run. -/
def Exit.ofProgress (progress : Progress) (machine : Machine) : Exit :=
  let status : UInt32 :=
    match progress.stage with
    | .ended status => status
    | .script _ | .greeting | .turn => 1
  ⟨status, machine.console.written.toList, progress.notices⟩

/-- A whole run.  `arguments` do not hold the name of the program.  There are at most the script
and the greeting before the first turn, and every turn but the last reads at least one byte. -/
def run (files : Files) (callDepth : Nat) (arguments : List String) (logFilter : Option String)
    (input : List UInt8) : Exit :=
  match Options.ofArguments ("" :: arguments) logFilter with
  | .error refusal => Exit.ofRefusal refusal
  | .ok options =>
    let setup := Setup.standard files callDepth
    match ready setup (Console.ofInput input) with
    | (frame, machine) =>
      match advances setup options frame (input.length + 3) ⟨Stage.first options, []⟩ machine with
      | (progress, machine) => Exit.ofProgress progress machine

end CommandLine

end Scriptlet
