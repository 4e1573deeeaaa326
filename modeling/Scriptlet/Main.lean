import Scriptlet.CommandLine

set_option autoImplicit false

/-!
# The program

Connects a run from the command line with the outside.  Runs are functions of what is known of the
outside, so each stage is run with what is known so far.  If it asked for a file that has not been
read, or for a line of input that has not been read, that is fetched and the stage is run again
from where it started.  What it had written before it asked for the line is shown first.

Input that does not come from a terminal is read as a whole at the start.
-/

namespace Scriptlet.Main

/-- What is known of the outside. -/
structure Known where
  files : FileTable
  /-- whether all input has been read -/
  ended : Bool
  /-- how many bytes of output have been shown -/
  shown : Nat

/-- How deep calls may be nested. -/
def callDepth : Nat := 1000000

/-- The fault behind a failure of the system to read a file. -/
def faultOf : IO.Error → FileFault
  | .noFileOrDirectory .. => .notFound
  | .inappropriateType _ code _ => if code = 21 then .isDirectory else .notDirectory
  | .invalidArgument _ code _ => if code = 22 then .nulInName else .nameTooLong
  | .permissionDenied .. => .noPermission
  | failure => .other (toString failure)

/-- Reads a file. -/
def readFile (path : String) : IO (Except FileFault String) := do
  try
    let bytes ← IO.FS.readBinFile path
    match Text.decode? bytes.toList with
    | some text => return .ok text
    | none => return .error .notText
  catch failure => return .error (faultOf failure)

/-- Shows the output up to a number of bytes. -/
def showOutput (machine : Machine) (count : Nat) (known : Known) : IO Known := do
  let out ← IO.getStdout
  out.write ⟨machine.console.written.extract known.shown count⟩
  out.flush
  return { known with shown := max known.shown count }

/-- Runs a part of a run, as often as it takes until all that it asks for is known. -/
partial def settle {α : Type} (part : Files → Machine → α × Machine) (known : Known)
    (machine : Machine) : IO (α × Known × Machine) := do
  let (result, after) := part known.files.toFiles machine
  match after.filesAsked.find? fun path => (known.files.lookup path).isNone with
  | some path =>
    settle part { known with files := (path, ← readFile path) :: known.files } machine
  | none =>
    match after.console.starved with
    | some written =>
      if known.ended then
        return (result, known, after)
      let known ← showOutput after written known
      let line ← (← IO.getStdin).getLine
      let console := machine.console
      let input := console.input ++ Text.encode line
      settle part { known with ended := line.isEmpty }
        { machine with console := { console with input := input } }
    | none => return (result, known, after)

/-- Writes a notice to where errors go. -/
def tell : Notice → IO Unit
  | .line text => IO.eprintln text
  | .report report => do
    IO.eprintln report.heading
    if let some location := report.location then IO.eprintln ("  at " ++ location)
    if let some note := report.note then IO.eprintln ("  " ++ note)

/-- Goes through the stages of a run; the answer is its status. -/
partial def play (options : Options) (frame : FrameId) (progress : CommandLine.Progress)
    (known : Known) (machine : Machine) : IO UInt32 := do
  match progress.stage with
  | .ended status => return status
  | _ =>
    let part (files : Files) (machine : Machine) :=
      progress.advance (Setup.standard files callDepth) options frame machine
    let (progress, known, machine) ← settle part known machine
    let known ← showOutput machine machine.console.written.size known
    progress.notices.forM tell
    play options frame { progress with notices := [] } known machine

/-- All input, unless it comes from a terminal. -/
def inputAtStart : IO (Option (List UInt8)) := do
  let input ← IO.getStdin
  if ← input.isTty then return none
  return some (← input.readBinToEnd).toList

/-- The program, with its arguments. -/
def run (arguments : List String) : IO UInt32 := do
  match Options.ofArguments ("" :: arguments) (← IO.getEnv "RUST_LOG") with
  | .error refusal =>
    let ending := CommandLine.Exit.ofRefusal refusal
    IO.print (Text.decodeLossy ending.output)
    ending.notices.forM tell
    return ending.status
  | .ok options =>
    let input ← inputAtStart
    let setup := Setup.standard (FileTable.toFiles []) callDepth
    let (frame, machine) := CommandLine.ready setup (Console.ofInput (input.getD []))
    play options frame ⟨CommandLine.Stage.first options, []⟩ ⟨[], input.isSome, 0⟩ machine

end Scriptlet.Main

/-- The program. -/
def main (arguments : List String) : IO UInt32 := Scriptlet.Main.run arguments
