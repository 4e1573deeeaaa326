import Scriptlet.Interpreter
import Scriptlet.Text.Blank

set_option autoImplicit false

/-!
# The prompt

The prompt reads a line, runs it as a program, shows what it is worth, and reads the next, all in
one frame, so that what one line binds the next can use.  It reads from the console that programs
read from: a line that a program takes is not run.

The conversation ends at the end of the input, at `exit` or `quit`, or when the console fails.
-/

namespace Scriptlet

/-- Why a conversation broke off. -/
inductive ReplFault where
  | output (fault : OutputFault)
  | input (fault : InputFault)
  /-- calls were nested deeper than the setup allows -/
  | exhausted
  deriving DecidableEq, Repr, Inhabited

/-- The fault in words. -/
def ReplFault.message : ReplFault → String
  | .output fault => fault.message
  | .input fault => fault.message
  | .exhausted => "calls nested too deeply"

/-- A part of a conversation. -/
abbrev Repl := EStateM ReplFault Machine

namespace Repl

/-- What the prompt shows when it waits for a line. -/
def prompt : String := ">> "

/-- What the prompt shows when it starts. -/
def banner : String := "Kestrel v0.1.0\nType 'exit' or press Ctrl+D to quit\n\n"

/-- Writes a text. -/
def say (text : String) : Repl Unit := do
  let machine ← get
  match machine.console.write text with
  | (answer, console) =>
    set { machine with console := console }
    match answer with
    | .ok () => return ()
    | .error fault => throw (.output fault)

/-- Passes on what has been written. -/
def flush : Repl Unit := do
  match (← get).console.flush with
  | .ok () => return ()
  | .error fault => throw (.output fault)

/-- Reads a line; at the end of the input that is the empty text. -/
def hear : Repl String := do
  let machine ← get
  match machine.console.readLine with
  | (answer, console) =>
    set { machine with console := console }
    match answer with
    | .ok line => return line
    | .error fault => throw (.input fault)

/-- What is shown of syntax errors: each on a line of its own. -/
def complaint (errors : List SyntaxError) : String :=
  "Encountered parser errors:\n" ++
    String.join (errors.map fun error => "\t" ++ error.fault.message ++ "\n")

/-- Runs a line and shows what it is worth. -/
def answer (setup : Setup) (frame : FrameId) (roots : Roots) (line : String) : Repl Unit := do
  let parsed := parse line
  if parsed.errors.isEmpty then
    match ← modifyGet (runProgram setup frame roots parsed.program) with
    | .finished (some value) => say (value.inspect ++ "\n")
    | .finished none => return ()
    | .failed error => say ("ERROR: " ++ error.fault.message ++ "\n")
    | .exhausted => throw .exhausted
  else
    say (complaint parsed.errors)

/-- Reads a line and answers it; says whether the conversation goes on. -/
def turn (setup : Setup) (frame : FrameId) (roots : Roots) : Repl Bool := do
  say prompt
  flush
  let line ← hear
  if line.isEmpty then
    say "\n"
    return false
  else
    let line := Text.trim line
    if line.isEmpty then return true
    else if line = "exit" ∨ line = "quit" then return false
    else
      answer setup frame roots line
      return true

/-- At most so many turns. -/
def turns (setup : Setup) (frame : FrameId) (roots : Roots) : Nat → Repl Unit
  | 0 => return ()
  | count + 1 => do
    if ← turn setup frame roots then turns setup frame roots count

/-- The conversation.  Every turn but the last reads at least one byte, so the length of the input
bounds their number. -/
def converse (setup : Setup) (frame : FrameId) (roots : Roots) : Repl Unit := do
  turns setup frame roots ((← get).console.input.length + 1)

end Repl

end Scriptlet
