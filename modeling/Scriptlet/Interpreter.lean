import Scriptlet.Evaluate
import Scriptlet.Tree.Parser

set_option autoImplicit false

/-!
# Running programs

A program runs statement by statement in one frame.  It is worth what its last statement is worth,
unless a `return` or an error ends it before.  An error is located by the statement at the top of
the program in which it arose.

Every run ends in a collection, at which what the program is worth counts as held.

A text is run only if it parses without errors.
-/

namespace Scriptlet

/-- How a program ended. -/
inductive Outcome where
  /-- with the value of its last statement, if that has one -/
  | finished (value : Option Value)
  | failed (error : RuntimeError)
  /-- calls were nested deeper than the setup allows -/
  | exhausted
  deriving Inhabited

/-- The roots with what a program is worth. -/
def Outcome.heldIn (roots : Roots) : Outcome → Roots
  | .finished (some value) => roots.hold value
  | .finished none | .failed _ | .exhausted => roots

/-- Frees what cannot be reached; also says how many frames that were. -/
def Machine.collect (roots : Roots) (machine : Machine) : Nat × Machine :=
  match machine.heap.collect roots with
  | (freed, heap) => (freed, { machine with heap := heap })

/-- Runs statements up to the first that ends the program; `last` is the value so far. -/
def runStatements (setup : Setup) (frame : FrameId) (roots : Roots) (last : Option Value) :
    List Statement → Machine → Outcome × Machine
  | [], machine => (.finished last, machine)
  | statement :: rest, machine =>
    match execute setup frame (last.elim roots roots.hold) statement machine with
    | .ok value machine => runStatements setup frame roots value rest machine
    | .error (.returned value) machine => (.finished (some value), machine)
    | .error (.fault fault) machine => (.failed ⟨statement.span, fault⟩, machine)
    | .error .exhausted machine => (.exhausted, machine)

/-- Runs a program in a frame, and collects. -/
def runProgram (setup : Setup) (frame : FrameId) (roots : Roots) (program : Program)
    (machine : Machine) : Outcome × Machine :=
  match runStatements setup frame roots none program.statements machine with
  | (outcome, machine) => (outcome, (machine.collect (outcome.heldIn roots)).2)

/-- How a script ended. -/
inductive ScriptResult where
  | completed
  /-- the text is no program -/
  | rejected (errors : List SyntaxError)
  | failed (error : RuntimeError)
  /-- calls were nested deeper than the setup allows -/
  | exhausted
  deriving Inhabited

namespace ScriptResult

/-- Whether the script ran to its end. -/
def isOk : ScriptResult → Bool
  | .completed => true
  | .rejected _ | .failed _ | .exhausted => false

/-- What the user is told. -/
def diagnostics : ScriptResult → List Diagnostic
  | .completed | .exhausted => []
  | .rejected errors => errors.map SyntaxError.diagnostic
  | .failed error => [error.diagnostic]

end ScriptResult

/-- Runs a text in a frame, unless it holds syntax errors. -/
def runScript (setup : Setup) (frame : FrameId) (roots : Roots) (text : String)
    (machine : Machine) : ScriptResult × Machine :=
  let parsed := parse text
  if parsed.errors.isEmpty then
    match runProgram setup frame roots parsed.program machine with
    | (.finished _, machine) => (.completed, machine)
    | (.failed error, machine) => (.failed error, machine)
    | (.exhausted, machine) => (.exhausted, machine)
  else
    (.rejected parsed.errors, machine)

/-- The machine with a new frame, inside the given one if there is one. -/
def Machine.newFrame (setup : Setup) (roots : Roots) (outer : Option FrameId) (machine : Machine) :
    FrameId × Machine :=
  match machine.heap.allocate setup.due roots outer with
  | (frame, heap) => (frame, { machine with heap := heap })

/-- The usual setup: all native functions, SHA-1, and collections when the registry is full. -/
def Setup.standard (files : Files) (callDepth : Nat) : Setup :=
  ⟨.standard, files, .sha1, callDepth, Heap.isCollectionDue⟩

end Scriptlet
