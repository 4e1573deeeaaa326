import Scriptlet.Report
import Scriptlet.Repl
import Scriptlet.Session.Draft

set_option autoImplicit false

/-!
# What a host can ask of a session

Every command is a value, and so is every answer: a session is driven by a list of commands.  A
command that mentions a name nothing stands for is a mistake.

Where a command has a name to keep its result under, the result is held if there is one.
-/

namespace Scriptlet

/-- A command to a session.  Scopes and values are mentioned by the names the host gave them. -/
inductive Command where
  /-- run a text in a scope; if forced to, also what could be parsed of a text with errors -/
  | run (text scope : String) (forced : Bool) (result : Option String)
  /-- run the statements of a text one by one, whatever becomes of them -/
  | statements (text scope : String) (result : Option String)
  /-- run a text in a scope as a script -/
  | script (text scope : String)
  /-- run a text as a script, which may have a file's name, and lay out what is wrong with it -/
  | report (text scope : String) (file : Option String)
  /-- call a value -/
  | call (callee : Draft) (arguments : List Draft) (result : Option String)
  /-- call the native function that programs call by a name -/
  | callBuiltin (name : String) (arguments : List Draft) (result : Option String)
  /-- name the native functions -/
  | builtinNames
  /-- hold a conversation in a scope -/
  | converse (scope : String)
  /-- read a line of the input -/
  | readLine
  /-- make a scope without an outer one -/
  | newScope (name : String)
  /-- make a scope inside another -/
  | enclose (name scope : String)
  /-- hold a scope under one more name -/
  | alias (name scope : String)
  /-- ask for the scope around a scope, and hold it if a name is given -/
  | outer (scope : String) (name : Option String)
  /-- ask for the scope that a held function was made in, and hold it -/
  | captured (value name : String)
  /-- let go of a scope -/
  | drop (name : String)
  /-- ask whether two scopes are one -/
  | sameScope (left right : String)
  /-- look a name up in a scope -/
  | lookup (scope name : String) (result : Option String)
  /-- bind a name in a scope -/
  | bind (scope name : String) (value : Draft)
  /-- describe a scope -/
  | describe (scope : String)
  /-- watch a scope -/
  | watch (name scope : String)
  /-- ask whether a watched scope is still alive, and hold it if it is and a name is given -/
  | isAlive (name : String) (result : Option String)
  /-- free what cannot be reached -/
  | collect
  /-- hold a value -/
  | hold (name : String) (value : Draft)
  /-- let go of a value -/
  | release (name : String)
  /-- build a value to look at it -/
  | inspect (value : Draft)
  /-- compare two values -/
  | compare (left right : Draft)
  /-- compare the keys of two values -/
  | keyOrder (left right : Draft)
  deriving Inhabited

/-- An answer to a command. -/
inductive Answer where
  | done
  /-- what something is worth, if anything -/
  | value (value : Option Value)
  /-- how an evaluation was cut short -/
  | halted (halt : Halt)
  /-- the errors of a text that was not run -/
  | rejected (errors : List SyntaxError)
  /-- how a program ended -/
  | outcome (outcome : Outcome)
  /-- how each statement ended -/
  | outcomes (outcomes : List (Except Halt (Option Value)))
  /-- how a script ended -/
  | script (result : ScriptResult)
  /-- whether a script ran to its end, and what was reported -/
  | reports (ok : Bool) (reports : List Report)
  | names (names : List String)
  /-- how a conversation ended -/
  | conversation (fault : Option ReplFault)
  /-- a line of the input -/
  | line (line : Except InputFault String)
  /-- whether something was there -/
  | found (found : Bool)
  /-- whether two scopes are one -/
  | same (same : Bool)
  | description (text : String)
  | alive (alive : Bool)
  /-- how many scopes were freed -/
  | freed (count : Nat)
  | inspected (value : Value)
  | compared (identical equal : Bool)
  /-- the order of two keys, if both values have one -/
  | order (order : Option Ordering)
  deriving Inhabited

namespace Step

/-- How an evaluation ended, with its result held. -/
def conclude (result : Option String) (ending : Except Halt Value) : Step Answer := do
  match ending with
  | .ok value =>
    keep result (some value)
    return .value (some value)
  | .error halt => return .halted halt

/-- Runs statements one by one, whatever becomes of them. -/
def runEach (frame : FrameId) (result : Option String) :
    List Statement → Step (List (Except Halt (Option Value)))
  | [] => return []
  | statement :: rest => do
    let outcome ← evaluate fun setup roots => execute setup frame roots statement
    match outcome with
    | .ok value => keep result value
    | .error _ => pure ()
    let outcomes ← runEach frame result rest
    return outcome :: outcomes

/-- Runs a text in a scope. -/
def run (text : String) (frame : FrameId) (forced : Bool) (result : Option String) :
    Step Answer := do
  let parsed := parse text
  if parsed.errors.isEmpty || forced then
    let outcome ← onMachine fun setup roots => runProgram setup frame roots parsed.program
    match outcome with
    | .finished value => keep result value
    | .failed _ | .exhausted => pure ()
    return .outcome outcome
  else
    return .rejected parsed.errors

/-- Runs a text in a scope as a script. -/
def script (text : String) (frame : FrameId) : Step ScriptResult :=
  onMachine fun setup roots => runScript setup frame roots text

/-- Converses in a scope. -/
def converse (frame : FrameId) : Step (Option ReplFault) :=
  onMachine fun setup roots machine =>
    match Repl.converse setup frame roots machine with
    | .ok () machine => (none, machine)
    | .error fault machine => (some fault, machine)

/-- The description of a scope: the names it binds, and whether it has an outer scope. -/
def describe (frame : FrameId) : Step String := do
  let heap := (← get).machine.heap
  let names := ", ".intercalate ((heap.boundNames frame).map Text.quoted)
  let outer := booleanText (heap.outer? frame).isSome
  return "Environment \x7b names: [" ++ names ++ "], has_outer: " ++ outer ++ " \x7d"

/-- Whether a scope is alive once all that nothing refers to has been dropped. -/
def isAlive (frame : FrameId) : Step Bool := do
  onMachine fun _ roots machine =>
    let heap := machine.heap.release roots
    (heap.isAlive frame, { machine with heap := heap })

end Step

/-- Carries out a command. -/
def Command.perform : Command → Step Answer
  | .run text scope forced result => do Step.run text (← Step.scope scope) forced result
  | .statements text scope result => do
    return .outcomes (← Step.runEach (← Step.scope scope) result (parse text).program.statements)
  | .script text scope => do return .script (← Step.script text (← Step.scope scope))
  | .report text scope file => do
    let result ← Step.script text (← Step.scope scope)
    return .reports result.isOk (result.diagnostics.map fun error => error.report text file)
  | .call callee arguments result => do
    let callee ← callee.build
    let arguments ← Draft.buildAll arguments
    Step.conclude result
      (← Step.evaluate fun setup roots => applyCallable setup roots callee arguments)
  | .callBuiltin name arguments result => do
    let arguments ← Draft.buildAll arguments
    match (← get).setup.builtins.find? name with
    | none => return .value none
    | some builtin =>
      Step.conclude result
        (← Step.evaluate fun setup _ => builtin.operation.run setup.files arguments)
  | .builtinNames => do return .names (← get).setup.builtins.names
  | .converse scope => do return .conversation (← Step.converse (← Step.scope scope))
  | .readLine => do
    return .line (← Step.onMachine fun _ _ machine =>
      match machine.console.readLine with
      | (line, console) => (line, { machine with console := console }))
  | .newScope name => do
    Step.newScope name none
    return .done
  | .enclose name scope => do
    Step.newScope name (some (← Step.scope scope))
    return .done
  | .alias name scope => do
    Step.holdScope name (← Step.scope scope)
    return .done
  | .outer scope name => do
    match (← get).machine.heap.outer? (← Step.scope scope) with
    | none => return .found false
    | some frame =>
      if let some name := name then Step.holdScope name frame
      return .found true
  | .captured value name => do
    match (← get).values.lookup value with
    | some (.function _ _ frame) =>
      Step.holdScope name frame
      return .found true
    | some _ | none => return .found false
  | .drop name => do
    modify fun session => { session with scopes := session.scopes.forget name }
    return .done
  | .sameScope left right => do
    return .same ((← Step.scope left) == (← Step.scope right))
  | .lookup scope name result => do
    let value := (← get).machine.heap.lookup (← Step.scope scope) name
    Step.keep result value
    return .value value
  | .bind scope name value => do
    let frame ← Step.scope scope
    let value ← value.build
    Step.onMachine fun _ _ machine =>
      (.done, { machine with heap := machine.heap.bind frame name value })
  | .describe scope => do return .description (← Step.describe (← Step.scope scope))
  | .watch name scope => do
    let frame ← Step.scope scope
    modify fun session => { session with watched := session.watched.put name frame }
    return .done
  | .isAlive name result => do
    match (← get).watched.lookup name with
    | none => throw (.noScope name)
    | some frame =>
      let alive ← Step.isAlive frame
      if let some name := result then
        if alive then Step.holdScope name frame
      return .alive alive
  | .collect => do return .freed (← Step.onMachine fun _ roots => Machine.collect roots)
  | .hold name value => do
    Step.holdValue name (← value.build)
    return .done
  | .release name => do
    modify fun session => { session with values := session.values.forget name }
    return .done
  | .inspect value => do return .inspected (← value.build)
  | .compare left right => do
    let left ← left.build
    let right ← right.build
    return .compared (left.identical right) (left.equal right)
  | .keyOrder left right => do
    let left ← left.build
    let right ← right.build
    let digest ← Step.digest
    match left.hashKey digest, right.hashKey digest with
    | .ok left, .ok right => return .order (some (left.order right))
    | _, _ => return .order none

/-- Carries out a command; also says what it wrote. -/
def Session.perform (command : Command) (session : Session) :
    Except Mistake (Answer × List UInt8) × Session :=
  let before := session.machine.console.written.size
  match command.perform session with
  | .ok answer session =>
    (.ok (answer, (session.machine.console.written.extract before).toList), session)
  | .error mistake session => (.error mistake, session)

end Scriptlet
