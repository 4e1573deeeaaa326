import Scriptlet.Machine
import Scriptlet.Value.Inspect

set_option autoImplicit false

/-!
# What the native functions do

Each function first checks the number of its arguments, then their types.  Arrays are never
changed: `rest` and `push` make new ones.  `puts` takes any number of arguments and writes each on
a line of its own.
-/

namespace Scriptlet

/-- Fails unless there are as many arguments as wanted. -/
def checkCount (arguments : List Value) (wanted : Nat) : Eval Unit :=
  if arguments.length = wanted then pure () else Eval.fail (.argumentCount arguments.length wanted)

/-- The only argument. -/
def soleArgument (arguments : List Value) : Eval Value := do
  checkCount arguments 1
  return arguments.headD .null

/-- The elements of an array; fails on any other value. -/
def elementsOf (operation : Intrinsic) : Value → Eval (List Value)
  | .array _ elements => pure elements
  | value => Eval.fail (.argumentType operation .array value.type)

/-- The number of characters of a string, or of elements of an array. -/
def lengthOf : Value → Eval Value
  | .string s => pure (.integer (Int64.ofNat s.length))
  | .array _ elements => pure (.integer (Int64.ofNat elements.length))
  | value => Eval.fail (.notCountable value.type)

/-- Writes values, each on a line of its own, and passes them on. -/
def writeValues (values : List Value) (console : Console) : Except OutputFault Unit × Console :=
  match console.writeLines (values.map Value.inspect) with
  | (.ok (), console) => (console.flush, console)
  | (.error fault, console) => (.error fault, console)

/-- The text without the line feeds and carriage returns at its end. -/
def dropLineEnd (line : String) : String :=
  String.ofList (line.toList.reverse.dropWhile fun c => c == '\n' || c == '\r').reverse

/-- The text of a file, which is noted as asked for. -/
def readFile (files : Files) (path : String) : Eval Value := do
  modify fun machine => { machine with filesAsked := path :: machine.filesAsked }
  match files.read path with
  | .ok text => return .string text
  | .error fault => Eval.fail (.file path fault)

/-- Calls a native function. -/
def Intrinsic.run (files : Files) (operation : Intrinsic) (arguments : List Value) : Eval Value :=
  match operation with
  | .len => do lengthOf (← soleArgument arguments)
  | .first => do return ((← elementsOf .first (← soleArgument arguments)).head?).getD .null
  | .last => do return ((← elementsOf .last (← soleArgument arguments)).getLast?).getD .null
  | .rest => do
    match ← elementsOf .rest (← soleArgument arguments) with
    | [] => return .null
    | _ :: others => Eval.newArray others
  | .push => do
    checkCount arguments 2
    let elements ← elementsOf .push (arguments.headD .null)
    Eval.newArray (elements ++ [arguments.getLastD .null])
  | .puts => do
    match ← Eval.onConsole (writeValues arguments) with
    | .ok () => return .null
    | .error fault => Eval.fail (.output fault)
  | .readline => do
    checkCount arguments 0
    match ← Eval.onConsole Console.readLine with
    | .ok line => return .string (dropLineEnd line)
    | .error fault => Eval.fail (.input fault)
  | .readfile => do
    match ← soleArgument arguments with
    | .string path => readFile files path
    | value => Eval.fail (.argumentType .readfile .string value.type)

end Scriptlet
