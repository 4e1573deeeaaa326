import Scriptlet.Builtin
import Scriptlet.Digest
import Scriptlet.Fault
import Scriptlet.Heap.Collect

set_option autoImplicit false

/-!
# The state of a running program

A running program changes a `Machine`: the heap, the console, and the list of files it has asked
for.  What does not change while it runs is its `Setup`.

An evaluation ends with a result, or is cut short by a `Halt`: a `return` on its way to the call,
a fault on its way to the top, or the bound on nested calls.  In either case the machine stays as
the evaluation left it.
-/

namespace Scriptlet

/-- What a program runs with. -/
structure Setup where
  /-- the native functions it can call -/
  builtins : BuiltinTable
  /-- the files it can read -/
  files : Files
  /-- what hashes key strings by -/
  digest : Digest
  /-- how deep calls may be nested -/
  callDepth : Nat
  /-- whether a collection is due before the next frame is made -/
  due : Heap → Bool

/-- What a program changes. -/
structure Machine where
  heap : Heap
  console : Console
  /-- the files asked for, the latest first -/
  filesAsked : List String
  deriving Inhabited

/-- A machine that nothing has run on. -/
def Machine.ofConsole (console : Console) : Machine := ⟨.empty, console, []⟩

/-- Why an evaluation is cut short. -/
inductive Halt where
  /-- a value on its way to the call that it is the result of -/
  | returned (value : Value)
  /-- an error on its way to the top -/
  | fault (fault : Fault)
  /-- calls were nested deeper than the setup allows -/
  | exhausted
  deriving Inhabited

/-- An evaluation: a function of the machine, which it also changes where it is cut short. -/
abbrev Eval := EStateM Halt Machine

namespace Eval

/-- Fails. -/
def fail {α : Type} (fault : Fault) : Eval α := throw (.fault fault)

/-- Has a result or fails. -/
def ofExcept {α : Type} : Except Fault α → Eval α
  | .ok value => pure value
  | .error fault => fail fault

/-- Changes the heap, with a result. -/
def onHeap {α : Type} (change : Heap → α × Heap) : Eval α :=
  modifyGet fun machine =>
    match machine with
    | ⟨heap, console, filesAsked⟩ =>
      match change heap with
      | (value, heap) => (value, ⟨heap, console, filesAsked⟩)

/-- Changes the console, with a result. -/
def onConsole {α : Type} (change : Console → α × Console) : Eval α :=
  modifyGet fun machine =>
    match machine with
    | ⟨heap, console, filesAsked⟩ =>
      match change console with
      | (value, console) => (value, ⟨heap, console, filesAsked⟩)

/-- A new array. -/
def newArray (elements : List Value) : Eval Value :=
  return .array (← onHeap Heap.newObject) elements

/-- A new hash, from entries in order. -/
def newHash (entries : List Entry) : Eval Value :=
  return .hash (← onHeap Heap.newObject) entries

/-- A new function over a frame. -/
def newFunction (literal : FunctionLiteral) (frame : FrameId) : Eval Value :=
  return .function (← onHeap Heap.newObject) literal frame

end Eval

end Scriptlet
