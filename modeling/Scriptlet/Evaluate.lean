import Scriptlet.Intrinsic
import Scriptlet.Operator

set_option autoImplicit false

/-!
# Evaluation

Expressions and statements are evaluated in a frame, from left to right, by recursion on the tree.
What a call does is not part of that recursion: `invoke` is handed down, and `invokeWithin` ties
the knot with a bound on how deep calls are nested.

Everything that is in use while a part is evaluated is listed as `roots`, so that a collection in
the middle of a call sees it as held: the left operand while the right one is worked out, the
callee and the arguments so far, the elements and entries so far, the condition while its branch
runs, the value of a statement while the next one runs, and the function and the frame of a call
while its body runs.
-/

namespace Scriptlet

/-- What a call of a function does: with what is held, the literal, the frame it was made in, and
the arguments. -/
abbrev Invoke := Roots → FunctionLiteral → FrameId → List Value → Eval Value

/-- The value of a name: a native function, or what the scopes bind it to. -/
def evalName (setup : Setup) (frame : FrameId) (name : String) : Eval Value := do
  match setup.builtins.find? name with
  | some builtin => return .builtin builtin
  | none =>
    match (← get).heap.lookup frame name with
    | some value => return value
    | none => Eval.fail (.unbound name)

/-- Calls a value. -/
def applyValue (setup : Setup) (invoke : Invoke) (roots : Roots) (callee : Value)
    (arguments : List Value) : Eval Value :=
  match callee with
  | .function _ literal frame => invoke (roots.hold callee) literal frame arguments
  | .builtin builtin => builtin.operation.run setup.files arguments
  | callee => Eval.fail (.notCallable callee.type)

section

variable (setup : Setup) (invoke : Invoke)

mutual

/-- The value of an expression. -/
def evalExpression (frame : FrameId) (roots : Roots) : Expression → Eval Value
  | .identifier name => evalName setup frame name.text
  | .integer _ value => return .integer value
  | .string token => return .string token.literal
  | .boolean _ value => return .boolean value
  | .unary _ operator right => do
    let right ← evalExpression frame roots right
    Eval.ofExcept (applyPrefix operator right)
  | .binary _ left operator right => do
    let left ← evalExpression frame roots left
    let right ← evalExpression frame (roots.hold left) right
    Eval.ofExcept (applyInfix operator left right)
  | .conditional _ condition consequence alternative => do
    let condition ← evalExpression frame roots condition
    if condition.truthy then
      return (← evalBlock frame (roots.hold condition) consequence).getD .null
    else
      return (← evalAlternative frame (roots.hold condition) alternative).getD .null
  | .function literal => Eval.newFunction literal frame
  | .call _ callee arguments => do
    let callee ← evalExpression frame roots callee
    let arguments ← evalExpressions frame (roots.hold callee) arguments
    applyValue setup invoke roots callee arguments
  | .array _ elements => do
    let elements ← evalExpressions frame roots elements
    Eval.newArray elements
  | .index _ left position => do
    let left ← evalExpression frame roots left
    let position ← evalExpression frame (roots.hold left) position
    Eval.ofExcept (applyIndex setup.digest left position)
  | .hash _ pairs => do
    let entries ← evalPairs frame roots [] pairs
    Eval.newHash entries

/-- The values of some expressions. -/
def evalExpressions (frame : FrameId) (roots : Roots) : List Expression → Eval (List Value)
  | [] => return []
  | expression :: rest => do
    let value ← evalExpression frame roots expression
    let values ← evalExpressions frame (roots.hold value) rest
    return value :: values

/-- The entries that the given ones become by those of a hash literal. -/
def evalPairs (frame : FrameId) (roots : Roots) (entries : List Entry) :
    List Pair → Eval (List Entry)
  | [] => return entries
  | pair :: rest => do
    let entry ← evalPair frame (roots.holdAll (Entry.parts entries)) pair
    evalPairs frame roots (insertEntry entry entries) rest

/-- The entry of a pair of a hash literal. -/
def evalPair (frame : FrameId) (roots : Roots) : Pair → Eval Entry
  | ⟨name, value⟩ => do
    let name ← evalExpression frame roots name
    let value ← evalExpression frame (roots.hold name) value
    return ⟨← Eval.ofExcept (name.hashKey setup.digest), name, value⟩

/-- The value of the block behind `else`, if there is one and it has one. -/
def evalAlternative (frame : FrameId) (roots : Roots) : Option Block → Eval (Option Value)
  | none => return none
  | some block => evalBlock frame roots block

/-- The value of a block: of its last statement, if that has one. -/
def evalBlock (frame : FrameId) (roots : Roots) : Block → Eval (Option Value)
  | ⟨_, statements, _⟩ => evalStatements frame roots none statements

/-- The value of the last of some statements, or `last` if there are none. -/
def evalStatements (frame : FrameId) (roots : Roots) (last : Option Value) :
    List Statement → Eval (Option Value)
  | [] => return last
  | statement :: rest => do
    let value ← evalStatement frame (last.elim roots roots.hold) statement
    evalStatements frame roots value rest

/-- The value of a statement; a binding has none. -/
def evalStatement (frame : FrameId) (roots : Roots) : Statement → Eval (Option Value)
  | .binding _ name value _ => do
    let value ← evalExpression frame roots value
    Eval.onHeap fun heap => (none, heap.bind frame name.text value)
  | .returning _ value _ => do
    let value ← evalExpression frame roots value
    throw (.returned value)
  | .expression _ value _ => do
    let value ← evalExpression frame roots value
    return some value

end

end

/-- Ends a `return` in its value; a body without a value has the value null. -/
def catchReturn (body : Eval (Option Value)) : Eval Value := fun machine =>
  match body machine with
  | .ok value machine => .ok (value.getD .null) machine
  | .error (.returned value) machine => .ok value machine
  | .error halt machine => .error halt machine

/-- Calls a function with calls nested at most so deep: binds its parameters in a new frame inside
the frame it was made in, and evaluates its body there. -/
def invokeWithin (setup : Setup) : Nat → Invoke
  | 0, _, _, _, _ => throw .exhausted
  | depth + 1, roots, literal, frame, arguments => do
    let call ← Eval.onHeap (Heap.allocate setup.due (roots.holdAll arguments) (some frame))
    Eval.onHeap fun heap => ((), heap.bindAll call literal.parameters arguments)
    catchReturn
      (evalBlock setup (invokeWithin setup depth) call (roots.holdFrame call) literal.body)

/-- Calls a value. -/
def applyCallable (setup : Setup) (roots : Roots) (callee : Value) (arguments : List Value) :
    Eval Value :=
  applyValue setup (invokeWithin setup setup.callDepth) roots callee arguments

/-- Runs a statement in a frame. -/
def execute (setup : Setup) (frame : FrameId) (roots : Roots) (statement : Statement) :
    Eval (Option Value) :=
  evalStatement setup (invokeWithin setup setup.callDepth) frame roots statement

end Scriptlet
