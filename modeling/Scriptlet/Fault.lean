import Scriptlet.Value
import Scriptlet.Console
import Scriptlet.Files
import Scriptlet.Diagnostic

set_option autoImplicit false

/-!
# Runtime errors

Everything that can go wrong while a program runs, and its wording.  A fault knows nothing of the
place where it arose; the program that stops with it is located by the statement that failed.
-/

namespace Scriptlet

/-- Why an evaluation failed. -/
inductive Fault where
  /-- a name that is bound nowhere -/
  | unbound (name : String)
  /-- an infix operator between two types -/
  | typeMismatch (left : ValueType) (operator : InfixOp) (right : ValueType)
  /-- an infix operator that a type does not have -/
  | noInfix (left : ValueType) (operator : InfixOp) (right : ValueType)
  /-- a prefix operator that a type does not have -/
  | noPrefix (operator : PrefixOp) (right : ValueType)
  | divisionByZero
  | notCallable (callee : ValueType)
  | notIndexable (left : ValueType)
  | notHashable (key : ValueType)
  | argumentCount (got wanted : Nat)
  /-- an argument that `len` does not count -/
  | notCountable (got : ValueType)
  /-- an argument that has to be of one type and is of another -/
  | argumentType (operation : Intrinsic) (wanted got : ValueType)
  | output (fault : OutputFault)
  | input (fault : InputFault)
  | file (path : String) (fault : FileFault)
  deriving DecidableEq, Repr, Inhabited

/-- How a type is called where one is asked for: with its article. -/
def ValueType.withArticle : ValueType → String
  | .array => "an ARRAY"
  | .integer => "an INTEGER"
  | type => "a " ++ type.name

/-- The fault in words. -/
def Fault.message : Fault → String
  | .unbound name => "identifier not found: " ++ name
  | .typeMismatch left operator right =>
    "type mismatch: " ++ left.name ++ " " ++ operator.symbol ++ " " ++ right.name
  | .noInfix left operator right =>
    "unknown operator: " ++ left.name ++ " " ++ operator.symbol ++ " " ++ right.name
  | .noPrefix operator right => "unknown operator: " ++ operator.symbol ++ right.name
  | .divisionByZero => "division by zero: INTEGER / INTEGER"
  | .notCallable callee => "not a function: " ++ callee.name
  | .notIndexable left => "index operator not supported: " ++ left.name
  | .notHashable key => "unusable as hash key: " ++ key.name
  | .argumentCount got wanted =>
    "wrong number of arguments. got=" ++ got.repr ++ ", want=" ++ wanted.repr
  | .notCountable got => "argument to 'len' not supported. got=" ++ got.name
  | .argumentType operation wanted got =>
    "argument to '" ++ operation.name ++ "' must be " ++ wanted.withArticle ++ ". got=" ++ got.name
  | .output fault => "could not write output: " ++ fault.message
  | .input fault => "could not read input: " ++ fault.message
  | .file path fault => "could not read file '" ++ path ++ "': " ++ fault.message

/-- A fault and the span of the statement that failed. -/
structure RuntimeError where
  span : Span
  fault : Fault
  deriving DecidableEq, Repr, Inhabited

/-- The error as it is shown. -/
def RuntimeError.diagnostic (error : RuntimeError) : Diagnostic :=
  ⟨.runtime, error.span, error.fault.message, none⟩

end Scriptlet
