import Scriptlet.Token
import Scriptlet.Diagnostic

set_option autoImplicit false

/-!
# Syntax errors

The three ways in which a token can fail to continue a program, and their wording.
-/

namespace Scriptlet

/-- What is wrong with a token. -/
inductive SyntaxFault where
  /-- another kind of token has to stand here -/
  | expected (wanted found : TokenKind)
  /-- an expression has to start here, and none starts with this token -/
  | noOperand (found : TokenKind)
  /-- an integer literal beyond the largest integer -/
  | integerRange (literal : String)
  deriving DecidableEq, Repr, Inhabited

/-- The fault in words. -/
def SyntaxFault.message : SyntaxFault → String
  | .expected wanted found =>
    "expected next token to be " ++ wanted.name ++ ", got " ++ found.name ++ " instead"
  | .noOperand found => "no prefix parse function for " ++ found.name ++ " found"
  | .integerRange literal => "could not parse " ++ literal ++ " as integer"

/-- A hint on the fault. -/
def SyntaxFault.help : SyntaxFault → Option String
  | .noOperand _ => some "this token cannot start an expression"
  | .expected _ _ | .integerRange _ => none

/-- A fault and the span of the token at fault. -/
structure SyntaxError where
  span : Span
  fault : SyntaxFault
  deriving DecidableEq, Repr, Inhabited

namespace SyntaxError

/-- The error as it is shown. -/
def diagnostic (error : SyntaxError) : Diagnostic :=
  ⟨.parse, error.span, error.fault.message, error.fault.help⟩

/-- The error in a text that stands behind another one. -/
def shift (distance : Nat) (error : SyntaxError) : SyntaxError :=
  { error with span := error.span.shift distance }

end SyntaxError

end Scriptlet
