import Scriptlet.Span

set_option autoImplicit false

/-!
# Diagnostics

A diagnostic is what a user is told: what kind of thing went wrong, where, in which words, and
sometimes a hint.  The parts of the library that find errors describe them by their causes and
turn them into diagnostics only to show them.
-/

namespace Scriptlet

/-- Whether a text failed to be a program, or a program failed while it ran. -/
inductive DiagnosticKind where
  | parse
  | runtime
  deriving DecidableEq, Repr, Inhabited

/-- An error in words. -/
structure Diagnostic where
  kind : DiagnosticKind
  span : Span
  message : String
  help : Option String
  deriving DecidableEq, Repr, Inhabited

end Scriptlet
