import Scriptlet.Diagnostic
import Scriptlet.Text.Location

set_option autoImplicit false

/-!
# Reports

A report is a diagnostic laid out for the user: a heading, the place in the text it is about, and
a note with the hint, if there is one.  An empty text has no places, and its reports consist of
the heading alone.
-/

namespace Scriptlet

/-- A diagnostic laid out for the user. -/
structure Report where
  heading : String
  /-- the file, line and column, with colons between them -/
  location : Option String
  note : Option String
  deriving DecidableEq, Repr, Inhabited

/-- The name of a kind of diagnostic. -/
def DiagnosticKind.heading : DiagnosticKind → String
  | .parse => "Parse Error"
  | .runtime => "Runtime Error"

/-- What a text that came from no file is called. -/
def unnamedFile : String := "<repl>"

/-- The characters of a text up to the first line feed. -/
def firstLine (text : String) : String := String.ofList (text.toList.takeWhile (· != '\n'))

/-- The report of a diagnostic about a text. -/
def Diagnostic.report (diagnostic : Diagnostic) (text : String) (file : Option String) : Report :=
  let place := Text.locate? text diagnostic.span.start
  { heading := "Error: " ++ diagnostic.kind.heading ++ ": " ++ diagnostic.message
    location := place.map fun place =>
      file.getD unnamedFile ++ ":" ++ place.line.repr ++ ":" ++ place.column.repr
    note := if place.isSome then diagnostic.help.map ("help: " ++ ·) else none }

end Scriptlet
