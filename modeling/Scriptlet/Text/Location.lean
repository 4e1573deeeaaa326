set_option autoImplicit false

/-!
# Lines and columns

An offset into a text is shown as a line and a column, both counted from one.  A line ends behind
a line feed, a carriage return (with the line feed that may follow it), a vertical tab, a form
feed, or one of U+0085, U+2028, U+2029; these characters belong to the line that they end.  Behind
the last of them no further line begins, so the end of a text is always on its last line.
-/

namespace Scriptlet.Text

/-- The characters that end a line by themselves; a carriage return does too, unless a line feed
follows it. -/
def isLineEnd (c : Char) : Bool :=
  c == '\n' || c == '\x0b' || c == '\x0c' || c == '\u0085' || c == '\u2028' || c == '\u2029'

/-- Whether a line ends between a character and what follows it. -/
def endsLineBefore (c : Char) (rest : List Char) : Bool :=
  (isLineEnd c || (c == '\r' && rest.head? != some '\n')) && !rest.isEmpty

/-- A line and a column. -/
structure Location where
  line : Nat
  column : Nat
  deriving DecidableEq, Repr, Inhabited

/-- The location `offset` characters behind the given one, in the text that follows it. -/
def Location.advance (here : Location) : Nat → List Char → Location
  | offset + 1, c :: rest =>
    let next : Location :=
      if endsLineBefore c rest then ⟨here.line + 1, 1⟩ else ⟨here.line, here.column + 1⟩
    next.advance offset rest
  | _, _ => here

/-- The location of an offset in a text; an empty text has no lines and no locations. -/
def locate? (text : String) (offset : Nat) : Option Location :=
  match text.toList with
  | [] => none
  | chars => some (Location.advance ⟨1, 1⟩ offset chars)

end Scriptlet.Text
