import Scriptlet.Span

set_option autoImplicit false

/-!
# Tokens

A token is a kind, the text it was written with, and the span of that text.  The kinds have the
names under which syntax errors speak of them (`TokenKind.name`).
-/

namespace Scriptlet

/-- What a token is. -/
inductive TokenKind where
  /-- a character that starts no token -/
  | illegal
  /-- the end of the text -/
  | eof
  | identifier
  | integer
  | string
  | assign
  | plus
  | minus
  | bang
  | star
  | slash
  | less
  | greater
  | equal
  | notEqual
  | comma
  | semicolon
  | colon
  | leftParen
  | rightParen
  | leftBrace
  | rightBrace
  | leftBracket
  | rightBracket
  | functionWord
  /-- `let`, or `var`, which means the same -/
  | letWord
  | trueWord
  | falseWord
  | ifWord
  | elseWord
  | returnWord
  deriving DecidableEq, Repr, Inhabited

/-- The name of a kind in a message. -/
def TokenKind.name : TokenKind → String
  | .illegal => "ILLEGAL"
  | .eof => "EOF"
  | .identifier => "IDENT"
  | .integer => "INT"
  | .string => "STRING"
  | .assign => "="
  | .plus => "+"
  | .minus => "-"
  | .bang => "!"
  | .star => "*"
  | .slash => "/"
  | .less => "<"
  | .greater => ">"
  | .equal => "=="
  | .notEqual => "!="
  | .comma => ","
  | .semicolon => ";"
  | .colon => ":"
  | .leftParen => "("
  | .rightParen => ")"
  | .leftBrace => "\x7b"
  | .rightBrace => "\x7d"
  | .leftBracket => "["
  | .rightBracket => "]"
  | .functionWord => "FUNCTION"
  | .letWord => "LET"
  | .trueWord => "TRUE"
  | .falseWord => "FALSE"
  | .ifWord => "IF"
  | .elseWord => "ELSE"
  | .returnWord => "RETURN"

/-- A token of a text: its kind, its text (of a string, what stands between the quotes) and the
span of all its characters (of a string, quotes included). -/
structure Token where
  kind : TokenKind
  literal : String
  span : Span
  deriving DecidableEq, Repr, Inhabited

namespace Token

/-- The end of a text, at an offset. -/
def eof (offset : Nat) : Token := ⟨.eof, "", ⟨offset, offset⟩⟩

/-- The token moved to the right. -/
def shift (distance : Nat) (token : Token) : Token :=
  { token with span := token.span.shift distance }

@[simp] theorem eof_kind (offset : Nat) : (eof offset).kind = .eof := rfl
@[simp] theorem shift_kind (n : Nat) (t : Token) : (t.shift n).kind = t.kind := rfl
@[simp] theorem shift_literal (n : Nat) (t : Token) : (t.shift n).literal = t.literal := rfl
@[simp] theorem shift_span (n : Nat) (t : Token) : (t.shift n).span = t.span.shift n := rfl

end Token

end Scriptlet
