import Scriptlet.Token

set_option autoImplicit false

/-!
# Syntax trees

A program is a list of statements; statements hold expressions, and the expressions `if` and `fn`
hold blocks of statements again.  Every node keeps the token that introduced it: of an infix
expression, a call and an indexing that is the operator, the parenthesis and the bracket.

Statements and blocks also keep the span of all their tokens, by which runtime errors are located.
-/

namespace Scriptlet

/-! ## Operators -/

/-- The operators written before their operand. -/
inductive PrefixOp where
  | not
  | negate
  deriving DecidableEq, Repr, Inhabited

/-- The operators written between their operands. -/
inductive InfixOp where
  | add
  | subtract
  | multiply
  | divide
  | less
  | greater
  | equal
  | notEqual
  deriving DecidableEq, Repr, Inhabited

/-- How a prefix operator is written. -/
def PrefixOp.symbol : PrefixOp → String
  | .not => "!"
  | .negate => "-"

/-- How an infix operator is written. -/
def InfixOp.symbol : InfixOp → String
  | .add => "+"
  | .subtract => "-"
  | .multiply => "*"
  | .divide => "/"
  | .less => "<"
  | .greater => ">"
  | .equal => "=="
  | .notEqual => "!="

/-! ## Nodes -/

/-- A name: of a variable in an expression, or one that a binding or a function introduces. -/
structure Name where
  token : Token
  deriving DecidableEq, Repr, Inhabited

/-- The text of a name. -/
def Name.text (name : Name) : String := name.token.literal

mutual

/-- Expressions, which have values. -/
inductive Expression where
  | identifier (name : Name)
  | integer (token : Token) (value : Int64)
  | string (token : Token)
  | boolean (token : Token) (value : Bool)
  | unary (token : Token) (operator : PrefixOp) (right : Expression)
  | binary (token : Token) (left : Expression) (operator : InfixOp) (right : Expression)
  | conditional (token : Token) (condition : Expression) (consequence : Block)
      (alternative : Option Block)
  | function (literal : FunctionLiteral)
  | call (token : Token) (callee : Expression) (arguments : List Expression)
  | array (token : Token) (elements : List Expression)
  | index (token : Token) (left : Expression) (index : Expression)
  | hash (token : Token) (pairs : List Pair)

/-- A key and its value in a hash literal. -/
structure Pair where
  key : Expression
  value : Expression

/-- A function as it is written: its parameters and its body. -/
structure FunctionLiteral where
  token : Token
  parameters : List Name
  body : Block

/-- Statements between braces. -/
structure Block where
  token : Token
  statements : List Statement
  span : Span

/-- Statements, which bind a name, leave a function, or are worked out for their value. -/
inductive Statement where
  | binding (token : Token) (name : Name) (value : Expression) (span : Span)
  | returning (token : Token) (value : Expression) (span : Span)
  | expression (token : Token) (value : Expression) (span : Span)

end

/-- A whole program. -/
structure Program where
  statements : List Statement

/-! ## Parts of nodes -/

/-- The token that introduced an expression. -/
def Expression.token : Expression → Token
  | .identifier name => name.token
  | .function literal => literal.token
  | .integer token _ | .string token | .boolean token _ | .unary token _ _ | .binary token _ _ _
  | .conditional token _ _ _ | .call token _ _ | .array token _ | .index token _ _
  | .hash token _ => token

namespace Statement

/-- The first token of a statement. -/
def token : Statement → Token
  | .binding token _ _ _ | .returning token _ _ | .expression token _ _ => token

/-- The expression that a statement works out. -/
def value : Statement → Expression
  | .binding _ _ value _ | .returning _ value _ | .expression _ value _ => value

/-- The span of all tokens of a statement. -/
def span : Statement → Span
  | .binding _ _ _ span | .returning _ _ span | .expression _ _ span => span

end Statement

/-- The text of a program's first token, if it has one. -/
def Program.literal (program : Program) : String :=
  match program.statements with
  | [] => ""
  | statement :: _ => statement.token.literal

end Scriptlet
