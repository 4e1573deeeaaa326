import Scriptlet.Tree

set_option autoImplicit false

/-!
# The text of a tree

The canonical text of a tree writes every operator application in parentheses, so that it shows
how the operands were grouped.  Literals are written with the text of their token; of a string
that is what stands between the quotes.  Statements follow each other without any separator of
their own: a binding and a return end in a semicolon, an expression in nothing.
-/

namespace Scriptlet

/-- The parts with a comma and a space between them. -/
def commaSeparated : List String → String
  | [] => ""
  | [part] => part
  | part :: rest => part ++ ", " ++ commaSeparated rest

mutual

/-- The text of an expression. -/
def Expression.render : Expression → String
  | .identifier name => name.text
  | .integer token _ | .string token | .boolean token _ => token.literal
  | .unary _ operator right => "(" ++ operator.symbol ++ right.render ++ ")"
  | .binary _ left operator right =>
    "(" ++ left.render ++ " " ++ operator.symbol ++ " " ++ right.render ++ ")"
  | .conditional _ condition consequence none =>
    "if" ++ condition.render ++ " " ++ consequence.render
  | .conditional _ condition consequence (some alternative) =>
    "if" ++ condition.render ++ " " ++ consequence.render ++ "else" ++ alternative.render
  | .function literal => literal.render
  | .call _ callee arguments =>
    callee.render ++ "(" ++ commaSeparated (renderExpressions arguments) ++ ")"
  | .array _ elements => "[" ++ commaSeparated (renderExpressions elements) ++ "]"
  | .index _ left position => "(" ++ left.render ++ "[" ++ position.render ++ "])"
  | .hash _ pairs => "\x7b" ++ commaSeparated (renderPairs pairs) ++ "\x7d"

/-- The texts of some expressions. -/
def renderExpressions : List Expression → List String
  | [] => []
  | expression :: rest => expression.render :: renderExpressions rest

/-- The texts of the entries of a hash literal. -/
def renderPairs : List Pair → List String
  | [] => []
  | pair :: rest => pair.render :: renderPairs rest

/-- The text of an entry of a hash literal. -/
def Pair.render : Pair → String
  | ⟨key, value⟩ => key.render ++ ":" ++ value.render

/-- The text of a function literal. -/
def FunctionLiteral.render : FunctionLiteral → String
  | ⟨token, parameters, body⟩ =>
    token.literal ++ "(" ++ commaSeparated (parameters.map Name.text) ++ ")" ++ body.render

/-- The text of a block, which is written without its braces. -/
def Block.render : Block → String
  | ⟨_, statements, _⟩ => renderStatements statements

/-- The texts of some statements, one behind the other. -/
def renderStatements : List Statement → String
  | [] => ""
  | statement :: rest => statement.render ++ renderStatements rest

/-- The text of a statement. -/
def Statement.render : Statement → String
  | .binding token name value _ =>
    token.literal ++ " " ++ name.text ++ " = " ++ value.render ++ ";"
  | .returning token value _ => token.literal ++ " " ++ value.render ++ ";"
  | .expression _ value _ => value.render

end

/-- The text of a program. -/
def Program.render (program : Program) : String := renderStatements program.statements

theorem renderExpressions_eq_map (expressions : List Expression) :
    renderExpressions expressions = expressions.map Expression.render := by
  induction expressions with
  | nil => rfl
  | cons expression rest ih => rw [renderExpressions, ih, List.map_cons]

theorem renderPairs_eq_map (pairs : List Pair) : renderPairs pairs = pairs.map Pair.render := by
  induction pairs with
  | nil => rfl
  | cons pair rest ih => rw [renderPairs, ih, List.map_cons]

end Scriptlet
