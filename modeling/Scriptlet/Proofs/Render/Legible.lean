import Scriptlet.Proofs.Tree.Spans

set_option autoImplicit false

/-!
# Legible programs

Component: the tree.  Specification: section 10.4, the canonical text of each node, read for what it
leaves out.

The text of a tree does not always tell the tree: strings are written without their quotes and
blocks without their braces, and nothing is written behind an expression that is a statement.  A
program is *legible* if nothing of this happens in it.

Its text then tells all of it, but for spans and for the token that an expression statement starts
with, as that one may be behind a parenthesis that the text did not have before.

What is left out is not an oversight of one form.  Section 10.4 concatenates the statements of a
block and writes `if`, `else` and functions around them without braces, so that the end of a block
cannot be seen; it writes the value of a string and not its source; and it writes an expression
statement as its expression, so that two of them become one.

Where a text is written with parentheses around every operation, the first token of an expression
statement may be one of them.  That token is the only part of a tree, besides its spans, that the
text of a legible program does not tell.
-/

namespace Scriptlet

mutual

/-- Whether an expression has neither strings nor blocks in it. -/
def Expression.legible : Expression → Bool
  | .identifier _ | .integer _ _ | .boolean _ _ => true
  | .string _ | .conditional _ _ _ _ | .function _ => false
  | .unary _ _ right => right.legible
  | .binary _ left _ right => left.legible && right.legible
  | .call _ callee arguments => callee.legible && legibleExpressions arguments
  | .array _ elements => legibleExpressions elements
  | .index _ left position => left.legible && position.legible
  | .hash _ pairs => legiblePairs pairs

/-- Whether some expressions have neither strings nor blocks in them. -/
def legibleExpressions : List Expression → Bool
  | [] => true
  | expression :: rest => expression.legible && legibleExpressions rest

/-- Whether the entries of a hash literal have neither strings nor blocks in them. -/
def legiblePairs : List Pair → Bool
  | [] => true
  | pair :: rest => pair.legible && legiblePairs rest

/-- Whether the entry of a hash literal has neither strings nor blocks in it. -/
def Pair.legible : Pair → Bool
  | ⟨key, value⟩ => key.legible && value.legible

end

/-- Whether a statement is an expression and nothing else. -/
def Statement.isExpression : Statement → Bool
  | .expression _ _ _ => true
  | .binding _ _ _ _ | .returning _ _ _ => false

/-- Whether a program has neither strings nor blocks in it, and at most its last statement is an
expression. -/
def Program.legible (program : Program) : Bool :=
  program.statements.all (·.value.legible) &&
    program.statements.dropLast.all fun statement => !statement.isExpression

/-- A list is legible if each of its expressions is. -/
theorem legibleExpressions_eq_all (expressions : List Expression) :
    legibleExpressions expressions = expressions.all Expression.legible := by
  induction expressions with
  | nil => rfl
  | cons expression rest ih => rw [legibleExpressions, ih, List.all_cons]

/-- And so are pairs. -/
theorem legiblePairs_eq_all (pairs : List Pair) : legiblePairs pairs = pairs.all Pair.legible := by
  induction pairs with
  | nil => rfl
  | cons pair rest ih => rw [legiblePairs, ih, List.all_cons]

/-! ## What the text tells -/

/-- The statement without its spans and, if it is an expression, without its first token. -/
def Statement.bare : Statement → Statement
  | .expression _ value _ => .expression default value.plain default
  | .binding token name value span => (Statement.binding token name value span).plain
  | .returning token value span => (Statement.returning token value span).plain

/-- The program without its spans and the first tokens of its expression statements. -/
def Program.bare (program : Program) : Program := ⟨program.statements.map Statement.bare⟩

/-- The text of a statement shows neither its spans nor its first token, if that is none of its own.
-/
theorem Statement.render_bare (statement : Statement) :
    statement.bare.render = statement.render := by
  cases statement with
  | expression _ value _ =>
    simp only [Statement.bare, Statement.render, Expression.render_mapSpans]
  | binding | returning => exact Statement.render_mapSpans _ _

/-- So the text of a program tells no more than what is kept. -/
theorem Program.render_bare (program : Program) : program.bare.render = program.render := by
  obtain ⟨statements⟩ := program
  unfold Program.render Program.bare
  dsimp only
  induction statements with
  | nil => rfl
  | cons statement rest ih =>
    rw [List.map_cons, renderStatements, renderStatements, ih, statement.render_bare]

end Scriptlet
