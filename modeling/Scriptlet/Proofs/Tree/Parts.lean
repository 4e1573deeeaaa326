import Scriptlet.Tree

set_option autoImplicit false

/-!
# The parts of a tree

Component: the tree.  Specification: sections 3 and 10.3, of which this is the part on places: every
node has a first token, and statements and blocks have a span that covers their tokens.

`parts` lists what a tree is made of and has a place in the text: its tokens, its statements and
its blocks, at any depth and in the order of the text.  A statement and a block come before what is
inside of them (`inner`).

An expression has no span of its own, so that it is not a part; its tokens are.  The order of the
list is the order of the text, with one exception that the data forces: the token of an operator, a
call or an indexing stands behind what is on its left.

The functions follow the tree, one for each kind of node and one for each kind of list.  What is
said of all parts of a program is said of this list (`Program.parts`), so that a statement about
places is a statement about lists, and does not recurse over the tree once more.
-/

namespace Scriptlet

/-- Something in a tree that has a span. -/
inductive Part where
  | token (token : Token)
  | statement (statement : Statement)
  | block (block : Block)

/-- Where a part stands. -/
def Part.span : Part → Span
  | .token word => word.span
  | .statement tree => tree.span
  | .block tree => tree.span

/-- Whether a part is a statement or a block, which hold other parts. -/
def Part.isNode : Part → Bool
  | .token _ => false
  | .statement _ | .block _ => true

/-- The part as a statement, if it is one. -/
def Part.statement? : Part → Option Statement
  | .statement tree => some tree
  | .token _ | .block _ => none

/-- The parts of names. -/
def partsOfNames (names : List Name) : List Part := names.map fun name => .token name.token

mutual

/-- The parts of an expression. -/
def Expression.parts : Expression → List Part
  | .identifier name => [.token name.token]
  | .integer token _ | .string token | .boolean token _ => [.token token]
  | .unary token _ right => .token token :: right.parts
  | .binary token left _ right => left.parts ++ .token token :: right.parts
  | .conditional token condition consequence alternative =>
    .token token :: (condition.parts ++ .block consequence :: consequence.inner ++
      partsOfAlternative alternative)
  | .function literal => literal.parts
  | .call token callee arguments => callee.parts ++ .token token :: partsOfExpressions arguments
  | .array token elements => .token token :: partsOfExpressions elements
  | .index token left position => left.parts ++ .token token :: position.parts
  | .hash token pairs => .token token :: partsOfPairs pairs

/-- The parts of some expressions. -/
def partsOfExpressions : List Expression → List Part
  | [] => []
  | expression :: rest => expression.parts ++ partsOfExpressions rest

/-- The parts of the entries of a hash literal. -/
def partsOfPairs : List Pair → List Part
  | [] => []
  | pair :: rest => pair.parts ++ partsOfPairs rest

/-- The parts of an entry of a hash literal. -/
def Pair.parts : Pair → List Part
  | ⟨key, value⟩ => key.parts ++ value.parts

/-- The parts of a function literal. -/
def FunctionLiteral.parts : FunctionLiteral → List Part
  | ⟨token, parameters, body⟩ =>
    .token token :: (partsOfNames parameters ++ .block body :: body.inner)

/-- The parts of the block behind `else`. -/
def partsOfAlternative : Option Block → List Part
  | none => []
  | some block => .block block :: block.inner

/-- The parts inside of a block. -/
def Block.inner : Block → List Part
  | ⟨token, statements, _⟩ => .token token :: partsOfStatements statements

/-- The parts of some statements. -/
def partsOfStatements : List Statement → List Part
  | [] => []
  | statement :: rest => .statement statement :: (statement.inner ++ partsOfStatements rest)

/-- The parts inside of a statement. -/
def Statement.inner : Statement → List Part
  | .binding token name value _ => .token token :: .token name.token :: value.parts
  | .returning token value _ | .expression token value _ => .token token :: value.parts

end

/-- The brace that opens a block is inside of it. -/
theorem Block.token_mem_inner (block : Block) : .token block.token ∈ block.inner := by
  cases block
  exact List.mem_cons_self

/-- The first token of a statement is inside of it. -/
theorem Statement.token_mem_inner (statement : Statement) :
    .token statement.token ∈ statement.inner := by
  cases statement <;> exact List.mem_cons_self

/-- The parts of a block, itself included. -/
def Block.parts (block : Block) : List Part := .block block :: block.inner

/-- The parts of a statement, itself included. -/
def Statement.parts (statement : Statement) : List Part := .statement statement :: statement.inner

/-- The part itself and what is inside of it. -/
def Part.parts : Part → List Part
  | .token word => [.token word]
  | .statement tree => tree.parts
  | .block tree => tree.parts

/-- The parts of a program. -/
def Program.parts (program : Program) : List Part := partsOfStatements program.statements

/-- The statements of a program at any depth. -/
def Program.allStatements (program : Program) : List Statement :=
  program.parts.filterMap Part.statement?

end Scriptlet
