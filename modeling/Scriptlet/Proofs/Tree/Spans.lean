import Scriptlet.Tree.Render

set_option autoImplicit false

/-!
# Trees and their spans

Component: the tree.  Specification: sections 3 and 10.4, by which a tree is written from its kinds,
names, operators and literals, and section 8, by which that text does not depend on the spacing of
the source.

`mapSpans` changes the spans of a tree, those of its tokens and those of its statements and blocks,
and leaves everything else as it is.  Two trees are the same but for their spans if they become the
same when all spans are replaced by one (`plain`).

What a tree is written as does not depend on its spans.

`mapSpans` is an action of the functions on spans on the tree: changing spans by the identity
changes nothing (`Program.mapSpans_id`), and shifting them is how a tree looks that was read further
on in a text.  Everything that a program does when it runs can be followed through such a change, as
spans are read only where an error is reported.
-/

namespace Scriptlet

/-- The token with its span changed. -/
def Token.mapSpan (f : Span → Span) (token : Token) : Token := { token with span := f token.span }

/-- The name with its span changed. -/
def Name.mapSpan (f : Span → Span) (name : Name) : Name := ⟨name.token.mapSpan f⟩

@[simp] theorem Token.kind_mapSpan (f : Span → Span) (token : Token) :
    (token.mapSpan f).kind = token.kind := rfl

@[simp] theorem Token.literal_mapSpan (f : Span → Span) (token : Token) :
    (token.mapSpan f).literal = token.literal := rfl

@[simp] theorem Name.text_mapSpan (f : Span → Span) (name : Name) :
    (name.mapSpan f).text = name.text := rfl

/-- The texts of names do not depend on where the names stand. -/
theorem Name.map_text_mapSpan (f : Span → Span) (names : List Name) :
    (names.map (Name.mapSpan f)).map Name.text = names.map Name.text := by
  simp [Function.comp_def]

/-- Tokens of one kind, with one literal and with spans that become the same, become the same. -/
theorem Token.mapSpan_congr {f g : Span → Span} {token other : Token}
    (hkind : token.kind = other.kind) (hliteral : token.literal = other.literal)
    (hspan : f token.span = g other.span) : token.mapSpan f = other.mapSpan g := by
  unfold Token.mapSpan
  rw [hkind, hliteral, hspan]

/-! ## Changing all spans -/

mutual

/-- The expression with its spans changed. -/
def Expression.mapSpans (f : Span → Span) : Expression → Expression
  | .identifier name => .identifier (name.mapSpan f)
  | .integer token value => .integer (token.mapSpan f) value
  | .string token => .string (token.mapSpan f)
  | .boolean token value => .boolean (token.mapSpan f) value
  | .unary token operator right => .unary (token.mapSpan f) operator (right.mapSpans f)
  | .binary token left operator right =>
    .binary (token.mapSpan f) (left.mapSpans f) operator (right.mapSpans f)
  | .conditional token condition consequence alternative =>
    .conditional (token.mapSpan f) (condition.mapSpans f) (consequence.mapSpans f)
      (mapSpansOfAlternative f alternative)
  | .function literal => .function (literal.mapSpans f)
  | .call token callee arguments =>
    .call (token.mapSpan f) (callee.mapSpans f) (mapSpansOfExpressions f arguments)
  | .array token elements => .array (token.mapSpan f) (mapSpansOfExpressions f elements)
  | .index token left position => .index (token.mapSpan f) (left.mapSpans f) (position.mapSpans f)
  | .hash token pairs => .hash (token.mapSpan f) (mapSpansOfPairs f pairs)

/-- The expressions with their spans changed. -/
def mapSpansOfExpressions (f : Span → Span) : List Expression → List Expression
  | [] => []
  | expression :: rest => expression.mapSpans f :: mapSpansOfExpressions f rest

/-- The entries of a hash literal with their spans changed. -/
def mapSpansOfPairs (f : Span → Span) : List Pair → List Pair
  | [] => []
  | pair :: rest => pair.mapSpans f :: mapSpansOfPairs f rest

/-- The entry of a hash literal with its spans changed. -/
def Pair.mapSpans (f : Span → Span) : Pair → Pair
  | ⟨key, value⟩ => ⟨key.mapSpans f, value.mapSpans f⟩

/-- The function literal with its spans changed. -/
def FunctionLiteral.mapSpans (f : Span → Span) : FunctionLiteral → FunctionLiteral
  | ⟨token, parameters, body⟩ =>
    ⟨token.mapSpan f, parameters.map (Name.mapSpan f), body.mapSpans f⟩

/-- The block behind `else` with its spans changed. -/
def mapSpansOfAlternative (f : Span → Span) : Option Block → Option Block
  | none => none
  | some block => some (block.mapSpans f)

/-- The block with its spans changed. -/
def Block.mapSpans (f : Span → Span) : Block → Block
  | ⟨token, statements, span⟩ => ⟨token.mapSpan f, mapSpansOfStatements f statements, f span⟩

/-- The statements with their spans changed. -/
def mapSpansOfStatements (f : Span → Span) : List Statement → List Statement
  | [] => []
  | statement :: rest => statement.mapSpans f :: mapSpansOfStatements f rest

/-- The statement with its spans changed. -/
def Statement.mapSpans (f : Span → Span) : Statement → Statement
  | .binding token name value span =>
    .binding (token.mapSpan f) (name.mapSpan f) (value.mapSpans f) (f span)
  | .returning token value span => .returning (token.mapSpan f) (value.mapSpans f) (f span)
  | .expression token value span => .expression (token.mapSpan f) (value.mapSpans f) (f span)

end

/-- The program with its spans changed. -/
def Program.mapSpans (f : Span → Span) (program : Program) : Program :=
  ⟨mapSpansOfStatements f program.statements⟩

/-- Statements are changed one by one. -/
theorem mapSpansOfStatements_eq_map (f : Span → Span) (statements : List Statement) :
    mapSpansOfStatements f statements = statements.map (Statement.mapSpans f) := by
  induction statements with
  | nil => rfl
  | cons statement rest ih => rw [mapSpansOfStatements, ih, List.map_cons]

/-! ## Leaving spans as they are -/

theorem Token.mapSpan_id (token : Token) : token.mapSpan id = token := rfl

theorem Name.mapSpan_id (name : Name) : name.mapSpan id = name := rfl

theorem Name.map_mapSpan_id (names : List Name) : names.map (Name.mapSpan id) = names :=
  List.map_id'' (fun _ => rfl) names

mutual

/-- By recursion on the tree, as the change itself. -/
theorem Expression.mapSpans_id (expression : Expression) :
    expression.mapSpans id = expression := by
  match expression with
  | .identifier _ | .integer _ _ | .string _ | .boolean _ _ => rfl
  | .unary _ _ right => simp only [Expression.mapSpans, Token.mapSpan_id, right.mapSpans_id]
  | .binary _ left _ right =>
    simp only [Expression.mapSpans, Token.mapSpan_id, left.mapSpans_id, right.mapSpans_id]
  | .conditional _ condition consequence none =>
    simp only [Expression.mapSpans, mapSpansOfAlternative, Token.mapSpan_id,
      condition.mapSpans_id, consequence.mapSpans_id]
  | .conditional _ condition consequence (some alternative) =>
    simp only [Expression.mapSpans, mapSpansOfAlternative, Token.mapSpan_id,
      condition.mapSpans_id, consequence.mapSpans_id, alternative.mapSpans_id]
  | .function literal => simp only [Expression.mapSpans, literal.mapSpans_id]
  | .call _ callee arguments =>
    simp only [Expression.mapSpans, Token.mapSpan_id, callee.mapSpans_id,
      mapSpansOfExpressions_id arguments]
  | .array _ elements =>
    simp only [Expression.mapSpans, Token.mapSpan_id, mapSpansOfExpressions_id elements]
  | .index _ left position =>
    simp only [Expression.mapSpans, Token.mapSpan_id, left.mapSpans_id, position.mapSpans_id]
  | .hash _ pairs => simp only [Expression.mapSpans, Token.mapSpan_id, mapSpansOfPairs_id pairs]

theorem mapSpansOfExpressions_id (expressions : List Expression) :
    mapSpansOfExpressions id expressions = expressions := by
  match expressions with
  | [] => rfl
  | expression :: rest =>
    simp only [mapSpansOfExpressions, expression.mapSpans_id, mapSpansOfExpressions_id rest]

theorem mapSpansOfPairs_id (pairs : List Pair) : mapSpansOfPairs id pairs = pairs := by
  match pairs with
  | [] => rfl
  | pair :: rest => simp only [mapSpansOfPairs, pair.mapSpans_id, mapSpansOfPairs_id rest]

theorem Pair.mapSpans_id (pair : Pair) : pair.mapSpans id = pair := by
  match pair with
  | ⟨key, value⟩ => simp only [Pair.mapSpans, key.mapSpans_id, value.mapSpans_id]

theorem FunctionLiteral.mapSpans_id (literal : FunctionLiteral) :
    literal.mapSpans id = literal := by
  match literal with
  | ⟨token, parameters, body⟩ =>
    simp only [FunctionLiteral.mapSpans, Token.mapSpan_id, Name.map_mapSpan_id, body.mapSpans_id]

theorem Block.mapSpans_id (block : Block) : block.mapSpans id = block := by
  match block with
  | ⟨_, statements, _⟩ =>
    simp only [Block.mapSpans, Token.mapSpan_id, mapSpansOfStatements_id statements, id]

theorem mapSpansOfStatements_id (statements : List Statement) :
    mapSpansOfStatements id statements = statements := by
  match statements with
  | [] => rfl
  | statement :: rest =>
    simp only [mapSpansOfStatements, statement.mapSpans_id, mapSpansOfStatements_id rest]

theorem Statement.mapSpans_id (statement : Statement) : statement.mapSpans id = statement := by
  match statement with
  | .binding _ _ value _ | .returning _ value _ | .expression _ value _ =>
    simp only [Statement.mapSpans, Token.mapSpan_id, Name.mapSpan_id, value.mapSpans_id, id]

end

/-- A program whose spans are left as they are is the program itself. -/
theorem Program.mapSpans_id (program : Program) : program.mapSpans id = program :=
  congrArg Program.mk (mapSpansOfStatements_id program.statements)

/-! ## Writing trees -/

mutual

/-- The text of an expression is made of its literals, and none of them has changed. -/
theorem Expression.render_mapSpans (f : Span → Span) (expression : Expression) :
    (expression.mapSpans f).render = expression.render := by
  match expression with
  | .identifier _ | .integer _ _ | .string _ | .boolean _ _ => rfl
  | .unary _ _ right => simp only [Expression.mapSpans, Expression.render, right.render_mapSpans]
  | .binary _ left _ right =>
    simp only [Expression.mapSpans, Expression.render, left.render_mapSpans, right.render_mapSpans]
  | .conditional _ condition consequence none =>
    simp only [Expression.mapSpans, mapSpansOfAlternative, Expression.render,
      condition.render_mapSpans, consequence.render_mapSpans]
  | .conditional _ condition consequence (some alternative) =>
    simp only [Expression.mapSpans, mapSpansOfAlternative, Expression.render,
      condition.render_mapSpans, consequence.render_mapSpans, alternative.render_mapSpans]
  | .function literal => simp only [Expression.mapSpans, Expression.render, literal.render_mapSpans]
  | .call _ callee arguments =>
    simp only [Expression.mapSpans, Expression.render, callee.render_mapSpans,
      renderExpressions_mapSpans f arguments]
  | .array _ elements =>
    simp only [Expression.mapSpans, Expression.render, renderExpressions_mapSpans f elements]
  | .index _ left position =>
    simp only [Expression.mapSpans, Expression.render, left.render_mapSpans,
      position.render_mapSpans]
  | .hash _ pairs =>
    simp only [Expression.mapSpans, Expression.render, renderPairs_mapSpans f pairs]

theorem renderExpressions_mapSpans (f : Span → Span) (expressions : List Expression) :
    renderExpressions (mapSpansOfExpressions f expressions) = renderExpressions expressions := by
  match expressions with
  | [] => rfl
  | expression :: rest =>
    simp only [mapSpansOfExpressions, renderExpressions, expression.render_mapSpans,
      renderExpressions_mapSpans f rest]

theorem renderPairs_mapSpans (f : Span → Span) (pairs : List Pair) :
    renderPairs (mapSpansOfPairs f pairs) = renderPairs pairs := by
  match pairs with
  | [] => rfl
  | pair :: rest =>
    simp only [mapSpansOfPairs, renderPairs, pair.render_mapSpans, renderPairs_mapSpans f rest]

theorem Pair.render_mapSpans (f : Span → Span) (pair : Pair) :
    (pair.mapSpans f).render = pair.render := by
  match pair with
  | ⟨key, value⟩ =>
    simp only [Pair.mapSpans, Pair.render, key.render_mapSpans, value.render_mapSpans]

/-- Neither has that of a function, with its parameters and its body. -/
theorem FunctionLiteral.render_mapSpans (f : Span → Span) (literal : FunctionLiteral) :
    (literal.mapSpans f).render = literal.render := by
  match literal with
  | ⟨token, parameters, body⟩ =>
    simp only [FunctionLiteral.mapSpans, FunctionLiteral.render, Token.literal_mapSpan,
      body.render_mapSpans, Name.map_text_mapSpan]

theorem Block.render_mapSpans (f : Span → Span) (block : Block) :
    (block.mapSpans f).render = block.render := by
  match block with
  | ⟨_, statements, _⟩ =>
    simp only [Block.mapSpans, Block.render, renderStatements_mapSpans f statements]

theorem renderStatements_mapSpans (f : Span → Span) (statements : List Statement) :
    renderStatements (mapSpansOfStatements f statements) = renderStatements statements := by
  match statements with
  | [] => rfl
  | statement :: rest =>
    simp only [mapSpansOfStatements, renderStatements, statement.render_mapSpans,
      renderStatements_mapSpans f rest]

theorem Statement.render_mapSpans (f : Span → Span) (statement : Statement) :
    (statement.mapSpans f).render = statement.render := by
  match statement with
  | .binding _ _ value _ | .returning _ value _ | .expression _ value _ =>
    simp only [Statement.mapSpans, Statement.render, Token.literal_mapSpan, Name.text_mapSpan,
      value.render_mapSpans]

end

/-- A program is written alike wherever its parts stand. -/
theorem Program.render_mapSpans (f : Span → Span) (program : Program) :
    (program.mapSpans f).render = program.render :=
  renderStatements_mapSpans f program.statements

/-! ## Forgetting spans -/

/-- The expression without its spans. -/
abbrev Expression.plain (expression : Expression) : Expression :=
  expression.mapSpans fun _ => default

/-- The statement without its spans. -/
abbrev Statement.plain (statement : Statement) : Statement := statement.mapSpans fun _ => default

/-- The program without its spans.  Programs are the same but for their spans if these are the
same. -/
abbrev Program.plain (program : Program) : Program := program.mapSpans fun _ => default

/-- Programs that are the same but for their spans are written alike. -/
theorem Program.render_eq_of_plain_eq {program other : Program} (h : program.plain = other.plain) :
    program.render = other.render := by
  simpa only [Program.plain, Program.render_mapSpans] using congrArg Program.render h

end Scriptlet
