import Mathlib.Data.List.Forall2
import Scriptlet.Proofs.Parser.Run
import Scriptlet.Proofs.Tree.Spans

set_option autoImplicit false

/-!
# Parsing does not depend on spans

Component: the parser.  Specification: section 4.2, by which the parser sees its input as tokens,
and section 10.2, by which tokens have spans that nodes and diagnostics take over.

Two lists of tokens with the same kinds and literals are parsed alike: step by step the parser
does the same with either, records the same faults, and builds the same trees.  Only the spans
differ, and in a way that can be told from those of the tokens: an error has the span of a token,
and a tree is covered by tokens.

A `Correspondence` says which spans are those of tokens at the same place, and what spans have to
be changed into to become the same.

There is one lemma for each step of the parser, and they are put together as the parser is: steps
that are alike may follow each other (`Alike.bind`), and functions that call each other are alike on
one budget more if they are on one (`AllAlike`).
-/

namespace Scriptlet

/-- How the spans of two lists of tokens correspond. -/
structure Correspondence where
  /-- whether two spans are those of tokens at the same place -/
  tokens : Span → Span → Prop
  /-- what the spans of the first list and of the second list are changed into -/
  left : Span → Span
  right : Span → Span
  agree : ∀ span other, tokens span other → left span = right other
  left_cover : ∀ span other, left (span.cover other) = (left span).cover (left other)
  right_cover : ∀ span other, right (span.cover other) = (right span).cover (right other)

variable (c : Correspondence)

/-- Whether two tokens are at the same place. -/
structure Token.Corresponds (token other : Token) : Prop where
  kind : token.kind = other.kind
  literal : token.literal = other.literal
  span : c.tokens token.span other.span

/-- Whether two errors are the same fault of tokens at the same place. -/
structure SyntaxError.Corresponds (error other : SyntaxError) : Prop where
  fault : error.fault = other.fault
  span : c.tokens error.span other.span

/-- Whether two parsers stand at the same place and have recorded the same. -/
structure ParseState.Corresponds (state other : ParseState) : Prop where
  current : state.current.Corresponds c other.current
  rest : List.Forall₂ (Token.Corresponds c) state.rest other.rest
  errors : List.Forall₂ (SyntaxError.Corresponds c) state.errors other.errors

variable {c}

/-- Tokens that correspond are the same when their spans are brought together. -/
theorem Token.Corresponds.mapSpan {token other : Token} (h : token.Corresponds c other) :
    token.mapSpan c.left = other.mapSpan c.right :=
  Token.mapSpan_congr h.kind h.literal (c.agree _ _ h.span)

namespace ParseState.Corresponds

variable {state other : ParseState}

/-- The tokens behind the current ones correspond. -/
theorem peek (h : state.Corresponds c other) : state.peek.Corresponds c other.peek := by
  obtain ⟨current, rest, errors⟩ := state
  obtain ⟨current', rest', errors'⟩ := other
  have hrest := h.rest
  dsimp only at hrest
  cases hrest with
  | nil => exact h.current
  | cons htoken _ => exact htoken

/-- Parses that have both moved on still correspond. -/
theorem advance (h : state.Corresponds c other) : state.advance.Corresponds c other.advance := by
  obtain ⟨current, rest, errors⟩ := state
  obtain ⟨current', rest', errors'⟩ := other
  have hrest := h.rest
  dsimp only at hrest
  cases hrest with
  | nil => exact h
  | cons htoken hrest => exact ⟨htoken, hrest, h.errors⟩

/-- Parses that have noted the same fault still correspond. -/
theorem record (h : state.Corresponds c other) {token token' : Token}
    (htoken : token.Corresponds c token') (fault : SyntaxFault) :
    (state.record ⟨token.span, fault⟩).Corresponds c (other.record ⟨token'.span, fault⟩) := by
  refine ⟨h.current, h.rest, ?_⟩
  apply List.rel_append h.errors
  exact .cons ⟨rfl, htoken.span⟩ .nil

end ParseState.Corresponds

/-! ## Steps that do the same -/

namespace Parse

/-- Whether two steps do the same where parsers stand at the same place, with related results. -/
def Alike (c : Correspondence) {α β : Type} (related : α → β → Prop) (step : Parse α)
    (other : Parse β) : Prop :=
  ∀ state state' : ParseState, state.Corresponds c state' →
    Option.Rel related (step.outcome state).1 (other.outcome state').1 ∧
      (step.outcome state).2.Corresponds c (other.outcome state').2

namespace Alike

variable {α β γ δ : Type} {related : α → β → Prop} {related' : γ → δ → Prop}
  {step : Parse α} {other : Parse β}

/-- Steps that are alike may follow each other. -/
theorem bind {next : α → Parse γ} {next' : β → Parse δ} (h : Alike c related step other)
    (hnext : ∀ result result', related result result' →
      Alike c related' (next result) (next' result')) :
    Alike c related' (step >>= next) (other >>= next') := by
  intro state state' hstate
  obtain ⟨hresult, hmiddle⟩ := h state state' hstate
  rw [outcome_bind, outcome_bind]
  generalize step.outcome state = ending, other.outcome state' = ending' at hresult hmiddle
  obtain ⟨result, middle⟩ := ending
  obtain ⟨result', middle'⟩ := ending'
  dsimp only at hresult
  cases hresult with
  | none => exact ⟨.none, hmiddle⟩
  | some hresult => exact hnext _ _ hresult middle middle' hmiddle

/-- Results that are related are a step of their own. -/
theorem pure {result : α} {result' : β} (h : related result result') :
    Alike c related (pure result) (pure result') := fun _ _ hstate => ⟨.some h, hstate⟩

/-- To fail is the same everywhere. -/
theorem failure : Alike c related failure failure := fun _ _ hstate => ⟨.none, hstate⟩

/-- To look at the token tells parses apart by spans only. -/
theorem current : Alike c (Token.Corresponds c) current current :=
  fun _ _ hstate => ⟨.some hstate.current, hstate⟩

/-- To look at the kind of the next one does not tell them apart. -/
theorem peekKind : Alike c Eq peekKind peekKind :=
  fun _ _ hstate => ⟨.some hstate.peek.kind, hstate⟩

/-- Both may move on. -/
theorem advance : Alike c Eq advance advance :=
  fun _ _ hstate => ⟨.some rfl, hstate.advance⟩

/-- Both may note the same fault. -/
theorem fault {token token' : Token} (h : token.Corresponds c token') (reason : SyntaxFault) :
    Alike c related (fault token reason) (fault token' reason) :=
  fun _ _ hstate => ⟨.none, hstate.record h reason⟩

/-- Both may expect a token of the same kind. -/
theorem expect (wanted : TokenKind) : Alike c Eq (expect wanted) (expect wanted) := by
  intro state state' hstate
  rw [outcome_expect, outcome_expect, hstate.peek.kind]
  split
  · exact ⟨.some rfl, hstate.advance⟩
  · exact ⟨.none, hstate.record hstate.peek _⟩

/-- Both may go on without a result. -/
theorem attempt (h : Alike c related step other) :
    Alike c (Option.Rel related) (attempt step) (attempt other) := by
  intro state state' hstate
  rw [outcome_attempt, outcome_attempt]
  obtain ⟨hresult, hmiddle⟩ := h state state' hstate
  exact ⟨.some hresult, hmiddle⟩

/-- Both may require a result, if both have one or neither has. -/
theorem require {result : Option α} {result' : Option β} (h : Option.Rel related result result') :
    Alike c related (require result) (require result') := fun _ _ hstate => ⟨h, hstate⟩

/-- Both may pass over a semicolon. -/
theorem skipSemicolon : Alike c Eq skipSemicolon skipSemicolon := by
  intro state state' hstate
  rw [outcome_skipSemicolon, outcome_skipSemicolon, hstate.peek.kind]
  refine ⟨.some rfl, ?_⟩
  split
  · exact hstate.advance
  · exact hstate

/-- The spans of phrases between tokens at the same places. -/
theorem spanFrom {first first' : Token} (h : first.Corresponds c first') :
    Alike c (fun span other => c.left span = c.right other) (spanFrom first)
      (spanFrom first') := by
  intro state state' hstate
  refine ⟨.some ?_, hstate⟩
  rw [c.left_cover, c.right_cover, c.agree _ _ h.span, c.agree _ _ hstate.current.span]

/-- Whatever is decided, both do the same. -/
theorem ite {condition : Prop} [Decidable condition] {second : Parse α} {second' : Parse β}
    (h : Alike c related step other) (h' : Alike c related second second') :
    Alike c related (if condition then step else second)
      (if condition then other else second') := by
  split
  · exact h
  · exact h'

end Alike

/-! ## The productions -/

section

variable (c)

/-- Whether two trees are the same but for their spans, by what changes the spans of such trees. -/
def Same {α : Type} (mapSpans : (Span → Span) → α → α) (tree other : α) : Prop :=
  mapSpans c.left tree = mapSpans c.right other

/-- That all productions do the same within a budget. -/
structure AllAlike (budget : Nat) : Prop where
  expression : ∀ floor, Alike c (Same c Expression.mapSpans) (expression budget floor)
    (expression budget floor)
  extended : ∀ floor left left', Same c Expression.mapSpans left left' →
    Alike c (Same c Expression.mapSpans) (extended budget floor left) (extended budget floor left')
  continued : ∀ continuation left left', Same c Expression.mapSpans left left' →
    Alike c (Same c Expression.mapSpans) (continued budget continuation left)
      (continued budget continuation left')
  operand : Alike c (Same c Expression.mapSpans) (operand budget) (operand budget)
  alternative : Alike c (Same c mapSpansOfAlternative) (alternative budget) (alternative budget)
  expressions : ∀ close, Alike c (Same c mapSpansOfExpressions) (expressions budget close)
    (expressions budget close)
  moreExpressions : ∀ close, Alike c (Same c mapSpansOfExpressions) (moreExpressions budget close)
    (moreExpressions budget close)
  pairs : Alike c (Same c mapSpansOfPairs) (pairs budget) (pairs budget)
  block : Alike c (Same c Block.mapSpans) (block budget) (block budget)
  statements : ∀ inBlock, Alike c (Same c mapSpansOfStatements) (statements budget inBlock)
    (statements budget inBlock)
  statement : Alike c (Same c Statement.mapSpans) (statement budget) (statement budget)

end

/-- The names behind the first one are read alike. -/
theorem alike_moreParameters (budget : Nat) :
    Alike c (Same c fun f => List.map (Name.mapSpan f)) (moreParameters budget)
      (moreParameters budget) := by
  induction budget with
  | zero => exact .failure
  | succ budget ih =>
    unfold moreParameters
    apply (Alike.expect .identifier).bind
    intro _ _ _
    apply Alike.current.bind
    intro name name' hname
    have hsame : Name.mapSpan c.left ⟨name⟩ = Name.mapSpan c.right ⟨name'⟩ :=
      congrArg Name.mk hname.mapSpan
    apply Alike.peekKind.bind
    rintro kind _ rfl
    apply Alike.ite
    · apply Alike.advance.bind
      intro _ _ _
      apply ih.bind
      intro names names' hnames
      have hnames : names.map (Name.mapSpan c.left) = names'.map (Name.mapSpan c.right) := hnames
      exact .pure (by rw [Same, List.map_cons, List.map_cons, hsame, hnames])
    · apply (Alike.expect .rightParen).bind
      intro _ _ _
      exact .pure (congrArg (fun name => [name]) hsame)

/-- Names in parentheses are read alike. -/
theorem alike_parameters (budget : Nat) :
    Alike c (Same c fun f => List.map (Name.mapSpan f)) (parameters budget)
      (parameters budget) := by
  unfold parameters
  apply Alike.peekKind.bind
  rintro kind _ rfl
  apply Alike.ite
  · exact Alike.advance.bind fun _ _ _ => .pure rfl
  · exact alike_moreParameters budget

variable {budget : Nat}

namespace AllAlike

/-- One lemma for each function of the parser, with those it calls as hypotheses. -/
theorem expression_succ (ih : AllAlike c budget) (floor : Precedence) :
    Alike c (Same c Expression.mapSpans) (Parse.expression (budget + 1) floor)
      (Parse.expression (budget + 1) floor) := by
  unfold Parse.expression
  exact ih.operand.bind fun left left' hleft => ih.extended floor left left' hleft

theorem extended_succ (ih : AllAlike c budget) (floor : Precedence) {left left' : Expression}
    (hleft : Same c Expression.mapSpans left left') :
    Alike c (Same c Expression.mapSpans) (Parse.extended (budget + 1) floor left)
      (Parse.extended (budget + 1) floor left') := by
  unfold Parse.extended
  apply Alike.peekKind.bind
  rintro kind _ rfl
  cases kind.continuation? with
  | none => exact .pure hleft
  | some continuation =>
    apply Alike.ite
    · apply Alike.advance.bind
      intro _ _ _
      apply (ih.continued continuation left left' hleft).bind
      exact fun longer longer' hlonger => ih.extended floor longer longer' hlonger
    · exact .pure hleft

theorem continued_succ (ih : AllAlike c budget) (continuation : Continuation)
    {left left' : Expression} (hleft : Same c Expression.mapSpans left left') :
    Alike c (Same c Expression.mapSpans) (Parse.continued (budget + 1) continuation left)
      (Parse.continued (budget + 1) continuation left') := by
  unfold Same at hleft
  cases continuation with
  | binary operator =>
    apply Alike.current.bind
    intro token token' htoken
    apply Alike.advance.bind
    intro _ _ _
    apply (ih.expression operator.precedence).bind
    intro right right' hright
    unfold Same at hright
    apply Alike.pure
    simp only [Same, Expression.mapSpans, htoken.mapSpan, hleft, hright]
  | call =>
    apply Alike.current.bind
    intro token token' htoken
    apply (ih.expressions .rightParen).bind
    intro arguments arguments' harguments
    unfold Same at harguments
    apply Alike.pure
    simp only [Same, Expression.mapSpans, htoken.mapSpan, hleft, harguments]
  | index =>
    apply Alike.current.bind
    intro token token' htoken
    apply Alike.advance.bind
    intro _ _ _
    apply (ih.expression .lowest).attempt.bind
    intro position position' hposition
    apply (Alike.expect .rightBracket).bind
    intro _ _ _
    apply (Alike.require hposition).bind
    intro position position' hposition
    unfold Same at hposition
    apply Alike.pure
    simp only [Same, Expression.mapSpans, htoken.mapSpan, hleft, hposition]

/-- An operand is told by the kind of its first token. -/
theorem operand_succ (ih : AllAlike c budget) :
    Alike c (Same c Expression.mapSpans) (Parse.operand (budget + 1))
      (Parse.operand (budget + 1)) := by
  -- both prefix operators are read alike
  have hunary (operator : PrefixOp) {token token' : Token} (htoken : token.Corresponds c token') :
      Alike c (Same c Expression.mapSpans)
        (do Parse.advance; return .unary token operator (← Parse.expression budget .unary))
        (do Parse.advance; return .unary token' operator (← Parse.expression budget .unary)) := by
    apply Alike.advance.bind
    intro _ _ _
    apply (ih.expression .unary).bind
    intro right right' hright
    unfold Same at hright
    apply Alike.pure
    simp only [Same, Expression.mapSpans, htoken.mapSpan, hright]
  unfold Parse.operand
  apply Alike.current.bind
  intro token token' htoken
  rw [htoken.kind]
  -- the tokens differ in their spans only, so both parses take the same case
  generalize token'.kind = kind
  cases kind
  case identifier =>
    exact .pure (congrArg (Expression.identifier ∘ Name.mk) htoken.mapSpan)
  case integer =>
    rw [htoken.literal]
    dsimp only
    split
    next value _ => exact .pure (congrArg (Expression.integer · value) htoken.mapSpan)
    next => exact .fault htoken _
  case string => exact .pure (congrArg Expression.string htoken.mapSpan)
  case trueWord => exact .pure (congrArg (Expression.boolean · true) htoken.mapSpan)
  case falseWord => exact .pure (congrArg (Expression.boolean · false) htoken.mapSpan)
  case bang => exact hunary .not htoken
  case minus => exact hunary .negate htoken
  case leftParen =>
    apply Alike.advance.bind
    intro _ _ _
    -- the expression may be missing, which is a fault only when the parenthesis has been closed
    apply (ih.expression .lowest).attempt.bind
    intro inner inner' hinner
    apply (Alike.expect .rightParen).bind
    exact fun _ _ _ => .require hinner
  case ifWord =>
    apply (Alike.expect .leftParen).bind
    intro _ _ _
    apply Alike.advance.bind
    intro _ _ _
    apply (ih.expression .lowest).attempt.bind
    intro condition condition' hcondition
    apply (Alike.expect .rightParen).bind
    intro _ _ _
    apply (Alike.expect .leftBrace).bind
    intro _ _ _
    apply ih.block.bind
    intro consequence consequence' hconsequence
    apply ih.alternative.bind
    intro alternative alternative' halternative
    apply (Alike.require hcondition).bind
    intro condition condition' hcondition
    unfold Same at hcondition hconsequence halternative
    apply Alike.pure
    simp only [Same, Expression.mapSpans, htoken.mapSpan, hcondition, hconsequence, halternative]
  case functionWord =>
    apply (Alike.expect .leftParen).bind
    intro _ _ _
    apply (alike_parameters budget).attempt.bind
    intro names names' hnames
    apply (Alike.expect .leftBrace).bind
    intro _ _ _
    apply ih.block.bind
    intro body body' hbody
    apply (Alike.require hnames).bind
    intro names names' hnames
    unfold Same at hnames hbody
    apply Alike.pure
    simp only [Same, Expression.mapSpans, FunctionLiteral.mapSpans, htoken.mapSpan, hnames, hbody]
  case leftBracket =>
    apply (ih.expressions .rightBracket).bind
    intro elements elements' helements
    unfold Same at helements
    apply Alike.pure
    simp only [Same, Expression.mapSpans, htoken.mapSpan, helements]
  case leftBrace =>
    apply ih.pairs.bind
    intro pairs pairs' hpairs
    unfold Same at hpairs
    apply Alike.pure
    simp only [Same, Expression.mapSpans, htoken.mapSpan, hpairs]
  all_goals exact .fault htoken _

theorem alternative_succ (ih : AllAlike c budget) :
    Alike c (Same c mapSpansOfAlternative) (Parse.alternative (budget + 1))
      (Parse.alternative (budget + 1)) := by
  unfold Parse.alternative
  apply Alike.peekKind.bind
  rintro kind _ rfl
  apply Alike.ite
  · apply Alike.advance.bind
    intro _ _ _
    apply (Alike.expect .leftBrace).bind
    intro _ _ _
    exact ih.block.bind fun block block' hblock => .pure (congrArg some hblock)
  · exact .pure rfl

theorem expressions_succ (ih : AllAlike c budget) (close : TokenKind) :
    Alike c (Same c mapSpansOfExpressions) (Parse.expressions (budget + 1) close)
      (Parse.expressions (budget + 1) close) := by
  unfold Parse.expressions
  apply Alike.advance.bind
  intro _ _ _
  apply Alike.current.bind
  intro token token' htoken
  rw [htoken.kind]
  apply Alike.ite
  · exact .pure rfl
  · exact ih.moreExpressions close

theorem moreExpressions_succ (ih : AllAlike c budget) (close : TokenKind) :
    Alike c (Same c mapSpansOfExpressions) (Parse.moreExpressions (budget + 1) close)
      (Parse.moreExpressions (budget + 1) close) := by
  unfold Parse.moreExpressions
  apply (ih.expression .lowest).attempt.bind
  intro first first' hfirst
  apply Alike.peekKind.bind
  rintro kind _ rfl
  apply Alike.ite
  · apply Alike.advance.bind
    intro _ _ _
    apply Alike.advance.bind
    intro _ _ _
    apply (ih.moreExpressions close).bind
    intro rest rest' hrest
    apply (Alike.require hfirst).bind
    intro first first' hfirst
    unfold Same at hfirst hrest
    apply Alike.pure
    simp only [Same, mapSpansOfExpressions, hfirst, hrest]
  · apply (Alike.expect close).bind
    intro _ _ _
    exact (Alike.require hfirst).bind fun first first' hfirst =>
      .pure (congrArg (fun tree => [tree]) hfirst)

theorem pairs_succ (ih : AllAlike c budget) :
    Alike c (Same c mapSpansOfPairs) (Parse.pairs (budget + 1)) (Parse.pairs (budget + 1)) := by
  unfold Parse.pairs
  apply Alike.advance.bind
  intro _ _ _
  apply Alike.current.bind
  intro token token' htoken
  rw [htoken.kind]
  apply Alike.ite
  · exact .pure rfl
  · apply (ih.expression .lowest).attempt.bind
    intro key key' hkey
    apply (Alike.expect .colon).bind
    intro _ _ _
    apply Alike.advance.bind
    intro _ _ _
    apply (ih.expression .lowest).attempt.bind
    intro value value' hvalue
    apply Alike.peekKind.bind
    rintro kind _ rfl
    have hrest : Alike c (Same c mapSpansOfPairs)
        (do
          let rest ← Parse.pairs budget
          return ⟨← Parse.require key, ← Parse.require value⟩ :: rest)
        (do
          let rest ← Parse.pairs budget
          return ⟨← Parse.require key', ← Parse.require value'⟩ :: rest) := by
      apply ih.pairs.bind
      intro rest rest' hrest
      apply (Alike.require hkey).bind
      intro key key' hkey
      apply (Alike.require hvalue).bind
      intro value value' hvalue
      unfold Same at hkey hvalue hrest
      apply Alike.pure
      simp only [Same, mapSpansOfPairs, Pair.mapSpans, hkey, hvalue, hrest]
    apply Alike.ite
    · exact (Alike.expect .comma).bind fun _ _ _ => hrest
    · exact hrest

theorem block_succ (ih : AllAlike c budget) :
    Alike c (Same c Block.mapSpans) (Parse.block (budget + 1)) (Parse.block (budget + 1)) := by
  unfold Parse.block
  apply Alike.current.bind
  intro token token' htoken
  apply Alike.advance.bind
  intro _ _ _
  apply (ih.statements true).bind
  intro statements statements' hstatements
  apply (Alike.spanFrom htoken).bind
  intro span span' hspan
  unfold Same at hstatements
  apply Alike.pure
  simp only [Same, Block.mapSpans, htoken.mapSpan, hstatements, hspan]

/-- Statements are read to the end, or to a closing brace, whatever their spans. -/
theorem statements_succ (ih : AllAlike c budget) (inBlock : Bool) :
    Alike c (Same c mapSpansOfStatements) (Parse.statements (budget + 1) inBlock)
      (Parse.statements (budget + 1) inBlock) := by
  unfold Parse.statements
  apply Alike.current.bind
  intro token token' htoken
  rw [htoken.kind]
  apply Alike.ite
  · exact .pure rfl
  · apply ih.statement.attempt.bind
    intro first first' hfirst
    apply Alike.advance.bind
    intro _ _ _
    apply (ih.statements inBlock).bind
    intro rest rest' hrest
    unfold Same at hrest
    apply Alike.pure
    cases hfirst with
    | none => exact hrest
    | some hfirst =>
      unfold Same at hfirst
      simp only [Same, Option.toList_some, List.singleton_append, mapSpansOfStatements, hfirst,
        hrest]

/-- The end of a statement: its expression, the semicolon behind it, and its span. -/
theorem ending (ih : AllAlike c budget) {first first' : Token} (hfirst : first.Corresponds c first')
    {make make' : Expression → Span → Statement}
    (hmake : ∀ value value' span span', Same c Expression.mapSpans value value' →
      c.left span = c.right span' →
      Same c Statement.mapSpans (make value span) (make' value' span')) :
    Alike c (Same c Statement.mapSpans)
      (do
        let value ← Parse.attempt (Parse.expression budget .lowest)
        Parse.skipSemicolon
        let span ← Parse.spanFrom first
        return make (← Parse.require value) span)
      (do
        let value ← Parse.attempt (Parse.expression budget .lowest)
        Parse.skipSemicolon
        let span ← Parse.spanFrom first'
        return make' (← Parse.require value) span) := by
  apply (ih.expression .lowest).attempt.bind
  intro value value' hvalue
  apply Alike.skipSemicolon.bind
  intro _ _ _
  apply (Alike.spanFrom hfirst).bind
  intro span span' hspan
  apply (Alike.require hvalue).bind
  exact fun value value' hvalue => .pure (hmake value value' span span' hvalue hspan)

theorem statement_succ (ih : AllAlike c budget) :
    Alike c (Same c Statement.mapSpans) (Parse.statement (budget + 1))
      (Parse.statement (budget + 1)) := by
  unfold Parse.statement
  apply Alike.current.bind
  intro token token' htoken
  rw [htoken.kind]
  generalize token'.kind = kind
  cases kind
  case letWord =>
    apply (Alike.expect .identifier).bind
    intro _ _ _
    apply Alike.current.bind
    intro name name' hname
    apply (Alike.expect .assign).bind
    intro _ _ _
    apply Alike.advance.bind
    intro _ _ _
    apply ih.ending htoken
    intro value value' span span' hvalue hspan
    unfold Same at hvalue
    simp only [Same, Statement.mapSpans, Name.mapSpan, htoken.mapSpan, hname.mapSpan, hvalue, hspan]
  case returnWord =>
    apply Alike.advance.bind
    intro _ _ _
    apply ih.ending htoken
    intro value value' span span' hvalue hspan
    unfold Same at hvalue
    simp only [Same, Statement.mapSpans, htoken.mapSpan, hvalue, hspan]
  all_goals
    apply ih.ending htoken
    intro value value' span span' hvalue hspan
    unfold Same at hvalue
    simp only [Same, Statement.mapSpans, htoken.mapSpan, hvalue, hspan]

end AllAlike

/-- So all functions of the parser are alike, on any budget. -/
theorem allAlike (budget : Nat) : AllAlike c budget := by
  induction budget with
  | zero =>
    constructor
    all_goals
      intros
      simp only [expression, extended, continued, operand, alternative, expressions,
        moreExpressions, pairs, block, statements, statement]
      exact .failure
  | succ budget ih =>
    exact {
      expression := ih.expression_succ
      extended := fun floor _ _ hleft => ih.extended_succ floor hleft
      continued := fun continuation _ _ hleft => ih.continued_succ continuation hleft
      operand := ih.operand_succ
      alternative := ih.alternative_succ
      expressions := ih.expressions_succ
      moreExpressions := ih.moreExpressions_succ
      pairs := ih.pairs_succ
      block := ih.block_succ
      statements := ih.statements_succ
      statement := ih.statement_succ }

end Parse

/-- Tokens that are the same but for their spans are parsed as the same program but for its spans,
with the same faults of tokens at the same places. -/
theorem parseTokens_corresponds {tokens others : List Token}
    (h : List.Forall₂ (Token.Corresponds c) tokens others) :
    (parseTokens tokens).program.mapSpans c.left = (parseTokens others).program.mapSpans c.right ∧
      List.Forall₂ (SyntaxError.Corresponds c) (parseTokens tokens).errors
        (parseTokens others).errors := by
  cases h with
  | nil => exact ⟨rfl, .nil⟩
  | @cons token token' rest rest' htoken hrest =>
    have hlength : (token :: rest).length = (token' :: rest').length :=
      congrArg Nat.succ hrest.length_eq
    have hbudget : parseBudget (token :: rest) = parseBudget (token' :: rest') := by
      unfold parseBudget
      rw [hlength]
    have halike := (Parse.allAlike (parseBudget (token :: rest))).statements false
      ⟨token, rest, []⟩ ⟨token', rest', []⟩ ⟨htoken, hrest, .nil⟩
    have hparse (token : Token) (rest : List Token) : parseTokens (token :: rest) =
        ⟨⟨((Parse.statements (parseBudget (token :: rest)) false).outcome
          ⟨token, rest, []⟩).1.getD []⟩,
          ((Parse.statements (parseBudget (token :: rest)) false).outcome
            ⟨token, rest, []⟩).2.errors⟩ := rfl
    rw [hparse, hparse, ← hbudget]
    obtain ⟨hresult, hstate⟩ := halike
    refine ⟨?_, hstate.errors⟩
    generalize ((Parse.statements (parseBudget (token :: rest)) false).outcome
      ⟨token, rest, []⟩).1 = result, ((Parse.statements (parseBudget (token :: rest)) false).outcome
        ⟨token', rest', []⟩).1 = result' at hresult
    cases hresult with
    | none => rfl
    | some hresult => exact congrArg Program.mk hresult

end Scriptlet
