import Scriptlet.Proofs.Parser.Complete
import Scriptlet.Proofs.Parser.Simulate

set_option autoImplicit false

/-!
# The parser reads only phrases

Component: the parser.  Specification: section 4.2: what is read without a diagnostic is of the
grammar, and what is read up to the first diagnostic is the beginning of a text of it.

Every function of the parser simulates the goals of its production, and where it records no error
the grammar derives the tree that it yields from the tokens that it has read.  There is one lemma
for each function, and the induction on the budget puts them together (`productions`).

The loop of an expression has the invariant that its tree is an expression of some level, and that
the next token binds no tighter than that level, unless the tree is what can be called.

Two statements are proved by one induction.  That the goals of a production read the same tokens is
needed for the place of the first error, and that the grammar derives the tree is needed for its
meaning; both go through the same steps of the same functions, so that the second is carried as what
holds of the result of the first.

`Productions` lists what all functions do within a budget, one field for each, and the lemmas whose
names end in `_succ` give each field for one unit of budget more.
-/

namespace Scriptlet

open Parse

/-! ## Levels and floors -/

/-- The level of the expressions that are read with a floor. -/
def Precedence.level (floor : Precedence) : Nat := min (floor.rank + 1) prefixLevel

/-- The right operand of an operator is of the next tighter level. -/
theorem InfixOp.level_precedence (operator : InfixOp) :
    operator.precedence.level = operator.level + 1 := by
  cases operator <;> rfl

/-- The token that announces a binary operator is that of the operator. -/
theorem TokenKind.eq_kind {kind : TokenKind} {operator : InfixOp}
    (h : kind.continuation? = some (.binary operator)) : kind = operator.kind := by
  cases kind <;> cases h <;> rfl

/-- A call is announced by a parenthesis only. -/
theorem TokenKind.eq_leftParen {kind : TokenKind} (h : kind.continuation? = some .call) :
    kind = .leftParen := by
  cases kind <;> cases h
  rfl

/-- An indexing is started by a bracket only. -/
theorem TokenKind.eq_leftBracket {kind : TokenKind} (h : kind.continuation? = some .index) :
    kind = .leftBracket := by
  cases kind <;> cases h
  rfl

/-- What does not bind does not continue. -/
theorem TokenKind.continues_of_rank {kind : TokenKind} (h : kind.rank = 0) :
    kind.continues = false := by
  cases kind <;> first | rfl | exact absurd h (by decide)

/-- An expression of a level is one of every looser level. -/
theorem Derives.mono {level lower : Nat} {s t : List Token} {tree : Expression} {last : Token}
    (h : Derives (.expression level) s tree last t) (hlower : lower ≤ level) :
    Derives (.expression lower) s tree last t := by
  cases h with
  | ofOperand _ inner => exact .ofOperand lower inner
  | unary operator hlevel htoken right =>
    exact .unary operator (Nat.le_trans hlower hlevel) htoken right
  | binary operator hlevel htoken left right =>
    exact .binary operator (Nat.le_trans hlower hlevel) htoken left right
  | call hlevel htoken left list => exact .call (Nat.le_trans hlower hlevel) htoken left list
  | index hlevel htoken left inner hclose =>
    exact .index (Nat.le_trans hlower hlevel) htoken left inner hclose

/-- A token that is an operand on its own is one of the grammar. -/
theorem Derives.ofToken {token : Token} {tree : Expression} (tokens : List Token)
    (h : token.operand? = some tree) : Derives .operand (token :: tokens) tree token tokens := by
  unfold Token.operand? at h
  split at h
  case h_1 hkind => exact Option.some.inj h ▸ .identifier tokens hkind
  case h_2 hkind =>
    obtain ⟨value, hvalue, rfl⟩ := Option.map_eq_some_iff.mp h
    unfold integerLiteral? at hvalue
    dsimp only at hvalue
    split at hvalue
    next hle => exact Option.some.inj hvalue ▸ .integer tokens hkind hle
    next => cases hvalue
  case h_3 hkind => exact Option.some.inj h ▸ .string tokens hkind
  case h_4 hkind => exact Option.some.inj h ▸ .trueWord tokens hkind
  case h_5 hkind => exact Option.some.inj h ▸ .falseWord tokens hkind
  case h_6 => cases h

/-- Before a closing brace there are no pairs. -/
theorem Derives.eq_of_rightBrace {token last : Token} {tokens rest : List Token} {tree : List Pair}
    (h : Derives .pairs (token :: tokens) tree last rest) (htoken : token.kind = .rightBrace) :
    tree = [] ∧ last = token ∧ rest = tokens := by
  have hstarts : ∀ {level tree last rest},
      ¬ Derives (.expression level) (token :: tokens) tree last rest := by
    intro level tree last rest hfirst
    obtain ⟨_, _, heq, hopens⟩ := hfirst.opens
    obtain ⟨rfl, rfl⟩ := List.cons.inj heq
    rw [htoken] at hopens
    exact Bool.noConfusion hopens
  cases h with
  | noPair => exact ⟨rfl, rfl, rfl⟩
  | lastPair first => exact absurd first hstarts
  | morePairs first => exact absurd first hstarts

namespace Parse

/-! ## What has been read -/

/-- Whether the first of some tokens binds no tighter than a rank. -/
def Stops (rank : Nat) (tokens : List Token) : Prop :=
  ∀ token ∈ tokens.head?, token.kind.rank ≤ rank

/-- Whether the parser has read a phrase with some tree, and stands at its last token. -/
def Has (phrase : Phrase) (errors : List SyntaxError) (tokens : List Token) (tree : phrase.Tree)
    (stop : ParseState) (rest : List Token) : Prop :=
  ∃ last, stop.After last rest errors ∧ Derives phrase tokens tree last rest

/-- Whether it has read an expression that nothing behind it makes longer, above a floor. -/
def HasWhole (floor : Precedence) (errors : List SyntaxError) (tokens : List Token)
    (tree : Expression) (stop : ParseState) (rest : List Token) : Prop :=
  Has (.expression floor.level) errors tokens tree stop rest ∧ Stops floor.rank rest

/-- Whether it has read an expression that what is behind it may make longer. -/
def HasPart (least : Nat) (errors : List SyntaxError) (tokens : List Token)
    (tree : Expression) (stop : ParseState) (rest : List Token) : Prop :=
  ∃ level, least ≤ level ∧ Has (.expression level) errors tokens tree stop rest ∧
    (postfixLevel ≤ level ∨ Stops level rest)

/-- An operand of the grammar is an expression of the tightest level. -/
theorem Has.part {least : Nat} {errors : List SyntaxError} {tokens rest : List Token}
    {tree : Expression} {stop : ParseState} (hleast : least ≤ postfixLevel)
    (h : Has .operand errors tokens tree stop rest) :
    HasPart least errors tokens tree stop rest := by
  obtain ⟨last, hstop, htree⟩ := h
  exact ⟨postfixLevel, hleast, ⟨last, hstop, .ofOperand _ htree⟩, .inl (Nat.le_refl _)⟩

/-- Whether it has read statements up to their end, which is the end of the text outside of
blocks. -/
def HasStatements (inBlock : Bool) (errors : List SyntaxError) (tokens : List Token)
    (tree : List Statement) (stop : ParseState) (rest : List Token) : Prop :=
  ∃ close last behind, stop.Before behind errors ∧ Derives .statements tokens tree close behind ∧
    Closed close behind last rest ∧ (inBlock = true ∨ close.kind = .eof)

/-- Whether it has read the block behind an `else`, if there is that word. -/
def HasAlternative (errors : List SyntaxError) (last : Token) (tokens : List Token)
    (tree : Option Block) (stop : ParseState) (rest : List Token) : Prop :=
  match tree with
  | none => stop.After last tokens errors ∧ rest = tokens
  | some tree => ∃ word behind, tokens = word :: behind ∧ word.kind = .elseWord ∧
      Has .block errors behind tree stop rest

/-- What all functions of the parser do, within a budget. -/
structure Productions (budget : Nat) : Prop where
  expression {floor : Precedence} {state : ParseState} {errors : List SyntaxError}
    {tokens : List Token} (hfloor : floor.rank ≤ prefixLevel)
    (hbudget : 8 * tokens.length + 2 ≤ budget) (hended : Ended tokens)
    (hstate : state.Before tokens errors) :
    Simulates (expression budget floor) state errors tokens [.expression floor]
      (HasWhole floor errors tokens)
  extended {floor : Precedence} {left : Expression} {level : Nat} {state : ParseState}
    {errors : List SyntaxError} {last : Token} {start tokens : List Token}
    (hfloor : floor.level ≤ level) (hleft : Derives (.expression level) start left last tokens)
    (hstops : postfixLevel ≤ level ∨ Stops level tokens)
    (hbudget : 8 * tokens.length + 1 ≤ budget) (hended : Ended tokens)
    (hstate : state.After last tokens errors) :
    Simulates (extended budget floor left) state errors tokens [.extended floor]
      (HasWhole floor errors start)
  continued {continuation : Continuation} {left : Expression} {state : ParseState}
    {errors : List SyntaxError} {last token : Token} {start tokens : List Token}
    (hkind : token.kind.continuation? = some continuation)
    (hleft : Derives (.expression continuation.level) start left last (token :: tokens))
    (hbudget : 8 * tokens.length + 5 ≤ budget) (hended : Ended tokens)
    (hstate : state.After token tokens errors) :
    Simulates (continued budget continuation left) state errors tokens
      (Goal.ofContinuation continuation) (HasPart continuation.level errors start)
  operand {state : ParseState} {errors : List SyntaxError} {tokens : List Token}
    (hbudget : 8 * tokens.length + 1 ≤ budget) (hended : Ended tokens)
    (hstate : state.Before tokens errors) :
    Simulates (operand budget) state errors tokens [.operand] (HasPart prefixLevel errors tokens)
  alternative {state : ParseState} {errors : List SyntaxError} {last : Token}
    {tokens : List Token} (hbudget : 8 * tokens.length + 1 ≤ budget) (hended : Ended tokens)
    (hstate : state.After last tokens errors) :
    Simulates (alternative budget) state errors tokens [.alternative]
      (HasAlternative errors last tokens)
  expressions {close : TokenKind} {state : ParseState} {errors : List SyntaxError} {last : Token}
    {tokens : List Token} (hclose : close ≠ .eof ∧ close ≠ .comma)
    (hbudget : 8 * tokens.length + 4 ≤ budget) (hended : Ended tokens)
    (hstate : state.After last tokens errors) :
    Simulates (expressions budget close) state errors tokens [.expressions close]
      (Has (.arguments close) errors tokens)
  moreExpressions {close : TokenKind} {state : ParseState} {errors : List SyntaxError}
    {tokens : List Token} (hclose : close ≠ .eof ∧ close ≠ .comma)
    (hbudget : 8 * tokens.length + 3 ≤ budget) (hended : Ended tokens)
    (hstate : state.Before tokens errors) :
    Simulates (moreExpressions budget close) state errors tokens [.items close]
      (Has (.moreArguments close) errors tokens)
  pairs {state : ParseState} {errors : List SyntaxError} {last : Token} {tokens : List Token}
    (hbudget : 8 * tokens.length + 3 ≤ budget) (hended : Ended tokens)
    (hstate : state.After last tokens errors) :
    Simulates (pairs budget) state errors tokens [.pairs] (Has .pairs errors tokens)
  block {state : ParseState} {errors : List SyntaxError} {opening : Token} {tokens : List Token}
    (hopening : opening.kind = .leftBrace) (hbudget : 8 * tokens.length + 5 ≤ budget)
    (hended : Ended tokens) (hstate : state.After opening tokens errors) :
    Simulates (block budget) state errors tokens [.body] (Has .block errors (opening :: tokens))
  statements {inBlock : Bool} {state : ParseState} {errors : List SyntaxError}
    {tokens : List Token} (hbudget : 8 * tokens.length + 4 ≤ budget) (hended : Ended tokens)
    (hstate : state.Before tokens errors) :
    Simulates (statements budget inBlock) state errors tokens
      [if inBlock then .body else .program] (HasStatements inBlock errors tokens)
  statement {state : ParseState} {errors : List SyntaxError} {tokens : List Token}
    (hbudget : 8 * tokens.length + 3 ≤ budget) (hended : Ended tokens)
    (hstate : state.Before tokens errors) :
    Simulates (statement budget) state errors tokens [.statement] (Has .statement errors tokens)

namespace Productions

variable {budget : Nat} {state : ParseState} {errors : List SyntaxError} {last token : Token}
  {tokens start : List Token}

/-! ## Expressions -/

/-- An expression is an operand and what extends it. -/
theorem expression_succ (ih : Productions budget) {floor : Precedence}
    (hbudget : 8 * tokens.length + 1 ≤ budget) (hended : Ended tokens)
    (hstate : state.Before tokens errors) :
    Simulates (Parse.expression (budget + 1) floor) state errors tokens [.expression floor]
      (HasWhole floor errors tokens) := by
  obtain ⟨token, rest, rfl⟩ := hended.exists_cons
  unfold Parse.expression
  refine .look rfl ((ih.operand hbudget hended hstate).bind ?_)
  rintro left stop rest hrest hlength ⟨level, hlevel, ⟨last, hstop, hleft⟩, hstops⟩
  exact ih.extended (Nat.le_trans (Nat.min_le_right _ _) hlevel) hleft hstops (by omega) hrest hstop

/-- An expression of any kind. -/
theorem anyExpression (ih : Productions budget) (hbudget : 8 * tokens.length + 2 ≤ budget)
    (hended : Ended tokens) (hstate : state.Before tokens errors) :
    Simulates (Parse.expression budget .lowest) state errors tokens [.expression .lowest]
      (HasWhole .lowest errors tokens) :=
  ih.expression (Nat.zero_le _) hbudget hended hstate

/-- The loop: it stops with an expression of the level of the floor, or reads what continues it and
goes on with a longer one. -/
theorem extended_succ (ih : Productions budget) {floor : Precedence} {left : Expression}
    {level : Nat} (hfloor : floor.level ≤ level)
    (hleft : Derives (.expression level) start left last tokens)
    (hstops : postfixLevel ≤ level ∨ Stops level tokens)
    (hbudget : 8 * tokens.length ≤ budget) (hended : Ended tokens)
    (hstate : state.After last tokens errors) :
    Simulates (Parse.extended (budget + 1) floor left) state errors tokens [.extended floor]
      (HasWhole floor errors start) := by
  obtain ⟨token, rest, rfl⟩ := hended.exists_cons
  -- what has been read so far may be all of it
  have hdone : token.kind.rank ≤ floor.rank →
      HasWhole floor errors start left state (token :: rest) := by
    intro hrank
    refine ⟨⟨last, hstate, hleft.mono hfloor⟩, ?_⟩
    intro head hhead
    obtain rfl := Option.some.inj hhead
    exact hrank
  unfold Parse.extended
  refine .skip (yields_peekKind state) ?_
  rw [hstate.peek]
  cases hkind : token.kind.continuation? with
  | none =>
    have hrank := TokenKind.rank_of_none hkind
    have hmove : (Goal.extended floor).move token = .look [] := by simp [Goal.move, hkind]
    exact .look hmove (.pure hended (hdone (by omega)))
  | some continuation =>
    have hrank := TokenKind.rank_of_some hkind
    dsimp only
    split
    next hlt =>
      have hmove : (Goal.extended floor).move token =
          .read (Goal.ofContinuation continuation ++ [.extended floor]) := by
        simp [Goal.move, hkind, hlt]
      -- the operator binds no tighter than the left operand, since that did not take it
      have hlevel : continuation.level ≤ level := by
        unfold Continuation.level
        rw [← hrank]
        obtain hstops | hstops := hstops
        · omega
        · have hnext := hstops token rfl
          omega
      have hrest : Ended rest := hended.tail (by intro h; rw [h] at hkind; cases hkind)
      rw [List.length_cons] at hbudget
      refine .read hmove ?_
      rw [List.append_nil]
      refine .skip (yields_advance state) ?_
      refine (ih.continued hkind (hleft.mono hlevel) (by omega) hrest
        (hstate.advance.after hrest.ne_nil)).bind_append ?_
      rintro longer stop behind hbehind hlength ⟨level', hlevel', ⟨last', hstop, hlonger⟩, hstops'⟩
      -- nor does what is read with the operator fall below the floor
      have hfloor' : floor.level ≤ level' := by
        unfold Precedence.level prefixLevel
        unfold Continuation.level postfixLevel at hlevel'
        omega
      exact ih.extended hfloor' hlonger hstops' (by omega) hbehind hstop
    next hle =>
      have hmove : (Goal.extended floor).move token = .look [] := by simp [Goal.move, hkind, hle]
      exact .look hmove (.pure hended (hdone (by omega)))

/-- What continues an expression is an operator with its right operand, a call or an indexing. -/
theorem continued_succ (ih : Productions budget) {continuation : Continuation} {left : Expression}
    (hkind : token.kind.continuation? = some continuation)
    (hleft : Derives (.expression continuation.level) start left last (token :: tokens))
    (hbudget : 8 * tokens.length + 4 ≤ budget) (hended : Ended tokens)
    (hstate : state.After token tokens errors) :
    Simulates (Parse.continued (budget + 1) continuation left) state errors tokens
      (Goal.ofContinuation continuation) (HasPart continuation.level errors start) := by
  cases continuation with
  | binary operator =>
    have hlt := operator.level_lt
    unfold Parse.continued
    refine .skip (yields_current state) (.skip (yields_advance state) ?_)
    refine (ih.expression ?_ (by omega) hended hstate.advance).bind ?_
    · rw [operator.rank_precedence]
      exact Nat.le_of_lt hlt
    rintro right stop rest hrest _ ⟨⟨last', hstop, hright⟩, hstops⟩
    rw [operator.level_precedence] at hright
    rw [operator.rank_precedence] at hstops
    rw [operator.level_binary] at hleft ⊢
    rw [hstate.current]
    exact .pure hrest ⟨operator.level, Nat.le_refl _, ⟨last', hstop,
      .binary operator (Nat.le_refl _) (TokenKind.eq_kind hkind) hleft hright⟩, .inr hstops⟩
  | call =>
    unfold Parse.continued
    refine .skip (yields_current state) ?_
    refine (ih.expressions (by decide) (by omega) hended hstate).bind ?_
    rintro list stop rest hrest _ ⟨last', hstop, hlist⟩
    rw [hstate.current]
    exact .pure hrest ⟨postfixLevel, Nat.le_refl _, ⟨last', hstop,
      .call (Nat.le_refl _) (TokenKind.eq_leftParen hkind) hleft hlist⟩, .inl (Nat.le_refl _)⟩
  | index =>
    unfold Parse.continued
    refine .skip (yields_current state) (.skip (yields_advance state) ?_)
    refine (ih.anyExpression (by omega) hended hstate.advance).attempt_bind ?_
    rintro position stop rest hrest _ ⟨⟨last', hstop, hposition⟩, _⟩
    refine .token_bind hstop hrest (by decide) ?_
    rintro close rest rfl hclose hrest hafter
    refine .skip (yields_require position _) ?_
    rw [hstate.current]
    exact .pure hrest ⟨postfixLevel, Nat.le_refl _, ⟨close, hafter,
      .index (Nat.le_refl _) (TokenKind.eq_leftBracket hkind) hleft hposition hclose⟩,
      .inl (Nat.le_refl _)⟩

/-! ## Parameters -/

/-- By induction on the budget, as no other production is involved. -/
theorem simulates_moreParameters {budget : Nat} : ∀ {state : ParseState} {last : Token}
    {tokens : List Token}, 8 * tokens.length + 1 ≤ budget → Ended tokens →
    state.After last tokens errors →
    Simulates (Parse.moreParameters budget) state errors tokens [.names]
      (Has .moreParameters errors tokens) := by
  induction budget with
  | zero =>
    intro state last tokens hbudget
    exact absurd hbudget (Nat.not_succ_le_zero _)
  | succ budget ih =>
    intro state last tokens hbudget hended hstate
    obtain ⟨first, tokens, rfl⟩ := hended.exists_cons
    unfold Parse.moreParameters
    refine .look rfl (.token_bind hstate hended (by decide) ?_)
    rintro name behind heq hname hrest hafter
    obtain ⟨rfl, rfl⟩ := List.cons.inj heq
    refine .skip (yields_current _) (.skip (yields_peekKind _) ?_)
    obtain ⟨next, tokens, rfl⟩ := hrest.exists_cons
    simp only [List.length_cons] at hbudget
    rw [hafter.peek, hafter.current]
    by_cases hcomma : next.kind = .comma
    · rw [if_pos hcomma]
      have hbehind := hrest.tail (by rw [hcomma]; decide)
      refine .read (if_pos hcomma) (.skip (yields_advance _) ?_)
      refine (ih (by omega) hbehind (hafter.advance.after hbehind.ne_nil)).bind ?_
      rintro others stop rest hended' _ ⟨close, hstop, hothers⟩
      exact .pure hended' ⟨close, hstop, .moreParameters hname hcomma hothers⟩
    · rw [if_neg hcomma]
      refine .expect_bind hafter hrest (by decide)
        (fun h => (if_neg hcomma).trans (if_neg h)) ?_
      intro hclose hbehind hafter'
      refine .read ((if_neg hcomma).trans (if_pos hclose)) (.pure hbehind ?_)
      exact ⟨next, hafter', .lastParameter tokens hname hclose⟩

/-- Parameters are a closing parenthesis, or names up to one. -/
theorem simulates_parameters (hbudget : 8 * tokens.length + 1 ≤ budget) (hended : Ended tokens)
    (hstate : state.After last tokens errors) :
    Simulates (Parse.parameters budget) state errors tokens [.parameters]
      (Has .parameters errors tokens) := by
  obtain ⟨token, rest, rfl⟩ := hended.exists_cons
  unfold Parse.parameters
  refine .skip (yields_peekKind state) ?_
  rw [hstate.peek]
  by_cases hclose : token.kind = .rightParen
  · rw [if_pos hclose]
    have hrest := hended.tail (by rw [hclose]; decide)
    refine .read (if_pos hclose) (.skip (yields_advance state) (.pure hrest ?_))
    exact ⟨token, hstate.advance.after hrest.ne_nil, .noParameter rest hclose⟩
  · rw [if_neg hclose]
    refine .look (if_neg hclose) ((simulates_moreParameters hbudget hended hstate).imp ?_)
    rintro names stop behind ⟨close, hstop, hnames⟩
    exact ⟨close, hstop, .someParameters hnames⟩

/-! ## Operands -/

/-- A prefix operator and its operand. -/
theorem operand_unary (ih : Productions budget) (operator : PrefixOp)
    (htoken : token.kind = operator.kind) (hbudget : 8 * tokens.length + 2 ≤ budget)
    (hended : Ended tokens) (hstate : state.Before (token :: tokens) errors) :
    Simulates (Parse.operand (budget + 1)) state errors (token :: tokens) [.operand]
      (HasPart prefixLevel errors (token :: tokens)) := by
  have hmove : Goal.operand.move token = .read [.expression .unary] := by
    cases operator <;> simp only [Goal.move, Goal.moveOperand, htoken, PrefixOp.kind]
  have hfloor : Precedence.unary.rank ≤ prefixLevel := Nat.le_refl prefixLevel
  have hright := ih.expression hfloor hbudget hended (hstate.after hended.ne_nil).advance
  unfold Parse.operand
  refine .skip (yields_current state) ?_
  rw [hstate.current]
  cases operator with
  | not =>
    simp only [htoken, PrefixOp.kind]
    refine .read hmove (.skip (yields_advance state) (hright.bind ?_))
    rintro right stop rest hrest _ ⟨⟨last, hstop, hright⟩, hstops⟩
    exact .pure hrest ⟨prefixLevel, Nat.le_refl _, ⟨last, hstop,
      .unary .not (Nat.le_refl _) htoken hright⟩, .inr hstops⟩
  | negate =>
    simp only [htoken, PrefixOp.kind]
    refine .read hmove (.skip (yields_advance state) (hright.bind ?_))
    rintro right stop rest hrest _ ⟨⟨last, hstop, hright⟩, hstops⟩
    exact .pure hrest ⟨prefixLevel, Nat.le_refl _, ⟨last, hstop,
      .unary .negate (Nat.le_refl _) htoken hright⟩, .inr hstops⟩

/-- An expression between parentheses. -/
theorem operand_group (ih : Productions budget) (htoken : token.kind = .leftParen)
    (hbudget : 8 * tokens.length + 2 ≤ budget) (hended : Ended tokens)
    (hstate : state.Before (token :: tokens) errors) :
    Simulates (Parse.operand (budget + 1)) state errors (token :: tokens) [.operand]
      (HasPart prefixLevel errors (token :: tokens)) := by
  have hmove : Goal.operand.move token = .read [.expression .lowest, .token .rightParen] := by
    simp only [Goal.move, Goal.moveOperand, htoken]
  unfold Parse.operand
  refine .skip (yields_current state) ?_
  rw [hstate.current]
  simp only [htoken]
  refine .read hmove (.skip (yields_advance state) ?_)
  refine (ih.anyExpression hbudget hended
    (hstate.after hended.ne_nil).advance).attempt_bind ?_
  rintro inner stop rest hrest _ ⟨⟨last, hstop, hinner⟩, _⟩
  refine .token_bind hstop hrest (by decide) ?_
  rintro close rest rfl hclose hrest hafter
  exact .finish (yields_require inner _) hrest
    (Has.part (by decide) ⟨close, hafter, .group htoken hinner hclose⟩)

/-- A condition between parentheses, a block, and the block behind an `else` if there is one. -/
theorem operand_conditional (ih : Productions budget) (htoken : token.kind = .ifWord)
    (hbudget : 8 * tokens.length ≤ budget) (hended : Ended tokens)
    (hstate : state.Before (token :: tokens) errors) :
    Simulates (Parse.operand (budget + 1)) state errors (token :: tokens) [.operand]
      (HasPart prefixLevel errors (token :: tokens)) := by
  have hmove : Goal.operand.move token = .read [.token .leftParen, .expression .lowest,
      .token .rightParen, .token .leftBrace, .body, .alternative] := by
    simp only [Goal.move, Goal.moveOperand, htoken]
  unfold Parse.operand
  refine .skip (yields_current state) ?_
  rw [hstate.current]
  simp only [htoken]
  refine .read hmove ?_
  refine .token_bind (hstate.after hended.ne_nil) hended (by decide) ?_
  rintro opening behind rfl hopening hbehind hafter
  rw [List.length_cons] at hbudget
  refine .skip (yields_advance _) ?_
  refine (ih.anyExpression (by omega) hbehind hafter.advance).attempt_bind ?_
  rintro condition stop₁ rest₁ hrest₁ hlength₁ ⟨⟨last₁, hstop₁, hcondition⟩, _⟩
  refine .token_bind hstop₁ hrest₁ (by decide) ?_
  rintro close rest₁ rfl hclose hrest₁ hafter₁
  refine .token_bind hafter₁ hrest₁ (by decide) ?_
  rintro first rest₁ rfl hfirst hrest₁ hafter₁
  simp only [List.length_cons] at hlength₁
  refine (ih.block hfirst (by omega) hrest₁ hafter₁).bind ?_
  rintro consequence stop₂ rest₂ hrest₂ hlength₂ ⟨last₂, hstop₂, hconsequence⟩
  refine (ih.alternative (by omega) hrest₂ hstop₂).bind ?_
  intro alternative stop₃ rest₃ hrest₃ _ halternative
  refine .skip (yields_require condition _) (.pure hrest₃ (Has.part (by decide) ?_))
  cases alternative with
  | none =>
    obtain ⟨hstop₃, rfl⟩ := halternative
    exact ⟨last₂, hstop₃, .conditional htoken hopening hcondition hclose hconsequence⟩
  | some alternative =>
    obtain ⟨word, behind₂, rfl, hword, last₃, hstop₃, halternative⟩ := halternative
    exact ⟨last₃, hstop₃, .conditionalElse htoken hopening hcondition hclose hconsequence hword
      halternative⟩

/-- Parameters between parentheses, and a block. -/
theorem operand_function (ih : Productions budget) (htoken : token.kind = .functionWord)
    (hbudget : 8 * tokens.length ≤ budget) (hended : Ended tokens)
    (hstate : state.Before (token :: tokens) errors) :
    Simulates (Parse.operand (budget + 1)) state errors (token :: tokens) [.operand]
      (HasPart prefixLevel errors (token :: tokens)) := by
  have hmove : Goal.operand.move token =
      .read [.token .leftParen, .parameters, .token .leftBrace, .body] := by
    simp only [Goal.move, Goal.moveOperand, htoken]
  unfold Parse.operand
  refine .skip (yields_current state) ?_
  rw [hstate.current]
  simp only [htoken]
  refine .read hmove ?_
  refine .token_bind (hstate.after hended.ne_nil) hended (by decide) ?_
  rintro opening behind rfl hopening hbehind hafter
  rw [List.length_cons] at hbudget
  refine (simulates_parameters (by omega) hbehind hafter).attempt_bind ?_
  rintro names stop rest hrest hlength ⟨close, hstop, hnames⟩
  refine .token_bind hstop hrest (by decide) ?_
  rintro first rest rfl hfirst hrest hafter'
  rw [List.length_cons] at hlength
  refine (ih.block hfirst (by omega) hrest hafter').bind ?_
  rintro body stop' rest' hrest' _ ⟨last, hstop', hbody⟩
  refine .skip (yields_require names _) (.pure hrest' (Has.part (by decide) ?_))
  exact ⟨last, hstop', .function htoken hopening hnames hbody⟩

/-- A list up to the bracket. -/
theorem operand_array (ih : Productions budget) (htoken : token.kind = .leftBracket)
    (hbudget : 8 * tokens.length + 4 ≤ budget) (hended : Ended tokens)
    (hstate : state.Before (token :: tokens) errors) :
    Simulates (Parse.operand (budget + 1)) state errors (token :: tokens) [.operand]
      (HasPart prefixLevel errors (token :: tokens)) := by
  have hmove : Goal.operand.move token = .read [.expressions .rightBracket] := by
    simp only [Goal.move, Goal.moveOperand, htoken]
  unfold Parse.operand
  refine .skip (yields_current state) ?_
  rw [hstate.current]
  simp only [htoken]
  refine .read hmove ?_
  refine (ih.expressions (by decide) hbudget hended (hstate.after hended.ne_nil)).bind ?_
  rintro inner stop rest hrest _ ⟨close, hstop, hlist⟩
  exact .pure hrest (Has.part (by decide) ⟨close, hstop, .array htoken hlist⟩)

/-- Pairs up to the brace. -/
theorem operand_hash (ih : Productions budget) (htoken : token.kind = .leftBrace)
    (hbudget : 8 * tokens.length + 3 ≤ budget) (hended : Ended tokens)
    (hstate : state.Before (token :: tokens) errors) :
    Simulates (Parse.operand (budget + 1)) state errors (token :: tokens) [.operand]
      (HasPart prefixLevel errors (token :: tokens)) := by
  have hmove : Goal.operand.move token = .read [.pairs] := by
    simp only [Goal.move, Goal.moveOperand, htoken]
  unfold Parse.operand
  refine .skip (yields_current state) ?_
  rw [hstate.current]
  simp only [htoken]
  refine .read hmove ?_
  refine (ih.pairs hbudget hended (hstate.after hended.ne_nil)).bind ?_
  rintro inner stop rest hrest _ ⟨close, hstop, hlist⟩
  exact .pure hrest (Has.part (by decide) ⟨close, hstop, .hash htoken hlist⟩)

/-- A token that is an operand on its own. -/
theorem operand_single {tree : Expression} (h : token.operand? = some tree) (hended : Ended tokens)
    (hstate : state.Before (token :: tokens) errors) :
    Simulates (Parse.operand (budget + 1)) state errors (token :: tokens) [.operand]
      (HasPart prefixLevel errors (token :: tokens)) := by
  have hyields : (Parse.operand (budget + 1)).Yields state tree state :=
    yields_operand (by rw [hstate.current]; exact h)
  have hmove : Goal.operand.move token = .read [] := by
    unfold Token.operand? at h
    split at h
    case h_2 hkind =>
      obtain ⟨value, hvalue, _⟩ := Option.map_eq_some_iff.mp h
      simp only [Goal.move, Goal.moveOperand, hkind, hvalue]
    case h_6 => cases h
    all_goals
      rename_i hkind
      simp only [Goal.move, Goal.moveOperand, hkind]
  exact .read hmove (.finish hyields hended
    (Has.part (by decide) ⟨token, hstate.after hended.ne_nil, Derives.ofToken tokens h⟩))

/-- A number that is too large is recorded, and the goal rejects it. -/
theorem operand_integer (htoken : token.kind = .integer)
    (hvalue : integerLiteral? token.literal = none)
    (hstate : state.Before (token :: tokens) errors) :
    Simulates (Parse.operand (budget + 1)) state errors (token :: tokens) [.operand]
      (HasPart prefixLevel errors (token :: tokens)) := by
  have hmove : Goal.operand.move token = .reject := by
    simp only [Goal.move, Goal.moveOperand, htoken, hvalue]
  have herrors : ((Parse.operand (budget + 1)).outcome state).2.errors =
      errors ++ [⟨token.span, .integerRange token.literal⟩] := by
    rw [Parse.operand, outcome_bind_of_yields (yields_current state), hstate.current]
    simp only [htoken, hvalue]
    rw [← hstate.errors]
    rfl
  exact .reject hmove herrors rfl

/-- A token that no expression starts with. -/
theorem operand_other (htoken : token.kind.starts = false)
    (hstate : state.Before (token :: tokens) errors) :
    Simulates (Parse.operand (budget + 1)) state errors (token :: tokens) [.operand]
      (HasPart prefixLevel errors (token :: tokens)) := by
  have hmove : Goal.operand.move token = .reject := by
    cases hkind : token.kind
    all_goals first
      | exact absurd htoken (by rw [hkind]; decide)
      | simp only [Goal.move, Goal.moveOperand, hkind]
  have herrors : ((Parse.operand (budget + 1)).outcome state).2.errors =
      errors ++ [⟨token.span, .noOperand token.kind⟩] := by
    rw [Parse.operand, outcome_bind_of_yields (yields_current state), hstate.current,
      ← hstate.errors]
    cases hkind : token.kind
    all_goals first
      | exact absurd htoken (by rw [hkind]; decide)
      | rfl
  exact .reject hmove herrors rfl

/-- By the kind of the current token, one of the above. -/
theorem operand_succ (ih : Productions budget) (hbudget : 8 * tokens.length ≤ budget)
    (hended : Ended tokens) (hstate : state.Before tokens errors) :
    Simulates (Parse.operand (budget + 1)) state errors tokens [.operand]
      (HasPart prefixLevel errors tokens) := by
  obtain ⟨token, tokens, rfl⟩ := hended.exists_cons
  rw [List.length_cons] at hbudget
  by_cases hstarts : token.kind.starts = false
  · exact operand_other hstarts hstate
  have hrest : Ended tokens := by
    refine hended.tail ?_
    intro heof
    rw [heof] at hstarts
    exact hstarts rfl
  cases hsingle : token.operand? with
  | some tree => exact operand_single hsingle hrest hstate
  | none =>
    cases hkind : token.kind
    case bang => exact ih.operand_unary .not hkind (by omega) hrest hstate
    case minus => exact ih.operand_unary .negate hkind (by omega) hrest hstate
    case leftParen => exact ih.operand_group hkind (by omega) hrest hstate
    case ifWord => exact ih.operand_conditional hkind (by omega) hrest hstate
    case functionWord => exact ih.operand_function hkind (by omega) hrest hstate
    case leftBracket => exact ih.operand_array hkind (by omega) hrest hstate
    case leftBrace => exact ih.operand_hash hkind (by omega) hrest hstate
    case integer =>
      simp only [Token.operand?, hkind, Option.map_eq_none_iff] at hsingle
      exact operand_integer hkind hsingle hstate
    case identifier | string | trueWord | falseWord =>
      simp only [Token.operand?, hkind] at hsingle
      cases hsingle
    all_goals exact absurd (by rw [hkind]; rfl) hstarts

/-! ## Lists -/

/-- A list is empty, or starts with an expression. -/
theorem expressions_succ (ih : Productions budget) {close : TokenKind}
    (hclose : close ≠ .eof ∧ close ≠ .comma) (hbudget : 8 * tokens.length + 3 ≤ budget)
    (hended : Ended tokens) (hstate : state.After last tokens errors) :
    Simulates (Parse.expressions (budget + 1) close) state errors tokens [.expressions close]
      (Has (.arguments close) errors tokens) := by
  obtain ⟨token, rest, rfl⟩ := hended.exists_cons
  unfold Parse.expressions
  refine .skip (yields_advance state) (.skip (yields_current _) ?_)
  rw [hstate.advance.current]
  by_cases h : token.kind = close
  · rw [if_pos h]
    have hrest := hended.tail (by rw [h]; exact hclose.1)
    refine .read (if_pos h) (.pure hrest ?_)
    exact ⟨token, hstate.advance.after hrest.ne_nil, .noArgument rest h⟩
  · rw [if_neg h]
    refine .look (if_neg h) ((ih.moreExpressions hclose hbudget hended hstate.advance).imp ?_)
    rintro list stop behind ⟨last, hstop, hlist⟩
    exact ⟨last, hstop, .someArguments hlist⟩

/-- Behind an expression stands a comma or the closing token. -/
theorem moreExpressions_succ (ih : Productions budget) {close : TokenKind}
    (hclose : close ≠ .eof ∧ close ≠ .comma) (hbudget : 8 * tokens.length + 2 ≤ budget)
    (hended : Ended tokens) (hstate : state.Before tokens errors) :
    Simulates (Parse.moreExpressions (budget + 1) close) state errors tokens [.items close]
      (Has (.moreArguments close) errors tokens) := by
  obtain ⟨token, rest, rfl⟩ := hended.exists_cons
  unfold Parse.moreExpressions
  refine .look rfl ((ih.anyExpression hbudget hended hstate).attempt_bind ?_)
  rintro first stop behind hbehind hlength ⟨⟨last, hstop, hfirst⟩, _⟩
  obtain ⟨next, behind, rfl⟩ := hbehind.exists_cons
  simp only [List.length_cons] at hlength hbudget
  refine .skip (yields_peekKind stop) ?_
  rw [hstop.peek]
  by_cases hcomma : next.kind = .comma
  · rw [if_pos hcomma]
    have hrest := hbehind.tail (by rw [hcomma]; decide)
    refine .read (if_pos hcomma) (.skip (yields_advance _) (.skip (yields_advance _) ?_))
    refine (ih.moreExpressions hclose (by omega) hrest
      (hstop.advance.after hrest.ne_nil).advance).bind ?_
    rintro others final rest' hrest' _ ⟨last', hfinal, hothers⟩
    exact .skip (yields_require first _)
      (.pure hrest' ⟨last', hfinal, .moreArguments hfirst hcomma hothers⟩)
  · rw [if_neg hcomma]
    refine .expect_bind hstop hbehind hclose.1 (fun h => (if_neg hcomma).trans (if_neg h)) ?_
    intro h hrest hafter
    refine .read ((if_neg hcomma).trans (if_pos h)) (.skip (yields_require first _) ?_)
    exact .pure hrest ⟨next, hafter, .lastArgument hfirst h⟩

-- what is behind the key is a large step
set_option synthInstance.maxSize 2048 in
/-- A pair, and a comma or the brace behind it. -/
theorem pairs_succ (ih : Productions budget) (hbudget : 8 * tokens.length + 2 ≤ budget)
    (hended : Ended tokens) (hstate : state.After last tokens errors) :
    Simulates (Parse.pairs (budget + 1)) state errors tokens [.pairs]
      (Has .pairs errors tokens) := by
  obtain ⟨token, rest, rfl⟩ := hended.exists_cons
  unfold Parse.pairs
  refine .skip (yields_advance state) (.skip (yields_current _) ?_)
  rw [hstate.advance.current]
  by_cases hclose : token.kind = .rightBrace
  · rw [if_pos hclose]
    have hrest := hended.tail (by rw [hclose]; decide)
    refine .read (if_pos hclose) (.pure hrest ?_)
    exact ⟨token, hstate.advance.after hrest.ne_nil, .noPair rest hclose⟩
  rw [if_neg hclose]
  dsimp only
  refine .look (if_neg hclose) ?_
  refine (ih.anyExpression hbudget hended hstate.advance).attempt_bind ?_
  rintro key stop₁ rest₁ hrest₁ hlength₁ ⟨⟨last₁, hstop₁, hkey⟩, _⟩
  refine .token_bind hstop₁ hrest₁ (by decide) ?_
  rintro colon rest₁ rfl hcolon hrest₁ hafter₁
  simp only [List.length_cons] at hlength₁ hbudget
  refine .skip (yields_advance _) ?_
  refine (ih.anyExpression (by omega) hrest₁ hafter₁.advance).attempt_bind ?_
  rintro value stop₂ rest₂ hrest₂ hlength₂ ⟨⟨last₂, hstop₂, hvalue⟩, _⟩
  obtain ⟨next, rest₂, rfl⟩ := hrest₂.exists_cons
  rw [List.length_cons] at hlength₂
  refine .skip (yields_peekKind stop₂) ?_
  rw [hstop₂.peek]
  by_cases hnext : next.kind = .rightBrace
  · rw [if_neg fun h => h hnext]
    -- the closing brace is read by the next turn, as that of no pairs
    refine .look (if_pos hnext) ((ih.pairs (by rw [List.length_cons]; omega) hrest₂ hstop₂).bind ?_)
    rintro others stop₃ rest₃ hrest₃ _ ⟨last₃, hstop₃, hothers⟩
    refine .skip (yields_require key _) (.skip (yields_require value _) (.pure hrest₃ ?_))
    obtain ⟨rfl, rfl, rfl⟩ := hothers.eq_of_rightBrace hnext
    exact ⟨_, hstop₃, .lastPair hkey hcolon hvalue hnext⟩
  · rw [if_pos hnext]
    refine .expect_bind hstop₂ hrest₂ (by decide) (fun h => (if_neg hnext).trans (if_neg h)) ?_
    intro hcomma hrest₂ hafter₂
    refine .read ((if_neg hnext).trans (if_pos hcomma)) ?_
    refine (ih.pairs (by omega) hrest₂ hafter₂).bind ?_
    rintro others stop₃ rest₃ hrest₃ _ ⟨last₃, hstop₃, hothers⟩
    refine .skip (yields_require key _) (.skip (yields_require value _) (.pure hrest₃ ?_))
    exact ⟨last₃, hstop₃, .morePairs hkey hcolon hvalue hcomma hothers⟩

/-! ## Blocks and statements -/

/-- A block behind the word, or nothing. -/
theorem alternative_succ (ih : Productions budget) (hbudget : 8 * tokens.length ≤ budget)
    (hended : Ended tokens) (hstate : state.After last tokens errors) :
    Simulates (Parse.alternative (budget + 1)) state errors tokens [.alternative]
      (HasAlternative errors last tokens) := by
  obtain ⟨word, tokens, rfl⟩ := hended.exists_cons
  unfold Parse.alternative
  refine .skip (yields_peekKind state) ?_
  rw [hstate.peek]
  by_cases hword : word.kind = .elseWord
  · rw [if_pos hword]
    have hrest := hended.tail (by rw [hword]; decide)
    have hafter := hstate.advance.after hrest.ne_nil
    refine .read (if_pos hword) (.skip (yields_advance state) ?_)
    refine .token_bind hafter hrest (by decide) ?_
    rintro first tokens rfl hfirst hbehind hafter'
    simp only [List.length_cons] at hbudget
    refine (ih.block hfirst (by omega) hbehind hafter').bind ?_
    intro block stop rest hrest _ hblock
    exact .pure hrest ⟨word, first :: tokens, rfl, hword, hblock⟩
  · rw [if_neg hword]
    exact .look (if_neg hword) (.pure hended ⟨hstate, rfl⟩)

/-- A brace, statements, and what closes them. -/
theorem block_succ (ih : Productions budget) (hopening : token.kind = .leftBrace)
    (hbudget : 8 * tokens.length + 4 ≤ budget) (hended : Ended tokens)
    (hstate : state.After token tokens errors) :
    Simulates (Parse.block (budget + 1)) state errors tokens [.body]
      (Has .block errors (token :: tokens)) := by
  unfold Parse.block
  refine .skip (yields_current state) (.skip (yields_advance state) ?_)
  have hbody : Simulates (Parse.statements budget true) state.advance errors tokens [.body]
      (HasStatements true errors tokens) := ih.statements hbudget hended hstate.advance
  refine hbody.bind ?_
  rintro inner stop rest hrest _ ⟨close, last, behind, hstop, hinner, hclosed, _⟩
  have hafter : stop.After last rest errors := by
    cases hclosed with
    | brace => exact hstop.after hrest.ne_nil
    | eof => exact hstop.after_self
  refine .skip (yields_spanFrom _ _) (.pure hrest ⟨last, hafter, ?_⟩)
  rw [hstate.current, hafter.current]
  exact .block hopening hinner hclosed

/-- A statement at a time, until a brace or the end. -/
theorem statements_succ (ih : Productions budget) {inBlock : Bool}
    (hbudget : 8 * tokens.length + 3 ≤ budget) (hended : Ended tokens)
    (hstate : state.Before tokens errors) :
    Simulates (Parse.statements (budget + 1) inBlock) state errors tokens
      [if inBlock then .body else .program] (HasStatements inBlock errors tokens) := by
  obtain ⟨token, tokens, rfl⟩ := hended.exists_cons
  unfold Parse.statements
  refine .skip (yields_current state) ?_
  rw [hstate.current]
  dsimp only
  by_cases heof : token.kind = .eof
  · rw [if_pos (.inl heof)]
    obtain rfl := hended.eq_nil heof
    have hmove : (if inBlock then Goal.body else .program).move token = .look [] := by
      cases inBlock <;> exact if_pos heof
    exact .look hmove (.pure hended ⟨token, token, [token], hstate, .noStatement token [],
      .eof heof, .inr heof⟩)
  by_cases hclose : inBlock = true ∧ token.kind = .rightBrace
  · rw [if_pos (.inr hclose)]
    obtain ⟨rfl, hclose⟩ := hclose
    have hmove : Goal.body.move token = .read [] := (if_neg heof).trans (if_pos hclose)
    exact .read hmove (.pure (hended.tail heof) ⟨token, token, token :: tokens, hstate,
      .noStatement token tokens, .brace hclose, .inl rfl⟩)
  rw [if_neg (not_or.mpr ⟨heof, hclose⟩)]
  have hmove : (if inBlock then Goal.body else .program).move token =
      .look [.statement, if inBlock then .body else .program] := by
    cases inBlock with
    | false => exact if_neg heof
    | true => exact (if_neg heof).trans (if_neg fun h => hclose ⟨rfl, h⟩)
  refine .look hmove ((ih.statement hbudget hended hstate).attempt_bind ?_)
  rintro first stop rest hrest hlength ⟨last, hstop, hfirst⟩
  have hshorter := hfirst.length_le
  simp only [Phrase.least] at hshorter
  refine .skip (yields_advance stop) ((ih.statements (by omega) hrest hstop.advance).bind ?_)
  rintro others stop' rest' hrest' _ ⟨close, last', behind, hstop', hothers, hclosed, hend⟩
  exact .pure hrest' ⟨close, last', behind, hstop', .moreStatements hfirst hothers, hclosed, hend⟩

/-- The expression of a statement, with the semicolon that may follow it. -/
theorem ending (ih : Productions budget) (first : Token)
    (make : Expression → Span → Statement) (hbudget : 8 * tokens.length + 2 ≤ budget)
    (hended : Ended tokens) (hstate : state.Before tokens errors) :
    Simulates (do
        let value ← attempt (Parse.expression budget .lowest)
        skipSemicolon
        let span ← spanFrom first
        return make (← require value) span)
      state errors tokens [.expression .lowest, .semicolon] fun tree stop rest =>
        ∃ value last semicolon behind, Derives .anyExpression tokens value last behind ∧
          Terminated last behind semicolon rest ∧ stop.After semicolon rest errors ∧
          tree = make value (first.span.cover semicolon.span) := by
  refine (ih.anyExpression hbudget hended hstate).attempt_bind ?_
  rintro value stop behind hbehind _ ⟨⟨last, hstop, hvalue⟩, hstops⟩
  obtain ⟨next, rest, rfl⟩ := hbehind.exists_cons
  have hskip := outcome_skipSemicolon stop
  rw [hstop.peek] at hskip
  by_cases hsemicolon : next.kind = .semicolon
  · rw [if_pos hsemicolon] at hskip
    have hrest := hbehind.tail (by rw [hsemicolon]; decide)
    have hafter := hstop.advance.after hrest.ne_nil
    refine .read (if_pos hsemicolon) (.skip hskip (.skip (yields_spanFrom _ _) ?_))
    rw [hafter.current]
    exact .skip (yields_require value _) (.pure hrest ⟨value, last, next, next :: rest, hvalue,
      .semicolon hsemicolon, hafter, rfl⟩)
  · rw [if_neg hsemicolon] at hskip
    have hcontinues := TokenKind.continues_of_rank (Nat.le_zero.mp (hstops next rfl))
    refine .look (if_neg hsemicolon) (.skip hskip (.skip (yields_spanFrom _ _) ?_))
    rw [hstop.current]
    exact .skip (yields_require value _) (.pure hbehind ⟨value, last, last, next :: rest, hvalue,
      .implicit hcontinues, hstop, rfl⟩)

-- what is behind the first token of a binding is a large step
set_option synthInstance.maxSize 2048 in
/-- By the kind of the current token: a binding, a `return`, or an expression. -/
theorem statement_succ (ih : Productions budget) (hbudget : 8 * tokens.length + 2 ≤ budget)
    (hended : Ended tokens) (hstate : state.Before tokens errors) :
    Simulates (Parse.statement (budget + 1)) state errors tokens [.statement]
      (Has .statement errors tokens) := by
  obtain ⟨token, tokens, rfl⟩ := hended.exists_cons
  unfold Parse.statement
  refine .skip (yields_current state) ?_
  rw [hstate.current]
  split
  next hword =>
    have hmove : Goal.statement.move token =
        .read [.token .identifier, .token .assign, .expression .lowest, .semicolon] := by
      simp only [Goal.move, hword]
    have hrest := hended.tail (by rw [hword]; decide)
    refine .read hmove (.token_bind (hstate.after hrest.ne_nil) hrest (by decide) ?_)
    rintro name behind rfl hname hbehind hafter
    refine .skip (yields_current _) ?_
    rw [hafter.current]
    refine .token_bind hafter hbehind (by decide) ?_
    rintro assign behind rfl hassign hbehind hafter'
    simp only [List.length_cons] at hbudget
    refine .skip (yields_advance _) ?_
    refine (ih.ending token (Statement.binding token ⟨name⟩) (by omega) hbehind
      hafter'.advance).imp ?_
    rintro _ stop rest ⟨value, last, semicolon, behind, hvalue, hterminated, hstop, rfl⟩
    exact ⟨semicolon, hstop, .binding hword hname hassign hvalue hterminated⟩
  next hword =>
    have hmove : Goal.statement.move token = .read [.expression .lowest, .semicolon] := by
      simp only [Goal.move, hword]
    have hrest := hended.tail (by rw [hword]; decide)
    rw [List.length_cons] at hbudget
    refine .read hmove (.skip (yields_advance _) ?_)
    refine (ih.ending token (Statement.returning token) (by omega) hrest
      (hstate.after hrest.ne_nil).advance).imp ?_
    rintro _ stop rest ⟨value, last, semicolon, behind, hvalue, hterminated, hstop, rfl⟩
    exact ⟨semicolon, hstop, .returning hword hvalue hterminated⟩
  -- any other token is the first of an expression, and has not been read yet
  next hlet hreturn =>
    have hmove : Goal.statement.move token = .look [.expression .lowest, .semicolon] := by
      unfold Goal.move
      dsimp only
      split
      next h => exact absurd h hlet
      next h => exact absurd h hreturn
      next => rfl
    refine .look hmove ?_
    refine (ih.ending token (Statement.expression token) hbudget hended hstate).imp ?_
    rintro _ stop rest ⟨value, last, semicolon, behind, hvalue, hterminated, hstop, rfl⟩
    exact ⟨semicolon, hstop, .expressionStatement hvalue hterminated⟩

end Productions

/-- By induction on the budget. -/
theorem productions (budget : Nat) : Productions budget := by
  induction budget with
  | zero =>
    constructor
    all_goals
      intros
      rename_i hbudget _ _
      exact absurd hbudget (by omega)
  | succ budget ih =>
    exact {
      expression := fun _ hbudget => ih.expression_succ (by omega)
      extended := fun hfloor hleft hstops hbudget =>
        ih.extended_succ hfloor hleft hstops (by omega)
      continued := fun hkind hleft hbudget => ih.continued_succ hkind hleft (by omega)
      operand := fun hbudget => ih.operand_succ (by omega)
      alternative := fun hbudget => ih.alternative_succ (by omega)
      expressions := fun hclose hbudget => ih.expressions_succ hclose (by omega)
      moreExpressions := fun hclose hbudget => ih.moreExpressions_succ hclose (by omega)
      pairs := fun hbudget => ih.pairs_succ (by omega)
      block := fun hopening hbudget => ih.block_succ hopening (by omega)
      statements := fun hbudget => ih.statements_succ (by omega)
      statement := fun hbudget => ih.statement_succ (by omega) }

end Parse

end Scriptlet
