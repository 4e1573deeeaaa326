import Scriptlet.Proofs.Parser.Grammar
import Scriptlet.Proofs.Parser.Run

set_option autoImplicit false

/-!
# The parser reads every phrase

Component: the parser.  Specification: section 4.2, the converse direction: every text of the
grammar is read, with left-associative chains of operators, calls and indexing tightest of all,
blocks that the end of the text may close, and semicolons that may be left out.

Where the grammar derives a phrase, the function of the parser for it yields the same tree without
recording an error, as long as its budget suffices (`Accepts`).  There is one lemma for each
production, and the induction on derivations puts them together.

An expression is not accepted as a whole: the parser reads it in turns, and an operator behind it
may still take it as its left operand.  What is accepted is therefore that the parser comes to the
loop of the floor that it was called with, the tree so far in its hands.  The loop stops there if
the token behind the expression binds no tighter than the floor.

`Accepts` is defined by cases on the phrase, as each production starts at another place: statements,
expressions and operands at their first token, blocks and lists at the token in front of them, which
has opened them.  What stands behind the phrase matters in three cases only: an expression asks that
the next token binds no tighter than its floor, a conditional that the next token is no `else`, and
the statements of a block that they have come to their end.

The lemmas come in the order of the grammar, and each has the constructor of `Derives` that it is
for in its name.  The budget of each is linear in the tokens of the phrase, with the place of the
production in the chain of calls, just as what suffices for a program.
-/

namespace Scriptlet

open Parse

/-! ## How tightly a token binds -/

/-- How tightly a token binds the expression before it: not at all if it does not continue it. -/
def TokenKind.rank (kind : TokenKind) : Nat :=
  match kind.continuation? with
  | none => 0
  | some continuation => continuation.precedence.rank

/-- What does not continue an expression does not bind it. -/
theorem TokenKind.rank_of_none {kind : TokenKind} (h : kind.continuation? = none) :
    kind.rank = 0 := by
  unfold TokenKind.rank
  rw [h]

/-- What does, binds it as its precedence says. -/
theorem TokenKind.rank_of_some {kind : TokenKind} {continuation : Continuation}
    (h : kind.continuation? = some continuation) : kind.rank = continuation.precedence.rank := by
  unfold TokenKind.rank
  rw [h]

/-- Whether an expression ends before a token, whatever it is part of. -/
def TokenKind.quiet (kind : TokenKind) : Bool := !kind.continues && kind != .elseWord

/-- Before a quiet token every loop stops. -/
theorem TokenKind.rank_of_quiet {kind : TokenKind} (h : kind.quiet = true) : kind.rank = 0 := by
  cases kind <;> first | rfl | exact absurd h (by decide)

/-- And no conditional goes on. -/
theorem TokenKind.ne_else_of_quiet {kind : TokenKind} (h : kind.quiet = true) :
    kind ≠ .elseWord := by
  intro heq
  rw [heq] at h
  exact absurd h (by decide)

/-- The level of what a continuation makes longer, and of what it makes of it. -/
def Continuation.level (continuation : Continuation) : Nat :=
  min continuation.precedence.rank postfixLevel

/-- The token of an infix operator announces that operator. -/
theorem InfixOp.continuation_kind (operator : InfixOp) :
    operator.kind.continuation? = some (.binary operator) := by
  cases operator <;> rfl

/-- The levels of the grammar are the precedences of the parser. -/
theorem InfixOp.rank_precedence (operator : InfixOp) :
    operator.precedence.rank = operator.level := by
  cases operator <;> rfl

theorem InfixOp.level_binary (operator : InfixOp) :
    (Continuation.binary operator).level = operator.level := by
  cases operator <;> rfl

/-- No continuation binds like the prefix operators. -/
theorem Continuation.rank_ne (continuation : Continuation) :
    continuation.precedence.rank ≠ prefixLevel := by
  cases continuation with
  | binary operator => cases operator <;> decide
  | call => decide
  | index => decide

/-- Infix operators bind looser than the prefix operators. -/
theorem InfixOp.level_lt (operator : InfixOp) : operator.level < prefixLevel := by
  cases operator <;> decide

/-! ## Operands of one token -/

/-- The operand that a token is on its own. -/
def Token.operand? (token : Token) : Option Expression :=
  match token.kind with
  | .identifier => some (.identifier ⟨token⟩)
  | .integer => (integerLiteral? token.literal).map (.integer token)
  | .string => some (.string token)
  | .trueWord => some (.boolean token true)
  | .falseWord => some (.boolean token false)
  | _ => none

/-- An operand of one token is read by looking at it. -/
theorem yields_operand {budget : Nat} {state : ParseState} {tree : Expression}
    (h : state.current.operand? = some tree) :
    (operand (budget + 1)).Yields state tree state := by
  unfold operand
  refine (yields_current state).bind ?_
  unfold Token.operand? at h
  split at h
  case h_2 hkind =>
    obtain ⟨value, hvalue, rfl⟩ := Option.map_eq_some_iff.mp h
    simp only [hkind, hvalue]
    exact yields_pure _ _
  case h_6 => cases h
  all_goals
    rename_i hkind
    obtain rfl := Option.some.inj h
    simp only [hkind]
    exact yields_pure _ _

/-! ## The loop of an expression -/

section Loop

variable {state next : ParseState} {floor : Precedence} {left longer : Expression} {budget : Nat}

/-- The loop of an expression stops before a token that binds no tighter than the floor. -/
theorem extended_stop (h : state.peek.kind.rank ≤ floor.rank) :
    (extended (budget + 1) floor left).Yields state left state := by
  unfold extended
  refine (yields_peekKind state).bind ?_
  split
  next => exact yields_pure left state
  next continuation heq =>
    rw [TokenKind.rank_of_some heq] at h
    rw [if_neg (Nat.not_lt.mpr h)]
    exact yields_pure left state

/-- It goes on behind a token that binds tighter, with the longer tree. -/
theorem extended_go {continuation : Continuation}
    (hkind : state.peek.kind.continuation? = some continuation)
    (hrank : floor.rank < continuation.precedence.rank)
    (h : (continued budget continuation left).Yields state.advance longer next) :
    (extended (budget + 1) floor left).outcome state =
      (extended budget floor longer).outcome next := by
  rw [extended, outcome_bind_of_yields (yields_peekKind state)]
  simp only [hkind, if_pos hrank]
  rw [outcome_bind_of_yields (yields_advance state), outcome_bind_of_yields h]

end Loop

/-! ## Acceptance -/

/-- Whether a step that starts at the first of some tokens yields a tree and stops at the last one
of a phrase. -/
def Parse.Takes {α : Type} (step : Parse α) (s : List Token) (tree : α) (last : Token)
    (t : List Token) : Prop :=
  ∀ state errors, state.Before s errors → ∃ next, step.Yields state tree next ∧
    next.After last t errors

/-- The same of a step that starts at the token in front of them. -/
def Parse.TakesBehind {α : Type} (opening : Token) (step : Parse α) (s : List Token) (tree : α)
    (last : Token) (t : List Token) : Prop :=
  ∀ state errors, state.After opening s errors → ∃ next, step.Yields state tree next ∧
    next.After last t errors

/-- Whether the parser reads a phrase that the grammar derives. -/
def Accepts : (phrase : Phrase) → List Token → phrase.Tree → Token → List Token → Prop
  | .statements, s, tree, last, t => ∀ budget inBlock, 8 * s.length + 4 ≤ budget →
    (last.kind = .eof ∨ inBlock = true ∧ last.kind = .rightBrace) →
    ∀ state errors, state.Before s errors →
      ∃ next, (statements budget inBlock).Yields state tree next ∧ next.Before t errors
  | .statement, s, tree, last, t => ∀ budget next rest, 8 * s.length + 3 ≤ budget →
    t = next :: rest → next.kind ≠ .elseWord → next.kind ≠ .semicolon →
    (statement budget).Takes s tree last t
  | .block, s, tree, last, t => ∀ budget opening behind, 8 * behind.length + 5 ≤ budget →
    s = opening :: behind → t ≠ [] → (block budget).TakesBehind opening behind tree last t
  | .expression level, s, tree, last, t => ∀ budget floor next rest, 8 * s.length + 2 ≤ budget →
    t = next :: rest → next.kind ≠ .elseWord →
    (postfixLevel ≤ level ∨ next.kind.rank ≤ level) → floor.rank ≤ prefixLevel →
    (floor.rank < level ∨ prefixLevel ≤ level) →
    ∀ state errors, state.Before s errors → ∃ left behind, 8 * t.length + 1 ≤ left ∧
      behind.After last t errors ∧
      (expression budget floor).outcome state = (extended left floor tree).outcome behind
  | .operand, s, tree, last, t => ∀ budget next rest, 8 * s.length + 1 ≤ budget →
    t = next :: rest → next.kind ≠ .elseWord → (operand budget).Takes s tree last t
  | .arguments close, s, tree, last, t => ∀ budget opening, 8 * s.length + 4 ≤ budget → t ≠ [] →
    (close = .rightParen ∨ close = .rightBracket) →
    (expressions budget close).TakesBehind opening s tree last t
  | .moreArguments close, s, tree, last, t => ∀ budget, 8 * s.length + 3 ≤ budget → t ≠ [] →
    (close = .rightParen ∨ close = .rightBracket) →
    (moreExpressions budget close).Takes s tree last t
  | .parameters, s, tree, last, t => ∀ budget opening, 8 * s.length + 1 ≤ budget → t ≠ [] →
    (parameters budget).TakesBehind opening s tree last t
  | .moreParameters, s, tree, last, t => ∀ budget opening, 8 * s.length + 1 ≤ budget → t ≠ [] →
    (moreParameters budget).TakesBehind opening s tree last t
  | .pairs, s, tree, last, t => ∀ budget opening, 8 * s.length + 3 ≤ budget → t ≠ [] →
    (pairs budget).TakesBehind opening s tree last t

namespace Accepts

variable {s t u v : List Token} {last close token opening word : Token}

/-! ### Expressions -/

/-- An expression is read as a whole if the token behind it binds no tighter than the floor. -/
theorem whole {level : Nat} {floor : Precedence} {tree : Expression} {next : Token}
    {rest : List Token} (budget : Nat) (h : Accepts (.expression level) s tree last (next :: rest))
    (hbudget : 8 * s.length + 2 ≤ budget) (helse : next.kind ≠ .elseWord)
    (hnext : next.kind.rank ≤ floor.rank) (hfloor : floor.rank ≤ prefixLevel)
    (hlevel : floor.rank < level ∨ prefixLevel ≤ level) :
    (expression budget floor).Takes s tree last (next :: rest) := by
  intro state errors hstate
  obtain ⟨left, behind, hleft, hafter, heq⟩ :=
    h budget floor next rest hbudget rfl helse (.inr (by omega)) hfloor hlevel state errors hstate
  obtain ⟨left, rfl⟩ := Nat.exists_eq_add_one_of_ne_zero (by omega : left ≠ 0)
  refine ⟨behind, ?_, hafter⟩
  unfold Yields
  rw [heq]
  exact extended_stop (by rw [hafter.peek]; exact hnext)

/-- An expression of any kind is read as a whole before a token that does not continue it. -/
theorem any {tree : Expression} {next : Token} {rest : List Token} (budget : Nat)
    (h : Accepts .anyExpression s tree last (next :: rest)) (hbudget : 8 * s.length + 2 ≤ budget)
    (hnext : next.kind.quiet = true) :
    (attempt (expression budget .lowest)).Takes s (some tree) last (next :: rest) := by
  intro state errors hstate
  have hrank : next.kind.rank ≤ Precedence.lowest.rank := by
    rw [TokenKind.rank_of_quiet hnext]
    exact Nat.le_refl 0
  obtain ⟨behind, hyields, hafter⟩ := whole budget h hbudget (TokenKind.ne_else_of_quiet hnext)
    hrank (by decide) (.inl (by decide)) state errors hstate
  exact ⟨behind, hyields.attempt, hafter⟩

/-- An operand is an expression of any level, with the loop still to run. -/
theorem ofOperand (level : Nat) {tree : Expression} (hlength : t.length < s.length)
    (h : Accepts .operand s tree last t) : Accepts (.expression level) s tree last t := by
  intro budget floor next rest hbudget ht helse _ _ _ state errors hstate
  obtain ⟨budget, rfl⟩ := Nat.exists_eq_add_one_of_ne_zero (by omega : budget ≠ 0)
  obtain ⟨behind, hyields, hafter⟩ :=
    h budget next rest (by omega) ht helse state errors hstate
  refine ⟨budget, behind, by omega, hafter, ?_⟩
  rw [expression, outcome_bind_of_yields hyields]

/-- The operand of a prefix operator is read with the floor of the prefix operators, so that calls
and indexing go to the operand and infix operators to the whole. -/
theorem unary {level : Nat} {tree : Expression} (operator : PrefixOp) (hlevel : level ≤ prefixLevel)
    (htoken : token.kind = operator.kind) (hlength : t.length < s.length)
    (h : Accepts (.expression prefixLevel) s tree last t) :
    Accepts (.expression level) (token :: s) (.unary token operator tree) last t := by
  intro budget floor next rest hbudget ht helse hnext hfloor _ state errors hstate
  rw [List.length_cons] at hbudget
  obtain ⟨budget, rfl⟩ : ∃ smaller, budget = smaller + 2 := ⟨budget - 2, by omega⟩
  subst ht
  have hne : s ≠ [] := List.ne_nil_of_length_pos (by omega)
  have hrank : next.kind.rank ≤ Precedence.unary.rank := by
    change next.kind.rank ≤ prefixLevel
    unfold postfixLevel at hnext
    unfold prefixLevel at hlevel ⊢
    omega
  obtain ⟨behind, hyields, hbehind⟩ := whole budget h (by omega) helse hrank (Nat.le_refl _)
    (.inr (Nat.le_refl _)) _ errors (hstate.after hne).advance
  have hoperand : (operand (budget + 1)).Yields state (.unary token operator tree) behind := by
    unfold operand
    refine (yields_current state).bind ?_
    rw [hstate.current]
    cases operator with
    | not =>
      simp only [htoken, PrefixOp.kind]
      exact (yields_advance state).bind (hyields.bind (yields_pure _ _))
    | negate =>
      simp only [htoken, PrefixOp.kind]
      exact (yields_advance state).bind (hyields.bind (yields_pure _ _))
  refine ⟨budget + 1, behind, by omega, hbehind, ?_⟩
  rw [expression, outcome_bind_of_yields hoperand]

/-- An operator, a call or an indexing makes an expression longer if the parser reads what is
behind the token that announces it. -/
theorem extend {inner level : Nat} {left tree : Expression} {middle : Token}
    {continuation : Continuation} (hkind : token.kind.continuation? = some continuation)
    (hinner : inner = continuation.level) (hlevel : level ≤ inner)
    (ht : t.length < u.length) (h : Accepts (.expression inner) s left middle (token :: u))
    (hcontinued : ∀ budget next rest, 8 * u.length + 5 ≤ budget → t = next :: rest →
      next.kind ≠ .elseWord → (postfixLevel ≤ level ∨ next.kind.rank ≤ level) →
      (continued budget continuation left).TakesBehind token u tree last t) :
    Accepts (.expression level) s tree last t := by
  intro budget floor next rest hbudget hnext helse hrank hfloor hclimb state errors hstate
  have hother := continuation.rank_ne
  have htoken := TokenKind.rank_of_some hkind
  have hword : token.kind ≠ .elseWord := by
    intro heq
    rw [heq] at hkind
    exact absurd hkind (by simp [TokenKind.continuation?])
  unfold prefixLevel at hfloor hclimb hother
  unfold Continuation.level postfixLevel at hinner
  obtain ⟨budget', behind, hbudget', hbehind, heq⟩ := h budget floor token u hbudget rfl hword
    (by unfold postfixLevel; omega) hfloor (by unfold prefixLevel; omega) state errors hstate
  rw [List.length_cons] at hbudget'
  obtain ⟨left', rfl⟩ := Nat.exists_eq_add_one_of_ne_zero (by omega : budget' ≠ 0)
  obtain ⟨final, hyields, hfinal⟩ := hcontinued left' next rest (by omega) hnext helse hrank
    behind.advance errors (hbehind.advance.after (List.ne_nil_of_length_pos (by omega)))
  refine ⟨left', final, by omega, hfinal, ?_⟩
  rw [heq]
  exact extended_go (by rw [hbehind.peek]; exact hkind) (by omega) hyields

/-- The right operand is read with the floor of the operator, so that an operator of the same level
is left for the loop: this is what makes chains lean to the left. -/
theorem binary {level : Nat} {first second : Expression} {middle : Token} (operator : InfixOp)
    (hlevel : level ≤ operator.level) (htoken : token.kind = operator.kind)
    (ht : u.length < t.length)
    (hleft : Accepts (.expression operator.level) s first middle (token :: t))
    (hright : Accepts (.expression (operator.level + 1)) t second last u) :
    Accepts (.expression level) s (.binary token first operator second) last u := by
  have hlt := operator.level_lt
  unfold prefixLevel at hlt
  have hkind : token.kind.continuation? = some (.binary operator) := by
    rw [htoken]
    exact operator.continuation_kind
  refine extend hkind operator.level_binary.symm hlevel ht hleft ?_
  intro budget next rest hbudget hu helse hrank state errors hstate
  obtain ⟨budget, rfl⟩ := Nat.exists_eq_add_one_of_ne_zero (by omega : budget ≠ 0)
  subst hu
  have hnext : next.kind.rank ≤ operator.precedence.rank := by
    rw [operator.rank_precedence]
    unfold postfixLevel at hrank
    omega
  obtain ⟨behind, hyields, hbehind⟩ := whole budget hright (by omega) helse hnext
    (by rw [operator.rank_precedence]; exact Nat.le_of_lt operator.level_lt)
    (.inl (by rw [operator.rank_precedence]; exact Nat.lt_succ_self _)) _ errors hstate.advance
  refine ⟨behind, ?_, hbehind⟩
  unfold continued
  refine (yields_current state).bind ?_
  rw [hstate.current]
  exact (yields_advance state).bind (hyields.bind (yields_pure _ _))

/-- The arguments of a call are read up to the closing parenthesis. -/
theorem call {level : Nat} {callee : Expression} {inner : List Expression} {middle : Token}
    (hlevel : level ≤ postfixLevel) (htoken : token.kind = .leftParen)
    (ht : u.length < t.length)
    (hleft : Accepts (.expression postfixLevel) s callee middle (token :: t))
    (hlist : Accepts (.arguments .rightParen) t inner close u) :
    Accepts (.expression level) s (.call token callee inner) close u := by
  have hkind : token.kind.continuation? = some .call := by rw [htoken]; rfl
  refine extend hkind rfl hlevel ht hleft ?_
  intro budget next rest hbudget hu _ _ state errors hstate
  obtain ⟨budget, rfl⟩ := Nat.exists_eq_add_one_of_ne_zero (by omega : budget ≠ 0)
  obtain ⟨behind, hyields, hbehind⟩ := hlist budget token (by omega)
    (by rw [hu]; exact List.cons_ne_nil next rest) (.inl rfl) state errors hstate
  refine ⟨behind, ?_, hbehind⟩
  unfold continued
  refine (yields_current state).bind ?_
  rw [hstate.current]
  exact hyields.bind (yields_pure _ _)

/-- The index is read up to the closing bracket. -/
theorem index {level : Nat} {whole position : Expression} {middle : Token}
    (hlevel : level ≤ postfixLevel) (htoken : token.kind = .leftBracket)
    (ht : u.length < t.length)
    (hleft : Accepts (.expression postfixLevel) s whole middle (token :: t))
    (hinner : Accepts .anyExpression t position last (close :: u))
    (hclose : close.kind = .rightBracket) :
    Accepts (.expression level) s (.index token whole position) close u := by
  have hkind : token.kind.continuation? = some .index := by rw [htoken]; rfl
  refine extend hkind rfl hlevel ht hleft ?_
  intro budget next rest hbudget hu _ _ state errors hstate
  obtain ⟨budget, rfl⟩ := Nat.exists_eq_add_one_of_ne_zero (by omega : budget ≠ 0)
  obtain ⟨behind, hyields, hbehind⟩ := any budget hinner (by omega)
    (by rw [hclose]; rfl) state.advance errors hstate.advance
  refine ⟨behind.advance, ?_, hbehind.advance.after (by rw [hu]; exact List.cons_ne_nil next rest)⟩
  unfold continued
  refine (yields_current state).bind ?_
  rw [hstate.current]
  refine (yields_advance state).bind (hyields.bind ?_)
  refine (yields_expect_of_after hbehind hclose).bind ?_
  exact (yields_require _ _).bind (yields_pure _ _)

/-! ### Operands -/

/-- Parentheses leave nothing in the tree. -/
theorem group {inner : Expression} (hopening : opening.kind = .leftParen)
    (hbody : Accepts .anyExpression s inner last (close :: t)) (hclose : close.kind = .rightParen)
    (hs : s ≠ []) : Accepts .operand (opening :: s) inner close t := by
  intro budget next rest hbudget ht _ state errors hstate
  rw [List.length_cons] at hbudget
  obtain ⟨budget, rfl⟩ := Nat.exists_eq_add_one_of_ne_zero (by omega : budget ≠ 0)
  obtain ⟨behind, hyields, hbehind⟩ := any budget hbody (by omega)
    (by rw [hclose]; rfl) state.advance errors (hstate.after hs).advance
  refine ⟨behind.advance, ?_, hbehind.advance.after (by rw [ht]; exact List.cons_ne_nil next rest)⟩
  unfold operand
  refine (yields_current state).bind ?_
  rw [hstate.current]
  simp only [hopening]
  refine (yields_advance state).bind (hyields.bind ?_)
  exact (yields_expect_of_after hbehind hclose).bind (yields_require _ _)

/-- A conditional is read if what stands in the place of its alternative is. -/
theorem conditionalWith {condition : Expression} {consequence : Block} {alternative : Option Block}
    {brace first : Token} {behind : List Token} (hword : word.kind = .ifWord)
    (hopening : opening.kind = .leftParen)
    (hinner : Accepts .anyExpression s condition last (close :: first :: behind))
    (hclose : close.kind = .rightParen) (hfirst : first.kind = .leftBrace)
    (hblock : Accepts .block (first :: behind) consequence brace u)
    (hs : behind.length + 2 < s.length) (ht : u.length ≤ behind.length)
    (hu : v ≠ [] → u ≠ [])
    (halternative : ∀ budget next rest, 8 * u.length + 1 ≤ budget → v = next :: rest →
      next.kind ≠ .elseWord →
      (Parse.alternative budget).TakesBehind brace u alternative token v) :
    Accepts .operand (word :: opening :: s) (.conditional word condition consequence alternative)
      token v := by
  intro budget next rest hbudget hv helse state errors hstate
  simp only [List.length_cons] at hbudget
  obtain ⟨budget, rfl⟩ := Nat.exists_eq_add_one_of_ne_zero (by omega : budget ≠ 0)
  have hafter := hstate.after (List.cons_ne_nil opening s)
  have hbefore := (hafter.advance.after (List.ne_nil_of_length_pos (by omega))).advance
  obtain ⟨state₁, hyields₁, hstate₁⟩ := any budget hinner (by omega)
    (by rw [hclose]; rfl) _ errors hbefore
  have hafter₁ := hstate₁.advance.after (List.cons_ne_nil first behind)
  have hu := hu (by rw [hv]; exact List.cons_ne_nil next rest)
  have hbehind : behind ≠ [] := by
    intro heq
    rw [heq] at ht
    exact hu (List.length_eq_zero_iff.mp (Nat.le_zero.mp ht))
  obtain ⟨state₂, hyields₂, hstate₂⟩ := hblock budget first behind (by omega) rfl hu _ errors
    (hafter₁.advance.after hbehind)
  obtain ⟨state₃, hyields₃, hstate₃⟩ := halternative budget next rest (by omega) hv helse _ errors
    hstate₂
  refine ⟨state₃, ?_, hstate₃⟩
  unfold operand
  refine (yields_current state).bind ?_
  rw [hstate.current]
  simp only [hword]
  refine (yields_expect_of_after hafter hopening).bind ((yields_advance _).bind (hyields₁.bind ?_))
  refine (yields_expect_of_after hstate₁ hclose).bind ?_
  refine (yields_expect_of_after hafter₁ hfirst).bind (hyields₂.bind (hyields₃.bind ?_))
  exact (yields_require _ _).bind (yields_pure _ _)

/-- Without an `else` there is no alternative. -/
theorem noAlternative : ∀ budget next rest, 8 * t.length + 1 ≤ budget → t = next :: rest →
    next.kind ≠ .elseWord → (Parse.alternative budget).TakesBehind last t none last t := by
  intro budget next rest hbudget ht helse state errors hstate
  obtain ⟨budget, rfl⟩ := Nat.exists_eq_add_one_of_ne_zero (by omega : budget ≠ 0)
  subst ht
  refine ⟨state, ?_, hstate⟩
  unfold alternative
  refine (yields_peekKind state).bind ?_
  rw [hstate.peek, if_neg helse]
  exact yields_pure _ _

/-- With one there is a block behind it. -/
theorem someAlternative {block : Block} {other first : Token} {behind : List Token}
    (hother : other.kind = .elseWord) (hfirst : first.kind = .leftBrace)
    (hblock : Accepts .block (first :: behind) block close u) (hlength : u.length ≤ behind.length) :
    ∀ budget next rest, 8 * (other :: first :: behind).length + 1 ≤ budget → u = next :: rest →
      next.kind ≠ .elseWord →
      (Parse.alternative budget).TakesBehind last (other :: first :: behind) (some block) close
        u := by
  intro budget next rest hbudget hu _ state errors hstate
  simp only [List.length_cons] at hbudget
  obtain ⟨budget, rfl⟩ := Nat.exists_eq_add_one_of_ne_zero (by omega : budget ≠ 0)
  have hafter := hstate.advance.after (List.cons_ne_nil first behind)
  have hbehind : behind ≠ [] := by
    rw [hu, List.length_cons] at hlength
    exact List.ne_nil_of_length_pos (by omega)
  obtain ⟨final, hyields, hfinal⟩ := hblock budget first behind (by omega) rfl
    (by rw [hu]; exact List.cons_ne_nil next rest) _ errors (hafter.advance.after hbehind)
  refine ⟨final, ?_, hfinal⟩
  unfold alternative
  refine (yields_peekKind state).bind ?_
  rw [hstate.peek, if_pos hother]
  refine (yields_advance state).bind ((yields_expect_of_after hafter hfirst).bind ?_)
  exact hyields.bind (yields_pure _ _)

/-- A function is its parameters and its block. -/
theorem function {names : List Name} {body : Block} {first : Token} {behind : List Token}
    (hword : word.kind = .functionWord) (hopening : opening.kind = .leftParen)
    (hlist : Accepts .parameters s names close (first :: behind)) (hfirst : first.kind = .leftBrace)
    (hblock : Accepts .block (first :: behind) body last u) (hs : behind.length + 1 < s.length)
    (hlength : u.length ≤ behind.length) :
    Accepts .operand (word :: opening :: s) (.function ⟨word, names, body⟩) last u := by
  intro budget next rest hbudget hu _ state errors hstate
  simp only [List.length_cons] at hbudget
  obtain ⟨budget, rfl⟩ := Nat.exists_eq_add_one_of_ne_zero (by omega : budget ≠ 0)
  have hafter := hstate.after (List.cons_ne_nil opening s)
  have hbehind : behind ≠ [] := by
    rw [hu, List.length_cons] at hlength
    exact List.ne_nil_of_length_pos (by omega)
  obtain ⟨middle, hyields, hmiddle⟩ := hlist budget opening (by omega) (List.cons_ne_nil _ _) _
    errors (hafter.advance.after (List.ne_nil_of_length_pos (by omega)))
  obtain ⟨final, hyields', hfinal⟩ := hblock budget first behind (by omega) rfl
    (by rw [hu]; exact List.cons_ne_nil next rest) _ errors (hmiddle.advance.after hbehind)
  refine ⟨final, ?_, hfinal⟩
  unfold operand
  refine (yields_current state).bind ?_
  rw [hstate.current]
  simp only [hword]
  refine (yields_expect_of_after hafter hopening).bind (hyields.attempt.bind ?_)
  refine (yields_expect_of_after hmiddle hfirst).bind (hyields'.bind ?_)
  exact (yields_require _ _).bind (yields_pure _ _)

/-- An array is a list up to the closing bracket. -/
theorem array {inner : List Expression} (hopening : opening.kind = .leftBracket)
    (hlist : Accepts (.arguments .rightBracket) s inner close t) (hs : s ≠ []) :
    Accepts .operand (opening :: s) (.array opening inner) close t := by
  intro budget next rest hbudget ht _ state errors hstate
  rw [List.length_cons] at hbudget
  obtain ⟨budget, rfl⟩ := Nat.exists_eq_add_one_of_ne_zero (by omega : budget ≠ 0)
  obtain ⟨final, hyields, hfinal⟩ := hlist budget opening (by omega)
    (by rw [ht]; exact List.cons_ne_nil next rest) (.inr rfl) state errors (hstate.after hs)
  refine ⟨final, ?_, hfinal⟩
  unfold operand
  refine (yields_current state).bind ?_
  rw [hstate.current]
  simp only [hopening]
  exact hyields.bind (yields_pure _ _)

/-- A hash literal is its pairs up to the closing brace. -/
theorem hash {inner : List Pair} (hopening : opening.kind = .leftBrace)
    (hlist : Accepts .pairs s inner close t) (hs : s ≠ []) :
    Accepts .operand (opening :: s) (.hash opening inner) close t := by
  intro budget next rest hbudget ht _ state errors hstate
  rw [List.length_cons] at hbudget
  obtain ⟨budget, rfl⟩ := Nat.exists_eq_add_one_of_ne_zero (by omega : budget ≠ 0)
  obtain ⟨final, hyields, hfinal⟩ := hlist budget opening (by omega)
    (by rw [ht]; exact List.cons_ne_nil next rest) state errors (hstate.after hs)
  refine ⟨final, ?_, hfinal⟩
  unfold operand
  refine (yields_current state).bind ?_
  rw [hstate.current]
  simp only [hopening]
  exact hyields.bind (yields_pure _ _)

/-- An operand of one token. -/
theorem single {tree : Expression} (htree : token.operand? = some tree) :
    Accepts .operand (token :: t) tree token t := by
  intro budget next rest hbudget ht _ state errors hstate
  obtain ⟨budget, rfl⟩ := Nat.exists_eq_add_one_of_ne_zero (by omega : budget ≠ 0)
  refine ⟨state, yields_operand (by rw [hstate.current]; exact htree), hstate.after ?_⟩
  rw [ht]
  exact List.cons_ne_nil next rest

/-! ### Lists -/

/-- The closing token right away. -/
theorem noArgument {kind : TokenKind} (h : close.kind = kind) :
    Accepts (.arguments kind) (close :: t) [] close t := by
  intro budget opening hbudget ht _ state errors hstate
  obtain ⟨budget, rfl⟩ := Nat.exists_eq_add_one_of_ne_zero (by omega : budget ≠ 0)
  refine ⟨state.advance, ?_, hstate.advance.after ht⟩
  unfold expressions
  refine (yields_advance state).bind ((yields_current _).bind ?_)
  rw [hstate.advance.current, if_pos h]
  exact yields_pure _ _

/-- A first expression, as the closing token is not there yet. -/
theorem someArguments {kind : TokenKind} {first : Token} {inner : List Expression}
    (hfirst : first.kind.starts = true)
    (hlist : Accepts (.moreArguments kind) (first :: s) inner close t) :
    Accepts (.arguments kind) (first :: s) inner close t := by
  intro budget opening hbudget ht hkind state errors hstate
  obtain ⟨budget, rfl⟩ := Nat.exists_eq_add_one_of_ne_zero (by omega : budget ≠ 0)
  obtain ⟨final, hyields, hfinal⟩ :=
    hlist budget (by omega) ht hkind state.advance errors hstate.advance
  refine ⟨final, ?_, hfinal⟩
  have hne : first.kind ≠ kind := by
    intro heq
    rw [heq] at hfirst
    obtain rfl | rfl := hkind
    · exact absurd hfirst (by decide)
    · exact absurd hfirst (by decide)
  unfold expressions
  refine (yields_advance state).bind ((yields_current _).bind ?_)
  rw [hstate.advance.current, if_neg hne]
  exact hyields

/-- An expression before the closing token. -/
theorem lastArgument {kind : TokenKind} {tree : Expression}
    (hhead : Accepts .anyExpression s tree last (close :: t)) (h : close.kind = kind) :
    Accepts (.moreArguments kind) s [tree] close t := by
  intro budget hbudget ht hkind state errors hstate
  obtain ⟨budget, rfl⟩ := Nat.exists_eq_add_one_of_ne_zero (by omega : budget ≠ 0)
  have hclose : close.kind.quiet = true ∧ close.kind ≠ .comma := by
    rw [h]
    obtain rfl | rfl := hkind
    · decide
    · decide
  obtain ⟨behind, hyields, hbehind⟩ := any budget hhead (by omega) hclose.1 state errors hstate
  refine ⟨behind.advance, ?_, hbehind.advance.after ht⟩
  unfold moreExpressions
  refine hyields.bind ((yields_peekKind _).bind ?_)
  rw [hbehind.peek, if_neg hclose.2]
  refine (yields_expect_of_after hbehind h).bind ?_
  exact (yields_require _ _).bind (yields_pure _ _)

/-- An expression before a comma, and those behind it. -/
theorem moreArguments {kind : TokenKind} {comma : Token} {tree : Expression}
    {others : List Expression} (hhead : Accepts .anyExpression s tree last (comma :: t))
    (h : comma.kind = .comma) (hs : t.length + 1 < s.length) (ht : t ≠ [])
    (htail : Accepts (.moreArguments kind) t others close u) :
    Accepts (.moreArguments kind) s (tree :: others) close u := by
  intro budget hbudget hu hkind state errors hstate
  obtain ⟨budget, rfl⟩ := Nat.exists_eq_add_one_of_ne_zero (by omega : budget ≠ 0)
  obtain ⟨behind, hyields, hbehind⟩ := any budget hhead (by omega) (by rw [h]; rfl) state errors
    hstate
  obtain ⟨final, hyields', hfinal⟩ := htail budget (by omega) hu hkind _ errors
    (hbehind.advance.after ht).advance
  refine ⟨final, ?_, hfinal⟩
  unfold moreExpressions
  refine hyields.bind ((yields_peekKind _).bind ?_)
  rw [hbehind.peek, if_pos h]
  refine (yields_advance _).bind ((yields_advance _).bind (hyields'.bind ?_))
  exact (yields_require _ _).bind (yields_pure _ _)

theorem noParameter (h : close.kind = .rightParen) :
    Accepts .parameters (close :: t) [] close t := by
  intro budget opening _ ht state errors hstate
  refine ⟨state.advance, ?_, hstate.advance.after ht⟩
  unfold parameters
  refine (yields_peekKind _).bind ?_
  rw [hstate.peek, if_pos h]
  exact (yields_advance _).bind (yields_pure _ _)

/-- A first name, as the closing parenthesis is not there yet. -/
theorem someParameters {name : Token} {names : List Name} (hname : name.kind = .identifier)
    (hlist : Accepts .moreParameters (name :: s) names close t) :
    Accepts .parameters (name :: s) names close t := by
  intro budget opening hbudget ht state errors hstate
  obtain ⟨final, hyields, hfinal⟩ := hlist budget opening hbudget ht state errors hstate
  refine ⟨final, ?_, hfinal⟩
  have hne : name.kind ≠ .rightParen := by
    rw [hname]
    decide
  unfold parameters
  refine (yields_peekKind _).bind ?_
  rw [hstate.peek, if_neg hne]
  exact hyields

/-- A name before the closing parenthesis. -/
theorem lastParameter {name : Token} (hname : name.kind = .identifier)
    (hclose : close.kind = .rightParen) :
    Accepts .moreParameters (name :: close :: t) [⟨name⟩] close t := by
  intro budget opening hbudget ht state errors hstate
  obtain ⟨budget, rfl⟩ := Nat.exists_eq_add_one_of_ne_zero (by omega : budget ≠ 0)
  have hafter := hstate.advance.after (List.cons_ne_nil close t)
  refine ⟨state.advance.advance, ?_, hafter.advance.after ht⟩
  have hne : close.kind ≠ .comma := by
    rw [hclose]
    decide
  unfold moreParameters
  refine (yields_expect_of_after hstate hname).bind ((yields_current _).bind ?_)
  refine (yields_peekKind _).bind ?_
  rw [hafter.peek, if_neg hne, hafter.current]
  exact (yields_expect_of_after hafter hclose).bind (yields_pure _ _)

/-- A name before a comma, and those behind it. -/
theorem moreParameters {name comma : Token} {others : List Name} (hname : name.kind = .identifier)
    (hcomma : comma.kind = .comma) (hs : s ≠ [])
    (htail : Accepts .moreParameters s others close t) :
    Accepts .moreParameters (name :: comma :: s) (⟨name⟩ :: others) close t := by
  intro budget opening hbudget ht state errors hstate
  simp only [List.length_cons] at hbudget
  obtain ⟨budget, rfl⟩ := Nat.exists_eq_add_one_of_ne_zero (by omega : budget ≠ 0)
  have hafter := hstate.advance.after (List.cons_ne_nil comma s)
  obtain ⟨final, hyields, hfinal⟩ := htail budget comma (by omega) ht _ errors
    (hafter.advance.after hs)
  refine ⟨final, ?_, hfinal⟩
  unfold Parse.moreParameters
  refine (yields_expect_of_after hstate hname).bind ((yields_current _).bind ?_)
  refine (yields_peekKind _).bind ?_
  rw [hafter.peek, if_pos hcomma, hafter.current]
  exact (yields_advance _).bind (hyields.bind (yields_pure _ _))

/-- The closing brace right away, also behind a comma. -/
theorem noPair (h : close.kind = .rightBrace) : Accepts .pairs (close :: t) [] close t := by
  intro budget opening hbudget ht state errors hstate
  obtain ⟨budget, rfl⟩ := Nat.exists_eq_add_one_of_ne_zero (by omega : budget ≠ 0)
  refine ⟨state.advance, ?_, hstate.advance.after ht⟩
  unfold pairs
  refine (yields_advance state).bind ((yields_current _).bind ?_)
  rw [hstate.advance.current, if_pos h]
  exact yields_pure _ _

/-- How a pair is read; the pairs behind it are read as if they were all of them. -/
theorem pair {key value : Expression} {first middle colon next : Token} {behind : List Token}
    (hstart : first.kind.starts = true)
    (hkey : Accepts .anyExpression (first :: s) key middle (colon :: t))
    (hcolon : colon.kind = .colon) (hvalue : Accepts .anyExpression t value last (next :: behind))
    (hs : t.length ≤ s.length) (ht : t ≠ []) (hnext : next.kind.quiet = true) (budget : Nat)
    (hbudget : 8 * s.length + 10 ≤ budget) (state : ParseState) (errors : List SyntaxError)
    (hstate : state.After opening (first :: s) errors) :
    ∃ stop, stop.After last (next :: behind) errors ∧ ∀ others comma final,
      (if next.kind ≠ .rightBrace then expect .comma else pure ()).Yields stop () comma →
      (pairs budget).Yields comma others final →
      (pairs (budget + 1)).Yields state (⟨key, value⟩ :: others) final := by
  obtain ⟨state₁, hyields₁, hstate₁⟩ := any budget hkey (by rw [List.length_cons]; omega)
    (by rw [hcolon]; rfl) _ errors hstate.advance
  obtain ⟨state₂, hyields₂, hstate₂⟩ := any budget hvalue (by omega) hnext _ errors
    (hstate₁.advance.after ht).advance
  refine ⟨state₂, hstate₂, ?_⟩
  intro others comma final hcomma hothers
  have hne : first.kind ≠ .rightBrace := by
    intro heq
    rw [heq] at hstart
    exact absurd hstart (by decide)
  unfold pairs
  refine (yields_advance state).bind ((yields_current _).bind ?_)
  rw [hstate.advance.current, if_neg hne]
  refine hyields₁.bind ((yields_expect_of_after hstate₁ hcolon).bind ((yields_advance _).bind ?_))
  refine hyields₂.bind ((yields_peekKind _).bind ?_)
  rw [hstate₂.peek]
  by_cases h : next.kind ≠ .rightBrace
  · rw [if_pos h] at hcomma ⊢
    refine hcomma.bind (hothers.bind ?_)
    exact (yields_require _ _).bind ((yields_require _ _).bind (yields_pure _ _))
  · rw [if_neg h] at hcomma ⊢
    obtain rfl : state₂ = comma := congrArg Prod.snd hcomma
    refine hothers.bind ?_
    exact (yields_require _ _).bind ((yields_require _ _).bind (yields_pure _ _))

/-- A pair before the closing brace. -/
theorem lastPair {key value : Expression} {first middle colon : Token}
    (hstart : first.kind.starts = true)
    (hkey : Accepts .anyExpression (first :: s) key middle (colon :: t))
    (hcolon : colon.kind = .colon) (hvalue : Accepts .anyExpression t value last (close :: u))
    (hs : t.length ≤ s.length) (ht : u.length + 1 < t.length) (hclose : close.kind = .rightBrace) :
    Accepts .pairs (first :: s) [⟨key, value⟩] close u := by
  intro budget opening hbudget hu state errors hstate
  rw [List.length_cons] at hbudget
  obtain ⟨budget, rfl⟩ := Nat.exists_eq_add_one_of_ne_zero (by omega : budget ≠ 0)
  obtain ⟨stop, hstop, hpair⟩ := pair hstart hkey hcolon hvalue hs
    (List.ne_nil_of_length_pos (by omega)) (by rw [hclose]; rfl) budget (by omega) state errors
    hstate
  obtain ⟨final, hyields, hfinal⟩ := noPair hclose budget last (by rw [List.length_cons]; omega) hu
    stop errors hstop
  refine ⟨final, hpair [] stop final ?_ hyields, hfinal⟩
  rw [if_neg fun h => h hclose]
  exact yields_pure _ _

/-- A pair before a comma, and those behind it, of which there may be none. -/
theorem morePairs {key value : Expression} {others : List Pair} {first middle colon comma : Token}
    (hstart : first.kind.starts = true)
    (hkey : Accepts .anyExpression (first :: s) key middle (colon :: t))
    (hcolon : colon.kind = .colon) (hvalue : Accepts .anyExpression t value last (comma :: u))
    (hs : t.length ≤ s.length) (ht : u.length + 1 < t.length) (hu : u ≠ [])
    (hcomma : comma.kind = .comma) (htail : Accepts .pairs u others close v) :
    Accepts .pairs (first :: s) (⟨key, value⟩ :: others) close v := by
  intro budget opening hbudget hv state errors hstate
  rw [List.length_cons] at hbudget
  obtain ⟨budget, rfl⟩ := Nat.exists_eq_add_one_of_ne_zero (by omega : budget ≠ 0)
  obtain ⟨stop, hstop, hpair⟩ := pair hstart hkey hcolon hvalue hs
    (List.ne_nil_of_length_pos (by omega)) (by rw [hcomma]; rfl) budget (by omega) state errors
    hstate
  obtain ⟨final, hyields, hfinal⟩ := htail budget comma (by omega) hv _ errors
    (hstop.advance.after hu)
  refine ⟨final, hpair others _ final ?_ hyields, hfinal⟩
  rw [hcomma]
  exact yields_expect_of_after hstop hcomma

/-- The statements of a block, up to the brace or to the end of the text. -/
theorem block {inner : List Statement} (hbody : Accepts .statements s inner close t)
    (hending : Closed close t last u) :
    Accepts .block (opening :: s) ⟨opening, inner, opening.span.cover last.span⟩ last u := by
  intro budget first behind hbudget heq hu state errors hstate
  obtain ⟨rfl, rfl⟩ := List.cons.inj heq
  obtain ⟨budget, rfl⟩ := Nat.exists_eq_add_one_of_ne_zero (by omega : budget ≠ 0)
  have hclose : close.kind = .eof ∨ true = true ∧ close.kind = .rightBrace := by
    cases hending with
    | brace h => exact .inr ⟨rfl, h⟩
    | eof h => exact .inl h
  obtain ⟨final, hyields, hfinal⟩ :=
    hbody budget true (by omega) hclose _ errors hstate.advance
  have hafter : final.After last u errors := by
    cases hending with
    | brace => exact hfinal.after hu
    | eof => exact hfinal.after_self
  refine ⟨final, ?_, hafter⟩
  unfold Parse.block
  refine (yields_current state).bind ((yields_advance _).bind (hyields.bind ?_))
  refine (yields_spanFrom _ _).bind ?_
  rw [hstate.current, hafter.current]
  exact yields_pure _ _

/-! ### Statements -/

/-- No statement is left where the statements end. -/
theorem noStatement : Accepts .statements (token :: t) [] token (token :: t) := by
  intro budget inBlock hbudget hclose state errors hstate
  obtain ⟨budget, rfl⟩ := Nat.exists_eq_add_one_of_ne_zero (by omega : budget ≠ 0)
  refine ⟨state, ?_, hstate⟩
  unfold statements
  refine (yields_current state).bind ?_
  rw [hstate.current]
  dsimp only
  rw [if_pos hclose]
  exact yields_pure _ _

/-- A turn of the loop of statements, where a statement is read. -/
theorem outcome_moreStatements {first : Statement} {start : Token} {budget : Nat}
    {inBlock : Bool} {state middle : ParseState} (hstart : Phrase.statement.opens start.kind = true)
    (hcurrent : state.current = start) (h : (statement budget).Yields state first middle) :
    (statements (budget + 1) inBlock).outcome state =
      (statements budget inBlock >>= fun others => pure (first :: others)).outcome
        middle.advance := by
  have hne : ¬ (start.kind = .eof ∨ inBlock = true ∧ start.kind = .rightBrace) := by
    intro h
    obtain h | ⟨_, h⟩ := h
    · rw [h] at hstart
      exact absurd hstart (by decide)
    · rw [h] at hstart
      exact absurd hstart (by decide)
  rw [statements, outcome_bind_of_yields (yields_current state), hcurrent]
  dsimp only
  rw [if_neg hne, outcome_bind_of_yields h.attempt, outcome_bind_of_yields (yields_advance middle)]
  rfl

/-- A statement and those behind it. -/
theorem moreStatements {first : Statement} {others : List Statement} {start next : Token}
    {rest : List Token} (hstart : Phrase.statement.opens start.kind = true)
    (hhead : Accepts .statement (start :: s) first last (next :: rest))
    (hs : rest.length < s.length) (helse : next.kind ≠ .elseWord) (hnext : next.kind ≠ .semicolon)
    (htail : Accepts .statements (next :: rest) others close u) :
    Accepts .statements (start :: s) (first :: others) close u := by
  intro budget inBlock hbudget hclose state errors hstate
  rw [List.length_cons] at hbudget
  obtain ⟨budget, rfl⟩ := Nat.exists_eq_add_one_of_ne_zero (by omega : budget ≠ 0)
  obtain ⟨middle, hyields, hmiddle⟩ := hhead budget next rest (by rw [List.length_cons]; omega) rfl
    helse hnext state errors hstate
  obtain ⟨final, hyields', hfinal⟩ := htail budget inBlock (by rw [List.length_cons]; omega) hclose
    _ errors hmiddle.advance
  refine ⟨final, ?_, hfinal⟩
  unfold Yields
  rw [outcome_moreStatements hstart hstate.current hyields]
  exact hyields'.bind (yields_pure _ _)

/-- Whether the parser reads the expression of a statement and the semicolon that may follow it. -/
def Ending (s : List Token) (value : Expression) (last : Token) (u : List Token) : Prop :=
  ∀ budget, 8 * s.length + 2 ≤ budget → ∀ state errors, state.Before s errors →
    ∃ middle final, (attempt (expression budget .lowest)).Yields state (some value) middle ∧
      skipSemicolon.Yields middle () final ∧ final.After last u errors

/-- A semicolon ends a statement whatever is behind it. -/
theorem ending_semicolon {value : Expression} {semicolon : Token}
    (hbody : Accepts .anyExpression s value last (semicolon :: u))
    (h : semicolon.kind = .semicolon) (hu : u ≠ []) : Ending s value semicolon u := by
  intro budget hbudget state errors hstate
  obtain ⟨middle, hyields, hmiddle⟩ := any budget hbody hbudget (by rw [h]; rfl) state errors hstate
  refine ⟨middle, middle.advance, hyields, ?_, hmiddle.advance.after hu⟩
  unfold Yields
  rw [outcome_skipSemicolon, hmiddle.peek, if_pos h]

/-- Without a semicolon a statement ends where nothing continues its expression. -/
theorem ending_terminated {value : Expression} {semicolon next : Token} {rest : List Token}
    (hbody : Accepts .anyExpression s value last t) (hending : Terminated last t semicolon u)
    (hu : u = next :: rest) (helse : next.kind ≠ .elseWord) (hnext : next.kind ≠ .semicolon) :
    Ending s value semicolon u := by
  cases hending with
  | semicolon h => exact ending_semicolon hbody h (by rw [hu]; exact List.cons_ne_nil next rest)
  | @implicit token _ h =>
    intro budget hbudget state errors hstate
    obtain ⟨rfl, rfl⟩ := List.cons.inj hu
    have hquiet : token.kind.quiet = true := by simp [TokenKind.quiet, h, helse]
    obtain ⟨middle, hyields, hmiddle⟩ := any budget hbody hbudget hquiet state errors hstate
    refine ⟨middle, middle, hyields, ?_, hmiddle⟩
    unfold Yields
    rw [outcome_skipSemicolon, hmiddle.peek, if_neg hnext]

/-- A binding, from its word to its end. -/
theorem takes_binding {name assign semicolon : Token} {value : Expression} {budget : Nat}
    (hword : word.kind = .letWord) (hname : name.kind = .identifier)
    (hassign : assign.kind = .assign) (hs : s ≠ []) (hending : Ending s value semicolon u)
    (hbudget : 8 * s.length + 3 ≤ budget) :
    (statement budget).Takes (word :: name :: assign :: s)
      (.binding word ⟨name⟩ value (word.span.cover semicolon.span)) semicolon u := by
  intro state errors hstate
  obtain ⟨budget, rfl⟩ := Nat.exists_eq_add_one_of_ne_zero (by omega : budget ≠ 0)
  have hafter := hstate.after (List.cons_ne_nil name (assign :: s))
  have hafter' := hafter.advance.after (List.cons_ne_nil assign s)
  obtain ⟨middle, final, hyields, hskip, hfinal⟩ := hending budget (by omega) _ errors
    (hafter'.advance.after hs).advance
  refine ⟨final, ?_, hfinal⟩
  unfold statement
  refine (yields_current state).bind ?_
  rw [hstate.current]
  simp only [hword]
  refine (yields_expect_of_after hafter hname).bind ((yields_current _).bind ?_)
  rw [hafter'.current]
  refine (yields_expect_of_after hafter' hassign).bind ((yields_advance _).bind ?_)
  refine hyields.bind (hskip.bind ((yields_spanFrom _ _).bind ?_))
  rw [hfinal.current]
  exact (yields_require _ _).bind (yields_pure _ _)

theorem binding {name assign semicolon : Token} {value : Expression} (hword : word.kind = .letWord)
    (hname : name.kind = .identifier) (hassign : assign.kind = .assign) (hs : s ≠ [])
    (hbody : Accepts .anyExpression s value last t) (hending : Terminated last t semicolon u) :
    Accepts .statement (word :: name :: assign :: s)
      (.binding word ⟨name⟩ value (word.span.cover semicolon.span)) semicolon u := by
  intro budget next rest hbudget hu helse hnext
  simp only [List.length_cons] at hbudget
  exact takes_binding hword hname hassign hs (ending_terminated hbody hending hu helse hnext)
    (by omega)

/-- A `return`, from its word to its end. -/
theorem takes_returning {semicolon : Token} {value : Expression} {budget : Nat}
    (hword : word.kind = .returnWord) (hs : s ≠ []) (hending : Ending s value semicolon u)
    (hbudget : 8 * s.length + 3 ≤ budget) :
    (statement budget).Takes (word :: s)
      (.returning word value (word.span.cover semicolon.span)) semicolon u := by
  intro state errors hstate
  obtain ⟨budget, rfl⟩ := Nat.exists_eq_add_one_of_ne_zero (by omega : budget ≠ 0)
  obtain ⟨middle, final, hyields, hskip, hfinal⟩ := hending budget (by omega) _ errors
    (hstate.after hs).advance
  refine ⟨final, ?_, hfinal⟩
  unfold statement
  refine (yields_current state).bind ?_
  rw [hstate.current]
  simp only [hword]
  refine (yields_advance _).bind (hyields.bind (hskip.bind ((yields_spanFrom _ _).bind ?_)))
  rw [hfinal.current]
  exact (yields_require _ _).bind (yields_pure _ _)

theorem returning {semicolon : Token} {value : Expression} (hword : word.kind = .returnWord)
    (hs : s ≠ []) (hbody : Accepts .anyExpression s value last t)
    (hending : Terminated last t semicolon u) :
    Accepts .statement (word :: s) (.returning word value (word.span.cover semicolon.span))
      semicolon u := by
  intro budget next rest hbudget hu helse hnext
  rw [List.length_cons] at hbudget
  exact takes_returning hword hs (ending_terminated hbody hending hu helse hnext) (by omega)

/-- An expression as a statement, from its first token to its end. -/
theorem takes_expressionStatement {first semicolon : Token} {value : Expression} {budget : Nat}
    (hfirst : first.kind.starts = true) (hending : Ending (first :: s) value semicolon u)
    (hbudget : 8 * (first :: s).length + 3 ≤ budget) :
    (statement budget).Takes (first :: s)
      (.expression first value (first.span.cover semicolon.span)) semicolon u := by
  intro state errors hstate
  obtain ⟨budget, rfl⟩ := Nat.exists_eq_add_one_of_ne_zero (by omega : budget ≠ 0)
  obtain ⟨middle, final, hyields, hskip, hfinal⟩ := hending budget (by omega) state errors hstate
  refine ⟨final, ?_, hfinal⟩
  unfold statement
  refine (yields_current state).bind ?_
  rw [hstate.current]
  split
  next h =>
    rw [h] at hfirst
    exact absurd hfirst (by decide)
  next h =>
    rw [h] at hfirst
    exact absurd hfirst (by decide)
  next =>
    refine hyields.bind (hskip.bind ((yields_spanFrom _ _).bind ?_))
    rw [hfinal.current]
    exact (yields_require _ _).bind (yields_pure _ _)

theorem expressionStatement {first semicolon : Token} {value : Expression}
    (hfirst : first.kind.starts = true) (hbody : Accepts .anyExpression (first :: s) value last t)
    (hending : Terminated last t semicolon u) :
    Accepts .statement (first :: s) (.expression first value (first.span.cover semicolon.span))
      semicolon u := by
  intro budget next rest hbudget hu helse hnext
  exact takes_expressionStatement hfirst (ending_terminated hbody hending hu helse hnext) hbudget

end Accepts

/-! ## Whole programs -/

/-- The token behind a statement starts another one or ends the statements. -/
theorem Derives.next_ne {s t : List Token} {tree : List Statement} {last : Token}
    (h : Derives .statements s tree last t)
    (hclose : last.kind = .eof ∨ last.kind = .rightBrace) :
    ∃ next rest, s = next :: rest ∧ next.kind ≠ .elseWord ∧ next.kind ≠ .semicolon := by
  cases h with
  | noStatement =>
    refine ⟨_, _, rfl, ?_⟩
    obtain h | h := hclose
    · rw [h]
      decide
    · rw [h]
      decide
  | moreStatements head =>
    obtain ⟨next, rest, heq, hopens⟩ := head.opens
    refine ⟨next, rest, heq, ?_⟩
    constructor
    · intro h
      rw [h] at hopens
      exact absurd hopens (by decide)
    · intro h
      rw [h] at hopens
      exact absurd hopens (by decide)

/-- The parser reads what the grammar derives. -/
theorem Derives.accepts {phrase : Phrase} {s t : List Token} {tree : phrase.Tree} {last : Token}
    (h : Derives phrase s tree last t) : Accepts phrase s tree last t := by
  -- a call needs a budget in proportion to the tokens it takes, so each case has to know that its
  -- parts are no longer than the whole, and not empty
  induction h with
  | noStatement => exact .noStatement
  | moreStatements head tail ih₁ ih₂ =>
    intro budget inBlock hbudget hclose
    obtain ⟨start, s, rfl, hstart⟩ := head.opens
    obtain ⟨next, rest, rfl, helse, hnext⟩ :=
      tail.next_ne (hclose.imp id And.right)
    have hs := head.length_le
    simp only [Phrase.least, List.length_cons] at hs
    exact Accepts.moreStatements hstart ih₁ (by omega) helse hnext ih₂ budget inBlock hbudget hclose
  | binding hword hname hassign body ending ih =>
    obtain ⟨_, _, rfl, _⟩ := body.opens
    exact .binding hword hname hassign (List.cons_ne_nil _ _) ih ending
  | returning hword body ending ih =>
    obtain ⟨_, _, rfl, _⟩ := body.opens
    exact .returning hword (List.cons_ne_nil _ _) ih ending
  | expressionStatement body ending ih =>
    obtain ⟨_, _, heq, hfirst⟩ := body.opens
    obtain ⟨rfl, rfl⟩ := List.cons.inj heq
    exact .expressionStatement hfirst ih ending
  | block _ _ ending ih => exact .block ih ending
  | ofOperand level inner ih => exact .ofOperand level inner.length_le ih
  | unary operator hlevel htoken right ih =>
    exact .unary operator hlevel htoken right.length_le ih
  | binary operator hlevel htoken left right ih₁ ih₂ =>
    exact .binary operator hlevel htoken right.length_le ih₁ ih₂
  | call hlevel htoken left list ih₁ ih₂ =>
    exact .call hlevel htoken list.length_le ih₁ ih₂
  | index hlevel htoken left inner hclose ih₁ ih₂ =>
    have ht := inner.length_le
    simp only [Phrase.least, List.length_cons] at ht
    exact .index hlevel htoken (by omega) ih₁ ih₂ hclose
  | identifier _ h => exact .single (by simp only [Token.operand?, h])
  | integer _ h hvalue =>
    have hliteral : integerLiteral? _ = some _ := if_pos hvalue
    exact .single (by simp only [Token.operand?, h, hliteral, Option.map_some])
  | string _ h | trueWord _ h | falseWord _ h => exact .single (by simp only [Token.operand?, h])
  | group hopening body hclose ih =>
    obtain ⟨_, _, rfl, _⟩ := body.opens
    exact .group hopening ih hclose (List.cons_ne_nil _ _)
  -- both forms of a conditional are one function of the parser, with an alternative or none
  | conditional hword hopening inner hclose first ih₁ ih₂ =>
    obtain ⟨_, _, rfl, hfirst⟩ := first.opens
    have ht := first.length_le
    exact .conditionalWith hword hopening ih₁ hclose (of_decide_eq_true hfirst) ih₂
      inner.length_le (Nat.le_of_succ_le_succ ht) id Accepts.noAlternative
  | conditionalElse hword hopening inner hclose first hother second ih₁ ih₂ ih₃ =>
    obtain ⟨_, _, rfl, hfirst⟩ := first.opens
    obtain ⟨_, _, rfl, hsecond⟩ := second.opens
    have ht := first.length_le
    have hu := second.length_le
    exact .conditionalWith hword hopening ih₁ hclose (of_decide_eq_true hfirst) ih₂
      inner.length_le (Nat.le_of_succ_le_succ ht) (fun _ => List.cons_ne_nil _ _)
      (Accepts.someAlternative hother (of_decide_eq_true hsecond) ih₃ (Nat.le_of_succ_le_succ hu))
  | function hword hopening list inner ih₁ ih₂ =>
    obtain ⟨_, _, rfl, hfirst⟩ := inner.opens
    have hu := inner.length_le
    exact .function hword hopening ih₁ (of_decide_eq_true hfirst) ih₂ list.length_le
      (Nat.le_of_succ_le_succ hu)
  | array hopening list ih =>
    have hs := list.length_le
    exact .array hopening ih (List.ne_nil_of_length_pos (Nat.lt_of_lt_of_le (Nat.succ_pos _) hs))
  | hash hopening list ih =>
    have hs := list.length_le
    exact .hash hopening ih (List.ne_nil_of_length_pos (Nat.lt_of_lt_of_le (Nat.succ_pos _) hs))
  | noArgument _ h => exact .noArgument h
  | someArguments list ih =>
    obtain ⟨_, _, rfl, hfirst⟩ := list.opens
    exact .someArguments hfirst ih
  | lastArgument _ h ih => exact .lastArgument ih h
  | moreArguments head h tail ih₁ ih₂ =>
    obtain ⟨_, _, rfl, _⟩ := tail.opens
    exact .moreArguments ih₁ h head.length_le (List.cons_ne_nil _ _) ih₂
  | noParameter _ h => exact .noParameter h
  | someParameters list ih =>
    obtain ⟨_, _, rfl, hname⟩ := list.opens
    exact .someParameters (of_decide_eq_true hname) ih
  | lastParameter _ h hclose => exact .lastParameter h hclose
  | moreParameters h hcomma tail ih =>
    obtain ⟨_, _, rfl, _⟩ := tail.opens
    exact .moreParameters h hcomma (List.cons_ne_nil _ _) ih
  | noPair _ h => exact .noPair h
  | lastPair first hcolon second hclose ih₁ ih₂ =>
    obtain ⟨_, _, rfl, hfirst⟩ := first.opens
    have hs := first.length_le
    simp only [Phrase.least, List.length_cons] at hs
    exact .lastPair hfirst ih₁ hcolon ih₂ (by omega) second.length_le hclose
  | morePairs first hcolon second hcomma tail ih₁ ih₂ ih₃ =>
    obtain ⟨_, _, rfl, hfirst⟩ := first.opens
    have hs := first.length_le
    simp only [Phrase.least, List.length_cons] at hs
    have hu := tail.length_le
    exact .morePairs hfirst ih₁ hcolon ih₂ (by omega) second.length_le
      (List.ne_nil_of_length_pos (Nat.lt_of_lt_of_le (Nat.succ_pos _) hu)) hcomma ih₃

/-- The parser yields the tree of a program, and records no error. -/
theorem IsProgram.parseTokens_eq {tokens : List Token} {program : Program}
    (h : IsProgram tokens program) : parseTokens tokens = ⟨program, []⟩ := by
  obtain ⟨eof, heof, h⟩ := h
  have hlength := h.length_le
  cases tokens with
  | nil => exact absurd hlength (by simp)
  | cons token rest =>
    obtain ⟨next, hyields, hnext⟩ := h.accepts (parseBudget (token :: rest)) false
      (by unfold parseBudget; omega) (.inl heof) ⟨token, rest, []⟩ [] ⟨rfl, rfl⟩
    unfold Yields outcome at hyields
    unfold parseTokens
    simp only [hyields, hnext.errors]
    rfl

end Scriptlet
