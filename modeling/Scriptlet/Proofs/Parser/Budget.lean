import Scriptlet.Proofs.Parser.Trace

set_option autoImplicit false

/-!
# The budget does not matter

Component: the parser.  Specification: section 4.2, whose productions call each other without a
bound; here each call has a budget for the calls inside of it, and this file says that the budget is
no part of what the parser does.

What a production may need of its budget is told by the number of tokens that are left
(`Production.need`).  Steps only go forward, so that this never grows; every loop and every call of
a production by itself reads a token in between, and then it is smaller.  So needs fall along
nested calls (`ParseEvent.Descends`), which bounds how deep calls nest.

A production whose budget suffices for its need does the same with every larger one
(`allSuffice`), also where the tokens are no phrase of the grammar.  So no parse ever fails because
its budget is spent.

The need of a production is eight for each token that is left, the current one counted or not, and
up to five more, by its place in the chain of productions that call each other without reading:
statements call a statement, that an expression, and that an operand.  So a call that reads nothing
makes the place smaller, and a call that reads makes the tokens fewer, by more than the place can
add.

`Agrees` relates two runs of a production, with a budget that suffices and with a larger one, and
carries along that needs fall inside of them.  It has one rule for each of the smallest steps, and
each production is then a list of these rules.  That is done production by production, with one unit
of budget more than what is known (`AllSuffice`); `allSuffice` puts the parts together by induction.
-/

namespace Scriptlet

/-! ## Needs -/

/-- How much budget a production may need in a state. -/
def Production.need : Production → ParseState → Nat
  | .operand, state => 8 * state.left + 1
  | .expression, state => 8 * state.left + 2
  | .moreExpressions, state | .statement, state => 8 * state.left + 3
  | .statements, state => 8 * state.left + 4
  | .moreParameters, state | .extended, state | .alternative, state => 8 * state.behind + 1
  | .parameters, state => 8 * state.behind + 2
  | .pairs, state => 8 * state.behind + 3
  | .expressions, state => 8 * state.behind + 4
  | .continued, state | .block, state => 8 * state.behind + 5

/-- Whether what happens goes on from a state, without that a budget is spent, with needs below a
bound that fall along nested calls. -/
inductive ParseEvent.Descends : ParseState → Nat → ParseEvent → Prop where
  | recorded {start : ParseState} {bound : Nat} (error : SyntaxError) :
      Descends start bound (.recorded error)
  | called {start : ParseState} {bound : Nat} {call : Call} (hstart : call.start.Follows start)
      (hneed : call.production.need call.start < bound) (hstop : call.stop.Follows call.start)
      (inner : ∀ event ∈ call.events,
        event.Descends call.start (call.production.need call.start)) :
      Descends start bound (.called call)

/-- What goes on from a state goes on from those before it. -/
theorem ParseEvent.Descends.mono {start state : ParseState} {bound : Nat} {event : ParseEvent}
    (h : event.Descends state bound) (hfollows : state.Follows start) :
    event.Descends start bound := by
  cases h with
  | recorded error => exact .recorded error
  | called hstart hneed hstop inner => exact .called (hstart.trans hfollows) hneed hstop inner

namespace Traced

variable {α β : Type} {budget bound : Nat}

/-! ## Steps that agree -/

/-- Whether two steps do the same from a state, going forward, with needs below a bound. -/
structure Agrees (bound : Nat) (traced other : Traced α) (state : ParseState) : Prop where
  eq : traced state = other state
  follows : (traced state).stop.Follows state
  descends : ∀ event ∈ (traced state).events, event.Descends state bound

namespace Agrees

variable {traced other : Traced α} {next next' : α → Traced β} {state middle : ParseState}

/-- Two steps agree if their first parts do and, from where these stop, what follows. -/
theorem bind (h : Agrees bound traced other state)
    (hnext : ∀ result middle, middle.Follows state →
      Agrees bound (next result) (next' result) middle) :
    Agrees bound (traced >>= next) (other >>= next') state := by
  obtain ⟨heq, hfollows, hdescends⟩ := h
  cases hrun : traced state with
  | mk result middle events =>
    have hrun' := heq.symm.trans hrun
    rw [hrun] at hfollows hdescends
    cases result with
    | none =>
      have hrun := bind_of_none next hrun
      refine ⟨hrun.trans (bind_of_none next' hrun').symm, ?_, ?_⟩
      · rwa [hrun]
      · rwa [hrun]
    | some result =>
      have hrun := bind_of_some next hrun
      obtain ⟨heq', hfollows', hdescends'⟩ := hnext result middle hfollows
      refine ⟨?_, ?_, ?_⟩
      · rw [hrun, bind_of_some next' hrun', heq']
      · rw [hrun]
        exact hfollows'.trans hfollows
      · rw [hrun]
        intro event hevent
        obtain hevent | hevent := List.mem_append.mp hevent
        · exact hdescends event hevent
        · exact (hdescends' event hevent).mono hfollows

/-- Two steps that both come to another state and go on from there. -/
theorem skip {traced other rest rest' : Traced β} (h : traced state = rest middle)
    (h' : other state = rest' middle) (hfollows : middle.Follows state)
    (hrest : Agrees bound rest rest' middle) : Agrees bound traced other state := by
  obtain ⟨heq, hfollows', hdescends⟩ := hrest
  refine ⟨by rw [h, h', heq], ?_, ?_⟩
  · rw [h]
    exact hfollows'.trans hfollows
  · rw [h]
    intro event hevent
    exact (hdescends event hevent).mono hfollows

/-- Two steps that end alike and call nothing. -/
theorem last {result : Option α} {stop : ParseState} (errors : List SyntaxError)
    (h : traced state = ⟨result, stop, errors.map .recorded⟩)
    (h' : other state = ⟨result, stop, errors.map .recorded⟩) (hfollows : stop.Follows state) :
    Agrees bound traced other state := by
  refine ⟨h.trans h'.symm, ?_, ?_⟩
  · rwa [h]
  · rw [h]
    intro event hevent
    obtain ⟨error, -, rfl⟩ := List.mem_map.mp hevent
    exact .recorded error

/-- Both look at the same token. -/
theorem current {next next' : Token → Traced β}
    (hnext : Agrees bound (next state.current) (next' state.current) state) :
    Agrees bound (liftM Parse.current >>= next) (liftM Parse.current >>= next') state :=
  skip (run_current next state) (run_current next' state) (.refl state) hnext

theorem peekKind {next next' : TokenKind → Traced β}
    (hnext : Agrees bound (next state.peek.kind) (next' state.peek.kind) state) :
    Agrees bound (liftM Parse.peekKind >>= next) (liftM Parse.peekKind >>= next') state :=
  skip (run_peekKind next state) (run_peekKind next' state) (.refl state) hnext

/-- Both read the same token. -/
theorem advance {next next' : Unit → Traced β}
    (hnext : Agrees bound (next ()) (next' ()) state.advance) :
    Agrees bound (liftM Parse.advance >>= next) (liftM Parse.advance >>= next') state :=
  skip (run_advance next state) (run_advance next' state) state.follows_advance hnext

theorem pure (result : α) (state : ParseState) :
    Agrees bound (Pure.pure result) (Pure.pure result) state :=
  last [] rfl rfl (.refl state)

/-- Both record the same error. -/
theorem fault (token : Token) (reason : SyntaxFault) (state : ParseState) :
    Agrees bound (liftM (Parse.fault token reason : Parse α))
      (liftM (Parse.fault token reason : Parse α)) state :=
  have hrun := run_fault (α := α) token reason state
  last [_] hrun hrun (.refl state)

theorem spanFrom {first : Token} {next next' : Span → Traced β}
    (hnext : ∀ span, Agrees bound (next span) (next' span) state) :
    Agrees bound (liftM (Parse.spanFrom first) >>= next) (liftM (Parse.spanFrom first) >>= next')
      state :=
  skip (run_spanFrom first next state) (run_spanFrom first next' state) (.refl state) (hnext _)

/-- Both go on only if the token is the wanted one. -/
theorem expect {wanted : TokenKind} {next next' : Unit → Traced β}
    (hnext : state.peek.kind = wanted → Agrees bound (next ()) (next' ()) state.advance) :
    Agrees bound (liftM (Parse.expect wanted) >>= next) (liftM (Parse.expect wanted) >>= next')
      state := by
  by_cases h : state.peek.kind = wanted
  · exact skip (run_expect next h) (run_expect next' h) state.follows_advance (hnext h)
  · exact last [_] (run_expect_of_ne next h) (run_expect_of_ne next' h) (.refl state)

/-- Both attempts have the same outcome. -/
theorem attempt (h : Agrees bound traced other state) :
    Agrees bound (attempt traced) (Traced.attempt other) state := by
  obtain ⟨heq, hfollows, hdescends⟩ := h
  refine ⟨?_, hfollows, hdescends⟩
  unfold Traced.attempt
  rw [heq]

/-- The end of a production whose result is that of a part. -/
theorem required (result : Option α) (state : ParseState) :
    Agrees bound (liftM (Parse.require result)) (liftM (Parse.require result)) state :=
  last [] (run_required result state) (run_required result state) (.refl state)

/-- Both go on with the same part, or end without it. -/
theorem require {result : Option α}
    (hnext : ∀ value, Agrees bound (next value) (next' value) state) :
    Agrees bound (liftM (Parse.require result) >>= next) (liftM (Parse.require result) >>= next')
      state := by
  cases result with
  | none =>
    exact last [] (run_require_none next state) (run_require_none next' state) (.refl state)
  | some value =>
    exact skip (run_require value next state) (run_require value next' state) (.refl state)
      (hnext value)

/-- Both skip the semicolon, or both do not. -/
theorem skipSemicolon {next next' : Unit → Traced β}
    (hnext : ∀ middle, middle.Follows state → Agrees bound (next ()) (next' ()) middle) :
    Agrees bound (liftM Parse.skipSemicolon >>= next) (liftM Parse.skipSemicolon >>= next')
      state := by
  have hfollows : ParseState.Follows
      (if state.peek.kind = .semicolon then state.advance else state) state := by
    split
    · exact state.follows_advance
    · exact .refl state
  exact skip (run_skipSemicolon next state) (run_skipSemicolon next' state) hfollows
    (hnext _ hfollows)

/-- Both decide alike, and agree on the branch that is taken. -/
theorem ite {condition : Prop} [Decidable condition] {second second' : Traced α}
    (h : condition → Agrees bound traced other state)
    (h' : ¬ condition → Agrees bound second second' state) :
    Agrees bound (if condition then traced else second) (if condition then other else second')
      state := by
  by_cases hcondition : condition
  · rw [if_pos hcondition, if_pos hcondition]
    exact h hcondition
  · rw [if_neg hcondition, if_neg hcondition]
    exact h' hcondition

/-- A call needs less than the bound, and what happens inside needs less than the call. -/
theorem call {production : Production} {traced other : Traced production.Tree}
    (h : Agrees (production.need state) traced other state)
    (hneed : production.need state < bound) :
    Agrees bound (call production traced) (Traced.call production other) state := by
  obtain ⟨heq, hfollows, hdescends⟩ := h
  refine ⟨?_, hfollows, ?_⟩
  · unfold Traced.call
    rw [heq]
  · intro event hevent
    cases List.mem_singleton.mp hevent
    exact .called (.refl state) hneed hfollows hdescends

end Agrees

/-! ## The productions -/

/-- Whether a budget does as well as every larger one where it suffices for what a production
needs. -/
def Suffices (production : Production) (budget : Nat) (traced : Nat → Traced production.Tree) :
    Prop :=
  ∀ larger state bound, budget ≤ larger → state.Ends → bound ≤ budget + 1 →
    production.need state < bound → Agrees bound (traced budget) (traced larger) state

/-- That a budget suffices for all productions. -/
structure AllSuffice (budget : Nat) : Prop where
  expression : ∀ floor, Suffices .expression budget (expression · floor)
  extended : ∀ floor first, Suffices .extended budget (extended · floor first)
  continued : ∀ continuation first, Suffices .continued budget (continued · continuation first)
  operand : Suffices .operand budget operand
  alternative : Suffices .alternative budget alternative
  expressions : ∀ close, Suffices .expressions budget (expressions · close)
  moreExpressions : ∀ close, Suffices .moreExpressions budget (moreExpressions · close)
  pairs : Suffices .pairs budget pairs
  block : Suffices .block budget block
  statements : ∀ inBlock, Suffices .statements budget (statements · inBlock)
  statement : Suffices .statement budget statement

variable {production : Production} {traced : Nat → Traced production.Tree}

/-- A budget of nothing suffices for nothing, as every need is positive. -/
theorem suffices_zero : Suffices production 0 traced := by
  intro larger state bound _ _ hbound hneed
  have hpos : 0 < production.need state := by cases production <;> exact Nat.succ_pos _
  omega

/-- One unit of the budget is spent on the call. -/
theorem suffices_succ
    (h : ∀ larger state, budget ≤ larger → state.Ends → production.need state ≤ budget + 1 →
      ∀ bound, production.need state < bound →
        Agrees bound (traced (budget + 1)) (traced (larger + 1)) state) :
    Suffices production (budget + 1) traced := by
  intro larger state bound hlarger hends hbound hneed
  obtain ⟨larger, rfl⟩ := Nat.exists_eq_add_one_of_ne_zero (by omega : larger ≠ 0)
  exact h larger state (Nat.le_of_succ_le_succ hlarger) hends (by omega) bound hneed

/-- This production calls itself only, so that the induction is its own. -/
theorem suffices_moreParameters (budget : Nat) :
    Suffices .moreParameters budget moreParameters := by
  induction budget with
  | zero => exact suffices_zero
  | succ budget ih =>
    refine suffices_succ fun larger state hlarger hends hneed _ hless => ?_
    unfold moreParameters
    refine .call (.expect fun hname =>
      .current (.peekKind (.ite (fun _ => .advance ?_) fun _ => ?_)))
      hless
    · have hless := hends.behind_advance_lt (by rw [hname]; decide)
      have hle := state.advance.follows_advance.behind_le
      exact (ih larger _ _ hlarger hends.advance.advance hneed
        (by simp only [Production.need]; omega)).bind fun _ _ _ => .pure _ _
    · exact .expect fun _ => .pure _ _

theorem suffices_parameters (budget : Nat) : Suffices .parameters budget parameters := by
  intro larger state bound hlarger hends hbound hless
  unfold parameters
  refine .call (.peekKind (.ite (fun _ => .advance (.pure _ _)) fun _ => ?_)) hless
  exact suffices_moreParameters budget larger state _ hlarger hends (by omega)
    (by simp only [Production.need]; omega)

namespace AllSuffice

/-- An expression calls its operand and then what extends it. -/
theorem expression_succ (ih : AllSuffice budget) (floor : Precedence) :
    Suffices .expression (budget + 1) (Traced.expression · floor) := by
  refine suffices_succ fun larger state hlarger hends hneed _ hless => ?_
  unfold Traced.expression
  refine .call ?_ hless
  refine (ih.operand larger state _ hlarger hends hneed
    (by simp only [Production.need]; omega)).bind fun first middle hmiddle => ?_
  have hleft := hmiddle.left_le
  have hbehind := middle.behind_le_left
  exact ih.extended floor first larger middle _ hlarger (hends.of_follows hmiddle) hneed
    (by simp only [Production.need]; omega)

/-- What extends an expression has read an operator before it calls on. -/
theorem extended_succ (ih : AllSuffice budget) (floor : Precedence) (first : Expression) :
    Suffices .extended (budget + 1) (Traced.extended · floor first) := by
  refine suffices_succ fun larger state hlarger hends hneed _ hless => ?_
  unfold Traced.extended
  refine .call (.peekKind ?_) hless
  cases hkind : state.peek.kind.continuation? with
  | none => exact .pure _ _
  | some continuation =>
    have hless := hends.behind_advance_lt (by intro h; rw [h] at hkind; cases hkind)
    refine .ite (fun _ => .advance ?_) fun _ => .pure _ _
    refine (ih.continued continuation first larger _ _ hlarger hends.advance hneed
      (by simp only [Production.need]; omega)).bind fun longer middle hmiddle => ?_
    have hbehind := hmiddle.behind_le
    exact ih.extended floor longer larger middle _ hlarger (hends.advance.of_follows hmiddle) hneed
      (by simp only [Production.need]; omega)

/-- Behind an operator, a parenthesis or a bracket stands an operand, a list or an expression. -/
theorem continued_succ (ih : AllSuffice budget) (continuation : Continuation)
    (first : Expression) :
    Suffices .continued (budget + 1) (Traced.continued · continuation first) := by
  refine suffices_succ fun larger state hlarger hends hneed _ hless => ?_
  have hleft := state.left_advance
  cases continuation with
  | binary operator =>
    dsimp only [Traced.continued]
    refine .call (.current (.advance ?_)) hless
    exact (ih.expression _ larger _ _ hlarger hends.advance hneed
      (by simp only [Production.need]; omega)).bind fun _ _ _ => .pure _ _
  | call =>
    dsimp only [Traced.continued]
    refine .call (.current ?_) hless
    exact (ih.expressions _ larger _ _ hlarger hends hneed
      (by simp only [Production.need]; omega)).bind fun _ _ _ => .pure _ _
  | index =>
    dsimp only [Traced.continued]
    refine .call (.current (.advance ?_)) hless
    refine (ih.expression _ larger _ _ hlarger hends.advance hneed
      (by simp only [Production.need]; omega)).attempt.bind fun _ _ _ => ?_
    exact .expect fun _ => .require fun _ => .pure _ _

/-- The parts of a condition are read behind tokens of their own. -/
theorem operand_conditional (ih : AllSuffice budget) {larger bound : Nat} {state : ParseState}
    (hkind : state.current.kind = .ifWord) (hlarger : budget ≤ larger) (hends : state.Ends)
    (hneed : Production.operand.need state ≤ budget + 1)
    (hbound : Production.operand.need state < bound) :
    Agrees bound (Traced.operand (budget + 1)) (Traced.operand (larger + 1)) state := by
  have hless := hends.behind_lt_left (by rw [hkind]; exact TokenKind.noConfusion)
  have hleft := state.left_advance
  unfold Traced.operand
  refine .call (.current ?_) hbound
  simp only [hkind]
  refine .expect fun hopening => .advance ?_
  have hless' := hends.behind_advance_lt (by rw [hopening]; decide)
  have hcondition := state.advance.left_advance
  refine (ih.expression _ larger _ _ hlarger hends.advance.advance hneed
    (by simp only [Production.need]; omega)).attempt.bind fun _ middle hmiddle => ?_
  have hbrace : middle.advance.advance.Follows state.advance :=
    middle.advance.follows_advance.trans (middle.follows_advance.trans
      (hmiddle.trans state.advance.follows_advance))
  have hbehind := hbrace.behind_le
  have hends := hends.advance.of_follows hbrace
  refine .expect fun _ => .expect fun _ => ?_
  refine (ih.block larger _ _ hlarger hends hneed
    (by simp only [Production.need]; omega)).bind fun _ last hlast => ?_
  have hbehind := hlast.behind_le
  have hends' := hends.of_follows hlast
  refine (ih.alternative larger _ _ hlarger hends' hneed
    (by simp only [Production.need]; omega)).bind fun _ _ _ => ?_
  exact .require fun _ => .pure _ _

/-- So are the parts of a function. -/
theorem operand_function (ih : AllSuffice budget) {larger bound : Nat} {state : ParseState}
    (hkind : state.current.kind = .functionWord) (hlarger : budget ≤ larger) (hends : state.Ends)
    (hneed : Production.operand.need state ≤ budget + 1)
    (hbound : Production.operand.need state < bound) :
    Agrees bound (Traced.operand (budget + 1)) (Traced.operand (larger + 1)) state := by
  have hless := hends.behind_lt_left (by rw [hkind]; exact TokenKind.noConfusion)
  have hleft := state.left_advance
  unfold Traced.operand
  refine .call (.current ?_) hbound
  simp only [hkind]
  refine .expect fun hopening => ?_
  have hless' := hends.behind_advance_lt (by rw [hopening]; decide)
  refine (suffices_parameters budget larger _ _ hlarger hends.advance hneed
    (by simp only [Production.need]; omega)).attempt.bind fun _ middle hmiddle =>
      .expect fun _ => ?_
  have hbrace := middle.follows_advance.trans hmiddle
  have hbehind := hbrace.behind_le
  refine (ih.block larger _ _ hlarger (hends.advance.of_follows hbrace) hneed
    (by simp only [Production.need]; omega)).bind fun _ _ _ => ?_
  exact .require fun _ => .pure _ _

/-- The other operands either are one token or open a list or a group. -/
theorem operand_succ (ih : AllSuffice budget) : Suffices .operand (budget + 1) Traced.operand := by
  refine suffices_succ fun larger state hlarger hends hneed _ hless => ?_
  by_cases hconditional : state.current.kind = .ifWord
  · exact ih.operand_conditional hconditional hlarger hends hneed hless
  by_cases hfunction : state.current.kind = .functionWord
  · exact ih.operand_function hfunction hlarger hends hneed hless
  unfold Traced.operand
  refine .call (.current ?_) hless
  generalize hkind : state.current.kind = kind
  -- an operand that is read takes a token, which leaves budget for what is inside
  have hless (hne : kind ≠ .eof) : state.behind < state.left :=
    hends.behind_lt_left (by rwa [hkind])
  have hleft := state.left_advance
  cases kind
  case identifier => exact .pure _ _
  case integer =>
    dsimp only
    split
    · exact .pure _ _
    · exact .fault _ _ _
  case string => exact .pure _ _
  case trueWord => exact .pure _ _
  case falseWord => exact .pure _ _
  case bang | minus =>
    have hless := hless (by decide)
    refine .advance ?_
    exact (ih.expression _ larger _ _ hlarger hends.advance hneed
      (by simp only [Production.need]; omega)).bind fun _ _ _ => .pure _ _
  case leftParen =>
    have hless := hless (by decide)
    refine .advance ?_
    refine (ih.expression _ larger _ _ hlarger hends.advance hneed
      (by simp only [Production.need]; omega)).attempt.bind fun _ _ _ => ?_
    exact .expect fun _ => .required _ _
  case leftBracket =>
    have hless := hless (by decide)
    exact (ih.expressions _ larger _ _ hlarger hends hneed
      (by simp only [Production.need]; omega)).bind fun _ _ _ => .pure _ _
  case leftBrace =>
    have hless := hless (by decide)
    exact (ih.pairs larger _ _ hlarger hends hneed
      (by simp only [Production.need]; omega)).bind fun _ _ _ => .pure _ _
  case ifWord => exact absurd hkind hconditional
  case functionWord => exact absurd hkind hfunction
  all_goals exact .fault _ _ _

theorem alternative_succ (ih : AllSuffice budget) :
    Suffices .alternative (budget + 1) Traced.alternative := by
  refine suffices_succ fun larger state hlarger hends hneed _ hless => ?_
  unfold Traced.alternative
  refine .call ?_ hless
  refine .peekKind (.ite (fun hword => .advance (.expect fun hopening => ?_)) fun _ => .pure _ _)
  have hless := hends.behind_advance_lt (by rw [hword]; decide)
  have hless' := hends.advance.behind_advance_lt (by rw [hopening]; decide)
  exact (ih.block larger _ _ hlarger hends.advance.advance hneed
    (by simp only [Production.need]; omega)).bind fun _ _ _ => .pure _ _

theorem expressions_succ (ih : AllSuffice budget) (close : TokenKind) :
    Suffices .expressions (budget + 1) (Traced.expressions · close) := by
  refine suffices_succ fun larger state hlarger hends hneed _ hless => ?_
  have hleft := state.left_advance
  unfold Traced.expressions
  refine .call (.advance (.current (.ite (fun _ => .pure _ _) fun _ => ?_))) hless
  exact ih.moreExpressions close larger _ _ hlarger hends.advance hneed
    (by simp only [Production.need]; omega)

/-- Behind a comma the list goes on with fewer tokens. -/
theorem moreExpressions_succ (ih : AllSuffice budget) (close : TokenKind) :
    Suffices .moreExpressions (budget + 1) (Traced.moreExpressions · close) := by
  refine suffices_succ fun larger state hlarger hends hneed _ hless => ?_
  unfold Traced.moreExpressions
  refine .call ?_ hless
  refine (ih.expression _ larger _ _ hlarger hends hneed
    (by simp only [Production.need]; omega)).attempt.bind fun _ middle hmiddle => ?_
  have hends := hends.of_follows hmiddle
  refine .peekKind (.ite (fun hcomma => .advance (.advance ?_)) fun _ => ?_)
  · have hless := hends.behind_advance_lt (by rw [hcomma]; decide)
    have hleft := middle.advance.left_advance
    have hle := middle.behind_le_left
    have hle' := hmiddle.left_le
    refine (ih.moreExpressions close larger _ _ hlarger hends.advance.advance hneed
      (by simp only [Production.need]; omega)).bind fun _ _ _ => ?_
    exact .require fun _ => .pure _ _
  · exact .expect fun _ => .require fun _ => .pure _ _

/-- A pair has a key, a colon and a value before the next one. -/
theorem pairs_succ (ih : AllSuffice budget) : Suffices .pairs (budget + 1) Traced.pairs := by
  refine suffices_succ fun larger state hlarger hends hneed _ hless => ?_
  have hleft := state.left_advance
  unfold Traced.pairs
  refine .call (.advance (.current (.ite (fun _ => .pure _ _) fun _ => ?_))) hless
  have hends := hends.advance
  refine (ih.expression _ larger _ _ hlarger hends hneed
    (by simp only [Production.need]; omega)).attempt.bind fun _ middle hmiddle => ?_
  refine .expect fun hcolon => .advance ?_
  have hends := hends.of_follows hmiddle
  have hless := hends.behind_advance_lt (by rw [hcolon]; decide)
  have hle := middle.behind_le_left
  have hle' := hmiddle.left_le
  have hvalue := middle.advance.left_advance
  have hends := hends.advance.advance
  refine (ih.expression _ larger _ _ hlarger hends hneed
    (by simp only [Production.need]; omega)).attempt.bind fun _ last hlast => ?_
  have hrest {here : ParseState} (hfollows : here.Follows middle.advance.advance)
      {key value : Option Expression} :
      Agrees (Production.pairs.need state)
        (do
          let rest ← Traced.pairs budget
          return ⟨← Parse.require key, ← Parse.require value⟩ :: rest)
        (do
          let rest ← Traced.pairs larger
          return ⟨← Parse.require key, ← Parse.require value⟩ :: rest) here := by
    have hbehind := here.behind_le_left
    have hleft := hfollows.left_le
    refine (ih.pairs larger _ _ hlarger (hends.of_follows hfollows) hneed
      (by simp only [Production.need]; omega)).bind fun _ _ _ => ?_
    exact .require fun _ => .require fun _ => .pure _ _
  refine .peekKind (.ite (fun _ => .expect fun _ => ?_) fun _ => hrest hlast)
  exact hrest (last.follows_advance.trans hlast)

/-- A block reads its brace and then statements. -/
theorem block_succ (ih : AllSuffice budget) : Suffices .block (budget + 1) Traced.block := by
  refine suffices_succ fun larger state hlarger hends hneed _ hless => ?_
  have hleft := state.left_advance
  unfold Traced.block
  refine .call (.current (.advance ?_)) hless
  refine (ih.statements true larger _ _ hlarger hends.advance hneed
    (by simp only [Production.need]; omega)).bind fun _ _ _ => ?_
  exact .spanFrom fun _ => .pure _ _

/-- After each statement the parser advances, so that the next is tried further on. -/
theorem statements_succ (ih : AllSuffice budget) (inBlock : Bool) :
    Suffices .statements (budget + 1) (Traced.statements · inBlock) := by
  refine suffices_succ fun larger state hlarger hends hneed _ hless => ?_
  unfold Traced.statements
  refine .call (.current (.ite (fun _ => .pure _ _) fun hgoes => ?_)) hless
  have hless := hends.behind_lt_left fun heof => hgoes (.inl heof)
  refine (ih.statement larger _ _ hlarger hends hneed
    (by simp only [Production.need]; omega)).attempt.bind fun _ middle hmiddle => .advance ?_
  have hleft := middle.left_advance
  have hbehind := hmiddle.behind_le
  exact (ih.statements inBlock larger _ _ hlarger (hends.of_follows hmiddle).advance hneed
    (by simp only [Production.need]; omega)).bind fun _ _ _ => .pure _ _

/-- The end of a statement: its expression, the semicolon behind it, and its span. -/
theorem ending (ih : AllSuffice budget) {larger : Nat} {state : ParseState}
    (hlarger : budget ≤ larger) (hends : state.Ends) (hbound : bound ≤ budget + 1)
    (hneed : Production.expression.need state < bound) (first : Token)
    (make : Expression → Span → Statement) :
    Agrees bound
      (do
        let value ← attempt (Traced.expression budget .lowest)
        Parse.skipSemicolon
        let span ← Parse.spanFrom first
        return make (← Parse.require value) span)
      (do
        let value ← attempt (Traced.expression larger .lowest)
        Parse.skipSemicolon
        let span ← Parse.spanFrom first
        return make (← Parse.require value) span) state := by
  refine (ih.expression _ larger _ _ hlarger hends hbound hneed).attempt.bind fun _ _ _ => ?_
  exact .skipSemicolon fun _ _ => .spanFrom fun _ => .require fun _ => .pure _ _

/-- A statement reads its words and then an expression. -/
theorem statement_succ (ih : AllSuffice budget) :
    Suffices .statement (budget + 1) Traced.statement := by
  refine suffices_succ fun larger state hlarger hends hneed _ hless => ?_
  unfold Traced.statement
  refine .call (.current ?_) hless
  split
  · refine .expect fun _ => .current (.expect fun _ => .advance ?_)
    have hvalue := (state.advance.advance.follows_advance.trans
      (state.advance.follows_advance.trans state.follows_advance)).left_le
    exact ih.ending hlarger hends.advance.advance.advance hneed
      (by simp only [Production.need]; omega) _ fun value span => _
  · have hvalue := state.follows_advance.left_le
    exact .advance (ih.ending hlarger hends.advance hneed
      (by simp only [Production.need]; omega) _ fun value span => _)
  · exact ih.ending hlarger hends hneed (by simp only [Production.need]; omega) _
      fun value span => _

end AllSuffice

/-- All productions at once, by induction on the budget. -/
theorem allSuffice (budget : Nat) : AllSuffice budget := by
  induction budget with
  | zero =>
    constructor
    all_goals
      intros
      exact suffices_zero
  | succ budget ih =>
    exact {
      expression := ih.expression_succ
      extended := ih.extended_succ
      continued := ih.continued_succ
      operand := ih.operand_succ
      alternative := ih.alternative_succ
      expressions := ih.expressions_succ
      moreExpressions := ih.moreExpressions_succ
      pairs := ih.pairs_succ
      block := ih.block_succ
      statements := ih.statements_succ
      statement := ih.statement_succ }

/-- Within every budget from their need on, statements are read alike, with the same account. -/
theorem agrees_statements {larger : Nat} {state : ParseState} (hends : state.Ends)
    (hneed : Production.statements.need state ≤ budget) (hlarger : budget ≤ larger)
    (inBlock : Bool) :
    Agrees (Production.statements.need state + 1) (statements budget inBlock)
      (statements larger inBlock) state :=
  (allSuffice budget).statements inBlock larger state _ hlarger hends (by omega) (by omega)

/-- Whatever the tokens are, statements are read up to their end. -/
theorem exists_result_statements {state : ParseState} (hends : state.Ends)
    (hneed : Production.statements.need state ≤ budget) (inBlock : Bool) :
    ∃ result, (statements budget inBlock state).result = some result := by
  induction budget generalizing state with
  | zero => exact absurd hneed (Nat.not_succ_le_zero _)
  | succ budget ih =>
    unfold statements
    rw [result_call, run_current]
    split
    · exact ⟨[], rfl⟩
    next hgoes =>
      have hless := hends.behind_lt_left fun heof => hgoes (.inl heof)
      simp only [Production.need] at hneed
      have hneed : Production.statement.need state < budget + 1 := by
        simp only [Production.need]
        omega
      have hfollows := ((allSuffice budget).statement budget state (budget + 1) (Nat.le_refl _)
        hends (Nat.le_refl _) hneed).follows
      have hrun : attempt (statement budget) state = ⟨some _, _, _⟩ := rfl
      rw [bind_of_some _ hrun]
      dsimp only
      rw [run_advance]
      have hbehind := hfollows.behind_le
      have hleft := (statement budget state).stop.left_advance
      obtain ⟨rest, hrest⟩ := ih (hends.of_follows hfollows).advance
        (by simp only [Production.need]; omega)
      generalize hlast : statements budget inBlock (statement budget state).stop.advance = last
        at hrest
      obtain ⟨result, stop, events⟩ := last
      obtain rfl := hrest
      rw [bind_of_some _ hlast]
      exact ⟨_, rfl⟩

end Traced

namespace Parse

variable {budget other : Nat} {state : ParseState}

/-- Statements are read alike within any two budgets that suffice. -/
theorem outcome_statements (hends : state.Ends) (hneed : 8 * state.left + 4 ≤ budget)
    (hneed' : 8 * state.left + 4 ≤ other) (inBlock : Bool) :
    (statements budget inBlock).outcome state = (statements other inBlock).outcome state := by
  have h := (Traced.agrees_statements hends (Nat.le_refl _) hneed inBlock).eq
  have h' := (Traced.agrees_statements hends (Nat.le_refl _) hneed' inBlock).eq
  rw [(Traced.retraces_statements budget inBlock).outcome_eq,
    (Traced.retraces_statements other inBlock).outcome_eq, ← h, ← h']

/-- Whatever the tokens are, statements are read up to their end. -/
theorem exists_outcome_statements (hends : state.Ends) (hneed : 8 * state.left + 4 ≤ budget)
    (inBlock : Bool) :
    ∃ result, ((statements budget inBlock).outcome state).1 = some result := by
  rw [(Traced.retraces_statements budget inBlock).outcome_eq]
  exact Traced.exists_result_statements hends hneed inBlock

end Parse

/-! ## Nested calls -/

/-- A bound may be larger. -/
theorem ParseEvent.Descends.le {start : ParseState} {bound larger : Nat} {event : ParseEvent}
    (h : event.Descends start bound) (hle : bound ≤ larger) : event.Descends start larger := by
  cases h with
  | recorded error => exact .recorded error
  | called hstart hneed hstop inner =>
    exact .called hstart (Nat.lt_of_lt_of_le hneed hle) hstop inner

/-- With every call around it, what happens has one unit less to need. -/
theorem Happens.descends {start : ParseState} {bound : Nat} {event : ParseEvent} {above : List Call}
    {events : List ParseEvent} (h : Happens event above events)
    (hdescends : ∀ event ∈ events, event.Descends start bound) :
    above.length ≤ bound ∧ event.Descends start (bound - above.length) := by
  induction h generalizing start bound with
  | here h => exact ⟨Nat.zero_le _, hdescends _ h⟩
  | inside h _ ih =>
    cases hdescends _ h with
    | called hstart hneed hstop inner =>
      obtain ⟨hlength, hinner⟩ := ih inner
      rw [List.length_cons]
      exact ⟨by omega, (hinner.mono hstart).le (by omega)⟩

/-! ## Whole programs -/

/-- A budget that suffices for the statements of a list of tokens. -/
def leastBudget (tokens : List Token) : Nat := 8 * tokens.length + 4

/-- The budget of the parser suffices. -/
theorem leastBudget_le_parseBudget (tokens : List Token) :
    leastBudget tokens ≤ parseBudget tokens := by
  unfold leastBudget parseBudget
  omega

variable {tokens : List Token} {budget : Nat}

/-- A program is read alike within every budget that suffices, with needs that fall. -/
theorem agrees_program {token : Token} {rest : List Token} (h : Ended (token :: rest))
    (hbudget : leastBudget (token :: rest) ≤ budget) :
    Traced.Agrees (leastBudget (token :: rest) + 1)
      (Traced.statements (leastBudget (token :: rest)) false) (Traced.statements budget false)
      ⟨token, rest, []⟩ :=
  have hends : ParseState.Ends ⟨token, rest, []⟩ := h
  Traced.agrees_statements hends (Nat.le_refl _) hbudget false

/-- Every budget that suffices gives the same account. -/
theorem accountWithin_eq (h : Ended tokens) (hbudget : leastBudget tokens ≤ budget) :
    accountWithin budget tokens = accountWithin (leastBudget tokens) tokens := by
  obtain ⟨token, rest, rfl⟩ := h.exists_cons
  exact (agrees_program h hbudget).eq.symm

/-- Needs fall in the account of a program. -/
theorem descends_accountWithin {token : Token} {rest : List Token} (h : Ended (token :: rest))
    (hbudget : leastBudget (token :: rest) ≤ budget) {event : ParseEvent}
    (hevent : event ∈ (accountWithin budget (token :: rest)).events) :
    event.Descends ⟨token, rest, []⟩ (leastBudget (token :: rest) + 1) := by
  rw [accountWithin_eq h hbudget] at hevent
  exact (agrees_program h (Nat.le_refl _)).descends event hevent

/-- No budget that suffices is spent. -/
theorem not_happens_exhausted (h : Ended tokens) (hbudget : leastBudget tokens ≤ budget)
    {above : List Call} : ¬ Happens .exhausted above (accountWithin budget tokens).events := by
  obtain ⟨token, rest, rfl⟩ := h.exists_cons
  intro happens
  cases (happens.descends fun _ => descends_accountWithin h hbudget).2

/-- Every call starts and stops somewhere in the tokens. -/
theorem mem_tokens_of_happens (h : Ended tokens) (hbudget : leastBudget tokens ≤ budget)
    {above : List Call} {call : Call}
    (happens : Happens (.called call) above (accountWithin budget tokens).events) :
    call.start.current ∈ tokens ∧ call.stop.current ∈ tokens := by
  obtain ⟨token, rest, rfl⟩ := h.exists_cons
  cases (happens.descends fun _ => descends_accountWithin h hbudget).2 with
  | called hstart hneed hstop inner =>
    exact ⟨hstart.subset List.mem_cons_self, (hstop.trans hstart).subset List.mem_cons_self⟩

/-- So the statements of a program have a result, whatever the tokens are. -/
theorem exists_result_accountWithin (h : Ended tokens) (hbudget : leastBudget tokens ≤ budget) :
    ∃ result, (accountWithin budget tokens).result = some result := by
  obtain ⟨token, rest, rfl⟩ := h.exists_cons
  have hends : ParseState.Ends ⟨token, rest, []⟩ := h
  exact Traced.exists_result_statements hends hbudget false

end Scriptlet
