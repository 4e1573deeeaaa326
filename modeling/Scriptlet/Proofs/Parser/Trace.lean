import Scriptlet.Proofs.Parser.Account
import Scriptlet.Proofs.Parser.Advance
import Scriptlet.Proofs.Parser.Appends

set_option autoImplicit false

/-!
# The parser gives an account of itself

Component: the parser.  Specification: sections 4.2 and 10.3, whose productions are written here a
second time, with an account of what each of them does.

A *traced* step does what a step of the parser does and gives an account of it besides.  The
productions are written once more as traced steps, word for word; what is added is that each of
them is a call, which says so when its budget is spent.

Forgetting the account gives the parser back (`parseTokens_eq`), and every call in it is one that
the parser makes (`truthful_of_happens`).  So what is shown of accounts is shown of the parser.

An account is needed because the diagnostics of a parse are one list, in which it is lost whose
error each of them is.  Section 10.3 says that a production that fails is dropped and makes its
statement absent; to say so of every statement one has to say which calls failed inside of it.

The two versions of the productions are kept together by a class (`Retraces`).  It says four things
of a traced step and the step it stands for: they have the same outcome, they go forward, the
account lists the errors that are recorded, in order, and each call in it is one of the parser's
own.  There is an instance for each way to make a step of others, so that most productions are
retraced by unfolding both sides.
-/

namespace Scriptlet

/-- An outcome and an account of how it came about. -/
structure Run (α : Type) where
  result : Option α
  stop : ParseState
  events : List ParseEvent

/-- A step of the parser that gives an account of itself. -/
def Traced (α : Type) : Type := ParseState → Run α

namespace Traced

instance : Monad Traced where
  pure result := fun state => ⟨some result, state, []⟩
  bind step next := fun state =>
    match step state with
    | ⟨none, stop, events⟩ => ⟨none, stop, events⟩
    | ⟨some result, middle, events⟩ =>
      let run := next result middle
      ⟨run.result, run.stop, events ++ run.events⟩

/-- A step that calls no production.  Its account is the errors that it records. -/
def ofStep {α : Type} (step : Parse α) : Traced α := fun state =>
  let (result, stop) := step.outcome state
  ⟨result, stop, (stop.errors.drop state.errors.length).map .recorded⟩

instance : MonadLift Parse Traced := ⟨ofStep⟩

/-- The end of a production that has no budget left. -/
def exhausted {α : Type} : Traced α := fun state => ⟨none, state, [.exhausted]⟩

/-- Runs a step, and goes on also if it fails. -/
def attempt {α : Type} (step : Traced α) : Traced (Option α) := fun state =>
  let run := step state
  ⟨some run.result, run.stop, run.events⟩

/-- Runs a step as the body of a production. -/
def call (production : Production) (step : Traced production.Tree) : Traced production.Tree :=
  fun state =>
    let run := step state
    ⟨run.result, run.stop, [.called ⟨production, state, run.stop, run.result, run.events⟩]⟩

/-! ## The productions -/

open Parse (current peekKind advance fault expect skipSemicolon require spanFrom)

/-- `Parse.moreParameters`, traced. -/
def moreParameters : Nat → Traced (List Name)
  | 0 => call .moreParameters exhausted
  | budget + 1 => call .moreParameters do
    expect .identifier
    let name : Name := ⟨← current⟩
    if (← peekKind) = .comma then
      advance
      return name :: (← moreParameters budget)
    else
      expect .rightParen
      return [name]

/-- `Parse.parameters`, traced. -/
def parameters (budget : Nat) : Traced (List Name) := call .parameters do
  if (← peekKind) = .rightParen then
    advance
    return []
  else
    moreParameters budget

mutual

/-- `Parse.expression`, traced. -/
def expression : Nat → Precedence → Traced Expression
  | 0, _ => call .expression exhausted
  | budget + 1, floor => call .expression do
    let left ← operand budget
    extended budget floor left

/-- `Parse.extended`, traced. -/
def extended : Nat → Precedence → Expression → Traced Expression
  | 0, _, _ => call .extended exhausted
  | budget + 1, floor, left => call .extended do
    match (← peekKind).continuation? with
    | none => return left
    | some continuation =>
      if floor.rank < continuation.precedence.rank then
        advance
        let longer ← continued budget continuation left
        extended budget floor longer
      else
        return left

/-- `Parse.continued`, traced. -/
def continued : Nat → Continuation → Expression → Traced Expression
  | 0, _, _ => call .continued exhausted
  | budget + 1, .binary operator, left => call .continued do
    let token ← current
    advance
    let right ← expression budget operator.precedence
    return .binary token left operator right
  | budget + 1, .call, left => call .continued do
    let token ← current
    let arguments ← expressions budget .rightParen
    return .call token left arguments
  | budget + 1, .index, left => call .continued do
    let token ← current
    advance
    let position ← attempt (expression budget .lowest)
    expect .rightBracket
    return .index token left (← require position)

/-- `Parse.operand`, traced. -/
def operand : Nat → Traced Expression
  | 0 => call .operand exhausted
  | budget + 1 => call .operand do
    let token ← current
    match token.kind with
    | .identifier => return .identifier ⟨token⟩
    | .integer =>
      match integerLiteral? token.literal with
      | some value => return .integer token value
      | none => fault token (.integerRange token.literal)
    | .string => return .string token
    | .trueWord => return .boolean token true
    | .falseWord => return .boolean token false
    | .bang =>
      advance
      return .unary token .not (← expression budget .unary)
    | .minus =>
      advance
      return .unary token .negate (← expression budget .unary)
    | .leftParen =>
      advance
      let inner ← attempt (expression budget .lowest)
      expect .rightParen
      require inner
    | .ifWord =>
      expect .leftParen
      advance
      let condition ← attempt (expression budget .lowest)
      expect .rightParen
      expect .leftBrace
      let consequence ← block budget
      let alternative ← alternative budget
      return .conditional token (← require condition) consequence alternative
    | .functionWord =>
      expect .leftParen
      let parameters ← attempt (parameters budget)
      expect .leftBrace
      let body ← block budget
      return .function ⟨token, ← require parameters, body⟩
    | .leftBracket => return .array token (← expressions budget .rightBracket)
    | .leftBrace => return .hash token (← pairs budget)
    | kind => fault token (.noOperand kind)

/-- `Parse.alternative`, traced. -/
def alternative : Nat → Traced (Option Block)
  | 0 => call .alternative exhausted
  | budget + 1 => call .alternative do
    if (← peekKind) = .elseWord then
      advance
      expect .leftBrace
      return some (← block budget)
    else
      return none

/-- `Parse.expressions`, traced. -/
def expressions : Nat → TokenKind → Traced (List Expression)
  | 0, _ => call .expressions exhausted
  | budget + 1, close => call .expressions do
    advance
    if (← current).kind = close then return []
    else moreExpressions budget close

/-- `Parse.moreExpressions`, traced. -/
def moreExpressions : Nat → TokenKind → Traced (List Expression)
  | 0, _ => call .moreExpressions exhausted
  | budget + 1, close => call .moreExpressions do
    let first ← attempt (expression budget .lowest)
    if (← peekKind) = .comma then
      advance
      advance
      let rest ← moreExpressions budget close
      return (← require first) :: rest
    else
      expect close
      return [← require first]

/-- `Parse.pairs`, traced. -/
def pairs : Nat → Traced (List Pair)
  | 0 => call .pairs exhausted
  | budget + 1 => call .pairs do
    advance
    if (← current).kind = .rightBrace then return []
    else
      let key ← attempt (expression budget .lowest)
      expect .colon
      advance
      let value ← attempt (expression budget .lowest)
      if (← peekKind) ≠ .rightBrace then expect .comma
      let rest ← pairs budget
      return ⟨← require key, ← require value⟩ :: rest

/-- `Parse.block`, traced. -/
def block : Nat → Traced Block
  | 0 => call .block exhausted
  | budget + 1 => call .block do
    let token ← current
    advance
    let statements ← statements budget true
    return ⟨token, statements, ← spanFrom token⟩

/-- `Parse.statements`, traced. -/
def statements : Nat → Bool → Traced (List Statement)
  | 0, _ => call .statements exhausted
  | budget + 1, inBlock => call .statements do
    let kind := (← current).kind
    if kind = .eof ∨ (inBlock ∧ kind = .rightBrace) then return []
    else
      let first ← attempt (statement budget)
      advance
      let rest ← statements budget inBlock
      return first.toList ++ rest

/-- `Parse.statement`, traced. -/
def statement : Nat → Traced Statement
  | 0 => call .statement exhausted
  | budget + 1 => call .statement do
    let token ← current
    match token.kind with
    | .letWord =>
      expect .identifier
      let name : Name := ⟨← current⟩
      expect .assign
      advance
      let value ← attempt (expression budget .lowest)
      skipSemicolon
      let span ← spanFrom token
      return .binding token name (← require value) span
    | .returnWord =>
      advance
      let value ← attempt (expression budget .lowest)
      skipSemicolon
      let span ← spanFrom token
      return .returning token (← require value) span
    | _ =>
      let value ← attempt (expression budget .lowest)
      skipSemicolon
      let span ← spanFrom token
      return .expression token (← require value) span

end

variable {α β : Type}

/-- After a step with a result the next one goes on, and the accounts are joined. -/
theorem bind_of_some {traced : Traced α} {state middle : ParseState} {result : α}
    {events : List ParseEvent} (next : α → Traced β)
    (h : traced state = ⟨some result, middle, events⟩) :
    (traced >>= next) state = ⟨(next result middle).result, (next result middle).stop,
      events ++ (next result middle).events⟩ := by
  change (match traced state with
    | ⟨none, stop, events⟩ => (⟨none, stop, events⟩ : Run β)
    | ⟨some result, middle, events⟩ => ⟨_, _, _⟩) = _
  rw [h]

/-- After a step without a result nothing follows. -/
theorem bind_of_none {traced : Traced α} {state middle : ParseState} {events : List ParseEvent}
    (next : α → Traced β) (h : traced state = ⟨none, middle, events⟩) :
    (traced >>= next) state = ⟨none, middle, events⟩ := by
  change (match traced state with
    | ⟨none, stop, events⟩ => (⟨none, stop, events⟩ : Run β)
    | ⟨some result, middle, events⟩ => ⟨_, _, _⟩) = _
  rw [h]

/-- A step that calls no production gives an account of the errors that it records. -/
theorem run_ofStep {step : Parse α} {state stop : ParseState} {result : Option α}
    (more : List SyntaxError) (h : step.outcome state = (result, stop))
    (herrors : stop.errors = state.errors ++ more) :
    (liftM step : Traced α) state = ⟨result, stop, more.map .recorded⟩ := by
  change Run.mk (step.outcome state).1 (step.outcome state).2
    (List.map .recorded (List.drop _ (step.outcome state).2.errors)) = _
  rw [h]
  dsimp only
  rw [herrors, List.drop_left]

theorem result_call (production : Production) (traced : Traced production.Tree)
    (state : ParseState) : (call production traced state).result = (traced state).result := rfl

theorem stop_call (production : Production) (traced : Traced production.Tree)
    (state : ParseState) : (call production traced state).stop = (traced state).stop := rfl

/-! ## Running the smallest steps -/

/-- A step that yields a result and records no error does not show in the account. -/
theorem bind_of_yields {step : Parse α} {state middle : ParseState} {result : α}
    (next : α → Traced β) (h : step.Yields state result middle)
    (herrors : middle.errors = state.errors) :
    ((liftM step : Traced α) >>= next) state = next result middle := by
  exact bind_of_some next (run_ofStep [] h (herrors.trans (List.append_nil _).symm))

theorem run_current (next : Token → Traced β) (state : ParseState) :
    ((liftM current : Traced Token) >>= next) state = next state.current state :=
  bind_of_yields next (Parse.yields_current state) rfl

theorem run_peekKind (next : TokenKind → Traced β) (state : ParseState) :
    ((liftM peekKind : Traced TokenKind) >>= next) state = next state.peek.kind state :=
  bind_of_yields next (Parse.yields_peekKind state) rfl

theorem run_advance (next : Unit → Traced β) (state : ParseState) :
    ((liftM advance : Traced Unit) >>= next) state = next () state.advance :=
  bind_of_yields next (Parse.yields_advance state) state.errors_advance

theorem run_spanFrom (first : Token) (next : Span → Traced β) (state : ParseState) :
    ((liftM (spanFrom first) : Traced Span) >>= next) state =
      next (first.span.cover state.current.span) state :=
  bind_of_yields next (Parse.yields_spanFrom first state) rfl

theorem run_required (result : Option α) (state : ParseState) :
    (liftM (require result) : Traced α) state = ⟨result, state, []⟩ :=
  run_ofStep [] rfl (List.append_nil state.errors).symm

theorem run_require (value : α) (next : α → Traced β) (state : ParseState) :
    ((liftM (require (some value)) : Traced α) >>= next) state = next value state :=
  bind_of_yields next (Parse.yields_require value state) rfl

/-- A part that is required and missing ends the production, without an error of its own. -/
theorem run_require_none (next : α → Traced β) (state : ParseState) :
    ((liftM (require none) : Traced α) >>= next) state = ⟨none, state, []⟩ :=
  bind_of_none next (run_required none state)

theorem run_skipSemicolon (next : Unit → Traced β) (state : ParseState) :
    ((liftM skipSemicolon : Traced Unit) >>= next) state =
      next () (if state.peek.kind = .semicolon then state.advance else state) := by
  refine bind_of_yields next (Parse.outcome_skipSemicolon state) ?_
  split
  · exact state.errors_advance
  · rfl

/-- A token of the wanted kind is read, which is not told in an account. -/
theorem run_expect {wanted : TokenKind} {state : ParseState} (next : Unit → Traced β)
    (h : state.peek.kind = wanted) :
    ((liftM (expect wanted) : Traced Unit) >>= next) state = next () state.advance :=
  bind_of_yields next (Parse.yields_expect h) state.errors_advance

/-- A fault is recorded at its token, and ends the step. -/
theorem run_fault (token : Token) (reason : SyntaxFault) (state : ParseState) :
    (liftM (fault token reason : Parse α) : Traced α) state =
      ⟨none, state.record ⟨token.span, reason⟩, [.recorded ⟨token.span, reason⟩]⟩ :=
  run_ofStep [⟨token.span, reason⟩] rfl rfl

/-- Another token is recorded as an error. -/
theorem run_expect_of_ne {wanted : TokenKind} {state : ParseState} (next : Unit → Traced β)
    (h : state.peek.kind ≠ wanted) :
    ((liftM (expect wanted) : Traced Unit) >>= next) state =
      ⟨none, state.record ⟨state.peek.span, .expected wanted state.peek.kind⟩,
        [.recorded ⟨state.peek.span, .expected wanted state.peek.kind⟩]⟩ := by
  have houtcome := Parse.outcome_expect wanted state
  rw [if_neg h] at houtcome
  exact bind_of_none next (run_ofStep [_] houtcome rfl)

/-! ## Forgetting the account -/

/-- Whether a traced step does what a step of the parser does, goes forward only, and gives a true
account of the errors that it records and of the calls that it makes. -/
class Retraces (traced : Traced α) (step : Parse α) : Prop where
  outcome_eq : ∀ state, step.outcome state = ((traced state).result, (traced state).stop)
  follows : ∀ state, (traced state).stop.Follows state
  errors_eq : ∀ state, (traced state).stop.errors = state.errors ++ errorsIn (traced state).events
  truthful : ∀ state above call,
    Happens (.called call) above (traced state).events → call.Truthful

instance retraces_ofStep (step : Parse α) [h : Parse.Forward step] [Parse.Appends step] :
    Retraces (liftM step : Traced α) step where
  outcome_eq _ := rfl
  follows := h.follows
  errors_eq := by
    intro state
    obtain ⟨more, hmore⟩ := Parse.errors_outcome step state
    rw [run_ofStep more (Prod.eta (step.outcome state)).symm hmore, errorsIn_recorded]
    exact hmore
  truthful _ _ _ h := absurd h not_happens_called_map_recorded

instance retraces_pure (result : α) : Retraces (pure result : Traced α) (pure result) where
  outcome_eq _ := rfl
  follows := .refl
  errors_eq _ := (List.append_nil _).symm
  truthful _ _ _ h := absurd h Happens.nil

instance retraces_exhausted : Retraces (exhausted : Traced α) failure where
  outcome_eq _ := rfl
  follows := .refl
  errors_eq _ := (List.append_nil _).symm
  truthful := by
    intro state above call h
    cases h with
    | here h => cases List.mem_singleton.mp h
    | inside h => cases List.mem_singleton.mp h

/-- Steps that are put together are retraced if each of them is. -/
instance retraces_bind (traced : Traced α) (step : Parse α) (next : α → Traced β)
    (next' : α → Parse β) [h : Retraces traced step]
    [hnext : ∀ result, Retraces (next result) (next' result)] :
    Retraces (traced >>= next) (step >>= next') where
  outcome_eq := by
    intro state
    rw [Parse.outcome_bind, h.outcome_eq]
    cases hrun : traced state with
    | mk result middle events =>
      cases result with
      | none => rw [bind_of_none next hrun]
      | some result =>
        rw [bind_of_some next hrun]
        exact (hnext result).outcome_eq middle
  follows := by
    intro state
    have hfollows := h.follows state
    cases hrun : traced state with
    | mk result middle events =>
      rw [hrun] at hfollows
      cases result with
      | none => rwa [bind_of_none next hrun]
      | some result =>
        rw [bind_of_some next hrun]
        exact ((hnext result).follows middle).trans hfollows
  errors_eq := by
    intro state
    have herrors := h.errors_eq state
    cases hrun : traced state with
    | mk result middle events =>
      rw [hrun] at herrors
      cases result with
      | none => rwa [bind_of_none next hrun]
      | some result =>
        rw [bind_of_some next hrun]
        have hmore := (hnext result).errors_eq middle
        rw [hmore, herrors, errorsIn_append, List.append_assoc]
  truthful := by
    intro state above call happens
    have htruthful := h.truthful state above call
    cases hrun : traced state with
    | mk result middle events =>
      rw [hrun] at htruthful
      cases result with
      | none =>
        rw [bind_of_none next hrun] at happens
        exact htruthful happens
      | some result =>
        rw [bind_of_some next hrun] at happens
        obtain happens | happens := Happens.append.mp happens
        · exact htruthful happens
        · exact (hnext result).truthful middle above call happens

instance retraces_ite (condition : Prop) [Decidable condition] (traced other : Traced α)
    (step step' : Parse α) [Retraces traced step] [Retraces other step'] :
    Retraces (if condition then traced else other) (if condition then step else step') := by
  split <;> infer_instance

instance retraces_attempt (traced : Traced α) (step : Parse α) [h : Retraces traced step] :
    Retraces (attempt traced) (Parse.attempt step) where
  outcome_eq := by
    intro state
    rw [Parse.outcome_attempt, h.outcome_eq]
    rfl
  follows := h.follows
  errors_eq := h.errors_eq
  truthful := h.truthful

/-- A call is retraced if its body is, and if the body is the production that it names. -/
theorem retraces_call {production : Production} {traced : Traced production.Tree}
    {step : Parse production.Tree} (hperforms : production.Performs step)
    (h : Retraces traced step) : Retraces (call production traced) step where
  outcome_eq := h.outcome_eq
  follows := h.follows
  errors_eq := by
    intro state
    have herrors := h.errors_eq state
    rwa [← errorsIn_called ⟨production, state, _, _, _⟩] at herrors
  truthful := by
    intro state above call happens
    obtain ⟨hcall, -⟩ | ⟨others, -, happens⟩ := Happens.called.mp happens
    · cases hcall
      exact ⟨step, hperforms, h.outcome_eq state, h.errors_eq state⟩
    · exact h.truthful state others call happens

theorem retraces_moreParameters (budget : Nat) :
    Retraces (moreParameters budget) (Parse.moreParameters budget) := by
  induction budget with
  | zero => exact retraces_call (.moreParameters 0) retraces_exhausted
  | succ budget ih =>
    unfold moreParameters
    refine retraces_call (.moreParameters _) ?_
    unfold Parse.moreParameters
    infer_instance

instance (budget : Nat) : Retraces (moreParameters budget) (Parse.moreParameters budget) :=
  retraces_moreParameters budget

instance (budget : Nat) : Retraces (parameters budget) (Parse.parameters budget) := by
  unfold parameters
  refine retraces_call (.parameters budget) ?_
  unfold Parse.parameters
  infer_instance

/-- That all productions are retraced, within a budget. -/
structure AllRetrace (budget : Nat) : Prop where
  expression : ∀ floor, Retraces (expression budget floor) (Parse.expression budget floor)
  extended : ∀ floor left,
    Retraces (extended budget floor left) (Parse.extended budget floor left)
  continued : ∀ continuation left,
    Retraces (continued budget continuation left) (Parse.continued budget continuation left)
  operand : Retraces (operand budget) (Parse.operand budget)
  alternative : Retraces (alternative budget) (Parse.alternative budget)
  expressions : ∀ close, Retraces (expressions budget close) (Parse.expressions budget close)
  moreExpressions : ∀ close,
    Retraces (moreExpressions budget close) (Parse.moreExpressions budget close)
  pairs : Retraces (pairs budget) (Parse.pairs budget)
  block : Retraces (block budget) (Parse.block budget)
  statements : ∀ inBlock, Retraces (statements budget inBlock) (Parse.statements budget inBlock)
  statement : Retraces (statement budget) (Parse.statement budget)

-- an instance for a production is a tree as large as the production
set_option synthInstance.maxSize 4096 in
/-- By induction on the budget: each production with one more unit calls others with what is left.
-/
theorem allRetrace (budget : Nat) : AllRetrace budget := by
  induction budget with
  -- without budget every function notes its call, and ends
  | zero =>
    exact {
      expression := fun floor => retraces_call (.expression 0 floor) retraces_exhausted
      extended := fun floor left => retraces_call (.extended 0 floor left) retraces_exhausted
      continued := fun continuation left =>
        retraces_call (.continued 0 continuation left) retraces_exhausted
      operand := retraces_call (.operand 0) retraces_exhausted
      alternative := retraces_call (.alternative 0) retraces_exhausted
      expressions := fun close => retraces_call (.expressions 0 close) retraces_exhausted
      moreExpressions := fun close => retraces_call (.moreExpressions 0 close) retraces_exhausted
      pairs := retraces_call (.pairs 0) retraces_exhausted
      block := retraces_call (.block 0) retraces_exhausted
      statements := fun inBlock => retraces_call (.statements 0 inBlock) retraces_exhausted
      statement := retraces_call (.statement 0) retraces_exhausted }
  | succ budget ih =>
    obtain ⟨_, _, _, _, _, _, _, _, _, _, _⟩ := ih
    -- the hypotheses are instances, and are found where a function calls the others
    constructor
    case expression =>
      intro floor
      unfold expression
      refine retraces_call (.expression _ _) ?_
      unfold Parse.expression
      infer_instance
    case extended =>
      intro floor left
      unfold extended
      refine retraces_call (.extended _ _ _) ?_
      unfold Parse.extended
      refine @retraces_bind _ _ _ _ _ _ inferInstance ?_
      intro kind
      cases kind.continuation? <;> infer_instance
    case continued =>
      intro continuation left
      cases continuation
      all_goals
        rw [continued]
        refine retraces_call (.continued _ _ left) ?_
        rw [Parse.continued]
        infer_instance
    case operand =>
      unfold operand
      refine retraces_call (.operand _) ?_
      unfold Parse.operand
      refine @retraces_bind _ _ _ _ _ _ inferInstance ?_
      intro token
      cases token.kind
      case integer =>
        dsimp only
        cases integerLiteral? token.literal <;> infer_instance
      all_goals infer_instance
    case alternative =>
      unfold alternative
      refine retraces_call (.alternative _) ?_
      unfold Parse.alternative
      infer_instance
    case expressions =>
      intro close
      unfold expressions
      refine retraces_call (.expressions _ _) ?_
      unfold Parse.expressions
      infer_instance
    case moreExpressions =>
      intro close
      unfold moreExpressions
      refine retraces_call (.moreExpressions _ _) ?_
      unfold Parse.moreExpressions
      infer_instance
    case pairs =>
      unfold pairs
      refine retraces_call (.pairs _) ?_
      unfold Parse.pairs
      dsimp only
      infer_instance
    case block =>
      unfold block
      refine retraces_call (.block _) ?_
      unfold Parse.block
      infer_instance
    case statements =>
      intro inBlock
      unfold statements
      refine retraces_call (.statements _ _) ?_
      unfold Parse.statements
      infer_instance
    case statement =>
      unfold statement
      refine retraces_call (.statement _) ?_
      unfold Parse.statement
      refine @retraces_bind _ _ _ _ _ _ inferInstance ?_
      intro token
      cases token.kind <;> infer_instance

/-- In particular those that a program is made of. -/
theorem retraces_statements (budget : Nat) (inBlock : Bool) :
    Retraces (statements budget inBlock) (Parse.statements budget inBlock) :=
  (allRetrace budget).statements inBlock

end Traced

/-! ## Whole programs -/

/-- What happens in the parse of a list of tokens within a budget. -/
def accountWithin (budget : Nat) : List Token → Run (List Statement)
  | [] => ⟨some [], default, []⟩
  | token :: rest => Traced.statements budget false ⟨token, rest, []⟩

/-- What happens in the parse of a text. -/
def account (text : String) : Run (List Statement) :=
  accountWithin (parseBudget (tokenize text)) (tokenize text)

/-- A parse yields what its account ends with, and the errors that are recorded in it. -/
theorem parseTokens_eq (tokens : List Token) :
    parseTokens tokens =
      ⟨⟨(accountWithin (parseBudget tokens) tokens).result.getD []⟩,
        errorsIn (accountWithin (parseBudget tokens) tokens).events⟩ := by
  cases tokens with
  | nil => rfl
  | cons token rest =>
    have hretraces := Traced.retraces_statements (parseBudget (token :: rest)) false
    have herrors := hretraces.errors_eq ⟨token, rest, []⟩
    have houtcome : (Parse.statements _ false).run.run _ = _ :=
      hretraces.outcome_eq ⟨token, rest, []⟩
    rw [parseTokens, houtcome]
    exact congrArg (Parsed.mk _) herrors

/-- The same for a text. -/
theorem parse_eq (text : String) :
    parse text = ⟨⟨(account text).result.getD []⟩, errorsIn (account text).events⟩ :=
  parseTokens_eq (tokenize text)

/-- Within every budget, the statements of a program are read as its account says. -/
theorem outcome_statements_eq (budget : Nat) (token : Token) (rest : List Token) :
    (Parse.statements budget false).outcome ⟨token, rest, []⟩ =
      ((accountWithin budget (token :: rest)).result,
        (accountWithin budget (token :: rest)).stop) :=
  (Traced.retraces_statements budget false).outcome_eq ⟨token, rest, []⟩

/-- Every call in the account of a parse is one that the parser makes. -/
theorem truthful_of_happens {budget : Nat} {tokens : List Token} {above : List Call} {call : Call}
    (h : Happens (.called call) above (accountWithin budget tokens).events) : call.Truthful := by
  cases tokens with
  | nil => exact absurd h Happens.nil
  | cons token rest => exact (Traced.retraces_statements budget false).truthful _ above call h

end Scriptlet
