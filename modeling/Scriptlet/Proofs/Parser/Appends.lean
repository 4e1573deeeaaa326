import Scriptlet.Proofs.Parser.Run

set_option autoImplicit false

/-!
# Recorded errors stay

Component: the parser.  Specification: sections 4.2 and 7: diagnostics are appended to a list and
nothing is thrown.

No step of the parser removes an error or changes one that is recorded: it can only append.  So
whatever is done behind the first error, that one stays the first.

`Appends` is a class, so that it is found for a step from its parts.

The instances follow the way steps are made: one for each of the smallest, one for putting two
together, one for a decision, one for an attempt.  The productions call each other, so for them the
statement is made for all at once and within a budget (`AllAppend`), by induction on it.
-/

namespace Scriptlet

namespace Parse

/-- Whether a step leaves the errors that are recorded as they are. -/
class Appends {α : Type} (step : Parse α) : Prop where
  appends : ∀ state, ∃ more, (step.outcome state).2.errors = state.errors ++ more

variable {α β : Type}

/-- What is recorded afterwards begins with what was recorded before. -/
theorem errors_outcome (step : Parse α) [Appends step] (state : ParseState) :
    ∃ more, (step.outcome state).2.errors = state.errors ++ more :=
  Appends.appends state

/-! ## The smallest steps -/

/-- A step that records nothing. -/
theorem appends_of_errors {step : Parse α}
    (h : ∀ state, (step.outcome state).2.errors = state.errors) : Appends step :=
  ⟨fun state => ⟨[], by rw [h, List.append_nil]⟩⟩

instance appends_bind (step : Parse α) (next : α → Parse β) [Appends step]
    [∀ result, Appends (next result)] :
    Appends (step >>= next) where
  appends := by
    intro state
    obtain ⟨more, hmore⟩ := errors_outcome step state
    rw [outcome_bind]
    generalize step.outcome state = result at hmore
    obtain ⟨result, middle⟩ := result
    cases result with
    | none => exact ⟨more, hmore⟩
    | some result =>
      obtain ⟨others, hothers⟩ := errors_outcome (next result) middle
      exact ⟨more ++ others, by rw [hothers, hmore, List.append_assoc]⟩

instance (condition : Prop) [Decidable condition] (first second : Parse α) [Appends first]
    [Appends second] : Appends (if condition then first else second) := by
  split <;> infer_instance

instance (result : α) : Appends (pure result : Parse α) := appends_of_errors fun _ => rfl

instance : Appends (failure : Parse α) := appends_of_errors fun _ => rfl

instance : Appends current := appends_of_errors fun _ => rfl

instance : Appends peekKind := appends_of_errors fun _ => rfl

instance (result : Option α) : Appends (require result) := appends_of_errors fun _ => rfl

instance : Appends advance := appends_of_errors ParseState.errors_advance

instance (token : Token) (reason : SyntaxFault) : Appends (fault token reason : Parse α) where
  appends _ := ⟨[⟨token.span, reason⟩], rfl⟩

instance (wanted : TokenKind) : Appends (expect wanted) where
  appends := by
    intro state
    rw [outcome_expect]
    split
    · exact errors_outcome advance state
    · exact ⟨_, rfl⟩

instance (step : Parse α) [Appends step] : Appends (attempt step) where
  appends := by
    intro state
    rw [outcome_attempt]
    exact errors_outcome step state

instance : Appends skipSemicolon := inferInstanceAs (Appends (peekKind >>= fun _ => _))

instance (first : Token) : Appends (spanFrom first) := appends_of_errors fun _ => rfl

/-! ## The productions -/

/-- The parameters of a function call nothing but themselves. -/
theorem appends_moreParameters (budget : Nat) : Appends (moreParameters budget) := by
  induction budget with
  | zero =>
    unfold moreParameters
    infer_instance
  | succ budget ih =>
    unfold moreParameters
    infer_instance

instance (budget : Nat) : Appends (moreParameters budget) := appends_moreParameters budget

instance (budget : Nat) : Appends (parameters budget) :=
  inferInstanceAs (Appends (peekKind >>= fun _ => _))

/-- That all productions append, within a budget. -/
structure AllAppend (budget : Nat) : Prop where
  expression : ∀ floor, Appends (expression budget floor)
  extended : ∀ floor left, Appends (extended budget floor left)
  continued : ∀ continuation left, Appends (continued budget continuation left)
  operand : Appends (operand budget)
  alternative : Appends (alternative budget)
  expressions : ∀ close, Appends (expressions budget close)
  moreExpressions : ∀ close, Appends (moreExpressions budget close)
  pairs : Appends (pairs budget)
  block : Appends (block budget)
  statements : ∀ inBlock, Appends (statements budget inBlock)
  statement : Appends (statement budget)

-- an instance for a production is a tree as large as the production
set_option synthInstance.maxSize 2048 in
/-- By induction on the budget; each production is made of steps that append. -/
theorem allAppend (budget : Nat) : AllAppend budget := by
  induction budget with
  | zero =>
    constructor
    all_goals
      intros
      simp only [expression, extended, continued, operand, alternative, expressions,
        moreExpressions, pairs, block, statements, statement]
      infer_instance
  | succ budget ih =>
    obtain ⟨_, _, _, _, _, _, _, _, _, _, _⟩ := ih
    -- what is put together of parts that append does so; only the cases of a token must be split
    constructor
    case expression =>
      intro floor
      unfold expression
      infer_instance
    case extended =>
      intro floor left
      unfold extended
      refine @appends_bind _ _ _ _ inferInstance ?_
      intro kind
      split <;> infer_instance
    case continued =>
      intro continuation left
      cases continuation <;> rw [continued] <;> infer_instance
    case operand =>
      unfold operand
      refine @appends_bind _ _ _ _ inferInstance ?_
      intro token
      split
      case h_2 => split <;> infer_instance
      all_goals infer_instance
    case alternative =>
      unfold alternative
      infer_instance
    case expressions =>
      intro close
      unfold expressions
      infer_instance
    case moreExpressions =>
      intro close
      unfold moreExpressions
      infer_instance
    case pairs =>
      unfold pairs
      dsimp only
      infer_instance
    case block =>
      unfold block
      infer_instance
    case statements =>
      intro inBlock
      unfold statements
      infer_instance
    case statement =>
      unfold statement
      refine @appends_bind _ _ _ _ inferInstance ?_
      intro token
      split <;> infer_instance

instance (budget : Nat) (floor : Precedence) : Appends (expression budget floor) :=
  (allAppend budget).expression floor

instance (budget : Nat) (floor : Precedence) (left : Expression) :
    Appends (extended budget floor left) := (allAppend budget).extended floor left

instance (budget : Nat) : Appends (alternative budget) := (allAppend budget).alternative

instance (budget : Nat) (close : TokenKind) : Appends (moreExpressions budget close) :=
  (allAppend budget).moreExpressions close

instance (budget : Nat) : Appends (pairs budget) := (allAppend budget).pairs

instance (budget : Nat) : Appends (block budget) := (allAppend budget).block

instance (budget : Nat) (inBlock : Bool) : Appends (statements budget inBlock) :=
  (allAppend budget).statements inBlock

end Parse

end Scriptlet
