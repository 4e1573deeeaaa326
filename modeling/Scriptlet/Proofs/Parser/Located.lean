import Scriptlet.Proofs.Parser.Advance
import Scriptlet.Proofs.Token.Tiling

set_option autoImplicit false

/-!
# Errors come in the order of the text

Component: the parser, with the diagnostics.  Specification: section 4.2 and section 10.3 for the
three texts, verbatim, section 10.2 for the span that each token carries into its diagnostics.

Each error is one of a token of the text, and says what is true of that token
(`Token.Bears`); and errors are recorded in the order of their tokens.

An error is recorded either for the current token or for the next one.  So what must be known before
a step is how far the errors reach that have been recorded (`Place`): an expression has to start
where no error reaches beyond the current token, and may leave one at the next token.  `Reports`
says this of a step; it is a class, so that it is found for a step from its parts.

`Reached` is the invariant of the state: the tokens that are left are in order, the errors that have
been recorded are in order, each is one of a token, and none starts behind an offset.  It says
nothing of the tree.

A place that is the current token, by name (`Place.token`), occurs where a production looks at that
token and then blames it: between the two the parser must not have moved.
-/

namespace Scriptlet

/-! ## What an error says -/

/-- Whether a fault is one of a token. -/
def Token.Bears (token : Token) : SyntaxFault → Prop
  | .expected wanted found => found = token.kind ∧ wanted ≠ token.kind
  | .noOperand found => found = token.kind ∧ token.kind.starts = false
  | .integerRange literal =>
    literal = token.literal ∧ token.kind = .integer ∧ maxInteger < decimalValue literal.toList

/-- Whether an error is one of a token in a list. -/
def SyntaxError.Among (tokens : List Token) (error : SyntaxError) : Prop :=
  ∃ token ∈ tokens, error.span = token.span ∧ token.Bears error.fault

/-- A number that is not read as an integer is larger than the largest one. -/
theorem lt_decimalValue_of_integerLiteral? {literal : String} (h : integerLiteral? literal = none) :
    maxInteger < decimalValue literal.toList := by
  unfold integerLiteral? at h
  dsimp only at h
  split at h
  · cases h
  next hlt => exact Nat.lt_of_not_le hlt

/-! ## How far errors reach -/

/-- How far the errors reach that have been recorded. -/
inductive Place where
  /-- to the current token, which is this one -/
  | token (token : Token)
  /-- to the current token -/
  | current
  /-- to the next token -/
  | next

/-- Whether a state stands somewhere in some tokens that are in order, with errors of them that are
in order and go no further than an offset. -/
structure ParseState.Reached (tokens : List Token) (state : ParseState) (offset : Nat) : Prop where
  subset : state.current :: state.rest ⊆ tokens
  ordered : (state.current :: state.rest).Pairwise fun token next =>
    token.span.start ≤ next.span.start
  sorted : state.errors.Pairwise fun error next => error.span.start ≤ next.span.start
  among : ∀ error ∈ state.errors, error.Among tokens
  le : ∀ error ∈ state.errors, error.span.start ≤ offset

/-- Whether errors reach no further than that in a state. -/
def Place.Holds (tokens : List Token) (state : ParseState) : Place → Prop
  | .token word => state.current = word ∧ state.Reached tokens state.current.span.start
  | .current => state.Reached tokens state.current.span.start
  | .next => state.Reached tokens state.peek.span.start

namespace ParseState

variable {tokens : List Token} {state : ParseState} {offset : Nat}

/-- An offset further on bounds the errors as well. -/
theorem Reached.mono {other : Nat} (h : state.Reached tokens offset) (hle : offset ≤ other) :
    state.Reached tokens other :=
  { h with le := fun error herror => (h.le error herror).trans hle }

/-- The token that is looked at is one of the text. -/
theorem Reached.peek_mem (h : state.Reached tokens offset) : state.peek ∈ tokens := by
  unfold peek
  cases hrest : state.rest with
  | nil => exact h.subset List.mem_cons_self
  | cons token rest => exact h.subset (by simp [hrest])

/-- It does not start before the current one. -/
theorem Reached.current_le_peek (h : state.Reached tokens offset) :
    state.current.span.start ≤ state.peek.span.start := by
  unfold peek
  have hordered := h.ordered
  cases hrest : state.rest with
  | nil => exact Nat.le_refl _
  | cons token rest =>
    rw [hrest] at hordered
    exact List.rel_of_pairwise_cons hordered List.mem_cons_self

/-- To advance keeps all of it. -/
theorem Reached.advance (h : state.Reached tokens offset) :
    state.advance.Reached tokens offset where
  subset := List.Subset.trans state.follows_advance.subset h.subset
  ordered := h.ordered.sublist state.follows_advance.sublist
  sorted := by rw [errors_advance]; exact h.sorted
  among := by rw [errors_advance]; exact h.among
  le := by rw [errors_advance]; exact h.le

/-- One more error behind all others. -/
theorem Reached.record {token : Token} {reason : SyntaxFault}
    (h : state.Reached tokens token.span.start) (hmem : token ∈ tokens)
    (hbears : token.Bears reason) :
    (state.record ⟨token.span, reason⟩).Reached tokens token.span.start where
  subset := h.subset
  ordered := h.ordered
  sorted := by
    refine List.pairwise_append.mpr ⟨h.sorted, List.pairwise_singleton _ _, ?_⟩
    intro error herror last hlast
    rw [List.mem_singleton.mp hlast]
    exact h.le error herror
  among := by
    refine List.forall_mem_append.mpr ⟨h.among, List.forall_mem_singleton.mpr ?_⟩
    exact ⟨token, hmem, rfl, hbears⟩
  le := List.forall_mem_append.mpr ⟨h.le, List.forall_mem_singleton.mpr (Nat.le_refl _)⟩

end ParseState

/-- Errors that go no further than the current token go no further than the next. -/
theorem Place.Holds.next {tokens : List Token} {state : ParseState} {place : Place}
    (h : place.Holds tokens state) : Place.next.Holds tokens state := by
  cases place with
  | token word => exact h.2.mono h.2.current_le_peek
  | current => exact ParseState.Reached.mono h (ParseState.Reached.current_le_peek h)
  | next => exact h

/-! ## Steps -/

namespace Parse

/-- Whether a step that is taken where errors reach so far leaves errors that reach no further than
the next token, and so far if it has a result. -/
class Reports {α : Type} (tokens : List Token) (before : Place) (step : Parse α)
    (behind : outParam Place) : Prop where
  reports : ∀ state, before.Holds tokens state →
    Place.next.Holds tokens (step.outcome state).2 ∧
      ∀ result, (step.outcome state).1 = some result → behind.Holds tokens (step.outcome state).2

variable {α β : Type} {tokens : List Token} {before middle behind : Place}

/-- A step that changes nothing. -/
theorem reports_of_eq {step : Parse α} (h : ∀ state, (step.outcome state).2 = state) :
    Reports tokens before step before := by
  refine ⟨fun state hbefore => ?_⟩
  rw [h]
  exact ⟨hbefore.next, fun _ _ => hbefore⟩

instance (result : α) : Reports tokens before (pure result : Parse α) before :=
  reports_of_eq fun _ => rfl

instance : Reports tokens before (failure : Parse α) before := reports_of_eq fun _ => rfl

instance : Reports tokens before current before := reports_of_eq fun _ => rfl

instance : Reports tokens before peekKind before := reports_of_eq fun _ => rfl

instance (result : Option α) : Reports tokens before (require result) before :=
  reports_of_eq fun _ => rfl

instance (first : Token) : Reports tokens before (spanFrom first) before :=
  reports_of_eq fun _ => rfl

/-- The next token becomes the current one. -/
theorem holds_advance {state : ParseState} (h : before.Holds tokens state) :
    Place.current.Holds tokens state.advance := by
  have hreached := ParseState.Reached.advance h.next
  rw [← ParseState.current_advance] at hreached
  exact hreached

instance : Reports tokens before advance .current where
  reports _ h := ⟨(holds_advance h).next, fun _ _ => holds_advance h⟩

instance : Reports tokens before skipSemicolon .next where
  reports := by
    intro state h
    rw [outcome_skipSemicolon]
    dsimp only
    split
    · exact ⟨(holds_advance h).next, fun _ _ => (holds_advance h).next⟩
    · exact ⟨h.next, fun _ _ => h.next⟩

instance (wanted : TokenKind) : Reports tokens before (expect wanted) .current where
  reports := by
    intro state h
    rw [outcome_expect]
    split
    · exact ⟨(holds_advance h).next, fun _ _ => holds_advance h⟩
    next hne =>
      have hnext : state.Reached tokens state.peek.span.start := h.next
      have hbears : state.peek.Bears (.expected wanted state.peek.kind) := ⟨rfl, Ne.symm hne⟩
      exact ⟨hnext.record hnext.peek_mem hbears, fun _ hresult => nomatch hresult⟩

/-- An error of the current token. -/
theorem reports_fault {token : Token} {reason : SyntaxFault} (hbears : token.Bears reason) :
    Reports tokens (.token token) (fault token reason : Parse α) behind where
  reports := by
    rintro state ⟨rfl, h⟩
    have hrecord := h.record (h.subset List.mem_cons_self) hbears
    have hcurrent : Place.current.Holds tokens (state.record ⟨state.current.span, reason⟩) :=
      hrecord
    exact ⟨hcurrent.next, fun _ hresult => nomatch hresult⟩

/-- Two steps, the second of which starts where the first has left the errors. -/
instance reports_bind (step : Parse α) (next : α → Parse β) [h : Reports tokens before step middle]
    [hnext : ∀ result, Reports tokens middle (next result) behind] :
    Reports tokens before (step >>= next) behind where
  reports := by
    intro state hbefore
    have hstep := h.reports state hbefore
    rw [outcome_bind]
    generalize step.outcome state = outcome at hstep
    obtain ⟨result, stop⟩ := outcome
    cases result with
    | none => exact ⟨hstep.1, fun _ hresult => nomatch hresult⟩
    | some result => exact (hnext result).reports stop (hstep.2 result rfl)

/-- The current token is known where it has been looked at. -/
theorem reports_current {next : Token → Parse β}
    (h : ∀ token, Reports tokens (.token token) (next token) behind) :
    Reports tokens .current (current >>= next) behind where
  reports := by
    intro state hbefore
    rw [outcome_bind_of_yields (yields_current state)]
    exact (h state.current).reports state ⟨rfl, hbefore⟩

/-- What reaches less far reaches no further. -/
theorem Reports.next {step : Parse α} (h : Reports tokens before step behind) :
    Reports tokens before step .next where
  reports state hbefore := by
    obtain ⟨hstop, -⟩ := h.reports state hbefore
    exact ⟨hstop, fun _ _ => hstop⟩

instance (condition : Prop) [Decidable condition] (step other : Parse α)
    [h : Reports tokens before step middle] [h' : Reports tokens before other behind] :
    Reports tokens before (if condition then step else other) .next := by
  split
  · exact h.next
  · exact h'.next

instance (step : Parse α) [h : Reports tokens before step behind] :
    Reports tokens before (attempt step) .next where
  reports state hbefore := by
    obtain ⟨hstop, -⟩ := h.reports state hbefore
    rw [outcome_attempt]
    exact ⟨hstop, fun _ _ => hstop⟩

/-! ## The productions -/

/-- Names are expected, and what stands in their place is blamed as the next token. -/
theorem reports_moreParameters (budget : Nat) (before : Place) :
    Reports tokens before (moreParameters budget) .next := by
  induction budget generalizing before with
  | zero =>
    unfold moreParameters
    exact Reports.next inferInstance
  | succ budget ih =>
    unfold moreParameters
    infer_instance

instance (budget : Nat) : Reports tokens before (moreParameters budget) .next :=
  reports_moreParameters budget before

instance (budget : Nat) : Reports tokens before (parameters budget) .next := by
  unfold parameters
  infer_instance

/-- That all productions report their errors in order, within a budget. -/
structure AllReport (tokens : List Token) (budget : Nat) : Prop where
  expression : ∀ floor, Reports tokens .current (expression budget floor) .next
  extended : ∀ before floor left, Reports tokens before (extended budget floor left) .next
  continued : ∀ before continuation left,
    Reports tokens before (continued budget continuation left) .next
  operand : Reports tokens .current (operand budget) .next
  alternative : ∀ before, Reports tokens before (alternative budget) .next
  expressions : ∀ before close, Reports tokens before (expressions budget close) .next
  moreExpressions : ∀ close, Reports tokens .current (moreExpressions budget close) .next
  pairs : ∀ before, Reports tokens before (pairs budget) .next
  block : ∀ before, Reports tokens before (block budget) .next
  statements : ∀ inBlock, Reports tokens .current (statements budget inBlock) .next
  statement : Reports tokens .current (statement budget) .next

-- an instance for a production is a tree as large as the production
set_option synthInstance.maxSize 4096 in
theorem allReport (budget : Nat) : AllReport tokens budget := by
  induction budget with
  | zero =>
    constructor
    all_goals
      intros
      simp only [expression, extended, continued, operand, alternative, expressions,
        moreExpressions, pairs, block, statements, statement]
      exact Reports.next inferInstance
  | succ budget ih =>
    obtain ⟨_, _, _, _, _, _, _, _, _, _, _⟩ := ih
    -- functions that find no fault of their own are put together of instances
    constructor
    case expression =>
      intro floor
      unfold expression
      infer_instance
    case extended =>
      intro before floor left
      unfold extended
      refine @reports_bind _ _ _ _ _ _ _ _ inferInstance ?_
      intro kind
      cases kind.continuation? <;> exact Reports.next inferInstance
    case continued =>
      intro before continuation left
      cases continuation
      all_goals
        rw [continued]
        exact Reports.next inferInstance
    -- each kind of token that begins no operand is a fault, and so is a number that is too large
    case operand =>
      unfold operand
      refine reports_current ?_
      intro token
      cases hkind : token.kind
      case integer =>
        dsimp only
        cases hvalue : integerLiteral? token.literal with
        | some value => exact Reports.next inferInstance
        | none => exact reports_fault ⟨rfl, hkind, lt_decimalValue_of_integerLiteral? hvalue⟩
      case identifier | string | trueWord | falseWord | bang | minus | leftParen | ifWord
          | functionWord | leftBracket | leftBrace =>
        exact Reports.next inferInstance
      all_goals exact reports_fault ⟨hkind.symm, hkind ▸ rfl⟩
    case alternative =>
      intro before
      unfold alternative
      infer_instance
    case expressions =>
      intro before close
      unfold expressions
      infer_instance
    case moreExpressions =>
      intro close
      unfold moreExpressions
      infer_instance
    case pairs =>
      intro before
      unfold pairs
      dsimp only
      infer_instance
    case block =>
      intro before
      unfold block
      infer_instance
    case statements =>
      intro inBlock
      unfold statements
      infer_instance
    case statement =>
      unfold statement
      refine @reports_bind _ _ _ _ _ _ _ _ inferInstance ?_
      intro token
      cases token.kind <;> exact Reports.next inferInstance

end Parse

/-! ## Whole programs -/

/-- The errors of a parse are of tokens of the text, in their order. -/
theorem reached_parseTokens {token : Token} {rest : List Token}
    (hordered : (token :: rest).Pairwise fun token next => token.span.start ≤ next.span.start) :
    ((parseTokens (token :: rest)).errors.Pairwise fun error next =>
        error.span.start ≤ next.span.start) ∧
      ∀ error ∈ (parseTokens (token :: rest)).errors, error.Among (token :: rest) := by
  let start : ParseState := ⟨token, rest, []⟩
  have hstart : start.Reached (token :: rest) token.span.start :=
    { subset := List.Subset.refl _
      ordered := hordered
      sorted := .nil
      among := List.forall_mem_nil _
      le := List.forall_mem_nil _ }
  let budget := parseBudget (token :: rest)
  have hreports : Parse.Reports (token :: rest) .current (Parse.statements budget false) .next :=
    (Parse.allReport budget).statements false
  obtain ⟨hstop, -⟩ := hreports.reports start hstart
  exact ⟨hstop.sorted, hstop.among⟩

/-- Whether a diagnostic is one of a token: it stands where the token does, and its text tells of
the token what is so. -/
def Diagnostic.Describes (diagnostic : Diagnostic) (token : Token) : Prop :=
  diagnostic.span = token.span ∧
    ((∃ wanted : TokenKind, wanted ≠ token.kind ∧ diagnostic.message =
        "expected next token to be " ++ wanted.name ++ ", got " ++ token.kind.name ++ " instead") ∨
      (token.kind.starts = false ∧ diagnostic.message =
        "no prefix parse function for " ++ token.kind.name ++ " found") ∨
      (token.kind = .integer ∧ maxInteger < decimalValue token.literal.toList ∧
        diagnostic.message = "could not parse " ++ token.literal ++ " as integer"))

theorem SyntaxError.Among.describes {tokens : List Token} {error : SyntaxError}
    (h : error.Among tokens) : ∃ token ∈ tokens, error.diagnostic.Describes token := by
  obtain ⟨token, hmem, hspan, hbears⟩ := h
  obtain ⟨span, fault⟩ := error
  refine ⟨token, hmem, hspan, ?_⟩
  cases fault with
  | expected wanted found =>
    obtain ⟨rfl, hne⟩ := hbears
    exact .inl ⟨wanted, hne, rfl⟩
  | noOperand found =>
    obtain ⟨rfl, hstarts⟩ := hbears
    exact .inr (.inl ⟨hstarts, rfl⟩)
  | integerRange literal =>
    obtain ⟨rfl, hkind, hlt⟩ := hbears
    exact .inr (.inr ⟨hkind, hlt, rfl⟩)

/-- The diagnostics of every text start in the order of the text, and each is one of a token of the
text, the end token included: it stands where the token does and names its kind or its literal.
What it says is so: another kind was expected, no expression starts with the token, or it is an
integer beyond the largest one. -/
theorem diagnostics_located (text : String) :
    (((parse text).errors.map SyntaxError.diagnostic).Pairwise fun diagnostic next =>
        diagnostic.span.start ≤ next.span.start) ∧
      ∀ diagnostic ∈ (parse text).errors.map SyntaxError.diagnostic,
        ∃ token ∈ tokenize text, diagnostic.Describes token := by
  have hordered : (tokenize text).Pairwise fun token next =>
      token.span.start ≤ next.span.start :=
    (ordered_tokenize text).imp_of_mem fun hmem _ hle => (proper_tokenize text _ hmem).trans hle
  unfold parse
  obtain ⟨token, rest, htokens⟩ := (ended_tokenize text).exists_cons
  rw [htokens] at hordered ⊢
  obtain ⟨hsorted, hamong⟩ := reached_parseTokens hordered
  refine ⟨List.pairwise_map.mpr hsorted, List.forall_mem_map.mpr fun error herror => ?_⟩
  exact (hamong error herror).describes

/-- The second binding is broken at a token that starts no expression either. -/
example : (parse "let x 5; let = 10;").errors.map SyntaxError.fault =
    [.expected .assign .integer, .expected .identifier .assign, .noOperand .assign] := by cbv

end Scriptlet
