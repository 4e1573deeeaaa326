import Scriptlet.Proofs.Parser.Dropped

set_option autoImplicit false

/-!
# Every parse comes to the end of its tokens

Component: the parser.  Specification: section 4.2, by which the parser never throws and goes on
behind a diagnostic, so that it has to be shown that it comes to an end, and section 7, by which one
pass over a text reports all of its errors.

Whatever the tokens are, a parse reads them all, within a budget that is linear in their number
(`parse_progresses`): a production that calls itself, at once or through others, has read a token
in between, and at the end token everything that must read an expression fails without going on.

Statements are tried at tokens of their own, one behind the other (`Spaces`).  So a tree has no more
statements than there are tokens.

`Progress` collects what going on means: all tokens are read, each call stops where it started or
further on, a call of a production inside of itself starts further on, and no call fails because a
budget is spent.  It is stated of every budget that suffices and not only of the one that the parser
uses, as the number there is a choice.

The number of statements is bounded through the tokens at which they are tried.  These are a sublist
of the tokens of the text (`Traced.Spaces`), and each statement of the tree has been tried at one of
them.  Two classes say how far a step has come when it tries its first statement: `Spaced` behind
the current token, `Opens` already at it.
-/

namespace Scriptlet

/-! ## Where statements are tried -/

/-- The token at which a statement is tried. -/
def ParseEvent.firsts : ParseEvent → List Token
  | .recorded _ | .exhausted => []
  | .called call => if call.isStatement then [call.start.current] else []

/-- The tokens at which statements are tried in an account, in order. -/
def firstsIn (events : List ParseEvent) : List Token :=
  gather (fun _ => true) ParseEvent.firsts events

section

variable {events others : List ParseEvent} {call : Call}

theorem firstsIn_append : firstsIn (events ++ others) = firstsIn events ++ firstsIn others :=
  gather_append events others

/-- A production that is no statement tries those inside of it. -/
theorem firstsIn_called (h : call.production ≠ .statement) :
    firstsIn [.called call] = firstsIn call.events := by
  unfold firstsIn
  rw [gather_called]
  simp [ParseEvent.firsts, Call.isStatement, h]

/-- A statement is tried at its first token, before those inside of it. -/
theorem firstsIn_called_statement (h : call.production = .statement) :
    firstsIn [.called call] = call.start.current :: firstsIn call.events := by
  unfold firstsIn
  rw [gather_called]
  simp [ParseEvent.firsts, Call.isStatement, h]

/-- No statement is tried where errors are recorded. -/
theorem firstsIn_recorded (errors : List SyntaxError) : firstsIn (errors.map .recorded) = [] := by
  induction errors with
  | nil => rfl
  | cons error errors ih => exact ih

end

namespace ParseState

variable {state start : ParseState}

/-- The tokens from the current one on, without the end token if that is current. -/
def onward (state : ParseState) : List Token :=
  if state.current.kind = .eof then state.rest else state.current :: state.rest

/-- The current token may be counted or not. -/
theorem rest_sublist_onward (state : ParseState) : state.rest.Sublist state.onward := by
  unfold onward
  split
  · exact .refl _
  · exact List.sublist_cons_self _ _

theorem Follows.rest_sublist (h : state.Follows start) : state.rest.Sublist start.rest := by
  obtain h | h := List.suffix_cons_iff.mp h
  · exact (List.cons.inj h).2 ▸ .refl _
  · exact (List.sublist_cons_self _ _).trans h.sublist

/-- Behind the current token statements can be tried from the next one on, and at the end no
more. -/
theorem Ends.onward_advance (h : state.Ends) : state.advance.onward.Sublist state.rest := by
  unfold ParseState.advance
  split
  next hrest =>
    have honward : state.onward = state.rest := if_pos (h.kind_of_rest hrest)
    exact honward ▸ .refl _
  next token rest hrest =>
    rw [hrest]
    unfold onward
    dsimp only
    split
    · exact List.sublist_cons_self _ _
    · exact .refl _

end ParseState

namespace Traced

variable {α β : Type} {budget : Nat}

/-- Whether a run goes forward and tries its statements at some tokens, before what it leaves. -/
structure Spaces (tokens : List Token) (state : ParseState) (run : Run α) : Prop where
  follows : run.stop.Follows state
  sublist : (firstsIn run.events ++ run.stop.rest).Sublist tokens

theorem Spaces.mono {tokens others : List Token} {state : ParseState} {run : Run α}
    (h : Spaces tokens state run) (hsublist : tokens.Sublist others) : Spaces others state run :=
  ⟨h.follows, h.sublist.trans hsublist⟩

/-- What is tried by one step and the next is tried at tokens that follow each other. -/
theorem Spaces.bind {tokens : List Token} {state : ParseState} {traced : Traced α}
    {next : α → Traced β} (h : Spaces tokens state (traced state))
    (hnext : ∀ result middle, middle.Follows state →
      Spaces middle.rest middle (next result middle)) :
    Spaces tokens state ((traced >>= next) state) := by
  obtain ⟨hfollows, hsublist⟩ := h
  cases hrun : traced state with
  | mk result middle events =>
    rw [hrun] at hfollows hsublist
    cases result with
    | none =>
      rw [bind_of_none next hrun]
      exact ⟨hfollows, hsublist⟩
    | some result =>
      obtain ⟨hfollows', hsublist'⟩ := hnext result middle hfollows
      rw [bind_of_some next hrun]
      refine ⟨hfollows'.trans hfollows, ?_⟩
      rw [firstsIn_append, List.append_assoc]
      exact ((List.append_sublist_append_left _).mpr hsublist').trans hsublist

/-- Whether a step tries statements only behind the current token. -/
class Spaced (traced : Traced α) : Prop where
  spaces : ∀ state, state.Ends → Spaces state.rest state (traced state)

/-- Whether a step tries statements only from the current token on. -/
class Opens (traced : Traced α) : Prop where
  spaces : ∀ state, state.Ends → Spaces state.onward state (traced state)

instance (step : Parse α) [h : Parse.Forward step] [Parse.Appends step] :
    Spaced (liftM step : Traced α) where
  spaces := by
    intro state _
    obtain ⟨more, hmore⟩ := Parse.errors_outcome step state
    have hfollows := h.follows state
    rw [run_ofStep more (Prod.eta (step.outcome state)).symm hmore]
    refine ⟨hfollows, ?_⟩
    rw [firstsIn_recorded]
    exact hfollows.rest_sublist

instance (result : α) : Spaced (pure result : Traced α) where
  spaces state _ := ⟨.refl state, .refl state.rest⟩

instance : Spaced (exhausted : Traced α) where
  spaces state _ := ⟨.refl state, .refl state.rest⟩

/-- Two steps that try nothing at the current token. -/
instance spaced_bind (traced : Traced α) (next : α → Traced β) [h : Spaced traced]
    [hnext : ∀ result, Spaced (next result)] : Spaced (traced >>= next) where
  spaces state hends := (h.spaces state hends).bind fun result middle hfollows =>
    (hnext result).spaces middle (hends.of_follows hfollows)

instance (traced : Traced α) (next : α → Traced β) [h : Opens traced]
    [hnext : ∀ result, Spaced (next result)] : Opens (traced >>= next) where
  spaces state hends := (h.spaces state hends).bind fun result middle hfollows =>
    (hnext result).spaces middle (hends.of_follows hfollows)

instance (next : Unit → Traced β) [h : Opens (next ())] :
    Spaced ((liftM Parse.advance : Traced Unit) >>= next) where
  spaces state hends := by
    rw [run_advance]
    obtain ⟨hfollows, hsublist⟩ := (h.spaces _ hends.advance).mono hends.onward_advance
    exact ⟨hfollows.trans state.follows_advance, hsublist⟩

instance (condition : Prop) [Decidable condition] (traced other : Traced α) [Spaced traced]
    [Spaced other] : Spaced (if condition then traced else other) := by
  split <;> infer_instance

instance (traced : Traced α) [h : Spaced traced] : Spaced (attempt traced) where
  spaces state hends := ⟨(h.spaces state hends).follows, (h.spaces state hends).sublist⟩

/-- What tries nothing at the current token tries nothing before it. -/
theorem opens_of_spaced {traced : Traced α} (h : Spaced traced) : Opens traced where
  spaces state hends := (h.spaces state hends).mono state.rest_sublist_onward

/-- A call of a production that is no statement tries what its body does. -/
theorem spaced_call {production : Production} {traced : Traced production.Tree}
    (hproduction : production ≠ .statement) (h : Spaced traced) :
    Spaced (call production traced) where
  spaces state hends := by
    obtain ⟨hfollows, hsublist⟩ := h.spaces state hends
    refine ⟨hfollows, ?_⟩
    unfold call
    rwa [firstsIn_called hproduction]

theorem opens_call {traced : Traced (List Statement)} (h : Opens traced) :
    Opens (call .statements traced) where
  spaces state hends := by
    obtain ⟨hfollows, hsublist⟩ := h.spaces state hends
    refine ⟨hfollows, ?_⟩
    unfold call
    rwa [firstsIn_called Production.noConfusion]

/-- A statement is tried at its first token, which is not the end. -/
theorem spaces_call_statement {traced : Traced Statement} (h : Spaced traced) {state : ParseState}
    (hends : state.Ends) (hne : state.current.kind ≠ .eof) :
    Spaces state.onward state (call .statement traced state) := by
  obtain ⟨hfollows, hsublist⟩ := h.spaces state hends
  refine ⟨hfollows, ?_⟩
  unfold call ParseState.onward
  rw [firstsIn_called_statement rfl, if_neg hne]
  exact hsublist.cons_cons _

/-! ## The productions -/

theorem spaced_moreParameters (budget : Nat) : Spaced (moreParameters budget) := by
  induction budget with
  | zero => exact spaced_call Production.noConfusion inferInstance
  | succ budget ih =>
    unfold moreParameters
    exact spaced_call Production.noConfusion inferInstance

instance (budget : Nat) : Spaced (moreParameters budget) := spaced_moreParameters budget

instance (budget : Nat) : Spaced (parameters budget) := by
  unfold parameters
  exact spaced_call Production.noConfusion inferInstance

/-- That all productions try statements at tokens of their own, within a budget. -/
structure AllSpaced (budget : Nat) : Prop where
  expression : ∀ floor, Spaced (expression budget floor)
  extended : ∀ floor left, Spaced (extended budget floor left)
  continued : ∀ continuation left, Spaced (continued budget continuation left)
  operand : Spaced (operand budget)
  alternative : Spaced (alternative budget)
  expressions : ∀ close, Spaced (expressions budget close)
  moreExpressions : ∀ close, Spaced (moreExpressions budget close)
  pairs : Spaced (pairs budget)
  block : Spaced (block budget)
  statements : ∀ inBlock, Opens (statements budget inBlock)
  statement : ∀ state, state.Ends → state.current.kind ≠ .eof →
    Spaces state.onward state (statement budget state)

-- an instance for a production is a tree as large as the production
set_option synthInstance.maxSize 4096 in
/-- By induction on the budget, production by production.  Blocks and the program are where
statements are tried, at the token behind the brace or at the first. -/
theorem allSpaced (budget : Nat) : AllSpaced budget := by
  induction budget with
  -- without budget every function reads nothing
  | zero =>
    have hcall {production : Production} (hproduction : production ≠ .statement) :
        Spaced (call production exhausted) := spaced_call hproduction inferInstance
    exact {
      expression := fun floor => hcall Production.noConfusion
      extended := fun floor left => hcall Production.noConfusion
      continued := fun continuation left => hcall Production.noConfusion
      operand := hcall Production.noConfusion
      alternative := hcall Production.noConfusion
      expressions := fun close => hcall Production.noConfusion
      moreExpressions := fun close => hcall Production.noConfusion
      pairs := hcall Production.noConfusion
      block := hcall Production.noConfusion
      statements := fun inBlock => opens_call (opens_of_spaced inferInstance)
      statement := fun state => spaces_call_statement inferInstance }
  | succ budget ih =>
    obtain ⟨_, _, _, _, _, _, _, _, _, _, hstatement⟩ := ih
    -- the hypotheses are instances, but for that about statements, which says more
    constructor
    case expression =>
      intro floor
      unfold expression
      exact spaced_call Production.noConfusion inferInstance
    case extended =>
      intro floor left
      unfold extended
      refine spaced_call Production.noConfusion (@spaced_bind _ _ _ _ inferInstance ?_)
      intro kind
      cases kind.continuation? <;> infer_instance
    case continued =>
      intro continuation left
      cases continuation
      all_goals
        rw [continued]
        exact spaced_call Production.noConfusion inferInstance
    case operand =>
      unfold operand
      refine spaced_call Production.noConfusion (@spaced_bind _ _ _ _ inferInstance ?_)
      intro token
      cases token.kind
      case integer =>
        dsimp only
        cases integerLiteral? token.literal <;> infer_instance
      all_goals infer_instance
    case alternative =>
      unfold alternative
      exact spaced_call Production.noConfusion inferInstance
    case expressions =>
      intro close
      unfold expressions
      exact spaced_call Production.noConfusion inferInstance
    case moreExpressions =>
      intro close
      unfold moreExpressions
      exact spaced_call Production.noConfusion inferInstance
    case pairs =>
      unfold pairs
      dsimp only
      exact spaced_call Production.noConfusion inferInstance
    case block =>
      unfold block
      exact spaced_call Production.noConfusion inferInstance
    -- a list of statements is read only where there is one more, and that one takes a token
    case statements =>
      intro inBlock
      unfold statements
      refine opens_call ⟨fun state hends => ?_⟩
      rw [run_current]
      split
      · exact ⟨.refl state, state.rest_sublist_onward⟩
      next hgoes =>
        obtain ⟨hfollows, hsublist⟩ := hstatement state hends fun heof => hgoes (.inl heof)
        have hfirst : Spaces state.onward state (attempt (statement budget) state) :=
          ⟨hfollows, hsublist⟩
        refine hfirst.bind fun first middle hmiddle => ?_
        exact Spaced.spaces middle (hends.of_follows hmiddle)
    case statement =>
      unfold statement
      refine fun state => spaces_call_statement (@spaced_bind _ _ _ _ inferInstance ?_)
      intro token
      cases token.kind <;> infer_instance

/-! ## Where statements stop -/

/-- Statements stop at the end of the text, or in a block at its closing brace. -/
theorem stop_statements {inBlock : Bool} {state : ParseState} {result : List Statement}
    (h : (statements budget inBlock state).result = some result) :
    (statements budget inBlock state).stop.current.kind = .eof ∨
      inBlock = true ∧ (statements budget inBlock state).stop.current.kind = .rightBrace := by
  induction budget generalizing state result with
  | zero => cases h
  | succ budget ih =>
    unfold statements at h ⊢
    rw [result_call, run_current] at h
    rw [stop_call, run_current]
    split at h
    next hstops =>
      rw [if_pos hstops]
      exact hstops
    next hgoes =>
      rw [if_neg hgoes]
      have hrun : attempt (statement budget) state = ⟨some _, _, _⟩ := rfl
      rw [bind_of_some _ hrun] at h ⊢
      dsimp only at h ⊢
      rw [run_advance] at h ⊢
      cases hlast : statements budget inBlock (statement budget state).stop.advance with
      | mk rest stop events =>
        cases rest with
        | none =>
          rw [bind_of_none _ hlast] at h
          cases h
        | some rest =>
          have hstop := ih (congrArg Run.result hlast)
          rw [hlast] at hstop
          rw [bind_of_some _ hlast]
          exact hstop

/-! ## At the end token -/

section

variable {state : ParseState}

/-- The end token starts no operand. -/
theorem result_operand_of_eof (budget : Nat) (h : state.current.kind = .eof) :
    (operand budget state).result = none := by
  cases budget with
  | zero => rfl
  | succ budget =>
    unfold operand
    rw [result_call, run_current, h]
    rfl

/-- There is no expression at the end. -/
theorem result_expression_of_eof (budget : Nat) (floor : Precedence)
    (h : state.current.kind = .eof) : (expression budget floor state).result = none := by
  cases budget with
  | zero => rfl
  | succ budget =>
    unfold expression
    rw [result_call]
    cases hrun : operand budget state with
    | mk result stop events =>
      obtain rfl : result = none := (congrArg Run.result hrun).symm.trans
        (result_operand_of_eof budget h)
      rw [bind_of_none _ hrun]

/-- At the end an expression is attempted in vain, and the parser stays there. -/
theorem attempt_expression_of_eof (budget : Nat) (floor : Precedence) (hends : state.Ends)
    (h : state.current.kind = .eof) :
    ∃ middle events, attempt (expression budget floor) state = ⟨some none, middle, events⟩ ∧
      middle.peek.kind = .eof := by
  have hfollows := ((allRetrace budget).expression floor).follows state
  have hresult := congrArg some (result_expression_of_eof budget floor h)
  refine ⟨_, _, congrArg (Run.mk · _ _) hresult, ?_⟩
  refine (hends.of_follows hfollows).peek_of_eof ?_
  rw [(hfollows.eq_of_eof hends h).1]
  exact h

/-- Nor is it the name of a parameter. -/
theorem result_moreParameters_of_eof (budget : Nat) (hends : state.Ends)
    (h : state.current.kind = .eof) : (moreParameters budget state).result = none := by
  cases budget with
  | zero => rfl
  | succ budget =>
    unfold moreParameters
    rw [result_call, run_expect_of_ne]
    rw [hends.peek_of_eof h]
    exact TokenKind.noConfusion

/-- Nor does an argument or an element start with it. -/
theorem result_moreExpressions_of_eof (budget : Nat) (close : TokenKind) (hends : state.Ends)
    (h : state.current.kind = .eof) : (moreExpressions budget close state).result = none := by
  cases budget with
  | zero => rfl
  | succ budget =>
    obtain ⟨middle, events, hrun, hpeek⟩ := attempt_expression_of_eof budget .lowest hends h
    unfold moreExpressions
    rw [result_call, bind_of_some _ hrun]
    dsimp only
    rw [run_peekKind, hpeek, if_neg TokenKind.noConfusion]
    by_cases hclose : middle.peek.kind = close
    · rw [run_expect _ hclose, run_require_none]
    · rw [run_expect_of_ne _ hclose]

/-- Nor does a pair. -/
theorem result_pairs_of_eof (budget : Nat) (hends : state.Ends) (h : state.current.kind = .eof) :
    (pairs budget state).result = none := by
  cases budget with
  | zero => rfl
  | succ budget =>
    have hcurrent : state.advance.current.kind = .eof := by
      rw [ParseState.current_advance]
      exact hends.peek_of_eof h
    obtain ⟨middle, events, hrun, hpeek⟩ :=
      attempt_expression_of_eof budget .lowest hends.advance hcurrent
    unfold pairs
    rw [result_call, run_advance, run_current, hcurrent, if_neg TokenKind.noConfusion,
      bind_of_some _ hrun]
    dsimp only
    rw [run_expect_of_ne]
    rw [hpeek]
    exact TokenKind.noConfusion

end

end Traced

/-- A production that must read an expression or a name fails at the end. -/
theorem Call.Truthful.result_of_eof {call : Call} (h : call.Truthful) (hends : call.start.Ends)
    (heof : call.start.current.kind = .eof)
    (hproduction : call.production ∈
      [Production.expression, .moreParameters, .moreExpressions, .pairs]) :
    call.result = none := by
  obtain ⟨production, start, stop, result, events⟩ := call
  obtain ⟨step, hperforms, houtcome, -⟩ := h
  have hresult {traced : Traced production.Tree} (hretraces : Traced.Retraces traced step)
      (hnone : (traced start).result = none) : result = none := by
    have houtcome := houtcome.symm.trans (hretraces.outcome_eq start)
    rw [hnone] at houtcome
    exact congrArg Prod.fst houtcome
  cases hperforms with
  | expression budget floor =>
    exact hresult ((Traced.allRetrace budget).expression floor)
      (Traced.result_expression_of_eof budget floor heof)
  | moreParameters budget =>
    exact hresult (Traced.retraces_moreParameters budget)
      (Traced.result_moreParameters_of_eof budget hends heof)
  | moreExpressions budget close =>
    exact hresult ((Traced.allRetrace budget).moreExpressions close)
      (Traced.result_moreExpressions_of_eof budget close hends heof)
  | pairs budget =>
    exact hresult (Traced.allRetrace budget).pairs (Traced.result_pairs_of_eof budget hends heof)
  | _ => simp at hproduction

/-! ## How many statements there are -/

mutual

/-- By recursion on accounts: each statement that is kept stands for a call that tried it. -/
theorem ParseEvent.length_nodes_le (event : ParseEvent) :
    ((event.gather (fun call => !call.isLost) ParseEvent.nodes).filterMap Part.statement?).length ≤
      (event.gather (fun _ => true) ParseEvent.firsts).length := by
  cases event with
  | recorded | exhausted => exact Nat.zero_le _
  | called call =>
    have hinner := call.length_nodes_le
    have hnode : ((ParseEvent.called call).nodes.filterMap Part.statement?).length ≤
        (ParseEvent.called call).firsts.length := by
      obtain ⟨production, start, stop, result, events⟩ := call
      cases result with
      | none => exact Nat.zero_le _
      | some tree => cases production <;> exact Nat.le_refl _
    rw [ParseEvent.gather, ParseEvent.gather, List.filterMap_append, List.length_append,
      List.length_append]
    exact Nat.add_le_add hnode hinner

theorem Call.length_nodes_le (call : Call) :
    ((call.gather (fun call => !call.isLost) ParseEvent.nodes).filterMap Part.statement?).length ≤
      (call.gather (fun _ => true) ParseEvent.firsts).length := by
  obtain ⟨production, start, stop, result, events⟩ := call
  rw [Call.gather, Call.gather, if_pos rfl]
  split
  · exact length_kept_le events
  · exact Nat.zero_le _

/-- A tree has no more statements than are tried. -/
theorem length_kept_le (events : List ParseEvent) :
    ((kept events).filterMap Part.statement?).length ≤ (firstsIn events).length := by
  cases events with
  | nil => exact Nat.zero_le _
  | cons event rest =>
    have hevent := event.length_nodes_le
    have hrest := length_kept_le rest
    unfold kept firstsIn at hrest ⊢
    rw [gather, gather, List.filterMap_append, List.length_append, List.length_append]
    exact Nat.add_le_add hevent hrest

end

/-! ## Progress -/

/-- Of one production, less need means that fewer tokens are left. -/
theorem Production.left_lt_of_need_lt {production : Production} {state start : ParseState}
    (h : production.need state < production.need start) : state.left < start.left := by
  cases production
  all_goals
    simp only [need, ParseState.behind_eq_max, ParseState.left] at h ⊢
    omega

/-- How a parse of some tokens goes on to their end. -/
structure Progress (tokens : List Token) (run : Run (List Statement)) : Prop where
  /-- it has a result, -/
  result : ∃ statements, run.result = some statements
  /-- it has read everything up to the end token, -/
  stop : run.stop.current.kind = .eof ∧ run.stop.rest = []
  /-- and no production has run out of its budget on the way -/
  unspent : ∀ above, ¬ Happens .exhausted above run.events
  /-- calls nest no deeper than a bound that is linear in the number of tokens -/
  depth_le : ∀ above event, Happens event above run.events → above.length ≤ leastBudget tokens + 1
  /-- the calls are those that the parser makes -/
  truthful : ∀ above call, Happens (.called call) above run.events → call.Truthful
  /-- a production only goes forward -/
  forward : ∀ above call, Happens (.called call) above run.events → call.stop.Follows call.start
  /-- what is called inside of a call starts further on; if it is the same production, which is so
  for each turn of a loop and each nested expression, then at least one token has been read -/
  reads : ∀ above call between inner, Happens (.called call) above run.events →
    Happens (.called inner) between call.events →
      inner.start.Follows call.start ∧
        (inner.production = call.production → inner.start.left < call.start.left)
  /-- at the end token nothing goes on, and what must read something fails -/
  fails : ∀ above call, Happens (.called call) above run.events →
    call.start.current.kind = .eof →
      call.stop.current = call.start.current ∧ call.stop.rest = call.start.rest ∧
        (call.production ∈ [Production.expression, .moreParameters, .moreExpressions, .pairs] →
          call.result = none)
  /-- statements are tried at tokens of their own, -/
  firsts : (firstsIn run.events).Sublist tokens
  /-- so that there are no more of them in the tree, at any depth, than there are tokens -/
  statements_le : ∀ statements, run.result = some statements →
    (Program.mk statements).allStatements.length ≤ tokens.length

section

variable {tokens : List Token} {budget : Nat}

/-- The statements of a parse are tried at tokens of the text. -/
theorem spaces_accountWithin {token : Token} {rest : List Token} (budget : Nat)
    (h : Ended (token :: rest)) :
    Traced.Spaces (token :: rest) ⟨token, rest, []⟩ (accountWithin budget (token :: rest)) := by
  have hspaces := ((Traced.allSpaced budget).statements false).spaces ⟨token, rest, []⟩ h
  refine hspaces.mono ?_
  unfold ParseState.onward
  split
  · exact List.sublist_cons_self _ _
  · exact .refl _

/-- Every budget that suffices has the progress. -/
theorem progress_accountWithin (h : Ended tokens) (hbudget : leastBudget tokens ≤ budget) :
    Progress tokens (accountWithin budget tokens) := by
  have hexists := exists_result_accountWithin h hbudget
  have hkeeps := (candidRun_accountWithin budget tokens).keeps
  obtain ⟨token, rest, rfl⟩ := h.exists_cons
  have hends : ParseState.Ends ⟨token, rest, []⟩ := h
  obtain ⟨hfollows, hsublist⟩ := spaces_accountWithin budget h
  have hfirsts := (List.sublist_append_left _ _).trans hsublist
  -- every call is told by the run that it stands in
  have hdescends {event : ParseEvent}
      (hevent : event ∈ (accountWithin budget (token :: rest)).events) :=
    descends_accountWithin h hbudget hevent
  constructor
  case result => exact hexists
  case stop =>
    obtain ⟨statements, hresult⟩ := hexists
    have hstop := (Traced.stop_statements hresult).resolve_right fun h => nomatch h.1
    exact ⟨hstop, (hends.of_follows hfollows).rest_of_eof hstop⟩
  case unspent => exact fun _ => not_happens_exhausted h hbudget
  case depth_le => exact fun _ _ happens => (happens.descends fun _ => hdescends).1
  case truthful => exact fun _ _ => truthful_of_happens
  case forward =>
    intro above call happens
    cases (happens.descends fun _ => hdescends).2 with
    | called hstart hneed hstop inner => exact hstop
  -- a call needs less than the one that it stands in, and between two calls of one function only
  -- the tokens that are read make it less
  case reads =>
    intro above call between inner happens hinner
    cases (happens.descends fun _ => hdescends).2 with
    | called hstart hneed hstop hevents =>
      cases (hinner.descends hevents).2 with
      | called hstart' hneed' _ _ =>
        refine ⟨hstart', fun hproduction => ?_⟩
        rw [hproduction] at hneed'
        have hless : call.production.need inner.start < call.production.need call.start := by omega
        exact Production.left_lt_of_need_lt hless
  case fails =>
    intro above call happens heof
    cases (happens.descends fun _ => hdescends).2 with
    | called hstart hneed hstop inner =>
      have hends' := hends.of_follows hstart
      obtain ⟨hcurrent, hrest⟩ := hstop.eq_of_eof hends' heof
      exact ⟨hcurrent, hrest, (truthful_of_happens happens).result_of_eof hends' heof⟩
  case firsts => exact hfirsts
  case statements_le =>
    intro statements hresult
    have hnodes : nodesOf (Program.mk statements).parts = kept _ := hkeeps statements hresult
    rw [Program.allStatements_eq, hnodes]
    exact (length_kept_le _).trans hfirsts.length_le

end

/-- Whatever the tokens are that the end token ends, every budget that is linear in their number
yields the parse, and the parse goes on to their end. -/
theorem parse_progresses {tokens : List Token} {budget : Nat} (h : Ended tokens)
    (hbudget : 8 * tokens.length + 4 ≤ budget) :
    (∀ token rest, tokens = token :: rest →
      (Parse.statements budget false).outcome ⟨token, rest, []⟩ =
        ((accountWithin budget tokens).result, (accountWithin budget tokens).stop)) ∧
      parseTokens tokens = ⟨⟨(accountWithin budget tokens).result.getD []⟩,
        errorsIn (accountWithin budget tokens).events⟩ ∧
      Progress tokens (accountWithin budget tokens) := by
  refine ⟨?_, ?_, progress_accountWithin h hbudget⟩
  · rintro token rest rfl
    exact outcome_statements_eq budget token rest
  · rw [parseTokens_eq, accountWithin_eq h hbudget,
      accountWithin_eq h (leastBudget_le_parseBudget tokens)]

/-- The tokens of `f([1, {`, a text that ends in the middle of everything. -/
def brokenOff : List Token :=
  [⟨.identifier, "f", ⟨0, 1⟩⟩, ⟨.leftParen, "(", ⟨1, 2⟩⟩, ⟨.leftBracket, "[", ⟨2, 3⟩⟩,
    ⟨.integer, "1", ⟨3, 4⟩⟩, ⟨.comma, ",", ⟨4, 5⟩⟩, ⟨.leftBrace, "\x7b", ⟨6, 7⟩⟩, .eof 7]

/-- Nothing is closed in this text, and the parse still comes to its end. -/
theorem parse_progresses_brokenOff : Ended brokenOff ∧ 8 * brokenOff.length + 4 ≤ 60 ∧
    (∀ token rest, brokenOff = token :: rest →
      (Parse.statements 60 false).outcome ⟨token, rest, []⟩ =
        ((accountWithin 60 brokenOff).result, (accountWithin 60 brokenOff).stop)) ∧
    parseTokens brokenOff = ⟨⟨(accountWithin 60 brokenOff).result.getD []⟩,
      errorsIn (accountWithin 60 brokenOff).events⟩ ∧
    Progress brokenOff (accountWithin 60 brokenOff) := by
  have hended : Ended brokenOff := by decide
  have hbudget : 8 * brokenOff.length + 4 ≤ 60 := by decide
  exact ⟨hended, hbudget, parse_progresses hended hbudget⟩

end Scriptlet
