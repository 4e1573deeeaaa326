import Scriptlet.Proofs.Parser.Budget

set_option autoImplicit false

/-!
# What fails, and what is kept

Component: the parser.  Specification: section 10.3: a production that fails is dropped from the
tree, a failed expression makes the statement around it absent, and the list of diagnostics is what
tells so.

A production fails exactly if a fault happens in it, apart from what happens in the statements
inside of it: an error that is recorded, or a budget that is spent.  If it does not fail, the
statements and blocks in what it has read are those of the calls inside of it, apart from what is
inside of statements that have failed (`Call.Candid`).  So no fault is lost, and nothing that was
read is lost but with a statement that is at fault.

This needs no more than what each production does with the parts that have failed: it goes on
without a result, until it requires the part.

The statement about a step has two parameters besides: whether something has been lost already that
a later step will require, and the nodes that the step was given to go on from.  The first makes it
possible to speak of a step in the middle of a production, after an attempt that has failed; the
second is for the loop of an expression, which is handed the tree so far.

Faults and kept nodes are both collected from the account (`ownFaults`, `kept`), with different
calls entered: faults stop at every statement, since a statement that fails is dropped and its list
goes on, and nodes stop at those statements only that have failed.
-/

namespace Scriptlet

/-! ## Faults and nodes in an account -/

/-- The event, unless it is a call. -/
def ParseEvent.faults : ParseEvent → List ParseEvent
  | .recorded error => [.recorded error]
  | .exhausted => [.exhausted]
  | .called _ => []

/-- Whether a call is one of a statement. -/
def Call.isStatement (call : Call) : Bool := decide (call.production = .statement)

/-- Whether a call is one of a statement that has failed. -/
def Call.isLost (call : Call) : Bool := call.isStatement && call.result.isNone

/-- The statement or block that a call has read. -/
def Call.node? (call : Call) : Option Part := call.result.bind call.production.node?

/-- What a call has read, as a list of at most one statement or block. -/
def ParseEvent.nodes : ParseEvent → List Part
  | .recorded _ | .exhausted => []
  | .called call => call.node?.toList

/-- The faults in an account, apart from those in the statements. -/
def ownFaults (events : List ParseEvent) : List ParseEvent :=
  gather (fun call => !call.isStatement) ParseEvent.faults events

/-- The errors in an account, apart from those in the statements. -/
def ownErrors (events : List ParseEvent) : List SyntaxError :=
  gather (fun call => !call.isStatement) ParseEvent.errors events

/-- The statements and blocks that are read in an account, without what is inside of statements
that have failed. -/
def kept (events : List ParseEvent) : List Part :=
  gather (fun call => !call.isLost) ParseEvent.nodes events

/-- The statements and blocks among some parts. -/
def nodesOf (parts : List Part) : List Part := parts.filter Part.isNode

/-- Whether a call fails exactly if it has a fault of its own, and has read just what is kept
inside of it; one that goes on from an expression has that one's parts besides. -/
structure Call.Candid (call : Call) : Prop where
  fails_iff : call.result = none ↔ ownFaults call.events ≠ []
  keeps : ∀ tree, call.result = some tree → ∃ given,
    nodesOf (call.production.inner tree) = given ++ kept call.events ∧
      (given ≠ [] → call.production = .extended ∨ call.production = .continued)

section

variable {events others : List ParseEvent} {call : Call}

theorem ownFaults_append : ownFaults (events ++ others) = ownFaults events ++ ownFaults others :=
  gather_append events others

theorem kept_append : kept (events ++ others) = kept events ++ kept others :=
  gather_append events others

/-- What is wrong in a statement is a fault of that statement only. -/
theorem ownFaults_called_statement (h : call.production = .statement) :
    ownFaults [.called call] = [] := by
  unfold ownFaults
  rw [gather_called]
  simp [ParseEvent.faults, Call.isStatement, h]

/-- What is wrong in another call is wrong in the call around it. -/
theorem ownFaults_called (h : call.production ≠ .statement) :
    ownFaults [.called call] = ownFaults call.events := by
  unfold ownFaults
  rw [gather_called]
  simp [ParseEvent.faults, Call.isStatement, h]

/-- What a call has read, and what is kept inside of it. -/
theorem kept_called (h : call.isLost = false) :
    kept [.called call] = call.node?.toList ++ kept call.events := by
  unfold kept
  rw [gather_called]
  simp [ParseEvent.nodes, h]

/-- A statement that has failed is lost with all that is inside of it. -/
theorem kept_called_of_isLost (h : call.isLost = true) : kept [.called call] = [] := by
  have hresult : call.result = none := by
    unfold Call.isLost at h
    simpa using (Bool.and_eq_true_iff.mp h).2
  unfold kept
  rw [gather_called]
  simp [ParseEvent.nodes, Call.node?, h, hresult]

end

/-! ## Candid steps -/

namespace Traced

variable {α β : Type} {budget : Nat}

/-- Whether a run with some nodes given fails exactly if it has a fault of its own or something is
lost before, and has otherwise read just what is given and kept. -/
structure CandidRun (lost : Prop) (given : List Part) (reads : α → List Part) (run : Run α) :
    Prop where
  fails_iff : run.result = none ↔ lost ∨ ownFaults run.events ≠ []
  keeps : ∀ result, run.result = some result → reads result = given ++ kept run.events
  inner : ∀ above call, Happens (.called call) above run.events → call.Candid

/-- Whether the runs of a step are candid. -/
def Candid (lost : Prop) (given : List Part) (reads : α → List Part) (traced : Traced α) : Prop :=
  ∀ state, CandidRun lost given reads (traced state)

namespace Candid

variable {lost : Prop} {given : List Part} {reads : α → List Part} {reads' : β → List Part}
  {traced other : Traced α} {next : α → Traced β}

/-! ### Steps that have no part -/

/-- A result that has just the nodes that were given. -/
theorem pure {result : α} (hlost : ¬ lost) (h : reads result = given) :
    Candid lost given reads (Pure.pure result) := by
  intro state
  constructor
  case fails_iff =>
    constructor
    · exact fun hnone => nomatch hnone
    · exact fun hor => absurd rfl (hor.resolve_left hlost)
  case keeps =>
    intro final hfinal
    cases hfinal
    rw [h]
    exact (List.append_nil given).symm
  case inner => exact fun _ _ happens => absurd happens Happens.nil

/-- A run that has failed, for a reason. -/
theorem of_none {state : ParseState} {events : List ParseEvent}
    (hwhy : lost ∨ ownFaults events ≠ [])
    (hinner : ∀ above call, Happens (.called call) above events → call.Candid) :
    CandidRun lost given reads ⟨none, state, events⟩ where
  fails_iff := ⟨fun _ => hwhy, fun _ => rfl⟩
  keeps := fun _ hresult => nomatch hresult
  inner := hinner

/-- A budget that is spent is a fault of its own. -/
theorem exhausted : Candid lost given reads Traced.exhausted := by
  intro state
  refine of_none (.inr (List.cons_ne_nil _ _)) fun above call happens => ?_
  cases happens with
  | here h => simp at h
  | inside h => simp at h

/-- So is an error that is recorded. -/
theorem recorded (error : SyntaxError) (state : ParseState) :
    CandidRun lost given reads ⟨none, state, [.recorded error]⟩ := by
  refine of_none (.inr (List.cons_ne_nil _ _)) fun above call happens => ?_
  cases (Happens.recorded.mp happens).1

theorem fault (token : Token) (reason : SyntaxFault) :
    Candid lost given reads (liftM (Parse.fault token reason : Parse α)) :=
  fun state => by
    rw [run_fault]
    exact recorded _ _

/-- To look at a token neither fails nor reads a node. -/
theorem current {next : Token → Traced β} (h : ∀ token, Candid lost given reads' (next token)) :
    Candid lost given reads' (liftM Parse.current >>= next) := by
  intro state
  rw [run_current]
  exact h _ state

theorem peekKind {next : TokenKind → Traced β} (h : ∀ kind, Candid lost given reads' (next kind)) :
    Candid lost given reads' (liftM Parse.peekKind >>= next) := by
  intro state
  rw [run_peekKind]
  exact h _ state

/-- Neither does to read one. -/
theorem advance {next : Unit → Traced β} (h : Candid lost given reads' (next ())) :
    Candid lost given reads' (liftM Parse.advance >>= next) := by
  intro state
  rw [run_advance]
  exact h _

theorem spanFrom {first : Token} {next : Span → Traced β}
    (h : ∀ span, Candid lost given reads' (next span)) :
    Candid lost given reads' (liftM (Parse.spanFrom first) >>= next) := by
  intro state
  rw [run_spanFrom]
  exact h _ state

theorem skipSemicolon {next : Unit → Traced β} (h : Candid lost given reads' (next ())) :
    Candid lost given reads' (liftM Parse.skipSemicolon >>= next) := by
  intro state
  rw [run_skipSemicolon]
  exact h _

/-- An expectation that is not met is a fault of its own. -/
theorem expect {wanted : TokenKind} {next : Unit → Traced β}
    (h : Candid lost given reads' (next ())) :
    Candid lost given reads' (liftM (Parse.expect wanted) >>= next) := by
  intro state
  by_cases hkind : state.peek.kind = wanted
  · rw [run_expect next hkind]
    exact h _
  · rw [run_expect_of_ne next hkind]
    exact recorded _ _

/-- Both branches of a decision. -/
theorem ite {condition : Prop} [Decidable condition] (h : Candid lost given reads traced)
    (h' : Candid lost given reads other) :
    Candid lost given reads (if condition then traced else other) := by
  by_cases hcondition : condition
  · rwa [if_pos hcondition]
  · rwa [if_neg hcondition]

/-- A part is required that may be lost. -/
theorem require {result : Option α} (hlost : result = none → lost)
    (h : ∀ value, result = some value → Candid lost given reads' (next value)) :
    Candid lost given reads' (liftM (Parse.require result) >>= next) := by
  intro state
  cases result with
  | none =>
    rw [run_require_none]
    exact of_none (.inl (hlost rfl)) fun _ _ happens => absurd happens Happens.nil
  | some value =>
    rw [run_require]
    exact h value rfl state

/-- The part that is required is the result. -/
theorem required {result : Option α} (hlost : result = none ↔ lost)
    (h : ∀ value, result = some value → reads value = given) :
    Candid lost given reads (liftM (Parse.require result)) := by
  intro state
  rw [run_required]
  cases result with
  | none => exact of_none (.inl (hlost.mp rfl)) fun _ _ happens => absurd happens Happens.nil
  | some value => exact pure (fun hlost' => nomatch hlost.mpr hlost') (h value rfl) state

/-! ### Steps that have parts -/

/-- What is read first is given to what is read next. -/
theorem bind_from {taken : List Part} (h : Candid False taken reads traced)
    (hnext : ∀ result, Candid lost (given ++ reads result) reads' (next result)) :
    Candid lost (given ++ taken) reads' (traced >>= next) := by
  intro state
  obtain ⟨hfails, hkeeps, hinner⟩ := h state
  cases hrun : traced state with
  | mk result middle events =>
    rw [hrun] at hfails hkeeps hinner
    dsimp only at hfails hkeeps hinner
    cases result with
    | none =>
      rw [bind_of_none next hrun]
      exact of_none (.inr ((hfails.mp rfl).resolve_left id)) hinner
    | some result =>
      have hfaultless : ownFaults events = [] := by
        refine Decidable.not_not.mp fun hfault => ?_
        cases hfails.mpr (.inr hfault)
      obtain ⟨hfails', hkeeps', hinner'⟩ := hnext result middle
      rw [bind_of_some next hrun]
      refine ⟨?_, ?_, ?_⟩
      · rw [ownFaults_append, hfaultless, List.nil_append]
        exact hfails'
      · intro final hfinal
        rw [hkeeps' final hfinal, hkeeps result rfl, kept_append]
        simp
      · intro above call happens
        obtain happens | happens := Happens.append.mp happens
        · exact hinner above call happens
        · exact hinner' above call happens

/-- One step after another, where nothing is given to the first. -/
theorem bind (h : Candid False [] reads traced)
    (hnext : ∀ result, Candid lost (given ++ reads result) reads' (next result)) :
    Candid lost given reads' (traced >>= next) := by
  have hbind := h.bind_from hnext
  rwa [List.append_nil] at hbind

/-- A part is read that may fail. -/
theorem attempt {next : Option α → Traced β} (h : Candid False [] reads traced)
    (hnext : ∀ result : Option α,
      Candid (lost ∨ result = none) (given ++ result.elim [] reads) reads' (next result)) :
    Candid lost given reads' (Traced.attempt traced >>= next) := by
  intro state
  obtain ⟨hfails, hkeeps, hinner⟩ := h state
  obtain ⟨hfails', hkeeps', hinner'⟩ := hnext (traced state).result (traced state).stop
  have hrun : Traced.attempt traced state = ⟨some _, _, _⟩ := rfl
  rw [bind_of_some next hrun]
  refine ⟨?_, ?_, ?_⟩
  · rw [hfails', hfails, false_or, or_assoc, ownFaults_append, ne_eq (_ ++ _),
      List.append_eq_nil_iff, Decidable.not_and_iff_or_not]
  · intro final hfinal
    have hkept := hkeeps' final hfinal
    cases hresult : (traced state).result with
    | none =>
      have hnone := hfails'.mpr (.inl (.inr hresult))
      cases hnone.symm.trans hfinal
    | some result =>
      rw [hresult] at hkept
      rw [hkept, Option.elim_some, hkeeps result hresult, kept_append]
      simp
  · intro above call happens
    obtain happens | happens := Happens.append.mp happens
    · exact hinner above call happens
    · exact hinner' above call happens

/-! ### Calls -/

section

variable {production : Production} {body : Traced production.Tree}

/-- The call of a candid step is candid, and so is what happens inside of it. -/
theorem of_called {given : List Part} {state : ParseState}
    (h : CandidRun False given (fun tree => nodesOf (production.inner tree)) (body state))
    (hgiven : given ≠ [] → production = .extended ∨ production = .continued) {above : List Call}
    {call : Call}
    (happens : Happens (.called call) above (Traced.call production body state).events) :
    call.Candid := by
  obtain ⟨heq, -⟩ | ⟨others, -, happens⟩ := Happens.called.mp happens
  · cases heq
    have hfails := h.fails_iff.trans (.of_eq (false_or _))
    exact ⟨hfails, fun tree htree => ⟨given, h.keeps tree htree, hgiven⟩⟩
  · exact h.inner others call happens

/-- The call of a production that is neither a statement nor a block reads what its body does. -/
theorem call (h : Candid False given (fun tree => nodesOf (production.inner tree)) body)
    (hgiven : given ≠ [] → production = .extended ∨ production = .continued)
    (hproduction : production ≠ .statement) (hnode : ∀ tree, production.node? tree = none) :
    Candid False given (fun tree => nodesOf (production.inner tree))
      (Traced.call production body) := by
  intro state
  have hbody := h state
  refine ⟨?_, ?_, fun above call => of_called hbody hgiven⟩
  · unfold Traced.call
    rw [ownFaults_called hproduction]
    exact hbody.fails_iff
  · intro tree htree
    unfold Traced.call
    rw [kept_called (by simp [Call.isLost, Call.isStatement, hproduction])]
    have hnone : (body state).result.bind production.node? = none := by
      cases (body state).result with
      | none => rfl
      | some tree => exact hnode tree
    simp only [Call.node?, hnone]
    exact hbody.keeps tree htree

/-- The call of a block reads the block besides. -/
theorem call_block {body : Traced Block}
    (h : Candid False [] (fun tree => nodesOf tree.inner) body) :
    Candid False [] (fun tree : Block => nodesOf tree.parts) (Traced.call .block body) := by
  intro state
  have hbody := h state
  refine ⟨?_, ?_, fun above call => of_called hbody (absurd rfl)⟩
  · unfold Traced.call
    rw [ownFaults_called Production.noConfusion]
    exact hbody.fails_iff
  · intro tree htree
    have hkeeps := hbody.keeps tree htree
    change (body state).result = some tree at htree
    unfold Traced.call
    rw [kept_called rfl]
    simp only [Call.node?, htree]
    exact congrArg (Part.block tree :: ·) hkeeps

/-- The faults of a statement are its own; when it has failed, what is inside of it is lost. -/
theorem attempt_statement {body : Traced Statement}
    (h : Candid False [] (fun tree => nodesOf tree.inner) body) :
    Candid False [] (fun tree : Option Statement => nodesOf (partsOfStatements tree.toList))
      (Traced.attempt (Traced.call .statement body)) := by
  intro state
  have hbody := h state
  refine ⟨?_, ?_, fun above call => of_called hbody (absurd rfl)⟩
  · unfold Traced.attempt Traced.call
    rw [ownFaults_called_statement rfl]
    simp
  · intro result hresult
    cases hresult
    change nodesOf (partsOfStatements (body state).result.toList) =
      [] ++ kept [.called ⟨_, _, _, _, _⟩]
    cases htree : (body state).result with
    | none =>
      rw [kept_called_of_isLost rfl]
      rfl
    | some tree =>
      have hkeeps := hbody.keeps tree htree
      rw [kept_called rfl]
      simp only [Option.toList_some, partsOfStatements, List.append_nil]
      exact congrArg (Part.statement tree :: ·) hkeeps

end

end Candid

/-! ## The productions -/

/-- Whether a step of a production is candid, with the nodes given that it goes on from. -/
abbrev Owns (production : Production) (given : List Part)
    (traced : Traced production.Tree) : Prop :=
  Candid False given (fun tree => nodesOf (production.inner tree)) traced

/-- Names are no nodes. -/
theorem owns_moreParameters (budget : Nat) : Owns .moreParameters [] (moreParameters budget) := by
  have hnames (names : List Name) : nodesOf (partsOfNames names) = [] := by
    simp [nodesOf, partsOfNames, Part.isNode]
  induction budget with
  | zero => exact .call .exhausted (absurd rfl) Production.noConfusion fun _ => rfl
  | succ budget ih =>
    unfold moreParameters
    refine .call ?_ (absurd rfl) Production.noConfusion fun _ => rfl
    refine .expect (.current fun token => .peekKind fun kind => .ite (.advance ?_) (.expect ?_))
    · refine ih.bind fun names => .pure id ?_
      simp [Production.inner, hnames]
    · exact .pure id (hnames _)

theorem owns_parameters (budget : Nat) : Owns .parameters [] (parameters budget) := by
  unfold parameters
  refine .call ?_ (absurd rfl) Production.noConfusion fun _ => rfl
  exact .peekKind fun kind => .ite (.advance (.pure id rfl)) (owns_moreParameters budget)

/-- That all productions are candid, within a budget. -/
structure AllOwn (budget : Nat) : Prop where
  expression : ∀ floor, Owns .expression [] (expression budget floor)
  extended : ∀ floor left, Owns .extended (nodesOf left.parts) (extended budget floor left)
  continued : ∀ continuation left,
    Owns .continued (nodesOf left.parts) (continued budget continuation left)
  operand : Owns .operand [] (operand budget)
  alternative : Owns .alternative [] (alternative budget)
  expressions : ∀ close, Owns .expressions [] (expressions budget close)
  moreExpressions : ∀ close, Owns .moreExpressions [] (moreExpressions budget close)
  pairs : Owns .pairs [] (pairs budget)
  block : Candid False [] (fun tree : Block => nodesOf tree.parts) (block budget)
  statements : ∀ inBlock, Owns .statements [] (statements budget inBlock)
  statement : Candid False []
    (fun tree : Option Statement => nodesOf (partsOfStatements tree.toList))
    (attempt (statement budget))

namespace AllOwn

/-- An expression has the nodes of its operand and of what extends it. -/
theorem expression_succ (ih : AllOwn budget) (floor : Precedence) :
    Owns .expression [] (Traced.expression (budget + 1) floor) := by
  unfold Traced.expression
  refine .call ?_ (absurd rfl) Production.noConfusion fun _ => rfl
  exact ih.operand.bind fun left => ih.extended floor left

/-- What extends an expression goes on from the nodes of that. -/
theorem extended_succ (ih : AllOwn budget) (floor : Precedence) (left : Expression) :
    Owns .extended (nodesOf left.parts) (Traced.extended (budget + 1) floor left) := by
  unfold Traced.extended
  refine .call (.peekKind fun kind => ?_) (fun _ => .inl rfl) Production.noConfusion fun _ => rfl
  cases kind.continuation? with
  | none => exact .pure id rfl
  | some continuation =>
    refine .ite (.advance ?_) (.pure id rfl)
    have hnext (longer : Expression) :
        Candid False ([] ++ nodesOf longer.parts) (fun tree : Expression => nodesOf tree.parts)
          (Traced.extended budget floor longer) := ih.extended floor longer
    exact (ih.continued continuation left).bind_from hnext

/-- A right operand, arguments or an index bring theirs. -/
theorem continued_succ (ih : AllOwn budget) (continuation : Continuation) (left : Expression) :
    Owns .continued (nodesOf left.parts) (Traced.continued (budget + 1) continuation left) := by
  cases continuation with
  | binary operator =>
    dsimp only [Traced.continued]
    refine .call (.current fun token => .advance ?_) (fun _ => .inr rfl) Production.noConfusion
      fun _ => rfl
    refine (ih.expression _).bind fun right => .pure id ?_
    simp [Production.inner, Expression.parts, nodesOf, Part.isNode]
  | call =>
    dsimp only [Traced.continued]
    refine .call (.current fun token => ?_) (fun _ => .inr rfl) Production.noConfusion
      fun _ => rfl
    refine (ih.expressions _).bind fun arguments => .pure id ?_
    simp [Production.inner, Expression.parts, nodesOf, Part.isNode]
  | index =>
    dsimp only [Traced.continued]
    refine .call (.current fun token => .advance ?_) (fun _ => .inr rfl) Production.noConfusion
      fun _ => rfl
    refine (ih.expression _).attempt fun position => .expect (.require .inr ?_)
    rintro position rfl
    refine .pure (by simp) ?_
    simp [Production.inner, Expression.parts, nodesOf, Part.isNode]

/-- Conditionals and functions bring blocks, groups and lists the nodes of their expressions. -/
theorem operand_succ (ih : AllOwn budget) : Owns .operand [] (Traced.operand (budget + 1)) := by
  unfold Traced.operand
  refine .call (.current fun token => ?_) (absurd rfl) Production.noConfusion fun _ => rfl
  cases token.kind
  case identifier | string | trueWord | falseWord => exact .pure id rfl
  case integer =>
    dsimp only
    cases integerLiteral? token.literal with
    | some value => exact .pure id rfl
    | none => exact .fault _ _
  case bang | minus =>
    refine .advance ((ih.expression _).bind fun right => .pure id ?_)
    simp [Production.inner, Expression.parts, nodesOf, Part.isNode]
  case leftParen =>
    refine .advance ((ih.expression _).attempt fun inner => .expect (.required (by simp) ?_))
    rintro inner rfl
    rfl
  case ifWord =>
    refine .expect (.advance ((ih.expression _).attempt fun condition => .expect (.expect ?_)))
    refine ih.block.bind fun consequence => ih.alternative.bind fun alternative => ?_
    refine .require .inr ?_
    rintro condition rfl
    refine .pure (by simp) ?_
    simp [Production.inner, Expression.parts, nodesOf, Part.isNode, Block.parts, List.filter_cons]
  case functionWord =>
    refine .expect ((owns_parameters budget).attempt fun parameters => .expect ?_)
    refine ih.block.bind fun body => .require .inr ?_
    rintro parameters rfl
    refine .pure (by simp) ?_
    simp [Production.inner, Expression.parts, FunctionLiteral.parts, nodesOf, Part.isNode,
      Block.parts]
  case leftBracket =>
    refine (ih.expressions _).bind fun elements => .pure id ?_
    simp [Production.inner, Expression.parts, nodesOf, Part.isNode]
  case leftBrace =>
    refine ih.pairs.bind fun pairs => .pure id ?_
    simp [Production.inner, Expression.parts, nodesOf, Part.isNode]
  all_goals exact .fault _ _

theorem alternative_succ (ih : AllOwn budget) :
    Owns .alternative [] (Traced.alternative (budget + 1)) := by
  unfold Traced.alternative
  refine .call (.peekKind fun kind => ?_) (absurd rfl) Production.noConfusion fun _ => rfl
  refine .ite (.advance (.expect (ih.block.bind fun block => .pure id ?_))) (.pure id rfl)
  rfl

theorem expressions_succ (ih : AllOwn budget) (close : TokenKind) :
    Owns .expressions [] (Traced.expressions (budget + 1) close) := by
  unfold Traced.expressions
  refine .call (.advance (.current fun token => ?_)) (absurd rfl) Production.noConfusion
    fun _ => rfl
  exact .ite (.pure id rfl) (ih.moreExpressions close)

/-- Each expression of a list may have failed, and the list is required to have them all. -/
theorem moreExpressions_succ (ih : AllOwn budget) (close : TokenKind) :
    Owns .moreExpressions [] (Traced.moreExpressions (budget + 1) close) := by
  unfold Traced.moreExpressions
  refine .call ((ih.expression _).attempt fun first => .peekKind fun kind => ?_) (absurd rfl)
    Production.noConfusion fun _ => rfl
  refine .ite (.advance (.advance ?_)) (.expect ?_)
  · refine (ih.moreExpressions close).bind fun rest => .require .inr ?_
    rintro first rfl
    refine .pure (by simp) ?_
    simp [Production.inner, partsOfExpressions, nodesOf]
  · refine .require .inr ?_
    rintro first rfl
    refine .pure (by simp) ?_
    simp [Production.inner, partsOfExpressions, nodesOf]

/-- The key and the value of a pair may each have failed. -/
theorem pairs_succ (ih : AllOwn budget) : Owns .pairs [] (Traced.pairs (budget + 1)) := by
  unfold Traced.pairs
  refine .call (.advance (.current fun token => .ite (.pure id rfl) ?_)) (absurd rfl)
    Production.noConfusion fun _ => rfl
  refine (ih.expression _).attempt fun key => .expect (.advance ?_)
  refine (ih.expression _).attempt fun value => .peekKind fun kind => ?_
  have hrest : Candid ((False ∨ key = none) ∨ value = none)
      (([] ++ key.elim [] fun key => nodesOf key.parts) ++
        value.elim [] fun value => nodesOf value.parts)
      (fun entries => nodesOf (partsOfPairs entries))
      (do
        let rest ← Traced.pairs budget
        return ⟨← Parse.require key, ← Parse.require value⟩ :: rest) := by
    refine ih.pairs.bind fun rest => .require (.inl ∘ .inr) ?_
    rintro key rfl
    refine .require .inr ?_
    rintro value rfl
    refine .pure (by simp) ?_
    simp [Production.inner, partsOfPairs, Pair.parts, nodesOf]
  exact .ite (.expect hrest) hrest

/-- A block is a node itself. -/
theorem block_succ (ih : AllOwn budget) :
    Candid False [] (fun tree : Block => nodesOf tree.parts) (Traced.block (budget + 1)) := by
  unfold Traced.block
  refine .call_block (.current fun token => .advance ?_)
  exact (ih.statements true).bind fun statements => .spanFrom fun span => .pure id rfl

/-- A statement that has failed is left out, and the statements go on. -/
theorem statements_succ (ih : AllOwn budget) (inBlock : Bool) :
    Owns .statements [] (Traced.statements (budget + 1) inBlock) := by
  unfold Traced.statements
  refine .call (.current fun token => .ite (.pure id rfl) ?_) (absurd rfl) Production.noConfusion
    fun _ => rfl
  refine ih.statement.bind fun first => .advance ?_
  refine (ih.statements inBlock).bind fun rest => .pure id ?_
  cases first <;>
    simp [Production.inner, partsOfStatements, nodesOf, List.filter_cons, Part.isNode]

/-- The end of a statement: its expression, the semicolon behind it, and its span. -/
theorem ending (ih : AllOwn budget) (first : Token) (make : Expression → Span → Statement)
    (hmake : ∀ value span, nodesOf (make value span).inner = nodesOf value.parts) :
    Candid False [] (fun tree : Statement => nodesOf tree.inner)
      (do
        let value ← attempt (Traced.expression budget .lowest)
        Parse.skipSemicolon
        let span ← Parse.spanFrom first
        return make (← Parse.require value) span) := by
  refine (ih.expression _).attempt fun value => .skipSemicolon (.spanFrom fun span => ?_)
  refine .require .inr ?_
  rintro value rfl
  exact .pure (by simp) (hmake value span)

/-- A statement has the nodes of its expression. -/
theorem statement_succ (ih : AllOwn budget) :
    Candid False [] (fun tree : Option Statement => nodesOf (partsOfStatements tree.toList))
      (attempt (Traced.statement (budget + 1))) := by
  unfold Traced.statement
  refine .attempt_statement (.current fun token => ?_)
  split
  · refine .expect (.current fun name => .expect (.advance (ih.ending _ _ fun value span => ?_)))
    simp [Statement.inner, nodesOf, Part.isNode]
  · refine .advance (ih.ending _ _ fun value span => ?_)
    simp [Statement.inner, nodesOf, Part.isNode]
  · refine ih.ending _ _ fun value span => ?_
    simp [Statement.inner, nodesOf, Part.isNode]

end AllOwn

/-- By induction on the budget. -/
theorem allOwn (budget : Nat) : AllOwn budget := by
  induction budget with
  | zero =>
    exact {
      expression := fun floor => .call .exhausted (absurd rfl) Production.noConfusion fun _ => rfl
      extended := fun floor left =>
        .call .exhausted (fun _ => .inl rfl) Production.noConfusion fun _ => rfl
      continued := fun continuation left =>
        .call .exhausted (fun _ => .inr rfl) Production.noConfusion fun _ => rfl
      operand := .call .exhausted (absurd rfl) Production.noConfusion fun _ => rfl
      alternative := .call .exhausted (absurd rfl) Production.noConfusion fun _ => rfl
      expressions := fun close =>
        .call .exhausted (absurd rfl) Production.noConfusion fun _ => rfl
      moreExpressions := fun close =>
        .call .exhausted (absurd rfl) Production.noConfusion fun _ => rfl
      pairs := .call .exhausted (absurd rfl) Production.noConfusion fun _ => rfl
      block := .call_block .exhausted
      statements := fun inBlock =>
        .call .exhausted (absurd rfl) Production.noConfusion fun _ => rfl
      statement := .attempt_statement .exhausted }
  | succ budget ih =>
    exact {
      expression := ih.expression_succ
      extended := ih.extended_succ
      continued := ih.continued_succ
      operand := ih.operand_succ
      alternative := ih.alternative_succ
      expressions := ih.expressions_succ
      moreExpressions := ih.moreExpressions_succ
      pairs := ih.pairs_succ
      block := ih.block_succ
      statements := ih.statements_succ
      statement := ih.statement_succ }

end Traced

end Scriptlet
