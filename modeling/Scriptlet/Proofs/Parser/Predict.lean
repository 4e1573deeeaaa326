import Scriptlet.Tree.Parser

set_option autoImplicit false

/-!
# Reading with one token ahead

Component: the parser.  Specification: section 4.2, by which the parser has two tokens, the current
one and the next, and decides by them alone; this file is the same decision without functions, as a
stack machine with one token ahead.

A run of the parser that records no error can be told without its functions: there is a stack of
goals, and the first goal is met, replaced by others, or rejected, by the next token alone
(`Goal.move`).  The end token is never read; it only ends the goals that it can end.

Two facts about such runs carry what is proved of the first syntax error.

* They are deterministic.  A goal that has rejected a token rejects it in every run that came the
  same way, whatever is behind that token (`Reads.not_rejected`).
* They never lead into a dead end.  From every stack that a program leads to, some tokens lead to
  the empty one (`Reads.completable`).

That runs never lead into a dead end needs to know which stacks there are, since not every stack of
goals can be met: a goal for the rest of a list under an expression that would read its comma could
not.  `Stacked` says which ones a program leads to.  The goal on top is any but a few, and those
below do not start with a token that a goal above them would read (`Goal.lower`).  Each move keeps
this (`Stacked.move`), and each such stack is met by the closing tokens of its goals, one behind the
other.
-/

namespace Scriptlet

/-! ## Goals -/

/-- What is still to be read.  The goals that stand for a part of a list are what may stand there
behind an opening token (`parameters`, `expressions`), behind a comma (`names`, `items`) and behind
an element (`namesTail`, `itemsTail`, `pairsTail`). -/
inductive Goal where
  | token (kind : TokenKind)
  | program
  | body
  | statement
  | semicolon
  | expression (floor : Precedence)
  | operand
  | extended (floor : Precedence)
  | alternative
  | parameters
  | names
  | namesTail
  | expressions (close : TokenKind)
  | items (close : TokenKind)
  | itemsTail (close : TokenKind)
  | pairs
  | pairsTail

/-- What a goal makes of the next token: it reads it, or looks at it, and leaves other goals; or it
rejects it. -/
inductive Move where
  | read (goals : List Goal)
  | look (goals : List Goal)
  | reject

namespace Goal

/-- What is to be read behind the token that announces a continuation. -/
def ofContinuation : Continuation → List Goal
  | .binary operator => [expression operator.precedence]
  | .call => [expressions .rightParen]
  | .index => [expression .lowest, token .rightBracket]

/-- How an operand starts. -/
def moveOperand (next : Token) : Move :=
  match next.kind with
  | .identifier | .string | .trueWord | .falseWord => .read []
  | .integer =>
    match integerLiteral? next.literal with
    | some _ => .read []
    | none => .reject
  | .bang | .minus => .read [expression .unary]
  | .leftParen => .read [expression .lowest, token .rightParen]
  | .ifWord =>
    .read [token .leftParen, expression .lowest, token .rightParen, token .leftBrace, body,
      alternative]
  | .functionWord => .read [token .leftParen, parameters, token .leftBrace, body]
  | .leftBracket => .read [expressions .rightBracket]
  | .leftBrace => .read [pairs]
  | _ => .reject

/-- What a goal makes of the next token. -/
def move (goal : Goal) (next : Token) : Move :=
  match goal with
  | token kind => if next.kind = kind then .read [] else .reject
  | program => if next.kind = .eof then .look [] else .look [statement, program]
  | body =>
    if next.kind = .eof then .look []
    else if next.kind = .rightBrace then .read []
    else .look [statement, body]
  | statement =>
    match next.kind with
    | .letWord => .read [token .identifier, token .assign, expression .lowest, semicolon]
    | .returnWord => .read [expression .lowest, semicolon]
    | _ => .look [expression .lowest, semicolon]
  | semicolon => if next.kind = .semicolon then .read [] else .look []
  | expression floor => .look [operand, extended floor]
  | operand => moveOperand next
  | extended floor =>
    match next.kind.continuation? with
    | none => .look []
    | some continuation =>
      if floor.rank < continuation.precedence.rank then
        .read (ofContinuation continuation ++ [extended floor])
      else .look []
  | alternative => if next.kind = .elseWord then .read [token .leftBrace, body] else .look []
  | parameters => if next.kind = .rightParen then .read [] else .look [names]
  | names => .look [token .identifier, namesTail]
  | namesTail =>
    if next.kind = .comma then .read [names]
    else if next.kind = .rightParen then .read []
    else .reject
  | expressions close => if next.kind = close then .read [] else .look [items close]
  | items close => .look [expression .lowest, itemsTail close]
  | itemsTail close =>
    if next.kind = .comma then .read [items close]
    else if next.kind = close then .read []
    else .reject
  | pairs =>
    if next.kind = .rightBrace then .read []
    else .look [expression .lowest, token .colon, expression .lowest, pairsTail]
  | pairsTail =>
    if next.kind = .rightBrace then .look [pairs]
    else if next.kind = .comma then .read [pairs]
    else .reject

end Goal

/-! ## Runs -/

/-- Whether some goals read some tokens, with a certain token behind them, and lead to other
goals. -/
inductive Reads : List Goal → List Token → Token → List Goal → Prop where
  | done (goals : List Goal) (next : Token) : Reads goals [] next goals
  | read {goal : Goal} {goals others final : List Goal} {token next : Token} {tokens : List Token}
      (h : goal.move token = .read others) (rest : Reads (others ++ goals) tokens next final) :
      Reads (goal :: goals) (token :: tokens) next final
  | look {goal : Goal} {goals others final : List Goal} {next : Token} {tokens : List Token}
      (h : goal.move (tokens.headD next) = .look others)
      (rest : Reads (others ++ goals) tokens next final) : Reads (goal :: goals) tokens next final

namespace Reads

variable {goals others final : List Goal} {goal : Goal} {tokens more : List Token} {next : Token}

/-- The token behind the first of two runs is the first one of the second. -/
theorem trans (h : Reads goals tokens (more.headD next) others)
    (hmore : Reads others more next final) : Reads goals (tokens ++ more) next final := by
  generalize hlast : more.headD next = last at h
  induction h with
  | done => exact hmore
  | read h _ ih => exact .read h (ih hmore hlast)
  | @look _ _ _ _ _ tokens h _ ih =>
    refine .look ?_ (ih hmore hlast)
    cases tokens with
    | nil => rw [List.nil_append, hlast]; exact h
    | cons token tokens => exact h

/-- Goals below the ones that a run is about do not matter to it. -/
theorem append (below : List Goal) (h : Reads goals tokens next others) :
    Reads (goals ++ below) tokens next (others ++ below) := by
  induction h with
  | done => exact .done _ _
  | read h _ ih =>
    rw [List.append_assoc] at ih
    exact .read h ih
  | look h _ ih =>
    rw [List.append_assoc] at ih
    exact .look h ih

/-- Some goals are met one after the other. -/
theorem behind {first second : List Goal} (hmore : Reads second more next final)
    (h : Reads first tokens (more.headD next) []) :
    Reads (first ++ second) (tokens ++ more) next final :=
  trans (h.append second) hmore

/-- The first tokens of equal lists, each read up to some token. -/
theorem headD_eq {s t u v : List Token} {first second : Token}
    (h : s ++ first :: u = t ++ second :: v) : s.headD first = t.headD second := by
  cases s with
  | nil =>
    cases t with
    | nil => exact (List.cons.inj h).1
    | cons => exact (List.cons.inj h).1
  | cons =>
    cases t with
    | nil => exact (List.cons.inj h).1
    | cons => exact (List.cons.inj h).1

/-- A run that has come to a token that its goal rejects cannot be continued, whatever is behind
the token. -/
theorem not_rejected {tokens' behind : List Token} {eof : Token}
    (h : Reads goals tokens next (goal :: others)) (hreject : goal.move next = .reject)
    (hother : Reads goals tokens' eof []) : tokens' ++ [eof] ≠ tokens ++ next :: behind := by
  generalize hfinal : goal :: others = final at h
  -- both runs make the same moves up to the rejected token
  induction h generalizing tokens' with
  | done =>
    subst hfinal
    intro heq
    cases hother with
    | read h =>
      obtain ⟨rfl, _⟩ := List.cons.inj heq
      rw [hreject] at h
      exact Move.noConfusion h
    | look h =>
      rw [headD_eq heq, List.headD_nil, hreject] at h
      exact Move.noConfusion h
  | read h _ ih =>
    intro heq
    cases hother with
    | read h' hrest =>
      have heq := List.cons.inj heq
      obtain rfl := heq.1
      rw [h] at h'
      obtain rfl := Move.read.inj h'
      exact ih hreject hrest hfinal heq.2
    | look h' =>
      rw [headD_eq heq, List.headD_cons, h] at h'
      exact Move.noConfusion h'
  | look h _ ih =>
    intro heq
    rw [← headD_eq heq] at h
    cases hother with
    | read h' =>
      rw [List.headD_cons, h'] at h
      exact Move.noConfusion h
    | look h' hrest =>
      rw [h] at h'
      obtain rfl := Move.look.inj h'
      exact ih hreject hrest hfinal heq

end Reads

/-! ## Stacks -/

/-- The kinds that neither make what is before them longer nor end a statement. -/
def TokenKind.settles (kind : TokenKind) : Bool :=
  !kind.continuation?.isSome && kind != .elseWord && kind != .semicolon

/-- Some token of a kind. -/
def Token.ofKind (kind : TokenKind) : Token :=
  ⟨kind, if kind = .identifier then "x" else kind.name, ⟨0, 0⟩⟩

namespace Goal

/-- Tokens that meet a goal. -/
def closing : Goal → List Token
  | token kind => [.ofKind kind]
  | statement | expression _ | operand => [.ofKind .identifier]
  | parameters | namesTail => [.ofKind .rightParen]
  | names => [.ofKind .identifier, .ofKind .rightParen]
  | expressions close | itemsTail close => [.ofKind close]
  | items close => [.ofKind .identifier, .ofKind close]
  | body | pairs | pairsTail => [.ofKind .rightBrace]
  | program | semicolon | extended _ | alternative => []

/-- Whether a goal can be the first one: lists end only with a parenthesis or a bracket, the end
token is never read, and the goal of the whole program has none below it. -/
def upper : Goal → Bool
  | token kind => kind != .eof
  | expressions close | items close | itemsTail close =>
    close == .rightParen || close == .rightBracket
  | program => false
  | _ => true

/-- Whether a goal can stand below others: it does not start with a token that one of them would
read. -/
def lower : Goal → Bool
  | token kind => kind.settles && kind != .eof
  | goal => goal.upper

/-- What can stand below others can stand on top. -/
theorem upper_of_lower {goal : Goal} (h : goal.lower = true) : goal.upper = true := by
  cases goal with
  | token kind => exact (Bool.and_eq_true _ _ ▸ h).2
  | _ => exact h

/-- A closing token of a list is none of those that go on with it. -/
theorem close_ne {close : TokenKind}
    (h : (close == .rightParen || close == .rightBracket) = true) :
    close.settles = true ∧ close ≠ .comma ∧ close ≠ .eof := by
  cases close <;> first | exact absurd h (by decide) | decide

/-- What a goal leaves can stand in its place. -/
def fit : List Goal → Bool
  | [] => true
  | goal :: goals => goal.upper && goals.all lower

end Goal

/-- The goals that a move leaves. -/
def Move.goals : Move → List Goal
  | .read goals | .look goals => goals
  | .reject => []

namespace Goal

variable {goal : Goal} {goals : List Goal}

/-- A decision between two moves that fit. -/
theorem fit_ite {condition : Prop} [Decidable condition] {first second : Move}
    (hfirst : fit first.goals = true) (hsecond : fit second.goals = true) :
    fit (if condition then first else second).goals = true := by
  split
  · exact hfirst
  · exact hsecond

/-- Whatever starts an operand, the goals that it leaves fit. -/
theorem fit_moveOperand (next : Token) : fit (moveOperand next).goals = true := by
  unfold moveOperand
  split
  case h_5 => split <;> rfl
  all_goals rfl

/-- What a goal leaves can stand in its place. -/
theorem fit_move (h : goal.upper = true) (next : Token) : fit (goal.move next).goals = true := by
  cases goal with
  | program => exact absurd h (by decide)
  | token => exact fit_ite rfl rfl
  | body => exact fit_ite rfl (fit_ite rfl rfl)
  | statement =>
    unfold move
    dsimp only
    split <;> rfl
  | operand => exact fit_moveOperand next
  | extended floor =>
    unfold move
    dsimp only
    split
    next => rfl
    next continuation _ =>
      refine fit_ite ?_ rfl
      cases continuation <;> rfl
  | expressions close => exact fit_ite rfl (by simpa [fit, Move.goals, upper] using h)
  | items close => simpa [fit, Move.goals, move, lower, upper] using h
  | itemsTail close =>
    exact fit_ite (by simpa [fit, Move.goals, upper] using h) (fit_ite rfl rfl)
  | pairsTail => exact fit_ite rfl (fit_ite rfl rfl)
  | namesTail => exact fit_ite rfl (fit_ite rfl rfl)
  | semicolon | alternative | parameters | pairs => exact fit_ite rfl rfl
  | expression | names => rfl

end Goal

/-- Goals that can stand below others. -/
inductive Below : List Goal → Prop where
  | nil : Below []
  | program : Below [.program]
  | cons {goal : Goal} {goals : List Goal} (h : goal.lower = true) (rest : Below goals) :
      Below (goal :: goals)

/-- Goals that a program can lead to. -/
inductive Stacked : List Goal → Prop where
  | nil : Stacked []
  | program : Stacked [.program]
  | cons {goal : Goal} {goals : List Goal} (h : goal.upper = true) (rest : Below goals) :
      Stacked (goal :: goals)

/-- What is below may come to be on top. -/
theorem Below.stacked {goals : List Goal} (h : Below goals) : Stacked goals := by
  cases h with
  | nil => exact .nil
  | program => exact .program
  | cons h rest => exact .cons (Goal.upper_of_lower h) rest

/-- Goals that can stand below others, put on top of such. -/
theorem Below.append {goals others : List Goal} (hothers : Below others)
    (h : goals.all Goal.lower = true) : Below (goals ++ others) := by
  induction goals with
  | nil => exact hothers
  | cons goal goals ih =>
    rw [List.all_cons, Bool.and_eq_true] at h
    exact .cons h.1 (ih h.2)

/-- What a move leaves, put on top of what is below. -/
theorem Below.append_fit {goals others : List Goal} (hothers : Below others)
    (h : Goal.fit goals = true) : Stacked (goals ++ others) := by
  cases goals with
  | nil => exact hothers.stacked
  | cons goal goals =>
    rw [Goal.fit, Bool.and_eq_true] at h
    exact .cons h.1 (hothers.append h.2)

/-- The step of the invariant: a move leads from one such stack to another. -/
theorem Stacked.move {goal : Goal} {goals others : List Goal} {next : Token}
    (h : Stacked (goal :: goals)) (hmove : (goal.move next).goals = others) :
    Stacked (others ++ goals) := by
  subst hmove
  cases h with
  | program =>
    unfold Goal.move
    dsimp only
    split
    · exact .nil
    · exact .cons rfl .program
  | cons h rest => exact rest.append_fit (Goal.fit_move h next)

/-- No goal of such a stack reads the end token. -/
theorem Stacked.ne_eof {goal : Goal} {goals others : List Goal} {next : Token}
    (h : Stacked (goal :: goals)) (hmove : goal.move next = .read others) : next.kind ≠ .eof := by
  intro heof
  cases h with
  | program => simp [Goal.move, heof] at hmove
  | cons h _ =>
    cases goal with
    | token kind =>
      simp only [Goal.upper, bne_iff_ne] at h
      simp [Goal.move, heof, h.symm] at hmove
    | expressions close | itemsTail close =>
      obtain ⟨_, _, hclose⟩ := Goal.close_ne h
      simp [Goal.move, heof, hclose.symm] at hmove
    | _ => simp [Goal.move, Goal.moveOperand, TokenKind.continuation?, heof] at hmove

/-- The end token is never read. -/
theorem Reads.ne_eof {goals final : List Goal} {tokens : List Token} {next : Token}
    (h : Reads goals tokens next final) (hgoals : Stacked goals) :
    ∀ token ∈ tokens, token.kind ≠ .eof := by
  induction h with
  | done =>
    intro token htoken
    cases htoken
  | read hmove _ ih =>
    intro token htoken
    obtain rfl | htoken := List.mem_cons.mp htoken
    · exact hgoals.ne_eof hmove
    · exact ih (hgoals.move (by rw [hmove, Move.goals])) token htoken
  | look hmove _ ih => exact ih (hgoals.move (by rw [hmove, Move.goals]))

/-! ## Completion -/

/-- Before a token that settles an expression, nothing extends it. -/
theorem Goal.move_extended {next : Token} (h : next.kind.settles = true) (floor : Precedence) :
    (extended floor).move next = .look [] := by
  unfold Goal.move
  dsimp only
  cases hcontinuation : next.kind.continuation? with
  | none => rfl
  | some => simp [TokenKind.settles, hcontinuation] at h

/-- A name is an expression on its own before such a token. -/
theorem Reads.identifier {next : Token} (h : next.kind.settles = true) (floor : Precedence) :
    Reads [.expression floor] [.ofKind .identifier] next [] := by
  exact .look rfl (.read rfl (.look (Goal.move_extended h floor) (.done _ _)))

/-- The closing tokens of a goal meet it. -/
theorem Reads.closing {goal : Goal} {next : Token} (hgoal : goal.upper = true)
    (h : next.kind.settles = true) : Reads [goal] goal.closing next [] := by
  have hends : ∀ kind, (TokenKind.settles kind = true → kind ≠ .elseWord ∧ kind ≠ .semicolon) := by
    intro kind
    cases kind <;> decide
  cases goal with
  | program => exact absurd hgoal (by decide)
  | token kind => exact .read (if_pos rfl) (.done _ _)
  | body => exact .read rfl (.done _ _)
  | statement =>
    have hsemicolon : Reads [.semicolon] [] next [] :=
      .look (if_neg (hends _ h).2) (.done _ _)
    exact .look rfl (hsemicolon.behind (Reads.identifier h .lowest))
  | semicolon => exact .look (if_neg (hends _ h).2) (.done _ _)
  | expression floor => exact .identifier h floor
  | operand => exact .read rfl (.done _ _)
  | extended floor => exact .look (Goal.move_extended h floor) (.done _ _)
  | alternative => exact .look (if_neg (hends _ h).1) (.done _ _)
  | parameters | namesTail | pairs => exact .read rfl (.done _ _)
  | names => exact .look rfl (.read rfl (.read rfl (.done _ _)))
  | expressions close => exact .read (if_pos rfl) (.done _ _)
  | items close =>
    obtain ⟨hclose, hcomma, _⟩ := Goal.close_ne hgoal
    have htail : Reads [.itemsTail close] [.ofKind close] next [] :=
      .read ((if_neg hcomma).trans (if_pos rfl)) (.done _ _)
    exact .look rfl (htail.behind (Reads.identifier hclose .lowest))
  | itemsTail close =>
    obtain ⟨_, hcomma, _⟩ := Goal.close_ne hgoal
    exact .read ((if_neg hcomma).trans (if_pos rfl)) (.done _ _)
  | pairsTail => exact .look rfl (.read rfl (.done _ _))

/-- The closing tokens of goals below others do not go on with those. -/
theorem Below.settles {goals : List Goal} {eof : Token} (h : Below goals) (heof : eof.kind = .eof) :
    ((goals.flatMap Goal.closing).headD eof).kind.settles = true := by
  have hend : eof.kind.settles = true := by
    rw [heof]
    rfl
  induction h with
  | nil => exact hend
  | program => exact hend
  | @cons goal goals h rest ih =>
    rw [List.flatMap_cons]
    cases goal with
    | token kind => exact (Bool.and_eq_true _ _ ▸ h).1
    | semicolon | extended | alternative => exact ih
    | expressions close | itemsTail close => exact (Goal.close_ne h).1
    | program => exact absurd h (by decide)
    | _ => rfl

/-- The closing tokens of all goals meet them all, one after the other. -/
theorem Below.reads {goals : List Goal} {eof : Token} (h : Below goals) (heof : eof.kind = .eof) :
    Reads goals (goals.flatMap Goal.closing) eof [] := by
  induction h with
  | nil => exact .done _ _
  | program => exact .look (if_pos heof) (.done _ _)
  | @cons goal goals h rest ih =>
    rw [List.flatMap_cons]
    have hgoal := Reads.closing (Goal.upper_of_lower h) (rest.settles heof)
    exact ih.behind hgoal

/-- Goals that a program can lead to are met by some tokens. -/
theorem Stacked.reads {goals : List Goal} {eof : Token} (h : Stacked goals)
    (heof : eof.kind = .eof) : ∃ tokens, Reads goals tokens eof [] := by
  cases h with
  | nil => exact ⟨[], .done _ _⟩
  | program => exact ⟨[], .look (if_pos heof) (.done _ _)⟩
  | @cons goal goals h rest =>
    have hgoal := Reads.closing h (rest.settles heof)
    exact ⟨_, (rest.reads heof).behind hgoal⟩

/-- What a run has read can be continued to the end of a program. -/
theorem Reads.completable {goals final : List Goal} {tokens : List Token} {next eof : Token}
    (h : Reads goals tokens next final) (hgoals : Stacked goals) (heof : eof.kind = .eof) :
    ∃ behind, Reads goals (tokens ++ behind) eof [] := by
  induction h with
  | done =>
    obtain ⟨behind, h⟩ := hgoals.reads heof
    exact ⟨behind, h⟩
  | read h _ ih =>
    obtain ⟨behind, hrest⟩ := ih (hgoals.move (by rw [h, Move.goals]))
    exact ⟨behind, .read h hrest⟩
  | @look _ _ _ _ _ tokens h _ ih =>
    cases tokens with
    | nil =>
      -- the looks at the token behind are not made again: another one may stand there now
      obtain ⟨behind, h⟩ := hgoals.reads heof
      exact ⟨behind, h⟩
    | cons token tokens =>
      obtain ⟨behind, hrest⟩ := ih (hgoals.move (by rw [h, Move.goals]))
      exact ⟨behind, .look h hrest⟩

end Scriptlet
