import Scriptlet.Tree.Parser

set_option autoImplicit false

/-!
# Runs of the parser

Component: the parser.  Specification: section 4.2, the smallest steps of which its productions are
made: look at the current token, look at the next one, advance, expect a kind, skip a semicolon, and
record a diagnostic.

A step of the parser *yields* a result if it has one and records no error.  This file says what
the smallest steps yield and how steps are put together.

Where the parser stands is told in two ways.  Before a phrase is read, all tokens from the current
one on are ahead of it; behind a phrase, the current token is its last one.  At the end token the
parser stays, so that the end token is still ahead after a phrase that has read it.

`Yields` is the judgement for texts that are programs, where nothing fails.  It composes
(`Yields.bind`), and there is one rule for each of the smallest steps, so that a proof about a
production is the list of what it yields, in the order of its steps.  What happens when a step fails
is the subject of other files; here `outcome` says it for each step in one equation.
-/

namespace Scriptlet

/-! ## Where the parser stands -/

namespace ParseState

/-- The tokens that are next once the current one has been read: those behind it, and at the end
token that token again. -/
def ahead (state : ParseState) : List Token :=
  match state.rest with
  | [] => [state.current]
  | token :: rest => token :: rest

/-- Whether the parser stands at the first of some tokens. -/
structure Before (state : ParseState) (tokens : List Token) (errors : List SyntaxError) : Prop where
  tokens : state.current :: state.rest = tokens
  errors : state.errors = errors

/-- Whether the parser stands at the last token of a phrase, with some tokens behind it. -/
structure After (state : ParseState) (last : Token) (tokens : List Token)
    (errors : List SyntaxError) : Prop where
  current : state.current = last
  ahead : state.ahead = tokens
  errors : state.errors = errors

variable {state : ParseState} {token last : Token} {tokens rest : List Token}
  {errors : List SyntaxError}

/-- The token that the parser looks at is the first one behind the phrase. -/
theorem After.peek (h : state.After last (token :: rest) errors) : state.peek = token := by
  have hahead := h.ahead
  unfold ParseState.ahead at hahead
  unfold ParseState.peek
  cases hrest : state.rest with
  | nil =>
    rw [hrest] at hahead
    exact (List.cons.inj hahead).1
  | cons next rest =>
    rw [hrest] at hahead
    exact (List.cons.inj hahead).1

/-- Advancing makes the first token behind a phrase the current one. -/
theorem After.advance (h : state.After last tokens errors) :
    state.advance.Before tokens errors := by
  have hahead := h.ahead
  unfold ParseState.ahead at hahead
  unfold ParseState.advance
  cases hrest : state.rest with
  | nil =>
    simp only [hrest] at hahead ⊢
    exact ⟨by rw [hrest]; exact hahead, h.errors⟩
  | cons token rest =>
    simp only [hrest] at hahead ⊢
    exact ⟨hahead, h.errors⟩

/-- A token that is followed by others is read by standing at it. -/
theorem Before.after (h : state.Before (token :: tokens) errors) (hne : tokens ≠ []) :
    state.After token tokens errors := by
  obtain ⟨hcurrent, hrest⟩ := List.cons.inj h.tokens
  refine ⟨hcurrent, ?_, h.errors⟩
  cases tokens with
  | nil => exact absurd rfl hne
  | cons next tokens => simp only [ParseState.ahead, hrest]

/-- The end token is still ahead when it has been read. -/
theorem Before.after_self (h : state.Before [token] errors) : state.After token [token] errors := by
  obtain ⟨hcurrent, hrest⟩ := List.cons.inj h.tokens
  exact ⟨hcurrent, by simp only [ParseState.ahead, hrest, hcurrent], h.errors⟩

/-- The first of the tokens is the current one. -/
theorem Before.current (h : state.Before (token :: tokens) errors) : state.current = token :=
  (List.cons.inj h.tokens).1

/-- To advance is no error. -/
theorem errors_advance (state : ParseState) : state.advance.errors = state.errors := by
  unfold advance
  split <;> rfl

end ParseState

/-! ## Yielding -/

namespace Parse

/-- What a step does in a state. -/
def outcome {α : Type} (step : Parse α) (state : ParseState) : Option α × ParseState :=
  step.run.run state

/-- Whether a step has a result in a state, and leaves another state behind. -/
def Yields {α : Type} (step : Parse α) (state : ParseState) (result : α) (next : ParseState) :
    Prop :=
  step.outcome state = (some result, next)

variable {α β : Type}

/-- A step and the next: the next is taken where the first has a result. -/
theorem outcome_bind (step : Parse α) (next : α → Parse β) (state : ParseState) :
    (step >>= next).outcome state =
      match step.outcome state with
      | (some result, state) => (next result).outcome state
      | (none, state) => (none, state) := by
  have hrun : ∀ state, (step >>= next).outcome state = (StateT.bind step.run fun result =>
      match result with
      | some result => (next result).run
      | none => pure none).run state := fun _ => rfl
  rw [hrun]
  simp only [StateT.bind, StateT.run, outcome]
  generalize OptionT.run step state = result
  obtain ⟨result, state⟩ := result
  cases result <;> rfl

/-- Two steps that yield something yield what the second does. -/
theorem Yields.bind {step : Parse α} {next : α → Parse β} {state middle last : ParseState}
    {result : α} {final : β} (h : step.Yields state result middle)
    (hnext : (next result).Yields middle final last) : (step >>= next).Yields state final last := by
  rw [Yields, outcome_bind, h]
  exact hnext

/-- What follows a step that yields something is that of the next, from where the first has stopped.
-/
theorem outcome_bind_of_yields {step : Parse α} {next : α → Parse β} {state middle : ParseState}
    {result : α} (h : step.Yields state result middle) :
    (step >>= next).outcome state = (next result).outcome middle := by
  rw [outcome_bind, h]

theorem yields_pure (result : α) (state : ParseState) :
    (pure result : Parse α).Yields state result state := rfl

theorem yields_current (state : ParseState) : current.Yields state state.current state := rfl

theorem yields_peekKind (state : ParseState) : peekKind.Yields state state.peek.kind state := rfl

theorem yields_advance (state : ParseState) : advance.Yields state () state.advance := rfl

theorem yields_spanFrom (first : Token) (state : ParseState) :
    (spanFrom first).Yields state (first.span.cover state.current.span) state := rfl

/-- Expecting a kind reads the next token, or records that it is another one. -/
theorem outcome_expect (wanted : TokenKind) (state : ParseState) :
    (expect wanted).outcome state =
      if state.peek.kind = wanted then (some (), state.advance)
      else (none, state.record ⟨state.peek.span, .expected wanted state.peek.kind⟩) := by
  change (if state.peek.kind = wanted then advance
    else fault state.peek (.expected wanted state.peek.kind) : Parse Unit).outcome state = _
  split <;> rfl

/-- A token of the wanted kind is read. -/
theorem yields_expect {wanted : TokenKind} {state : ParseState} (h : state.peek.kind = wanted) :
    (expect wanted).Yields state () state.advance := by
  rw [Yields, outcome_expect, if_pos h]

/-- A token of the wanted kind is accepted. -/
theorem yields_expect_of_after {wanted : TokenKind} {state : ParseState} {last token : Token}
    {rest : List Token} {errors : List SyntaxError}
    (h : state.After last (token :: rest) errors) (hkind : token.kind = wanted) :
    (expect wanted).Yields state () state.advance :=
  yields_expect (by rw [h.peek]; exact hkind)

/-- An attempt has a result always, which may be that there is none. -/
theorem outcome_attempt (step : Parse α) (state : ParseState) :
    (attempt step).outcome state = (some (step.outcome state).1, (step.outcome state).2) := rfl

/-- An attempt at what yields something yields it. -/
theorem Yields.attempt {step : Parse α} {state next : ParseState} {result : α}
    (h : step.Yields state result next) : (attempt step).Yields state (some result) next := by
  rw [Yields, outcome_attempt, h]

theorem yields_require (result : α) (state : ParseState) :
    (require (some result)).Yields state result state := rfl

/-- A semicolon is read if it is next, and not missed if it is not. -/
theorem outcome_skipSemicolon (state : ParseState) :
    skipSemicolon.outcome state =
      (some (), if state.peek.kind = .semicolon then state.advance else state) := by
  change (if state.peek.kind = .semicolon then advance else pure () : Parse Unit).outcome state = _
  split <;> rfl

end Parse

end Scriptlet
