import Scriptlet.Proofs.Parser.Advance
import Scriptlet.Proofs.Parser.Appends
import Scriptlet.Proofs.Parser.Predict

set_option autoImplicit false

/-!
# Steps of the parser and goals

Component: the parser.  Specification: sections 4.2 and 7, where the parser goes on behind a
diagnostic: only what happens up to the first one is compared with the goals.

A step of the parser simulates some goals if it does one of two things.  Either it records no error
and has a result; then the goals have read the tokens that it has read.  Or it records errors; then
the goals lead to a goal that rejects the token of the first one (`Simulates`).

There is one rule for each of the smallest steps and one for steps put together.  A token that has
been read can still be the current one, so reading it is a rule of its own (`Simulates.read`), as is
deciding by a token that stays ahead (`Simulates.look`).

That the goals reject the token of the first error, and not only that some error is recorded, is
what makes the place of the first error meaningful.  It is a statement about the state at the first
error, which later steps do not change: they append (`Faulty`, `faulty_bind`).

A proof that a production simulates its goal is a list of these rules in the order of its steps,
with a case for each way in which the goal can move.
-/

namespace Scriptlet

namespace Parse

variable {α β : Type}

/-! ## Simulation -/

/-- Whether a step has a result and records no error, and some goals have read the same tokens.
What holds of the result, the state and the tokens behind is a parameter. -/
def Clean (step : Parse α) (state : ParseState) (tokens : List Token) (goals : List Goal)
    (post : α → ParseState → List Token → Prop) : Prop :=
  ∃ result stop read token behind, step.Yields state result stop ∧
    tokens = read ++ token :: behind ∧ Ended (token :: behind) ∧ Reads goals read token [] ∧
    post result stop (token :: behind)

/-- Whether errors have been recorded, the first of them at a token that some goals come to and
reject. -/
def Faulty (stop : ParseState) (errors : List SyntaxError) (tokens : List Token)
    (goals : List Goal) : Prop :=
  ∃ error more read token behind goal others, stop.errors = errors ++ error :: more ∧
    error.span = token.span ∧ tokens = read ++ token :: behind ∧
    Reads goals read token (goal :: others) ∧ goal.move token = .reject

/-- Whether a step, made before some tokens, does what some goals do. -/
def Simulates (step : Parse α) (state : ParseState) (errors : List SyntaxError)
    (tokens : List Token) (goals : List Goal) (post : α → ParseState → List Token → Prop) : Prop :=
  Clean step state tokens goals post ∨ Faulty (step.outcome state).2 errors tokens goals

namespace Simulates

variable {step : Parse α} {next : α → Parse β} {state stop : ParseState}
  {errors : List SyntaxError} {token last : Token} {tokens : List Token} {goal : Goal}
  {goals others : List Goal} {post : α → ParseState → List Token → Prop}
  {post' : β → ParseState → List Token → Prop} {result : α}

/-- What holds behind the step may be weakened. -/
theorem imp {weaker : α → ParseState → List Token → Prop}
    (h : Simulates step state errors tokens goals post)
    (himp : ∀ result stop rest, post result stop rest → weaker result stop rest) :
    Simulates step state errors tokens goals weaker := by
  obtain ⟨result, stop, read, token, behind, hyields, htokens, hended, hreads, hpost⟩ | h := h
  · exact .inl ⟨result, stop, read, token, behind, hyields, htokens, hended, hreads,
      himp result stop _ hpost⟩
  · exact .inr h

/-- A last step that reads and records nothing. -/
theorem finish (hyields : step.Yields state result stop) (htokens : Ended tokens)
    (h : post result stop tokens) : Simulates step state errors tokens [] post := by
  obtain ⟨token, rest, rfl⟩ := htokens.exists_cons
  exact .inl ⟨result, stop, [], token, rest, hyields, rfl, htokens, .done _ _, h⟩

/-- A result that is given without reading meets no goals. -/
theorem pure (htokens : Ended tokens) (h : post result state tokens) :
    Simulates (Pure.pure result) state errors tokens [] post :=
  finish (yields_pure result state) htokens h

/-- A step that reads and records nothing. -/
theorem skip (h : step.Yields state result stop)
    (hnext : Simulates (next result) stop errors tokens goals post') :
    Simulates (step >>= next) state errors tokens goals post' := by
  unfold Simulates Clean Yields at *
  rw [outcome_bind_of_yields h]
  exact hnext

/-- A goal decides by the next token. -/
theorem look (hmove : goal.move token = .look others)
    (h : Simulates step state errors (token :: tokens) (others ++ goals) post) :
    Simulates step state errors (token :: tokens) (goal :: goals) post := by
  obtain ⟨result, stop, read, head, behind, hyields, htokens, hended, hreads, hpost⟩ |
    ⟨error, more, read, head, behind, final, below, herrors, hspan, htokens, hreads, hreject⟩ := h
  · refine .inl ⟨result, stop, read, head, behind, hyields, htokens, hended, .look ?_ hreads, hpost⟩
    rw [← Reads.headD_eq (show [] ++ token :: tokens = read ++ head :: behind from htokens)]
    exact hmove
  · refine .inr ⟨error, more, read, head, behind, final, below, herrors, hspan, htokens,
      .look ?_ hreads, hreject⟩
    rw [← Reads.headD_eq (show [] ++ token :: tokens = read ++ head :: behind from htokens)]
    exact hmove

/-- A goal reads the next token. -/
theorem read (hmove : goal.move token = .read others)
    (h : Simulates step state errors tokens (others ++ goals) post) :
    Simulates step state errors (token :: tokens) (goal :: goals) post := by
  obtain ⟨result, stop, read, head, behind, hyields, rfl, hended, hreads, hpost⟩ |
    ⟨error, more, read, head, behind, final, below, herrors, hspan, rfl, hreads, hreject⟩ := h
  · exact .inl ⟨result, stop, token :: read, head, behind, hyields, rfl, hended,
      .read hmove hreads, hpost⟩
  · exact .inr ⟨error, more, token :: read, head, behind, final, below, herrors, hspan, rfl,
      .read hmove hreads, hreject⟩

/-- The goal rejects the next token, and the step records that. -/
theorem reject {error : SyntaxError} {more : List SyntaxError} (hmove : goal.move token = .reject)
    (herrors : (step.outcome state).2.errors = errors ++ error :: more)
    (hspan : error.span = token.span) :
    Simulates step state errors (token :: tokens) (goal :: goals) post :=
  .inr ⟨error, more, [], token, tokens, goal, goals, herrors, hspan, rfl, .done _ _, hmove⟩

/-- An attempt meets the goals that the step does. -/
theorem attempt (h : Simulates step state errors tokens goals post) :
    Simulates (Parse.attempt step) state errors tokens goals fun result stop rest =>
      ∃ value, result = some value ∧ post value stop rest := by
  obtain ⟨result, stop, read, token, behind, hyields, htokens, hended, hreads, hpost⟩ | h := h
  · exact .inl ⟨some result, stop, read, token, behind, hyields.attempt, htokens, hended, hreads,
      result, rfl, hpost⟩
  · exact .inr h

/-- What is done behind the first error does not change it. -/
theorem faulty_bind [∀ result, Appends (next result)] (below : List Goal)
    (h : Faulty (step.outcome state).2 errors tokens goals) :
    Faulty ((step >>= next).outcome state).2 errors tokens (goals ++ below) := by
  obtain ⟨error, more, read, token, behind, goal, others, herrors, hspan, htokens, hreads,
    hreject⟩ := h
  have hlater : ∃ later, ((step >>= next).outcome state).2.errors =
      (step.outcome state).2.errors ++ later := by
    rw [outcome_bind]
    generalize step.outcome state = outcome
    obtain ⟨result, stop⟩ := outcome
    cases result with
    | none => exact ⟨[], (List.append_nil _).symm⟩
    | some result => exact errors_outcome (next result) stop
  obtain ⟨later, hlater⟩ := hlater
  refine ⟨error, more ++ later, read, token, behind, goal, others ++ below, ?_, hspan, htokens,
    hreads.append below, hreject⟩
  rw [hlater, herrors, List.append_assoc, List.cons_append]

/-- Two steps meet the goals of both. -/
theorem bind_append [∀ result, Appends (next result)] {below : List Goal}
    (h : Simulates step state errors tokens goals post)
    (hnext : ∀ result stop rest, Ended rest → rest.length ≤ tokens.length → post result stop rest →
      Simulates (next result) stop errors rest below post') :
    Simulates (step >>= next) state errors tokens (goals ++ below) post' := by
  obtain ⟨result, stop, read, token, behind, hyields, rfl, hended, hreads, hpost⟩ | h := h
  · have hlength : (token :: behind).length ≤ (read ++ token :: behind).length := by simp
    obtain ⟨result', stop', read', token', behind', hyields', htokens, hended', hreads', hpost'⟩ |
      ⟨error, more, read', token', behind', goal, others, herrors, hspan, htokens, hreads',
        hreject⟩ := hnext result stop _ hended hlength hpost
    · have hhead := Reads.headD_eq (show [] ++ token :: behind = read' ++ _ from htokens)
      refine .inl ⟨result', stop', read ++ read', token', behind', hyields.bind hyields', ?_,
        hended', hreads'.behind (hhead ▸ hreads), hpost'⟩
      rw [htokens, List.append_assoc]
    · have hhead := Reads.headD_eq (show [] ++ token :: behind = read' ++ _ from htokens)
      refine .inr ⟨error, more, read ++ read', token', behind', goal, others, ?_, hspan, ?_,
        hreads'.behind (hhead ▸ hreads), hreject⟩
      · rw [outcome_bind_of_yields hyields]
        exact herrors
      · rw [htokens, List.append_assoc]
  · exact .inr (faulty_bind below h)

/-- A step that meets the first goal, and one for the others. -/
theorem bind [∀ result, Appends (next result)]
    (h : Simulates step state errors tokens [goal] post)
    (hnext : ∀ result stop rest, Ended rest → rest.length ≤ tokens.length → post result stop rest →
      Simulates (next result) stop errors rest goals post') :
    Simulates (step >>= next) state errors tokens (goal :: goals) post' :=
  h.bind_append hnext

/-- A step that is attempted, and one for the other goals. -/
theorem attempt_bind {next : Option α → Parse β} [∀ result, Appends (next result)]
    (h : Simulates step state errors tokens [goal] post)
    (hnext : ∀ result stop rest, Ended rest → rest.length ≤ tokens.length → post result stop rest →
      Simulates (next (some result)) stop errors rest goals post') :
    Simulates (Parse.attempt step >>= next) state errors tokens (goal :: goals) post' := by
  refine h.attempt.bind ?_
  rintro _ stop rest hended hlength ⟨result, rfl, hpost⟩
  exact hnext result stop rest hended hlength hpost

/-- A token that has to be of one kind is the next goal. -/
theorem expect_bind {next : Unit → Parse β} [∀ result, Appends (next result)] {wanted : TokenKind}
    {rest : List Token} (hstate : state.After last (token :: rest) errors)
    (hended : Ended (token :: rest)) (hwanted : wanted ≠ .eof)
    (hreject : token.kind ≠ wanted → goal.move token = .reject)
    (hnext : token.kind = wanted → Ended rest → state.advance.After token rest errors →
      Simulates (next ()) state.advance errors (token :: rest) (goal :: goals) post') :
    Simulates (expect wanted >>= next) state errors (token :: rest) (goal :: goals) post' := by
  by_cases h : token.kind = wanted
  · have hrest := hended.tail (by rw [h]; exact hwanted)
    exact skip (yields_expect_of_after hstate h)
      (hnext h hrest (hstate.advance.after hrest.ne_nil))
  · have hfaulty : Faulty ((expect wanted).outcome state).2 errors (token :: rest) [goal] := by
      refine ⟨⟨token.span, .expected wanted token.kind⟩, [], [], token, rest, goal, [], ?_, rfl,
        rfl, .done _ _, hreject h⟩
      rw [outcome_expect, hstate.peek, if_neg h, ← hstate.errors]
      rfl
    exact .inr (faulty_bind goals hfaulty)

/-- A token of one kind, read by the goal for it. -/
theorem token_bind {next : Unit → Parse β} [∀ result, Appends (next result)] {wanted : TokenKind}
    (hstate : state.After last tokens errors) (hended : Ended tokens) (hwanted : wanted ≠ .eof)
    (hnext : ∀ token rest, tokens = token :: rest → token.kind = wanted → Ended rest →
      state.advance.After token rest errors →
      Simulates (next ()) state.advance errors rest goals post') :
    Simulates (expect wanted >>= next) state errors tokens (.token wanted :: goals) post' := by
  obtain ⟨token, rest, rfl⟩ := hended.exists_cons
  refine expect_bind hstate hended hwanted (fun h => if_neg h) ?_
  intro h hrest hafter
  exact read (if_pos h) (hnext token rest rfl h hrest hafter)

end Simulates

end Parse

end Scriptlet
