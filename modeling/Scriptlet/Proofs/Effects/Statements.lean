import Scriptlet.Interpreter

set_option autoImplicit false

/-!
# Statements one after another

Component: the evaluator.  Specification: section 4.3 on programs, by which an error or a `return`
aborts the sequence of statements, section 7, by which it stops at once, and section 10.7, by which
the error has the span of the top-level statement that failed.

A program runs its statements in order.  Either all of them end normally (`Completes`), or the first
that does not ends the program, and nothing runs after it.

A statement is cut short by a fault, by a `return` or because the evaluation does not come to an
end; what the program makes of each is told by `Halt.outcome`.
-/

namespace Scriptlet

/-- How a program ends in which a statement with the given span is cut short. -/
def Halt.outcome (span : Span) : Halt → Outcome
  | .returned value => .finished (some value)
  | .fault reason => .failed ⟨span, reason⟩
  | .exhausted => .exhausted

section

variable (setup : Setup) (frame : FrameId) (roots : Roots)

/-- Whether statements end normally one after the other: from a value so far and a machine, with a
value and a machine. -/
inductive Completes : Option Value → List Statement → Machine → Option Value → Machine → Prop where
  | nil {last : Option Value} {machine : Machine} : Completes last [] machine last machine
  | cons {last value result : Option Value} {statement : Statement} {rest : List Statement}
      {machine middle ended : Machine}
      (first : execute setup frame (last.elim roots roots.hold) statement machine =
        .ok value middle)
      (more : Completes value rest middle result ended) :
      Completes last (statement :: rest) machine result ended

/-- Whether a statement of some is cut short: those before it end normally, and it does not. -/
structure CutShort (last : Option Value) (statements : List Statement) (machine : Machine)
    (before : List Statement) (statement : Statement) (after : List Statement)
    (value : Option Value) (middle : Machine) (halt : Halt) (ended : Machine) : Prop where
  split : statements = before ++ statement :: after
  completes : Completes setup frame roots last before machine value middle
  halts : execute setup frame (value.elim roots roots.hold) statement middle = .error halt ended

end

variable {setup : Setup} {frame : FrameId} {roots : Roots} {last value : Option Value}
  {statements : List Statement} {machine middle ended : Machine}

/-- Statements that end normally run as themselves in front of any others, which go on from
there. -/
theorem Completes.run_append (h : Completes setup frame roots last statements machine value ended)
    (others : List Statement) :
    runStatements setup frame roots last (statements ++ others) machine =
      runStatements setup frame roots value others ended := by
  induction h with
  | nil => rfl
  | cons first more ih =>
    rw [List.cons_append, runStatements, first]
    exact ih

/-- With nothing behind them, they are the whole program. -/
theorem Completes.run (h : Completes setup frame roots last statements machine value ended) :
    runStatements setup frame roots last statements machine = (.finished value, ended) := by
  have hrun := h.run_append []
  rwa [List.append_nil] at hrun

/-- A statement that is cut short ends the program, whatever comes behind it. -/
theorem CutShort.run {before after : List Statement} {statement : Statement} {halt : Halt}
    (h : CutShort setup frame roots last statements machine before statement after value middle halt
      ended) :
    runStatements setup frame roots last statements machine =
      (halt.outcome statement.span, ended) := by
  rw [h.split, h.completes.run_append, runStatements, h.halts]
  cases halt <;> rfl

/-- Statements in front of others are cut short in the same place. -/
theorem CutShort.append {before after : List Statement} {statement : Statement} {halt : Halt}
    (h : CutShort setup frame roots last statements machine before statement after value middle halt
      ended) (others : List Statement) :
    CutShort setup frame roots last (statements ++ others) machine before statement
      (after ++ others) value middle halt ended where
  split := by rw [h.split, List.append_assoc, List.cons_append]
  completes := h.completes
  halts := h.halts

/-- Statements end normally, or one of them is cut short. -/
theorem completes_or_cutShort (setup : Setup) (frame : FrameId) (roots : Roots)
    (last : Option Value) (statements : List Statement) (machine : Machine) :
    (∃ value ended, Completes setup frame roots last statements machine value ended) ∨
      ∃ before statement after value middle halt ended,
        CutShort setup frame roots last statements machine before statement after value middle halt
          ended := by
  induction statements generalizing last machine with
  | nil => exact .inl ⟨last, machine, .nil⟩
  | cons statement rest ih =>
    cases hfirst : execute setup frame (last.elim roots roots.hold) statement machine with
    | error halt ended =>
      exact .inr ⟨[], statement, rest, last, machine, halt, ended, rfl, .nil, hfirst⟩
    | ok value middle =>
      rcases ih value middle with ⟨result, ended, hmore⟩ |
        ⟨before, stopped, after, reached, stop, halt, ended, hcut⟩
      · exact .inl ⟨result, ended, .cons hfirst hmore⟩
      · exact .inr ⟨statement :: before, stopped, after, reached, stop, halt, ended,
          congrArg (statement :: ·) hcut.split, .cons hfirst hcut.completes, hcut.halts⟩

/-- A program fails in the first of its statements that is cut short by a fault. -/
theorem runStatements_failed_iff {error : RuntimeError} :
    runStatements setup frame roots last statements machine = (.failed error, ended) ↔
      ∃ before statement after value middle fault, error = ⟨statement.span, fault⟩ ∧
        CutShort setup frame roots last statements machine before statement after value middle
          (.fault fault) ended := by
  constructor
  · intro hrun
    rcases completes_or_cutShort setup frame roots last statements machine with
      ⟨value, final, h⟩ | ⟨before, statement, after, value, middle, halt, final, h⟩
    · cases h.run.symm.trans hrun
    · have heq := h.run.symm.trans hrun
      cases halt with
      | returned | exhausted => cases heq
      | fault fault =>
        cases heq
        exact ⟨before, statement, after, value, middle, fault, rfl, h⟩
  · rintro ⟨before, statement, after, value, middle, fault, rfl, h⟩
    exact h.run

/-- A program that fails ends with a collection of what the statement that failed has left. -/
theorem runProgram_failed_iff {error : RuntimeError} :
    runProgram setup frame roots ⟨statements⟩ machine = (.failed error, ended) ↔
      ∃ before statement after value middle fault final, error = ⟨statement.span, fault⟩ ∧
        CutShort setup frame roots none statements machine before statement after value middle
          (.fault fault) final ∧
        ended = (final.collect roots).2 := by
  constructor
  · intro hrun
    rw [runProgram] at hrun
    generalize hresult : runStatements setup frame roots none statements machine = result at hrun
    obtain ⟨outcome, final⟩ := result
    cases hrun
    obtain ⟨before, statement, after, value, middle, fault, herror, hcut⟩ :=
      runStatements_failed_iff.mp hresult
    exact ⟨before, statement, after, value, middle, fault, final, herror, hcut, rfl⟩
  · rintro ⟨before, statement, after, value, middle, fault, final, rfl, hcut, rfl⟩
    rw [runProgram, hcut.run]
    rfl

end Scriptlet
