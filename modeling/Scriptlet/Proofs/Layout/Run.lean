import Scriptlet.Proofs.Layout.Evaluate

set_option autoImplicit false

/-!
# Programs that differ in layout run alike

Component: the evaluator and the runner.  Specification: section 4.3 for programs, section 10.7, by
which an error at run time is reported with the span of the statement at the top that failed.

Two programs that are the same but for their spans have, on machines that are the same but for
spans, the same value or fault, write and read the same, and leave the same bindings.  Only the
spans of their errors differ: each is that of the statement that failed, which has the same place
among the statements of either program (`runProgram_alike`).

The place of a statement among those of its program is what is common to both programs, so that
`EndsAlike` names it and both spans.  The induction goes along both lists of statements at once,
with what is held at the time and the machine on either side.
-/

namespace Scriptlet

/-- The value without the spans of the functions in it. -/
abbrev Value.plain (value : Value) : Value := value.mapSpans fun _ => default

/-- What is held without the spans of the functions in it. -/
abbrev Roots.plain (roots : Roots) : Roots := roots.mapSpans fun _ => default

/-- The machine without the spans of the functions in it.  Machines are the same but for spans if
these are the same. -/
abbrev Machine.plain (machine : Machine) : Machine := machine.mapSpans fun _ => default

/-- Values that are the same but for spans are printed alike. -/
theorem Value.inspect_eq_of_plain_eq {value other : Value} (h : value.plain = other.plain) :
    value.inspect = other.inspect := by
  simpa only [Value.plain, Value.inspect_mapSpans] using congrArg Value.inspect h

/-- Whether programs with these statements ended alike: with values that are the same but for
spans, or with one fault in the statements at one place. -/
inductive EndsAlike (statements others : List Statement) : Outcome → Outcome → Prop where
  | finished {value other : Option Value} (h : value.map Value.plain = other.map Value.plain) :
      EndsAlike statements others (.finished value) (.finished other)
  | failed {place : Nat} {statement other : Statement} (fault : Fault)
      (h : statements[place]? = some statement) (h' : others[place]? = some other) :
      EndsAlike statements others (.failed ⟨statement.span, fault⟩) (.failed ⟨other.span, fault⟩)
  | exhausted : EndsAlike statements others .exhausted .exhausted

/-- With one more statement in front, each place is one further on. -/
theorem EndsAlike.cons {statements others : List Statement} {outcome outcome' : Outcome}
    (h : EndsAlike statements others outcome outcome') (statement other : Statement) :
    EndsAlike (statement :: statements) (other :: others) outcome outcome' := by
  cases h with
  | finished h => exact .finished h
  | @failed place _ _ fault h h' =>
    rw [← List.getElem?_cons_succ] at h h'
    exact .failed fault h h'
  | exhausted => exact .exhausted

/-- What is held stays the same but for spans when one more value is. -/
theorem Roots.plain_hold {roots others : Roots} {value other : Value}
    (hroots : roots.plain = others.plain) (hvalue : value.plain = other.plain) :
    (roots.hold value).plain = (others.hold other).plain := by
  have hhold (roots : Roots) (value : Value) :
      (roots.hold value).plain = roots.plain.hold value.plain := rfl
  rw [hhold, hroots, hvalue, hhold]

variable {setup : Setup} (frame : FrameId) {roots roots' : Roots} {machine machine' : Machine}

/-- Statements that are the same but for spans do the same but for spans. -/
theorem execute_alike (hblind : setup.BlindTo fun _ => default) {statement other : Statement}
    (hstatement : statement.plain = other.plain) (hroots : roots.plain = roots'.plain)
    (hmachine : machine.plain = machine'.plain) :
    mapEnding (fun _ => default) (Option.map Value.plain)
        (execute setup frame roots statement machine) =
      mapEnding (fun _ => default) (Option.map Value.plain)
        (execute setup frame roots' other machine') := by
  have hleft : execute setup frame roots.plain statement.plain machine.plain = _ :=
    mirrors_execute hblind frame roots statement machine
  have hright : execute setup frame roots'.plain other.plain machine'.plain = _ :=
    mirrors_execute hblind frame roots' other machine'
  rw [hstatement, hroots, hmachine] at hleft
  exact hleft.symm.trans hright

/-- Along both lists of statements: each does the same, and the first that fails is at one place. -/
theorem runStatements_alike (hblind : setup.BlindTo fun _ => default)
    (hroots : roots.plain = roots'.plain) {statements others : List Statement}
    (hstatements : statements.map Statement.plain = others.map Statement.plain)
    {last last' : Option Value} (hlast : last.map Value.plain = last'.map Value.plain)
    (hmachine : machine.plain = machine'.plain) :
    EndsAlike statements others (runStatements setup frame roots last statements machine).1
        (runStatements setup frame roots' last' others machine').1 ∧
      (runStatements setup frame roots last statements machine).2.plain =
        (runStatements setup frame roots' last' others machine').2.plain := by
  induction statements generalizing others last last' machine machine' with
  | nil =>
    obtain rfl := List.map_eq_nil_iff.mp hstatements.symm
    exact ⟨.finished hlast, hmachine⟩
  | cons statement rest ih =>
    obtain ⟨other, others, rfl, hstatement, hrest⟩ := List.map_eq_cons_iff.mp hstatements.symm
    -- the value so far is held, if there is one
    have hheld : (last.elim roots roots.hold).plain = (last'.elim roots' roots'.hold).plain := by
      cases last with
      | none =>
        obtain rfl := Option.map_eq_none_iff.mp hlast.symm
        exact hroots
      | some value =>
        obtain ⟨value', rfl, hvalue⟩ := Option.map_eq_some_iff.mp hlast.symm
        exact Roots.plain_hold hroots hvalue.symm
    have hexecute := execute_alike frame hblind hstatement.symm hheld hmachine
    simp only [runStatements]
    -- from here on only the two endings matter, and that they are alike
    generalize execute setup frame (last.elim roots roots.hold) statement machine = ending,
      execute setup frame (last'.elim roots' roots'.hold) other machine' = ending' at hexecute
    cases ending with
    | ok value middle =>
      cases ending' with
      | error => cases hexecute
      | ok value' middle' =>
        obtain ⟨hvalue, hmiddle⟩ := EStateM.Result.ok.inj hexecute
        obtain ⟨hends, hmachines⟩ := ih hrest.symm hvalue hmiddle
        exact ⟨hends.cons _ _, hmachines⟩
    | error halt middle =>
      cases ending' with
      | ok => cases hexecute
      | error halt' middle' =>
        obtain ⟨hhalt, hmiddle⟩ := EStateM.Result.error.inj hexecute
        cases halt with
        | returned value =>
          cases halt' with
          | returned value' =>
            exact ⟨.finished (congrArg some (Halt.returned.inj hhalt)), hmiddle⟩
          | fault | exhausted => cases hhalt
        | fault fault =>
          cases halt' with
          | fault fault' =>
            obtain rfl := Halt.fault.inj hhalt
            -- the statement that failed is the first of those left, and its span is taken from its
            -- own list
            have hplace : (statement :: rest)[0]? = some statement := rfl
            exact ⟨.failed fault hplace rfl, hmiddle⟩
          | returned | exhausted => cases hhalt
        | exhausted =>
          cases halt' with
          | exhausted => exact ⟨.exhausted, hmiddle⟩
          | returned | fault => cases hhalt

/-- A collection leaves machines that are the same but for spans. -/
theorem Machine.collect_alike (hroots : roots.plain = roots'.plain)
    (hmachine : machine.plain = machine'.plain) :
    (machine.collect roots).2.plain = (machine'.collect roots').2.plain := by
  have hcollect (roots : Roots) (machine : Machine) :
      (machine.plain.collect roots.plain).2 = (machine.collect roots).2.plain := by
    unfold Machine.collect Machine.plain Machine.mapSpans Roots.plain
    simp only [Heap.collect_mapSpans]
  rw [← hcollect, hroots, hmachine, hcollect]

/-- Programs that are the same but for spans run alike. -/
theorem runProgram_alike (hblind : setup.BlindTo fun _ => default) {program other : Program}
    (hprogram : program.plain = other.plain) (hroots : roots.plain = roots'.plain)
    (hmachine : machine.plain = machine'.plain) :
    EndsAlike program.statements other.statements (runProgram setup frame roots program machine).1
        (runProgram setup frame roots' other machine').1 ∧
      (runProgram setup frame roots program machine).2.plain =
        (runProgram setup frame roots' other machine').2.plain := by
  have hstatements : program.statements.map Statement.plain =
      other.statements.map Statement.plain := by
    have hall := Program.mk.inj hprogram
    rwa [mapSpansOfStatements_eq_map, mapSpansOfStatements_eq_map] at hall
  have hnone : (none : Option Value).map Value.plain = (none : Option Value).map Value.plain := rfl
  obtain ⟨hends, hmachines⟩ :=
    runStatements_alike frame hblind hroots hstatements hnone hmachine
  unfold runProgram
  generalize runStatements setup frame roots none program.statements machine = result,
    runStatements setup frame roots' none other.statements machine' = result'
    at hends hmachines
  obtain ⟨outcome, middle⟩ := result
  obtain ⟨outcome', middle'⟩ := result'
  refine ⟨hends, Machine.collect_alike ?_ hmachines⟩
  cases hends with
  | failed | exhausted => exact hroots
  | @finished value value' hvalue =>
    cases value with
    | none =>
      obtain rfl := Option.map_eq_none_iff.mp hvalue.symm
      exact hroots
    | some value =>
      obtain ⟨value', rfl, hsame⟩ := Option.map_eq_some_iff.mp hvalue.symm
      exact Roots.plain_hold hroots hsame.symm

end Scriptlet
