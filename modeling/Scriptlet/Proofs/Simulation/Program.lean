import Scriptlet.Proofs.Simulation.Evaluate

set_option autoImplicit false

/-!
# Programs end alike

Component: the evaluator, where it runs a program.  Specification: section 4.3 on programs, and
section 10.7, by which an error has the span of the top-level statement that failed.

A program runs its statements one by one, and every run ends in a collection, at which what the
program is worth is still held.

Both runs go through the statements together, and the first that is cut short in one is cut short in
the other, with the same fault.  So two runs never stop at different places.
-/

namespace Scriptlet

namespace Simulation

variable {left right : Setup} {aside aside' : Roots} {sim : Simulation left right aside aside'}

/-- Whether two programs ended alike: with values that may be held, or in the same error. -/
inductive Ends (sim : Simulation left right aside aside') (held : Held) :
    Outcome × Machine → Outcome × Machine → Prop where
  | finished {value other : Option Value} {l r : Machine} (h : sim.Optional held value other l r) :
      Ends sim held (.finished value, l) (.finished other, r)
  | failed (error : RuntimeError) {l r : Machine} (h : sim.Alike held l r) :
      Ends sim held (.failed error, l) (.failed error, r)
  | exhausted {l r : Machine} (h : sim.Alike held l r) :
      Ends sim held (.exhausted, l) (.exhausted, r)

/-- A statement at the top of a program. -/
theorem agree_execute {held : Held} {l r : Machine} {id id' : FrameId} (h : sim.Alike held l r)
    (hframe : (id, id') ∈ held.frames) (statement : Statement) :
    sim.Agree held (sim.Optional held) (execute left id (held.left.and aside) statement l)
      (execute right id' (held.right.and aside') statement r) := by
  rw [execute, execute, sim.callDepth_eq]
  exact follows_statement (calls_invokeWithin sim _) statement _ _ _ _ _ h hframe

/-- Statements at the top, of which each lets go of the value before. -/
theorem ends_runStatements (statements : List Statement) {held : Held} {l r : Machine}
    {id id' : FrameId} {last last' : Option Value} (h : sim.Optional held last last' l r)
    (hframe : (id, id') ∈ held.frames) :
    sim.Ends held (runStatements left id (held.left.and aside) last statements l)
      (runStatements right id' (held.right.and aside') last' statements r) := by
  induction statements generalizing l r last last' with
  | nil =>
    simp only [runStatements]
    exact .finished h
  | cons statement rest ih =>
    have hexecute : sim.Agree held (sim.Optional held)
        (execute left id (last.elim (held.left.and aside) (held.left.and aside).hold) statement l)
        (execute right id' (last'.elim (held.right.and aside') (held.right.and aside').hold)
          statement r) := by
      cases h with
      | none h => exact agree_execute h hframe statement
      | @some value other l r h =>
        have halike : sim.Alike (held.hold value other) l r := h
        exact (agree_execute halike hframe statement).weaken (held.within_hold _ _)
          fun _ _ _ _ h => h.weaken (held.within_hold _ _)
    simp only [runStatements]
    generalize execute left id (last.elim (held.left.and aside) (held.left.and aside).hold)
      statement l = result, execute right id'
        (last'.elim (held.right.and aside') (held.right.and aside').hold) statement r = result'
      at hexecute
    cases hexecute with
    | ok h => exact ih h
    | returned h => exact .finished (.some h)
    | fault fault h => exact .failed _ h
    | exhausted h => exact .exhausted h

/-- Both runs may collect. -/
theorem Alike.collect {held : Held} {l r : Machine} (h : sim.Alike held l r) :
    sim.Alike held (l.collect (held.left.and aside)).2 (r.collect (held.right.and aside')).2 := by
  obtain ⟨link, h⟩ := h
  exact ⟨link, sim.collectRight (sim.collectLeft h)⟩

/-- Values that may be held are so under another simulation that relates the same machines. -/
theorem Optional.imp {others others' : Roots} {other : Simulation left right others others'}
    {held held' : Held} {value value' : Option Value} {l r : Machine}
    (h : sim.Optional held value value' l r)
    (himp : ∀ values : List (Value × Value), sim.Alike ⟨held.frames, values ++ held.values⟩ l r →
      other.Alike ⟨held'.frames, values ++ held'.values⟩ l r) :
    other.Optional held' value value' l r := by
  cases h with
  | none h => exact .none (himp [] h)
  | some h => exact .some (himp [(_, _)] h)

/-- What has ended alike has so under another simulation that relates the same machines. -/
theorem Ends.imp {others others' : Roots} {other : Simulation left right others others'}
    {held held' : Held} {first second : Outcome × Machine} (h : sim.Ends held first second)
    (himp : ∀ (values : List (Value × Value)) (l r : Machine),
      sim.Alike ⟨held.frames, values ++ held.values⟩ l r →
      other.Alike ⟨held'.frames, values ++ held'.values⟩ l r) :
    other.Ends held' first second := by
  cases h with
  | finished h => exact .finished (h.imp fun values => himp values _ _)
  | failed error h => exact .failed error (himp [] _ _ h)
  | exhausted h => exact .exhausted (himp [] _ _ h)

/-- What has ended alike still does when both runs have collected. -/
theorem Ends.collect {held : Held} {first second : Outcome × Machine}
    (h : sim.Ends held first second) :
    sim.Ends held
      (first.1, (first.2.collect (first.1.heldIn (held.left.and aside))).2)
      (second.1, (second.2.collect (second.1.heldIn (held.right.and aside'))).2) := by
  cases h with
  | finished h =>
    cases h with
    | none h => exact .finished (.none h.collect)
    | some h => exact .finished (.some (Alike.collect h))
  | failed error h => exact .failed error h.collect
  | exhausted h => exact .exhausted h.collect

/-- Programs end alike. -/
theorem ends_runProgram (program : Program) {held : Held} {l r : Machine} {id id' : FrameId}
    (h : sim.Alike held l r) (hframe : (id, id') ∈ held.frames) :
    sim.Ends held (runProgram left id (held.left.and aside) program l)
      (runProgram right id' (held.right.and aside') program r) :=
  (ends_runStatements program.statements (.none h) hframe).collect

end Simulation

end Scriptlet
