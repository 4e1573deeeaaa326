import Scriptlet.Proofs.Simulation.Collections

set_option autoImplicit false

/-!
# Evaluations keep heaps well-formed

Component: the evaluator and the object model.  Specification: section 3 on environments with an
optional outer one, and section 10.5 on objects that are told by their reference.

Whatever is evaluated and however it ends, the heap that it leaves is well-formed for what was held
before and what it ended with.  There is no need of another induction on evaluations: a machine is
similar to itself, so an evaluation agrees with itself, and what two runs have in common when they
agree contains that the heaps of both are well-formed.

What is compared is a machine with itself, under one setup and with nothing set aside (`diagonal`).
The theorems about similar machines are stated for results that are values, none, or several, and
each of these gives what is held at the end.
-/

namespace Scriptlet

namespace Eval

variable {α β : Type}

/-! ## How an evaluation ends -/

/-- The machine that an evaluation leaves, however it ends. -/
def after (run : Eval α) (machine : Machine) : Machine :=
  match run machine with
  | .ok _ machine | .error _ machine => machine

/-- The values that an evaluation ends with, where a result has some values: those, or the value of
a `return`. -/
def ends (values : α → List Value) (run : Eval α) (machine : Machine) : List Value :=
  match run machine with
  | .ok result _ => values result
  | .error (.returned value) _ => [value]
  | .error (.fault _) _ | .error .exhausted _ => []

/-- What is held when an evaluation has ended. -/
def heldAfter (values : α → List Value) (roots : Roots) (run : Eval α) (machine : Machine) :
    Roots :=
  roots.holdAll (run.ends values machine)

/-- After a result. -/
theorem after_of_ok {run : Eval α} {machine next : Machine} {result : α}
    (h : run machine = .ok result next) : run.after machine = next := by
  rw [after, h]

/-- After an error. -/
theorem after_of_error {run : Eval α} {machine next : Machine} {halt : Halt}
    (h : run machine = .error halt next) : run.after machine = next := by
  rw [after, h]

/-- What follows a result goes on from it. -/
theorem bind_of_ok {run : Eval α} {next : α → Eval β} {machine middle : Machine} {result : α}
    (h : run machine = .ok result middle) : (run >>= next) machine = next result middle := by
  change EStateM.bind run next machine = _
  unfold EStateM.bind
  rw [h]

/-- Nothing follows an error. -/
theorem bind_of_error {run : Eval α} {next : α → Eval β} {machine middle : Machine} {halt : Halt}
    (h : run machine = .error halt middle) : (run >>= next) machine = .error halt middle := by
  change EStateM.bind run next machine = _
  unfold EStateM.bind
  rw [h]

end Eval

/-! ## Agreeing with oneself -/

/-- A setup agrees with itself. -/
theorem Setup.Agrees.refl (setup : Setup) : setup.Agrees setup := ⟨rfl, rfl, rfl, rfl⟩

/-- Machines compared with themselves, where nothing is held aside. -/
def diagonal (setup : Setup) : Simulation setup setup ⟨[], []⟩ ⟨[], []⟩ :=
  similarity ⟨[], []⟩ ⟨[], []⟩ (.refl setup)

/-- Nothing is set aside. -/
theorem Roots.and_nothing (roots : Roots) : roots.and ⟨[], []⟩ = roots := by
  simp [Roots.and]

/-- A machine is similar to itself if its heap is well-formed. -/
theorem alike_diagonal (setup : Setup) {roots : Roots} {machine : Machine}
    (h : machine.heap.WellFormed roots) : (diagonal setup).Alike roots.both machine machine :=
  ⟨machine.heap.common machine.heap, {
    left := by rwa [Roots.left_both, Roots.and_nothing]
    right := by rwa [Roots.right_both, Roots.and_nothing]
    heaps := h.similar h fun _ => rfl
    console := rfl }⟩

/-- The left of two holdings is the one that has grown by the values on the left. -/
theorem Roots.left_both_holdAll (roots : Roots) {values others : List Value}
    (h : values.length = others.length) :
    (roots.both.holdAll values others).left = roots.holdAll values := by
  rw [Held.left_holdAll h, Roots.left_both]

/-- What is held is still held with one value more. -/
theorem Roots.within_hold (roots : Roots) (value : Value) : roots.Within (roots.hold value) :=
  ⟨fun _ h => h, fun _ h => List.mem_cons_of_mem _ h⟩

/-- What is held is still held with several values more. -/
theorem Roots.within_holdAll (roots : Roots) (values : List Value) :
    roots.Within (roots.holdAll values) :=
  ⟨fun _ h => h, fun _ h => List.mem_append_right _ h⟩

/-- A holding that has grown is both of its halves grown. -/
theorem Roots.both_holdAll (roots : Roots) (values : List Value) :
    (roots.holdAll values).both = roots.both.holdAll values values := by
  have hzip : values.zip values = values.map fun value => (value, value) := by
    simpa using @List.zip_map' _ _ _ id id values
  simp [both, holdAll, Held.holdAll, hzip]

/-- Similar machines have well-formed heaps. -/
theorem wellFormed_of_alike {setup : Setup} {held : Held} {l r : Machine} {roots : Roots}
    (h : (diagonal setup).Alike held l r) (hroots : held.left = roots) :
    l.heap.WellFormed roots := by
  obtain ⟨link, h⟩ := h
  have hleft := h.left
  rwa [hroots, Roots.and_nothing] at hleft

/-- So do machines with a value each. -/
theorem Simulation.Valued.wellFormed {setup : Setup} {roots : Roots} {value other : Value}
    {l r : Machine} (h : (diagonal setup).Valued roots.both value other l r) :
    l.heap.WellFormed (roots.hold value) :=
  wellFormed_of_alike h (congrArg (Roots.hold · value) (Roots.left_both roots))

/-- So do machines with a value each that may be none. -/
theorem Simulation.Optional.wellFormed {setup : Setup} {roots : Roots} {value other : Option Value}
    {l r : Machine} (h : (diagonal setup).Optional roots.both value other l r) :
    l.heap.WellFormed (roots.holdAll value.toList) := by
  cases h with
  | none h => exact wellFormed_of_alike h (Roots.left_both roots)
  | some h => exact h.wellFormed

variable {setup : Setup} {roots : Roots} {machine : Machine} {id : FrameId}

/-- What an evaluation that agrees with itself leaves is well-formed. -/
theorem wellFormed_of_agree {α : Type} {values : α → List Value} {run : Eval α}
    {post : α → α → Machine → Machine → Prop}
    (h : (diagonal setup).Agree roots.both post (run machine) (run machine))
    (hpost : ∀ result other l r, post result other l r →
      l.heap.WellFormed (roots.holdAll (values result))) :
    (run.after machine).heap.WellFormed (run.heldAfter values roots machine) := by
  have hboth : ∀ {l r : Machine}, (diagonal setup).Alike roots.both l r →
      l.heap.WellFormed roots := fun h => wellFormed_of_alike h (Roots.left_both roots)
  simp only [Eval.after, Eval.heldAfter, Eval.ends]
  generalize hleft : run machine = result at h
  generalize hright : run machine = other at h
  cases h with
  | ok h => exact hpost _ _ _ _ h
  | returned h => exact h.wellFormed
  | fault fault h => exact hboth h
  | exhausted h => exact hboth h

/-! ## Every evaluation -/

section

variable {invoke : Invoke}

/-- What follows itself leaves a well-formed heap. -/
theorem wellFormed_of_follows {α : Type} {values : α → List Value} {run : FrameId → Roots → Eval α}
    {post : Held → α → α → Machine → Machine → Prop}
    (follows : (diagonal setup).Follows post run run) (h : machine.heap.WellFormed roots)
    (held : id ∈ roots.frames)
    (hpost : ∀ result other l r, post roots.both result other l r →
      l.heap.WellFormed (roots.holdAll (values result))) :
    ((run id roots).after machine).heap.WellFormed
      ((run id roots).heldAfter values roots machine) := by
  have hagree := follows roots.both machine machine id id (alike_diagonal setup h)
    (List.mem_map_of_mem held)
  rw [Roots.left_both, Roots.right_both, Roots.and_nothing] at hagree
  exact wellFormed_of_agree hagree hpost

variable (calls : (diagonal setup).Calls invoke invoke) (h : machine.heap.WellFormed roots)
  (held : id ∈ roots.frames)

include calls h held

/-- Expressions leave the heap well-formed. -/
theorem wellFormed_evalExpression (expression : Expression) :
    ((evalExpression setup invoke id roots expression).after machine).heap.WellFormed
      ((evalExpression setup invoke id roots expression).heldAfter (fun value => [value]) roots
        machine) :=
  wellFormed_of_follows (Simulation.follows_expression calls expression) h held
    fun _ _ _ _ hvalue => hvalue.wellFormed

/-- Expressions in a row leave the heap well-formed. -/
theorem wellFormed_evalExpressions (expressions : List Expression) :
    ((evalExpressions setup invoke id roots expressions).after machine).heap.WellFormed
      ((evalExpressions setup invoke id roots expressions).heldAfter (fun values => values) roots
        machine) :=
  wellFormed_of_follows (Simulation.follows_expressions calls expressions) h held
    fun _ _ _ _ ⟨hlength, halike⟩ => wellFormed_of_alike halike (roots.left_both_holdAll hlength)

/-- Pairs of hash literals leave the heap well-formed. -/
theorem wellFormed_evalPair (pair : Pair) :
    ((evalPair setup invoke id roots pair).after machine).heap.WellFormed
      ((evalPair setup invoke id roots pair).heldAfter (fun entry => Entry.parts [entry]) roots
        machine) :=
  wellFormed_of_follows (Simulation.follows_pair calls pair) h held
    fun _ _ _ _ ⟨_, halike⟩ => wellFormed_of_alike halike (roots.left_both_holdAll rfl)

/-- Statements leave the heap well-formed. -/
theorem wellFormed_evalStatement (statement : Statement) :
    ((evalStatement setup invoke id roots statement).after machine).heap.WellFormed
      ((evalStatement setup invoke id roots statement).heldAfter Option.toList roots machine) :=
  wellFormed_of_follows (Simulation.follows_statement calls statement) h held
    fun _ _ _ _ hvalue => hvalue.wellFormed

end

/-- What a call leaves is well-formed; what was called is still held. -/
theorem wellFormed_applyValue {setup : Setup} {invoke : Invoke}
    (calls : (diagonal setup).Calls invoke invoke) {roots : Roots} {callee : Value}
    {arguments : List Value} {machine : Machine}
    (h : machine.heap.WellFormed ((roots.hold callee).holdAll arguments)) :
    ((applyValue setup invoke roots callee arguments).after machine).heap.WellFormed
      ((applyValue setup invoke roots callee arguments).heldAfter (fun value => [value])
        (roots.hold callee) machine) := by
  have halike := alike_diagonal setup h
  rw [Roots.both_holdAll] at halike
  have hlisted : (diagonal setup).Listed (roots.both.hold callee callee) arguments arguments
      machine machine := ⟨rfl, halike⟩
  have hagree := Simulation.agree_applyValue calls hlisted
  rw [Roots.left_both, Roots.right_both, Roots.and_nothing] at hagree
  exact wellFormed_of_agree hagree fun _ _ _ _ hvalue => hvalue.wellFormed

/-! ## Programs -/

/-- What was held before a program is held after it. -/
theorem within_heldIn (outcome : Outcome) : roots.Within (outcome.heldIn roots) := by
  rcases outcome with (_ | value) | _ | _
  · exact .refl roots
  · exact roots.within_hold value
  · exact .refl roots
  · exact .refl roots

/-- Programs that end alike leave well-formed heaps. -/
theorem wellFormed_of_ends {ended : Outcome × Machine}
    (h : (diagonal setup).Ends roots.both ended ended) :
    ended.2.heap.WellFormed (ended.1.heldIn roots) := by
  cases h with
  | finished h =>
    cases h with
    | none h => exact wellFormed_of_alike h roots.left_both
    | some h => exact h.wellFormed
  | failed error h => exact wellFormed_of_alike h roots.left_both
  | exhausted h => exact wellFormed_of_alike h roots.left_both

/-- Statements at the top of a program leave the heap well-formed. -/
theorem wellFormed_runStatements (statements : List Statement)
    (h : machine.heap.WellFormed roots) (held : id ∈ roots.frames) :
    (runStatements setup id roots none statements machine).2.heap.WellFormed
      ((runStatements setup id roots none statements machine).1.heldIn roots) := by
  have hends := Simulation.ends_runStatements statements (.none (alike_diagonal setup h))
    (List.mem_map_of_mem held)
  rw [Roots.left_both, Roots.right_both, Roots.and_nothing] at hends
  exact wellFormed_of_ends hends

/-- Whole programs leave the heap well-formed. -/
theorem wellFormed_runProgram (program : Program) (h : machine.heap.WellFormed roots)
    (held : id ∈ roots.frames) :
    (runProgram setup id roots program machine).2.heap.WellFormed
      ((runProgram setup id roots program machine).1.heldIn roots) :=
  (wellFormed_runStatements program.statements h held).collect

end Scriptlet
