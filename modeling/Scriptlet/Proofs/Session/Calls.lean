import Scriptlet.Proofs.Control.Signals

set_option autoImplicit false

/-!
# Where the body of a call begins

Component: the evaluator, where it calls a function.  Specification: section 4.3 on calls, by which
parameters are bound by position in a fresh child environment and the number of arguments is not
checked, and section 9, by which this is to be preserved.

A call binds its parameters, pair by pair with the arguments, in a frame of its own.  Of several
parameters of one name the last that has an argument counts (`boundArgument?`).  What is not bound
so is worth what the environment that the function was made in gives at that time, also if it is a
parameter: nothing but these two decides what a name is worth when the body begins.

Arguments without a parameter are bound nowhere.

By the specification a missing argument shows as a name that is not found.  That is what happens
where the captured environment does not bind the name either; where it does, the name is worth what
it is bound to there, at the time of the call and not when the function was made.

The witness has all cases in one call: a parameter that is repeated, one without argument that is
bound around the function, and one that is bound nowhere.
-/

namespace Scriptlet

/-! ## Arguments by name -/

/-- The argument that a call binds a name to: the last that has a parameter of this name. -/
def boundArgument? (name : String) : List Name → List Value → Option Value
  | parameter :: parameters, argument :: arguments =>
    (boundArgument? name parameters arguments).or
      (if parameter.text = name then some argument else none)
  | _, _ => none

/-- Whether a parameter in some place has a name. -/
def NamedAt (parameters : List Name) (place : Nat) (name : String) : Prop :=
  parameters[place]?.map Name.text = some name

instance (parameters : List Name) (place : Nat) (name : String) :
    Decidable (NamedAt parameters place name) :=
  inferInstanceAs (Decidable (_ = _))

section

variable {name : String} {parameters : List Name} {arguments : List Value} {value : Value}

/-- A name is bound to no argument just if no parameter in a place with an argument has it. -/
theorem boundArgument?_eq_none_iff :
    boundArgument? name parameters arguments = none ↔
      ∀ place < arguments.length, ¬ NamedAt parameters place name := by
  induction parameters generalizing arguments with
  | nil => simp [boundArgument?, NamedAt]
  | cons parameter parameters ih =>
    cases arguments with
    | nil => simp [boundArgument?]
    | cons argument arguments =>
      rw [boundArgument?, Option.or_eq_none_iff, ih, List.length_cons]
      constructor
      · rintro ⟨hrest, hfirst⟩ place hplace
        cases place with
        | zero => simpa [NamedAt] using hfirst
        | succ place => exact hrest place (Nat.lt_of_succ_lt_succ hplace)
      · intro h
        refine ⟨fun place hplace => h (place + 1) (Nat.succ_lt_succ hplace), ?_⟩
        simpa [NamedAt] using h 0 (Nat.succ_pos _)

/-- The last place in which a parameter of the name has an argument is the one that counts. -/
theorem boundArgument?_of_last {place : Nat} (hname : NamedAt parameters place name)
    (hvalue : arguments[place]? = some value)
    (hlast : ∀ later, place < later → later < arguments.length → ¬ NamedAt parameters later name) :
    boundArgument? name parameters arguments = some value := by
  induction parameters generalizing arguments place with
  | nil => cases hname
  | cons parameter parameters ih =>
    cases arguments with
    | nil => cases hvalue
    | cons argument arguments =>
      rw [boundArgument?]
      cases place with
      | zero =>
        have hrest : boundArgument? name parameters arguments = none :=
          boundArgument?_eq_none_iff.mpr fun later hlater =>
            hlast (later + 1) (Nat.succ_pos _) (Nat.succ_lt_succ hlater)
        rw [hrest, Option.none_or, if_pos (Option.some.inj hname)]
        exact hvalue
      | succ place =>
        rw [ih hname hvalue fun later hless hlater =>
          hlast (later + 1) (Nat.succ_lt_succ hless) (Nat.succ_lt_succ hlater), Option.some_or]

/-- What is bound is an argument in the place of a parameter of the name. -/
theorem exists_place_of_boundArgument? (h : boundArgument? name parameters arguments = some value) :
    ∃ place, NamedAt parameters place name ∧ arguments[place]? = some value := by
  induction parameters generalizing arguments with
  | nil => cases h
  | cons parameter parameters ih =>
    cases arguments with
    | nil => cases h
    | cons argument arguments =>
      rw [boundArgument?] at h
      rcases Option.or_eq_some_iff.mp h with hrest | ⟨_, hfirst⟩
      · obtain ⟨place, hname, hvalue⟩ := ih hrest
        exact ⟨place + 1, hname, hvalue⟩
      · split at hfirst
        next hname => exact ⟨0, congrArg some hname, hfirst⟩
        · cases hfirst

end

/-! ## Binding parameters -/

namespace Heap

variable {heap : Heap} {id other : FrameId}

/-- Binding parameters makes no frame alive. -/
theorem isAlive_bindAll (names : List Name) (values : List Value) (heap : Heap)
    (id other : FrameId) : (heap.bindAll id names values).isAlive other = heap.isAlive other := by
  induction names generalizing heap values with
  | nil => simp only [bindAll]
  | cons name names ih =>
    cases values with
    | nil => rfl
    | cons value values => rw [bindAll, ih, isAlive_bind]

/-- Parameters are bound in one frame only. -/
theorem frame?_bindAll_of_ne (names : List Name) (values : List Value) (hne : other ≠ id)
    (heap : Heap) : (heap.bindAll id names values).frame? other = heap.frame? other := by
  induction names generalizing heap values with
  | nil => simp only [bindAll]
  | cons name names ih =>
    cases values with
    | nil => rfl
    | cons value values => rw [bindAll, ih, frame?_bind_of_ne hne]

/-- In that frame a name is bound to its argument, if it has one. -/
theorem binding?_bindAll (alive : heap.isAlive id = true) (names : List Name) (values : List Value)
    (wanted : String) :
    (heap.bindAll id names values).binding? wanted id =
      (boundArgument? wanted names values).or (heap.binding? wanted id) := by
  induction names generalizing heap values with
  | nil => simp only [bindAll, boundArgument?, Option.none_or]
  | cons name names ih =>
    cases values with
    | nil => rfl
    | cons value values =>
      rw [bindAll, ih ((isAlive_bind heap id id name.text value).trans alive), boundArgument?,
        Option.or_assoc]
      congr 1
      by_cases hname : name.text = wanted
      · subst hname
        rw [binding?_bind_self alive, if_pos rfl, Option.some_or]
      · rw [binding?_bind_of_name (Ne.symm hname), if_neg hname, Option.none_or]

/-- A name without an argument is looked up as before. -/
theorem Layered.lookup_bindAll_of_none (h : heap.Layered) (alive : heap.isAlive id = true)
    {names : List Name} {values : List Value} {wanted : String}
    (free : boundArgument? wanted names values = none) (other : FrameId) :
    (heap.bindAll id names values).lookup other wanted = heap.lookup other wanted := by
  induction names generalizing heap values with
  | nil => simp only [bindAll]
  | cons name names ih =>
    cases values with
    | nil => rfl
    | cons value values =>
      rw [boundArgument?, Option.or_eq_none_iff] at free
      have hname : wanted ≠ name.text := by
        rintro rfl
        simp at free
      rw [bindAll, ih (h.bind id name.text value)
        ((isAlive_bind heap id id name.text value).trans alive) free.1]
      exact (h.lookup_bind alive name.text value other).2.2 wanted hname

/-- Making a frame leaves the others as they are, or drops them. -/
theorem WellFormed.frame?_of_allocate {roots : Roots} {outer : FrameId}
    (h : heap.WellFormed (roots.holdFrame outer)) (due : Heap → Bool) {frame : Frame}
    (different : id ≠ (heap.allocate due roots (some outer)).1)
    (here : (heap.allocate due roots (some outer)).2.frame? id = some frame) :
    heap.frame? id = some frame := by
  simp only [Heap.allocate, Option.elim_some] at different here
  rw [frame?_newFrame_of_ne different] at here
  split at here
  · have reached := h.toSound.reachable_of_isAlive_collect (isAlive_iff.mpr ⟨frame, here⟩)
    rwa [h.toSound.frame?_collect_of_reachable reached] at here
  · exact here

end Heap

/-! ## Names in the body of a call -/

/-- How the body of a call begins: what a name that no native function has is worth in its frame,
and what has become of the frames. -/
structure CallBegins (setup : Setup) (parameters : List Name) (arguments : List Value)
    (captured : FrameId) (before : Machine) (call : FrameId) (begun : Machine) : Prop where
  /-- a name is worth the argument in the place of the last parameter of the name that has one -/
  argument : ∀ {invoke : Invoke} {roots : Roots} {name : Name} {place : Nat} {value : Value},
    setup.builtins.find? name.text = none → NamedAt parameters place name.text →
    arguments[place]? = some value →
    (∀ later, place < later → later < arguments.length →
      ¬ NamedAt parameters later name.text) →
    evalExpression setup invoke call roots (.identifier name) begun = .ok value begun
  /-- any other name, what the captured environment gives at the time of the call -/
  enclosing : ∀ {invoke : Invoke} {roots : Roots} {name : Name},
    setup.builtins.find? name.text = none →
    (∀ place < arguments.length, ¬ NamedAt parameters place name.text) →
    evalExpression setup invoke call roots (.identifier name) begun =
      match before.heap.lookup captured name.text with
      | some value => .ok value begun
      | none => .error (.fault (.unbound name.text)) begun
  /-- and that fails if nothing is found, and only then -/
  unbound : ∀ {invoke : Invoke} {roots : Roots} {name : Name},
    setup.builtins.find? name.text = none →
    ((∃ fault after, evalExpression setup invoke call roots (.identifier name) begun =
        .error (.fault fault) after ∧ fault.message = "identifier not found: " ++ name.text) ↔
      (∀ place < arguments.length, ¬ NamedAt parameters place name.text) ∧
        before.heap.lookup captured name.text = none)
  /-- the frame binds nothing but parameters to their arguments -/
  frame : ∃ frame, begun.heap.frame? call = some frame ∧ frame.outer = some captured ∧
    ∀ name value, frame.bindings.lookup name = some value →
      ∃ place, NamedAt parameters place name ∧ arguments[place]? = some value
  /-- and no other frame has changed -/
  others : ∀ {id : FrameId} {frame : Frame}, id ≠ call → begun.heap.frame? id = some frame →
    before.heap.frame? id = some frame

section

variable {setup : Setup} {roots : Roots} {literal : FunctionLiteral} {captured : FrameId}
  {arguments : List Value} {machine : Machine}

/-- A name that no native function has is looked up in the frame. -/
theorem evalExpression_identifier {invoke : Invoke} {frame : FrameId} {name : Name}
    (free : setup.builtins.find? name.text = none) :
    evalExpression setup invoke frame roots (.identifier name) machine =
      match machine.heap.lookup frame name.text with
      | some value => .ok value machine
      | none => .error (.fault (.unbound name.text)) machine := by
  rw [evalExpression, evalName, free]
  simp only [get_bind_apply]
  cases machine.heap.lookup frame name.text <;> rfl

variable (setup roots literal captured arguments machine) in
/-- The frame of a call lies in the captured one, and binds names to their arguments. -/
theorem exists_frame_callMachine :
    let call := callMachine setup roots literal captured arguments machine
    ∃ frame, call.2.heap.frame? call.1 = some frame ∧ frame.outer = some captured ∧
      ∀ name, frame.bindings.lookup name = boundArgument? name literal.parameters arguments := by
  intro call
  have hmade : (machine.heap.allocate setup.due (roots.holdAll arguments) (some captured)).2.frame?
      call.1 = some ⟨[], some captured⟩ := Heap.frame?_allocate_self ..
  have halive := Heap.isAlive_iff.mpr ⟨_, hmade⟩
  obtain ⟨frame, here⟩ := Heap.isAlive_iff.mp
    ((Heap.isAlive_bindAll literal.parameters arguments _ call.1 call.1).trans halive)
  obtain ⟨old, hold, houter, _⟩ := (Heap.Writes.bindAll literal.parameters arguments _).kept
    call.1 frame (Heap.lt_size_of_isAlive halive) here
  rw [hmade] at hold
  cases hold
  refine ⟨frame, here, houter, fun name => ?_⟩
  have hbinding := Heap.binding?_bindAll halive literal.parameters arguments name
  rw [Heap.binding?, here, Heap.binding?, hmade] at hbinding
  exact hbinding.trans Option.or_none

variable (setup literal) in
/-- What a name is bound to when the body of a call begins depends on the arguments and on the
captured environment alone. -/
theorem lookup_callMachine
    (h : machine.heap.WellFormed ((roots.holdAll arguments).holdFrame captured)) (name : String) :
    let call := callMachine setup roots literal captured arguments machine
    call.2.heap.lookup call.1 name =
      (boundArgument? name literal.parameters arguments).or
        (machine.heap.lookup captured name) := by
  intro call
  have hlayered := (h.allocate setup.due).layered
  have halive : (machine.heap.allocate setup.due (roots.holdAll arguments)
      (some captured)).2.isAlive call.1 = true :=
    Heap.isAlive_iff.mpr ⟨_, Heap.frame?_allocate_self ..⟩
  cases hbound : boundArgument? name literal.parameters arguments with
  | some value =>
    refine Heap.lookup_of_binding? ?_
    exact (Heap.binding?_bindAll halive literal.parameters arguments name).trans
      (by rw [hbound, Option.some_or])
  | none =>
    rw [Option.none_or, ← h.lookup_allocate setup.due]
    exact hlayered.lookup_bindAll_of_none halive hbound call.1

/-- A name that is bound to an argument is worth it. -/
theorem evalExpression_of_bound
    (h : machine.heap.WellFormed ((roots.holdAll arguments).holdFrame captured)) {name : Name}
    {value : Value} (hbound : boundArgument? name.text literal.parameters arguments = some value)
    (free : setup.builtins.find? name.text = none) {invoke : Invoke} {others : Roots} :
    let call := callMachine setup roots literal captured arguments machine
    evalExpression setup invoke call.1 others (.identifier name) call.2 = .ok value call.2 := by
  intro call
  rw [evalExpression_identifier free, lookup_callMachine setup literal h, hbound, Option.some_or]

/-- Any other name is worth what the captured environment gives. -/
theorem evalExpression_of_unbound
    (h : machine.heap.WellFormed ((roots.holdAll arguments).holdFrame captured)) {name : Name}
    (hbound : boundArgument? name.text literal.parameters arguments = none)
    (free : setup.builtins.find? name.text = none) {invoke : Invoke} {others : Roots} :
    let call := callMachine setup roots literal captured arguments machine
    evalExpression setup invoke call.1 others (.identifier name) call.2 =
      match machine.heap.lookup captured name.text with
      | some value => .ok value call.2
      | none => .error (.fault (.unbound name.text)) call.2 := by
  intro call
  rw [evalExpression_identifier free, lookup_callMachine setup literal h, hbound, Option.none_or]

/-- So the body of every call begins as it should. -/
theorem callBegins
    (h : machine.heap.WellFormed ((roots.holdAll arguments).holdFrame captured)) :
    let call := callMachine setup roots literal captured arguments machine
    CallBegins setup literal.parameters arguments captured machine call.1 call.2 := by
  intro call
  refine ⟨fun free hname hvalue hlast =>
      evalExpression_of_bound h (boundArgument?_of_last hname hvalue hlast) free,
    fun free hplaces => evalExpression_of_unbound h (boundArgument?_eq_none_iff.mpr hplaces) free,
    ?_, ?_, ?_⟩
  · intro invoke others name free
    rw [← boundArgument?_eq_none_iff]
    constructor
    · rintro ⟨fault, after, hfails, _⟩
      cases hbound : boundArgument? name.text literal.parameters arguments with
      | some value =>
        rw [evalExpression_of_bound h hbound free] at hfails
        cases hfails
      | none =>
        rw [evalExpression_of_unbound h hbound free] at hfails
        cases hfound : machine.heap.lookup captured name.text with
        | some value =>
          rw [hfound] at hfails
          cases hfails
        | none => exact ⟨rfl, rfl⟩
    · rintro ⟨hbound, hfound⟩
      refine ⟨.unbound name.text, call.2, ?_, rfl⟩
      rw [evalExpression_of_unbound h hbound free, hfound]
  · obtain ⟨frame, here, houter, hbindings⟩ :=
      exists_frame_callMachine setup roots literal captured arguments machine
    exact ⟨frame, here, houter, fun name value hvalue =>
      exists_place_of_boundArgument? ((hbindings name).symm.trans hvalue)⟩
  · intro id frame different here
    have hsame := Heap.frame?_bindAll_of_ne literal.parameters arguments different
      (machine.heap.allocate setup.due (roots.holdAll arguments) (some captured)).2
    exact h.frame?_of_allocate setup.due different (hsame.symm.trans here)

end

/-! ## Calls -/

/-- Every argument is evaluated, whether or not there is a parameter for it. -/
theorem length_of_evalExpressions {setup : Setup} {invoke : Invoke} {frame : FrameId}
    {roots : Roots} {expressions : List Expression} {values : List Value}
    {machine after : Machine}
    (h : evalExpressions setup invoke frame roots expressions machine = .ok values after) :
    values.length = expressions.length := by
  induction expressions generalizing roots values machine with
  | nil =>
    rw [evalExpressions] at h
    cases h
    rfl
  | cons expression rest ih =>
    rw [evalExpressions] at h
    obtain ⟨value, middle, _, h⟩ := exists_of_bind_ok h
    obtain ⟨others, last, hothers, h⟩ := exists_of_bind_ok h
    cases h
    rw [List.length_cons, List.length_cons, ih hothers]

/-- A function that is held holds its frame. -/
theorem Heap.WellFormed.holdCaptured {heap : Heap} {roots : Roots} {object : ObjectId}
    {literal : FunctionLiteral} {captured : FrameId} {arguments : List Value}
    (h : heap.WellFormed ((roots.hold (.function object literal captured)).holdAll arguments)) :
    let held := (roots.hold (.function object literal captured)).holdAll arguments
    heap.WellFormed (held.holdFrame captured) := by
  have hcallee : Value.function object literal captured ∈
      ((roots.hold (.function object literal captured)).holdAll arguments).values :=
    List.mem_append_right _ List.mem_cons_self
  exact h.holdFrame (h.leads_alive _ captured (.held hcallee) ⟨_, .self _, rfl⟩)

/-- Calls of functions, with any arguments to any parameters.

The body is evaluated in a frame of its own.  When it begins, a name that no native function has is
worth the argument in the place of the last parameter of this name that has one; if there is none,
what the captured environment gives for it at that time; and if that gives nothing, the name is not
found.  Parameters are bound nowhere else, and arguments without a parameter nowhere.

A call that is written out evaluates the function and all arguments, in the frame of the caller, and
then does this.  What a name is worth does not depend on that frame, nor on any other: if only the
captured environment gives the same, so does the name. -/
theorem call_frames (setup : Setup) (depth : Nat) :
    (∀ {roots : Roots} {object : ObjectId} {literal : FunctionLiteral} {captured : FrameId}
      {arguments : List Value} {machine : Machine},
      let callee := Value.function object literal captured
      machine.heap.WellFormed ((roots.hold callee).holdAll arguments) →
      let start := bodyStart setup roots callee literal captured arguments machine
      applyValue setup (invokeWithin setup (depth + 1)) roots callee arguments machine =
        catchReturn (evalBlock setup (invokeWithin setup depth) start.1 start.2.1 literal.body)
          start.2.2 ∧
      CallBegins setup literal.parameters arguments captured machine start.1 start.2.2) ∧
    (∀ {caller : FrameId} {roots : Roots} {machine middle last : Machine} {callee : Expression}
      {expressions : List Expression} {object : ObjectId} {literal : FunctionLiteral}
      {captured : FrameId} {arguments : List Value} (token : Token),
      let called := Value.function object literal captured
      machine.heap.WellFormed roots → caller ∈ roots.frames →
      evalExpression setup (invokeWithin setup (depth + 1)) caller roots callee machine =
        .ok called middle →
      evalExpressions setup (invokeWithin setup (depth + 1)) caller (roots.hold called) expressions
        middle = .ok arguments last →
      let start := bodyStart setup roots called literal captured arguments last
      arguments.length = expressions.length ∧
      evalExpression setup (invokeWithin setup (depth + 1)) caller roots
          (.call token callee expressions) machine =
        catchReturn (evalBlock setup (invokeWithin setup depth) start.1 start.2.1 literal.body)
          start.2.2 ∧
      CallBegins setup literal.parameters arguments captured last start.1 start.2.2) ∧
    ∀ {roots others : Roots} {object : ObjectId} {literal : FunctionLiteral} {captured : FrameId}
      {arguments : List Value} {machine other : Machine},
      let callee := Value.function object literal captured
      machine.heap.WellFormed ((roots.hold callee).holdAll arguments) →
      other.heap.WellFormed ((others.hold callee).holdAll arguments) →
      ∀ name : Name, setup.builtins.find? name.text = none →
        other.heap.lookup captured name.text = machine.heap.lookup captured name.text →
        let start := bodyStart setup roots callee literal captured arguments machine
        let start' := bodyStart setup others callee literal captured arguments other
        ∀ (invoke : Invoke) (held : Roots) (value : Value),
          evalExpression setup invoke start.1 held (.identifier name) start.2.2 =
              .ok value start.2.2 ↔
            evalExpression setup invoke start'.1 held (.identifier name) start'.2.2 =
              .ok value start'.2.2 := by
  -- a call of a value; a call that is written out, whose arguments are evaluated first; and two
  -- calls whose callers have nothing in common
  refine ⟨?_, ?_, ?_⟩
  · intro roots object literal captured arguments machine callee h
    exact ⟨applyValue_function .., callBegins h.holdCaptured⟩
  · intro caller roots machine middle last callee expressions object literal captured arguments
      token called h held hcallee harguments
    have confined := confined_invokeWithin setup (depth + 1)
    have hmiddle := confined.hold_expression h held hcallee
    have hlast := Eval.wellFormed_of_ok
      (wellFormed_evalExpressions confined.calls hmiddle held expressions) harguments
    refine ⟨length_of_evalExpressions harguments, ?_, callBegins hlast.holdCaptured⟩
    rw [evalExpression, Eval.bind_of_ok hcallee, Eval.bind_of_ok harguments]
    exact applyValue_function ..
  · intro roots others object literal captured arguments machine other callee h h' name free same
      start start' invoke held value
    have hname := lookup_callMachine setup literal h.holdCaptured name.text
    have hname' := lookup_callMachine setup literal h'.holdCaptured name.text
    rw [same] at hname'
    -- what the name is worth depends on the captured frame, which both callers share
    have hsame : start'.2.2.heap.lookup start'.1 name.text =
        start.2.2.heap.lookup start.1 name.text := hname'.trans hname.symm
    rw [evalExpression_identifier free, evalExpression_identifier free, hsame]
    cases start.2.2.heap.lookup start.1 name.text with
    | none => constructor <;> intro hworth <;> cases hworth
    | some found => simp

/-- The literal `fn(a, a, b, c) { }`. -/
def repeated : FunctionLiteral :=
  ⟨default, ["a", "a", "b", "c"].map fun name => ⟨⟨.identifier, name, default⟩⟩,
    ⟨default, [], default⟩⟩

/-- A machine with a frame in which `b` is bound to 7. -/
def boundSeven : Machine := ⟨oneFrame.heap.bind ⟨0⟩ "b" (.integer 7), default, []⟩

/-- The same with another frame, in which `b` is bound to 8. -/
def boundEight : Machine :=
  ⟨(boundSeven.heap.newFrame none).2.bind ⟨1⟩ "b" (.integer 8), default, []⟩

/-- What is bound is a number, so that nothing has to be held for it. -/
theorem wellFormed_boundSeven : boundSeven.heap.WellFormed oneFrame.roots :=
  (reached_oneFrame.wellFormed.hold (.of_madeOf (.of_object?_none rfl))).bind ⟨0⟩ "b"

/-- So it is in the other frame. -/
theorem wellFormed_boundEight : boundEight.heap.WellFormed (oneFrame.roots.holdFrame ⟨1⟩) :=
  ((wellFormed_boundSeven.newFrame none fun _ hid => by cases hid).hold
    (.of_madeOf (.of_object?_none rfl))).bind ⟨1⟩ "b"

/-- The function may be made in the first frame, and held with numbers. -/
theorem Heap.WellFormed.hold_repeated {heap : Heap} {roots : Roots} (h : heap.WellFormed roots)
    (held : ⟨0⟩ ∈ roots.frames) :
    let callee := Value.function ⟨heap.nextObject⟩ repeated ⟨0⟩
    heap.newObject.2.WellFormed ((roots.hold callee).holdAll [.integer 1, .integer 2]) := by
  have hmakes : heap.Makes roots (.function ⟨heap.nextObject⟩ repeated ⟨0⟩) := {
    object := rfl
    contents := fun _ hmem => absurd hmem List.not_mem_nil
    captured := fun _ hid => Option.some.inj hid ▸ held }
  exact ((h.newObject hmakes).hold (.of_madeOf (.of_object?_none rfl))).hold
    (.of_madeOf (.of_object?_none rfl))

/-- Calling this function with 1 and 2 in the first frame: `a` is worth the second of them, `b`,
which is a parameter without argument, what is bound around the function, and `c` nothing.  With the
other frame there, `b` is worth the same. -/
theorem call_frames_repeated :
    let call : Expression :=
      .call default (.function repeated) [.integer default 1, .integer default 2]
    let enter := fun (roots : Roots) (machine : Machine) =>
      bodyStart bareSetup roots (.function ⟨0⟩ repeated ⟨0⟩) repeated ⟨0⟩ [.integer 1, .integer 2]
        ⟨machine.heap.newObject.2, default, []⟩
    let start := enter oneFrame.roots boundSeven
    let start' := enter (oneFrame.roots.holdFrame ⟨1⟩) boundEight
    let worth : FrameId × Roots × Machine → String → EStateM.Result Halt Machine Value :=
      fun start name =>
        evalExpression bareSetup (invokeWithin bareSetup 1) start.1 start.2.1
          (.identifier ⟨⟨.identifier, name, default⟩⟩) start.2.2
    evalExpression bareSetup (invokeWithin bareSetup 2) ⟨0⟩ oneFrame.roots call boundSeven =
      catchReturn (evalBlock bareSetup (invokeWithin bareSetup 1) start.1 start.2.1 repeated.body)
        start.2.2 ∧
    worth start "a" = .ok (.integer 2) start.2.2 ∧
    worth start "b" = .ok (.integer 7) start.2.2 ∧
    (∃ fault after, worth start "c" = .error (.fault fault) after ∧
      fault.message = "identifier not found: c") ∧
    worth start' "b" = .ok (.integer 7) start'.2.2 := by
  intro call enter start start' worth
  obtain ⟨-, hwritten, hsame⟩ := call_frames bareSetup 1
  have hcallee : evalExpression bareSetup (invokeWithin bareSetup 2) ⟨0⟩ oneFrame.roots
      (.function repeated) boundSeven =
        .ok (.function ⟨0⟩ repeated ⟨0⟩) ⟨boundSeven.heap.newObject.2, default, []⟩ := rfl
  have harguments : evalExpressions bareSetup (invokeWithin bareSetup 2) ⟨0⟩
      (oneFrame.roots.hold (.function ⟨0⟩ repeated ⟨0⟩)) [.integer default 1, .integer default 2]
      ⟨boundSeven.heap.newObject.2, default, []⟩ =
        .ok [.integer 1, .integer 2] ⟨boundSeven.heap.newObject.2, default, []⟩ := rfl
  obtain ⟨-, hcall, hbegins⟩ :=
    hwritten default wellFormed_boundSeven List.mem_cons_self hcallee harguments
  refine ⟨hcall, ?_, hbegins.enclosing rfl (by decide),
    (hbegins.unbound rfl).mpr ⟨by decide, rfl⟩, ?_⟩
  · have hplace : NamedAt repeated.parameters 1 "a" := rfl
    exact hbegins.argument rfl hplace rfl fun later hless hlater => by
      simp only [List.length_cons, List.length_nil] at hlater
      omega
  · have hseven := wellFormed_boundSeven.hold_repeated List.mem_cons_self
    have height := wellFormed_boundEight.hold_repeated (List.mem_cons_of_mem _ List.mem_cons_self)
    have hiff := @hsame _ _ _ _ _ _ ⟨boundSeven.heap.newObject.2, default, []⟩
      ⟨boundEight.heap.newObject.2, default, []⟩ hseven height ⟨⟨.identifier, "b", default⟩⟩ rfl rfl
    exact (hiff (invokeWithin bareSetup 1) start'.2.1 (.integer 7)).mp
      (hbegins.enclosing rfl (by decide))

end Scriptlet
