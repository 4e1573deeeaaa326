import Scriptlet.Proofs.Control.Contexts
import Scriptlet.Proofs.Effects.Maintains
import Scriptlet.Proofs.Effects.Statements
import Scriptlet.Proofs.Session.Identity

set_option autoImplicit false

/-!
# What becomes of a halt

Component: the evaluator.  Specification: the rules of section 4.3 for programs, blocks, `return`
and calls, and section 7, by which an error at run time ends everything up to the top of the
evaluation without further effects.

A halt cuts everything short that stands around it, up to the closest call or the end of the
program.  There a `return` ends: the call is worth its value, or the program is.  Any other halt
does not end there.  So it cuts short the caller too, and the caller of that, and at last the
program: if one evaluation is *underway* in another, then the outer one ends as the inner one does
(`Underway.eval_eq_error`).

`Halt` is what an evaluation is cut short by: the signal of a `return`, or a fault.  A context says
what stands around an expression in the text, a call what stands around it in time; `Underway` is
made of both, so that it leads from any expression to every expression that is evaluated on its
behalf.

That nothing is evaluated behind a halt is said by the machine: the outer evaluation ends with the
very machine that the inner one ended with.  So there is no effect left to be asked about.
-/

namespace Scriptlet

/-! ## Calls -/

/-- Native functions are cut short by nothing but faults. -/
theorem faults_run (files : Files) (operation : Intrinsic) (arguments : List Value) :
    Maintains (fun _ => True) (fun halt => ∃ fault, halt = .fault fault) (fun _ => True)
      (operation.run files arguments) := by
  have hencloses : Encloses (fun _ => True) (fun halt => ∃ fault, halt = .fault fault)
      fun _ => True := {
    frames := fun _ _ => trivial
    fault := fun fault => ⟨fault, rfl⟩
    plain := fun _ _ => trivial
    array := iff_of_true trivial fun _ _ => trivial }
  exact hencloses.run files operation fun _ _ => trivial

section

variable {setup : Setup} {depth : Nat} {roots : Roots} {machine ended : Machine} {halt : Halt}

/-- A `return` in a body ends there. -/
theorem not_returned_catchReturn (body : Eval (Option Value)) (machine : Machine) (value : Value)
    (ended : Machine) : catchReturn body machine ≠ .error (.returned value) ended := by
  unfold catchReturn
  cases body machine with
  | ok result next => exact fun h => by cases h
  | error halt next => cases halt <;> exact fun h => by cases h

/-- What else cuts a body short cuts the call short. -/
theorem catchReturn_of_halt {body : Eval (Option Value)} (h : body machine = .error halt ended)
    (uncaught : ∀ value, halt ≠ .returned value) :
    catchReturn body machine = .error halt ended := by
  rw [catchReturn, h]
  cases halt with
  | returned value => exact absurd rfl (uncaught value)
  | fault | exhausted => rfl

/-- No `return` leaves a call. -/
theorem not_returned_applyValue (setup : Setup) (depth : Nat) (roots : Roots) (callee : Value)
    (arguments : List Value) (machine : Machine) (value : Value) (ended : Machine) :
    applyValue setup (invokeWithin setup depth) roots callee arguments machine ≠
      .error (.returned value) ended := by
  cases callee with
  | function object literal captured =>
    cases depth with
    | zero => exact fun h => by cases h
    | succ depth => exact not_returned_catchReturn _ _ _ _
  | builtin builtin =>
    intro h
    have hfaults := faults_run setup.files builtin.operation arguments machine trivial
    rw [applyValue] at h
    rw [h] at hfaults
    obtain ⟨_, fault, hfault⟩ := hfaults
    cases hfault
  | null | integer | boolean | string | array | hash => exact fun h => by cases h

/-- The frame of a call, what is held while its body is evaluated, and the machine in which its body
begins. -/
def bodyStart (setup : Setup) (roots : Roots) (callee : Value) (literal : FunctionLiteral)
    (captured : FrameId) (arguments : List Value) (machine : Machine) : FrameId × Roots × Machine :=
  let call := callMachine setup (roots.hold callee) literal captured arguments machine
  (call.1, (roots.hold callee).holdFrame call.1, call.2)

/-- A call of a function evaluates its body. -/
theorem applyValue_function (setup : Setup) (depth : Nat) (roots : Roots) (object : ObjectId)
    (literal : FunctionLiteral) (captured : FrameId) (arguments : List Value) (machine : Machine) :
    applyValue setup (invokeWithin setup (depth + 1)) roots (.function object literal captured)
        arguments machine =
      let start := bodyStart setup roots (.function object literal captured) literal captured
        arguments machine
      catchReturn (evalBlock setup (invokeWithin setup depth) start.1 start.2.1 literal.body)
        start.2.2 := rfl

/-! ## Evaluations inside others -/

/-- What an evaluation begins with: how deep calls can be nested in it, its frame, what is held, and
the machine. -/
structure Start where
  depth : Nat
  frame : FrameId
  roots : Roots
  machine : Machine

/-- The evaluation of an expression. -/
def Start.eval (setup : Setup) (start : Start) (expression : Expression) :
    EStateM.Result Halt Machine Value :=
  evalExpression setup (invokeWithin setup start.depth) start.frame start.roots expression
    start.machine

/-- Whether control comes from one evaluation to another, through contexts and calls. -/
inductive Underway (setup : Setup) : Start → Expression → Start → Expression → Prop where
  | here {start : Start} {expression : Expression} :
      Underway setup start expression start expression
  /-- to a hole, and on from there -/
  | inside {depth : Nat} {frame : FrameId} {roots inner : Roots} {machine middle : Machine}
      {layers : List Layer} {expression hole : Expression} {last : Start}
      (reaches : Approaches setup (invokeWithin setup depth) frame (layers.map Layer.approach) roots
        machine inner middle)
      (more : Underway setup ⟨depth, frame, inner, middle⟩ expression last hole) :
      Underway setup ⟨depth, frame, roots, machine⟩ (fillAll layers expression) last hole
  /-- to a statement in the body of a function that is called, and on from there -/
  | called {depth : Nat} {frame captured : FrameId} {roots : Roots}
      {machine middle ready next : Machine} {token : Token} {callee : Expression}
      {arguments : List Expression} {object : ObjectId} {literal : FunctionLiteral}
      {values : List Value} {result : Option Value} {body : BlockHole}
      {expression hole : Expression} {last : Start}
      (hcallee : evalExpression setup (invokeWithin setup (depth + 1)) frame roots callee machine =
        .ok (.function object literal captured) middle)
      (harguments : evalExpressions setup (invokeWithin setup (depth + 1)) frame
        (roots.hold (.function object literal captured)) arguments middle = .ok values ready)
      (hbody : literal.body = body.fill expression)
      (hbefore :
        let start := bodyStart setup roots (.function object literal captured) literal captured
          values ready
        evalStatements setup (invokeWithin setup depth) start.1 start.2.1 none body.before
          start.2.2 = .ok result next)
      (more :
        let start := bodyStart setup roots (.function object literal captured) literal captured
          values ready
        Underway setup ⟨depth, start.1, result.elim start.2.1 start.2.1.hold, next⟩ expression last
          hole) :
      Underway setup ⟨depth + 1, frame, roots, machine⟩ (.call token callee arguments) last hole

/-- An evaluation ends as one that is underway in it does, unless that is a `return`. -/
theorem Underway.eval_eq_error {first last : Start} {expression hole : Expression}
    (h : Underway setup first expression last hole) (uncaught : ∀ value, halt ≠ .returned value)
    (hhole : last.eval setup hole = .error halt ended) :
    first.eval setup expression = .error halt ended := by
  induction h with
  | here => exact hhole
  | inside reaches _ ih => exact evalExpression_fillAll reaches (ih hhole)
  | called hcallee harguments hbody hbefore _ ih =>
    have hblock := BlockHole.evalBlock_fill _ hbefore (ih hhole)
    rw [← hbody] at hblock
    rw [Start.eval, evalExpression, Eval.bind_of_ok hcallee, Eval.bind_of_ok harguments,
      applyValue_function]
    exact catchReturn_of_halt hblock uncaught

end

/-! ## All together -/

/-- That halts cut evaluation short in all places, and where they end. -/
structure HaltsCutShort (setup : Setup) : Prop where
  /-- an expression or a statement around a hole ends as the hole does, on the same machine,
  whatever stands behind the hole -/
  around : ∀ {depth : Nat} {frame : FrameId} {roots inner : Roots} {machine middle ended : Machine}
    {approaches : List Approach} {hole : Expression} {halt : Halt},
    Approaches setup (invokeWithin setup depth) frame approaches roots machine inner middle →
    evalExpression setup (invokeWithin setup depth) frame inner hole middle = .error halt ended →
    ∀ layers : List Layer, layers.map Layer.approach = approaches →
      evalExpression setup (invokeWithin setup depth) frame roots (fillAll layers hole) machine =
        .error halt ended ∧
      ∀ statement : StatementHole,
        evalStatement setup (invokeWithin setup depth) frame roots
          (statement.fill (fillAll layers hole)) machine = .error halt ended
  /-- so does a block, if the statements before end normally -/
  block : ∀ {depth : Nat} {frame : FrameId} {roots inner : Roots}
    {machine next middle ended : Machine} {before : List Statement} {result : Option Value}
    {approaches : List Approach} {hole : Expression} {halt : Halt},
    evalStatements setup (invokeWithin setup depth) frame roots none before machine =
      .ok result next →
    Approaches setup (invokeWithin setup depth) frame approaches (result.elim roots roots.hold) next
      inner middle →
    evalExpression setup (invokeWithin setup depth) frame inner hole middle = .error halt ended →
    ∀ (block : BlockHole) (layers : List Layer), block.before = before →
      layers.map Layer.approach = approaches →
      evalBlock setup (invokeWithin setup depth) frame roots (block.fill (fillAll layers hole))
        machine = .error halt ended
  /-- a block with a `return` in it ends there, if all before ends normally -/
  returning : ∀ {depth : Nat} {frame : FrameId} {roots : Roots} {machine next ended : Machine}
    {before after : List Statement} {result : Option Value} {token : Token} {hole : Expression}
    {span : Span} {value : Value},
    evalStatements setup (invokeWithin setup depth) frame roots none before machine =
      .ok result next →
    evalExpression setup (invokeWithin setup depth) frame (result.elim roots roots.hold) hole next =
      .ok value ended →
    ∀ (brace : Token) (whole : Span),
      evalBlock setup (invokeWithin setup depth) frame roots
        ⟨brace, before ++ .returning token hole span :: after, whole⟩ machine =
          .error (.returned value) ended
  /-- a call is worth what its body returns -/
  returned : ∀ {depth : Nat} {roots : Roots} {object : ObjectId} {literal : FunctionLiteral}
    {captured : FrameId} {arguments : List Value} {machine ended : Machine} {value : Value},
    let start := bodyStart setup roots (.function object literal captured) literal captured
      arguments machine
    evalBlock setup (invokeWithin setup depth) start.1 start.2.1 literal.body start.2.2 =
      .error (.returned value) ended →
    applyValue setup (invokeWithin setup (depth + 1)) roots (.function object literal captured)
      arguments machine = .ok value ended
  /-- what fails in its body fails the call -/
  passed : ∀ {depth : Nat} {roots : Roots} {object : ObjectId} {literal : FunctionLiteral}
    {captured : FrameId} {arguments : List Value} {machine ended : Machine} {fault : Fault},
    let start := bodyStart setup roots (.function object literal captured) literal captured
      arguments machine
    evalBlock setup (invokeWithin setup depth) start.1 start.2.1 literal.body start.2.2 =
      .error (.fault fault) ended →
    applyValue setup (invokeWithin setup (depth + 1)) roots (.function object literal captured)
      arguments machine = .error (.fault fault) ended
  /-- no `return` leaves a call -/
  contained : ∀ {depth : Nat} {roots : Roots} {callee : Value} {arguments : List Value}
    {machine ended : Machine} {value : Value},
    applyValue setup (invokeWithin setup depth) roots callee arguments machine ≠
      .error (.returned value) ended
  /-- nor a program, which is worth what one of its statements returns -/
  finished : ∀ {frame : FrameId} {roots : Roots} {machine middle ended : Machine}
    {before : List Statement} {last : Option Value} {statement : Statement} {value : Value},
    Completes setup frame roots none before machine last middle →
    execute setup frame (last.elim roots roots.hold) statement middle =
      .error (.returned value) ended →
    ∀ after, runProgram setup frame roots ⟨before ++ statement :: after⟩ machine =
      (.finished (some value), (ended.collect (roots.hold value)).2)
  /-- a fault cuts short all that it is underway in, through every call -/
  underway : ∀ {first last : Start} {expression hole : Expression} {ended : Machine}
    {fault : Fault},
    Underway setup first expression last hole →
    last.eval setup hole = .error (.fault fault) ended →
    first.eval setup expression = .error (.fault fault) ended
  /-- and fails the program -/
  failed : ∀ {frame : FrameId} {roots : Roots} {machine middle ended : Machine}
    {before : List Statement} {value : Option Value} {expression hole : Expression} {last : Start}
    {fault : Fault},
    Completes setup frame roots none before machine value middle →
    Underway setup ⟨setup.callDepth, frame, value.elim roots roots.hold, middle⟩ expression last
      hole →
    last.eval setup hole = .error (.fault fault) ended →
    ∀ (statement : StatementHole) (after : List Statement),
      runProgram setup frame roots ⟨before ++ statement.fill expression :: after⟩ machine =
        (.failed ⟨(statement.fill expression).span, fault⟩, (ended.collect roots).2)

/-- A `return` and a fault cut everything short that stands around them, whatever stands behind
them, and leave the machine as it was where they arose.  A `return` ends at the closest call or with
the program, and a fault at nothing but the end of the program. -/
theorem halts_cut_short (setup : Setup) : HaltsCutShort setup where
  around := by
    rintro depth frame roots inner machine middle ended _ hole halt reaches hhole layers rfl
    have hexpression := evalExpression_fillAll reaches hhole
    exact ⟨hexpression, fun statement => statement.evalStatement_fill hexpression⟩
  block := by
    rintro depth frame roots inner machine next middle ended _ result _ hole halt hbefore reaches
      hhole block layers rfl rfl
    exact block.evalBlock_fill hbefore (evalExpression_fillAll reaches hhole)
  returning := fun hbefore hhole _ _ => by
    rw [evalBlock]
    exact evalStatements_append hbefore (evalStatement_returning _ _ hhole) _
  returned := fun h => (applyValue_function ..).trans (catchReturn_of_ends (.inl h))
  passed := fun h =>
    (applyValue_function ..).trans (catchReturn_of_halt h fun _ => Halt.noConfusion)
  contained := fun {depth roots callee arguments machine ended value} =>
    not_returned_applyValue setup depth roots callee arguments machine value ended
  finished := by
    intro frame roots machine middle ended before last statement value hbefore hstatement after
    have hcut : CutShort setup frame roots none (before ++ statement :: after) machine before
        statement after last middle (.returned value) ended := ⟨rfl, hbefore, hstatement⟩
    rw [runProgram, hcut.run]
    rfl
  underway := fun h hhole => h.eval_eq_error (fun _ => Halt.noConfusion) hhole
  failed := by
    intro frame roots machine middle ended before value expression hole last fault hbefore h hhole
      statement after
    have hexpression := h.eval_eq_error (fun _ => Halt.noConfusion) hhole
    have hcut : CutShort setup frame roots none (before ++ statement.fill expression :: after)
        machine before (statement.fill expression) after value middle (.fault fault) ended :=
      ⟨rfl, hbefore, statement.evalStatement_fill hexpression⟩
    rw [runProgram, hcut.run]
    rfl

/-- A body with a statement that fails. -/
def failing : BlockHole := ⟨default, [], .expression default default, [], default⟩

/-- What fails in it: no truth value has a negative. -/
def negatedTrue : Expression := .unary default .negate (.boolean default true)

/-- A fault in a call that is an element of an array is where the array ends, and the element behind
the call is not looked at. -/
theorem halts_cut_short_called :
    let start : Start := ⟨1, ⟨0⟩, oneFrame.roots, ⟨oneFrame.heap, default, []⟩⟩
    let call : Expression := .call default (.function ⟨default, [], failing.fill negatedTrue⟩) []
    ∃ ended, start.eval bareSetup (fillAll [.inElement default [] [.integer default 1]] call) =
      .error (.fault (.noPrefix .negate .boolean)) ended := by
  intro start call
  have hcall : Underway bareSetup start call ⟨0, ⟨1⟩, _, _⟩ negatedTrue :=
    .called rfl rfl rfl rfl .here
  have harray : Underway bareSetup start
      (fillAll [.inElement default [] [.integer default 1]] call) _ _ :=
    .inside (.cons (.elements rfl) .nil) hcall
  exact ⟨_, (halts_cut_short bareSetup).underway harray rfl⟩

end Scriptlet
