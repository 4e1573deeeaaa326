import Mathlib.Data.ENat.Basic
import Scriptlet.Evaluate
import Scriptlet.Interpreter
import Scriptlet.Proofs.Console.Dialogue
import Scriptlet.Proofs.Effects.Statements

set_option autoImplicit false

/-!
# Evaluations are dialogues

Component: the evaluator, with the native functions.  Specification: section 5, by which evaluation
is an ordinary recursive call tree without points where it waits, and section 4.4, by which a native
function is invoked on its arguments directly.

Whatever is evaluated, all that it does with the console is to call native functions
(`talks_execute`): given the rest of the machine, there is a dialogue that is the same for every
console.  Most steps of an evaluation do not see the console at all.

A dialogue depends on the state without its console.  This is what makes it worth having: the same
dialogue tells of all consoles, so that nothing of the input can have come into a result but by a
request.

The proof goes along the syntax, and along the depth of calls.  Two lemmas do the work: dialogues
can be put one behind the other (`Talks.bind`), and a computation may look at the state if it does
not look at the console (`Talks.get`).
-/

namespace Scriptlet

/-- Whether a dialogue leads a computation: given the rest of the state, it tells how the
computation ends for every console with at most so much input. -/
def Dialogue.Leads {ε σ α : Type} [HasConsole σ] (dialogue : Dialogue (EStateM.Result ε σ α))
    (bound : ℕ∞) (run : EStateM ε σ α) (state : σ) : Prop :=
  ∀ console : Console, (console.input.length : ℕ∞) ≤ bound →
    run (HasConsole.put console state) =
      putConsole (dialogue.run console).2 (dialogue.run console).1

/-- Whether a computation is led by a dialogue, which makes allowed requests only. -/
def Talks (allowed : Request → Prop) (bound : ℕ∞) {ε σ α : Type} [HasConsole σ]
    (run : EStateM ε σ α) : Prop :=
  ∀ state, ∃ dialogue : Dialogue (EStateM.Result ε σ α),
    dialogue.Only allowed ∧ dialogue.Leads bound run state

/-- Whether a computation uses the console by calling native functions only. -/
abbrev OnlyCalls {ε σ α : Type} [HasConsole σ] (run : EStateM ε σ α) : Prop :=
  Talks (fun request => request.isNative = true) ⊤ run

/-- A dialogue never leaves more input than there was. -/
theorem Dialogue.length_input_le {ρ : Type} (dialogue : Dialogue ρ) (console : Console) :
    (dialogue.run console).2.input.length ≤ console.input.length := by
  induction dialogue generalizing console with
  | ended result => exact Nat.le_refl _
  | ask request next ih => exact (ih _ _).trans (request.length_input_le console)

namespace Talks

variable {allowed : Request → Prop} {bound : ℕ∞} {ε σ α β : Type} [HasConsole σ]

/-- More may be allowed, and less input be considered. -/
theorem mono {others : Request → Prop} {less : ℕ∞} {run : EStateM ε σ α}
    (h : Talks allowed bound run) (hsub : ∀ request, allowed request → others request)
    (hless : less ≤ bound) : Talks others less run := by
  intro state
  obtain ⟨dialogue, honly, hrun⟩ := h state
  exact ⟨dialogue, honly.mono hsub, fun console hfits => hrun console (hfits.trans hless)⟩

/-- What is the same on every console asks for nothing. -/
theorem of_blind {run : EStateM ε σ α} (blind : Blind run) : Talks allowed bound run :=
  fun state => ⟨.ended (run state), trivial, fun console _ => blind.put console state⟩

/-- To return a value asks for nothing. -/
theorem pure (result : α) : Talks allowed bound (pure result : EStateM ε σ α) :=
  of_blind ⟨fun _ _ => rfl⟩

/-- To fail asks for nothing. -/
theorem throw (reason : ε) : Talks allowed bound (throw reason : EStateM ε σ α) :=
  of_blind ⟨fun _ _ => rfl⟩

/-- One dialogue goes on where another has ended. -/
theorem bind {run : EStateM ε σ α} {next : α → EStateM ε σ β} (h : Talks allowed bound run)
    (hnext : ∀ result, Talks allowed bound (next result)) : Talks allowed bound (run >>= next) := by
  intro state
  obtain ⟨dialogue, honly, hrun⟩ := h state
  have hrest : ∀ ending : EStateM.Result ε σ α, ∃ rest : Dialogue (EStateM.Result ε σ β),
      rest.Only allowed ∧ ∀ console : Console, (console.input.length : ℕ∞) ≤ bound →
        goOn next (putConsole console ending) =
          putConsole (rest.run console).2 (rest.run console).1 := by
    intro ending
    cases ending with
    | ok result state => exact hnext result state
    | error reason state => exact ⟨.ended (.error reason state), trivial, fun _ _ => rfl⟩
  -- what comes after depends on the ending, but on no console: one dialogue for each ending
  choose rest honly' hrest using hrest
  refine ⟨dialogue.bind rest, honly.bind honly', fun console hfits => ?_⟩
  have hless := Nat.cast_le (α := ℕ∞).mpr (dialogue.length_input_le console)
  rw [Dialogue.run_bind, bind_apply, hrun console hfits, hrest _ _ (hless.trans hfits)]

/-- A computation may look at the state, but not at the console. -/
theorem get {next : σ → EStateM ε σ α} (h : ∀ state, Talks allowed bound (next state))
    (same : ∀ state console, next (HasConsole.put console state) = next state) :
    Talks allowed bound (get >>= next) := by
  intro state
  obtain ⟨dialogue, honly, hrun⟩ := h state state
  refine ⟨dialogue, honly, fun console hfits => ?_⟩
  rw [← hrun console hfits, ← same state console]
  rfl

/-- A computation that makes one request, and ends as the answer says. -/
theorem ask {request : Request} (hallowed : allowed request) {run : EStateM ε σ α}
    (ending : σ → request.Reply → EStateM.Result ε σ α)
    (h : ∀ state console, run (HasConsole.put console state) =
      putConsole (request.answer console).2 (ending state (request.answer console).1)) :
    Talks allowed bound run :=
  fun state => ⟨.ask request fun reply => .ended (ending state reply),
    ⟨hallowed, fun _ => trivial⟩, fun console _ => h state console⟩

/-- The ending of a computation may be taken for another. -/
theorem adapt {ε' β : Type} {run : EStateM ε σ α}
    {turn : EStateM.Result ε σ α → EStateM.Result ε' σ β} (h : Talks allowed bound run)
    (same : ∀ console ending, turn (putConsole console ending) = putConsole console (turn ending)) :
    Talks allowed bound (fun state => turn (run state) : EStateM ε' σ β) := by
  intro state
  obtain ⟨dialogue, honly, hrun⟩ := h state
  refine ⟨dialogue.bind fun ending => .ended (turn ending), honly.bind fun _ => trivial,
    fun console hfits => ?_⟩
  rw [Dialogue.run_bind]
  exact (congrArg turn (hrun console hfits)).trans (same _ _)

/-- Whatever is decided, one of the two is done. -/
theorem ite {condition : Prop} [Decidable condition] {first second : EStateM ε σ α}
    (h : Talks allowed bound first) (h' : Talks allowed bound second) :
    Talks allowed bound (if condition then first else second) := by
  split
  · exact h
  · exact h'

/-! ### Steps of an evaluation -/

/-- A fault asks for nothing. -/
theorem fail (fault : Fault) : Talks allowed bound (Eval.fail fault : Eval α) := throw _

/-- Nor does what is a value or a fault already. -/
theorem ofExcept (result : Except Fault α) : Talks allowed bound (Eval.ofExcept result) := by
  cases result with
  | ok value => exact pure value
  | error fault => exact fail fault

/-- A step on the heap does not see the console. -/
theorem onHeap (change : Heap → α × Heap) : Talks allowed bound (Eval.onHeap change) :=
  of_blind ⟨fun _ _ => rfl⟩

/-- A new array asks for nothing. -/
theorem newArray (elements : List Value) : Talks allowed bound (Eval.newArray elements) :=
  (onHeap _).bind fun _ => pure _

/-- A new hash asks for nothing. -/
theorem newHash (entries : List Entry) : Talks allowed bound (Eval.newHash entries) :=
  (onHeap _).bind fun _ => pure _

/-- A new function asks for nothing. -/
theorem newFunction (literal : FunctionLiteral) (frame : FrameId) :
    Talks allowed bound (Eval.newFunction literal frame) :=
  (onHeap _).bind fun _ => pure _

/-- A native function is called by asking for it. -/
theorem native (files : Files) (operation : Intrinsic) (arguments : List Value) :
    OnlyCalls (operation.run files arguments) := by
  intro machine
  refine ⟨.ask (.native files operation arguments machine) .ended, ⟨rfl, fun _ => trivial⟩,
    fun console _ => ?_⟩
  simp only [Dialogue.run, Request.answer]
  cases operation.run files arguments (HasConsole.put console machine) <;> rfl

/-- A name is looked up among native functions and in the heap. -/
theorem evalName (setup : Setup) (frame : FrameId) (name : String) :
    Talks allowed bound (evalName setup frame name) := by
  unfold Scriptlet.evalName
  split
  · exact pure _
  · refine get (fun machine => ?_) fun _ _ => rfl
    split
    · exact pure _
    · exact fail _

end Talks

/-! ## Evaluations -/

/-- Whether calls of functions use the console by calling native functions only. -/
def Invoke.OnlyCalls (invoke : Invoke) : Prop :=
  ∀ roots literal frame arguments, Scriptlet.OnlyCalls (invoke roots literal frame arguments)

section

variable {setup : Setup} {invoke : Invoke}

/-- A callee is a function, a native function, or no callee. -/
theorem talks_applyValue (h : invoke.OnlyCalls) (roots : Roots) (callee : Value)
    (arguments : List Value) : OnlyCalls (applyValue setup invoke roots callee arguments) := by
  unfold applyValue
  split
  · exact h _ _ _ _
  · exact .native _ _ _
  · exact .fail _

mutual

/-- Each kind of expression is put together of parts that are dialogues. -/
theorem talks_expression (h : invoke.OnlyCalls) : (expression : Expression) →
    ∀ (frame : FrameId) (roots : Roots),
      OnlyCalls (evalExpression setup invoke frame roots expression)
  | .identifier name, frame, roots => by
    simp only [evalExpression]
    exact .evalName _ _ _
  | .integer _ value, frame, roots | .string token, frame, roots
  | .boolean _ value, frame, roots => by
    simp only [evalExpression]
    exact .pure _
  | .unary _ operator right, frame, roots => by
    simp only [evalExpression]
    exact (talks_expression h right frame roots).bind fun _ => .ofExcept _
  | .binary _ left operator right, frame, roots => by
    simp only [evalExpression]
    refine (talks_expression h left frame roots).bind fun value => ?_
    exact (talks_expression h right frame (roots.hold value)).bind fun _ => .ofExcept _
  | .conditional _ condition consequence alternative, frame, roots => by
    simp only [evalExpression]
    refine (talks_expression h condition frame roots).bind fun value => .ite ?_ ?_
    · exact (talks_block h consequence frame (roots.hold value)).bind fun _ => .pure _
    · exact (talks_alternative h alternative frame (roots.hold value)).bind fun _ => .pure _
  | .function literal, frame, roots => by
    simp only [evalExpression]
    exact .newFunction _ _
  | .call _ callee arguments, frame, roots => by
    simp only [evalExpression]
    refine (talks_expression h callee frame roots).bind fun value => ?_
    refine (talks_expressions h arguments frame (roots.hold value)).bind fun values => ?_
    exact talks_applyValue h roots value values
  | .array _ elements, frame, roots => by
    simp only [evalExpression]
    exact (talks_expressions h elements frame roots).bind fun _ => .newArray _
  | .index _ left position, frame, roots => by
    simp only [evalExpression]
    refine (talks_expression h left frame roots).bind fun value => ?_
    exact (talks_expression h position frame (roots.hold value)).bind fun _ => .ofExcept _
  | .hash _ pairs, frame, roots => by
    simp only [evalExpression]
    exact (talks_pairs h pairs frame roots []).bind fun _ => .newHash _

/-- Expressions in a row are evaluated one behind the other. -/
theorem talks_expressions (h : invoke.OnlyCalls) : (expressions : List Expression) →
    ∀ (frame : FrameId) (roots : Roots),
      OnlyCalls (evalExpressions setup invoke frame roots expressions)
  | [], frame, roots => by
    simp only [evalExpressions]
    exact .pure _
  | expression :: rest, frame, roots => by
    simp only [evalExpressions]
    refine (talks_expression h expression frame roots).bind fun value => ?_
    exact (talks_expressions h rest frame (roots.hold value)).bind fun _ => .pure _

/-- The pairs of a hash literal are a dialogue, too. -/
theorem talks_pairs (h : invoke.OnlyCalls) : (pairs : List Pair) →
    ∀ (frame : FrameId) (roots : Roots) (entries : List Entry),
      OnlyCalls (evalPairs setup invoke frame roots entries pairs)
  | [], frame, roots, entries => by
    simp only [evalPairs]
    exact .pure _
  | pair :: rest, frame, roots, entries => by
    simp only [evalPairs]
    refine (talks_pair h pair frame (roots.holdAll (Entry.parts entries))).bind fun entry => ?_
    exact talks_pairs h rest frame roots (insertEntry entry entries)

/-- So is a pair, in which the name comes before the value. -/
theorem talks_pair (h : invoke.OnlyCalls) : (pair : Pair) → ∀ (frame : FrameId) (roots : Roots),
    OnlyCalls (evalPair setup invoke frame roots pair)
  | ⟨key, value⟩, frame, roots => by
    simp only [evalPair]
    refine (talks_expression h key frame roots).bind fun name => ?_
    refine (talks_expression h value frame (roots.hold name)).bind fun value => ?_
    exact (Talks.ofExcept _).bind fun _ => .pure _

/-- An alternative may be absent. -/
theorem talks_alternative (h : invoke.OnlyCalls) : (alternative : Option Block) →
    ∀ (frame : FrameId) (roots : Roots),
      OnlyCalls (evalAlternative setup invoke frame roots alternative)
  | none, frame, roots => by
    simp only [evalAlternative]
    exact .pure _
  | some block, frame, roots => by
    simp only [evalAlternative]
    exact talks_block h block frame roots

/-- A block is its statements. -/
theorem talks_block (h : invoke.OnlyCalls) : (block : Block) →
    ∀ (frame : FrameId) (roots : Roots), OnlyCalls (evalBlock setup invoke frame roots block)
  | ⟨_, statements, _⟩, frame, roots => by
    simp only [evalBlock]
    exact talks_statements h statements frame roots none

/-- Statements are executed one behind the other. -/
theorem talks_statements (h : invoke.OnlyCalls) : (statements : List Statement) →
    ∀ (frame : FrameId) (roots : Roots) (last : Option Value),
      OnlyCalls (evalStatements setup invoke frame roots last statements)
  | [], frame, roots, last => by
    simp only [evalStatements]
    exact .pure _
  | statement :: rest, frame, roots, last => by
    simp only [evalStatements]
    refine (talks_statement h statement frame (last.elim roots roots.hold)).bind fun value => ?_
    exact talks_statements h rest frame roots value

/-- A statement is its expression, and what is done with the value. -/
theorem talks_statement (h : invoke.OnlyCalls) : (statement : Statement) →
    ∀ (frame : FrameId) (roots : Roots),
      OnlyCalls (evalStatement setup invoke frame roots statement)
  | .binding _ name value _, frame, roots => by
    simp only [evalStatement]
    exact (talks_expression h value frame roots).bind fun _ => .onHeap _
  | .returning _ value _, frame, roots => by
    simp only [evalStatement]
    exact (talks_expression h value frame roots).bind fun _ => .throw _
  | .expression _ value _, frame, roots => by
    simp only [evalStatement]
    exact (talks_expression h value frame roots).bind fun _ => .pure _

end

/-- How a call ends whose body ends in some way. -/
def callEnding : EStateM.Result Halt Machine (Option Value) → EStateM.Result Halt Machine Value
  | .ok value machine => .ok (value.getD .null) machine
  | .error (.returned value) machine => .ok value machine
  | .error halt machine => .error halt machine

/-- How a body ends is taken for how the call ends. -/
theorem talks_catchReturn {body : Eval (Option Value)} (h : OnlyCalls body) :
    OnlyCalls (catchReturn body) := by
  have hending : OnlyCalls (fun machine => callEnding (body machine) : Eval Value) := by
    refine h.adapt fun console ending => ?_
    rcases ending with ⟨value, machine⟩ | ⟨_ | _ | _, machine⟩ <;> rfl
  exact hending

/-- A call uses the console by calling native functions only, however deep calls are nested. -/
theorem onlyCalls_invokeWithin (setup : Setup) (depth : Nat) :
    (invokeWithin setup depth).OnlyCalls := by
  induction depth with
  | zero => exact fun _ _ _ _ => .throw _
  | succ depth ih =>
    intro roots literal frame arguments
    refine (Talks.onHeap _).bind fun call => (Talks.onHeap _).bind fun _ => ?_
    exact talks_catchReturn (talks_block ih literal.body call (roots.holdFrame call))

end

/-- In particular the statements of a program are dialogues. -/
theorem talks_execute (setup : Setup) (frame : FrameId) (roots : Roots) (statement : Statement) :
    OnlyCalls (execute setup frame roots statement) :=
  talks_statement (onlyCalls_invokeWithin setup _) statement frame roots

/-- So are calls that a host makes. -/
theorem talks_applyCallable (setup : Setup) (roots : Roots) (callee : Value)
    (arguments : List Value) : OnlyCalls (applyCallable setup roots callee arguments) :=
  talks_applyValue (onlyCalls_invokeWithin setup _) roots callee arguments

/-! ## Programs -/

/-- An evaluation that ends normally in any case, with how it ended. -/
def attempt {ε σ α ε' : Type} (run : EStateM ε σ α) : EStateM ε' σ (Except ε α) := fun state =>
  match run state with
  | .ok result state => .ok (.ok result) state
  | .error reason state => .ok (.error reason) state

/-- An ending in any way as a normal one. -/
def attemptEnding {ε σ α ε' : Type} :
    EStateM.Result ε σ α → EStateM.Result ε' σ (Except ε α)
  | .ok result state => .ok (.ok result) state
  | .error reason state => .ok (.error reason) state

section

variable {allowed : Request → Prop} {bound : ℕ∞} {ε σ α ε' : Type} [HasConsole σ]

/-- It is the same dialogue, with another result. -/
theorem Talks.attempt {run : EStateM ε σ α} (h : Talks allowed bound run) :
    Talks allowed bound (attempt run : EStateM ε' σ (Except ε α)) := by
  have hending : Talks allowed bound
      (fun state => attemptEnding (run state) : EStateM ε' σ (Except ε α)) := by
    refine h.adapt fun console ending => ?_
    rcases ending with ⟨result, state⟩ | ⟨reason, state⟩ <;> rfl
  exact hending

/-- A change of the state that neither sees nor changes the console. -/
theorem Talks.modifyGet {change : σ → α × σ} (h : ∀ state console,
      change (HasConsole.put console state) =
        ((change state).1, HasConsole.put console (change state).2)) :
    Talks allowed bound (modifyGet change : EStateM ε σ α) :=
  of_blind ⟨fun console state => by
    rw [modifyGet_apply, modifyGet_apply, h state console]
    rfl⟩

/-- A change of the state by a computation, whose ending is told by its result. -/
theorem talks_settled {β : Type} {run : EStateM ε σ α} (h : Talks allowed bound run)
    (result : Except ε α → β) {change : σ → β × σ} (hchange : ∀ state, change state =
      match run state with
      | .ok value state => (result (.ok value), state)
      | .error reason state => (result (.error reason), state)) :
    Talks allowed bound (modifyGet change : EStateM ε' σ β) := by
  have hattempt : (modifyGet change : EStateM ε' σ β) =
      attempt run >>= fun ending => pure (result ending) := by
    funext state
    rw [modifyGet_apply, bind_apply, attempt, hchange]
    rcases run state with ⟨_, _⟩ | ⟨_, _⟩ <;> rfl
  rw [hattempt]
  exact h.attempt.bind fun _ => .pure _

/-- Statements at the top of a program, one after the other, with collections between them. -/
theorem talks_runStatements (setup : Setup) (frame : FrameId) (roots : Roots)
    (statements : List Statement) (last : Option Value) :
    OnlyCalls (modifyGet (runStatements setup frame roots last statements) :
      EStateM ε Machine Outcome) := by
  induction statements generalizing last with
  | nil => exact .modifyGet fun _ _ => rfl
  | cons statement rest ih =>
    -- running statements catches what cuts one short, and does not go on from it
    have hcons : (modifyGet (runStatements setup frame roots last (statement :: rest)) :
        EStateM ε Machine Outcome) =
        (do
          match ← attempt (execute setup frame (last.elim roots roots.hold) statement) with
          | .ok value => modifyGet (runStatements setup frame roots value rest)
          | .error halt => pure (halt.outcome statement.span)) := by
      funext machine
      rw [modifyGet_apply, bind_apply, attempt, runStatements]
      rcases execute setup frame (last.elim roots roots.hold) statement machine with
        ⟨value, machine⟩ | ⟨_ | _ | _, machine⟩ <;> rfl
    rw [hcons]
    refine (Talks.attempt (talks_execute setup frame _ statement)).bind fun result => ?_
    cases result with
    | ok value => exact ih value
    | error halt => exact .pure _

/-- So a program is a dialogue. -/
theorem talks_runProgram (setup : Setup) (frame : FrameId) (roots : Roots) (program : Program) :
    OnlyCalls (modifyGet (runProgram setup frame roots program) : EStateM ε Machine Outcome) := by
  have hcollect : (modifyGet (runProgram setup frame roots program) : EStateM ε Machine Outcome) =
      (do
        let outcome ← modifyGet (runStatements setup frame roots none program.statements)
        modifyGet fun machine => (outcome, (machine.collect (outcome.heldIn roots)).2)) := rfl
  rw [hcollect]
  exact (talks_runStatements setup frame roots _ none).bind fun _ => .modifyGet fun _ _ => rfl

/-- How a script ends whose program ends in some way. -/
def Outcome.script : Outcome → ScriptResult
  | .finished _ => .completed
  | .failed error => .failed error
  | .exhausted => .exhausted

/-- So is a script. -/
theorem talks_runScript (setup : Setup) (frame : FrameId) (roots : Roots) (text : String) :
    OnlyCalls (modifyGet (runScript setup frame roots text) : EStateM ε Machine ScriptResult) := by
  have hscript : (modifyGet (runScript setup frame roots text) : EStateM ε Machine ScriptResult) =
      if (parse text).errors.isEmpty then
        modifyGet (runProgram setup frame roots (parse text).program) >>= fun outcome =>
          pure outcome.script
      else pure (.rejected (parse text).errors) := by
    funext machine
    by_cases hparsed : (parse text).errors.isEmpty = true
    · rw [if_pos hparsed, modifyGet_apply, bind_apply, modifyGet_apply, runScript, if_pos hparsed]
      rcases runProgram setup frame roots (parse text).program machine with ⟨_ | _ | _, machine⟩ <;>
        rfl
    · rw [if_neg hparsed, modifyGet_apply, runScript, if_neg hparsed]
      rfl
  rw [hscript]
  exact .ite ((talks_runProgram setup frame roots _).bind fun _ => .pure _) (.pure _)

end

end Scriptlet
