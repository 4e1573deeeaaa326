import Scriptlet.Proofs.Console.Conversation
import Scriptlet.Session.Command

set_option autoImplicit false

/-!
# Sessions are dialogues

Component: the session of a host, with its commands.  Specification: section 6 on the contract
between the evaluator and its host, and section 10.6 on the one context of input and output that is
handed to the evaluator.

A host that gives one command after another, some of which run programs, hold conversations or read
lines of their own, shares one console with all of them.

A command is written as a sequence of steps on the session: it looks up a frame that is held under a
name, works on the machine, and holds what came of it.  Most steps neither see nor change the
console (`Step.speaks_modify`), so there is one lemma for each of the few kinds of steps, and the
theorem about commands (`speaks_perform`) only follows how they are put together.

Only the prompt is bounded by the input that there is: a conversation is one dialogue for all
consoles with at most so many bytes.  This is why the bound is carried along.
-/

namespace Scriptlet

namespace Step

variable {bound : ℕ∞} {α β : Type}

/-! ## Steps of a session -/

/-- How a step of a session ends whose machine ends in some way. -/
def machineEnding {ε : Type} (session : Session) :
    EStateM.Result ε Machine α → EStateM.Result ε Session α
  | .ok result machine => .ok result { session with machine := machine }
  | .error reason machine => .error reason { session with machine := machine }

/-- A step on the machine is a dialogue if the change of the machine is one. -/
theorem speaks_onMachine {change : Setup → Roots → Machine → α × Machine}
    (h : ∀ setup roots,
      Speaks bound (modifyGet (change setup roots) : EStateM Mistake Machine α)) :
    Speaks bound (onMachine change) := by
  intro session
  obtain ⟨dialogue, honly, hrun⟩ := h session.setup session.roots session.machine
  refine ⟨dialogue.bind fun ending => .ended (machineEnding session ending),
    honly.bind fun _ => trivial, fun console hfits => ?_⟩
  rw [Dialogue.run_bind]
  have hmachine : onMachine change (HasConsole.put console session) =
      machineEnding session ((modifyGet (change session.setup session.roots) :
        EStateM Mistake Machine α) (HasConsole.put console session.machine)) := rfl
  rw [hmachine, hrun console hfits]
  generalize dialogue.run console = ended
  obtain ⟨_ | _, console⟩ := ended <;> rfl

/-- An evaluation for the host uses the console as any evaluation does. -/
theorem speaks_evaluate {evaluation : Setup → Roots → Eval α}
    (h : ∀ setup roots, OnlyCalls (evaluation setup roots)) :
    Speaks bound (evaluate evaluation) := by
  refine speaks_onMachine fun setup roots =>
    talks_settled (h setup roots).speaks id fun machine => ?_
  cases evaluation setup roots machine <;> rfl

/-- Steps that leave the machine alone ask for nothing. -/
theorem speaks_modify (change : Session → Session)
    (same : ∀ session console,
      change (HasConsole.put console session) = HasConsole.put console (change session)) :
    Speaks bound (modify change : Step Unit) :=
  .modifyGet fun session console => congrArg (Prod.mk ()) (same session console)

/-- To know the digest is to ask for nothing. -/
theorem speaks_digest : Speaks bound digest := .get (fun _ => .pure _) fun _ _ => rfl

/-- To look up a scope changes nothing, whether it is held or not. -/
theorem speaks_scope (name : String) : Speaks bound (scope name) := by
  refine .get (fun session => ?_) fun _ _ => rfl
  split
  · exact .pure _
  · exact .throw _

/-- To hold a scope touches the names of the host only. -/
theorem speaks_holdScope (name : String) (frame : FrameId) : Speaks bound (holdScope name frame) :=
  speaks_modify _ fun _ _ => rfl

/-- So it does to hold a value. -/
theorem speaks_holdValue (name : String) (value : Value) : Speaks bound (holdValue name value) :=
  speaks_modify _ fun _ _ => rfl

/-- A result is held if there is one, and a name for it. -/
theorem speaks_keep (name : Option String) (value : Option Value) :
    Speaks bound (keep name value) := by
  unfold keep
  split
  · exact speaks_holdValue _ _
  · exact .pure _

/-- A new scope is a new frame in the heap. -/
theorem speaks_newScope (name : String) (outer : Option FrameId) :
    Speaks bound (newScope name outer) :=
  (speaks_onMachine fun _ _ => .modifyGet fun _ _ => rfl).bind fun _ => speaks_holdScope _ _

/-- An evaluation is concluded by holding its value, or by telling the fault. -/
theorem speaks_conclude (result : Option String) (ending : Except Halt Value) :
    Speaks bound (conclude result ending) := by
  unfold conclude
  split
  · exact (speaks_keep _ _).bind fun _ => .pure _
  · exact .pure _

/-- Statements run one by one are dialogues one behind the other. -/
theorem speaks_runEach (frame : FrameId) (result : Option String) (statements : List Statement) :
    Speaks bound (runEach frame result statements) := by
  induction statements with
  | nil => exact .pure _
  | cons statement rest ih =>
    refine (speaks_evaluate fun setup roots => talks_execute setup frame roots statement).bind
      fun outcome => ?_
    cases outcome with
    | ok value => exact (speaks_keep result value).bind fun _ => ih.bind fun _ => .pure _
    | error halt => exact ih.bind fun _ => .pure _

/-- A text is parsed without the console, and then run. -/
theorem speaks_run (text : String) (frame : FrameId) (forced : Bool) (result : Option String) :
    Speaks bound (run text frame forced result) := by
  unfold run
  refine .ite ?_ (.pure _)
  refine (speaks_onMachine fun setup roots => (talks_runProgram setup frame roots _).speaks).bind
    fun outcome => ?_
  cases outcome with
  | finished value => exact (speaks_keep result value).bind fun _ => .pure _
  | failed | exhausted => exact .pure _

/-- A script is run at once. -/
theorem speaks_script (text : String) (frame : FrameId) : Speaks bound (script text frame) :=
  speaks_onMachine fun setup roots => (talks_runScript setup frame roots text).speaks

/-- The fault that has ended a conversation, if one has. -/
def converseFault : Except ReplFault Unit → Option ReplFault
  | .ok () => none
  | .error fault => some fault

/-- The prompt asks for no more lines than there are bytes, so that it is one dialogue for so many.
-/
theorem speaks_converse (bytes : Nat) (frame : FrameId) : Speaks bytes (converse frame) := by
  refine speaks_onMachine fun setup roots =>
    talks_settled (Repl.speaks_converse setup frame roots bytes) converseFault fun machine => ?_
  cases Repl.converse setup frame roots machine <;> rfl

/-- To describe a scope is to look at the heap. -/
theorem speaks_describe (frame : FrameId) : Speaks bound (describe frame) :=
  .get (fun _ => .pure _) fun _ _ => rfl

/-- To ask whether a frame is alive is to look at the registry. -/
theorem speaks_isAlive (frame : FrameId) : Speaks bound (isAlive frame) :=
  speaks_onMachine fun _ _ => .modifyGet fun _ _ => rfl

/-- A new object takes the next number. -/
theorem speaks_newObject : Speaks bound newObject :=
  speaks_onMachine fun _ _ => .modifyGet fun _ _ => rfl

end Step

/-! ## Drafts -/

section

variable {bound : ℕ∞}

mutual

/-- A value that the host builds is built without the console. -/
theorem speaks_build : (draft : Draft) → Speaks bound draft.build
  | .null | .integer _ | .boolean _ | .string _ => by
    simp only [Draft.build]
    exact .pure _
  | .array elements => by
    simp only [Draft.build]
    exact (speaks_buildAll elements).bind fun _ => Step.speaks_newObject.bind fun _ => .pure _
  | .hash pairs => by
    simp only [Draft.build]
    exact (speaks_buildPairs [] pairs).bind fun _ => Step.speaks_newObject.bind fun _ => .pure _
  | .held name => by
    simp only [Draft.build]
    refine .get (fun session => ?_) fun _ _ => rfl
    split
    · exact .pure _
    · exact .throw _
  | .builtin name => by
    simp only [Draft.build]
    refine .get (fun session => ?_) fun _ _ => rfl
    split
    · exact .pure _
    · exact .throw _

/-- The elements of an array are built without asking for anything. -/
theorem speaks_buildAll : (drafts : List Draft) → Speaks bound (Draft.buildAll drafts)
  | [] => by
    simp only [Draft.buildAll]
    exact .pure _
  | draft :: rest => by
    simp only [Draft.buildAll]
    exact (speaks_build draft).bind fun _ => (speaks_buildAll rest).bind fun _ => .pure _

/-- So are the entries of a hash. -/
theorem speaks_buildPairs (entries : List Entry) :
    (pairs : List DraftPair) → Speaks bound (Draft.buildPairs entries pairs)
  | [] => by
    simp only [Draft.buildPairs]
    exact .pure _
  | pair :: rest => by
    simp only [Draft.buildPairs]
    refine (speaks_buildPair pair).bind fun entry => ?_
    exact speaks_buildPairs (insertEntry entry entries) rest

/-- So is each pair of a hash. -/
theorem speaks_buildPair : (pair : DraftPair) → Speaks bound pair.build
  | ⟨name, value⟩ => by
    simp only [DraftPair.build]
    refine (speaks_build name).bind fun name => (speaks_build value).bind fun value => ?_
    refine Step.speaks_digest.bind fun digest => ?_
    split
    · exact .pure _
    · exact .throw _

end

end

/-! ## Commands -/

/-- Reading a line for the host asks for it. -/
theorem Step.speaks_readLine {bound : ℕ∞} :
    Speaks bound (Step.onMachine fun _ _ machine =>
      match machine.console.readLine with
      | (line, console) => (line, { machine with console := console })) :=
  Step.speaks_onMachine fun _ _ =>
    @Talks.ask _ _ _ _ _ _ .line trivial _ (fun machine line => .ok line machine) fun _ _ => rfl

/-- Every command is a dialogue, for all consoles with at most so much input. -/
theorem speaks_perform (bytes : Nat) (command : Command) : Speaks bytes command.perform := by
  unfold Command.perform
  cases command with
  | run text scope forced result =>
    exact (Step.speaks_scope scope).bind fun _ => Step.speaks_run _ _ _ _
  | statements text scope result =>
    exact (Step.speaks_scope scope).bind fun _ => (Step.speaks_runEach _ _ _).bind fun _ => .pure _
  | script text scope =>
    exact (Step.speaks_scope scope).bind fun _ => (Step.speaks_script _ _).bind fun _ => .pure _
  | report text scope file =>
    exact (Step.speaks_scope scope).bind fun _ => (Step.speaks_script _ _).bind fun _ => .pure _
  | call callee arguments result =>
    refine (speaks_build callee).bind fun callee => ?_
    refine (speaks_buildAll arguments).bind fun values => ?_
    refine (Step.speaks_evaluate fun setup roots =>
      talks_applyCallable setup roots callee values).bind fun ending => ?_
    exact Step.speaks_conclude result ending
  | callBuiltin name arguments result =>
    refine (speaks_buildAll arguments).bind fun values => .get (fun session => ?_) fun _ _ => rfl
    split
    · exact .pure _
    · exact (Step.speaks_evaluate fun setup _ => .native setup.files _ values).bind fun ending =>
        Step.speaks_conclude result ending
  | builtinNames => exact .get (fun _ => .pure _) fun _ _ => rfl
  | converse scope =>
    exact (Step.speaks_scope scope).bind fun _ =>
      (Step.speaks_converse bytes _).bind fun _ => .pure _
  | readLine => exact Step.speaks_readLine.bind fun _ => .pure _
  | newScope name => exact (Step.speaks_newScope _ _).bind fun _ => .pure _
  | enclose name scope =>
    exact (Step.speaks_scope scope).bind fun _ => (Step.speaks_newScope _ _).bind fun _ => .pure _
  | «alias» name scope =>
    exact (Step.speaks_scope scope).bind fun _ => (Step.speaks_holdScope _ _).bind fun _ => .pure _
  | outer scope name =>
    refine .get (fun session => (Step.speaks_scope scope).bind fun frame => ?_) fun _ _ => rfl
    split
    · exact .pure _
    · cases name with
      | none => exact .pure _
      | some name => exact (Step.speaks_holdScope _ _).bind fun _ => .pure _
  | captured value name =>
    refine .get (fun session => ?_) fun _ _ => rfl
    split
    · exact (Step.speaks_holdScope _ _).bind fun _ => .pure _
    · exact .pure _
    · exact .pure _
  | drop name => exact (Step.speaks_modify _ fun _ _ => rfl).bind fun _ => .pure _
  | sameScope left right =>
    exact (Step.speaks_scope left).bind fun _ => (Step.speaks_scope right).bind fun _ => .pure _
  | lookup scope name result =>
    refine .get (fun session => (Step.speaks_scope scope).bind fun frame => ?_) fun _ _ => rfl
    exact (Step.speaks_keep _ _).bind fun _ => .pure _
  | bind scope name value =>
    refine (Step.speaks_scope scope).bind fun _ => (speaks_build value).bind fun _ => ?_
    exact Step.speaks_onMachine fun _ _ => .modifyGet fun _ _ => rfl
  | describe scope =>
    exact (Step.speaks_scope scope).bind fun _ => (Step.speaks_describe _).bind fun _ => .pure _
  | watch name scope =>
    exact (Step.speaks_scope scope).bind fun _ =>
      (Step.speaks_modify _ fun _ _ => rfl).bind fun _ => .pure _
  | isAlive name result =>
    refine .get (fun session => ?_) fun _ _ => rfl
    split
    · exact .throw _
    · refine (Step.speaks_isAlive _).bind fun alive => ?_
      cases result with
      | none => exact .pure _
      | some name => exact .ite ((Step.speaks_holdScope _ _).bind fun _ => .pure _) (.pure _)
  | collect =>
    refine Talks.bind (Step.speaks_onMachine fun _ _ => .modifyGet fun _ _ => rfl) fun _ => .pure _
  | hold name value =>
    exact (speaks_build value).bind fun _ => (Step.speaks_holdValue _ _).bind fun _ => .pure _
  | release name => exact (Step.speaks_modify _ fun _ _ => rfl).bind fun _ => .pure _
  | inspect value => exact (speaks_build value).bind fun _ => .pure _
  | compare left right =>
    exact (speaks_build left).bind fun _ => (speaks_build right).bind fun _ => .pure _
  | keyOrder left right =>
    refine (speaks_build left).bind fun _ => (speaks_build right).bind fun _ => ?_
    refine Step.speaks_digest.bind fun _ => ?_
    split <;> exact .pure _

end Scriptlet
