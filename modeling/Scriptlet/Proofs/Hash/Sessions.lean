import Scriptlet.Proofs.Hash.Evaluate
import Scriptlet.Proofs.Session.Histories

set_option autoImplicit false

/-!
# Sessions keep hashes in order

Component: the object model, with everything that a program or a host can do to it.  Specification:
section 3 on hashes, section 6 for what a host may ask, section 10.10 for the prompt.

Whatever a host asks of a session, the values that the session holds are keyed, and so is its heap
(`keyed_session`).  A hash that the host writes out itself is made by inserting entries, as the ones
of programs are.

This carries the invariant from evaluations to sessions, so that it holds of every value that there
ever is: a session starts keyed, and each command keeps it, whether it evaluates, runs a script,
gives the prompt its turn, builds a value or collects.

The setup of a session never changes, and its digest with it (`Session.Keyed.digest_eq`); a hash
that a host builds is keyed by the same digest as those of its programs.
-/

namespace Scriptlet

/-! ## Conversations -/

namespace Repl

/-- Whether a part of a conversation keeps a heap keyed. -/
abbrev Keeps (digest : Digest) {α : Type} (run : Repl α) : Prop :=
  Maintains (Machine.Keyed digest) (fun _ => True) (fun _ => True) run

/-- What leaves the heap as it is keeps it keyed. -/
theorem keeps_of_heap {digest : Digest} {α : Type} {run : Repl α}
    (same : ∀ machine, (after run machine).heap = machine.heap) : Keeps digest run := by
  intro machine h
  have hheap := same machine
  unfold after at hheap
  cases hresult : run machine with
  | ok result next | error fault next =>
    rw [hresult] at hheap
    exact ⟨(congrArg (Heap.Keyed digest) hheap).mpr h, trivial⟩

theorem keeps_say {digest : Digest} (text : String) : Keeps digest (say text) :=
  keeps_of_heap (heap_after_say text)

theorem keeps_flush {digest : Digest} : Keeps digest flush := keeps_of_heap heap_after_flush

theorem keeps_hear {digest : Digest} : Keeps digest hear := keeps_of_heap heap_after_hear

variable (setup : Setup) (frame : FrameId) (roots : Roots)

/-- A line of the prompt is run as a script is. -/
theorem keeps_answer (line : String) : Keeps setup.digest (answer setup frame roots line) := by
  unfold answer
  have hrun : Keeps setup.digest (modifyGet (runProgram setup frame roots (parse line).program)) :=
    .modifyGet fun machine h => ⟨(keeps_runProgram setup frame roots _ h).1, trivial⟩
  refine .ite (hrun.bind fun outcome _ => ?_) (keeps_say _)
  split
  · exact keeps_say _
  · exact .pure trivial
  · exact keeps_say _
  · exact .throw trivial

/-- So is each turn of it. -/
theorem keeps_turn : Keeps setup.digest (turn setup frame roots) := by
  refine .bind (keeps_say prompt) fun _ _ => .bind keeps_flush fun _ _ => .bind keeps_hear
    fun line _ => ?_
  refine .ite (.bind (keeps_say _) fun _ _ => .pure trivial)
    (.ite (.pure trivial) (.ite (.pure trivial) ?_))
  exact .bind (keeps_answer setup frame roots _) fun _ _ => .pure trivial

/-- So is any number of turns. -/
theorem keeps_turns (count : Nat) : Keeps setup.digest (turns setup frame roots count) := by
  induction count with
  | zero => exact .pure trivial
  | succ count ih =>
    exact .bind (keeps_turn setup frame roots) fun goesOn _ => .ite ih (.pure trivial)

theorem keeps_converse : Keeps setup.digest (converse setup frame roots) :=
  Maintains.get.bind fun _ _ => keeps_turns setup frame roots _

end Repl

/-! ## Steps -/

/-- Whether a session uses a digest, and the heap and all that the host holds is keyed by it. -/
structure Session.Keyed (digest : Digest) (session : Session) : Prop where
  digest_eq : session.setup.digest = digest
  heap : session.machine.heap.Keyed digest
  values : ∀ value ∈ session.roots.values, value.Keyed digest

/-- Whether a step keeps a session keyed, and comes to nothing but results of a kind. -/
abbrev Step.Keeps (digest : Digest) {α : Type} (kind : Digest → α → Prop) (run : Step α) : Prop :=
  Maintains (Session.Keyed digest) (fun _ => True) (kind digest) run

/-- Whether the value or the `return` that an evaluation ended with is keyed. -/
def EndingKeyed {α : Type} (kind : Digest → α → Prop) (digest : Digest) : Except Halt α → Prop
  | .ok result => kind digest result
  | .error halt => halt.Keyed digest

namespace Maintains

variable {digest : Digest} {α : Type} {kind : Digest → α → Prop}

/-- What a change of the machine does in setups that use the digest. -/
theorem onMachine {change : Setup → Roots → Machine → α × Machine}
    (h : ∀ setup roots machine, setup.digest = digest → machine.heap.Keyed setup.digest →
      (change setup roots machine).2.heap.Keyed setup.digest ∧
        kind setup.digest (change setup roots machine).1) :
    (Step.onMachine change).Keeps digest kind := by
  rintro session ⟨rfl, hheap, hvalues⟩
  obtain ⟨hnext, hkind⟩ := h session.setup session.roots session.machine rfl hheap
  exact ⟨⟨rfl, hnext, hvalues⟩, hkind⟩

/-- An evaluation with what the session holds. -/
theorem evaluate {evaluation : Setup → Roots → Eval α}
    (h : ∀ setup roots, setup.digest = digest →
      (evaluation setup roots).Keeps setup.digest kind) :
    (Step.evaluate evaluation).Keeps digest (EndingKeyed kind) := by
  refine onMachine fun setup roots machine hdigest hmachine => ?_
  have hended := h setup roots hdigest machine hmachine
  cases hresult : evaluation setup roots machine with
  | ok result next | error halt next =>
    rw [hresult] at hended
    exact hended

theorem newObject : Step.newObject.Keeps digest fun _ _ => True :=
  onMachine fun _ _ _ _ h => ⟨h, trivial⟩

/-- A step that names scopes only. -/
theorem modifyScopes {change : Session → Session}
    (machine : ∀ session, (change session).machine = session.machine)
    (values : ∀ session, (change session).values = session.values)
    (setup : ∀ session, (change session).setup = session.setup) :
    (modify change : Step Unit).Keeps digest fun _ _ => True := by
  refine .modifyGet fun session h => ⟨⟨?_, ?_, ?_⟩, trivial⟩
  · rw [setup session]
    exact h.digest_eq
  · rw [machine session]
    exact h.heap
  · rw [Session.roots, values session]
    exact h.values

/-- A step that asks for the digest is told that of the session. -/
theorem usedDigest : Step.digest.Keeps digest fun digest result => result = digest :=
  fun _ h => ⟨h, h.digest_eq⟩

theorem scope (name : String) : (Step.scope name).Keeps digest fun _ _ => True := by
  refine Maintains.get.bind fun session _ => ?_
  split
  · exact .pure trivial
  · exact .throw trivial

theorem holdScope (name : String) (frame : FrameId) :
    (Step.holdScope name frame).Keeps digest fun _ _ => True :=
  modifyScopes (fun _ => rfl) (fun _ => rfl) fun _ => rfl

/-- A keyed value may be held under a name. -/
theorem holdValue (name : String) {value : Value} (h : value.Keyed digest) :
    (Step.holdValue name value).Keeps digest fun _ _ => True := by
  rintro session ⟨rfl, hheap, hvalues⟩
  refine ⟨⟨rfl, hheap, fun other hother => ?_⟩, trivial⟩
  rcases Step.mem_of_mem_put hother with rfl | hother
  · exact h
  · exact hvalues other hother

/-- So may the value of an evaluation, if there is one. -/
theorem keep (name : Option String) {value : Option Value} (h : OptionKeyed digest value) :
    (Step.keep name value).Keeps digest fun _ _ => True := by
  cases name with
  | none => exact .pure trivial
  | some name =>
    cases value with
    | none => exact .pure trivial
    | some value => exact holdValue name (h value rfl)

/-- A new scope is a frame in which nothing is bound. -/
theorem newScope (name : String) (outer : Option FrameId) :
    (Step.newScope name outer).Keeps digest fun _ _ => True := by
  have hmake : (Step.onMachine fun setup roots => Machine.newFrame setup roots outer).Keeps
      digest fun _ _ => True :=
    onMachine fun setup roots _ _ h => ⟨h.allocate setup.due roots outer, trivial⟩
  exact hmake.bind fun frame _ => holdScope name frame

end Maintains

/-! ## Drafts -/

section

variable {digest : Digest}

/-- What is held under a name is keyed. -/
theorem Session.Keyed.lookup {session : Session} (h : session.Keyed digest) {name : String}
    {value : Value} (hvalue : session.values.lookup name = some value) : value.Keyed digest :=
  h.values value (Step.mem_of_lookup_eq_some hvalue)

mutual

/-- What is built is keyed. -/
theorem keeps_build : (draft : Draft) → draft.build.Keeps digest Value.Keyed
  | .null | .integer _ | .boolean _ | .string _ => by
    simp only [Draft.build]
    exact .pure (by simp)
  | .array elements => by
    simp only [Draft.build]
    refine (keeps_buildAll elements).bind fun values hvalues => ?_
    exact Maintains.newObject.bind fun _ _ => .pure (Value.keyed_array.mpr hvalues)
  | .hash pairs => by
    simp only [Draft.build]
    refine (keeps_buildPairs pairs .nil).bind fun entries h => ?_
    exact Maintains.newObject.bind fun _ _ => .pure (Value.keyed_hash.mpr ⟨h.indexed, h.parts⟩)
  | .held name => by
    simp only [Draft.build]
    refine Maintains.get.bind fun session h => ?_
    split
    next value hlookup => exact .pure (h.lookup hlookup)
    · exact .throw trivial
  | .builtin name => by
    simp only [Draft.build]
    refine Maintains.get.bind fun session _ => ?_
    split
    next builtin _ => exact .pure (Value.keyed_builtin builtin)
    · exact .throw trivial

/-- Elements are built one by one. -/
theorem keeps_buildAll : (drafts : List Draft) →
    (Draft.buildAll drafts).Keeps digest fun digest values => ∀ value ∈ values, value.Keyed digest
  | [] => by
    simp only [Draft.buildAll]
    exact .pure fun _ h => absurd h List.not_mem_nil
  | draft :: rest => by
    simp only [Draft.buildAll]
    refine (keeps_build draft).bind fun value hvalue => ?_
    refine (keeps_buildAll rest).bind fun values hvalues => ?_
    exact .pure (List.forall_mem_cons.mpr ⟨hvalue, hvalues⟩)

/-- Pairs are inserted one by one, as in a literal. -/
theorem keeps_buildPairs : (pairs : List DraftPair) → ∀ {entries : List Entry},
    KeyedEntries digest entries → (Draft.buildPairs entries pairs).Keeps digest KeyedEntries
  | [], _, h => by
    simp only [Draft.buildPairs]
    exact .pure h
  | pair :: rest, _, h => by
    simp only [Draft.buildPairs]
    exact (keeps_buildPair pair).bind fun entry hentry =>
      keeps_buildPairs rest (h.insertEntry hentry)

/-- The name of a pair is searched for its key. -/
theorem keeps_buildPair : (pair : DraftPair) → pair.build.Keeps digest KeyedEntry
  | ⟨key, value⟩ => by
    simp only [DraftPair.build]
    refine (keeps_build key).bind fun name hname => ?_
    refine (keeps_build value).bind fun content hcontent => ?_
    refine Maintains.usedDigest.bind fun _ hdigest => ?_
    rw [hdigest]
    split
    next hashKey hkey => exact .pure ⟨hkey, hname, hcontent⟩
    · exact .throw trivial

end

/-! ## Commands -/

/-- Whether the values in an answer are keyed. -/
def Answer.Keyed (digest : Digest) : Answer → Prop
  | .value worth => OptionKeyed digest worth
  | .halted halt => halt.Keyed digest
  | .outcome ended => ended.Keyed digest
  | .outcomes endings => ∀ ending ∈ endings, EndingKeyed OptionKeyed digest ending
  | .inspected worth => worth.Keyed digest
  | _ => True

/-- A value that an evaluation ended with is answered, and held if it is to be. -/
theorem keeps_conclude (result : Option String) {ending : Except Halt Value}
    (h : EndingKeyed Value.Keyed digest ending) :
    (Step.conclude result ending).Keeps digest Answer.Keyed := by
  cases ending with
  | ok value =>
    have hvalue : OptionKeyed digest (some value) := by
      rintro _ ⟨⟩
      exact h
    exact (Maintains.keep result hvalue).bind fun _ _ => .pure hvalue
  | error halt => exact .pure h

/-- Statements that are run one by one, whatever becomes of each. -/
theorem keeps_runEach (frame : FrameId) (result : Option String) (statements : List Statement) :
    (Step.runEach frame result statements).Keeps digest
      fun digest outcomes => ∀ ending ∈ outcomes, EndingKeyed OptionKeyed digest ending := by
  induction statements with
  | nil => exact .pure fun _ h => absurd h List.not_mem_nil
  | cons statement rest ih =>
    refine (Maintains.evaluate fun setup roots _ => keeps_execute setup frame roots statement).bind
      fun ending hending => ?_
    have hrest : Step.Keeps digest
        (fun digest outcomes => ∀ ending ∈ outcomes, EndingKeyed OptionKeyed digest ending)
        (do return ending :: (← Step.runEach frame result rest)) :=
      ih.bind fun outcomes houtcomes => .pure (List.forall_mem_cons.mpr ⟨hending, houtcomes⟩)
    cases ending with
    | ok value => exact (Maintains.keep result hending).bind fun _ _ => hrest
    | error halt => exact hrest

/-- A text that is run, by its statements. -/
theorem keeps_run (text : String) (frame : FrameId) (forced : Bool) (result : Option String) :
    (Step.run text frame forced result).Keeps digest Answer.Keyed := by
  unfold Step.run
  have hrun : (Step.onMachine fun setup roots =>
      runProgram setup frame roots (parse text).program).Keeps digest Outcome.Keyed :=
    .onMachine fun setup roots _ _ h => keeps_runProgram setup frame roots _ h
  refine .ite (hrun.bind fun outcome houtcome => ?_) (.pure trivial)
  cases outcome with
  | finished value => exact (Maintains.keep result houtcome).bind fun _ _ => .pure houtcome
  | failed | exhausted => exact .pure trivial

theorem keeps_script (text : String) (frame : FrameId) :
    (Step.script text frame).Keeps digest fun _ _ => True :=
  .onMachine fun setup roots _ _ h => ⟨keeps_runScript setup frame roots text h, trivial⟩

theorem keeps_converse (frame : FrameId) : (Step.converse frame).Keeps digest fun _ _ => True := by
  refine .onMachine fun setup roots machine _ h => ?_
  have hended := Repl.keeps_converse setup frame roots machine h
  cases hresult : Repl.converse setup frame roots machine with
  | ok result next | error fault next =>
    rw [hresult] at hended
    exact hended

/-- By cases on the command. -/
theorem keeps_perform (command : Command) : command.perform.Keeps digest Answer.Keyed := by
  have done : ∀ {α : Type} {run : Step α} {answer : α → Answer},
      run.Keeps digest (fun _ _ => True) → (∀ result, (answer result).Keyed digest) →
      (run >>= fun result => pure (answer result)).Keeps digest Answer.Keyed :=
    fun hrun hanswer => hrun.bind fun result _ => .pure (hanswer result)
  unfold Command.perform
  cases command with
  | run text scope forced result =>
    exact (Maintains.scope scope).bind fun frame _ => keeps_run text frame forced result
  | statements text scope result =>
    exact (Maintains.scope scope).bind fun frame _ =>
      (keeps_runEach frame result _).bind fun _ h => .pure h
  | script text scope | report text scope =>
    exact (Maintains.scope scope).bind fun frame _ =>
      done (keeps_script text frame) fun _ => trivial
  | call callee arguments result =>
    refine (keeps_build callee).bind fun value _ =>
      (keeps_buildAll arguments).bind fun values hvalues => ?_
    exact (Maintains.evaluate fun setup roots hdigest =>
      keeps_applyCallable setup roots value (hdigest ▸ hvalues)).bind fun _ h => keeps_conclude result h
  | callBuiltin name arguments result =>
    refine (keeps_buildAll arguments).bind fun values hvalues => Maintains.get.bind
      fun session _ => ?_
    split
    · exact .pure fun _ h => by cases h
    next builtin _ =>
      exact (Maintains.evaluate fun setup _ hdigest =>
        encloses_keyed.run setup.files builtin.operation (hdigest ▸ hvalues)).bind fun _ h =>
          keeps_conclude result h
  | builtinNames => exact Maintains.get.bind fun _ _ => .pure trivial
  | converse scope =>
    exact (Maintains.scope scope).bind fun frame _ => done (keeps_converse frame) fun _ => trivial
  | readLine =>
    exact done (.onMachine fun _ _ _ _ h => ⟨h, trivial⟩) fun _ => trivial
  | newScope name => exact done (.newScope name none) fun _ => trivial
  | enclose name scope =>
    exact (Maintains.scope scope).bind fun frame _ =>
      done (.newScope name (some frame)) fun _ => trivial
  | «alias» name scope =>
    exact (Maintains.scope scope).bind fun frame _ =>
      done (.holdScope name frame) fun _ => trivial
  | outer scope name =>
    refine Maintains.get.bind fun session _ => (Maintains.scope scope).bind fun frame _ => ?_
    split
    · exact .pure trivial
    · cases name with
      | none => exact .pure trivial
      | some name => exact done (.holdScope name _) fun _ => trivial
  | captured value name =>
    refine Maintains.get.bind fun session _ => ?_
    split
    · exact done (.holdScope name _) fun _ => trivial
    · exact .pure trivial
    · exact .pure trivial
  | drop name =>
    exact done (.modifyScopes (fun _ => rfl) (fun _ => rfl) fun _ => rfl) fun _ => trivial
  | sameScope left right =>
    exact (Maintains.scope left).bind fun _ _ => (Maintains.scope right).bind fun _ _ =>
      .pure trivial
  | lookup scope name result =>
    refine Maintains.get.bind fun session h => (Maintains.scope scope).bind fun frame _ => ?_
    have hfound : OptionKeyed digest (session.machine.heap.lookup frame name) :=
      fun _ hvalue => h.heap.lookup hvalue
    exact (Maintains.keep result hfound).bind fun _ _ => .pure hfound
  | bind scope name value =>
    refine (Maintains.scope scope).bind fun frame _ => (keeps_build value).bind
      fun result hresult => ?_
    exact .onMachine fun _ _ _ hdigest h => ⟨h.bind frame name (hdigest ▸ hresult), trivial⟩
  | describe scope =>
    exact (Maintains.scope scope).bind fun frame _ =>
      done (Maintains.get.bind fun _ _ => .pure trivial) fun _ => trivial
  | watch name scope =>
    exact (Maintains.scope scope).bind fun frame _ =>
      done (.modifyScopes (fun _ => rfl) (fun _ => rfl) fun _ => rfl) fun _ => trivial
  | isAlive name result =>
    refine Maintains.get.bind fun session _ => ?_
    split
    · exact .throw trivial
    next frame _ =>
      have hrelease : (Step.isAlive frame).Keeps digest fun _ _ => True :=
        .onMachine fun _ roots _ _ h => ⟨h.release roots, trivial⟩
      refine hrelease.bind fun alive _ => ?_
      cases result with
      | none => exact .pure trivial
      | some name =>
        cases alive with
        | false => exact .pure trivial
        | true => exact done (.holdScope name frame) fun _ => trivial
  | collect =>
    exact done (.onMachine fun _ roots _ _ h => ⟨h.collect roots, trivial⟩) fun _ => trivial
  | hold name value =>
    exact (keeps_build value).bind fun _ h => done (.holdValue name h) fun _ => trivial
  | release name =>
    refine done (.modifyGet fun session h => ⟨⟨h.digest_eq, h.heap, fun held hheld => ?_⟩, trivial⟩)
      fun _ => trivial
    exact h.values held (Step.mem_of_mem_forget hheld)
  | inspect value => exact (keeps_build value).bind fun _ h => .pure h
  | compare left right =>
    exact (keeps_build left).bind fun _ _ => (keeps_build right).bind fun _ _ => .pure trivial
  | keyOrder left right =>
    refine (keeps_build left).bind fun _ _ => (keeps_build right).bind fun _ _ => ?_
    refine Maintains.usedDigest.bind fun _ _ => ?_
    split <;> exact .pure trivial

end

/-! ## Sessions -/

/-- A session starts with nothing but an empty frame. -/
theorem keyed_start (setup : Setup) (console : Console) :
    (Session.start setup console).Keyed setup.digest where
  digest_eq := rfl
  heap := Heap.keyed_empty.allocate setup.due _ none
  values := fun _ h => absurd h List.not_mem_nil

section

variable {digest : Digest}

/-- One command keeps it. -/
theorem Session.Keyed.perform {session : Session} (h : session.Keyed digest) (command : Command) :
    (session.perform command).2.Keyed digest := by
  have hended := keeps_perform command session h
  rw [Session.perform]
  cases hresult : command.perform session with
  | ok answer after | error mistake after =>
    rw [hresult] at hended
    exact hended.1

/-- Whatever commands a host gives, the session stays keyed. -/
theorem Session.Keyed.performAll {session : Session} (h : session.Keyed digest)
    (commands : List Command) : (session.performAll commands).2.Keyed digest := by
  induction commands generalizing session with
  | nil => exact h
  | cons command rest ih => exact ih (h.perform command)

/-- So everything that there is in a session is keyed. -/
theorem Session.Keyed.has {session : Session} (h : session.Keyed digest) {value : Value}
    (hvalue : (session.holding []).Has value) : value.Keyed digest := by
  obtain ⟨whole, hcarries, hpart⟩ := hvalue
  refine Value.Keyed.of_part ?_ hpart
  cases hcarries with
  | held hmem =>
    rw [Session.holding, Roots.holdAll, List.nil_append] at hmem
    exact h.values whole hmem
  | bound here hmem => exact h.heap _ _ here _ hmem

end

end Scriptlet
