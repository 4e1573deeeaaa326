import Scriptlet.Proofs.Console.Conserved
import Scriptlet.Proofs.Session.Evolves

set_option autoImplicit false

/-!
# Sessions are histories

Component: the session of a host, with the prompt and the runner.  Specification: section 6 on what
a host may ask of the evaluator, with one persistent environment or a fresh one, and section 10.10
on the prompt and the runner.

A host drives the language by commands: it runs texts, calls values and native functions, makes and
names scopes, binds names, builds values and collects.  Whatever the commands are, also where one is
a mistake or what it runs fails, what they do to the heap is a history, from what the host holds
before them to what it holds then (`evolves_performAll`).  A session begins with nothing made
(`evolves_start`), so every heap that a host can bring about is well-formed.

The lemmas come in the order in which they are needed: parts of a conversation, values that a host
builds, steps after which it names the same scopes, and commands.  That the scopes stay the same
matters because what runs longest is given its frame first: while a value is built for a binding,
the scope that it is going to be bound in must not be lost.
-/

namespace Scriptlet

variable {ready : Heap → Prop}

/-! ## Conversations -/

namespace Repl

variable {α β : Type} {roots : Roots}

/-- The machine that a part of a conversation leaves, however it ends. -/
def after (run : Repl α) (machine : Machine) : Machine :=
  match run machine with
  | .ok _ machine | .error _ machine => machine

/-- Whether a part of a conversation is a history. -/
def Evolves (ready : Heap → Prop) (roots : Roots) (run : Repl α) : Prop :=
  ∀ machine : Machine, machine.heap.WellFormed roots →
    Holding.Evolves ready ⟨machine.heap, roots⟩ ⟨(after run machine).heap, roots⟩

/-- Two parts are a history if each of them is. -/
theorem Evolves.bind {run : Repl α} {next : α → Repl β} (hrun : Evolves ready roots run)
    (hnext : ∀ result, Evolves ready roots (next result)) : Evolves ready roots (run >>= next) := by
  intro machine h
  have hfirst := hrun machine h
  unfold after at hfirst ⊢
  rw [bind_apply]
  cases hresult : run machine with
  | ok result middle =>
    rw [hresult] at hfirst
    exact hfirst.trans (hnext result middle (hfirst.wellFormed h))
  | error fault middle =>
    rw [hresult] at hfirst
    exact hfirst

/-- A part that leaves the heap is one. -/
theorem Evolves.of_heap {run : Repl α} (same : ∀ machine, (after run machine).heap = machine.heap) :
    Evolves ready roots run := by
  intro machine _
  rw [same machine]
  exact .refl _

/-- To have a result is no move. -/
theorem Evolves.pure (result : α) : Evolves ready roots (pure result) := .of_heap fun _ => rfl

/-- Whatever is decided, one of the two is done. -/
theorem Evolves.ite {condition : Prop} [Decidable condition] {first second : Repl α}
    (h : Evolves ready roots first) (h' : Evolves ready roots second) :
    Evolves ready roots (if condition then first else second) := by
  split
  · exact h
  · exact h'

/-- Saying something leaves the heap as it is. -/
theorem heap_after_say (text : String) (machine : Machine) :
    (after (say text) machine).heap = machine.heap := by
  rw [after, say_eq]
  generalize machine.console.write text = result
  rcases result with ⟨_ | _, next⟩ <;> rfl

/-- So does passing on what was said. -/
theorem heap_after_flush (machine : Machine) : (after flush machine).heap = machine.heap := by
  rw [after, flush_eq]
  cases machine.console.flush <;> rfl

/-- So does hearing a line. -/
theorem heap_after_hear (machine : Machine) : (after hear machine).heap = machine.heap := by
  rw [after, hear_eq]
  generalize machine.console.readLine = result
  rcases result with ⟨_ | _, next⟩ <;> rfl

/-- The same, said of histories. -/
theorem evolves_say (text : String) : Evolves ready roots (say text) :=
  .of_heap (heap_after_say text)

/-- To pass on what has been written is no move. -/
theorem evolves_flush : Evolves ready roots flush := .of_heap heap_after_flush

/-- To hear a line is no move. -/
theorem evolves_hear : Evolves ready roots hear := .of_heap heap_after_hear

variable {setup : Setup} {frame : FrameId}

/-- To answer a line is to run the program in it, unless it has errors. -/
theorem evolves_answer (heeds : setup.Heeds ready) (held : frame ∈ roots.frames) (line : String) :
    Evolves ready roots (answer setup frame roots line) := by
  unfold answer
  refine .ite (.bind (fun machine h => ?_) fun outcome => ?_) (evolves_say _)
  · exact (evolves_runProgram heeds _ h held).trans (.keep (within_heldIn _))
  · split
    · exact evolves_say _
    · exact .pure _
    · exact evolves_say _
    · exact .of_heap fun _ => rfl

/-- A turn answers one line at most. -/
theorem evolves_turn (heeds : setup.Heeds ready) (held : frame ∈ roots.frames) :
    Evolves ready roots (turn setup frame roots) := by
  refine .bind (evolves_say prompt) fun _ => .bind evolves_flush fun _ => .bind evolves_hear
    fun line => ?_
  refine .ite (.bind (evolves_say _) fun _ => .pure _) (.ite (.pure _) (.ite (.pure _) ?_))
  exact .bind (evolves_answer heeds held _) fun _ => .pure _

/-- Turns follow each other, however many there may be. -/
theorem evolves_turns (heeds : setup.Heeds ready) (held : frame ∈ roots.frames) (count : Nat) :
    Evolves ready roots (turns setup frame roots count) := by
  induction count with
  | zero => exact .pure _
  | succ count ih => exact .bind (evolves_turn heeds held) fun goesOn => .ite ih (.pure _)

/-- So a conversation is a history. -/
theorem evolves_converse (heeds : setup.Heeds ready) (held : frame ∈ roots.frames) :
    Evolves ready roots (converse setup frame roots) :=
  fun machine h => evolves_turns heeds held (machine.console.input.length + 1) machine h

end Repl

/-! ## Drafts -/

section

open Step (mem_of_lookup_eq_some)

variable {session : Session} {start : List Value}

/-- A value that is named may be built with. -/
theorem evolves_held (name : String) :
    (Draft.held name).build.Evolves ready (fun value => [value]) start start session := by
  simp only [Draft.build]
  refine .get ?_
  split
  next value hlookup =>
    exact .value (fun _ h => h)
      (.of_mem (List.mem_append_right _ (mem_of_lookup_eq_some hlookup)))
  · exact .throw _ fun _ h => h

mutual

/-- What is built is made of what is in hand, bottom up. -/
theorem evolves_build : (draft : Draft) → ∀ {session : Session} {start : List Value},
    session.Sound ready start →
    draft.build.Evolves ready (fun value => [value]) start start session
  | .null, _, _, _ | .integer _, _, _, _ | .boolean _, _, _, _ | .string _, _, _, _ => by
    simp only [Draft.build]
    exact .value (fun _ h => h) (.of_object?_none rfl)
  | .array elements, _, _, h => by
    simp only [Draft.build]
    exact .bind h (evolves_buildAll elements h) (fun _ h => h) fun values _ _ _ =>
      .object (.array · values) (fun _ h => List.mem_append_right _ h) {
        object := rfl
        contents := fun _ hmem => List.mem_append_left _ (List.mem_append_left _ hmem)
        captured := fun _ hid => by cases hid }
  | .hash pairs, _, _, h => by
    simp only [Draft.build]
    exact .bind h (evolves_buildPairs pairs [] h) (fun _ h => h) fun entries _ _ _ =>
      .object (.hash · entries) (fun _ h => List.mem_append_right _ h) {
        object := rfl
        contents := fun _ hmem => List.mem_append_left _ (List.mem_append_left _ hmem)
        captured := fun _ hid => by cases hid }
  | .held name, _, _, _ => evolves_held name
  | .builtin name, session, _, _ => by
    simp only [Draft.build]
    refine .get ?_
    split
    · exact .value (fun _ h => h) (.of_object?_none rfl)
    · exact .throw _ fun _ h => h

/-- Elements are built in a row, each while those before it are in hand. -/
theorem evolves_buildAll : (drafts : List Draft) → ∀ {session : Session} {start : List Value},
    session.Sound ready start →
    (Draft.buildAll drafts).Evolves ready (fun values => values) start start session
  | [], _, _, _ => by
    simp only [Draft.buildAll]
    exact .pure fun _ h => h
  | draft :: rest, _, _, h => by
    simp only [Draft.buildAll]
    refine .bind h (evolves_build draft h) (fun _ h => h) fun value _ _ hvalue => ?_
    refine .bind hvalue (evolves_buildAll rest hvalue) (fun _ h => List.mem_cons_of_mem _ h)
      fun values _ _ _ => .pure fun other hother => ?_
    rcases List.mem_append.mp hother with hother | hother
    · rcases List.mem_cons.mp hother with rfl | hother
      · exact List.mem_append_right _ List.mem_cons_self
      · exact List.mem_append_left _ hother
    · exact List.mem_append_right _ (List.mem_cons_of_mem _ hother)

/-- What the entries so far are made of is in hand. -/
theorem evolves_buildPairs : (pairs : List DraftPair) → ∀ (entries : List Entry) {session : Session}
    {start : List Value}, session.Sound ready (Entry.parts entries ++ start) →
    (Draft.buildPairs entries pairs).Evolves ready Entry.parts (Entry.parts entries ++ start) start
      session
  | [], _, _, _, _ => by
    simp only [Draft.buildPairs]
    exact .pure fun _ h => h
  | pair :: rest, entries, _, start, h => by
    simp only [Draft.buildPairs]
    refine .bind h (evolves_buildPair pair h) (fun _ h => List.mem_append_right _ h)
      fun entry middle _ hentry => ?_
    have hkeep : middle.Evolves ready (Entry.parts [entry] ++ (Entry.parts entries ++ start))
        (Entry.parts (insertEntry entry entries) ++ start) middle :=
      .keep (within_insertEntry ⟨[], start⟩ entry entries).values
    exact .of_start hkeep (evolves_buildPairs rest _ (hkeep.sound hentry))

/-- The name and the value of an entry are built one after the other. -/
theorem evolves_buildPair : (pair : DraftPair) → ∀ {session : Session} {start : List Value},
    session.Sound ready start →
    pair.build.Evolves ready (fun entry => Entry.parts [entry]) start start session
  | ⟨name, value⟩, _, start, h => by
    simp only [DraftPair.build]
    refine .bind h (evolves_build name h) (fun _ h => h) fun key _ _ hkey => ?_
    refine .bind hkey (evolves_build value hkey) (fun _ h => List.mem_cons_of_mem _ h)
      fun content _ _ _ => .digest ?_
    split
    · refine .pure fun other hother => ?_
      rcases List.mem_cons.mp hother with rfl | hother
      · exact List.mem_cons_of_mem _ List.mem_cons_self
      · rcases List.mem_cons.mp hother with rfl | hother
        · exact List.mem_cons_self
        · exact List.mem_cons_of_mem _ (List.mem_cons_of_mem _ hother)
    · exact .throw _ fun _ h => List.mem_cons_of_mem _ (List.mem_cons_of_mem _ h)

end

end

/-! ## Steps that name nothing -/

namespace Step

variable {α β : Type}

/-- Whether the host names the same scopes after a step. -/
def KeepsScopes (run : Step α) : Prop :=
  ∀ session result after, run session = .ok result after → after.scopes = session.scopes

namespace KeepsScopes

/-- Two steps that name no scope name none together. -/
theorem bind {run : Step α} {next : α → Step β} (hrun : KeepsScopes run)
    (hnext : ∀ result, KeepsScopes (next result)) : KeepsScopes (run >>= next) := by
  intro session result after h
  obtain ⟨first, middle, hfirst, hrest⟩ := exists_of_bind_ok h
  exact (hnext first middle result after hrest).trans (hrun session first middle hfirst)

/-- To have a result names nothing. -/
theorem pure (result : α) : KeepsScopes (pure result) := by
  rintro session _ _ ⟨⟩
  rfl

/-- To fail names nothing. -/
theorem throw (mistake : Mistake) : KeepsScopes (throw mistake : Step α) := by
  rintro session _ _ ⟨⟩

/-- What looks at the session names no more than what follows. -/
theorem get {next : Session → Step α} (h : ∀ session, KeepsScopes (next session)) :
    KeepsScopes (MonadState.get >>= next : Step α) :=
  fun session => h session session

/-- Asking for the digest names nothing. -/
theorem digest : KeepsScopes digest := get fun _ => pure _

/-- What is done to the machine names nothing. -/
theorem onMachine (change : Setup → Roots → Machine → α × Machine) :
    KeepsScopes (onMachine change) := by
  rintro session _ _ ⟨⟩
  rfl

/-- A result is named among the values. -/
theorem keep (name : Option String) (value : Option Value) : KeepsScopes (keep name value) := by
  intro session result after h
  cases name with
  | none =>
    cases h
    rfl
  | some name => cases value <;> cases h <;> rfl

mutual

/-- Building a value names nothing. -/
theorem build : (draft : Draft) → KeepsScopes draft.build
  | .null | .integer _ | .boolean _ | .string _ => by
    simp only [Draft.build]
    exact pure _
  | .array elements => by
    simp only [Draft.build]
    exact (buildAll elements).bind fun _ => (onMachine _).bind fun _ => pure _
  | .hash pairs => by
    simp only [Draft.build]
    exact (buildPairs pairs []).bind fun _ => (onMachine _).bind fun _ => pure _
  | .held name => by
    simp only [Draft.build]
    refine get fun session => ?_
    split
    · exact pure _
    · exact throw _
  | .builtin name => by
    simp only [Draft.build]
    refine get fun session => ?_
    split
    · exact pure _
    · exact throw _

/-- So does building elements. -/
theorem buildAll : (drafts : List Draft) → KeepsScopes (Draft.buildAll drafts)
  | [] => by
    simp only [Draft.buildAll]
    exact pure _
  | draft :: rest => by
    simp only [Draft.buildAll]
    exact (build draft).bind fun _ => (buildAll rest).bind fun _ => pure _

/-- So does building entries. -/
theorem buildPairs : (pairs : List DraftPair) → ∀ entries : List Entry,
    KeepsScopes (Draft.buildPairs entries pairs)
  | [], _ => by
    simp only [Draft.buildPairs]
    exact pure _
  | pair :: rest, entries => by
    simp only [Draft.buildPairs]
    exact (buildPair pair).bind fun entry => buildPairs rest (insertEntry entry entries)

/-- So does building one entry. -/
theorem buildPair : (pair : DraftPair) → KeepsScopes pair.build
  | ⟨name, value⟩ => by
    simp only [DraftPair.build]
    refine (build name).bind fun _ => (build value).bind fun _ => digest.bind fun _ => ?_
    split
    · exact pure _
    · exact throw _

end

end KeepsScopes

/-- So a frame that the host holds is held after such a step. -/
theorem mem_frames_of_keepsScopes {run : Step α} (h : KeepsScopes run) {session after : Session}
    {result : α} (hrun : run session = .ok result after) {frame : FrameId}
    (held : frame ∈ session.roots.frames) : frame ∈ after.roots.frames := by
  rw [Session.roots, h session result after hrun]
  exact held

end Step

/-! ## Commands -/

namespace Step

variable {session : Session} {frame : FrameId}

/-- Statements that are run one by one, each with its result. -/
theorem evolves_runEach (result : Option String) (statements : List Statement)
    (hstart : session.Sound ready []) (held : frame ∈ session.roots.frames) :
    (runEach frame result statements).Evolves ready (fun _ => []) [] [] session := by
  induction statements generalizing session with
  | nil => exact .pure fun _ h => h
  | cons statement rest ih =>
    have hfirst : (evaluate fun setup roots => execute setup frame roots statement).Evolves ready
        (concluded Option.toList) [] [] session :=
      evolves_evaluate (evolves_execute hstart.heeds statement hstart.wellFormed held)
    refine .bind hstart hfirst (fun _ h => h) fun outcome middle hresult hmiddle => ?_
    have hheld := mem_frames_of_keepsScopes (.onMachine _) hresult held
    have hsub : ∀ value ∈ ([] : List Value), value ∈ concluded Option.toList outcome ++ [] :=
      fun _ h => by cases h
    -- the rest runs after what the statement is worth may have been kept, with nothing in hand
    have hrest : ∀ last : Session, frame ∈ last.roots.frames →
        last.Sound ready (concluded Option.toList outcome ++ []) →
        (do return outcome :: (← runEach frame result rest)).Evolves ready (fun _ => [])
          (concluded Option.toList outcome ++ []) [] last := fun last hlater hlast => by
      have hnone : last.Evolves ready (concluded Option.toList outcome ++ []) [] last := .keep hsub
      exact .of_start hnone (.bind (hnone.sound hlast) (ih (hnone.sound hlast) hlater)
        (fun _ h => h) fun _ _ _ _ => .pure fun _ h => h)
    cases outcome with
    | ok value =>
      refine .bind hmiddle (evolves_keep result fun other hother => ?_) hsub
        fun _ last hlast hsound =>
          hrest last (mem_frames_of_keepsScopes (.keep result value) hlast hheld) hsound
      exact List.mem_append_left _ (Option.mem_toList.mpr hother)
    | error halt => exact hrest middle hheld hmiddle

/-- What a program is worth. -/
def worth : Outcome → List Value
  | .finished value => value.toList
  | .failed _ | .exhausted => []

/-- What is held when a program has ended is what it is worth. -/
theorem heldIn_eq (outcome : Outcome) (roots : Roots) :
    outcome.heldIn roots = roots.holdAll (worth outcome) := by
  rcases outcome with (_ | value) | _ | _ <;> rfl

/-- A text is parsed, and run if it has no errors or must be. -/
theorem evolves_run (text : String) (forced : Bool) (result : Option String)
    (hstart : session.Sound ready []) (held : frame ∈ session.roots.frames) :
    (run text frame forced result).Evolves ready (fun _ => []) [] [] session := by
  unfold run
  have hrun : (onMachine fun setup roots =>
      runProgram setup frame roots (parse text).program).Evolves ready worth [] [] session := by
    have hprogram := evolves_runProgram hstart.heeds (parse text).program hstart.wellFormed held
    refine .onMachine ?_
    rw [List.append_nil, ← heldIn_eq]
    exact hprogram
  refine .ite (.bind hstart hrun (fun _ h => h) fun outcome middle _ hmiddle => ?_)
    (.pure fun _ h => h)
  have hsub : ∀ value ∈ ([] : List Value), value ∈ worth outcome ++ [] := fun _ h => by cases h
  cases outcome with
  | finished value =>
    refine .answered hmiddle (.mono (evolves_keep result fun other hother => ?_) hsub)
    exact List.mem_append_left _ (Option.mem_toList.mpr hother)
  | failed | exhausted => exact .pure hsub

/-- A script is run at once. -/
theorem evolves_script (text : String) (hstart : session.Sound ready [])
    (held : frame ∈ session.roots.frames) :
    (script text frame).Evolves ready (fun _ => []) [] [] session :=
  .onMachine (evolves_runScript hstart.heeds text hstart.wellFormed held)

/-- A conversation in a scope that the host holds. -/
theorem evolves_converse (hstart : session.Sound ready []) (held : frame ∈ session.roots.frames) :
    (converse frame).Evolves ready (fun _ => []) [] [] session := by
  have hconverse := Repl.evolves_converse hstart.heeds held session.machine hstart.wellFormed
  refine .onMachine ?_
  unfold Repl.after at hconverse
  cases hresult : Repl.converse session.setup frame session.roots session.machine <;>
    · rw [hresult] at hconverse
      exact hconverse

/-- To describe a scope is no move. -/
theorem evolves_describe :
    (describe frame).Evolves ready (fun _ => []) [] [] session :=
  .get (.pure fun _ h => h)

/-- Nor is to ask for a frame. -/
theorem evolves_isAlive :
    (isAlive frame).Evolves ready (fun _ => []) [] [] session :=
  .onMachine (.move .release)

/-- What has been built may be called. -/
theorem evolves_called (result : Option String) {callee : Value} {values : List Value}
    (hstart : session.Sound ready (values ++ ([callee] ++ []))) :
    ((evaluate fun setup roots => applyCallable setup roots callee values) >>=
      conclude result).Evolves ready (fun _ => []) (values ++ ([callee] ++ [])) [] session := by
  have hinHand : session.roots.holdAll (values ++ ([callee] ++ [])) =
      (session.roots.hold callee).holdAll values := by
    simp [Roots.holdAll, Roots.hold]
  have hcall : (applyCallable session.setup session.roots callee values).Evolves ready
      (fun value => [value]) (session.roots.holdAll (values ++ ([callee] ++ []))) session.roots
      session.machine := by
    have hwellFormed := hstart.wellFormed
    rw [Session.holding, hinHand] at hwellFormed
    rw [hinHand]
    exact evolves_applyCallable hstart.heeds hwellFormed
  exact .bind hstart (evolves_evaluate hcall) (fun _ h => h) fun _ _ _ hending =>
    evolves_conclude result hending (by rintro value rfl; exact List.mem_cons_self)

/-- A native function may be called with what has been built. -/
theorem evolves_native (result : Option String) (operation : Intrinsic) {values : List Value}
    (hstart : session.Sound ready (values ++ [])) :
    ((evaluate fun setup _ => operation.run setup.files values) >>= conclude result).Evolves ready
      (fun _ => []) (values ++ []) [] session := by
  have hcall : (operation.run session.setup.files values).Evolves ready (fun value => [value])
      (session.roots.holdAll (values ++ [])) session.roots session.machine :=
    evolves_intrinsic _ operation hstart.wellFormed
      (fun value hmem => List.mem_append_left _ (List.mem_append_left _ hmem))
      (session.roots.within_holdAll _)
  exact .bind hstart (evolves_evaluate hcall) (fun _ h => h) fun _ _ _ hending =>
    evolves_conclude result hending (by rintro value rfl; exact List.mem_cons_self)

/-- What a name is bound to in a scope may be kept. -/
theorem evolves_found (result : Option String) (name : String) :
    (keep result (session.machine.heap.lookup frame name)).Evolves ready (fun _ => []) [] []
      session := by
  cases hlookup : session.machine.heap.lookup frame name with
  | none => exact evolves_keep result fun _ h => by cases h
  | some value =>
    have htake : session.Evolves ready [] [value] session :=
      ⟨rfl, .move (.take (.of_carries (Heap.carries_of_lookup hlookup _)))⟩
    refine .of_start htake (.mono (evolves_keep result fun other h => ?_) fun _ h => by cases h)
    cases h
    exact List.mem_cons_self

end Step

/-- Whatever a command is, what it does to the heap is a history. -/
theorem evolves_perform (command : Command) {session : Session} (hstart : session.Sound ready []) :
    command.perform.Evolves ready (fun _ => []) [] [] session := by
  have hnil : ∀ value ∈ ([] : List Value), value ∈ ([] : List Value) := fun _ h => h
  have hbuild : ∀ draft : Draft, draft.build.Evolves ready (fun value => [value]) [] [] session :=
    fun draft => evolves_build draft hstart
  unfold Command.perform
  cases command with
  | run text scope forced result =>
    exact .scope hnil fun frame held => Step.evolves_run text forced result hstart held
  | statements text scope result =>
    exact .scope hnil fun frame held =>
      .answered hstart (Step.evolves_runEach result _ hstart held)
  | script text scope | report text scope =>
    exact .scope hnil fun frame held => .answered hstart (Step.evolves_script text hstart held)
  | call callee arguments result =>
    exact .bind hstart (hbuild callee) hnil fun callee middle _ hcallee =>
      .bind hcallee (evolves_buildAll arguments hcallee) (fun _ h => by cases h)
        fun values last _ hvalues => Step.evolves_called result hvalues
  | callBuiltin name arguments result =>
    refine .bind hstart (evolves_buildAll arguments hstart) hnil fun values middle _ hvalues =>
      .get ?_
    split
    · exact .pure fun _ h => by cases h
    · exact Step.evolves_native result _ hvalues
  | builtinNames => exact .get (.pure hnil)
  | converse scope =>
    exact .scope hnil fun frame held => .answered hstart (Step.evolves_converse hstart held)
  | readLine => exact .answered hstart (.onMachine_of_heap rfl)
  | newScope name =>
    exact .answered hstart (Step.evolves_newScope name hstart fun _ hid => by cases hid)
  | enclose name scope =>
    refine .scope hnil fun frame held => .answered hstart (Step.evolves_newScope name hstart ?_)
    rintro _ ⟨⟩
    exact held
  | «alias» name scope =>
    exact .scope hnil fun frame held => .answered hstart
      (Step.evolves_holdScope name (hstart.wellFormed.held_alive frame held))
  -- the frame around one that is held is alive, since well-formed heaps lose no outer frame
  | outer scope name =>
    refine .get (.scope hnil fun frame _ => ?_)
    split
    · exact .pure hnil
    next outer houter =>
      cases name with
      | none => exact .pure hnil
      | some name =>
        have halive : session.machine.heap.isAlive outer = true := by
          obtain ⟨found, hfound, hlink⟩ := Option.bind_eq_some_iff.mp houter
          exact hstart.wellFormed.outer_alive frame found outer hfound hlink
        exact .answered hstart (Step.evolves_holdScope name halive)
  -- and so is the frame that a held function was made in
  | captured value name =>
    refine .get ?_
    split
    next object literal frame hlookup =>
      have halive : session.machine.heap.isAlive frame = true :=
        hstart.wellFormed.leads_alive _ frame (.held (Step.mem_of_lookup_eq_some hlookup))
          ⟨_, .self _, rfl⟩
      exact .answered hstart (Step.evolves_holdScope name halive)
    · exact .pure hnil
    · exact .pure hnil
  | drop name =>
    exact .answered hstart
      (Step.evolves_forget rfl rfl ⟨fun id hid => Step.mem_of_mem_forget hid, fun _ h => h⟩)
  | sameScope left right =>
    exact .scope hnil fun _ _ => .scope hnil fun _ _ => .pure hnil
  | lookup scope name result =>
    exact .get (.scope hnil fun frame _ =>
      .answered hstart (Step.evolves_found result name))
  -- the scope is looked up before the value is built, which names no other in its place
  | bind scope name value =>
    refine .scope hnil fun frame held =>
      .bind hstart (hbuild value) hnil fun result middle hresult _ => ?_
    have hheld : frame ∈ (middle.roots.holdAll ([result] ++ [])).frames :=
      Step.mem_frames_of_keepsScopes (.build value) hresult held
    exact .onMachine ((Holding.Evolves.move (.bind name hheld List.mem_cons_self)).trans
      (.keep (middle.roots.within_holdAll _)))
  | describe scope => exact .scope hnil fun frame _ => .answered hstart Step.evolves_describe
  | watch name scope =>
    exact .scope hnil fun frame _ => .answered hstart (Step.evolves_forget rfl rfl (.refl _))
  -- a frame that is watched is not held; it may be held again only if it has not gone
  | isAlive name result =>
    refine .get ?_
    split
    · exact .throw _ hnil
    next frame _ =>
      refine .bind hstart Step.evolves_isAlive hnil fun alive middle hresult hmiddle => ?_
      cases result with
      | none => exact .pure hnil
      | some name =>
        have halive : alive = true → middle.machine.heap.isAlive frame = true := by
          cases hresult
          exact id
        cases alive with
        | false => exact .pure hnil
        | true => exact .answered hmiddle (Step.evolves_holdScope name (halive rfl))
  | collect =>
    have hcollect : (Step.onMachine fun _ roots => Machine.collect roots).Evolves ready
        (fun _ => []) [] [] session := .onMachine (.move .collect)
    exact .answered hstart hcollect
  | hold name value =>
    exact .bind hstart (hbuild value) hnil fun value middle _ hvalue =>
      .answered hvalue
        (.mono (Step.evolves_holdValue name List.mem_cons_self) fun _ h => by cases h)
  | release name =>
    exact .answered hstart
      (Step.evolves_forget rfl rfl ⟨fun _ h => h, fun value h => Step.mem_of_mem_forget h⟩)
  | inspect value => exact .answered hstart (hbuild value)
  | compare left right =>
    exact .bind hstart (hbuild left) hnil fun value middle _ hleft =>
      .answered hleft (.mono (evolves_build right hleft) fun _ h => by cases h)
  | keyOrder left right =>
    refine .bind hstart (hbuild left) hnil fun value middle _ hleft =>
      .bind hleft (evolves_build right hleft) (fun _ h => by cases h) fun _ _ _ _ => .digest ?_
    split <;> exact .pure fun _ h => by cases h

/-! ## Sessions -/

/-- Commands are performed in order. -/
theorem performAll_cons (command : Command) (rest : List Command) (session : Session) :
    (session.performAll (command :: rest)).2 =
      ((session.perform command).2.performAll rest).2 := rfl

/-- Also a mistake leaves what the steps before it have done. -/
theorem evolves_performCommand (command : Command) {session : Session}
    (hstart : session.Sound ready []) :
    session.Evolves ready [] [] (session.perform command).2 := by
  have hperform := evolves_perform command hstart
  unfold Step.Evolves at hperform
  rw [Session.perform]
  cases hresult : command.perform session with
  | ok answer after =>
    rw [hresult] at hperform
    exact hperform
  | error mistake after =>
    rw [hresult] at hperform
    exact hperform

/-- Whatever commands a host gives, what they do to the heap is a history. -/
theorem evolves_performAll (commands : List Command) {session : Session}
    (hstart : session.Sound ready []) :
    session.Evolves ready [] [] (session.performAll commands).2 := by
  induction commands generalizing session with
  | nil => exact .refl [] session
  | cons command rest ih =>
    have hfirst := evolves_performCommand command hstart
    rw [performAll_cons]
    exact hfirst.trans (ih (hfirst.sound hstart))

/-- Nothing has been made, so that nothing can be wrong. -/
theorem Holding.wellFormed_start : Holding.start.WellFormed := Heap.wellFormed_empty

/-- A session begins with nothing made. -/
theorem evolves_start {setup : Setup} (heeds : setup.Heeds ready) (console : Console) :
    Holding.start.Evolves ready ((Session.start setup console).holding []) :=
  .allocate heeds none (fun _ hid => by cases hid) rfl

/-- A session that a host has just started is sound. -/
theorem sound_start {setup : Setup} (heeds : setup.Heeds ready) (console : Console) :
    (Session.start setup console).Sound ready [] :=
  ⟨heeds, (evolves_start heeds console).wellFormed Holding.wellFormed_start⟩

/-- Every heap that a host can bring about has come about by moves, from nothing. -/
theorem evolves_session {setup : Setup} (heeds : setup.Heeds ready) (console : Console)
    (commands : List Command) :
    Holding.start.Evolves ready
      ((Session.performAll commands (Session.start setup console)).2.holding []) :=
  (evolves_start heeds console).trans
    (evolves_performAll commands (sound_start heeds console)).history

/-- Whether a heap has come about by moves, with what is held of it. -/
def Holding.Reached (holding : Holding) : Prop := Holding.start.Evolves (fun _ => True) holding

/-- What has come about by moves is well-formed. -/
theorem Holding.Reached.wellFormed {holding : Holding} (h : holding.Reached) : holding.WellFormed :=
  h.elim fun _ history => history.wellFormed wellFormed_start

/-- Every session reaches a heap by moves. -/
theorem reached_session (setup : Setup) (console : Console) (commands : List Command) :
    ((Session.performAll commands (Session.start setup console)).2.holding []).Reached :=
  evolves_session setup.heeds_true console commands

end Scriptlet
