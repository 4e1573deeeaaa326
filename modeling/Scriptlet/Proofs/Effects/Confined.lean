import Scriptlet.Proofs.Effects.Footprint

set_option autoImplicit false

/-!
# Evaluation writes only the current frame

Component: the evaluator and the environments that it writes.  Specification: section 3, by which
`Set` always writes into the current frame and there is no assignment through to an outer one, and
section 4.3 on calls, whose body is evaluated in a fresh child environment.

An evaluation binds names in the frame that it is made in, and only those that the syntax binds
there.  A call binds names in its own frame only, which is new, so that nothing of it is left to be
seen in the frames that were there before: not in the frame of the caller, not in the frame that the
function was made in.

Most steps of an evaluation leave all frames as they are; `Calm` is a class, so that this is found
from the parts of a step.

That blocks share the frame they stand in is built into what syntax binds, so that an expression
with a block in it may well write its own frame.  What no evaluation does is to write another: not
one that it looks a name up in, and not one that a function it calls was made in.

There is an induction on syntax, with the frames of calls as its hypothesis (`Confined`), and one on
the depth of calls that provides it.  Well-formedness goes along, because a frame that is made must
not be one that still stands for something.
-/

namespace Scriptlet

/-! ## Steps that leave all frames as they are -/

/-- Whether an evaluation changes no frame and makes none. -/
class Calm {α : Type} (run : Eval α) : Prop where
  frames : ∀ machine, (run.after machine).heap.frames = machine.heap.frames

namespace Calm

variable {α β : Type}

/-- Two steps that leave all frames as they are do so together. -/
instance bind (run : Eval α) (next : α → Eval β) [Calm run] [∀ result, Calm (next result)] :
    Calm (run >>= next) where
  frames := by
    intro machine
    have hrun : (run.after machine).heap.frames = machine.heap.frames := Calm.frames machine
    cases hresult : run machine with
    | ok result middle =>
      rw [Eval.after_of_ok hresult] at hrun
      rw [Eval.after, Eval.bind_of_ok hresult]
      have hnext : ((next result).after middle).heap.frames = middle.heap.frames :=
        Calm.frames middle
      exact hnext.trans hrun
    | error halt middle =>
      rw [Eval.after_of_error hresult] at hrun
      rwa [Eval.after_of_error (Eval.bind_of_error hresult)]

instance (result : α) : Calm (pure result : Eval α) := ⟨fun _ => rfl⟩

instance (halt : Halt) : Calm (throw halt : Eval α) := ⟨fun _ => rfl⟩

instance (fault : Fault) : Calm (Eval.fail fault : Eval α) := ⟨fun _ => rfl⟩

instance (result : Except Fault α) : Calm (Eval.ofExcept result) := by
  cases result <;> exact ⟨fun _ => rfl⟩

instance : Calm (get : Eval Machine) := ⟨fun _ => rfl⟩

instance (change : Console → α × Console) : Calm (Eval.onConsole change) := ⟨fun _ => rfl⟩

instance (elements : List Value) : Calm (Eval.newArray elements) := ⟨fun _ => rfl⟩

instance (entries : List Entry) : Calm (Eval.newHash entries) := ⟨fun _ => rfl⟩

instance (literal : FunctionLiteral) (frame : FrameId) : Calm (Eval.newFunction literal frame) :=
  ⟨fun _ => rfl⟩

instance (condition : Prop) [Decidable condition] (first second : Eval α) [Calm first]
    [Calm second] : Calm (if condition then first else second) := by
  split <;> infer_instance

/-! ### Native functions -/

instance (arguments : List Value) (wanted : Nat) : Calm (checkCount arguments wanted) := by
  unfold checkCount
  infer_instance

instance (arguments : List Value) : Calm (soleArgument arguments) := by
  unfold soleArgument
  infer_instance

instance (operation : Intrinsic) (value : Value) : Calm (elementsOf operation value) := by
  unfold elementsOf
  split <;> infer_instance

instance (value : Value) : Calm (lengthOf value) := by
  unfold lengthOf
  split <;> infer_instance

instance (files : Files) (path : String) : Calm (readFile files path) where
  frames := by
    intro machine
    unfold readFile
    cases files.read path <;> rfl

/-- No native function changes a frame or makes one. -/
instance run (files : Files) (operation : Intrinsic) (arguments : List Value) :
    Calm (operation.run files arguments) := by
  cases operation with
  | len | first | last => exact bind _ _
  | rest =>
    refine @bind _ _ _ _ inferInstance fun value => @bind _ _ _ _ inferInstance fun elements => ?_
    split <;> infer_instance
  | push => exact bind _ _
  | puts =>
    refine @bind _ _ _ _ inferInstance fun result => ?_
    split <;> infer_instance
  | readline =>
    refine @bind _ _ _ _ inferInstance fun _ => @bind _ _ _ _ inferInstance fun result => ?_
    split <;> infer_instance
  | readfile =>
    refine @bind _ _ _ _ inferInstance fun value => ?_
    split <;> infer_instance

/-- Looking a name up changes nothing. -/
instance evalName (setup : Setup) (frame : FrameId) (name : String) :
    Calm (evalName setup frame name) := by
  unfold Scriptlet.evalName
  split
  · infer_instance
  · refine @bind _ _ _ _ inferInstance fun machine => ?_
    split <;> infer_instance

end Calm

/-! ## Evaluations -/

namespace Eval

variable {α β : Type} {frame : FrameId} {names : List String} {machine : Machine}

/-- Whether an evaluation writes only some names of a frame. -/
def Writes (frame : FrameId) (names : List String) (run : Eval α) (machine : Machine) : Prop :=
  machine.heap.Writes frame names (run.after machine).heap

/-- A step that changes no frame writes nothing. -/
theorem Writes.of_calm (run : Eval α) [Calm run] : run.Writes frame names machine :=
  .of_frames_eq (Calm.frames machine)

/-- What two steps write together is what each of them does. -/
theorem Writes.bind {run : Eval α} {next : α → Eval β} (hrun : run.Writes frame names machine)
    (hnext : ∀ result middle, run machine = .ok result middle →
      (next result).Writes frame names middle) : (run >>= next).Writes frame names machine := by
  unfold Writes at hrun ⊢
  cases hresult : run machine with
  | ok result middle =>
    rw [after_of_ok hresult] at hrun
    rw [after, bind_of_ok hresult]
    exact hrun.trans (hnext result middle hresult)
  | error halt middle =>
    rw [after_of_error hresult] at hrun
    rwa [after_of_error (bind_of_error hresult)]

/-- What follows an evaluation may change no frame. -/
theorem Writes.bind_calm {run : Eval α} {next : α → Eval β} [∀ result, Calm (next result)]
    (hrun : run.Writes frame names machine) : (run >>= next).Writes frame names machine :=
  hrun.bind fun _ _ _ => .of_calm _

/-- After a result, what holds of what an evaluation leaves holds of the machine. -/
theorem wellFormed_of_ok {values : α → List Value} {roots : Roots} {run : Eval α} {next : Machine}
    {result : α} (h : (run.after machine).heap.WellFormed (run.heldAfter values roots machine))
    (hresult : run machine = .ok result next) :
    next.heap.WellFormed (roots.holdAll (values result)) := by
  rwa [after_of_ok hresult, heldAfter, ends, hresult] at h

end Eval

/-- Whether calls of functions keep heaps well-formed and write nothing to the frames there are. -/
structure Confined (setup : Setup) (invoke : Invoke) : Prop where
  calls : (diagonal setup).Calls invoke invoke
  writes : ∀ (roots : Roots) (literal : FunctionLiteral) (id frame : FrameId)
    (names : List String) (arguments : List Value) (machine : Machine),
    machine.heap.WellFormed ((roots.holdAll arguments).holdFrame id) →
    (invoke roots literal id arguments).Writes frame names machine

section

variable {setup : Setup} {invoke : Invoke} {frame : FrameId} {names : List String}

/-- The value of an expression may be held. -/
theorem Confined.hold_expression (confined : Confined setup invoke) {roots : Roots}
    {machine middle : Machine} {expression : Expression} {value : Value}
    (h : machine.heap.WellFormed roots) (held : frame ∈ roots.frames)
    (hvalue : evalExpression setup invoke frame roots expression machine = .ok value middle) :
    middle.heap.WellFormed (roots.hold value) :=
  Eval.wellFormed_of_ok (wellFormed_evalExpression confined.calls h held expression) hvalue

/-- Also the value of a statement. -/
theorem Confined.hold_statement (confined : Confined setup invoke) {roots : Roots}
    {machine middle : Machine} {statement : Statement} {value : Option Value}
    (h : machine.heap.WellFormed roots) (held : frame ∈ roots.frames)
    (hvalue : evalStatement setup invoke frame roots statement machine = .ok value middle) :
    middle.heap.WellFormed (roots.holdAll value.toList) :=
  Eval.wellFormed_of_ok (wellFormed_evalStatement confined.calls h held statement) hvalue

/-- A call writes nothing to the frame that it is made in. -/
theorem writes_applyValue (confined : Confined setup invoke) {roots : Roots} {callee : Value}
    {arguments : List Value} {machine : Machine}
    (h : machine.heap.WellFormed ((roots.hold callee).holdAll arguments)) :
    (applyValue setup invoke roots callee arguments).Writes frame names machine := by
  cases callee with
  | function object literal id =>
    have hcallee : Value.function object literal id ∈
        ((roots.hold (.function object literal id)).holdAll arguments).values :=
      List.mem_append_right _ List.mem_cons_self
    refine confined.writes _ literal id frame names arguments machine (h.holdFrame ?_)
    exact h.leads_alive _ id (.held hcallee) ⟨_, .self _, rfl⟩
  | builtin builtin => exact .of_calm (builtin.operation.run setup.files arguments)
  | null | integer | boolean | string | array | hash => exact .of_calm (Eval.fail _)

/-- What is among entries after an insertion was there or has been inserted. -/
theorem mem_insertEntry {entry other : Entry} {entries : List Entry}
    (h : other ∈ insertEntry entry entries) : other = entry ∨ other ∈ entries := by
  induction entries with
  | nil => exact .inl (List.mem_singleton.mp h)
  | cons first rest ih =>
    rw [insertEntry] at h
    split at h
    · exact (List.mem_cons.mp h).imp id (List.mem_cons_of_mem _)
    · split at h
      · exact List.mem_cons.mp h
      · rcases List.mem_cons.mp h with rfl | h
        · exact .inr List.mem_cons_self
        · exact (ih h).imp id (List.mem_cons_of_mem _)

/-- The parts of entries after an insertion are parts of what was there or of what was inserted. -/
theorem within_insertEntry (roots : Roots) (entry : Entry) (entries : List Entry) :
    (roots.holdAll (Entry.parts (insertEntry entry entries))).Within
      ((roots.holdAll (Entry.parts entries)).holdAll (Entry.parts [entry])) := by
  refine ⟨fun _ h => h, fun value hvalue => ?_⟩
  rcases List.mem_append.mp hvalue with hvalue | hvalue
  · obtain ⟨other, hother, hpart⟩ := Value.mem_parts.mp hvalue
    rcases mem_insertEntry hother with rfl | hother
    · exact List.mem_append_left _ (Value.mem_parts.mpr ⟨other, List.mem_cons_self, hpart⟩)
    · apply List.mem_append_right
      exact List.mem_append_left _ (Value.mem_parts.mpr ⟨other, hother, hpart⟩)
  · exact List.mem_append_right _ (List.mem_append_right _ hvalue)

/-- Of the values of two statements, only the later one is held when the next one runs. -/
theorem within_last (roots : Roots) (last value : Option Value) :
    (value.elim roots roots.hold).Within
      ((last.elim roots roots.hold).holdAll value.toList) := by
  have hbefore : roots.Within (last.elim roots roots.hold) := by
    cases last with
    | none => exact .refl roots
    | some value => exact roots.within_hold value
  cases value with
  | none => exact hbefore
  | some value =>
    refine ⟨hbefore.frames, fun other hother => ?_⟩
    rcases List.mem_cons.mp hother with rfl | hother
    · exact List.mem_cons_self
    · exact List.mem_cons_of_mem _ (hbefore.values other hother)

mutual

/-- Expressions: a block in one may bind names, and a call may not. -/
theorem writes_expression (confined : Confined setup invoke) : (expression : Expression) →
    expression.binds ⊆ names →
    ∀ {roots : Roots} {machine : Machine}, machine.heap.WellFormed roots → frame ∈ roots.frames →
      (evalExpression setup invoke frame roots expression).Writes frame names machine
  | .identifier name, _, _, _, _, _ => by
    simp only [evalExpression]
    exact .of_calm _
  | .integer _ value, _, _, _, _, _ | .string token, _, _, _, _, _
  | .boolean _ value, _, _, _, _, _ => by
    simp only [evalExpression]
    exact .of_calm _
  | .unary _ operator right, hnames, _, _, h, held => by
    simp only [evalExpression]
    exact (writes_expression confined right hnames h held).bind_calm
  | .binary _ left operator right, hnames, _, _, h, held => by
    simp only [evalExpression]
    obtain ⟨hleft, hright⟩ := List.append_subset.mp hnames
    refine (writes_expression confined left hleft h held).bind fun value middle hvalue => ?_
    have hmiddle := confined.hold_expression h held hvalue
    exact (writes_expression confined right hright hmiddle held).bind_calm
  -- the blocks of a conditional have no frame of their own: their names are among those of the
  -- whole
  | .conditional _ condition consequence alternative, hnames, _, _, h, held => by
    simp only [evalExpression]
    obtain ⟨hcondition, hbranches⟩ := List.append_subset.mp hnames
    obtain ⟨hconsequence, halternative⟩ := List.append_subset.mp hbranches
    refine (writes_expression confined condition hcondition h held).bind
      fun value middle hvalue => ?_
    have hmiddle := confined.hold_expression h held hvalue
    split
    · exact (writes_block confined consequence hconsequence hmiddle held).bind_calm
    · exact (writes_alternative confined alternative halternative hmiddle held).bind_calm
  -- a function literal writes nothing: what its body binds, it binds in the frame of a call
  | .function literal, _, _, _, _, _ => by
    simp only [evalExpression]
    exact .of_calm _
  -- the callee is held while the arguments are evaluated, so that its frame is none of those a call
  -- may drop
  | .call _ callee arguments, hnames, _, _, h, held => by
    simp only [evalExpression]
    obtain ⟨hcallee, harguments⟩ := List.append_subset.mp hnames
    refine (writes_expression confined callee hcallee h held).bind fun value middle hvalue => ?_
    have hmiddle := confined.hold_expression h held hvalue
    refine (writes_expressions confined arguments harguments hmiddle held).bind
      fun values last hvalues => ?_
    exact writes_applyValue confined (Eval.wellFormed_of_ok
      (wellFormed_evalExpressions confined.calls hmiddle held arguments) hvalues)
  | .array _ elements, hnames, _, _, h, held => by
    simp only [evalExpression]
    exact (writes_expressions confined elements hnames h held).bind_calm
  | .index _ left position, hnames, _, _, h, held => by
    simp only [evalExpression]
    obtain ⟨hleft, hposition⟩ := List.append_subset.mp hnames
    refine (writes_expression confined left hleft h held).bind fun value middle hvalue => ?_
    have hmiddle := confined.hold_expression h held hvalue
    exact (writes_expression confined position hposition hmiddle held).bind_calm
  | .hash _ pairs, hnames, _, _, h, held => by
    simp only [evalExpression]
    exact (writes_pairs confined pairs hnames h held).bind_calm

/-- Expressions in a row, as in an array or as arguments. -/
theorem writes_expressions (confined : Confined setup invoke) : (expressions : List Expression) →
    bindsOfExpressions expressions ⊆ names →
    ∀ {roots : Roots} {machine : Machine}, machine.heap.WellFormed roots → frame ∈ roots.frames →
      (evalExpressions setup invoke frame roots expressions).Writes frame names machine
  | [], _, _, _, _, _ => by
    simp only [evalExpressions]
    exact .of_calm _
  | expression :: rest, hnames, _, _, h, held => by
    simp only [evalExpressions]
    obtain ⟨hfirst, hrest⟩ := List.append_subset.mp hnames
    refine (writes_expression confined expression hfirst h held).bind fun value middle hvalue => ?_
    have hmiddle := confined.hold_expression h held hvalue
    exact (writes_expressions confined rest hrest hmiddle held).bind_calm

/-- The pairs of a hash literal. -/
theorem writes_pairs (confined : Confined setup invoke) : (pairs : List Pair) →
    bindsOfPairs pairs ⊆ names →
    ∀ {roots : Roots} {machine : Machine} {entries : List Entry},
      machine.heap.WellFormed (roots.holdAll (Entry.parts entries)) → frame ∈ roots.frames →
      (evalPairs setup invoke frame roots entries pairs).Writes frame names machine
  | [], _, _, _, _, _, _ => by
    simp only [evalPairs]
    exact .of_calm _
  | pair :: rest, hnames, roots, _, entries, h, held => by
    simp only [evalPairs]
    obtain ⟨hfirst, hrest⟩ := List.append_subset.mp hnames
    refine (writes_pair confined pair hfirst h held).bind fun entry middle hentry => ?_
    have hmiddle := Eval.wellFormed_of_ok (wellFormed_evalPair confined.calls h held pair) hentry
    exact writes_pairs confined rest hrest
      (hmiddle.of_within (within_insertEntry roots entry entries)) held

/-- A pair, its name before its value. -/
theorem writes_pair (confined : Confined setup invoke) : (pair : Pair) → pair.binds ⊆ names →
    ∀ {roots : Roots} {machine : Machine}, machine.heap.WellFormed roots → frame ∈ roots.frames →
      (evalPair setup invoke frame roots pair).Writes frame names machine
  | ⟨key, value⟩, hnames, _, _, h, held => by
    simp only [evalPair]
    obtain ⟨hkey, hvalue⟩ := List.append_subset.mp hnames
    refine (writes_expression confined key hkey h held).bind fun name middle hname => ?_
    have hmiddle := confined.hold_expression h held hname
    exact (writes_expression confined value hvalue hmiddle held).bind_calm

/-- The block behind `else`, if there is one. -/
theorem writes_alternative (confined : Confined setup invoke) : (alternative : Option Block) →
    bindsOfAlternative alternative ⊆ names →
    ∀ {roots : Roots} {machine : Machine}, machine.heap.WellFormed roots → frame ∈ roots.frames →
      (evalAlternative setup invoke frame roots alternative).Writes frame names machine
  | none, _, _, _, _, _ => by
    simp only [evalAlternative]
    exact .of_calm _
  | some block, hnames, _, _, h, held => by
    simp only [evalAlternative]
    exact writes_block confined block hnames h held

/-- A block, which has no frame of its own. -/
theorem writes_block (confined : Confined setup invoke) : (block : Block) → block.binds ⊆ names →
    ∀ {roots : Roots} {machine : Machine}, machine.heap.WellFormed roots → frame ∈ roots.frames →
      (evalBlock setup invoke frame roots block).Writes frame names machine
  | ⟨_, statements, _⟩, hnames, _, _, h, held => by
    simp only [evalBlock]
    exact writes_statements confined statements hnames h held

/-- Statements one after the other. -/
theorem writes_statements (confined : Confined setup invoke) : (statements : List Statement) →
    bindsOfStatements statements ⊆ names →
    ∀ {roots : Roots} {machine : Machine} {last : Option Value},
      machine.heap.WellFormed (last.elim roots roots.hold) → frame ∈ roots.frames →
      (evalStatements setup invoke frame roots last statements).Writes frame names machine
  | [], _, _, _, _, _, _ => by
    simp only [evalStatements]
    exact .of_calm _
  | statement :: rest, hnames, roots, _, last, h, held => by
    simp only [evalStatements]
    obtain ⟨hfirst, hrest⟩ := List.append_subset.mp hnames
    have hheld : frame ∈ (last.elim roots roots.hold).frames := by
      cases last <;> exact held
    refine (writes_statement confined statement hfirst h hheld).bind fun value middle hvalue => ?_
    have hmiddle := confined.hold_statement h hheld hvalue
    exact writes_statements confined rest hrest
      (hmiddle.of_within (within_last roots last value)) held

/-- A binding writes its name, and no other statement writes anything itself. -/
theorem writes_statement (confined : Confined setup invoke) : (statement : Statement) →
    statement.binds ⊆ names →
    ∀ {roots : Roots} {machine : Machine}, machine.heap.WellFormed roots → frame ∈ roots.frames →
      (evalStatement setup invoke frame roots statement).Writes frame names machine
  | .binding _ name value _, hnames, _, _, h, held => by
    simp only [evalStatement]
    obtain ⟨hname, hvalue⟩ := List.cons_subset.mp hnames
    refine (writes_expression confined value hvalue h held).bind fun result middle _ => ?_
    exact Heap.Writes.bind hname result middle.heap
  | .returning _ value _, hnames, _, _, h, held => by
    simp only [evalStatement]
    exact (writes_expression confined value hnames h held).bind_calm
  | .expression _ value _, hnames, _, _, h, held => by
    simp only [evalStatement]
    exact (writes_expression confined value hnames h held).bind_calm

end

end

/-! ## Calls -/

namespace Heap.WellFormed

variable {heap : Heap} {roots : Roots}

/-- A frame may be made inside one that is held, whether or not a collection is due. -/
theorem allocate {outer : FrameId} (h : heap.WellFormed (roots.holdFrame outer))
    (due : Heap → Bool) :
    (heap.allocate due roots (some outer)).2.WellFormed
      ((roots.holdFrame outer).holdFrame (heap.allocate due roots (some outer)).1) := by
  simp only [Heap.allocate, Option.elim_some]
  have houter : ∀ id, some outer = some id → id ∈ (roots.holdFrame outer).frames := by
    rintro id ⟨⟩
    exact List.mem_cons_self
  split
  · exact h.collect.newFrame _ houter
  · exact h.newFrame _ houter

/-- Held values may be bound to parameters, and need not be held any more. -/
theorem bindAll {values : List Value} (h : heap.WellFormed (roots.holdAll values)) (id : FrameId)
    (names : List Name) : (heap.bindAll id names values).WellFormed roots := by
  induction names generalizing heap values with
  | nil =>
    simp only [Heap.bindAll]
    exact h.of_within (roots.within_holdAll values)
  | cons name names ih =>
    cases values with
    | nil => exact h
    | cons value values =>
      have hfirst : heap.WellFormed ((roots.holdAll values).hold value) := h
      exact ih (hfirst.bind id name.text)

end Heap.WellFormed

/-- Whether a body ends normally or by a `return`, it leaves the same machine. -/
theorem after_catchReturn (body : Eval (Option Value)) (machine : Machine) :
    (catchReturn body).after machine = body.after machine := by
  simp only [Eval.after, catchReturn]
  cases body machine with
  | ok value next => rfl
  | error halt next => cases halt <;> rfl

/-- A new frame is none of those there were. -/
theorem size_le_allocate (heap : Heap) (due : Heap → Bool) (roots : Roots)
    (outer : Option FrameId) :
    heap.frames.size ≤ (heap.allocate due roots outer).1.index := by
  simp only [Heap.allocate, Heap.newFrame]
  split
  · exact Nat.le_of_eq (Heap.size_frames_collect heap _).symm
  · exact Nat.le_refl _

/-- Calls write nothing to the frames there are, however deep they may be nested: what a call binds
it binds in its own frame, which is new. -/
theorem confined_invokeWithin (setup : Setup) (depth : Nat) :
    Confined setup (invokeWithin setup depth) := by
  induction depth with
  | zero =>
    refine ⟨Simulation.calls_invokeWithin _ _, ?_⟩
    intro roots literal id frame names arguments machine _
    exact .of_calm (throw Halt.exhausted)
  | succ depth ih =>
    refine ⟨Simulation.calls_invokeWithin _ _, ?_⟩
    rintro roots literal id frame names arguments ⟨heap, console, asked⟩ h
    let call := heap.allocate setup.due (roots.holdAll arguments) (some id)
    let bound : Machine := ⟨call.2.bindAll call.1 literal.parameters arguments, console, asked⟩
    have hrun : (invokeWithin setup (depth + 1) roots literal id arguments).after
        ⟨heap, console, asked⟩ = (evalBlock setup (invokeWithin setup depth) call.1
          (roots.holdFrame call.1) literal.body).after bound := by
      rw [← after_catchReturn]
      rfl
    have hmade : heap.Writes frame names call.2 := .allocate h.toSound setup.due
    have hheld : call.2.WellFormed ((roots.holdFrame call.1).holdAll arguments) :=
      (h.allocate setup.due).of_within ⟨fun other hother => by
        rcases List.mem_cons.mp hother with rfl | hother
        · exact List.mem_cons_self
        · exact List.mem_cons_of_mem _ (List.mem_cons_of_mem _ hother), fun _ h => h⟩
    let written := literal.parameters.map Name.text ++ literal.body.binds
    have hbound : call.2.Writes call.1 written bound.heap :=
      (Heap.Writes.bindAll literal.parameters arguments call.2).mono (List.subset_append_left _ _)
    have hbody : (evalBlock setup (invokeWithin setup depth) call.1 (roots.holdFrame call.1)
        literal.body).Writes call.1 written bound :=
      writes_block ih literal.body (List.subset_append_right _ _)
        (hheld.bindAll call.1 literal.parameters) List.mem_cons_self
    rw [Eval.Writes, hrun]
    exact hmade.of_new (hbound.trans hbody) (size_le_allocate heap _ _ _)

end Scriptlet
