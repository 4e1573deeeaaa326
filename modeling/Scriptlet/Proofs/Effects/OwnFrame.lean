import Scriptlet.Proofs.Effects.Confined
import Scriptlet.Proofs.Heap.Without

set_option autoImplicit false

/-!
# What is left of the frames there were

Component: the evaluator and the environments.  Specification: section 3, by which nested evaluation
never changes the map of its parent, except through a binding in the current frame, and section 5 on
frames that several functions share.

An evaluation leaves each frame there was as it is, apart from its own frame and the names that its
syntax binds there, unless a collection drops the frame.  No frame is dropped as long as it can be
reached: neither one that can be reached afterwards (`Heap.Stays`), nor one that could be reached
before, unless what led to it was bound to a name that has been bound again.

Collections are not excluded, so that a frame may be gone for a good reason.  The reason must be one
that can be checked on the heaps: it cannot be reached any more, and what led to it before was
written over (`Heap.without`).
-/

namespace Scriptlet

/-- The names of a frame that may have been bound. -/
def boundIn (frame : FrameId) (names : List String) (id : FrameId) (name : String) : Bool :=
  id = frame ∧ name ∈ names

namespace Heap

/-- Whether a frame is as it was, or else has been dropped, when it could not be reached: neither
before, in that part of the heap which was certain to last, nor is it reached after. -/
inductive Stays (before lasting after : Heap) (roots later : Roots) (id : FrameId) : Prop where
  | same (h : after.frame? id = before.frame? id)
  | dropped (gone : after.frame? id = none) (unreached : ¬ lasting.Reachable roots id)
      (unreachable : ¬ after.Reachable later id)

/-- Whether on the way from one heap to another, with some roots held before and others after, all
frames stayed except for one, in which only some names may have changed. -/
structure WritesOnly (before : Heap) (frame : FrameId) (names : List String)
    (roots later : Roots) (after : Heap) : Prop where
  others : ∀ id, before.isAlive id = true → id ≠ frame →
    before.Stays (before.without (boundIn frame names)) after roots later id
  own : ∀ old, before.frame? frame = some old → ∃ new, after.frame? frame = some new ∧
    new.outer = old.outer ∧
    ∀ name, name ∉ names → new.bindings.lookup name = old.bindings.lookup name

namespace Writes

variable {frame : FrameId} {names : List String} {before after : Heap} {roots later : Roots}

/-- What could be reached by what cannot have changed is alive. -/
theorem isAlive_of_reachable (h : before.Writes frame names after)
    (hbefore : before.WellFormed roots) (hafter : after.WellFormed later)
    (within : roots.Within later) {id : FrameId}
    (reached : (before.without (boundIn frame names)).Reachable roots id) :
    after.isAlive id = true := by
  have hkept : ∀ {inner : FrameId} {old : Frame}, before.frame? inner = some old →
      after.isAlive inner = true → ∃ new, after.frame? inner = some new ∧ new.outer = old.outer ∧
        Bindings.Rebound (if inner = frame then names else []) old.bindings new.bindings := by
    intro inner old hold halive
    obtain ⟨new, hnew⟩ := isAlive_iff.mp halive
    obtain ⟨_, hold', hchange⟩ :=
      h.kept inner new (lt_size_of_isAlive (isAlive_iff.mpr ⟨old, hold⟩)) hnew
    cases hold.symm.trans hold'
    exact ⟨new, hnew, hchange⟩
  induction reached with
  | held hmem => exact hafter.held_alive _ (within.frames _ hmem)
  | captured hmem leads => exact hafter.leads_alive _ _ (.held (within.values _ hmem)) leads
  | outer inner here houter ih =>
    obtain ⟨old, hold, rfl⟩ := exists_of_frame?_without here
    obtain ⟨new, hnew, hsame, _⟩ := hkept hold ih
    exact hafter.outer_alive _ new _ hnew (hsame.trans houter)
  | @bound inner _ _ binding _ here hmem leads ih =>
    obtain ⟨old, hold, rfl⟩ := exists_of_frame?_without here
    obtain ⟨new, hnew, _, hchange⟩ := hkept hold ih
    obtain ⟨hmem, hlive⟩ := List.mem_filter.mp hmem
    have hname : binding.1 ∉ if inner = frame then names else [] := by
      split
      next heq => simpa [boundIn, heq] using hlive
      · exact List.not_mem_nil
    have hlookup := hchange.lookup_eq hname
    rw [Bindings.lookup_of_mem (hbefore.distinct inner old hold) hmem] at hlookup
    exact hafter.leads_alive _ _ (.bound hnew (Bindings.mem_of_lookup hlookup)) leads

/-- A frame in which nothing is bound stays. -/
theorem stays (h : before.Writes frame names after) (hbefore : before.WellFormed roots)
    (hafter : after.WellFormed later) (within : roots.Within later) {id : FrameId}
    (halive : before.isAlive id = true) (hid : id = frame → names = []) :
    before.Stays (before.without (boundIn frame names)) after roots later id := by
  cases hnew : after.frame? id with
  | none =>
    have hdead : after.isAlive id ≠ true := by
      rw [isAlive, hnew]
      exact Bool.false_ne_true
    apply Stays.dropped hnew
    · exact fun reached => hdead (h.isAlive_of_reachable hbefore hafter within reached)
    · exact fun reached => hdead (hafter.toSound.isAlive_of_reachable reached)
  | some new =>
    obtain ⟨old, hold, houter, hbindings⟩ := h.kept id new (lt_size_of_isAlive halive) hnew
    have hnames : (if id = frame then names else []) = [] := by
      split
      next heq => exact hid heq
      · rfl
    rw [hnames] at hbindings
    have hsame : new = old := congrArg₂ Frame.mk hbindings.eq_of_nil houter
    exact .same (by rw [hnew, hold, hsame])

/-- So all that an evaluation writes, in a heap that stays well-formed, is what it may. -/
theorem writesOnly (h : before.Writes frame names after) (hbefore : before.WellFormed roots)
    (hafter : after.WellFormed later) (within : roots.Within later) (held : frame ∈ roots.frames) :
    before.WritesOnly frame names roots later after where
  others := fun id halive hne => h.stays hbefore hafter within halive fun heq => absurd heq hne
  own := by
    intro old hold
    obtain ⟨new, hnew⟩ := isAlive_iff.mp (hafter.held_alive frame (within.frames frame held))
    obtain ⟨_, hold', houter, hbindings⟩ :=
      h.kept frame new (lt_size_of_isAlive (isAlive_iff.mpr ⟨old, hold⟩)) hnew
    cases hold.symm.trans hold'
    rw [if_pos rfl] at hbindings
    exact ⟨new, hnew, houter, fun name hname => hbindings.lookup_eq hname⟩

end Writes

end Heap

/-! ## Programs -/

section

variable {setup : Setup} {frame : FrameId} {roots : Roots} {machine : Machine}

/-- Statements at the top of a program, with a collection before every frame that is made. -/
theorem writes_runStatements (statements : List Statement) {names : List String}
    (hnames : bindsOfStatements statements ⊆ names) {last : Option Value}
    (h : machine.heap.WellFormed (last.elim roots roots.hold)) (held : frame ∈ roots.frames) :
    machine.heap.Writes frame names
      (runStatements setup frame roots last statements machine).2.heap := by
  induction statements generalizing machine last with
  | nil =>
    simp only [runStatements]
    exact .refl _ _ _
  | cons statement rest ih =>
    obtain ⟨hfirst, hrest⟩ := List.append_subset.mp hnames
    have confined := confined_invokeWithin setup setup.callDepth
    have hheld : frame ∈ (last.elim roots roots.hold).frames := by
      cases last <;> exact held
    have hwrites := writes_statement confined statement hfirst h hheld
    simp only [runStatements, execute]
    generalize hresult : evalStatement setup (invokeWithin setup setup.callDepth) frame
      (last.elim roots roots.hold) statement machine = result
    cases result with
    | ok value middle =>
      rw [Eval.Writes, Eval.after_of_ok hresult] at hwrites
      have hmiddle := confined.hold_statement h hheld hresult
      exact hwrites.trans (ih hrest (hmiddle.of_within (within_last roots last value)))
    | error halt middle =>
      rw [Eval.Writes, Eval.after_of_error hresult] at hwrites
      cases halt <;> exact hwrites

/-- A program, with the collection at its end. -/
theorem writes_runProgram (program : Program) (h : machine.heap.WellFormed roots)
    (held : frame ∈ roots.frames) :
    machine.heap.Writes frame program.binds
      (runProgram setup frame roots program machine).2.heap := by
  have hrun : machine.heap.Writes frame program.binds
      (runStatements setup frame roots none program.statements machine).2.heap :=
    writes_runStatements program.statements (List.Subset.refl _) h held
  exact hrun.trans (.collect (wellFormed_runStatements program.statements h held).toSound)

end

/-! ## Evaluations -/

/-- Evaluation writes only the current frame: an expression, a statement or a program leaves all
frames but its own as they were, unless they are dropped when nothing can reach them, and in its own
frame it changes only names that its syntax binds outside of every function.  So it is however it
ends: with a value, a `return`, an error or too many nested calls.  A call leaves all frames there
were as they are, that in which the function was made among them. -/
theorem evaluation_writes_only_own_frame (setup : Setup) :
    (∀ {frame : FrameId} {roots : Roots} {machine : Machine}, machine.heap.WellFormed roots →
      frame ∈ roots.frames →
      (∀ expression : Expression,
        let run := evalExpression setup (invokeWithin setup setup.callDepth) frame roots expression
        machine.heap.WritesOnly frame expression.binds roots
          (run.heldAfter (fun value => [value]) roots machine) (run.after machine).heap) ∧
      (∀ statement : Statement,
        let run := execute setup frame roots statement
        machine.heap.WritesOnly frame statement.binds roots
          (run.heldAfter Option.toList roots machine) (run.after machine).heap) ∧
      (∀ program : Program,
        let ended := runProgram setup frame roots program machine
        machine.heap.WritesOnly frame program.binds roots (ended.1.heldIn roots) ended.2.heap)) ∧
    (∀ {roots : Roots} {machine : Machine} (callee : Value) (arguments : List Value),
      machine.heap.WellFormed ((roots.hold callee).holdAll arguments) →
      let run := applyCallable setup roots callee arguments
      ∀ id, machine.heap.isAlive id = true →
        machine.heap.Stays machine.heap (run.after machine).heap (roots.hold callee)
          (run.heldAfter (fun value => [value]) (roots.hold callee) machine) id) := by
  have confined := confined_invokeWithin setup setup.callDepth
  constructor
  · intro frame roots machine h held
    refine ⟨fun expression => ?_, fun statement => ?_, fun program => ?_⟩
    · have hwrites := writes_expression confined expression (List.Subset.refl _) h held
      exact Heap.Writes.writesOnly hwrites h
        (wellFormed_evalExpression confined.calls h held expression) (roots.within_holdAll _) held
    · have hwrites := writes_statement confined statement (List.Subset.refl _) h held
      exact Heap.Writes.writesOnly hwrites h
        (wellFormed_evalStatement confined.calls h held statement) (roots.within_holdAll _) held
    · exact (writes_runProgram program h held).writesOnly h (wellFormed_runProgram program h held)
        (within_heldIn _) held
  · intro roots machine callee arguments h run id halive
    have hwrites : machine.heap.Writes id [] (run.after machine).heap :=
      writes_applyValue confined h
    have hstays := hwrites.stays (h.of_within ((roots.hold callee).within_holdAll arguments))
      (wellFormed_applyValue confined.calls h) (Roots.within_holdAll _ _) halive fun _ => rfl
    rwa [Heap.without_eq_self fun _ _ => by simp [boundIn]] at hstays

/-- The last frame of the tangle, in which a function in a loose array was made, is as it was after
a program has run in the first frame, with a collection before every frame that is made, and after
the function has been called. -/
theorem evaluation_writes_only_own_frame_tangle :
    let start : Machine := ⟨Heap.tangle, .ofInput [], []⟩
    let setup := Setup.collecting true
    Heap.tangle.WellFormed Heap.looseEnds ∧ ⟨0⟩ ∈ Heap.looseEnds.frames ∧
    Heap.tangle.WellFormed ((Heap.looseEnds.hold (Heap.hollow 3 3)).holdAll []) ∧
    (runProgram setup ⟨0⟩ Heap.looseEnds keepers start).2.heap.frame? ⟨3⟩ =
      some ⟨[("self", Heap.hollow 3 3)], some ⟨0⟩⟩ ∧
    ((applyCallable setup Heap.looseEnds (Heap.hollow 3 3) []).after start).heap.frame? ⟨3⟩ =
      some ⟨[("self", Heap.hollow 3 3)], some ⟨0⟩⟩ := by
  intro start setup
  have hlast : Heap.tangle.frame? ⟨3⟩ = some ⟨[("self", Heap.hollow 3 3)], some ⟨0⟩⟩ := rfl
  have halive : Heap.tangle.isAlive ⟨3⟩ = true := Heap.isAlive_iff.mpr ⟨_, hlast⟩
  have hparcel : Heap.parcel.Leads ⟨3⟩ := ⟨Heap.hollow 3 3, .of_mem List.mem_cons_self, rfl⟩
  have hheld : Heap.tangle.WellFormed ((Heap.looseEnds.hold (Heap.hollow 3 3)).holdAll []) := by
    refine Heap.wellFormed_tangle.hold (.of_madeOf (.of_part List.mem_cons_self ?_))
    exact .of_mem List.mem_cons_self
  obtain ⟨heval, hcall⟩ := evaluation_writes_only_own_frame setup
  obtain ⟨_, _, hprogram⟩ := @heval ⟨0⟩ _ start Heap.wellFormed_tangle List.mem_cons_self
  refine ⟨Heap.wellFormed_tangle, List.mem_cons_self, hheld, ?_, ?_⟩
  · cases (hprogram keepers).others ⟨3⟩ halive (by decide) with
    | same h => exact h.trans hlast
    | dropped _ unreached => exact absurd (.captured List.mem_cons_self hparcel) unreached
  · cases @hcall Heap.looseEnds start (Heap.hollow 3 3) [] hheld ⟨3⟩ halive with
    | same h => exact h.trans hlast
    | dropped _ unreached =>
      have hmem : Heap.parcel ∈ (Heap.looseEnds.hold (Heap.hollow 3 3)).values :=
        List.mem_cons_of_mem _ List.mem_cons_self
      exact absurd (.captured hmem hparcel) unreached

end Scriptlet
