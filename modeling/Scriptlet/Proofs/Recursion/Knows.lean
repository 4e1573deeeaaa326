import Scriptlet.Proofs.Effects.OwnFrame
import Scriptlet.Proofs.Session.Calls

set_option autoImplicit false

/-!
# What is known of scopes

Component: the environment.  Specification: section 3 on bindings and captured environments, section
5, by which bindings that are made later are seen by all functions that share a frame.

A *fact* is that a name is worth a value in a frame.  Facts are known in a heap while their frames
can be reached (`Heap.Knows`).  An evaluation that binds nothing in the frames there are leaves
everything known, collections or not (`Heap.Knows.after`); a binding adds what it binds
(`Heap.Knows.bind`); and when the body of a call begins, its arguments are known, and what was known
of the frame that the function was made in (`Heap.Knows.begin`).

This is the logical state of the rules for evaluations: what a proof knows about a heap, without the
heap.  It is a list of facts and not a whole frame, because a collection may clear frames that are
not reached and a program may run in a frame with bindings of its own.

Facts survive for two reasons together.  Nothing is bound in the frame they are about, which the
evaluation has to promise; and the frame can be reached from what is held, so that no collection
clears it.
-/

namespace Scriptlet

/-- That a name is worth a value in a frame. -/
structure Fact where
  frame : FrameId
  name : String
  value : Value

/-- What is known when the body of a call begins, where some facts were known before it. -/
inductive Fact.Begins (facts : List Fact) (parameters : List Name) (arguments : List Value)
    (captured call : FrameId) : Fact → Prop where
  | argument {name : String} {value : Value}
      (bound : boundArgument? name parameters arguments = some value) :
      Begins facts parameters arguments captured call ⟨call, name, value⟩
  | captured {name : String} {value : Value} (known : ⟨captured, name, value⟩ ∈ facts) :
      Begins facts parameters arguments captured call ⟨captured, name, value⟩
  | inherited {name : String} {value : Value}
      (free : boundArgument? name parameters arguments = none)
      (known : ⟨captured, name, value⟩ ∈ facts) :
      Begins facts parameters arguments captured call ⟨call, name, value⟩

/-- What is known when a body begins depends on the names of the parameters only. -/
theorem Fact.Begins.congr {facts : List Fact} {parameters others : List Name}
    {arguments : List Value} {captured call : FrameId} {fact : Fact}
    (h : fact.Begins facts parameters arguments captured call)
    (same : ∀ name, boundArgument? name parameters arguments =
      boundArgument? name others arguments) :
    fact.Begins facts others arguments captured call := by
  cases h with
  | argument bound => exact .argument ((same _).symm.trans bound)
  | captured known => exact .captured known
  | inherited free known => exact .inherited ((same _).symm.trans free) known

namespace Heap

/-- Whether facts are known: their frames can be reached, and their names are looked up as their
values. -/
structure Knows (heap : Heap) (roots : Roots) (facts : List Fact) : Prop where
  wellFormed : heap.WellFormed roots
  reached : ∀ fact ∈ facts, heap.Reachable roots fact.frame
  found : ∀ fact ∈ facts, heap.lookup fact.frame fact.name = some fact.value

variable {heap next : Heap} {roots later : Roots} {facts others : List Fact} {frame : FrameId}

/-- Where nothing is bound in the frames there are, those that could be reached stay. -/
theorem Writes.frame?_of_reachable (h : heap.Writes frame [] next) (hheap : heap.WellFormed roots)
    (hnext : next.WellFormed later) (within : roots.Within later) {id : FrameId}
    (reached : heap.Reachable roots id) : next.frame? id = heap.frame? id := by
  have hlasting : (heap.without (boundIn frame [])).Reachable roots id := by
    rwa [without_eq_self fun _ _ => by simp [boundIn]]
  obtain ⟨new, hnew⟩ := isAlive_iff.mp (h.isAlive_of_reachable hheap hnext within hlasting)
  have hlt := lt_size_of_isAlive (hheap.toSound.isAlive_of_reachable reached)
  obtain ⟨old, hold, houter, hbindings⟩ := h.kept id new hlt hnew
  rw [ite_self] at hbindings
  have hsame : new = old := congrArg₂ Frame.mk hbindings.eq_of_nil houter
  rw [hnew, hold, hsame]

namespace Knows

/-- Fewer facts are known as well. -/
theorem mono (h : heap.Knows roots facts) (hsub : others ⊆ facts) : heap.Knows roots others :=
  ⟨h.wellFormed, fun fact hmem => h.reached fact (hsub hmem),
    fun fact hmem => h.found fact (hsub hmem)⟩

/-- Facts stay known where nothing is bound in the frames there are, whatever is collected. -/
theorem after (h : heap.Knows roots facts) (writes : heap.Writes frame [] next)
    (hnext : next.WellFormed later) (within : roots.Within later) : next.Knows later facts := by
  have hsame : ∀ id, heap.Reachable roots id → next.frame? id = heap.frame? id :=
    fun id hid => writes.frame?_of_reachable h.wellFormed hnext within hid
  refine ⟨hnext, fun fact hmem => (h.reached fact hmem).mono within hsame, fun fact hmem => ?_⟩
  have hreached := h.reached fact hmem
  obtain ⟨ids, hchain⟩ := h.wellFormed.layered.exists_chain
    (h.wellFormed.toSound.isAlive_of_reachable hreached)
  rw [hchain.lookup_of_same h.wellFormed.layered hnext.layered
    fun other hother => hsame other (hchain.reachable hreached other hother)]
  exact h.found fact hmem

/-- A binding adds a fact to those about its own frame and other names. -/
theorem bind {value : Value} (h : heap.Knows (roots.hold value) facts)
    (held : frame ∈ roots.frames) {name : String}
    (own : ∀ fact ∈ facts, fact.frame = frame ∧ fact.name ≠ name) :
    (heap.bind frame name value).Knows roots (⟨frame, name, value⟩ :: facts) := by
  have halive := h.wellFormed.held_alive frame held
  refine ⟨h.wellFormed.bind frame name, ?_, ?_⟩
  · refine List.forall_mem_cons.mpr ⟨.held held, fun fact hmem => ?_⟩
    rw [(own fact hmem).1]
    exact .held held
  · refine List.forall_mem_cons.mpr
      ⟨lookup_of_binding? (binding?_bind_self halive), fun fact hmem => ?_⟩
    obtain ⟨-, -, hothers⟩ := h.wellFormed.layered.lookup_bind halive name value fact.frame
    rw [hothers fact.name (own fact hmem).2]
    exact h.found fact hmem

end Knows

end Heap

/-! ## Calls -/

section

variable {setup : Setup} {roots : Roots} {object : ObjectId} {literal : FunctionLiteral}
  {captured : FrameId} {arguments : List Value} {machine : Machine} {facts inner : List Fact}

/-- What is held while the body of a call is evaluated, is held when it begins. -/
theorem wellFormed_bodyStart (h : machine.heap.WellFormed
      ((roots.hold (.function object literal captured)).holdAll arguments)) :
    let start := bodyStart setup roots (.function object literal captured) literal captured
      arguments machine
    start.2.2.heap.WellFormed start.2.1 := by
  intro start
  have hmade : (machine.heap.allocate setup.due
      ((roots.hold (.function object literal captured)).holdAll arguments)
      (some captured)).2.WellFormed (start.2.1.holdAll arguments) := by
    refine (h.holdCaptured.allocate setup.due).of_within ⟨fun other hother => ?_, fun _ h => h⟩
    rcases List.mem_cons.mp hother with rfl | hother
    · exact List.mem_cons_self
    · exact List.mem_cons_of_mem _ (List.mem_cons_of_mem _ hother)
  exact hmade.bindAll start.1 literal.parameters

/-- The frame that a function was made in sees when the body begins what it saw before. -/
theorem lookup_captured_bodyStart (h : machine.heap.WellFormed
      ((roots.hold (.function object literal captured)).holdAll arguments)) (name : String) :
    let start := bodyStart setup roots (.function object literal captured) literal captured
      arguments machine
    start.2.2.heap.lookup captured name = machine.heap.lookup captured name := by
  intro start
  have hcaptured := h.holdCaptured
  have hreach : machine.heap.Reachable (((roots.hold (.function object literal captured)).holdAll
      arguments).holdFrame captured) captured := .held List.mem_cons_self
  obtain ⟨ids, hchain⟩ := hcaptured.layered.exists_chain
    (hcaptured.toSound.isAlive_of_reachable hreach)
  refine hchain.lookup_of_same h.layered (wellFormed_bodyStart h).layered (fun other hother => ?_)
    name
  have hother := hchain.reachable hreach other hother
  refine Eq.trans (Heap.frame?_bindAll_of_ne literal.parameters arguments ?_ _)
    (hcaptured.frame?_allocate setup.due hother)
  rintro rfl
  exact Nat.not_lt_of_le (size_le_allocate _ _ _ _)
    (Heap.lt_size_of_isAlive (hcaptured.toSound.isAlive_of_reachable hother))

/-- What is known when the body of a call begins. -/
theorem Heap.Knows.begin
    (h : machine.heap.Knows ((roots.hold (.function object literal captured)).holdAll arguments)
      facts) :
    let start := bodyStart setup roots (.function object literal captured) literal captured
      arguments machine
    (∀ fact ∈ inner, fact.Begins facts literal.parameters arguments captured start.1) →
      start.2.2.heap.Knows start.2.1 inner := by
  intro start hinner
  have hstart : start.2.2.heap.WellFormed start.2.1 := wellFormed_bodyStart h.wellFormed
  have hcall : start.1 ∈ start.2.1.frames := List.mem_cons_self
  have hlookup := lookup_callMachine setup literal h.wellFormed.holdCaptured
  refine ⟨hstart, fun fact hmem => ?_, fun fact hmem => ?_⟩
  · cases hinner fact hmem with
    | argument | inherited => exact .held hcall
    | captured =>
      have hcallee : Value.function object literal captured ∈ start.2.1.values :=
        List.mem_cons_self
      exact .captured hcallee ⟨_, .self _, rfl⟩
  · cases hinner fact hmem with
    | @argument name value hbound =>
      refine (hlookup name).trans ?_
      rw [hbound, Option.some_or]
    | @captured name value hknown =>
      exact (lookup_captured_bodyStart h.wellFormed name).trans (h.found _ hknown)
    | @inherited name value hfree hknown =>
      refine (hlookup name).trans ?_
      rw [hfree, Option.none_or]
      exact h.found _ hknown

end

end Scriptlet
