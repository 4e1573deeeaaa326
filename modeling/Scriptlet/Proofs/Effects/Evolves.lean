import Scriptlet.Proofs.Effects.Confined
import Scriptlet.Proofs.Heap.History

set_option autoImplicit false

/-!
# Steps of an evaluation as histories

Component: the evaluator, the environments and the registry of frames.  Specification: section 3 on
environments that are shared by functions and never copied, and section 5, by which they are the
only mutable resource that is shared.

All that happens to the heap in a step of an evaluation is a history, from what is held when it
begins to what is held when it has ended (`Eval.Evolves`).  The rules here put such steps together;
that everything that can be evaluated is put together so is shown elsewhere.

The setup says when a collection is due.  A frame is made where none is due, or right after a
collection; a setup *heeds* a condition that holds in both cases.

The condition that is heeded is left open.  For what always holds it is `True`; that the registry
stays bounded needs that a frame is made only where fewer are registered than the threshold says, or
after a collection.

An evaluation that ends with an error has values at hand, too: what a `return` carries.  So a rule
tells what is held at the end of any ending (`Eval.heldAfter`), and `Evolves.of_ok` gets back the
case of a result.
-/

namespace Scriptlet

/-- Whether there is a history from one holding to another. -/
def Holding.Evolves (ready : Heap → Prop) (before after : Holding) : Prop :=
  ∃ events, History ready events before after

/-- Whether frames are made only where a condition holds. -/
structure Setup.Heeds (setup : Setup) (ready : Heap → Prop) : Prop where
  undue : ∀ heap, setup.due heap = false → ready heap
  collected : ∀ heap roots, ready (Heap.collect roots heap).2

/-- Every setup heeds what always holds. -/
theorem Setup.heeds_true (setup : Setup) : setup.Heeds fun _ => True :=
  ⟨fun _ _ => trivial, fun _ _ => trivial⟩

variable {ready : Heap → Prop}

namespace Holding.Evolves

variable {before middle after : Holding} {heap : Heap} {roots others : Roots}

/-- Where nothing happens there is the empty history. -/
theorem refl (holding : Holding) : holding.Evolves ready holding := ⟨[], .nil holding⟩

/-- Histories are put together. -/
theorem trans (h : before.Evolves ready middle) (h' : middle.Evolves ready after) :
    before.Evolves ready after := by
  obtain ⟨events, hfirst⟩ := h
  obtain ⟨others, hrest⟩ := h'
  exact ⟨events ++ others, hfirst.append hrest⟩

/-- Each move is a history. -/
theorem move {event : Event} (h : Holding.Move ready event before after) :
    before.Evolves ready after :=
  ⟨[event], .cons h (.nil after)⟩

/-- A history keeps heaps well-formed. -/
theorem wellFormed (h : before.Evolves ready after) (hbefore : before.WellFormed) :
    after.WellFormed := by
  obtain ⟨events, history⟩ := h
  exact history.wellFormed hbefore

/-- What is held may be let go. -/
theorem keep (within : roots.Within others) :
    Evolves ready ⟨heap, others⟩ ⟨heap, roots⟩ := .move (.keep within)

/-- Some values may be taken. -/
theorem takeAll {values : List Value} (offers : ∀ value ∈ values, heap.Offers roots value) :
    Evolves ready ⟨heap, roots⟩ ⟨heap, roots.holdAll values⟩ := by
  induction values with
  | nil => exact .refl _
  | cons value values ih =>
    obtain ⟨hvalue, hvalues⟩ := List.forall_mem_cons.mp offers
    have hoffers : heap.Offers (roots.holdAll values) value := by
      intro part object hpart hobject
      obtain ⟨whole, hwhole, hinside⟩ := hvalue part object hpart hobject
      refine ⟨whole, ?_, hinside⟩
      cases hwhole with
      | held hmem => exact .held (List.mem_append_right _ hmem)
      | bound here hmem => exact .bound here hmem
    exact (ih hvalues).trans (.move (.take hoffers))

/-- Values that are held may be bound. -/
theorem bindAll {id : FrameId} (names : List Name) {values : List Value}
    (held : id ∈ roots.frames) (inHand : ∀ value ∈ values, value ∈ roots.values) :
    Evolves ready ⟨heap, roots⟩ ⟨heap.bindAll id names values, roots⟩ := by
  induction names generalizing heap values with
  | nil =>
    simp only [Heap.bindAll]
    exact .refl _
  | cons name names ih =>
    cases values with
    | nil => exact .refl _
    | cons value values =>
      obtain ⟨hvalue, hvalues⟩ := List.forall_mem_cons.mp inHand
      exact (move (.bind name.text held hvalue)).trans (ih hvalues)

/-- A frame may be made inside one that is held, after a collection if the setup asks for one. -/
theorem allocate {setup : Setup} (heeds : setup.Heeds ready) (outer : Option FrameId)
    (held : ∀ id, outer = some id → id ∈ roots.frames)
    (same : outer.elim others others.holdFrame = roots) :
    Evolves ready ⟨heap, roots⟩ ⟨(heap.allocate setup.due others outer).2,
      roots.holdFrame (heap.allocate setup.due others outer).1⟩ := by
  subst same
  simp only [Heap.allocate]
  cases hdue : setup.due heap with
  | false => exact .move (.frame outer (heeds.undue heap hdue) held)
  | true =>
    let roots := outer.elim others others.holdFrame
    have hcollect : Holding.Move ready .collected ⟨heap, roots⟩ ⟨(heap.collect roots).2, roots⟩ :=
      .collect
    exact (move hcollect).trans (.move (.frame outer (heeds.collected _ _) held))

end Holding.Evolves

/-- More may be held on both sides. -/
theorem Roots.Within.holdAll {roots others : Roots} (within : roots.Within others)
    (values : List Value) : (roots.holdAll values).Within (others.holdAll values) := by
  refine ⟨within.frames, fun value hvalue => ?_⟩
  rcases List.mem_append.mp hvalue with hvalue | hvalue
  · exact List.mem_append_left _ hvalue
  · exact List.mem_append_right _ (within.values value hvalue)

/-- What is held twice is held. -/
theorem Roots.Within.of_holdAll {roots others : Roots} {values : List Value}
    (within : roots.Within others) (inHand : ∀ value ∈ values, value ∈ others.values) :
    (roots.holdAll values).Within others := by
  refine ⟨within.frames, fun value hvalue => ?_⟩
  rcases List.mem_append.mp hvalue with hvalue | hvalue
  · exact inHand value hvalue
  · exact within.values value hvalue

/-! ## Steps of an evaluation -/

namespace Eval

variable {α β : Type} {values : α → List Value} {others' : β → List Value}
  {start roots others : Roots} {machine : Machine}

/-- Whether what an evaluation does to the heap is a history, from what is held at its start to what
is held from then on and what it ends with. -/
def Evolves (ready : Heap → Prop) (values : α → List Value) (start roots : Roots) (run : Eval α)
    (machine : Machine) : Prop :=
  Holding.Evolves ready ⟨machine.heap, start⟩
    ⟨(run.after machine).heap, run.heldAfter values roots machine⟩

namespace Evolves

/-- What an evaluation ends with, if it has a result, is held then. -/
theorem of_ok {run : Eval α} (h : run.Evolves ready values start roots machine) {result : α}
    {middle : Machine} (hresult : run machine = .ok result middle) :
    Holding.Evolves ready ⟨machine.heap, start⟩ ⟨middle.heap, roots.holdAll (values result)⟩ := by
  unfold Evolves at h
  rwa [after_of_ok hresult, heldAfter, ends, hresult] at h

/-- So it is well-formed for what is held then. -/
theorem wellFormed_of_ok {run : Eval α} (h : run.Evolves ready values start roots machine)
    (hstart : machine.heap.WellFormed start) {result : α} {middle : Machine}
    (hresult : run machine = .ok result middle) :
    middle.heap.WellFormed (roots.holdAll (values result)) :=
  (h.of_ok hresult).wellFormed hstart

/-- Less may be held from the end on. -/
theorem mono {run : Eval α} (h : run.Evolves ready values start roots machine)
    (within : others.Within roots) : run.Evolves ready values start others machine :=
  h.trans (.keep (within.holdAll _))

/-- What a step ends with is held in the next one. -/
theorem bind {run : Eval α} {next : α → Eval β} (hstart : machine.heap.WellFormed start)
    (hrun : run.Evolves ready values start roots machine) (within : others.Within roots)
    (hnext : ∀ result middle, run machine = .ok result middle →
      middle.heap.WellFormed (roots.holdAll (values result)) →
      (next result).Evolves ready others' (roots.holdAll (values result)) others middle) :
    (run >>= next).Evolves ready others' start others machine := by
  have hafter := hrun
  unfold Evolves heldAfter ends at hafter ⊢
  cases hresult : run machine with
  | ok result middle =>
    rw [after_of_ok hresult, hresult] at hafter
    rw [after, bind_of_ok hresult]
    exact hafter.trans (hnext result middle hresult (hrun.wellFormed_of_ok hstart hresult))
  | error halt middle =>
    rw [after_of_error hresult, hresult] at hafter
    rw [after_of_error (bind_of_error hresult), bind_of_error hresult]
    have hless := hafter.trans (.keep (within.holdAll _))
    cases halt <;> exact hless

/-- An evaluation may end with values that are there. -/
theorem pure {result : α} (within : roots.Within start)
    (offers : ∀ value ∈ values result, machine.heap.Offers start value) :
    (pure result : Eval α).Evolves ready values start roots machine :=
  (Holding.Evolves.takeAll offers).trans (.keep (within.holdAll _))

/-- An evaluation may end with a value that is there. -/
theorem value {result : Value} (within : roots.Within start)
    (offers : machine.heap.Offers start result) :
    (Pure.pure result : Eval Value).Evolves ready (fun value => [value]) start roots machine :=
  .pure within fun _ hvalue => List.mem_singleton.mp hvalue ▸ offers

/-- An evaluation may end with values that are held. -/
theorem pure_held {result : α} (within : (roots.holdAll (values result)).Within start) :
    (Pure.pure result : Eval α).Evolves ready values start roots machine :=
  .keep within

/-- A fault ends an evaluation with nothing at hand. -/
theorem fail (fault : Fault) (within : roots.Within start) :
    (Eval.fail fault : Eval α).Evolves ready values start roots machine :=
  .keep within

/-- What is a value already must be there. -/
theorem ofExcept {result : Except Fault α} (within : roots.Within start)
    (offers : ∀ value, result = .ok value →
      ∀ other ∈ values value, machine.heap.Offers start other) :
    (Eval.ofExcept result).Evolves ready values start roots machine := by
  cases result with
  | ok value => exact .pure within (offers value rfl)
  | error fault => exact .fail fault within

/-- The console is no part of the heap. -/
theorem onConsole {change : Console → α × Console} (within : roots.Within start) :
    (Eval.onConsole change).Evolves ready (fun _ => []) start roots machine :=
  .keep within

/-- An evaluation may make an object of what is held. -/
theorem object (make : ObjectId → Value) (within : roots.Within start)
    (new : machine.heap.Makes start (make ⟨machine.heap.nextObject⟩)) :
    (do return make (← Eval.onHeap Heap.newObject) : Eval Value).Evolves ready
      (fun value => [value]) start roots machine :=
  (Holding.Evolves.move (.object new)).trans (.keep (within.holdAll _))

/-- An array may be made of values that are held. -/
theorem newArray {elements : List Value} (within : roots.Within start)
    (inHand : ∀ element ∈ elements, element ∈ start.values) :
    (Eval.newArray elements).Evolves ready (fun value => [value]) start roots machine :=
  object (.array · elements) within {
    object := rfl
    contents := inHand
    captured := fun _ hid => by cases hid }

/-- A hash may be made of entries that are held. -/
theorem newHash {entries : List Entry} (within : roots.Within start)
    (inHand : ∀ part ∈ Entry.parts entries, part ∈ start.values) :
    (Eval.newHash entries).Evolves ready (fun value => [value]) start roots machine :=
  object (.hash · entries) within {
    object := rfl
    contents := inHand
    captured := fun _ hid => by cases hid }

/-- A function may be made in a frame that is held. -/
theorem newFunction (literal : FunctionLiteral) {frame : FrameId} (within : roots.Within start)
    (held : frame ∈ start.frames) :
    (Eval.newFunction literal frame).Evolves ready (fun value => [value]) start roots machine :=
  object (.function · literal frame) within {
    object := rfl
    contents := fun _ hmem => absurd hmem List.not_mem_nil
    captured := fun _ hid => by cases hid; exact held }

/-- To look at the machine is no move. -/
theorem get {next : Machine → Eval α}
    (h : (next machine).Evolves ready values start roots machine) :
    (MonadState.get >>= next : Eval α).Evolves ready values start roots machine := h

/-- What a machine notes besides its heap does not matter. -/
theorem modify {change : Machine → Machine} {next : Eval α}
    (same : (change machine).heap = machine.heap)
    (h : next.Evolves ready values start roots (change machine)) :
    (do modify change; next : Eval α).Evolves ready values start roots machine := by
  unfold Evolves at h
  rw [same] at h
  exact h

/-- Moves may come before an evaluation. -/
theorem of_start {run : Eval α} {middle : Roots} (h : Holding.Evolves ready ⟨machine.heap, start⟩
    ⟨machine.heap, middle⟩) (hrun : run.Evolves ready values middle roots machine) :
    run.Evolves ready values start roots machine :=
  h.trans hrun

/-- Whatever is decided, one of the two happens. -/
theorem ite {condition : Prop} [Decidable condition] {first second : Eval α}
    (h : first.Evolves ready values start roots machine)
    (h' : second.Evolves ready values start roots machine) :
    (if condition then first else second).Evolves ready values start roots machine := by
  split
  · exact h
  · exact h'

end Evolves

end Eval

/-- What is held is offered. -/
theorem Heap.Offers.of_mem {heap : Heap} {roots : Roots} {value : Value}
    (held : value ∈ roots.values) : heap.Offers roots value :=
  .of_carries (.held held)

/-- So is what is no object, such as a number. -/
theorem Heap.Offers.of_object?_none {heap : Heap} {roots : Roots} {value : Value}
    (h : value.object? = none) : heap.Offers roots value :=
  .of_madeOf (.of_object?_none h)

/-- What is found in a held value is offered. -/
theorem Heap.Offers.of_part {heap : Heap} {roots : Roots} {whole value : Value}
    (held : whole ∈ roots.values) (inside : whole.Part value ∨ value = .null) :
    heap.Offers roots value := by
  rcases inside with inside | rfl
  · exact .of_madeOf (.of_part held inside)
  · exact .of_object?_none rfl

end Scriptlet
