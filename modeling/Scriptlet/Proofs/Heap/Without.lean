import Scriptlet.Proofs.Heap.WellFormed

set_option autoImplicit false

/-!
# Heaps without some of their bindings

Component: the environments.  Specification: section 4.4, by which the native functions always win
when a name is looked up, so that a binding of one of their names is never seen, and section 3 on
how names are looked up.

`Heap.without dead` is a heap without the bindings that are counted as *dead*: of some names, in
some frames or in all.  It has the same frames, inside the same outer frames, and binds the other
names to the same values, so that it is well-formed, too (`Heap.WellFormed.without`), and names that
are dead nowhere are looked up alike (`Heap.lookup_without`).  What changes a heap changes the heap
without the dead bindings in the same way, except that binding a dead name does nothing at all.

Two things are told with this.  A binding to the name of a native function is dead in all frames,
and the program is the same without it.  And a binding that is going to be written over is dead in
one frame: what only it leads to may be dropped when that happens.
-/

namespace Scriptlet

/-! ## Bindings and frames -/

/-- The bindings of names that are not dead. -/
def Bindings.without (dead : String → Bool) (bindings : Bindings) : Bindings :=
  bindings.filter fun binding => !dead binding.1

/-- The frame with only the bindings of names that are not dead. -/
def Frame.without (dead : String → Bool) (frame : Frame) : Frame :=
  { frame with bindings := frame.bindings.without dead }

namespace Bindings

variable {dead : String → Bool} {name : String} {bindings : Bindings}

/-- What is left was bound. -/
theorem mem_of_mem_without {binding : String × Value} (h : binding ∈ bindings.without dead) :
    binding ∈ bindings :=
  List.mem_of_mem_filter h

/-- Names that are not dead are looked up alike. -/
theorem lookup_without (h : dead name = false) (bindings : Bindings) :
    (bindings.without dead).lookup name = bindings.lookup name := by
  induction bindings with
  | nil => rfl
  | cons binding rest ih =>
    obtain ⟨other, value⟩ := binding
    rw [without] at ih ⊢
    by_cases hdead : dead other = true
    · have hne : name ≠ other := by
        rintro rfl
        exact Bool.false_ne_true (h.symm.trans hdead)
      rw [List.filter_cons_of_neg (by simp [hdead]), List.lookup_cons, beq_eq_false_iff_ne.mpr hne]
      exact ih
    · rw [List.filter_cons_of_pos (by simp [hdead]), List.lookup_cons, List.lookup_cons, ih]

/-- No name is bound twice then. -/
theorem nodup_without (h : (bindings.map Prod.fst).Nodup) :
    ((bindings.without dead).map Prod.fst).Nodup :=
  h.sublist (List.filter_sublist.map Prod.fst)

/-- Binding a dead name does nothing to the others. -/
theorem without_bind_of_dead (h : dead name = true) (value : Value) (bindings : Bindings) :
    (bind name value bindings).without dead = bindings.without dead := by
  induction bindings with
  | nil => simp [bind, without, h]
  | cons binding rest ih =>
    obtain ⟨other, old⟩ := binding
    rw [bind]
    split
    next same =>
      subst same
      simp [without, h]
    · rw [without, without, List.filter_cons, List.filter_cons]
      rw [without, without] at ih
      rw [ih]

/-- Any other binding is made among those that are left. -/
theorem without_bind (h : dead name = false) (value : Value) (bindings : Bindings) :
    (bind name value bindings).without dead = bind name value (bindings.without dead) := by
  induction bindings with
  | nil => simp [bind, without, h]
  | cons binding rest ih =>
    obtain ⟨other, old⟩ := binding
    rw [without, without] at ih
    rw [bind]
    split
    next same =>
      subst same
      simp [without, bind, h]
    next different =>
      by_cases hdead : dead other = true
      · simp [without, hdead, ih]
      · simp [without, bind, hdead, different, ih]

end Bindings

namespace Heap

/-- The heap with only the bindings that are not dead. -/
def without (dead : FrameId → String → Bool) (heap : Heap) : Heap :=
  { heap with
    frames := heap.frames.mapIdx fun index frame => frame.map (Frame.without (dead ⟨index⟩)) }

variable {dead : FrameId → String → Bool} {heap : Heap} {roots : Roots}

/-- A frame without its dead bindings. -/
theorem frame?_without (dead : FrameId → String → Bool) (heap : Heap) (id : FrameId) :
    (heap.without dead).frame? id = (heap.frame? id).map (Frame.without (dead id)) := by
  rw [frame?, frame?, without, Array.getElem?_mapIdx]
  cases heap.frames[id.index]? with
  | none => rfl
  | some slot => cases slot <;> rfl

/-- No frame is missing. -/
theorem size_frames_without (dead : FrameId → String → Bool) (heap : Heap) :
    (heap.without dead).frames.size = heap.frames.size :=
  Array.size_mapIdx

/-- The same frames are alive. -/
theorem isAlive_without (dead : FrameId → String → Bool) (heap : Heap) (id : FrameId) :
    (heap.without dead).isAlive id = heap.isAlive id := by
  rw [isAlive, frame?_without, Option.isSome_map, isAlive]

/-- Nothing is missing where nothing is dead. -/
theorem without_eq_self {dead : FrameId → String → Bool} (h : ∀ id name, dead id name = false)
    (heap : Heap) : heap.without dead = heap := by
  have hframe : ∀ id, Frame.without (dead id) = fun frame => frame := by
    intro id
    funext frame
    simp [Frame.without, Bindings.without, h]
  have hframes : (heap.without dead).frames = heap.frames := by
    refine Array.ext_getElem? fun index => ?_
    simp [without, Array.getElem?_mapIdx, hframe]
  exact congrArg (fun frames => { heap with frames := frames }) hframes

/-- What a frame is without dead bindings, it was with them. -/
theorem exists_of_frame?_without {id : FrameId} {frame : Frame}
    (here : (heap.without dead).frame? id = some frame) :
    ∃ old, heap.frame? id = some old ∧ frame = old.without (dead id) := by
  rw [frame?_without, Option.map_eq_some_iff] at here
  obtain ⟨old, hold, rfl⟩ := here
  exact ⟨old, hold, rfl⟩

/-- What is carried then was carried. -/
theorem Carries.of_without {value : Value} (h : (heap.without dead).Carries roots value) :
    heap.Carries roots value := by
  cases h with
  | held hmem => exact .held hmem
  | bound here hmem =>
    obtain ⟨old, hold, rfl⟩ := exists_of_frame?_without here
    exact .bound hold (Bindings.mem_of_mem_without hmem)

/-- What is reached then was reached. -/
theorem Reachable.of_without {id : FrameId} (h : (heap.without dead).Reachable roots id) :
    heap.Reachable roots id := by
  induction h with
  | held hmem => exact .held hmem
  | captured hmem leads => exact .captured hmem leads
  | outer inner here houter ih =>
    obtain ⟨old, hold, rfl⟩ := exists_of_frame?_without here
    exact .outer ih hold houter
  | bound inner here hmem leads ih =>
    obtain ⟨old, hold, rfl⟩ := exists_of_frame?_without here
    exact .bound ih hold (Bindings.mem_of_mem_without hmem) leads

/-- A heap stays well-formed without its dead bindings. -/
theorem WellFormed.without (h : heap.WellFormed roots) (dead : FrameId → String → Bool) :
    (heap.without dead).WellFormed roots where
  registered := fun id halive => h.registered id (isAlive_without dead heap id ▸ halive)
  once := h.once
  held_alive := fun id hid => (isAlive_without dead heap id).trans (h.held_alive id hid)
  outer_alive := fun id frame outer here houter => by
    obtain ⟨old, hold, rfl⟩ := exists_of_frame?_without here
    exact (isAlive_without dead heap outer).trans (h.outer_alive id old outer hold houter)
  leads_alive := fun value id hcarries leads =>
    (isAlive_without dead heap id).trans (h.leads_alive value id hcarries.of_without leads)
  coherent := fun left right hleft hright =>
    h.coherent left right hleft.of_without hright.of_without
  bounded := fun id hid => by
    rw [size_frames_without]
    exact h.bounded id hid
  older := fun id frame outer here houter => by
    obtain ⟨old, hold, rfl⟩ := exists_of_frame?_without here
    exact h.older id old outer hold houter
  distinct := fun id frame here => by
    obtain ⟨old, hold, rfl⟩ := exists_of_frame?_without here
    exact Bindings.nodup_without (h.distinct id old hold)
  issued := fun value part object hcarries => h.issued value part object hcarries.of_without

/-! ## Looking up and changing -/

/-- A name that is dead nowhere is looked up alike, however far the search may go. -/
theorem lookupWithin_without {name : String} (h : ∀ id, dead id name = false) (heap : Heap)
    (steps : Nat) (id : FrameId) :
    (heap.without dead).lookupWithin name steps id = heap.lookupWithin name steps id := by
  induction steps generalizing id with
  | zero => rfl
  | succ steps ih =>
    simp only [lookupWithin, frame?_without]
    cases heap.frame? id with
    | none => rfl
    | some frame =>
      simp only [Option.map_some, Frame.without, Bindings.lookup_without (h id), ih]

/-- A name that is dead nowhere is looked up alike. -/
theorem lookup_without {name : String} (h : ∀ id, dead id name = false) (heap : Heap)
    (id : FrameId) : (heap.without dead).lookup id name = heap.lookup id name := by
  rw [lookup, lookup, size_frames_without, lookupWithin_without h]

/-- A new frame has no bindings to lose. -/
theorem newFrame_without (dead : FrameId → String → Bool) (outer : Option FrameId) (heap : Heap) :
    (heap.without dead).newFrame outer =
      ((heap.newFrame outer).1, (heap.newFrame outer).2.without dead) := by
  simp only [newFrame, size_frames_without]
  simp [without, Array.mapIdx_push, Frame.without, Bindings.without]

/-- What binding a name in a frame is to the heap without dead bindings. -/
theorem frames_without_bind (dead : FrameId → String → Bool) (id : FrameId) (name : String)
    (value : Value) (heap : Heap) (index : Nat) :
    ((heap.bind id name value).without dead).frames[index]? =
      if id.index = index then
        heap.frames[index]?.map fun slot => slot.map fun frame =>
          { frame with bindings := (frame.bindings.bind name value).without (dead id) }
      else (heap.without dead).frames[index]? := by
  simp only [without, bind, Array.getElem?_mapIdx, Array.getElem?_modify]
  split
  next same =>
    subst same
    simp only [Option.map_map, Function.comp_def, Frame.without]
  · rfl

/-- Binding a dead name does nothing. -/
theorem without_bind_of_dead {id : FrameId} {name : String} (h : dead id name = true)
    (value : Value) (heap : Heap) : (heap.bind id name value).without dead = heap.without dead := by
  have hframes : ((heap.bind id name value).without dead).frames = (heap.without dead).frames := by
    refine Array.ext_getElem? fun index => ?_
    rw [frames_without_bind]
    split
    next same =>
      subst same
      simp only [Bindings.without_bind_of_dead h, without, Array.getElem?_mapIdx]
      rfl
    · rfl
  exact congrArg (fun frames => { heap with frames := frames }) hframes

/-- Any other binding is made in the heap that is left. -/
theorem without_bind {id : FrameId} {name : String} (h : dead id name = false)
    (value : Value) (heap : Heap) :
    (heap.bind id name value).without dead = (heap.without dead).bind id name value := by
  have hframes : ((heap.bind id name value).without dead).frames =
      ((heap.without dead).bind id name value).frames := by
    refine Array.ext_getElem? fun index => ?_
    rw [frames_without_bind]
    simp only [Bindings.without_bind h, bind, Array.getElem?_modify]
    split
    next same =>
      subst same
      simp only [without, Array.getElem?_mapIdx, Option.map_map, Function.comp_def, Frame.without]
    · rfl
  exact congrArg (fun frames => { heap with frames := frames }) hframes

end Heap

end Scriptlet
