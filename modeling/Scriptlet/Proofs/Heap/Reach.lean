import Scriptlet.Proofs.Heap.Snapshot

set_option autoImplicit false

/-!
# What the outside reaches

Component: the environments, and the objects that hold them.  Specification: section 3 on the
optional outer environment and on functions that share the environment of their definition, and
section 9 on shared ownership.

`Heap.Reachable` says which frames can be reached from outside: those that are held, those that
held values lead to, and from any of them the outer frame and the frames that its bindings lead
to.  It mentions neither counts nor graphs.

`Heap.Sound` collects what holds of every heap in which handles are never forged: what is referred
to is alive, live frames are registered once, and an identity stands for one object.  In a sound
heap the graph `Heap.world` is exact, and following its handles from the roots finds exactly the
reachable frames (`Heap.Sound.linked_iff_reachable`).

What the outside holds are frames and values: those that a host has, and those that an evaluation
has at hand.  It is not computed from the heap but given (`Roots`), and all theorems are about any
of it.
-/

namespace Scriptlet

/-- Whether some roots hold nothing that others do not hold. -/
structure Roots.Within (roots others : Roots) : Prop where
  frames : ∀ id ∈ roots.frames, id ∈ others.frames
  values : ∀ value ∈ roots.values, value ∈ others.values

namespace Heap

/-! ## Reachability -/

/-- Whether the outside can reach a frame. -/
inductive Reachable (heap : Heap) (roots : Roots) : FrameId → Prop where
  | held {id : FrameId} (h : id ∈ roots.frames) : Reachable heap roots id
  | captured {value : Value} {id : FrameId} (h : value ∈ roots.values) (leads : value.Leads id) :
      Reachable heap roots id
  | outer {id other : FrameId} {frame : Frame} (inner : Reachable heap roots id)
      (here : heap.frame? id = some frame) (h : frame.outer = some other) :
      Reachable heap roots other
  | bound {id other : FrameId} {frame : Frame} {binding : String × Value}
      (inner : Reachable heap roots id) (here : heap.frame? id = some frame)
      (h : binding ∈ frame.bindings) (leads : binding.2.Leads other) : Reachable heap roots other

/-- More roots reach more, also in another heap that has the frames reached. -/
theorem Reachable.mono {heap next : Heap} {roots others : Roots} (within : roots.Within others)
    (same : ∀ id, heap.Reachable roots id → next.frame? id = heap.frame? id) {id : FrameId}
    (h : heap.Reachable roots id) : next.Reachable others id := by
  induction h with
  | held h => exact .held (within.frames _ h)
  | captured h leads => exact .captured (within.values _ h) leads
  | outer inner here h ih => exact .outer ih ((same _ inner).trans here) h
  | bound inner here h leads ih => exact .bound ih ((same _ inner).trans here) h leads

/-- Whether a value is held from outside or bound in a frame. -/
inductive Carries (heap : Heap) (roots : Roots) : Value → Prop where
  | held {value : Value} (h : value ∈ roots.values) : Carries heap roots value
  | bound {id : FrameId} {frame : Frame} {binding : String × Value}
      (here : heap.frame? id = some frame) (h : binding ∈ frame.bindings) :
      Carries heap roots binding.2

/-! ## Soundness -/

/-- What holds of a heap, and of what is held of it, as long as handles are never forged. -/
structure Sound (heap : Heap) (roots : Roots) : Prop where
  registered : ∀ id, heap.isAlive id = true → id ∈ heap.registry.toList
  once : heap.registry.toList.Nodup
  held_alive : ∀ id ∈ roots.frames, heap.isAlive id = true
  outer_alive : ∀ id frame outer, heap.frame? id = some frame → frame.outer = some outer →
    heap.isAlive outer = true
  leads_alive : ∀ value id, heap.Carries roots value → value.Leads id → heap.isAlive id = true
  coherent : ∀ left right, heap.Carries roots left → heap.Carries roots right →
    ∀ part other object, left.Part part → right.Part other →
      part.object? = some object → other.object? = some object → part = other

/-- What is alive can be looked at. -/
theorem isAlive_iff {heap : Heap} {id : FrameId} :
    heap.isAlive id = true ↔ ∃ frame, heap.frame? id = some frame := by
  simp [isAlive, Option.isSome_iff_exists]

/-- What is reached is alive. -/
theorem Sound.isAlive_of_reachable {heap : Heap} {roots : Roots} (sound : heap.Sound roots)
    {id : FrameId} (h : heap.Reachable roots id) : heap.isAlive id = true := by
  cases h with
  | held h => exact sound.held_alive _ h
  | captured h leads => exact sound.leads_alive _ _ (.held h) leads
  | outer _ here h => exact sound.outer_alive _ _ _ here h
  | bound _ here h leads => exact sound.leads_alive _ _ (.bound here h) leads

/-- Holding less keeps a heap sound. -/
theorem Sound.of_within {heap : Heap} {roots others : Roots} (sound : heap.Sound others)
    (within : roots.Within others) : heap.Sound roots := by
  have hcarries : ∀ value, heap.Carries roots value → heap.Carries others value := by
    intro value h
    cases h with
    | held h => exact .held (within.values _ h)
    | bound here h => exact .bound here h
  exact {
    registered := sound.registered
    once := sound.once
    held_alive := fun id h => sound.held_alive id (within.frames id h)
    outer_alive := sound.outer_alive
    leads_alive := fun value id h => sound.leads_alive value id (hcarries value h)
    coherent := fun left right hleft hright =>
      sound.coherent left right (hcarries left hleft) (hcarries right hright) }

/-! ## Live frames -/

/-- A live frame is registered and alive. -/
theorem mem_liveFrames {heap : Heap} {id : FrameId} {frame : Frame} :
    (id, frame) ∈ heap.liveFrames ↔ id ∈ heap.registry.toList ∧ heap.frame? id = some frame := by
  simp only [liveFrames, List.mem_filterMap, Option.map_eq_some_iff, Prod.mk.injEq]
  constructor
  · rintro ⟨other, hmem, found, hfound, rfl, rfl⟩
    exact ⟨hmem, hfound⟩
  · rintro ⟨hmem, hfound⟩
    exact ⟨id, hmem, frame, hfound, rfl, rfl⟩

/-- The live frames are the registered ones that are alive. -/
theorem map_fst_liveFrames (heap : Heap) :
    heap.liveFrames.map Prod.fst = heap.registry.toList.filter heap.isAlive := by
  rw [liveFrames]
  induction heap.registry.toList with
  | nil => rfl
  | cons id rest ih =>
    rw [List.filterMap_cons, List.filter_cons, ← ih]
    cases hframe : heap.frame? id <;> simp [isAlive, hframe]

/-- In a sound heap everything alive is registered. -/
theorem Sound.mem_liveFrames_iff {heap : Heap} {roots : Roots} (sound : heap.Sound roots)
    {id : FrameId} {frame : Frame} :
    (id, frame) ∈ heap.liveFrames ↔ heap.frame? id = some frame := by
  rw [mem_liveFrames]
  exact ⟨fun h => h.2, fun h => ⟨sound.registered id (isAlive_iff.mpr ⟨frame, h⟩), h⟩⟩

/-- No live frame is listed twice. -/
theorem Sound.nodup_liveFrames {heap : Heap} {roots : Roots} (sound : heap.Sound roots) :
    (heap.liveFrames.map Prod.fst).Nodup := by
  rw [map_fst_liveFrames]
  exact sound.once.filter _

/-! ## The graph of a sound heap -/

section World

variable {heap : Heap} {roots : Roots}

/-- The graph of a sound heap is one of its live frames. -/
theorem Sound.charts (sound : heap.Sound roots) : Graph.Charts heap.liveFrames heap.graph :=
  Graph.charts_ofFrames sound.nodup_liveFrames

/-- The world adds to this graph what the outside holds. -/
theorem Sound.grows (sound : heap.Sound roots) :
    Graph.Grows roots.values heap.graph (heap.world roots) :=
  Graph.grows_visitAll _ sound.charts.keyed

/-- In the world, too, no handle has two nodes. -/
theorem Sound.keyed_world (sound : heap.Sound roots) : (heap.world roots).Keyed :=
  sound.grows.keyed

/-- Every live frame has a node. -/
theorem Sound.frame_mem_world (sound : heap.Sound roots) {id : FrameId} {frame : Frame}
    (h : heap.frame? id = some frame) : (.frame id, frame.handles) ∈ (heap.world roots).nodes :=
  sound.grows.suffix.subset (sound.charts.frame_mem (id, frame) (sound.mem_liveFrames_iff.mpr h))

/-- Whether a node belongs to a live frame, or to an object part of a carried value. -/
inductive Describes (heap : Heap) (roots : Roots) : Handle × List Handle → Prop where
  | frame {id : FrameId} {frame : Frame} (h : heap.frame? id = some frame) :
      Describes heap roots (.frame id, frame.handles)
  | object {value part : Value} {object : ObjectId} (carried : heap.Carries roots value)
      (inside : value.Part part) (h : part.object? = some object) :
      Describes heap roots (.object object, part.stored)

/-- There is no other node in the world. -/
theorem Sound.describes_of_mem_world (sound : heap.Sound roots) {node : Handle × List Handle}
    (h : node ∈ (heap.world roots).nodes) : heap.Describes roots node := by
  rcases sound.grows.drawn node h with h | ⟨value, hvalue, part, object, hpart, hobject, rfl⟩
  · rcases sound.charts.drawn node h with
      ⟨entry, hentry, rfl⟩ | ⟨value, hvalue, part, object, hpart, hobject, rfl⟩
    · exact .frame (mem_liveFrames.mp hentry).2
    · obtain ⟨entry, hentry, hvalue⟩ := List.mem_flatMap.mp hvalue
      obtain ⟨binding, hbinding, rfl⟩ := List.mem_map.mp hvalue
      exact .object (.bound (mem_liveFrames.mp hentry).2 hbinding) hpart hobject
  · exact .object (.held hvalue) hpart hobject

/-- Objects that a node refers to have nodes. -/
theorem Sound.object_mem_keys (sound : heap.Sound roots) {node : Handle × List Handle}
    (h : node ∈ (heap.world roots).nodes) {object : ObjectId} (hobject : .object object ∈ node.2) :
    .object object ∈ (heap.world roots).keys := by
  rcases sound.grows.closed node h with hgraph | hclosed
  · exact sound.grows.keys_subset (sound.charts.closed node hgraph object hobject)
  · exact hclosed object hobject

/-- Every object that is carried has a node. -/
theorem Sound.carried_mem_keys (sound : heap.Sound roots) {value : Value}
    (h : heap.Carries roots value) {object : ObjectId} (hobject : value.object? = some object) :
    .object object ∈ (heap.world roots).keys := by
  cases h with
  | held h => exact sound.grows.met value h object hobject
  | @bound id frame binding here h =>
    refine sound.object_mem_keys (sound.frame_mem_world here) ?_
    exact Frame.mem_handles.mpr (.inr ⟨binding, h, object, hobject, rfl⟩)

/-- The node of an object part of a carried value holds what that part stores: no other object
has its identity. -/
theorem Sound.object_mem_of_key (sound : heap.Sound roots) {value part : Value}
    (carried : heap.Carries roots value) (inside : value.Part part) {object : ObjectId}
    (hobject : part.object? = some object) (hkey : .object object ∈ (heap.world roots).keys) :
    (.object object, part.stored) ∈ (heap.world roots).nodes := by
  obtain ⟨handles, hnode⟩ := Graph.mem_keys.mp hkey
  cases sound.describes_of_mem_world hnode with
  | object carried' inside' hobject' =>
    rwa [sound.coherent _ _ carried carried' _ _ _ inside inside' hobject hobject']

/-- Every object part of a carried value has a node. -/
theorem Sound.object_mem_world (sound : heap.Sound roots) {value part : Value}
    (carried : heap.Carries roots value) (inside : value.Part part) {object : ObjectId}
    (hobject : part.object? = some object) :
    (.object object, part.stored) ∈ (heap.world roots).nodes := by
  have hkey : .object object ∈ (heap.world roots).keys := by
    refine inside.object_induction (motive := fun object => .object object ∈ (heap.world roots).keys)
      (fun object hobject => sound.carried_mem_keys carried hobject) ?_ hobject
    intro whole id content object hwhole hid hkey hmember hobject
    exact sound.object_mem_keys (sound.object_mem_of_key carried hwhole hid hkey)
      (Value.object_mem_stored.mpr ⟨content, hmember, hobject⟩)
  exact sound.object_mem_of_key carried inside hobject hkey

/-- All that a node refers to has a node. -/
theorem Sound.mem_keys_of_mem (sound : heap.Sound roots) {node : Handle × List Handle}
    (h : node ∈ (heap.world roots).nodes) {handle : Handle} (hhandle : handle ∈ node.2) :
    handle ∈ (heap.world roots).keys := by
  cases handle with
  | object object => exact sound.object_mem_keys h hhandle
  | frame id =>
    have halive : heap.isAlive id = true := by
      cases sound.describes_of_mem_world h with
      | frame here =>
        rcases Frame.mem_handles.mp hhandle with ⟨outer, houter, heq⟩ | ⟨_, _, _, _, heq⟩
        · cases heq
          exact sound.outer_alive _ _ _ here houter
        · cases heq
      | object carried inside _ =>
        exact sound.leads_alive _ _ carried ⟨_, inside, Value.frame_mem_stored.mp hhandle⟩
    obtain ⟨frame, hframe⟩ := isAlive_iff.mp halive
    exact Graph.mem_keys.mpr ⟨_, sound.frame_mem_world hframe⟩

end World

end Heap

/-! ## Following handles -/

/-- Whether a handle is one of some sources or can be found from one along the handles that nodes
store. -/
inductive Linked (nodes : List (Handle × List Handle)) (sources : List Handle) : Handle → Prop where
  | source {handle : Handle} (h : handle ∈ sources) : Linked nodes sources handle
  | follow {handle other : Handle} {handles : List Handle} (inner : Linked nodes sources handle)
      (here : (handle, handles) ∈ nodes) (h : other ∈ handles) : Linked nodes sources other

namespace Heap

section Linked

variable {heap : Heap} {roots : Roots}

/-- From a carried value that is linked, its object parts are linked. -/
theorem Sound.linked_part (sound : heap.Sound roots) {sources : List Handle}
    {value part : Value} (carried : heap.Carries roots value)
    (hvalue : ∀ object, value.object? = some object →
      Linked (heap.world roots).nodes sources (.object object))
    (inside : value.Part part) {object : ObjectId} (hobject : part.object? = some object) :
    Linked (heap.world roots).nodes sources (.object object) := by
  refine inside.object_induction
    (motive := fun object => Linked (heap.world roots).nodes sources (.object object)) hvalue ?_
    hobject
  intro whole id content object hwhole hid hlinked hmember hobject
  exact .follow hlinked (sound.object_mem_world carried hwhole hid)
    (Value.object_mem_stored.mpr ⟨content, hmember, hobject⟩)

/-- From a carried value that is linked, the frames that it leads to are linked. -/
theorem Sound.linked_of_leads (sound : heap.Sound roots) {sources : List Handle} {value : Value}
    (carried : heap.Carries roots value)
    (hvalue : ∀ object, value.object? = some object →
      Linked (heap.world roots).nodes sources (.object object))
    {id : FrameId} (leads : value.Leads id) :
    Linked (heap.world roots).nodes sources (.frame id) := by
  obtain ⟨part, hpart, hcaptured⟩ := leads
  obtain ⟨object, hobject⟩ := Value.object?_of_captured hcaptured
  exact .follow (sound.linked_part carried hvalue hpart hobject)
    (sound.object_mem_world carried hpart hobject) (Value.frame_mem_stored.mpr hcaptured)

/-- What held values lead to is linked. -/
theorem Sound.linked_of_held (sound : heap.Sound roots) {value : Value}
    (h : value ∈ roots.values) {id : FrameId} (leads : value.Leads id) :
    Linked (heap.world roots).nodes roots.handles (.frame id) := by
  refine sound.linked_of_leads (.held h) (fun object hobject => .source ?_) leads
  exact List.mem_append.mpr (.inr (mem_storedHandles.mpr ⟨value, h, object, hobject, rfl⟩))

/-- Whether a value is held from outside or bound in a frame that is reached. -/
def Reaches (heap : Heap) (roots : Roots) (value : Value) : Prop :=
  value ∈ roots.values ∨ ∃ id frame binding, heap.Reachable roots id ∧
    heap.frame? id = some frame ∧ binding ∈ frame.bindings ∧ binding.2 = value

/-- Whatever the outside reaches is carried. -/
theorem Reaches.carries {value : Value} (h : heap.Reaches roots value) :
    heap.Carries roots value := by
  rcases h with h | ⟨_, _, _, _, here, h, rfl⟩
  · exact .held h
  · exact .bound here h

/-- What it leads to is reached. -/
theorem Reaches.reachable {value : Value} (h : heap.Reaches roots value) {id : FrameId}
    (leads : value.Leads id) : heap.Reachable roots id := by
  rcases h with h | ⟨_, _, _, inner, here, h, rfl⟩
  · exact .captured h leads
  · exact .bound inner here h leads

/-- What a handle that was found along handles stands for. -/
def Found (heap : Heap) (roots : Roots) : Handle → Prop
  | .frame id => heap.Reachable roots id
  | .object object =>
    ∃ value part, heap.Reaches roots value ∧ value.Part part ∧ part.object? = some object

/-- Following handles finds nothing that the outside cannot reach. -/
theorem Sound.found_of_linked (sound : heap.Sound roots) {handle : Handle}
    (h : Linked (heap.world roots).nodes roots.handles handle) : heap.Found roots handle := by
  induction h with
  | source h =>
    rcases List.mem_append.mp h with h | h
    · obtain ⟨id, hid, rfl⟩ := List.mem_map.mp h
      exact .held hid
    · obtain ⟨value, hvalue, object, hobject, rfl⟩ := mem_storedHandles.mp h
      exact ⟨value, value, .inl hvalue, .self value, hobject⟩
  | @follow handle other handles _ here h ih =>
    cases sound.describes_of_mem_world here with
    | @frame id frame hframe =>
      rcases Frame.mem_handles.mp h with ⟨outer, houter, rfl⟩ | ⟨binding, hbinding, object, hobject, rfl⟩
      · exact .outer ih hframe houter
      · exact ⟨binding.2, binding.2, .inr ⟨id, frame, binding, ih, hframe, hbinding, rfl⟩,
          .self _, hobject⟩
    | object carried inside hobject =>
      -- the object was found in a value that is reached; by coherence it is the one described
      obtain ⟨value, part, hreaches, hpart, hpartObject⟩ := ih
      have heq := sound.coherent _ _ carried hreaches.carries _ _ _ inside hpart hobject hpartObject
      subst heq
      cases other with
      | frame id =>
        exact hreaches.reachable ⟨_, hpart, Value.frame_mem_stored.mp h⟩
      | object id =>
        obtain ⟨content, hcontent, hid⟩ := Value.object_mem_stored.mp h
        exact ⟨value, content, hreaches, hpart.trans (.of_mem hcontent), hid⟩

/-- Following handles finds all that the outside can reach. -/
theorem Sound.linked_of_reachable (sound : heap.Sound roots) {id : FrameId}
    (h : heap.Reachable roots id) : Linked (heap.world roots).nodes roots.handles (.frame id) := by
  induction h with
  | held h => exact .source (List.mem_append.mpr (.inl (List.mem_map_of_mem h)))
  | captured h leads => exact sound.linked_of_held h leads
  | outer _ here h ih =>
    exact .follow ih (sound.frame_mem_world here) (Frame.mem_handles.mpr (.inl ⟨_, h, rfl⟩))
  | @bound id other frame binding _ here h leads ih =>
    refine sound.linked_of_leads (.bound here h) (fun object hobject => ?_) leads
    exact .follow ih (sound.frame_mem_world here)
      (Frame.mem_handles.mpr (.inr ⟨binding, h, object, hobject, rfl⟩))

/-- Following handles from the roots finds exactly the reachable frames. -/
theorem Sound.linked_iff_reachable (sound : heap.Sound roots) {id : FrameId} :
    Linked (heap.world roots).nodes roots.handles (.frame id) ↔ heap.Reachable roots id :=
  ⟨sound.found_of_linked, sound.linked_of_reachable⟩

end Linked

end Heap

end Scriptlet
