import Scriptlet.Proofs.Heap.Marking

set_option autoImplicit false

/-!
# What counting keeps alive

Component: the counting of references to frames.  Specification: section 9, by which shared
environments may be kept by counting, and section 3 on what holds a reference: functions, inner
environments and whoever evaluates.

Counting drops a frame when the last handle to it goes.  `Heap.release` does so in rounds, and what
is left are the nodes that support each other: each of them is referred to by a root or by one that
is left, and no larger set of nodes has this property (`survivors_spec`).  Everything that can
be reached is among them, so a release changes nothing that can be seen from outside.

A heap is *settled* if every live frame has a handle; a release does nothing to a settled heap
(`Heap.Sound.frame?_release_of_settled`).

A frame that is dropped drops its own handles, which may leave others without any.  Counting goes on
until nothing changes, and rounds do the same: in each of them all nodes go that nothing refers to.
The number of nodes bounds the rounds, since each round but the last drops one.
-/

namespace Scriptlet

/-! ## Survivors -/

/-- Whether a root or one of some nodes refers to a handle. -/
def Referred (roots : List Handle) (nodes : Handle × List Handle → Prop) (handle : Handle) : Prop :=
  handle ∈ roots ∨ ∃ node, nodes node ∧ handle ∈ node.2

/-- What some nodes refer to, more nodes refer to. -/
theorem Referred.mono {roots : List Handle} {nodes others : Handle × List Handle → Prop}
    {handle : Handle} (h : Referred roots nodes handle)
    (hsub : ∀ node, nodes node → others node) : Referred roots others handle := by
  rcases h with h | ⟨node, hnode, h⟩
  · exact .inl h
  · exact .inr ⟨node, hsub node hnode, h⟩

/-- What a round leaves are the nodes that are referred to. -/
theorem mem_referredTo {roots : List Handle} {nodes : List (Handle × List Handle)}
    {node : Handle × List Handle} :
    node ∈ referredTo roots nodes ↔ node ∈ nodes ∧ Referred roots (· ∈ nodes) node.1 := by
  simp [referredTo, Referred]

/-- The survivors support each other, and every set of nodes that does so survives. -/
theorem survivors_spec {roots : List Handle} :
    ∀ (rounds : Nat) (nodes : List (Handle × List Handle)), nodes.length ≤ rounds →
      (∀ node ∈ survivors roots rounds nodes,
        node ∈ nodes ∧ Referred roots (· ∈ survivors roots rounds nodes) node.1) ∧
      ∀ kept : Handle × List Handle → Prop, (∀ node, kept node → node ∈ nodes) →
        (∀ node, kept node → Referred roots kept node.1) →
        ∀ node, kept node → node ∈ survivors roots rounds nodes := by
  intro rounds
  induction rounds with
  | zero =>
    intro nodes hlength
    have hempty : nodes = [] := List.length_eq_zero_iff.mp (Nat.le_zero.mp hlength)
    subst hempty
    exact ⟨fun _ h => absurd h List.not_mem_nil, fun _ hsub _ node h => hsub node h⟩
  | succ rounds ih =>
    intro nodes hlength
    rw [survivors]
    by_cases hstable : (referredTo roots nodes).length = nodes.length
    · simp only [hstable, if_true]
      have hall : referredTo roots nodes = nodes :=
        List.filter_eq_self.mpr (List.length_filter_eq_length_iff.mp hstable)
      refine ⟨fun node h => ⟨h, ?_⟩, fun _ hsub _ node h => hsub node h⟩
      rw [← hall] at h
      exact (mem_referredTo.mp h).2
    · simp only [hstable, if_false]
      have hle : (referredTo roots nodes).length ≤ nodes.length := List.length_filter_le _ _
      obtain ⟨hsupport, hlargest⟩ := ih (referredTo roots nodes) (by omega)
      refine ⟨fun node h => ?_, fun kept hsub hkept => hlargest kept (fun node h => ?_) hkept⟩
      · obtain ⟨hmem, hreferred⟩ := hsupport node h
        exact ⟨(mem_referredTo.mp hmem).1, hreferred⟩
      · exact mem_referredTo.mpr ⟨hsub node h, (hkept node h).mono hsub⟩

namespace Heap

/-! ## Dropping and emptying frames -/

/-- After some frames have been dropped, these are gone and the others are as they were. -/
theorem frame?_drop (ids : List FrameId) (heap : Heap) (id : FrameId) :
    (heap.drop ids).frame? id = if id ∈ ids then none else heap.frame? id := by
  have hfold : ∀ frames : Array (Option Frame),
      (ids.foldl (fun frames id => frames.setIfInBounds id.index none) frames)[id.index]?.join =
        if id ∈ ids then none else frames[id.index]?.join := by
    induction ids with
    | nil => simp
    | cons first rest ih =>
      intro frames
      rw [List.foldl_cons, ih]
      by_cases hrest : id ∈ rest
      · simp [hrest]
      · by_cases hfirst : id = first
        · subst hfirst
          rw [if_neg hrest, Array.getElem?_setIfInBounds_self]
          by_cases hlt : id.index < frames.size <;> simp [hlt]
        · have hindex : first.index ≠ id.index := fun heq => hfirst (by cases id; cases first; simp_all)
          simp [hrest, hfirst, hindex]
  exact hfold heap.frames

/-- After some frames have been emptied, these are alive without bindings and the others are as they
were. -/
theorem frame?_clear (ids : List FrameId) (heap : Heap) (id : FrameId) :
    (heap.clear ids).frame? id =
      if id ∈ ids then (heap.frame? id).map fun _ => ⟨[], none⟩ else heap.frame? id := by
  have hfold : ∀ frames : Array (Option Frame),
      (ids.foldl (fun frames id => frames.modify id.index (·.map fun _ => ⟨[], none⟩))
        frames)[id.index]?.join =
        if id ∈ ids then frames[id.index]?.join.map fun _ => ⟨[], none⟩
        else frames[id.index]?.join := by
    induction ids with
    | nil => simp
    | cons first rest ih =>
      intro frames
      rw [List.foldl_cons, ih]
      by_cases hfirst : id = first
      · subst hfirst
        simp only [Array.getElem?_modify, if_true, List.mem_cons, true_or]
        cases frames[id.index]? with
        | none => simp
        | some slot => cases slot <;> simp
      · have hindex : first.index ≠ id.index := fun heq => hfirst (by cases id; cases first; simp_all)
        simp [hfirst, Array.getElem?_modify, hindex]
  exact hfold heap.frames

/-! ## Changes that cannot be seen -/

section

variable {heap next : Heap} {roots : Roots}

/-- Where the frames that are reached stay as they are, the same frames are reached. -/
theorem reachable_iff_of_same
    (same : ∀ id, heap.Reachable roots id → next.frame? id = heap.frame? id) {id : FrameId} :
    next.Reachable roots id ↔ heap.Reachable roots id := by
  constructor
  · intro h
    induction h with
    | held h => exact .held h
    | captured h leads => exact .captured h leads
    | outer _ here h ih => exact .outer ih ((same _ ih).symm.trans here) h
    | bound _ here h leads ih => exact .bound ih ((same _ ih).symm.trans here) h leads
  · exact Reachable.mono ⟨fun _ h => h, fun _ h => h⟩ same

/-- Where frames are at most emptied or dropped, nothing new is carried. -/
theorem Carries.of_frames (shrinks : ∀ id frame, next.frame? id = some frame →
      heap.frame? id = some frame ∨ frame = ⟨[], none⟩) {value : Value}
    (h : next.Carries roots value) : heap.Carries roots value := by
  cases h with
  | held h => exact .held h
  | bound here h =>
    rcases shrinks _ _ here with hsame | rfl
    · exact .bound hsame h
    · exact absurd h List.not_mem_nil

/-- Pruning the registry of what is not alive keeps a heap sound. -/
theorem Sound.prune (sound : heap.Sound roots) : heap.prune.Sound roots := by
  have hshrinks : ∀ id frame, heap.prune.frame? id = some frame →
      heap.frame? id = some frame ∨ frame = ⟨[], none⟩ := fun _ _ here => .inl here
  have hcarries : ∀ value, heap.prune.Carries roots value → heap.Carries roots value :=
    fun _ h => h.of_frames hshrinks
  exact {
    registered := fun id h => by
      rw [Heap.prune, Array.toList_filter, List.mem_filter]
      exact ⟨sound.registered id h, h⟩
    once := by
      rw [Heap.prune, Array.toList_filter]
      exact sound.once.filter _
    held_alive := sound.held_alive
    outer_alive := sound.outer_alive
    leads_alive := fun value id h => sound.leads_alive value id (hcarries value h)
    coherent := fun left right hleft hright =>
      sound.coherent left right (hcarries left hleft) (hcarries right hright) }

end

/-! ## Release -/

variable {heap : Heap} {roots : Roots}

/-- What is left of the world when all that nothing refers to has been dropped. -/
def remains (heap : Heap) (roots : Roots) : List (Handle × List Handle) :=
  survivors roots.handles (heap.world roots).nodes.length (heap.world roots).nodes

/-- What is left was there. -/
theorem remains_subset {node : Handle × List Handle} (h : node ∈ heap.remains roots) :
    node ∈ (heap.world roots).nodes :=
  ((survivors_spec _ _ (Nat.le_refl _)).1 node h).1

/-- And it is referred to by a root or by what is left. -/
theorem referred_of_remains {node : Handle × List Handle} (h : node ∈ heap.remains roots) :
    Referred roots.handles (· ∈ heap.remains roots) node.1 :=
  ((survivors_spec _ _ (Nat.le_refl _)).1 node h).2

/-- Nodes that support each other are left. -/
theorem mem_remains_of_supported (kept : Handle × List Handle → Prop)
    (hsub : ∀ node, kept node → node ∈ (heap.world roots).nodes)
    (hkept : ∀ node, kept node → Referred roots.handles kept node.1)
    {node : Handle × List Handle} (h : kept node) : node ∈ heap.remains roots :=
  (survivors_spec _ _ (Nat.le_refl _)).2 kept hsub hkept node h

/-- What a root or something left refers to is left. -/
theorem mem_remains_of_referred {node : Handle × List Handle}
    (hnode : node ∈ (heap.world roots).nodes)
    (h : Referred roots.handles (· ∈ heap.remains roots) node.1) : node ∈ heap.remains roots := by
  refine mem_remains_of_supported (fun other => other = node ∨ other ∈ heap.remains roots) ?_ ?_ (.inl rfl)
  · rintro other (rfl | hother)
    · exact hnode
    · exact remains_subset hother
  · rintro other (rfl | hother)
    · exact h.mono fun _ => .inr
    · exact (referred_of_remains hother).mono fun _ => .inr

/-- A release drops the live frames that are not left. -/
theorem release_eq (heap : Heap) (roots : Roots) :
    heap.release roots = heap.drop ((heap.liveFrames.map Prod.fst).filter fun id =>
      !(Std.HashSet.ofList ((heap.remains roots).map Prod.fst)).contains (.frame id)) := rfl

/-- Each frame stays as it is or is gone. -/
theorem Sound.frame?_release (sound : heap.Sound roots) (id : FrameId) :
    (heap.release roots).frame? id =
      if Handle.frame id ∈ (heap.remains roots).map Prod.fst then heap.frame? id else none := by
  have hdropped : id ∈ (heap.liveFrames.map Prod.fst).filter (fun id =>
        !(Std.HashSet.ofList ((heap.remains roots).map Prod.fst)).contains (.frame id)) ↔
      heap.isAlive id = true ∧ Handle.frame id ∉ (heap.remains roots).map Prod.fst := by
    rw [List.mem_filter, map_fst_liveFrames, List.mem_filter, Bool.not_eq_true',
      Std.HashSet.contains_ofList, List.contains_eq_mem, decide_eq_false_iff_not]
    exact and_congr_left fun _ => ⟨fun h => h.2, fun h => ⟨sound.registered id h, h⟩⟩
  rw [release_eq, frame?_drop]
  by_cases hleft : Handle.frame id ∈ (heap.remains roots).map Prod.fst
  · rw [if_neg (fun h => (hdropped.mp h).2 hleft), if_pos hleft]
  · rw [if_neg hleft]
    by_cases halive : heap.isAlive id = true
    · rw [if_pos (hdropped.mpr ⟨halive, hleft⟩)]
    · rw [if_neg (fun h => halive (hdropped.mp h).1)]
      simpa [isAlive] using halive

/-- A frame that is left has its node left. -/
theorem Sound.frame_mem_remains (sound : heap.Sound roots) {id : FrameId} {frame : Frame}
    (h : (heap.release roots).frame? id = some frame) :
    heap.frame? id = some frame ∧ (.frame id, frame.handles) ∈ heap.remains roots := by
  rw [sound.frame?_release] at h
  split at h
  next hleft =>
    refine ⟨h, ?_⟩
    obtain ⟨⟨handle, handles⟩, hnode, heq⟩ := List.mem_map.mp hleft
    cases heq
    have hsame := sound.keyed_world.eq_of_mem (remains_subset hnode) (sound.frame_mem_world h)
    rwa [hsame] at hnode
  next => cases h

/-- A frame that a root or something left refers to stays as it is. -/
theorem Sound.frame?_release_of_referred (sound : heap.Sound roots) {id : FrameId}
    (halive : heap.isAlive id = true)
    (h : Referred roots.handles (· ∈ heap.remains roots) (.frame id)) :
    (heap.release roots).frame? id = heap.frame? id := by
  obtain ⟨frame, hframe⟩ := isAlive_iff.mp halive
  have hleft := mem_remains_of_referred (sound.frame_mem_world hframe) h
  rw [sound.frame?_release, if_pos (List.mem_map_of_mem hleft)]

/-- A frame that is as it was is alive just if it was. -/
theorem isAlive_of_frame?_eq {next : Heap} {id : FrameId} (h : next.frame? id = heap.frame? id) :
    next.isAlive id = heap.isAlive id := by
  rw [isAlive, isAlive, h]

/-- All object parts of a carried value are left if the value is referred to by what is left. -/
theorem Sound.object_mem_remains (sound : heap.Sound roots) {value part : Value}
    (carried : heap.Carries roots value)
    (hvalue : ∀ object, value.object? = some object →
      Referred roots.handles (· ∈ heap.remains roots) (.object object))
    (inside : value.Part part) {object : ObjectId} (hobject : part.object? = some object) :
    (.object object, part.stored) ∈ heap.remains roots := by
  have hreferred : Referred roots.handles (· ∈ heap.remains roots) (.object object) := by
    refine inside.object_induction
      (motive := fun object => Referred roots.handles (· ∈ heap.remains roots) (.object object))
      hvalue ?_ hobject
    intro whole id content object hwhole hid hwholeReferred hmember hobject
    have hleft := mem_remains_of_referred (sound.object_mem_world carried hwhole hid) hwholeReferred
    exact .inr ⟨_, hleft, Value.object_mem_stored.mpr ⟨content, hmember, hobject⟩⟩
  exact mem_remains_of_referred (sound.object_mem_world carried inside hobject) hreferred

/-- What is carried after a release was carried, and is referred to by a root or by what is left. -/
theorem Sound.referred_of_carries_release (sound : heap.Sound roots) {value : Value}
    (h : (heap.release roots).Carries roots value) :
    heap.Carries roots value ∧ ∀ object, value.object? = some object →
      Referred roots.handles (· ∈ heap.remains roots) (.object object) := by
  cases h with
  | held h =>
    refine ⟨.held h, fun object hobject => .inl (List.mem_append.mpr (.inr ?_))⟩
    exact mem_storedHandles.mpr ⟨value, h, object, hobject, rfl⟩
  | bound here h =>
    obtain ⟨hframe, hleft⟩ := sound.frame_mem_remains here
    refine ⟨.bound hframe h, fun object hobject => .inr ⟨_, hleft, ?_⟩⟩
    exact Frame.mem_handles.mpr (.inr ⟨_, h, object, hobject, rfl⟩)

/-- Releasing keeps a heap sound: what is left refers only to what is left. -/
theorem Sound.release (sound : heap.Sound roots) : (heap.release roots).Sound roots := by
  have hkeep : ∀ id, heap.isAlive id = true →
      Referred roots.handles (· ∈ heap.remains roots) (.frame id) →
      (heap.release roots).isAlive id = true := by
    intro id halive h
    rw [isAlive_of_frame?_eq (sound.frame?_release_of_referred halive h)]
    exact halive
  exact {
    registered := fun id h => by
      obtain ⟨frame, hframe⟩ := isAlive_iff.mp h
      exact sound.registered id (isAlive_iff.mpr ⟨frame, (sound.frame_mem_remains hframe).1⟩)
    once := sound.once
    held_alive := fun id h =>
      hkeep id (sound.held_alive id h) (.inl (List.mem_append.mpr (.inl (List.mem_map_of_mem h))))
    outer_alive := fun id frame outer here houter => by
      obtain ⟨hframe, hleft⟩ := sound.frame_mem_remains here
      refine hkeep outer (sound.outer_alive _ _ _ hframe houter) (.inr ⟨_, hleft, ?_⟩)
      exact Frame.mem_handles.mpr (.inl ⟨outer, houter, rfl⟩)
    leads_alive := fun value id h leads => by
      obtain ⟨hcarries, hreferred⟩ := sound.referred_of_carries_release h
      obtain ⟨part, hpart, hcaptured⟩ := leads
      obtain ⟨object, hobject⟩ := Value.object?_of_captured hcaptured
      have hleft := sound.object_mem_remains hcarries hreferred hpart hobject
      refine hkeep id (sound.leads_alive value id hcarries ⟨part, hpart, hcaptured⟩) (.inr ⟨_, hleft, ?_⟩)
      exact Value.frame_mem_stored.mpr hcaptured
    coherent := fun left right hleft hright =>
      sound.coherent left right (sound.referred_of_carries_release hleft).1
        (sound.referred_of_carries_release hright).1 }

/-- What can be followed from the roots is left. -/
theorem mem_remains_of_linked {node : Handle × List Handle}
    (hnode : node ∈ (heap.world roots).nodes)
    (h : Linked (heap.world roots).nodes roots.handles node.1) : node ∈ heap.remains roots := by
  refine mem_remains_of_supported (fun node => node ∈ (heap.world roots).nodes ∧
    Linked (heap.world roots).nodes roots.handles node.1) (fun _ h => h.1) ?_ ⟨hnode, h⟩
  rintro ⟨handle, handles⟩ ⟨_, hlinked⟩
  cases hlinked with
  | source h => exact .inl h
  | follow inner here h => exact .inr ⟨_, ⟨here, inner⟩, h⟩

/-- What is reached stays as it is. -/
theorem Sound.frame?_release_of_reachable (sound : heap.Sound roots) {id : FrameId}
    (h : heap.Reachable roots id) : (heap.release roots).frame? id = heap.frame? id := by
  obtain ⟨frame, hframe⟩ := isAlive_iff.mp (sound.isAlive_of_reachable h)
  have hleft := mem_remains_of_linked (sound.frame_mem_world hframe)
    (sound.linked_of_reachable h)
  rw [sound.frame?_release, if_pos (List.mem_map_of_mem hleft)]

/-! ## Settled heaps -/

/-- The number of handles to a frame or an object: those that the roots hold and those that frames
and objects store. -/
def strongCount (heap : Heap) (roots : Roots) (handle : Handle) : Nat :=
  ((heap.world roots).handles ++ roots.handles).count handle

/-- Whether every live frame has a handle. -/
def Settled (heap : Heap) (roots : Roots) : Prop :=
  ∀ id, heap.isAlive id = true → 0 < heap.strongCount roots (.frame id)

/-- There is a handle if a root or a node refers to it. -/
theorem strongCount_pos_iff {handle : Handle} :
    0 < heap.strongCount roots handle ↔
      Referred roots.handles (· ∈ (heap.world roots).nodes) handle := by
  simp only [strongCount, List.count_pos_iff, List.mem_append, Graph.handles, List.mem_flatMap,
    Referred]
  exact or_comm

/-- Every object in the world has a handle. -/
theorem Sound.referred_object (sound : heap.Sound roots) {node : Handle × List Handle}
    (h : node ∈ (heap.world roots).nodes) {object : ObjectId} (hnode : node.1 = .object object) :
    Referred roots.handles (· ∈ (heap.world roots).nodes) node.1 := by
  cases sound.describes_of_mem_world h with
  | frame => cases hnode
  | @object value part id carried inside hobject =>
    refine inside.object_induction
      (motive := fun object =>
        Referred roots.handles (· ∈ (heap.world roots).nodes) (.object object)) ?_ ?_ hobject
    · intro object hobject
      cases carried with
      | held h =>
        refine .inl (List.mem_append.mpr (.inr ?_))
        exact mem_storedHandles.mpr ⟨value, h, object, hobject, rfl⟩
      | bound here h =>
        exact .inr ⟨_, sound.frame_mem_world here,
          Frame.mem_handles.mpr (.inr ⟨_, h, object, hobject, rfl⟩)⟩
    · intro whole id content object hwhole hid _ hmember hobject
      exact .inr ⟨_, sound.object_mem_world carried hwhole hid,
        Value.object_mem_stored.mpr ⟨content, hmember, hobject⟩⟩

/-- A release does nothing to a settled heap. -/
theorem Sound.frame?_release_of_settled (sound : heap.Sound roots) (settled : heap.Settled roots)
    (id : FrameId) : (heap.release roots).frame? id = heap.frame? id := by
  by_cases halive : heap.isAlive id = true
  · obtain ⟨frame, hframe⟩ := isAlive_iff.mp halive
    have hleft : (.frame id, frame.handles) ∈ heap.remains roots := by
      refine mem_remains_of_supported (· ∈ (heap.world roots).nodes) (fun _ h => h) ?_
        (sound.frame_mem_world hframe)
      intro node hnode
      cases hhandle : node.1 with
      | object object => exact hhandle ▸ sound.referred_object hnode hhandle
      | frame other =>
        refine strongCount_pos_iff.mp (settled other ?_)
        cases sound.describes_of_mem_world hnode with
        | frame here =>
          cases hhandle
          exact isAlive_iff.mpr ⟨_, here⟩
        | object => cases hhandle
    rw [sound.frame?_release, if_pos (List.mem_map_of_mem hleft)]
  · have hnone : heap.frame? id = none := by simpa [isAlive] using halive
    rw [sound.frame?_release, hnone, ite_self]

end Heap

end Scriptlet
