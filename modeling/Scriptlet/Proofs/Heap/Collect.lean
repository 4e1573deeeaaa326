import Scriptlet.Proofs.Heap.Release

set_option autoImplicit false

/-!
# What a collection does

Component: the collector of frames that refer to each other.  Specification: section 9 on
environments with shared ownership, where counting alone would leave such frames, and section 5, by
which a frame that a function holds must stay as it is.

A collection first lets counting do its work, then empties the frames that cannot be reached, and
lets counting do its work again.  An emptied frame refers to nothing, so all that anything still
refers to is reached, and the second release drops every emptied frame, however they referred to
each other before.

The outcome, for every sound heap: what is reached stays exactly as it was, everything else is gone
with all its handles, and a second collection finds nothing.

    counted   frames that nothing refers to are gone, and the registry is pruned
    emptied   the garbage of that heap has lost its bindings and its outer frames
    released  what was referred to by garbage only is gone, and the registry pruned again

What can be reached is the same in each of these heaps, and each of them is sound.
-/

namespace Scriptlet

namespace Heap

variable {heap : Heap} {roots : Roots}

/-! ## Emptying what cannot be reached -/

/-- The heap once counting has done its work, with only live frames registered. -/
def counted (heap : Heap) (roots : Roots) : Heap := (heap.release roots).prune

/-- The counted heap with the frames emptied that cannot be reached. -/
def emptied (heap : Heap) (roots : Roots) : Heap :=
  (heap.counted roots).clear ((heap.counted roots).garbage roots)

/-- A collection counts, empties, and counts again; then it sets the threshold. -/
theorem collect_eq (heap : Heap) (roots : Roots) :
    heap.collect roots =
      (((heap.counted roots).garbage roots).length,
        { ((heap.emptied roots).release roots).prune with
          threshold := max (2 * ((heap.emptied roots).release roots).prune.registry.size)
            minThreshold }) := rfl

/-- Counting keeps a heap sound. -/
theorem Sound.counted (sound : heap.Sound roots) : (heap.counted roots).Sound roots :=
  sound.release.prune

/-- Counting leaves what is reached as it is. -/
theorem Sound.frame?_counted_of_reachable (sound : heap.Sound roots) {id : FrameId}
    (h : heap.Reachable roots id) : (heap.counted roots).frame? id = heap.frame? id :=
  sound.frame?_release_of_reachable h

/-- Counting changes nothing about what is reached. -/
theorem Sound.reachable_counted_iff (sound : heap.Sound roots) {id : FrameId} :
    (heap.counted roots).Reachable roots id ↔ heap.Reachable roots id :=
  reachable_iff_of_same fun _ h => sound.frame?_counted_of_reachable h

/-- The garbage is what counting has left alive and is not reached. -/
theorem Sound.mem_garbage_counted (sound : heap.Sound roots) {id : FrameId} :
    id ∈ (heap.counted roots).garbage roots ↔
      (heap.release roots).isAlive id = true ∧ ¬ heap.Reachable roots id := by
  rw [sound.counted.mem_garbage, sound.reachable_counted_iff]
  rfl

/-- Nothing is emptied that is reached. -/
theorem Sound.frame?_emptied_of_reachable (sound : heap.Sound roots) {id : FrameId}
    (h : heap.Reachable roots id) : (heap.emptied roots).frame? id = heap.frame? id := by
  rw [emptied, frame?_clear, if_neg fun hmem => (sound.mem_garbage_counted.mp hmem).2 h]
  exact sound.frame?_counted_of_reachable h

/-- So the same frames are reached as before. -/
theorem Sound.reachable_emptied_iff (sound : heap.Sound roots) {id : FrameId} :
    (heap.emptied roots).Reachable roots id ↔ heap.Reachable roots id :=
  reachable_iff_of_same fun _ h => sound.frame?_emptied_of_reachable h

/-- A live frame of the emptied heap is reached, or it is empty. -/
theorem Sound.reachable_or_empty (sound : heap.Sound roots) {id : FrameId} {frame : Frame}
    (here : (heap.emptied roots).frame? id = some frame) :
    heap.Reachable roots id ∨ frame = ⟨[], none⟩ := by
  rw [emptied, frame?_clear] at here
  split at here
  next =>
    obtain ⟨_, _, rfl⟩ := Option.map_eq_some_iff.mp here
    exact .inr rfl
  next hkept =>
    refine .inl (Classical.byContradiction fun hnot => hkept ?_)
    exact sound.mem_garbage_counted.mpr ⟨isAlive_iff.mpr ⟨frame, here⟩, hnot⟩

/-- An emptied frame is still alive. -/
theorem isAlive_emptied (heap : Heap) (roots : Roots) (id : FrameId) :
    (heap.emptied roots).isAlive id = (heap.counted roots).isAlive id := by
  rw [isAlive, emptied, frame?_clear]
  split <;> simp [isAlive]

/-- Emptying keeps a heap sound: an empty frame can still be referred to. -/
theorem Sound.emptied (sound : heap.Sound roots) : (heap.emptied roots).Sound roots := by
  have hcounted := sound.counted
  have hshrinks : ∀ id frame, (heap.emptied roots).frame? id = some frame →
      (heap.counted roots).frame? id = some frame ∨ frame = ⟨[], none⟩ := by
    intro id frame here
    rcases sound.reachable_or_empty here with h | h
    · rw [sound.frame?_emptied_of_reachable h] at here
      exact .inl ((sound.frame?_counted_of_reachable h).trans here)
    · exact .inr h
  have hcarries : ∀ value, (heap.emptied roots).Carries roots value →
      (heap.counted roots).Carries roots value := fun _ h => h.of_frames hshrinks
  exact {
    registered := fun id h => hcounted.registered id (isAlive_emptied heap roots id ▸ h)
    once := hcounted.once
    held_alive := fun id h => (isAlive_emptied heap roots id).trans (hcounted.held_alive id h)
    outer_alive := fun id frame outer here houter => by
      rcases hshrinks id frame here with h | rfl
      · exact (isAlive_emptied heap roots outer).trans (hcounted.outer_alive _ _ _ h houter)
      · cases houter
    leads_alive := fun value id h leads =>
      (isAlive_emptied heap roots id).trans (hcounted.leads_alive value id (hcarries value h) leads)
    coherent := fun left right hleft hright =>
      hcounted.coherent left right (hcarries left hleft) (hcarries right hright) }

/-! ## The second release -/

/-- In the emptied heap everything that is referred to can be followed from the roots. -/
theorem Sound.linked_of_mem_emptied (sound : heap.Sound roots) {node : Handle × List Handle}
    (hnode : node ∈ ((heap.emptied roots).world roots).nodes) {handle : Handle}
    (h : handle ∈ node.2) : Linked ((heap.emptied roots).world roots).nodes roots.handles handle := by
  have hemptied := sound.emptied
  cases hemptied.describes_of_mem_world hnode with
  | frame here =>
    rcases sound.reachable_or_empty here with hreach | rfl
    · exact .follow (hemptied.linked_of_reachable (sound.reachable_emptied_iff.mpr hreach)) hnode h
    · exact absurd h List.not_mem_nil
  | object carried inside hobject =>
    refine .follow (hemptied.linked_part carried (fun id hid => ?_) inside hobject) hnode h
    cases carried with
    | held hvalue =>
      refine .source (List.mem_append.mpr (.inr ?_))
      exact mem_storedHandles.mpr ⟨_, hvalue, id, hid, rfl⟩
    | bound here hbinding =>
      rcases sound.reachable_or_empty here with hreach | rfl
      · refine .follow (hemptied.linked_of_reachable (sound.reachable_emptied_iff.mpr hreach))
          (hemptied.frame_mem_world here) (Frame.mem_handles.mpr (.inr ⟨_, hbinding, id, hid, rfl⟩))
      · exact absurd hbinding List.not_mem_nil

/-- What a collection leaves alive is reached. -/
theorem Sound.reachable_of_isAlive_collect (sound : heap.Sound roots) {id : FrameId}
    (h : (heap.collect roots).2.isAlive id = true) : heap.Reachable roots id := by
  obtain ⟨frame, hframe⟩ := isAlive_iff.mp h
  have hemptied := sound.emptied
  obtain ⟨_, hremains⟩ := hemptied.frame_mem_remains hframe
  have hlinked : Linked ((heap.emptied roots).world roots).nodes roots.handles (.frame id) := by
    rcases referred_of_remains hremains with hroot | ⟨node, hnode, hmem⟩
    · exact .source hroot
    · exact sound.linked_of_mem_emptied (remains_subset hnode) hmem
  exact sound.reachable_emptied_iff.mp (hemptied.linked_iff_reachable.mp hlinked)

/-- What is reached stays as it is. -/
theorem Sound.frame?_collect_of_reachable (sound : heap.Sound roots) {id : FrameId}
    (h : heap.Reachable roots id) : (heap.collect roots).2.frame? id = heap.frame? id :=
  (sound.emptied.frame?_release_of_reachable (sound.reachable_emptied_iff.mpr h)).trans
    (sound.frame?_emptied_of_reachable h)

/-- So what is left alive is just what is reached. -/
theorem Sound.isAlive_collect_iff (sound : heap.Sound roots) {id : FrameId} :
    (heap.collect roots).2.isAlive id = true ↔ heap.Reachable roots id := by
  refine ⟨sound.reachable_of_isAlive_collect, fun h => ?_⟩
  rw [isAlive_of_frame?_eq (sound.frame?_collect_of_reachable h)]
  exact sound.isAlive_of_reachable h

/-- What is not reached is gone. -/
theorem Sound.frame?_collect_of_not_reachable (sound : heap.Sound roots) {id : FrameId}
    (h : ¬ heap.Reachable roots id) : (heap.collect roots).2.frame? id = none := by
  cases hframe : (heap.collect roots).2.frame? id with
  | none => rfl
  | some frame =>
    exact absurd (sound.reachable_of_isAlive_collect (isAlive_iff.mpr ⟨frame, hframe⟩)) h

/-- The same frames are reached before and after. -/
theorem Sound.reachable_collect_iff (sound : heap.Sound roots) {id : FrameId} :
    (heap.collect roots).2.Reachable roots id ↔ heap.Reachable roots id :=
  reachable_iff_of_same fun _ h => sound.frame?_collect_of_reachable h

/-- A collection keeps a heap sound. -/
theorem Sound.collect (sound : heap.Sound roots) : (heap.collect roots).2.Sound roots := by
  have h := sound.emptied.release.prune
  have hcarries : ∀ value, (heap.collect roots).2.Carries roots value →
      ((heap.emptied roots).release roots).prune.Carries roots value := by
    intro value hvalue
    cases hvalue with
    | held hvalue => exact .held hvalue
    | bound here hbinding => exact .bound here hbinding
  exact {
    registered := h.registered
    once := h.once
    held_alive := h.held_alive
    outer_alive := h.outer_alive
    leads_alive := fun value id hvalue => h.leads_alive value id (hcarries value hvalue)
    coherent := fun left right hleft hright =>
      h.coherent left right (hcarries left hleft) (hcarries right hright) }

/-- Nothing refers any more to a frame that is not reached. -/
theorem Sound.strongCount_collect (sound : heap.Sound roots) {id : FrameId}
    (h : ¬ heap.Reachable roots id) :
    (heap.collect roots).2.strongCount roots (.frame id) = 0 := by
  refine Nat.eq_zero_of_not_pos fun hpos => h ?_
  have hsound := sound.collect
  rcases strongCount_pos_iff.mp hpos with hroot | ⟨node, hnode, hmem⟩
  · exact sound.reachable_collect_iff.mp
      (hsound.linked_iff_reachable.mp (.source hroot))
  · obtain ⟨handles, hkey⟩ := Graph.mem_keys.mp (hsound.mem_keys_of_mem hnode hmem)
    cases hsound.describes_of_mem_world hkey with
    | frame here => exact sound.reachable_of_isAlive_collect (isAlive_iff.mpr ⟨_, here⟩)

/-! ## Counting the frames -/

/-- Pruning the registry takes no live frame out of it. -/
theorem map_fst_liveFrames_counted (heap : Heap) (roots : Roots) :
    (heap.counted roots).liveFrames.map Prod.fst = (heap.release roots).liveFrames.map Prod.fst := by
  rw [map_fst_liveFrames, map_fst_liveFrames]
  simp only [Heap.counted, Heap.prune, Array.toList_filter, List.filter_filter]
  exact List.filter_congr fun id _ => Bool.and_self _

/-- Of the live frames that counting has left, a collection leaves those that are not garbage. -/
theorem Sound.map_fst_liveFrames_collect (sound : heap.Sound roots) :
    (heap.collect roots).2.liveFrames.map Prod.fst =
      ((heap.counted roots).liveFrames.map Prod.fst).filter
        (fun id => id ∉ (heap.counted roots).garbage roots) := by
  have hcounted := sound.counted
  have hregistry : (heap.collect roots).2.registry.toList =
      (heap.counted roots).registry.toList.filter (heap.collect roots).2.isAlive := by
    rw [collect_eq]
    exact Array.toList_filter
  rw [map_fst_liveFrames, map_fst_liveFrames, List.filter_filter, hregistry, List.filter_filter]
  refine List.filter_congr fun id _ => ?_
  rw [Bool.and_self, Bool.eq_iff_iff, sound.isAlive_collect_iff, Bool.and_eq_true,
    decide_eq_true_eq, hcounted.mem_garbage, sound.reachable_counted_iff]
  constructor
  · intro h
    exact ⟨fun hnot => hnot.2 h, hcounted.isAlive_of_reachable (sound.reachable_counted_iff.mpr h)⟩
  · rintro ⟨hnot, halive⟩
    exact Classical.byContradiction fun h => hnot ⟨halive, h⟩

/-- The others are those that it reports. -/
theorem collect_fst (heap : Heap) (roots : Roots) :
    (heap.collect roots).1 =
      (((heap.counted roots).liveFrames.map Prod.fst).filter
        (fun id => id ∈ (heap.counted roots).garbage roots)).length := by
  rw [collect_eq]
  refine congrArg List.length ?_
  refine List.filter_congr fun id hid => ?_
  rw [Bool.eq_iff_iff, decide_eq_true_eq, garbage, List.mem_filter]
  exact ⟨fun h => ⟨hid, h⟩, fun h => h.2⟩

/-- A collection reports as many frames as counting had left alive and it has not. -/
theorem Sound.collect_fst_add_length (sound : heap.Sound roots) :
    (heap.collect roots).1 + (heap.collect roots).2.liveFrames.length =
      (heap.release roots).liveFrames.length := by
  have hafter := congrArg List.length sound.map_fst_liveFrames_collect
  have hbefore := congrArg List.length (heap.map_fst_liveFrames_counted roots)
  have hreported := heap.collect_fst roots
  have hsplit := List.length_eq_countP_add_countP (l := (heap.counted roots).liveFrames.map Prod.fst)
    fun id => decide (id ∈ (heap.counted roots).garbage roots)
  simp only [List.countP_eq_length_filter, decide_not, Bool.decide_eq_true, List.length_map]
    at hsplit hafter hbefore hreported
  omega

/-- A second collection finds nothing. -/
theorem Sound.collect_collect_fst (sound : heap.Sound roots) :
    ((heap.collect roots).2.collect roots).1 = 0 := by
  rw [collect_eq]
  refine List.length_eq_zero_iff.mpr (List.eq_nil_iff_forall_not_mem.mpr fun id hid => ?_)
  obtain ⟨halive, hnot⟩ := sound.collect.mem_garbage_counted.mp hid
  obtain ⟨frame, hframe⟩ := isAlive_iff.mp halive
  have hbefore := (sound.collect.frame_mem_remains hframe).1
  exact hnot (sound.reachable_collect_iff.mpr
    (sound.reachable_of_isAlive_collect (isAlive_iff.mpr ⟨frame, hbefore⟩)))

end Heap

end Scriptlet
