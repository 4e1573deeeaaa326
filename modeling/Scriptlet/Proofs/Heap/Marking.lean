import Mathlib.Data.List.Count
import Scriptlet.Proofs.Heap.Reach

set_option autoImplicit false

/-!
# Marking

Component: the collector, which marks what is held.  Specification: section 9 on environments with
shared ownership.

The collector marks what is held from outside, and then, from a waiting list, what marked nodes
store.  A handle is marked when it is put on the list, so none waits twice, and the number of
handles bounds the steps.  When the list is empty the marks are closed under stored handles: they
are exactly what can be followed from the sources (`Graph.contains_reachable`).

The sources are guessed from counts.  The graph of the frames counts what it stores, the world
counts what there is in all; the difference is what the roots hold and what objects store that
only the outside holds (`Graph.mem_heldFromOutside`).  Marking from there marks the frames that
can be followed from the roots (`Heap.Sound.contains_reachable_iff`).

No handle is marked that does not wait first, and none is taken from the list without looking at
what it stores.  So there is one invariant (`Waits`): what a marked handle stores is marked, too,
unless that handle still waits.  When none waits, the marks are the least that hold the sources and
are closed (`LeastMarks`).
-/

namespace Scriptlet

/-! ## The waiting list -/

/-- The number of places in a list whose handle is not marked. -/
def unmarked (handles : List Handle) (marked : Std.HashSet Handle) : Nat :=
  handles.countP fun handle => !marked.contains handle

/-- To mark a handle that was not marked leaves fewer to mark. -/
theorem unmarked_insert_lt {handles : List Handle} {marked : Std.HashSet Handle} {handle : Handle}
    (hmem : handle ∈ handles) (hnew : marked.contains handle = false) :
    unmarked handles (marked.insert handle) < unmarked handles marked := by
  unfold unmarked
  induction handles with
  | nil => exact absurd hmem List.not_mem_nil
  | cons first rest ih =>
    have hle : rest.countP (fun other => !(marked.insert handle).contains other) ≤
        rest.countP fun other => !marked.contains other := by
      apply List.countP_mono_left
      intro other _ hother
      simp_all
    rw [List.countP_cons, List.countP_cons]
    by_cases hfirst : first = handle
    · subst hfirst
      rw [hnew, Std.HashSet.contains_insert_self]
      simp only [Bool.not_true, Bool.not_false, if_true, Bool.false_eq_true, if_false]
      omega
    · have hrest := ih ((List.mem_cons.mp hmem).resolve_left (Ne.symm hfirst))
      have hsame : (marked.insert handle).contains first = marked.contains first := by
        simp [Std.HashSet.contains_insert, Ne.symm hfirst]
      rw [hsame]
      omega

/-- What is marked then was marked before or is one of the new ones. -/
theorem contains_markNew {handle : Handle} (handles : List Handle) :
    ∀ (marked : Std.HashSet Handle) (waiting : List Handle),
      (markNew marked waiting handles).1.contains handle = true ↔
        marked.contains handle = true ∨ handle ∈ handles := by
  induction handles with
  | nil =>
    intro marked waiting
    simp [markNew]
  | cons first rest ih =>
    intro marked waiting
    rw [markNew]
    split
    next hmarked =>
      rw [ih, List.mem_cons]
      grind
    next =>
      rw [ih, Std.HashSet.contains_insert, Bool.or_eq_true, beq_iff_eq, List.mem_cons]
      grind

/-- What waits then waited before or is one of the new ones, and was not marked. -/
theorem mem_markNew {handle : Handle} (handles : List Handle) :
    ∀ (marked : Std.HashSet Handle) (waiting : List Handle),
      handle ∈ (markNew marked waiting handles).2 ↔
        handle ∈ waiting ∨ (handle ∈ handles ∧ marked.contains handle = false) := by
  induction handles with
  | nil =>
    intro marked waiting
    simp [markNew]
  | cons first rest ih =>
    intro marked waiting
    rw [markNew]
    split
    next hmarked =>
      rw [ih, List.mem_cons]
      grind
    next hnew =>
      rw [ih, Std.HashSet.contains_insert, List.mem_cons, List.mem_cons]
      grind

/-- What starts to wait is marked, so marking does not lengthen what is left to do. -/
theorem markNew_bound {all handles : List Handle} (hsub : ∀ handle ∈ handles, handle ∈ all) :
    ∀ (marked : Std.HashSet Handle) (waiting : List Handle),
      (markNew marked waiting handles).2.length + unmarked all (markNew marked waiting handles).1 ≤
        waiting.length + unmarked all marked := by
  induction handles with
  | nil =>
    intro marked waiting
    exact Nat.le_refl _
  | cons first rest ih =>
    intro marked waiting
    have hrest := ih fun handle h => hsub handle (List.mem_cons_of_mem _ h)
    rw [markNew]
    by_cases hmarked : marked.contains first = true
    · simp only [hmarked, if_true]
      exact hrest marked waiting
    · simp only [hmarked, if_false, Bool.false_eq_true]
      have hlt := unmarked_insert_lt (hsub first List.mem_cons_self) (Bool.eq_false_iff.mpr hmarked)
      have hle := hrest (marked.insert first) (first :: waiting)
      rw [List.length_cons] at hle
      omega

/-- Whether marking is under way: what waits is marked, and what a marked handle stores is marked,
unless that handle still waits. -/
structure Waits (stored : Std.HashMap Handle (List Handle)) (marked : Std.HashSet Handle)
    (waiting : List Handle) : Prop where
  isMarked : ∀ handle ∈ waiting, marked.contains handle = true
  done : ∀ handle, marked.contains handle = true → handle ∉ waiting →
    ∀ other ∈ stored.getD handle [], marked.contains other = true

/-- A handle is taken off the list, and what it stores is marked and waits. -/
theorem Waits.step {stored : Std.HashMap Handle (List Handle)} {marked : Std.HashSet Handle}
    {first : Handle} {waiting : List Handle} (h : Waits stored marked (first :: waiting)) :
    Waits stored (markNew marked waiting (stored.getD first [])).1
      (markNew marked waiting (stored.getD first [])).2 where
  isMarked := by
    intro handle hmem
    rw [contains_markNew]
    rcases (mem_markNew ..).mp hmem with hbefore | ⟨hstored, _⟩
    · exact .inl (h.isMarked handle (List.mem_cons_of_mem first hbefore))
    · exact .inr hstored
  done := by
    intro handle hmarked hnot other hother
    rw [contains_markNew] at hmarked ⊢
    rw [mem_markNew] at hnot
    by_cases hfirst : handle = first
    · exact .inr (hfirst ▸ hother)
    · -- what does not wait now, and is not the first, was marked before and did not wait then
      have hbefore : marked.contains handle = true := by grind
      have hnotBefore : handle ∉ first :: waiting := by grind
      exact .inl (h.done handle hbefore hnotBefore other hother)

/-- Whether marks are the least that hold others and are closed under stored handles. -/
structure LeastMarks (stored : Std.HashMap Handle (List Handle))
    (marked result : Std.HashSet Handle) : Prop where
  keeps : ∀ handle, marked.contains handle = true → result.contains handle = true
  closed : ∀ handle, result.contains handle = true →
    ∀ other ∈ stored.getD handle [], result.contains other = true
  least : ∀ closed : Handle → Prop, (∀ handle, marked.contains handle = true → closed handle) →
    (∀ handle, closed handle → ∀ other ∈ stored.getD handle [], closed other) →
    ∀ handle, result.contains handle = true → closed handle

/-- Where none waits, the marks are closed already. -/
theorem Waits.leastMarks {stored : Std.HashMap Handle (List Handle)}
    {marked : Std.HashSet Handle} (h : Waits stored marked []) :
    LeastMarks stored marked marked where
  keeps := fun _ hmarked => hmarked
  closed := fun handle hmarked => h.done handle hmarked List.not_mem_nil
  least := fun _ hstart _ => hstart

/-- What a marked handle stores may be marked first. -/
theorem LeastMarks.of_markNew {stored : Std.HashMap Handle (List Handle)}
    {marked result : Std.HashSet Handle} {first : Handle} {waiting : List Handle}
    (h : LeastMarks stored (markNew marked waiting (stored.getD first [])).1 result)
    (hfirst : marked.contains first = true) : LeastMarks stored marked result where
  keeps := fun handle hmarked => h.keeps handle ((contains_markNew ..).mpr (.inl hmarked))
  closed := h.closed
  least := by
    intro closed hstart hstep
    refine h.least closed (fun handle hmarked => ?_) hstep
    rcases (contains_markNew ..).mp hmarked with hbefore | hstored
    · exact hstart handle hbefore
    · exact hstep first (hstart first hfirst) handle hstored

/-- With enough steps, marking ends in the least marks that hold those it started from and are
closed under stored handles. -/
theorem leastMarks_markFrom {stored : Std.HashMap Handle (List Handle)} {all : List Handle}
    (hall : ∀ handle, ∀ other ∈ stored.getD handle [], other ∈ all) (steps : Nat)
    {marked : Std.HashSet Handle} {waiting : List Handle}
    (hbound : waiting.length + unmarked all marked ≤ steps)
    (h : Waits stored marked waiting) :
    LeastMarks stored marked (markFrom stored steps marked waiting) := by
  induction steps generalizing marked waiting with
  | zero =>
    obtain rfl : waiting = [] := List.length_eq_zero_iff.mp (by omega)
    exact h.leastMarks
  | succ steps ih =>
    cases waiting with
    | nil => exact h.leastMarks
    | cons first waiting =>
      have hnew := markNew_bound (hall first) marked waiting
      rw [List.length_cons] at hbound
      exact (ih (by omega) h.step).of_markNew (h.isMarked first List.mem_cons_self)

namespace Graph

/-- The handles that a node stores are found under its own. -/
theorem Keyed.getD_nodes {graph : Graph} (h : graph.Keyed) {handle : Handle}
    {handles : List Handle} (hmem : (handle, handles) ∈ graph.nodes) :
    (Std.HashMap.ofList graph.nodes).getD handle [] = handles := by
  refine Std.HashMap.getD_ofList_of_mem (beq_self_eq_true handle) ?_ hmem
  exact (List.pairwise_map.mp h.nodup).imp fun hne => beq_eq_false_iff_ne.mpr hne

/-- What is found is stored in a node. -/
theorem mem_nodes_of_mem_getD {graph : Graph} (h : graph.Keyed) {handle other : Handle}
    (hmem : other ∈ (Std.HashMap.ofList graph.nodes).getD handle []) :
    ∃ handles, (handle, handles) ∈ graph.nodes ∧ other ∈ handles := by
  by_cases hkey : handle ∈ graph.keys
  · obtain ⟨handles, hnode⟩ := mem_keys.mp hkey
    rw [h.getD_nodes hnode] at hmem
    exact ⟨handles, hnode, hmem⟩
  · rw [Std.HashMap.getD_ofList_of_contains_eq_false] at hmem
    · exact absurd hmem List.not_mem_nil
    · simpa [keys] using hkey

/-- The marks are what can be followed from the sources. -/
theorem contains_reachable {graph : Graph} (h : graph.Keyed) (sources : List Handle)
    (handle : Handle) :
    (graph.reachable sources).contains handle = true ↔ Linked graph.nodes sources handle := by
  have hall : ∀ handle, ∀ other ∈ (Std.HashMap.ofList graph.nodes).getD handle [],
      other ∈ sources ++ graph.handles := by
    intro handle other hother
    obtain ⟨handles, hnode, hmem⟩ := mem_nodes_of_mem_getD h hother
    exact List.mem_append.mpr (.inr (List.mem_flatMap.mpr ⟨_, hnode, hmem⟩))
  have hmarked (handle : Handle) :
      (markNew ∅ [] sources).1.contains handle = true ↔ handle ∈ sources := by
    simpa using contains_markNew sources ∅ []
  have hwaits : Waits (Std.HashMap.ofList graph.nodes) (markNew ∅ [] sources).1
      (markNew ∅ [] sources).2 := by
    have hwaiting (handle : Handle) : handle ∈ (markNew ∅ [] sources).2 ↔ handle ∈ sources := by
      simpa using mem_markNew sources ∅ []
    exact ⟨fun handle hmem => (hmarked handle).mpr ((hwaiting handle).mp hmem),
      fun handle hmem hnot => absurd ((hwaiting handle).mpr ((hmarked handle).mp hmem)) hnot⟩
  have hsteps : (markNew ∅ [] sources).2.length +
      unmarked (sources ++ graph.handles) (markNew ∅ [] sources).1 ≤
        sources.length + graph.handles.length := by
    have hbound := markNew_bound (List.subset_append_left sources graph.handles) ∅ []
    have hle : unmarked (sources ++ graph.handles) ∅ ≤ (sources ++ graph.handles).length :=
      List.countP_le_length
    rw [List.length_append] at hle
    rw [List.length_nil] at hbound
    omega
  have hreached := leastMarks_markFrom hall _ hsteps hwaits
  constructor
  · refine hreached.least _ (fun handle hmem => .source ((hmarked handle).mp hmem)) ?_ handle
    intro handle hlinked other hother
    obtain ⟨handles, hnode, hmem⟩ := mem_nodes_of_mem_getD h hother
    exact .follow hlinked hnode hmem
  · intro hlinked
    induction hlinked with
    | source hmem => exact hreached.keeps _ ((hmarked _).mpr hmem)
    | follow _ here hmem ih =>
      refine hreached.closed _ ih _ ?_
      rwa [h.getD_nodes here]

/-- What is held from outside: the nodes whose handle is counted more often in all than the graph
stores it. -/
theorem mem_heldFromOutside {graph : Graph} {all : List Handle} {handle : Handle} :
    handle ∈ graph.heldFromOutside all ↔
      handle ∈ graph.keys ∧ graph.handles.count handle < all.count handle := by
  simp only [heldFromOutside, List.mem_filter, getD_tally, decide_eq_true_eq, keys]

end Graph

/-! ## From the roots -/

namespace Heap

variable {heap : Heap} {roots : Roots}

/-- A node of the world that the graph of the frames has not belongs to an object that can be
followed from the roots. -/
theorem Sound.linked_of_notMem_graph (sound : heap.Sound roots) {node : Handle × List Handle}
    (hnode : node ∈ (heap.world roots).nodes) (hnew : node ∉ heap.graph.nodes) :
    Linked (heap.world roots).nodes roots.handles node.1 := by
  rcases sound.grows.drawn node hnode with h | ⟨value, hvalue, part, object, hpart, hobject, rfl⟩
  · exact absurd h hnew
  · refine sound.linked_part (.held hvalue) (fun id hid => .source ?_) hpart hobject
    exact List.mem_append.mpr (.inr (mem_storedHandles.mpr ⟨value, hvalue, id, hid, rfl⟩))

/-- A node is held from outside if a root or an object outside the graph refers to it. -/
theorem Sound.mem_heldFromOutside_iff (sound : heap.Sound roots) {handle : Handle} :
    handle ∈ heap.graph.heldFromOutside ((heap.world roots).handles ++ roots.handles) ↔
      handle ∈ heap.graph.keys ∧ (handle ∈ roots.handles ∨
        ∃ node ∈ (heap.world roots).nodes, node ∉ heap.graph.nodes ∧ handle ∈ node.2) := by
  obtain ⟨extra, hextra⟩ := sound.grows.suffix
  have hdisjoint : ∀ node ∈ extra, node ∉ heap.graph.nodes := by
    intro node hnode hgraph
    have hnodup := sound.keyed_world.nodup
    rw [Graph.keys, ← hextra, List.map_append, List.nodup_append] at hnodup
    exact hnodup.2.2 _ (List.mem_map_of_mem hnode) _ (List.mem_map_of_mem hgraph) rfl
  have hcount : ((heap.world roots).handles ++ roots.handles).count handle =
      (extra.flatMap Prod.snd).count handle + heap.graph.handles.count handle +
        roots.handles.count handle := by
    rw [Graph.handles, ← hextra, List.flatMap_append, List.count_append, List.count_append,
      Graph.handles]
  rw [Graph.mem_heldFromOutside, hcount]
  refine and_congr_right fun _ => ?_
  constructor
  · intro hlt
    by_cases hroot : handle ∈ roots.handles
    · exact .inl hroot
    · have hpos : 0 < (extra.flatMap Prod.snd).count handle := by
        rw [List.count_eq_zero.mpr hroot] at hlt
        omega
      obtain ⟨node, hnode, hmem⟩ := List.mem_flatMap.mp (List.count_pos_iff.mp hpos)
      exact .inr ⟨node, by rw [← hextra]; exact List.mem_append.mpr (.inl hnode),
        hdisjoint node hnode, hmem⟩
  · rintro (hroot | ⟨node, hnode, hnew, hmem⟩)
    · have hpos := List.count_pos_iff.mpr hroot
      omega
    · have hnodeExtra : node ∈ extra := by
        rw [← hextra] at hnode
        exact (List.mem_append.mp hnode).resolve_right hnew
      have hpos := List.count_pos_iff.mpr (List.mem_flatMap.mpr ⟨node, hnodeExtra, hmem⟩)
      omega

/-- Marking in the graph of the frames from what counts show to be held from outside marks what
can be followed from the roots in the world. -/
theorem Sound.contains_reachable_iff (sound : heap.Sound roots) {handle : Handle}
    (hkey : handle ∈ heap.graph.keys) :
    (heap.graph.reachable
      (heap.graph.heldFromOutside ((heap.world roots).handles ++ roots.handles))).contains handle =
        true ↔ Linked (heap.world roots).nodes roots.handles handle := by
  rw [Graph.contains_reachable sound.charts.keyed]
  constructor
  · intro h
    clear hkey
    induction h with
    | source h =>
      rcases (sound.mem_heldFromOutside_iff.mp h).2 with hroot | ⟨node, hnode, hnew, hmem⟩
      · exact .source hroot
      · exact .follow (sound.linked_of_notMem_graph hnode hnew) hnode hmem
    | follow _ here h ih => exact .follow ih (sound.grows.suffix.subset here) h
  · intro h
    induction h with
    | source h => exact .source (sound.mem_heldFromOutside_iff.mpr ⟨hkey, .inl h⟩)
    | @follow handle other handles _ here h ih =>
      by_cases hgraph : (handle, handles) ∈ heap.graph.nodes
      · exact .follow (ih (Graph.mem_keys.mpr ⟨handles, hgraph⟩)) hgraph h
      · exact .source (sound.mem_heldFromOutside_iff.mpr
          ⟨hkey, .inr ⟨_, here, hgraph, h⟩⟩)

/-- The garbage is what is alive and cannot be reached. -/
theorem Sound.mem_garbage (sound : heap.Sound roots) {id : FrameId} :
    id ∈ heap.garbage roots ↔ heap.isAlive id = true ∧ ¬ heap.Reachable roots id := by
  have halive : id ∈ heap.liveFrames.map Prod.fst ↔ heap.isAlive id = true := by
    rw [map_fst_liveFrames, List.mem_filter]
    exact ⟨fun h => h.2, fun h => ⟨sound.registered id h, h⟩⟩
  rw [garbage, List.mem_filter, halive]
  refine and_congr_right fun h => ?_
  obtain ⟨frame, hframe⟩ := isAlive_iff.mp h
  have hkey : Handle.frame id ∈ heap.graph.keys :=
    Graph.mem_keys.mpr ⟨_, sound.charts.frame_mem (id, frame) (sound.mem_liveFrames_iff.mpr hframe)⟩
  rw [Bool.not_eq_true', ← Bool.not_eq_true, sound.contains_reachable_iff hkey,
    sound.linked_iff_reachable]

end Heap

end Scriptlet
