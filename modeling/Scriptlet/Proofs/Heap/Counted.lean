import Mathlib.Algebra.Order.BigOperators.Group.List
import Mathlib.Algebra.Order.Group.Nat
import Mathlib.Data.List.Perm.Subperm
import Scriptlet.Proofs.Heap.Exactness
import Scriptlet.Proofs.Heap.ObjectGraph

set_option autoImplicit false

/-!
# The count of stored handles

Component: the collector, of which this is the count that it goes by.  Specification: section 9 on
environments with shared ownership, and section 3 on what an object refers to.

How often a value stores a handle can be told from the value alone (`Value.timesStored`), and so it
can of a frame (`Frame.timesStored`).  The nodes that `ObjectGraph.build` makes say the same, for
whatever live frames and in whatever order their bindings are visited: each frame and each object
that a binding reaches has one node, and each handle that is stored is counted once
(`Heap.build_counts`).

Two graphs of the same frames are related here.  One is kept by visiting values in depth
(`Graph.visit`), and is what the theorems about collections speak of; the other is built from a list
of values that are still to be looked at (`ObjectGraph.build`), and its nodes are counted.  Their
nodes are the same, in some order (`Heap.Sound.perm_build`).

So the counts of a node are related to those of the world: the number of handles to it that are
stored in listed frames is at most the number of all there are (`Heap.Sound.count_handles_le`), and
it is the difference that says whether the node is held from outside.
-/

namespace Scriptlet

/-! ## Multiplicities -/

/-- How often a value stores a handle: as an element, as the name or the value of an entry, or as the
frame that it was made in. -/
def Value.timesStored (target : Handle) : Value → Nat
  | .array _ elements => elements.countP fun element => element.handle? == some target
  | .hash _ entries =>
    (entries.countP fun entry => entry.name.handle? == some target) +
      entries.countP fun entry => entry.value.handle? == some target
  | .function _ _ frame => if Handle.frame frame = target then 1 else 0
  | .null | .integer _ | .boolean _ | .string _ | .builtin _ => 0

/-- How often a frame stores a handle: as its outer frame, or as the value of a binding. -/
def Frame.timesStored (target : Handle) (frame : Frame) : Nat :=
  (if frame.outer.map Handle.frame = some target then 1 else 0) +
    frame.bindings.countP fun binding => binding.2.handle? == some target

/-- Values store a handle as often as it is that of one of them. -/
theorem count_storedHandles (values : List Value) (target : Handle) :
    (storedHandles values).count target =
      values.countP fun value => value.handle? == some target := by
  rw [storedHandles, List.count_filterMap]

/-- The parts of entries are counted by names and by values. -/
theorem countP_parts (entries : List Entry) (p : Value → Bool) :
    (Entry.parts entries).countP p =
      (entries.countP fun entry => p entry.name) + entries.countP fun entry => p entry.value := by
  induction entries with
  | nil => rfl
  | cons entry rest ih =>
    have hparts : Entry.parts (entry :: rest) = entry.name :: entry.value :: Entry.parts rest := rfl
    rw [hparts, List.countP_cons, List.countP_cons, List.countP_cons, List.countP_cons, ih]
    omega

/-- What a value stores, as a list, holds a handle as often as the value stores it. -/
theorem Value.count_stored (value : Value) (target : Handle) :
    value.stored.count target = value.timesStored target := by
  cases value with
  | array id elements => exact count_storedHandles elements target
  | hash id entries => exact (count_storedHandles _ target).trans (countP_parts entries _)
  | function id literal frame =>
    simp [stored, captured, contents, storedHandles, timesStored, List.count_singleton]
  | null | integer | boolean | string | builtin => rfl

/-- The same for a frame. -/
theorem Frame.count_handles (frame : Frame) (target : Handle) :
    frame.handles.count target = frame.timesStored target := by
  rw [handles, timesStored, List.count_append, count_storedHandles, List.countP_map]
  cases frame.outer with
  | none => rfl
  | some outer => simp [List.count_singleton, Function.comp_def]

/-- The order of the bindings does not matter. -/
theorem Frame.timesStored_eq_of_perm {frame other : Frame} (houter : frame.outer = other.outer)
    (hperm : frame.bindings.Perm other.bindings) (target : Handle) :
    frame.timesStored target = other.timesStored target := by
  rw [timesStored, timesStored, houter, hperm.countP_eq]

/-! ## What the frames reach -/

/-- Whether no two objects among the parts of some values share an identity. -/
def Coherent (values : List Value) : Prop :=
  ∀ left ∈ values, ∀ right ∈ values, ∀ part other object, left.Part part → right.Part other →
    part.object? = some object → other.object? = some object → part = other

namespace Graph

variable {frames : List (FrameId × Frame)} {graph other : Graph}

/-- The node of an object part of what is bound holds what that part stores. -/
theorem Charts.object_mem_of_key (h : Charts frames graph)
    (coherent : Coherent (boundValues frames)) {value part : Value}
    (hvalue : value ∈ boundValues frames) (inside : value.Part part) {object : ObjectId}
    (hobject : part.object? = some object) (hkey : .object object ∈ graph.keys) :
    (.object object, part.stored) ∈ graph.nodes := by
  obtain ⟨handles, hnode⟩ := mem_keys.mp hkey
  rcases h.drawn _ hnode with ⟨_, _, heq⟩ | ⟨value', hvalue', part', object', inside', hobject', heq⟩
  · cases heq
  · cases heq
    rwa [coherent value hvalue value' hvalue' part part' object inside inside' hobject hobject']

/-- Every object part of what is bound has a node. -/
theorem Charts.object_mem_keys (h : Charts frames graph) (coherent : Coherent (boundValues frames))
    {value part : Value} (hvalue : value ∈ boundValues frames) (inside : value.Part part)
    {object : ObjectId} (hobject : part.object? = some object) : .object object ∈ graph.keys := by
  refine inside.object_induction (motive := fun object => .object object ∈ graph.keys) ?_ ?_ hobject
  · intro object hobject
    obtain ⟨entry, hentry, hbound⟩ := List.mem_flatMap.mp hvalue
    obtain ⟨binding, hbinding, rfl⟩ := List.mem_map.mp hbound
    exact h.closed _ (h.frame_mem entry hentry) object
      (Frame.mem_handles.mpr (.inr ⟨binding, hbinding, object, hobject, rfl⟩))
  · intro whole id content object hwhole hid hkey hmember hobject
    exact h.closed _ (h.object_mem_of_key coherent hvalue hwhole hid hkey) object
      (Value.object_mem_stored.mpr ⟨content, hmember, hobject⟩)

/-- So the nodes are told by the frames alone. -/
theorem Charts.mem_nodes_iff (h : Charts frames graph) (coherent : Coherent (boundValues frames))
    {node : Handle × List Handle} :
    node ∈ graph.nodes ↔
      (∃ entry ∈ frames, node = (.frame entry.1, entry.2.handles)) ∨
        Drawn (boundValues frames) node := by
  refine ⟨h.drawn node, ?_⟩
  rintro (⟨entry, hentry, rfl⟩ | ⟨value, hvalue, part, object, inside, hobject, rfl⟩)
  · exact h.frame_mem entry hentry
  · exact h.object_mem_of_key coherent hvalue inside hobject
      (h.object_mem_keys coherent hvalue inside hobject)

/-- Graphs of the same frames have the same nodes, in some order. -/
theorem Charts.perm (h : Charts frames graph) (h' : Charts frames other)
    (coherent : Coherent (boundValues frames)) : graph.nodes.Perm other.nodes :=
  (List.perm_ext_iff_of_nodup h.keyed.nodup.of_map h'.keyed.nodup.of_map).mpr fun _ =>
    (h.mem_nodes_iff coherent).trans (h'.mem_nodes_iff coherent).symm

end Graph

namespace ObjectGraph

/-- The handles that nodes store, without counts. -/
def toGraph (graph : ObjectGraph) : Graph where
  nodes := graph.toList.map fun entry => (entry.1, entry.2.edges)
  entered := Std.HashSet.ofList graph.keys

variable {strong : Handle → Nat} {frames : List (FrameId × Frame)} {graph : ObjectGraph}

/-- A node has the same handles in both forms. -/
theorem mem_nodes_toGraph {node : Handle × List Handle} :
    node ∈ graph.toGraph.nodes ↔ ∃ found : Node, graph[node.1]? = some found ∧
      found.edges = node.2 := by
  simp only [toGraph, List.mem_map, Prod.exists, Std.HashMap.mem_toList_iff_getElem?_eq_some]
  constructor
  · rintro ⟨handle, found, hfound, rfl⟩
    exact ⟨found, hfound, rfl⟩
  · rintro ⟨found, hfound, hedges⟩
    exact ⟨node.1, found, hfound, Prod.ext rfl hedges⟩

/-- The same handles have nodes in both graphs. -/
theorem keys_toGraph (graph : ObjectGraph) : graph.toGraph.keys = graph.keys := by
  rw [Graph.keys, toGraph, List.map_map, ← Std.HashMap.map_fst_toList_eq_keys]
  rfl

/-- Each handle has one node. -/
theorem keyed_toGraph (graph : ObjectGraph) : graph.toGraph.Keyed where
  entered_iff := fun handle => by
    rw [keys_toGraph, toGraph, Std.HashSet.contains_ofList, List.contains_iff_mem]
  nodup := by
    rw [keys_toGraph]
    exact Std.HashMap.nodup_keys

/-- The same handles are stored in both graphs. -/
theorem handles_toGraph (graph : ObjectGraph) : graph.toGraph.handles = graph.handles := by
  rw [Graph.handles, toGraph, List.flatMap_map]
  rfl

/-- What has been gathered of some frames is a graph of them. -/
theorem Shows.charts (h : Shows strong frames graph) : Graph.Charts frames graph.toGraph where
  keyed := keyed_toGraph graph
  frame_mem := fun entry hentry => by
    obtain ⟨place, hplace⟩ := List.getElem?_of_mem hentry
    exact mem_nodes_toGraph.mpr ⟨_, h.frame place entry hplace, rfl⟩
  drawn := fun node hnode => by
    obtain ⟨found, hfound, hedges⟩ := mem_nodes_toGraph.mp hnode
    rcases h.drawn node.1 found hfound with ⟨entry, hentry, heq⟩ | ⟨hdrawn, _⟩
    · obtain ⟨place, hplace⟩ := List.getElem?_of_mem hentry
      have hhere := h.frame place entry hplace
      rw [← heq, hfound] at hhere
      refine .inl ⟨entry, hentry, Prod.ext heq ?_⟩
      rw [← hedges, Option.some.inj hhere]
    · rw [hedges] at hdrawn
      exact .inr hdrawn
  closed := fun node hnode object hobject => by
    obtain ⟨found, hfound, hedges⟩ := mem_nodes_toGraph.mp hnode
    rw [keys_toGraph, Std.HashMap.mem_keys]
    exact h.closed node.1 found hfound object (hedges ▸ hobject)

/-- The nodes that are built are those gathered, counted. -/
theorem Shows.build (h : Shows strong frames (gather strong frames)) {handle : Handle}
    {node : Node} (hnode : (build strong frames)[handle]? = some node) :
    ∃ found : Node, (gather strong frames)[handle]? = some found ∧
      node = ⟨strong handle, (gather strong frames).handles.count handle, found.edges,
        found.frame⟩ := by
  rw [getElem?_build] at hnode
  obtain ⟨found, hfound, rfl⟩ := Option.map_eq_some_iff.mp hnode
  refine ⟨found, hfound, ?_⟩
  rcases h.drawn handle found hfound with ⟨entry, hentry, heq⟩ | ⟨_, huncounted⟩
  · obtain ⟨place, hplace⟩ := List.getElem?_of_mem hentry
    have hhere := h.frame place entry hplace
    rw [← heq, hfound] at hhere
    cases hhere
    simp
  · rw [huncounted]
    simp

/-- Counting changes no node but for the count. -/
theorem perm_build (strong : Handle → Nat) (frames : List (FrameId × Frame)) :
    (build strong frames).toGraph.nodes.Perm (gather strong frames).toGraph.nodes := by
  refine (List.perm_ext_iff_of_nodup (keyed_toGraph _).nodup.of_map
    (keyed_toGraph _).nodup.of_map).mpr fun node => ?_
  rw [mem_nodes_toGraph, mem_nodes_toGraph, getElem?_build]
  cases (gather strong frames)[node.1]? <;> simp

end ObjectGraph

/-! ## Live frames -/

/-- Where each node has a counterpart that stores a handle as often, it is not stored more often in
all. -/
theorem count_flatMap_le {nodes others : List (Handle × List Handle)}
    (once : (nodes.map Prod.fst).Nodup) (target : Handle)
    (h : ∀ node ∈ nodes, ∃ other ∈ others, other.1 = node.1 ∧
      other.2.count target = node.2.count target) :
    (nodes.flatMap Prod.snd).count target ≤ (others.flatMap Prod.snd).count target := by
  let counted := fun node : Handle × List Handle => (node.1, node.2.count target)
  have hsum : ∀ list : List (Handle × List Handle), (list.flatMap Prod.snd).count target =
      ((list.map counted).map Prod.snd).sum := by
    intro list
    rw [List.count_flatMap, List.map_map]
    rfl
  have hnodup : (nodes.map counted).Nodup := by
    refine List.Nodup.of_map Prod.fst ?_
    rw [List.map_map]
    exact once
  have hsub : nodes.map counted ⊆ others.map counted := by
    intro entry hentry
    obtain ⟨node, hnode, rfl⟩ := List.mem_map.mp hentry
    obtain ⟨other, hother, hkey, hcount⟩ := h node hnode
    exact List.mem_map.mpr ⟨other, hother, Prod.ext hkey hcount⟩
  obtain ⟨list, hperm, hsublist⟩ := hnodup.subperm hsub
  rw [hsum, hsum, ← (hperm.map Prod.snd).sum_eq]
  exact (hsublist.map Prod.snd).sum_le_sum fun _ _ => Nat.zero_le _

namespace Heap

/-- Whether some frames are live frames of a heap, each of them once, with their bindings in any
order. -/
structure Lists (heap : Heap) (frames : List (FrameId × Frame)) : Prop where
  once : (frames.map Prod.fst).Nodup
  live : ∀ entry ∈ frames, ∃ frame, heap.frame? entry.1 = some frame ∧
    entry.2.outer = frame.outer ∧ entry.2.bindings.Perm frame.bindings

variable {heap : Heap} {roots : Roots} {frames : List (FrameId × Frame)}

/-- The live frames of a heap are such a list. -/
theorem Sound.lists_liveFrames (sound : heap.Sound roots) : heap.Lists heap.liveFrames where
  once := sound.nodup_liveFrames
  live := fun entry hentry => ⟨entry.2, (mem_liveFrames.mp hentry).2, rfl, .refl _⟩

/-- What they bind is carried. -/
theorem Lists.carries (lists : heap.Lists frames) {value : Value}
    (h : value ∈ Graph.boundValues frames) : heap.Carries roots value := by
  obtain ⟨entry, hentry, hbound⟩ := List.mem_flatMap.mp h
  obtain ⟨binding, hbinding, rfl⟩ := List.mem_map.mp hbound
  obtain ⟨frame, hframe, _, hperm⟩ := lists.live entry hentry
  exact .bound hframe (hperm.mem_iff.mp hbinding)

/-- In a sound heap, one identity among what they bind stands for one object. -/
theorem Sound.coherent_boundValues (sound : heap.Sound roots) (lists : heap.Lists frames) :
    Coherent (Graph.boundValues frames) :=
  fun left hleft right hright =>
    sound.coherent left right (lists.carries hleft) (lists.carries hright)

/-- No more handles are stored in the nodes of listed frames than there are. -/
theorem Sound.count_handles_le (sound : heap.Sound roots) (lists : heap.Lists frames)
    (target : Handle) :
    (Graph.ofFrames frames).handles.count target ≤ heap.strongCount roots target := by
  have hcharts := Graph.charts_ofFrames lists.once
  have hworld : (Graph.ofFrames frames).handles.count target ≤
      (heap.world roots).handles.count target := by
    refine count_flatMap_le hcharts.keyed.nodup target fun node hnode => ?_
    rcases hcharts.drawn node hnode with
      ⟨entry, hentry, rfl⟩ | ⟨value, hvalue, part, object, inside, hobject, rfl⟩
    · obtain ⟨frame, hframe, houter, hperm⟩ := lists.live entry hentry
      refine ⟨_, sound.frame_mem_world hframe, rfl, ?_⟩
      rw [Frame.count_handles, Frame.count_handles, Frame.timesStored_eq_of_perm houter hperm]
    · exact ⟨_, sound.object_mem_world (lists.carries hvalue) inside hobject, rfl, rfl⟩
  rw [strongCount, List.count_append]
  omega

/-- The node of a frame tells its place in the list, and what the frame stores. -/
theorem Lists.exists_node_frame (lists : heap.Lists frames) (strong : Handle → Nat) {place : Nat}
    {entry : FrameId × Frame} (h : frames[place]? = some entry) :
    ∃ node frame, (ObjectGraph.build strong frames)[Handle.frame entry.1]? = some node ∧
      node.frame = some place ∧ heap.frame? entry.1 = some frame ∧
      ∀ target, node.edges.count target = frame.timesStored target := by
  obtain ⟨frame, hframe, houter, hperm⟩ := lists.live entry (List.mem_of_getElem? h)
  have hnode := ObjectGraph.getElem?_build strong frames (.frame entry.1)
  rw [(ObjectGraph.shows_gather lists.once).frame place entry h] at hnode
  refine ⟨_, frame, hnode, rfl, hframe, fun target => ?_⟩
  rw [Frame.count_handles, Frame.timesStored_eq_of_perm houter hperm]

/-- The counts of a node. -/
theorem Lists.counts_of_node (lists : heap.Lists frames) (strong : Handle → Nat) {handle : Handle}
    {node : Node} (h : (ObjectGraph.build strong frames)[handle]? = some node) :
    node.strong = strong handle ∧
      node.internal = (ObjectGraph.build strong frames).handles.count handle := by
  obtain ⟨found, _, rfl⟩ := (ObjectGraph.shows_gather lists.once).build h
  refine ⟨rfl, ?_⟩
  rw [← ObjectGraph.handles_toGraph, ← ObjectGraph.handles_toGraph]
  exact ((ObjectGraph.perm_build strong frames).flatMap_right _).count_eq handle |>.symm

section

variable (sound : heap.Sound roots) (lists : heap.Lists frames) (strong : Handle → Nat)

include sound lists

/-- The nodes that are built are those of the graph that collections follow. -/
theorem Sound.perm_build :
    (ObjectGraph.build strong frames).toGraph.nodes.Perm (Graph.ofFrames frames).nodes :=
  (ObjectGraph.perm_build strong frames).trans
    ((ObjectGraph.shows_gather lists.once).charts.perm (Graph.charts_ofFrames lists.once)
      (sound.coherent_boundValues lists))

/-- So each handle is stored as often in both graphs. -/
theorem Sound.count_build (handle : Handle) :
    (ObjectGraph.build strong frames).handles.count handle =
      (Graph.ofFrames frames).handles.count handle := by
  rw [← ObjectGraph.handles_toGraph]
  exact ((sound.perm_build lists strong).flatMap_right _).count_eq handle

/-- There is a node with some handles just if they are stored by a listed frame, or by an object part
of what such a frame binds. -/
theorem Sound.exists_node_iff {handle : Handle} {handles : List Handle} :
    (∃ node : Node, (ObjectGraph.build strong frames)[handle]? = some node ∧
      node.edges = handles) ↔
      (∃ entry ∈ frames, handle = .frame entry.1 ∧ handles = entry.2.handles) ∨
        ∃ entry ∈ frames, ∃ binding ∈ entry.2.bindings, ∃ part object, binding.2.Part part ∧
          part.object? = some object ∧ handle = .object object ∧ handles = part.stored := by
  have hcharts := Graph.charts_ofFrames lists.once
  have hnodes : (handle, handles) ∈ (ObjectGraph.build strong frames).toGraph.nodes ↔ _ :=
    (sound.perm_build lists strong).mem_iff.trans
      (hcharts.mem_nodes_iff (sound.coherent_boundValues lists))
  refine (ObjectGraph.mem_nodes_toGraph.symm.trans hnodes).trans ?_
  simp only [Prod.mk.injEq, Graph.Drawn, Graph.boundValues, List.mem_flatMap, List.mem_map]
  refine or_congr_right ⟨?_, ?_⟩
  · rintro ⟨_, ⟨entry, hentry, binding, hbinding, rfl⟩, part⟩
    exact ⟨entry, hentry, binding, hbinding, part⟩
  · rintro ⟨entry, hentry, binding, hbinding, part⟩
    exact ⟨binding.2, ⟨entry, hentry, binding, hbinding, rfl⟩, part⟩

/-- The node of an object has no place, and tells what the object stores. -/
theorem Sound.exists_node_object {entry : FrameId × Frame} (hentry : entry ∈ frames)
    {binding : String × Value} (hbinding : binding ∈ entry.2.bindings) {part : Value}
    (inside : binding.2.Part part) {object : ObjectId} (hobject : part.object? = some object) :
    ∃ node, (ObjectGraph.build strong frames)[Handle.object object]? = some node ∧
      node.frame = none ∧ ∀ target, node.edges.count target = part.timesStored target := by
  have hshows : ObjectGraph.Shows strong frames _ := ObjectGraph.shows_gather lists.once
  obtain ⟨node, hnode, hedges⟩ := (sound.exists_node_iff lists strong).mpr
    (.inr ⟨entry, hentry, binding, hbinding, part, object, inside, hobject, rfl, rfl⟩)
  obtain ⟨found, hfound, rfl⟩ := hshows.build hnode
  rcases hshows.drawn _ _ hfound with ⟨_, _, heq⟩ | ⟨_, huncounted⟩
  · cases heq
  · refine ⟨_, hnode, congrArg Node.frame huncounted, fun target => ?_⟩
    rw [hedges, Value.count_stored]

/-- The frames and the objects that their bindings reach have nodes, and nothing else has. -/
theorem Sound.mem_build_iff {handle : Handle} :
    handle ∈ ObjectGraph.build strong frames ↔
      (∃ entry ∈ frames, handle = .frame entry.1) ∨
        ∃ entry ∈ frames, ∃ binding ∈ entry.2.bindings, ∃ part object, binding.2.Part part ∧
          part.object? = some object ∧ handle = .object object := by
  constructor
  · intro hmem
    obtain ⟨node, hnode⟩ := ObjectGraph.mem_iff.mp hmem
    rcases (sound.exists_node_iff lists strong).mp ⟨node, hnode, rfl⟩ with
      ⟨entry, hentry, heq, _⟩ |
        ⟨entry, hentry, binding, hbinding, part, object, inside, hobject, heq, _⟩
    · exact .inl ⟨entry, hentry, heq⟩
    · exact .inr ⟨entry, hentry, binding, hbinding, part, object, inside, hobject, heq⟩
  · rintro (⟨entry, hentry, rfl⟩ |
      ⟨entry, hentry, binding, hbinding, part, object, inside, hobject, rfl⟩)
    · obtain ⟨node, hnode, _⟩ := (sound.exists_node_iff lists strong).mpr
        (.inl ⟨entry, hentry, rfl, rfl⟩)
      exact ObjectGraph.mem_iff.mpr ⟨node, hnode⟩
    · obtain ⟨node, hnode, _⟩ := (sound.exists_node_iff lists strong).mpr
        (.inr ⟨entry, hentry, binding, hbinding, part, object, inside, hobject, rfl, rfl⟩)
      exact ObjectGraph.mem_iff.mpr ⟨node, hnode⟩

end

/-- Every stored handle is counted once, for whatever live frames, and in whatever order they and
their bindings are visited.  The frames and the objects that their bindings reach through arrays and
hashes have nodes, and nothing else has.  The node of a frame or an object has each handle as often
as the frame or the object stores it.  So the internal count of a node is the number of handles to it
that are stored in nodes, and there are never fewer handles to it in all.

These are the nodes of the graph that collections follow, in some order. -/
theorem build_counts (sound : heap.Sound roots) (lists : heap.Lists frames) :
    let graph := ObjectGraph.build (heap.strongCount roots) frames
    (∀ handle, handle ∈ graph ↔ (∃ entry ∈ frames, handle = .frame entry.1) ∨
      ∃ entry ∈ frames, ∃ binding ∈ entry.2.bindings, ∃ part object, binding.2.Part part ∧
        part.object? = some object ∧ handle = .object object) ∧
    (∀ (place : Nat) (entry : FrameId × Frame), frames[place]? = some entry →
      ∃ node frame, graph[Handle.frame entry.1]? = some node ∧ node.frame = some place ∧
        heap.frame? entry.1 = some frame ∧
        ∀ target, node.edges.count target = frame.timesStored target) ∧
    (∀ entry ∈ frames, ∀ binding ∈ entry.2.bindings, ∀ part object, binding.2.Part part →
      part.object? = some object →
      ∃ node, graph[Handle.object object]? = some node ∧ node.frame = none ∧
        ∀ target, node.edges.count target = part.timesStored target) ∧
    (∀ (handle : Handle) (node : Node), graph[handle]? = some node →
      node.strong = heap.strongCount roots handle ∧
        node.internal = graph.handles.count handle ∧ node.internal ≤ node.strong) ∧
    graph.toGraph.nodes.Perm (Graph.ofFrames frames).nodes := by
  refine ⟨fun _ => sound.mem_build_iff lists _, fun _ _ h => lists.exists_node_frame _ h,
    fun _ hentry _ hbinding _ _ inside hobject =>
      sound.exists_node_object lists _ hentry hbinding inside hobject,
    fun handle node hnode => ?_, sound.perm_build lists _⟩
  obtain ⟨hstrong, hinternal⟩ := lists.counts_of_node _ hnode
  refine ⟨hstrong, hinternal, ?_⟩
  rw [hstrong, hinternal, sound.count_build lists]
  exact sound.count_handles_le lists handle

/-- No object with the identity of the loose array is a part of the knot. -/
theorem object?_ne_of_part_knot {part : Value} (h : knot.Part part) : part.object? ≠ some ⟨4⟩ := by
  cases h with
  | self => decide
  | content member inside =>
    have hhollow : ∀ object frame, object ≠ 4 → (hollow object frame).Part part →
        part.object? ≠ some ⟨4⟩ := by
      intro object frame hne hpart
      rw [hpart.eq_of_contents_nil rfl]
      simpa [hollow, Value.object?] using hne
    rcases List.mem_cons.mp member with rfl | member
    · exact hhollow 0 1 (by decide) inside
    · rcases List.mem_cons.mp member with rfl | member
      · exact hhollow 1 2 (by decide) inside
      · rw [List.mem_singleton.mp member] at inside
        exact hhollow 0 1 (by decide) inside

/-- In the tangle, which is listed from its last frame, the array that two frames bind has one node.
It has the function that the array holds twice two times.  The array that only the outside holds has
no node, but the handle that it stores is one of those to the function in it. -/
theorem build_counts_tangle :
    let graph := ObjectGraph.build (tangle.strongCount looseEnds) tangle.liveFrames.reverse
    (∃ node, graph[Handle.object ⟨2⟩]? = some node ∧ node.edges.count (.object ⟨0⟩) = 2 ∧
      node.edges.count (.object ⟨1⟩) = 1 ∧ node.internal ≤ node.strong) ∧
    (∃ node, graph[Handle.frame ⟨3⟩]? = some node ∧ node.frame = some 0 ∧
      node.edges.count (.object ⟨3⟩) = 1 ∧ node.edges.count (.frame ⟨0⟩) = 1) ∧
    Handle.object ⟨4⟩ ∉ graph := by
  have hsound := wellFormed_tangle.toSound
  have hlists : tangle.Lists tangle.liveFrames.reverse :=
    ⟨by decide, fun entry hentry =>
      hsound.lists_liveFrames.live entry (List.mem_reverse.mp hentry)⟩
  have hframes : tangle.liveFrames.reverse =
      [(⟨3⟩, ⟨[("self", hollow 3 3)], some ⟨0⟩⟩), (⟨2⟩, ⟨[("knot", knot)], some ⟨1⟩⟩),
        (⟨1⟩, ⟨[("knot", knot)], some ⟨0⟩⟩), (⟨0⟩, ⟨[], none⟩)] := rfl
  obtain ⟨hmem, hframe, hobject, hcounts, _⟩ := build_counts hsound hlists
  rw [hframes] at hmem hframe hobject hcounts ⊢
  refine ⟨?_, ?_, ?_⟩
  · obtain ⟨node, hnode, _, hedges⟩ := hobject (⟨2⟩, ⟨[("knot", knot)], some ⟨1⟩⟩) (by simp)
      ("knot", knot) (by simp) knot ⟨2⟩ (.self knot) rfl
    exact ⟨node, hnode, hedges _, hedges _, (hcounts _ node hnode).2.2⟩
  · obtain ⟨node, frame, hnode, hplace, hfound, hedges⟩ := hframe 0 _ rfl
    cases hfound
    exact ⟨node, hnode, hplace, hedges _, hedges _⟩
  · rw [hmem]
    rintro (⟨_, _, heq⟩ | ⟨entry, hentry, binding, hbinding, part, object, inside, hobject, heq⟩)
    · cases heq
    · cases heq
      simp only [List.mem_cons, List.not_mem_nil, or_false] at hentry
      rcases hentry with rfl | rfl | rfl | rfl
      · rw [List.mem_singleton.mp hbinding] at inside
        rw [inside.eq_of_contents_nil rfl] at hobject
        cases hobject
      · rw [List.mem_singleton.mp hbinding] at inside
        exact object?_ne_of_part_knot inside hobject
      · rw [List.mem_singleton.mp hbinding] at inside
        exact object?_ne_of_part_knot inside hobject
      · exact absurd hbinding List.not_mem_nil

end Heap

end Scriptlet
