import Mathlib.Data.List.Nodup
import Scriptlet.Proofs.Heap.Contents

set_option autoImplicit false

/-!
# What a graph holds

Component: the collector, which takes a picture of the frames and their objects first.
Specification: section 3 on values that contain values, which several others may share.

`Graph.visit` enters an object before it looks at its contents, and turns back at objects that are
already there.  Whatever the order of the visits, the outcome is the same up to the order of the
nodes: every node is a frame or an object part of a value that was visited, with exactly the
handles that the frame or the object stores, and with an object also those it refers to have nodes
(`Graph.Grows` for one visit, `Graph.Charts` for the frames of a graph).

That an object is entered before its contents is what makes the visit of a value with itself among
its parts come to an end.  Values here are finite, and yet it matters: an object that is met twice,
as a part of two values, has one node.
-/

namespace Scriptlet

namespace Graph

/-! ## Keys -/

/-- The handles that have a node. -/
def keys (graph : Graph) : List Handle := graph.nodes.map Prod.fst

/-- Whether the entered handles are those with a node, and no handle has two. -/
structure Keyed (graph : Graph) : Prop where
  entered_iff : ∀ handle, graph.entered.contains handle = true ↔ handle ∈ graph.keys
  nodup : graph.keys.Nodup

/-- Nothing has been entered at first. -/
theorem keyed_empty : empty.Keyed :=
  ⟨fun handle => by simp [empty, keys], by simp [empty, keys]⟩

/-- A new handle may be entered. -/
theorem keyed_enter {graph : Graph} {node : Handle} (h : graph.Keyed) (new : node ∉ graph.keys)
    (handles : List Handle) : (graph.enter node handles).Keyed := by
  constructor
  · intro handle
    have hold := h.entered_iff handle
    simp only [enter, keys, List.map_cons, List.mem_cons, Std.HashSet.contains_insert,
      Bool.or_eq_true, beq_iff_eq] at hold ⊢
    rw [hold, eq_comm]
  · exact List.nodup_cons.mpr ⟨new, h.nodup⟩

/-- A handle with a node has one that stores some handles. -/
theorem mem_keys {graph : Graph} {handle : Handle} :
    handle ∈ graph.keys ↔ ∃ handles, (handle, handles) ∈ graph.nodes := by
  simp [keys]

/-- A handle has at most one node. -/
theorem Keyed.eq_of_mem {graph : Graph} (h : graph.Keyed) {handle : Handle}
    {left right : List Handle} (hleft : (handle, left) ∈ graph.nodes)
    (hright : (handle, right) ∈ graph.nodes) : left = right := by
  have heq := List.inj_on_of_nodup_map h.nodup hleft hright rfl
  exact congrArg Prod.snd heq

/-! ## One visit -/

/-- Whether a node is an object part of one of some values, with the handles that it stores. -/
def Drawn (values : List Value) (node : Handle × List Handle) : Prop :=
  ∃ value ∈ values, ∃ part object, value.Part part ∧ part.object? = some object ∧
    node = (.object object, part.stored)

/-- More values have more parts. -/
theorem Drawn.mono {values others : List Value} {node : Handle × List Handle}
    (h : Drawn values node) (hsub : ∀ value ∈ values, value ∈ others) : Drawn others node := by
  obtain ⟨value, hvalue, part⟩ := h
  exact ⟨value, hsub value hvalue, part⟩

/-- What visiting some values makes of a graph: the nodes there were, and new ones drawn from the
values; with each new node, the objects it refers to have nodes, and so have the values. -/
structure Grows (values : List Value) (before after : Graph) : Prop where
  keyed : after.Keyed
  suffix : before.nodes <:+ after.nodes
  drawn : ∀ node ∈ after.nodes, node ∈ before.nodes ∨ Drawn values node
  closed : ∀ node ∈ after.nodes, node ∈ before.nodes ∨
    ∀ object, .object object ∈ node.2 → .object object ∈ after.keys
  met : ∀ value ∈ values, ∀ object, value.object? = some object → .object object ∈ after.keys

/-- No node is lost. -/
theorem Grows.keys_subset {values : List Value} {before after : Graph}
    (h : Grows values before after) {handle : Handle} (hmem : handle ∈ before.keys) :
    handle ∈ after.keys :=
  (h.suffix.map Prod.fst).subset hmem

/-- To visit nothing changes nothing. -/
theorem Grows.refl {graph : Graph} (h : graph.Keyed) : Grows [] graph graph :=
  ⟨h, List.suffix_refl _, fun _ hnode => .inl hnode, fun _ hnode => .inl hnode,
    fun _ hvalue => absurd hvalue List.not_mem_nil⟩

/-- Visits may follow each other. -/
theorem Grows.append {values others : List Value} {before middle after : Graph}
    (first : Grows values before middle) (second : Grows others middle after) :
    Grows (values ++ others) before after := by
  refine ⟨second.keyed, first.suffix.trans second.suffix, ?_, ?_, ?_⟩
  · intro node hnode
    rcases second.drawn node hnode with hmiddle | hdrawn
    · rcases first.drawn node hmiddle with hbefore | hdrawn
      · exact .inl hbefore
      · exact .inr (hdrawn.mono fun value hvalue => List.mem_append.mpr (.inl hvalue))
    · exact .inr (hdrawn.mono fun value hvalue => List.mem_append.mpr (.inr hvalue))
  · intro node hnode
    rcases second.closed node hnode with hmiddle | hclosed
    · rcases first.closed node hmiddle with hbefore | hclosed
      · exact .inl hbefore
      · exact .inr fun object hobject => second.keys_subset (hclosed object hobject)
    · exact .inr hclosed
  · intro value hvalue object hobject
    rcases List.mem_append.mp hvalue with hvalue | hvalue
    · exact second.keys_subset (first.met value hvalue object hobject)
    · exact second.met value hvalue object hobject

/-- To visit entries is to visit their parts. -/
theorem visitEntries_eq (graph : Graph) (entries : List Entry) :
    graph.visitEntries entries = graph.visitAll (Entry.parts entries) := by
  induction entries generalizing graph with
  | nil => simp [visitEntries, Entry.parts, visitAll]
  | cons entry rest ih =>
    have hparts : Entry.parts (entry :: rest) = entry.name :: entry.value :: Entry.parts rest := rfl
    rw [visitEntries, hparts, visitAll, visitAll, ih]
    cases entry
    rw [visitEntry]

/-- A visit in one equation: it enters the object if it is new, and goes on with its contents. -/
theorem visit_eq (graph : Graph) (value : Value) :
    graph.visit value =
      match value.object? with
      | none => graph
      | some object =>
        if graph.entered.contains (.object object) then graph
        else (graph.enter (.object object) value.stored).visitAll value.contents := by
  cases value with
  | array id elements => simp [visit, Value.object?, Value.stored, Value.captured, Value.contents]
  | hash id entries =>
    simp [visit, visitEntries_eq, Value.object?, Value.stored, Value.captured, Value.contents]
  | function id literal frame =>
    simp [visit, visitAll, Value.object?, Value.stored, Value.captured, Value.contents,
      storedHandles]
  | null | integer _ | boolean _ | string _ | builtin _ => simp [visit, Value.object?]

/-- Visits of some values in turn, if each of the visits does what it should. -/
theorem grows_visitAll_of {values : List Value}
    (hvisit : ∀ value ∈ values, ∀ graph : Graph, graph.Keyed →
      Grows [value] graph (graph.visit value)) :
    ∀ {graph : Graph}, graph.Keyed → Grows values graph (graph.visitAll values) := by
  induction values with
  | nil =>
    intro graph hkeyed
    rw [visitAll]
    exact .refl hkeyed
  | cons value rest ih =>
    intro graph hkeyed
    have hfirst := hvisit value List.mem_cons_self graph hkeyed
    have hrest := ih (fun other hother => hvisit other (List.mem_cons_of_mem _ hother)) hfirst.keyed
    rw [visitAll]
    exact hfirst.append hrest

/-- One visit: by induction on the value, since its contents are visited in turn. -/
theorem grows_visit (value : Value) :
    ∀ graph : Graph, graph.Keyed → Grows [value] graph (graph.visit value) := by
  induction value using Value.contents_induction with
  | step value ih =>
    intro graph hkeyed
    rw [visit_eq]
    cases hobject : value.object? with
    | none =>
      refine ⟨hkeyed, List.suffix_refl _, fun _ hnode => .inl hnode, fun _ hnode => .inl hnode, ?_⟩
      intro other hother object hother'
      rw [List.mem_singleton.mp hother, hobject] at hother'
      cases hother'
    | some object =>
      have hmet : ∀ {graph : Graph}, .object object ∈ graph.keys → ∀ other ∈ [value],
          ∀ id, other.object? = some id → .object id ∈ graph.keys := by
        intro graph hmem other hother id hid
        rw [List.mem_singleton.mp hother, hobject] at hid
        cases hid
        exact hmem
      -- an object that has been entered is not looked at again
      by_cases hentered : graph.entered.contains (.object object) = true
      · simp only [hentered, if_true]
        exact ⟨hkeyed, List.suffix_refl _, fun _ hnode => .inl hnode, fun _ hnode => .inl hnode,
          hmet ((hkeyed.entered_iff _).mp hentered)⟩
      · simp only [hentered, if_false, Bool.false_eq_true]
        have hnew : Handle.object object ∉ graph.keys :=
          fun hmem => hentered ((hkeyed.entered_iff _).mpr hmem)
        -- a new one is entered first, and then its contents are visited
        have hinner := grows_visitAll_of ih (keyed_enter hkeyed hnew value.stored)
        refine ⟨hinner.keyed, (List.suffix_cons _ _).trans hinner.suffix, ?_, ?_, ?_⟩
        · intro node hnode
          rcases hinner.drawn node hnode with hold | ⟨content, hcontent, part, id, hpart, hid⟩
          · rcases List.mem_cons.mp hold with rfl | hold
            · exact .inr ⟨value, List.mem_singleton_self _, value, object, .self value, hobject, rfl⟩
            · exact .inl hold
          · exact .inr ⟨value, List.mem_singleton_self _, part, id, .content hcontent hpart, hid⟩
        · intro node hnode
          rcases hinner.closed node hnode with hold | hclosed
          · rcases List.mem_cons.mp hold with rfl | hold
            · refine .inr fun id hid => ?_
              obtain ⟨content, hcontent, hcontentId⟩ := Value.object_mem_stored.mp hid
              exact hinner.met content hcontent id hcontentId
            · exact .inl hold
          · exact .inr hclosed
        · exact hmet (hinner.keys_subset List.mem_cons_self)

/-- So visits of several values. -/
theorem grows_visitAll (values : List Value) {graph : Graph} (h : graph.Keyed) :
    Grows values graph (graph.visitAll values) :=
  grows_visitAll_of (fun value _ => grows_visit value) h

/-! ## All frames -/

/-- The values that some frames bind. -/
def boundValues (frames : List (FrameId × Frame)) : List Value :=
  frames.flatMap fun entry => entry.2.bindings.map Prod.snd

/-- What a graph of some frames holds: a node for each frame, nodes for objects drawn from what
the frames bind, and every object that a node refers to. -/
structure Charts (frames : List (FrameId × Frame)) (graph : Graph) : Prop where
  keyed : graph.Keyed
  frame_mem : ∀ entry ∈ frames, (.frame entry.1, entry.2.handles) ∈ graph.nodes
  drawn : ∀ node ∈ graph.nodes,
    (∃ entry ∈ frames, node = (.frame entry.1, entry.2.handles)) ∨ Drawn (boundValues frames) node
  closed : ∀ node ∈ graph.nodes, ∀ object, .object object ∈ node.2 → .object object ∈ graph.keys

/-- One frame more is charted when what it binds has been visited. -/
theorem Charts.visitFrame {frames : List (FrameId × Frame)} {graph : Graph}
    (h : Charts frames graph) {id : FrameId} (frame : Frame) (new : id ∉ frames.map Prod.fst) :
    Charts (frames ++ [(id, frame)]) (graph.visitFrame id frame) := by
  -- no node is that of the frame yet: nodes of frames are drawn from the list
  have hkey : Handle.frame id ∉ graph.keys := by
    intro hmem
    obtain ⟨handles, hnode⟩ := mem_keys.mp hmem
    rcases h.drawn _ hnode with ⟨entry, hentry, heq⟩ | ⟨_, _, _, _, _, _, heq⟩
    · cases heq
      exact new (List.mem_map_of_mem hentry)
    · cases heq
  have hgrows := grows_visitAll (frame.bindings.map Prod.snd)
    (keyed_enter h.keyed hkey frame.handles)
  have hlast : (id, frame) ∈ frames ++ [(id, frame)] := by simp
  have hbound : ∀ value ∈ frame.bindings.map Prod.snd,
      value ∈ boundValues (frames ++ [(id, frame)]) :=
    fun value hvalue => List.mem_flatMap.mpr ⟨(id, frame), hlast, hvalue⟩
  have hsub : ∀ value ∈ boundValues frames, value ∈ boundValues (frames ++ [(id, frame)]) := by
    intro value hvalue
    obtain ⟨entry, hentry, hvalue⟩ := List.mem_flatMap.mp hvalue
    exact List.mem_flatMap.mpr ⟨entry, List.mem_append.mpr (.inl hentry), hvalue⟩
  refine ⟨hgrows.keyed, ?_, ?_, ?_⟩
  · intro entry hentry
    apply hgrows.suffix.subset
    rcases List.mem_append.mp hentry with hentry | hentry
    · exact List.mem_cons_of_mem _ (h.frame_mem entry hentry)
    · rw [List.mem_singleton.mp hentry]
      exact List.mem_cons_self
  -- a node is that of the frame, or was there, or is drawn from what the frame binds
  · intro node hnode
    rcases hgrows.drawn node hnode with hold | hdrawn
    · rcases List.mem_cons.mp hold with rfl | hold
      · exact .inl ⟨(id, frame), hlast, rfl⟩
      · rcases h.drawn node hold with ⟨entry, hentry, heq⟩ | hdrawn
        · exact .inl ⟨entry, List.mem_append.mpr (.inl hentry), heq⟩
        · exact .inr (hdrawn.mono hsub)
    · exact .inr (hdrawn.mono hbound)
  -- what the frame refers to has been visited
  · intro node hnode object hobject
    rcases hgrows.closed node hnode with hold | hclosed
    · rcases List.mem_cons.mp hold with rfl | hold
      · rcases Frame.mem_handles.mp hobject with ⟨_, _, heq⟩ | ⟨binding, hbinding, _, hid, heq⟩
        · cases heq
        · cases heq
          exact hgrows.met binding.2 (List.mem_map_of_mem hbinding) object hid
      · exact hgrows.keys_subset (List.mem_cons_of_mem _ (h.closed node hold object hobject))
    · exact hclosed object hobject

/-- Frames are charted one after the other. -/
theorem Charts.foldl {frames : List (FrameId × Frame)} :
    ∀ {done : List (FrameId × Frame)} {graph : Graph}, Charts done graph →
      ((done ++ frames).map Prod.fst).Nodup →
      Charts (done ++ frames)
        (frames.foldl (fun graph entry => graph.visitFrame entry.1 entry.2) graph) := by
  induction frames with
  | nil =>
    intro done graph h _
    simpa using h
  | cons entry rest ih =>
    intro done graph h hnodup
    have hassoc : done ++ entry :: rest = (done ++ [entry]) ++ rest := by simp
    have hnew : entry.1 ∉ done.map Prod.fst := by
      intro hmem
      rw [List.map_append, List.map_cons, List.nodup_append] at hnodup
      exact hnodup.2.2 _ hmem _ List.mem_cons_self rfl
    rw [hassoc] at hnodup ⊢
    exact ih (h.visitFrame entry.2 hnew) hnodup

/-- The graph of some frames, none of them listed twice. -/
theorem charts_ofFrames {frames : List (FrameId × Frame)} (h : (frames.map Prod.fst).Nodup) :
    Charts frames (ofFrames frames) := by
  have hempty : Charts [] empty :=
    ⟨keyed_empty, fun _ hentry => absurd hentry List.not_mem_nil,
      fun _ hnode => absurd hnode List.not_mem_nil, fun _ hnode => absurd hnode List.not_mem_nil⟩
  exact hempty.foldl h

end Graph

end Scriptlet
