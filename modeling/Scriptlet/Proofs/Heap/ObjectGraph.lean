import Scriptlet.Heap.ObjectGraph
import Scriptlet.Proofs.Heap.Release

set_option autoImplicit false

/-!
# Every stored handle is counted once

Component: the collector, of which this is how it looks through the frames.  Specification: section
3 on values that contain values, to any depth.

`ObjectGraph.visitPending` looks at the contents of an object when it is entered, and enters it once.
So every object part of what was looked at has a node, and with it the handles that the object
stores, however often it is met (`ObjectGraph.Gathers` for a list of values, `ObjectGraph.Shows` for
the frames that were looked at).

What is still to be looked at waits in a list, so that deep values need no deep recursion.  The
price is that the handles of one object are collected while others wait;
`edges_visitPending_of_false` says that no handle gets to the wrong one.

The counts come last, in a pass of their own over all that has been stored (`getElem?_build`), when
every node is there.
-/

namespace Scriptlet

namespace ObjectGraph

/-! ## Contents -/

/-- The objects among some values. -/
def objects (values : List Value) : List Value := values.filter fun value => value.handle?.isSome

/-- An object among values is one that has a handle. -/
theorem mem_objects {values : List Value} {value : Value} :
    value ∈ objects values ↔ value ∈ values ∧ ∃ handle, value.handle? = some handle := by
  rw [objects, List.mem_filter, Option.isSome_iff_exists]

/-- To look at a value notes its handle, and lets it wait if it is an object. -/
theorem pushChild_eq (found : List Handle × List Value) (value : Value) :
    pushChild found value =
      (found.1 ++ storedHandles [value], objects [value] ++ found.2) := by
  unfold pushChild
  cases hvalue : value.handle? <;> simp [storedHandles, objects, hvalue]

/-- Values that are looked at in turn. -/
theorem foldl_pushChild (values : List Value) (found : List Handle × List Value) :
    values.foldl pushChild found =
      (found.1 ++ storedHandles values, (objects values).reverse ++ found.2) := by
  induction values generalizing found with
  | nil => simp [storedHandles, objects]
  | cons value rest ih =>
    rw [List.foldl_cons, ih, pushChild_eq]
    cases hvalue : value.handle? <;> simp [storedHandles, objects, hvalue]

/-- Of entries, both names and values are looked at. -/
theorem foldl_entries (entries : List Entry) (found : List Handle × List Value) :
    entries.foldl (fun found entry => pushChild (pushChild found entry.name) entry.value) found =
      (Entry.parts entries).foldl pushChild found := by
  induction entries generalizing found with
  | nil => rfl
  | cons entry rest ih => exact ih _

/-- An object's handles are those it stores, and what is looked at with it are its contents. -/
theorem pushChildren_eq (pending : List Value) (value : Value) :
    pushChildren pending value =
      (value.stored, (objects value.contents).reverse ++ pending) := by
  cases value with
  | array id elements => exact foldl_pushChild elements ([], pending)
  | hash id entries =>
    exact (foldl_entries entries _).trans (foldl_pushChild (Entry.parts entries) ([], pending))
  | function | null | integer | boolean | string | builtin => rfl

/-! ## Values -/

section

variable {strong : Handle → Nat}

/-- What looking at some values makes of the nodes: those there were are kept; new ones are drawn
from the values, and not counted yet; the objects that a new node stores have nodes, and so have the
values. -/
structure Gathers (strong : Handle → Nat) (values : List Value) (before after : ObjectGraph) :
    Prop where
  kept : ∀ (handle : Handle) (node : Node), before[handle]? = some node → after[handle]? = some node
  drawn : ∀ (handle : Handle) (node : Node), after[handle]? = some node →
    before[handle]? = some node ∨
      Graph.Drawn values (handle, node.edges) ∧ node = ⟨strong handle, 0, node.edges, none⟩
  closed : ∀ (handle : Handle) (node : Node), after[handle]? = some node →
    before[handle]? = some node ∨ ∀ object, .object object ∈ node.edges → .object object ∈ after
  met : ∀ value ∈ values, ∀ handle : Handle, value.handle? = some handle → handle ∈ after

/-- A handle is there if it has a node. -/
theorem mem_iff {graph : ObjectGraph} {handle : Handle} :
    handle ∈ graph ↔ ∃ node, graph[handle]? = some node := by
  rw [Std.HashMap.mem_iff_isSome_getElem?, Option.isSome_iff_exists]

/-- The node that is entered is the one that is found. -/
theorem getElem?_insert (graph : ObjectGraph) (key : Handle) (node : Node) (handle : Handle) :
    (graph.insert key node)[handle]? = if handle = key then some node else graph[handle]? := by
  rw [Std.HashMap.getElem?_insert]
  by_cases heq : handle = key
  · rw [if_pos heq, if_pos (beq_iff_eq.mpr heq.symm)]
  · rw [if_neg heq, if_neg fun h => heq (beq_iff_eq.mp h).symm]

namespace Gathers

variable {values others : List Value} {before middle after : ObjectGraph}

/-- What had a node has one. -/
theorem mem_of_mem (h : Gathers strong values before after) {handle : Handle}
    (hmem : handle ∈ before) : handle ∈ after := by
  obtain ⟨node, hnode⟩ := mem_iff.mp hmem
  exact mem_iff.mpr ⟨node, h.kept handle node hnode⟩

/-- To look at nothing changes nothing. -/
theorem refl (graph : ObjectGraph) : Gathers strong [] graph graph :=
  ⟨fun _ _ h => h, fun _ _ h => .inl h, fun _ _ h => .inl h,
    fun _ hvalue => absurd hvalue List.not_mem_nil⟩

/-- What is looked at later is gathered to what was. -/
theorem append (first : Gathers strong values before middle)
    (second : Gathers strong others middle after) :
    Gathers strong (values ++ others) before after where
  kept := fun handle node h => second.kept handle node (first.kept handle node h)
  drawn := fun handle node h => by
    rcases second.drawn handle node h with hmiddle | ⟨hdrawn, hnode⟩
    · rcases first.drawn handle node hmiddle with hbefore | ⟨hdrawn, hnode⟩
      · exact .inl hbefore
      · exact .inr ⟨hdrawn.mono fun _ => List.mem_append_left _, hnode⟩
    · exact .inr ⟨hdrawn.mono fun _ => List.mem_append_right _, hnode⟩
  closed := fun handle node h => by
    rcases second.closed handle node h with hmiddle | hclosed
    · rcases first.closed handle node hmiddle with hbefore | hclosed
      · exact .inl hbefore
      · exact .inr fun object hobject => second.mem_of_mem (hclosed object hobject)
    · exact .inr hclosed
  met := fun value hvalue handle hhandle => by
    rcases List.mem_append.mp hvalue with hvalue | hvalue
    · exact second.mem_of_mem (first.met value hvalue handle hhandle)
    · exact second.met value hvalue handle hhandle

/-- A value that is no object, or one that has a node, makes no difference. -/
theorem cons_of_met {value : Value} (h : Gathers strong values before after)
    (hmet : ∀ handle : Handle, value.handle? = some handle → handle ∈ before) :
    Gathers strong (value :: values) before after where
  kept := h.kept
  drawn := fun handle node hnode => (h.drawn handle node hnode).imp_right
    (And.imp_left (·.mono fun _ => List.mem_cons_of_mem _))
  closed := h.closed
  met := fun other hother handle hhandle => by
    rcases List.mem_cons.mp hother with rfl | hother
    · exact h.mem_of_mem (hmet handle hhandle)
    · exact h.met other hother handle hhandle

/-- A new object is entered, and its contents are looked at. -/
theorem cons_of_new {value : Value} {object : ObjectId} (hobject : value.object? = some object)
    (new : Handle.object object ∉ before)
    (h : Gathers strong ((objects value.contents).reverse ++ values)
      (before.insert (.object object) ⟨strong (.object object), 0, value.stored, none⟩) after) :
    Gathers strong (value :: values) before after := by
  have hinsert := getElem?_insert before (.object object)
    ⟨strong (.object object), 0, value.stored, none⟩
  -- the node that has been entered is kept by all that follows
  have hhere := h.kept (.object object) _ ((hinsert _).trans (if_pos rfl))
  have hcontent : ∀ content ∈ (objects value.contents).reverse, content ∈ value.contents :=
    fun content hmem => (mem_objects.mp (List.mem_reverse.mp hmem)).1
  refine ⟨fun handle node hnode => ?_, fun handle node hnode => ?_, fun handle node hnode => ?_,
    fun other hother handle hhandle => ?_⟩
  · have hne : handle ≠ .object object := by
      rintro rfl
      exact new (mem_iff.mpr ⟨node, hnode⟩)
    exact h.kept handle node ((hinsert handle).trans ((if_neg hne).trans hnode))
  -- a node is that of the object, or drawn from its contents, or from the other values
  · rcases h.drawn handle node hnode with
      hold | ⟨⟨source, hsource, part, id, hpart, hid, heq⟩, huncounted⟩
    · rw [hinsert] at hold
      split at hold
      next heq =>
        subst heq
        cases hold
        exact .inr ⟨⟨value, List.mem_cons_self, value, object, .self value, hobject, rfl⟩, rfl⟩
      · exact .inl hold
    · refine .inr ⟨?_, huncounted⟩
      rcases List.mem_append.mp hsource with hsource | hsource
      · exact ⟨value, List.mem_cons_self, part, id, .content (hcontent _ hsource) hpart, hid, heq⟩
      · exact ⟨source, List.mem_cons_of_mem _ hsource, part, id, hpart, hid, heq⟩
  -- what the object stores are its contents, which have been looked at
  · rcases h.closed handle node hnode with hold | hclosed
    · rw [hinsert] at hold
      split at hold
      next heq =>
        subst heq
        cases hold
        refine .inr fun id hid => ?_
        obtain ⟨content, hmember, hcontentId⟩ := Value.object_mem_stored.mp hid
        have hhandle : content.handle? = some (.object id) :=
          Value.handle?_eq_some.mpr ⟨id, hcontentId, rfl⟩
        refine h.met content (List.mem_append_left _ (List.mem_reverse.mpr ?_)) _ hhandle
        exact mem_objects.mpr ⟨hmember, _, hhandle⟩
      · exact .inl hold
    · exact .inr hclosed
  · rcases List.mem_cons.mp hother with rfl | hother
    · obtain ⟨id, hid, rfl⟩ := Value.handle?_eq_some.mp hhandle
      cases hobject.symm.trans hid
      exact mem_iff.mpr ⟨_, hhere⟩
    · exact h.met other (List.mem_append_right _ hother) handle hhandle

end Gathers

/-- Whatever has to be looked at, all of it is gathered. -/
theorem gathers_visitPending (graph : ObjectGraph) (pending : List Value) (first : Bool)
    (edges : List Handle) :
    Gathers strong pending graph (visitPending strong graph pending first edges).1 := by
  induction graph, pending, first, edges using visitPending.induct strong with
  | case1 graph first edges =>
    rw [visitPending]
    exact .refl graph
  | case2 graph first edges value pending hvalue ih =>
    rw [visitPending, hvalue]
    exact ih.cons_of_met fun handle hhandle => by rw [hvalue] at hhandle; cases hhandle
  | case3 graph first edges value pending handle hvalue _ hmem ih =>
    rw [visitPending, hvalue]
    simp only [hmem, if_true]
    refine ih.cons_of_met fun other hother => ?_
    cases hvalue.symm.trans hother
    exact hmem
  | case4 graph first edges value pending handle hvalue _ hmem found ih =>
    obtain ⟨object, hobject, rfl⟩ := Value.handle?_eq_some.mp hvalue
    rw [visitPending, hvalue]
    simp only [hmem, if_false, Bool.false_eq_true, found, pushChildren_eq] at ih ⊢
    exact ih.cons_of_new hobject hmem

/-- Behind the first object no handle is added any more. -/
theorem edges_visitPending_of_false {first : Bool} (h : first = false) (graph : ObjectGraph)
    (pending : List Value) (edges : List Handle) :
    (visitPending strong graph pending first edges).2 = edges := by
  induction graph, pending, first, edges using visitPending.induct strong with
  | case1 graph first edges => rw [visitPending]
  | case2 graph first edges value pending hvalue ih =>
    rw [visitPending, hvalue]
    exact ih h
  | case3 graph first edges value pending handle hvalue next hmem ih =>
    rw [visitPending, hvalue]
    simp only [hmem, if_true, h, Bool.false_eq_true, if_false]
    simpa [next, h] using ih rfl
  | case4 graph first edges value pending handle hvalue next hmem found ih =>
    rw [visitPending, hvalue]
    simp only [hmem, h, Bool.false_eq_true, if_false]
    simpa [next, h] using ih rfl

/-- A value that is looked at adds its own handle to those of what stores it, and no other. -/
theorem edges_visit (found : ObjectGraph × List Handle) (value : Value) :
    (visit strong found value).2 = found.2 ++ storedHandles [value] := by
  rw [visit, visitPending]
  cases hvalue : value.handle? with
  | none =>
    simp only
    rw [visitPending]
    simp [storedHandles, hvalue]
  | some handle =>
    have hstored : storedHandles [value] = [handle] := by simp [storedHandles, hvalue]
    rw [hstored]
    by_cases hmem : found.1.contains handle = true
    · simp only [hmem, if_true]
      exact edges_visitPending_of_false rfl _ _ _
    · simp only [hmem, Bool.false_eq_true, if_false, if_true]
      exact edges_visitPending_of_false rfl _ _ _

/-- Several values add a handle each, if they are objects. -/
theorem edges_foldl_visit (values : List Value) (found : ObjectGraph × List Handle) :
    (values.foldl (visit strong) found).2 = found.2 ++ storedHandles values := by
  induction values generalizing found with
  | nil => simp [storedHandles]
  | cons value rest ih =>
    rw [List.foldl_cons, ih, edges_visit, List.append_assoc, storedHandles, storedHandles,
      storedHandles, ← List.filterMap_append]
    rfl

/-- And all of them are gathered. -/
theorem gathers_foldl_visit (values : List Value) (found : ObjectGraph × List Handle) :
    Gathers strong values found.1 (values.foldl (visit strong) found).1 := by
  induction values generalizing found with
  | nil => exact .refl found.1
  | cons value rest ih =>
    exact (gathers_visitPending found.1 [value] true found.2).append (ih (visit strong found value))

/-! ## Frames -/

/-- What the nodes of some frames are before anything has been counted: each frame has one, with the
handles that it stores and its place; the others are drawn from what the frames bind; and the objects
that a node stores have nodes. -/
structure Shows (strong : Handle → Nat) (frames : List (FrameId × Frame)) (graph : ObjectGraph) :
    Prop where
  frame : ∀ (place : Nat) (entry : FrameId × Frame), frames[place]? = some entry →
    graph[Handle.frame entry.1]? =
      some ⟨strong (.frame entry.1), 0, entry.2.handles, some place⟩
  drawn : ∀ (handle : Handle) (node : Node), graph[handle]? = some node →
    (∃ entry ∈ frames, handle = .frame entry.1) ∨
      Graph.Drawn (Graph.boundValues frames) (handle, node.edges) ∧
        node = ⟨strong handle, 0, node.edges, none⟩
  closed : ∀ (handle : Handle) (node : Node), graph[handle]? = some node →
    ∀ object, .object object ∈ node.edges → .object object ∈ graph

/-- One more frame binds its values behind those of the others. -/
theorem boundValues_concat (frames : List (FrameId × Frame)) (entry : FrameId × Frame) :
    Graph.boundValues (frames ++ [entry]) =
      Graph.boundValues frames ++ entry.2.bindings.map Prod.snd := by
  simp [Graph.boundValues]

/-- One frame more is shown when it has been looked at. -/
theorem Shows.visitFrame {frames : List (FrameId × Frame)} {graph : ObjectGraph}
    (h : Shows strong frames graph) {id : FrameId} (frame : Frame)
    (new : id ∉ frames.map Prod.fst) :
    Shows strong (frames ++ [(id, frame)]) (visitFrame strong graph frames.length id frame) := by
  -- what the frame binds is looked at before the frame is entered
  have hgathers : Gathers strong _ _ _ := gathers_foldl_visit (frame.bindings.map Prod.snd)
    (graph, frame.outer.toList.map .frame)
  have hedges : (List.foldl (visit strong) _ _).2 = _ := edges_foldl_visit
    (frame.bindings.map Prod.snd) (graph, frame.outer.toList.map .frame)
  rw [ObjectGraph.visitFrame]
  generalize (frame.bindings.map Prod.snd).foldl (visit strong)
    (graph, frame.outer.toList.map .frame) = found at hgathers hedges
  have hhandles : found.2 = frame.handles := hedges
  simp only [hhandles]
  have hinsert := getElem?_insert found.1 (.frame id)
    ⟨strong (.frame id), 0, frame.handles, some frames.length⟩
  have hobject : ∀ object : ObjectId, .object object ∈ found.1 → .object object ∈
      found.1.insert (.frame id)
        (⟨strong (.frame id), 0, frame.handles, some frames.length⟩ : Node) :=
    fun object hmem => Std.HashMap.mem_insert.mpr (.inr hmem)
  refine ⟨fun place entry hentry => ?_, fun handle node hnode => ?_, fun handle node hnode => ?_⟩
  · rw [hinsert]
    rcases Nat.lt_or_ge place frames.length with hlt | hge
    · rw [List.getElem?_append_left hlt] at hentry
      have hne : Handle.frame entry.1 ≠ .frame id := by
        rintro heq
        cases heq
        exact new (List.mem_map_of_mem (List.mem_of_getElem? hentry))
      rw [if_neg hne]
      exact hgathers.kept _ _ (h.frame place entry hentry)
    · rw [List.getElem?_append_right hge, List.getElem?_singleton] at hentry
      split at hentry
      next hplace =>
        cases hentry
        rw [if_pos rfl, Nat.le_antisymm (Nat.sub_eq_zero_iff_le.mp hplace) hge]
      · cases hentry
  · rw [hinsert] at hnode
    split at hnode
    next heq =>
      exact .inl ⟨(id, frame), List.mem_append_right _ (List.mem_singleton_self _), heq⟩
    · rw [boundValues_concat]
      rcases hgathers.drawn handle node hnode with hold | ⟨hdrawn, huncounted⟩
      · rcases h.drawn handle node hold with ⟨entry, hentry, heq⟩ | ⟨hdrawn, huncounted⟩
        · exact .inl ⟨entry, List.mem_append_left _ hentry, heq⟩
        · exact .inr ⟨hdrawn.mono fun _ => List.mem_append_left _, huncounted⟩
      · exact .inr ⟨hdrawn.mono fun _ => List.mem_append_right _, huncounted⟩
  · intro object hmem
    rw [hinsert] at hnode
    split at hnode
    · cases hnode
      rcases Frame.mem_handles.mp hmem with ⟨_, _, heq⟩ | ⟨binding, hbinding, other, hother, heq⟩
      · cases heq
      · cases heq
        exact hobject _ (hgathers.met _ (List.mem_map_of_mem hbinding) _
          (Value.handle?_eq_some.mpr ⟨_, hother, rfl⟩))
    · rcases hgathers.closed handle node hnode with hold | hclosed
      · exact hobject _ (hgathers.mem_of_mem (h.closed handle node hold object hmem))
      · exact hobject _ (hclosed object hmem)

/-- Frames that are looked at one after the other. -/
theorem Shows.foldl {frames : List (FrameId × Frame)} :
    ∀ {done : List (FrameId × Frame)} {graph : ObjectGraph}, Shows strong done graph →
      ((done ++ frames).map Prod.fst).Nodup →
      Shows strong (done ++ frames) ((frames.zipIdx done.length).foldl
        (fun graph entry => ObjectGraph.visitFrame strong graph entry.2 entry.1.1 entry.1.2)
        graph) := by
  induction frames with
  | nil =>
    intro done graph h _
    simpa using h
  | cons entry rest ih =>
    intro done graph h hnodup
    have hassoc : done ++ entry :: rest = (done ++ [entry]) ++ rest := by simp
    have hnew : entry.1 ∉ done.map Prod.fst := by
      intro hmem
      rw [List.map_append, List.map_cons, List.nodup_append] at hnodup
      exact hnodup.2.2 _ hmem _ List.mem_cons_self rfl
    have hlength : done.length + 1 = (done ++ [entry]).length := by simp
    rw [hassoc] at hnodup ⊢
    rw [List.zipIdx_cons, List.foldl_cons, hlength]
    exact ih (h.visitFrame entry.2 hnew) hnodup

/-- So all frames are shown in the end, if each of them is listed once. -/
theorem shows_gather {frames : List (FrameId × Frame)} (h : (frames.map Prod.fst).Nodup) :
    Shows strong frames (gather strong frames) := by
  have hempty : Shows strong [] (∅ : ObjectGraph) := by
    refine ⟨fun place entry hentry => ?_, fun handle node hnode => ?_, fun handle node hnode => ?_⟩
    · rw [List.getElem?_nil] at hentry
      cases hentry
    · rw [Std.HashMap.getElem?_empty] at hnode
      cases hnode
    · rw [Std.HashMap.getElem?_empty] at hnode
      cases hnode
  exact hempty.foldl h

end

/-! ## Counting -/

/-- Each handle that is met adds one to the count of what it refers to. -/
theorem getElem?_foldl_refer (targets : List Handle) (graph : ObjectGraph) (handle : Handle) :
    (targets.foldl (fun graph target => graph.modify target Node.refer) graph)[handle]? =
      graph[handle]?.map fun node =>
        { node with internal := node.internal + targets.count handle } := by
  induction targets generalizing graph with
  | nil => simp
  | cons target rest ih =>
    rw [List.foldl_cons, ih, Std.HashMap.getElem?_modify, List.count_cons]
    by_cases heq : target = handle
    · subst heq
      cases graph[target]? with
      | none => simp
      | some node => simp [Node.refer, Nat.add_comm, Nat.add_left_comm]
    · simp [heq]

/-- The nodes that are built are those gathered, with the number of handles to them that are
stored. -/
theorem getElem?_build (strong : Handle → Nat) (frames : List (FrameId × Frame))
    (handle : Handle) :
    (build strong frames)[handle]? = (gather strong frames)[handle]?.map fun node =>
      { node with internal := node.internal + (gather strong frames).handles.count handle } :=
  getElem?_foldl_refer _ _ _

end ObjectGraph

end Scriptlet
