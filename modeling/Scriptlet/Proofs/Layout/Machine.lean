import Scriptlet.Interpreter
import Scriptlet.Proofs.Tree.Spans

set_option autoImplicit false

/-!
# Machines and the spans in them

Component: the object model and the environment.  Specification: section 3, of which this is what
spans there are at run time: those in the literals of functions, in bindings and in values.

The functions that a program has made are kept with their literals, and with the spans of these.
`mapSpans` changes these spans in values, in heaps and in whole machines.  Nothing that a program
can find out about a value depends on them, and neither does a collection, which sees handles only.

For each function on values, heaps and graphs there is one equation, which moves the change from its
arguments to its result.  These are collected here so that the file on evaluation does not have to
open any of them.
-/

namespace Scriptlet

variable (f : Span → Span)

/-! ## Values -/

mutual

/-- The value with the spans of the functions in it changed. -/
def Value.mapSpans : Value → Value
  | .null => .null
  | .integer n => .integer n
  | .boolean b => .boolean b
  | .string s => .string s
  | .array id elements => .array id (mapSpansOfValues elements)
  | .hash id entries => .hash id (mapSpansOfEntries entries)
  | .function id literal frame => .function id (literal.mapSpans f) frame
  | .builtin builtin => .builtin builtin

/-- The values with the spans of the functions in them changed. -/
def mapSpansOfValues : List Value → List Value
  | [] => []
  | value :: rest => value.mapSpans :: mapSpansOfValues rest

/-- The entries with the spans of the functions in them changed. -/
def mapSpansOfEntries : List Entry → List Entry
  | [] => []
  | entry :: rest => entry.mapSpans :: mapSpansOfEntries rest

/-- The entry with the spans of the functions in it changed. -/
def Entry.mapSpans : Entry → Entry
  | ⟨key, name, value⟩ => ⟨key, name.mapSpans, value.mapSpans⟩

end

/-- Values are changed one by one. -/
theorem mapSpansOfValues_eq_map (values : List Value) :
    mapSpansOfValues f values = values.map (Value.mapSpans f) := by
  induction values with
  | nil => rfl
  | cons value rest ih => rw [mapSpansOfValues, ih, List.map_cons]

/-- The first of some values, or null, which has no spans. -/
theorem headD_mapSpans (values : List Value) :
    (values.map (Value.mapSpans f)).headD .null = (values.headD .null).mapSpans f := by
  cases values <;> rfl

/-- So are entries. -/
theorem mapSpansOfEntries_eq_map (entries : List Entry) :
    mapSpansOfEntries f entries = entries.map (Entry.mapSpans f) := by
  induction entries with
  | nil => rfl
  | cons entry rest ih => rw [mapSpansOfEntries, ih, List.map_cons]

/-- Keys have no spans. -/
@[simp] theorem Entry.key_mapSpans (entry : Entry) : (entry.mapSpans f).key = entry.key := by
  cases entry
  rfl

/-- The value of an entry is changed with it. -/
@[simp] theorem Entry.value_mapSpans (entry : Entry) :
    (entry.mapSpans f).value = entry.value.mapSpans f := by
  cases entry
  rfl

/-- What can be told of a value is told without its spans, its type first. -/
@[simp] theorem Value.type_mapSpans (value : Value) : (value.mapSpans f).type = value.type := by
  cases value <;> rfl

/-- It counts as true with whatever spans. -/
@[simp] theorem Value.truthy_mapSpans (value : Value) :
    (value.mapSpans f).truthy = value.truthy := by
  cases value <;> rfl

/-- It is the same object with whatever spans. -/
@[simp] theorem Value.object?_mapSpans (value : Value) :
    (value.mapSpans f).object? = value.object? := by
  cases value <;> rfl

/-- It has the same key with whatever spans. -/
@[simp] theorem Value.hashKey_mapSpans (digest : Digest) (value : Value) :
    (value.mapSpans f).hashKey digest = value.hashKey digest := by
  cases value <;> rfl

/-- It is identical to the same values with whatever spans. -/
@[simp] theorem Value.identical_mapSpans (left right : Value) :
    (left.mapSpans f).identical (right.mapSpans f) = left.identical right := by
  cases left <;> cases right <;> rfl

mutual

/-- What is printed does not show spans. -/
theorem Value.inspect_mapSpans (value : Value) : (value.mapSpans f).inspect = value.inspect := by
  match value with
  | .null | .integer _ | .boolean _ | .string _ | .builtin _ => rfl
  | .array _ elements =>
    simp only [Value.mapSpans, Value.inspect, inspectValues_mapSpans elements]
  | .hash _ entries => simp only [Value.mapSpans, Value.inspect, inspectEntries_mapSpans entries]
  | .function _ ⟨_, parameters, body⟩ _ =>
    simp only [Value.mapSpans, FunctionLiteral.mapSpans, Value.inspect, Name.map_text_mapSpan,
      Block.render_mapSpans]

/-- Some values have the same texts. -/
theorem inspectValues_mapSpans (values : List Value) :
    inspectValues (mapSpansOfValues f values) = inspectValues values := by
  match values with
  | [] => rfl
  | value :: rest =>
    simp only [mapSpansOfValues, inspectValues, value.inspect_mapSpans, inspectValues_mapSpans rest]

/-- Some entries have the same texts. -/
theorem inspectEntries_mapSpans (entries : List Entry) :
    inspectEntries (mapSpansOfEntries f entries) = inspectEntries entries := by
  match entries with
  | [] => rfl
  | entry :: rest =>
    simp only [mapSpansOfEntries, inspectEntries, entry.inspect_mapSpans,
      inspectEntries_mapSpans rest]

/-- One entry has the same text. -/
theorem Entry.inspect_mapSpans (entry : Entry) : (entry.mapSpans f).inspect = entry.inspect := by
  match entry with
  | ⟨_, name, value⟩ =>
    simp only [Entry.mapSpans, Entry.inspect, name.inspect_mapSpans, value.inspect_mapSpans]

end

/-! ## Operators -/

/-- The result with the spans of its functions changed. -/
abbrev mapResult (result : Except Fault Value) : Except Fault Value := result.map (Value.mapSpans f)

/-- A prefix operator does not see spans. -/
theorem applyPrefix_mapSpans (operator : PrefixOp) (right : Value) :
    applyPrefix operator (right.mapSpans f) = mapResult f (applyPrefix operator right) := by
  cases operator <;> cases right <;> rfl

/-- What is made of integers has no spans. -/
theorem applyInteger_mapResult (operator : InfixOp) (left right : Int64) :
    mapResult f (applyInteger operator left right) = applyInteger operator left right := by
  unfold applyInteger
  cases operator <;> dsimp only
  case divide => split <;> rfl
  all_goals rfl

/-- A comparison sees identities, types and plain contents. -/
theorem compareValues_mapSpans (operator : InfixOp) (left right : Value) :
    compareValues operator (left.mapSpans f) (right.mapSpans f) =
      mapResult f (compareValues operator left right) := by
  unfold compareValues
  rw [Value.type_mapSpans, Value.type_mapSpans, Value.identical_mapSpans]
  split
  · rfl
  · cases operator <;> rfl

/-- Nor does an infix operator. -/
theorem applyInfix_mapSpans (operator : InfixOp) (left right : Value) :
    applyInfix operator (left.mapSpans f) (right.mapSpans f) =
      mapResult f (applyInfix operator left right) := by
  have hcompare := compareValues_mapSpans f operator left right
  cases left with
  | integer l =>
    cases right with
    | integer r => exact (applyInteger_mapResult f operator l r).symm
    | _ => exact hcompare
  | string l =>
    cases right with
    | string r => cases operator <;> rfl
    | _ => exact hcompare
  | _ => exact hcompare

/-- An entry is found under the same key. -/
theorem findEntry_mapSpans (key : HashKey) (entries : List Entry) :
    findEntry key (mapSpansOfEntries f entries) =
      (findEntry key entries).map (Entry.mapSpans f) := by
  rw [mapSpansOfEntries_eq_map, findEntry, List.find?_map]
  congr 2
  funext entry
  simp

/-- An entry is inserted by its key. -/
theorem insertEntry_mapSpans (new : Entry) (entries : List Entry) :
    insertEntry (new.mapSpans f) (mapSpansOfEntries f entries) =
      mapSpansOfEntries f (insertEntry new entries) := by
  induction entries with
  | nil => rfl
  | cons entry rest ih =>
    simp only [mapSpansOfEntries, insertEntry, Entry.key_mapSpans]
    split
    · rfl
    · split
      · rfl
      · rw [mapSpansOfEntries, ih]

/-- An element is found in the same place. -/
theorem elementAt_mapSpans (elements : List Value) (index : Int64) :
    elementAt (mapSpansOfValues f elements) index = (elementAt elements index).mapSpans f := by
  unfold elementAt
  split
  · rfl
  · rw [mapSpansOfValues_eq_map, List.getElem?_map]
    cases elements[index.toInt.toNat]? <;> rfl

/-- What is found under a key is changed, or is null. -/
theorem found_mapSpans (key : HashKey) (entries : List Entry) :
    ((findEntry key (mapSpansOfEntries f entries)).map Entry.value).getD .null =
      (((findEntry key entries).map Entry.value).getD .null).mapSpans f := by
  rw [findEntry_mapSpans]
  cases findEntry key entries with
  | none => rfl
  | some entry => simp

/-- What is found under an index is changed. -/
theorem applyIndex_mapSpans (digest : Digest) (left index : Value) :
    applyIndex digest (left.mapSpans f) (index.mapSpans f) =
      mapResult f (applyIndex digest left index) := by
  cases left with
  | array id elements =>
    cases index with
    | integer n => exact congrArg Except.ok (elementAt_mapSpans f elements n)
    | _ => rfl
  | hash id entries =>
    cases index with
    | integer | boolean | string => exact congrArg Except.ok (found_mapSpans f _ entries)
    | _ => rfl
  | _ => cases index <;> rfl

/-! ## Heaps -/

/-- The frame with the spans of the functions in it changed. -/
def Frame.mapSpans (frame : Frame) : Frame :=
  ⟨frame.bindings.map fun binding => (binding.1, binding.2.mapSpans f), frame.outer⟩

/-- The heap with the spans of the functions in it changed. -/
def Heap.mapSpans (heap : Heap) : Heap :=
  { heap with frames := heap.frames.map (Option.map (Frame.mapSpans f)) }

/-- What is held with the spans of the functions in it changed. -/
def Roots.mapSpans (roots : Roots) : Roots :=
  { roots with values := roots.values.map (Value.mapSpans f) }

/-- The machine with the spans of the functions in it changed. -/
def Machine.mapSpans (machine : Machine) : Machine :=
  { machine with heap := machine.heap.mapSpans f }

/-- Roots are changed as what they hold. -/
@[simp] theorem Roots.mapSpans_hold (roots : Roots) (value : Value) :
    (roots.hold value).mapSpans f = (roots.mapSpans f).hold (value.mapSpans f) := rfl

/-- One frame more has no spans to change. -/
@[simp] theorem Roots.mapSpans_holdFrame (roots : Roots) (id : FrameId) :
    (roots.holdFrame id).mapSpans f = (roots.mapSpans f).holdFrame id := rfl

/-- Several values more are changed one by one. -/
@[simp] theorem Roots.mapSpans_holdAll (roots : Roots) (values : List Value) :
    (roots.holdAll values).mapSpans f =
      (roots.mapSpans f).holdAll (values.map (Value.mapSpans f)) := by
  simp [Roots.mapSpans, Roots.holdAll]

/-- A binding is put under its name. -/
theorem Bindings.bind_mapSpans (name : String) (value : Value) (bindings : Bindings) :
    Bindings.bind name (value.mapSpans f)
        (bindings.map fun binding => (binding.1, binding.2.mapSpans f)) =
      (Bindings.bind name value bindings).map fun binding => (binding.1, binding.2.mapSpans f) := by
  induction bindings with
  | nil => rfl
  | cons binding rest ih =>
    obtain ⟨other, old⟩ := binding
    simp only [List.map_cons, Bindings.bind]
    split
    · rfl
    · rw [List.map_cons, ih]

/-- What is bound to a name is found under it. -/
theorem Bindings.lookup_mapSpans (name : String) (bindings : Bindings) :
    (bindings.map fun binding => (binding.1, binding.2.mapSpans f)).lookup name =
      (bindings.lookup name).map (Value.mapSpans f) := by
  induction bindings with
  | nil => rfl
  | cons binding rest ih =>
    obtain ⟨other, value⟩ := binding
    rw [List.map_cons, List.lookup_cons, List.lookup_cons, ih]
    cases name == other <;> rfl

namespace Heap

/-- Each frame is changed in its place. -/
theorem frame?_mapSpans (heap : Heap) (id : FrameId) :
    (heap.mapSpans f).frame? id = (heap.frame? id).map (Frame.mapSpans f) := by
  simp only [frame?, mapSpans, Array.getElem?_map]
  cases heap.frames[id.index]? <;> rfl

/-- A name is looked up along the scopes, which have no spans. -/
theorem lookup_mapSpans (heap : Heap) (id : FrameId) (name : String) :
    (heap.mapSpans f).lookup id name = (heap.lookup id name).map (Value.mapSpans f) := by
  have hsize : (heap.mapSpans f).frames.size = heap.frames.size := by simp [mapSpans]
  unfold lookup
  rw [hsize]
  generalize heap.frames.size = steps
  induction steps generalizing id with
  | zero => rfl
  | succ steps ih =>
    rw [lookupWithin, lookupWithin, frame?_mapSpans]
    cases heap.frame? id with
    | none => rfl
    | some frame =>
      simp only [Option.map_some, Frame.mapSpans, Bindings.lookup_mapSpans]
      cases frame.bindings.lookup name with
      | some value => rfl
      | none =>
        cases frame.outer with
        | none => rfl
        | some outer => exact ih outer

/-- A new frame is empty. -/
theorem newFrame_mapSpans (outer : Option FrameId) (heap : Heap) :
    (heap.mapSpans f).newFrame outer =
      ((heap.newFrame outer).1, (heap.newFrame outer).2.mapSpans f) := by
  simp [newFrame, mapSpans, Frame.mapSpans]

/-- What is bound is changed before or after. -/
theorem bind_mapSpans (id : FrameId) (name : String) (value : Value) (heap : Heap) :
    (heap.mapSpans f).bind id name (value.mapSpans f) = (heap.bind id name value).mapSpans f := by
  simp only [bind, mapSpans, Heap.mk.injEq, and_true]
  apply Array.ext_getElem?
  intro index
  simp only [Array.getElem?_modify, Array.getElem?_map]
  split
  · cases heap.frames[index]? with
    | none => rfl
    | some slot =>
      cases slot with
      | none => rfl
      | some frame => simp [Frame.mapSpans, Bindings.bind_mapSpans]
  · rfl

/-- Parameters are bound one by one. -/
theorem bindAll_mapSpans (id : FrameId) (names : List Name) (values : List Value) (heap : Heap) :
    (heap.mapSpans f).bindAll id (names.map (Name.mapSpan f)) (values.map (Value.mapSpans f)) =
      (heap.bindAll id names values).mapSpans f := by
  induction names generalizing values heap with
  | nil => simp [bindAll]
  | cons name names ih =>
    cases values with
    | nil => simp [bindAll]
    | cons value values =>
      simp only [List.map_cons, bindAll, Name.text_mapSpan, bind_mapSpans, ih]

/-! ## Collections -/

end Heap

/-- The handles that are stored in values are the same. -/
@[simp] theorem storedHandles_mapSpans (values : List Value) :
    storedHandles (values.map (Value.mapSpans f)) = storedHandles values := by
  unfold storedHandles
  rw [List.filterMap_map]
  congr 1
  funext value
  simp [Value.handle?]

/-- The parts of entries are changed one by one. -/
theorem Entry.parts_mapSpans (entries : List Entry) :
    Entry.parts (mapSpansOfEntries f entries) =
      (Entry.parts entries).map (Value.mapSpans f) := by
  induction entries with
  | nil => rfl
  | cons entry rest ih =>
    obtain ⟨key, name, value⟩ := entry
    simpa [Entry.parts, mapSpansOfEntries, Entry.mapSpans] using ih

namespace Graph

mutual

/-- A graph has no spans. -/
theorem visit_mapSpans (graph : Graph) (value : Value) :
    graph.visit (value.mapSpans f) = graph.visit value := by
  match value with
  | .null | .integer _ | .boolean _ | .string _ | .builtin _ => rfl
  | .array id elements =>
    simp only [Value.mapSpans, visit, visitAll_mapSpans _ elements]
    rw [mapSpansOfValues_eq_map, storedHandles_mapSpans]
  | .hash id entries =>
    simp only [Value.mapSpans, visit, visitEntries_mapSpans _ entries, Entry.parts_mapSpans,
      storedHandles_mapSpans]
  | .function _ _ _ => rfl

/-- Nor does a walk through values see any. -/
theorem visitAll_mapSpans (graph : Graph) (values : List Value) :
    graph.visitAll (mapSpansOfValues f values) = graph.visitAll values := by
  match values with
  | [] => rfl
  | value :: rest =>
    simp only [mapSpansOfValues, visitAll, visit_mapSpans _ value, visitAll_mapSpans _ rest]

/-- A visit does not see the spans in some entries. -/
theorem visitEntries_mapSpans (graph : Graph) (entries : List Entry) :
    graph.visitEntries (mapSpansOfEntries f entries) = graph.visitEntries entries := by
  match entries with
  | [] => rfl
  | entry :: rest =>
    simp only [mapSpansOfEntries, visitEntries, visitEntry_mapSpans _ entry,
      visitEntries_mapSpans _ rest]

/-- A visit does not see the spans in one entry. -/
theorem visitEntry_mapSpans (graph : Graph) (entry : Entry) :
    graph.visitEntry (entry.mapSpans f) = graph.visitEntry entry := by
  match entry with
  | ⟨_, name, value⟩ =>
    simp only [Entry.mapSpans, visitEntry, visit_mapSpans _ name, visit_mapSpans _ value]

end

/-- A frame has the same edges. -/
theorem visitFrame_mapSpans (graph : Graph) (id : FrameId) (frame : Frame) :
    graph.visitFrame id (frame.mapSpans f) = graph.visitFrame id frame := by
  have hvalues : (frame.mapSpans f).bindings.map Prod.snd =
      mapSpansOfValues f (frame.bindings.map Prod.snd) := by
    simp [Frame.mapSpans, mapSpansOfValues_eq_map]
  have hhandles : (frame.mapSpans f).handles = frame.handles := by
    unfold Frame.handles
    rw [hvalues, mapSpansOfValues_eq_map, storedHandles_mapSpans]
    rfl
  unfold visitFrame
  rw [hhandles, hvalues, visitAll_mapSpans]

end Graph

namespace Heap

/-- The same frames are alive, with their bindings changed. -/
theorem liveFrames_mapSpans (heap : Heap) :
    (heap.mapSpans f).liveFrames = heap.liveFrames.map fun live => (live.1, live.2.mapSpans f) := by
  unfold liveFrames
  rw [List.map_filterMap]
  congr 1
  funext id
  rw [frame?_mapSpans]
  cases heap.frame? id <;> rfl

/-- The same frames are alive, in the same order. -/
theorem liveIds_mapSpans (heap : Heap) :
    (heap.mapSpans f).liveFrames.map Prod.fst = heap.liveFrames.map Prod.fst := by
  simp [liveFrames_mapSpans]

/-- So the graph of a heap is the same. -/
theorem graph_mapSpans (heap : Heap) : (heap.mapSpans f).graph = heap.graph := by
  unfold graph Graph.ofFrames
  rw [liveFrames_mapSpans, List.foldl_map]
  simp only [Graph.visitFrame_mapSpans]

/-- The graph of a heap and what is held is the same. -/
theorem world_mapSpans (heap : Heap) (roots : Roots) :
    (heap.mapSpans f).world (roots.mapSpans f) = heap.world roots := by
  unfold world
  rw [graph_mapSpans, Roots.mapSpans, ← mapSpansOfValues_eq_map, Graph.visitAll_mapSpans]

/-- Roots have the same handles. -/
theorem handles_mapSpans (roots : Roots) : (roots.mapSpans f).handles = roots.handles := by
  unfold Roots.handles Roots.mapSpans
  rw [storedHandles_mapSpans]

/-- Frames may be dropped before or after the spans are changed. -/
theorem drop_mapSpans (ids : List FrameId) (heap : Heap) :
    (heap.mapSpans f).drop ids = (heap.drop ids).mapSpans f := by
  simp only [drop, mapSpans, Heap.mk.injEq, and_true]
  apply List.foldl_hom
  intro frames id
  simp

/-- Frames may be emptied before or after. -/
theorem clear_mapSpans (ids : List FrameId) (heap : Heap) :
    (heap.mapSpans f).clear ids = (heap.clear ids).mapSpans f := by
  simp only [clear, mapSpans, Heap.mk.injEq, and_true]
  apply List.foldl_hom
  intro frames id
  apply Array.ext_getElem?
  intro index
  simp only [Array.getElem?_modify, Array.getElem?_map]
  split
  · cases frames[index]? with
    | none => rfl
    | some slot => cases slot <;> rfl
  · rfl

/-- What is dropped is the same. -/
theorem release_mapSpans (roots : Roots) (heap : Heap) :
    (heap.mapSpans f).release (roots.mapSpans f) = (heap.release roots).mapSpans f := by
  unfold release
  rw [world_mapSpans, handles_mapSpans, liveIds_mapSpans, drop_mapSpans]

/-- The registry may be pruned before or after. -/
theorem prune_mapSpans (heap : Heap) : (heap.mapSpans f).prune = heap.prune.mapSpans f := by
  have halive : (heap.mapSpans f).isAlive = heap.isAlive := by
    funext id
    simp [isAlive, frame?_mapSpans]
  unfold prune
  rw [halive]
  rfl

/-- What a collection clears is the same. -/
theorem garbage_mapSpans (roots : Roots) (heap : Heap) :
    (heap.mapSpans f).garbage (roots.mapSpans f) = heap.garbage roots := by
  unfold garbage
  rw [graph_mapSpans, world_mapSpans, handles_mapSpans, liveIds_mapSpans]

/-- A collection does not see spans. -/
theorem collect_mapSpans (roots : Roots) (heap : Heap) :
    (heap.mapSpans f).collect (roots.mapSpans f) =
      ((heap.collect roots).1, (heap.collect roots).2.mapSpans f) := by
  unfold collect
  simp only [release_mapSpans, prune_mapSpans, garbage_mapSpans, clear_mapSpans]
  rfl

end Heap

/-- Whether the time of a collection does not depend on spans. -/
def Setup.BlindTo (setup : Setup) : Prop := ∀ heap, setup.due (heap.mapSpans f) = setup.due heap

/-- The usual setup counts frames. -/
theorem Setup.blindTo_standard (files : Files) (callDepth : Nat) :
    (Setup.standard files callDepth).BlindTo f := fun _ => rfl

/-- A frame is made, and a collection is run, at the same times. -/
theorem Heap.allocate_mapSpans {setup : Setup} (hblind : setup.BlindTo f) (roots : Roots)
    (outer : Option FrameId) (heap : Heap) :
    (heap.mapSpans f).allocate setup.due (roots.mapSpans f) outer =
      ((heap.allocate setup.due roots outer).1,
        (heap.allocate setup.due roots outer).2.mapSpans f) := by
  have hroots : outer.elim (roots.mapSpans f) (roots.mapSpans f).holdFrame =
      (outer.elim roots roots.holdFrame).mapSpans f := by
    cases outer <;> rfl
  unfold allocate
  simp only [hblind heap, hroots, collect_mapSpans]
  split <;> exact newFrame_mapSpans f outer _

end Scriptlet
