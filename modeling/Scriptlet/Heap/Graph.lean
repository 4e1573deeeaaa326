import Scriptlet.Heap
import Std.Data.HashMap
import Std.Data.HashSet

set_option autoImplicit false

/-!
# Frames and objects as a graph

A *handle* refers to a frame or to an object.  Frames store handles in their outer link and their
bindings, arrays and hashes in their elements and entries, functions in the frame they were made
in.  A graph records, for some frames and for the objects that can be reached from their bindings,
which handles each of them stores, and how often.

An object is entered when it is first met.  What is met again is not entered again, so the work is
proportional to the number of handles, however often contents are shared.
-/

namespace Scriptlet

/-- A reference to a frame or to an object. -/
inductive Handle where
  | frame (id : FrameId)
  | object (id : ObjectId)
  deriving DecidableEq, Hashable, Repr, Inhabited

/-! ## Stored handles -/

/-- The handle that a value is, if it is an object. -/
def Value.handle? (value : Value) : Option Handle := value.object?.map .object

/-- The handles among some values. -/
def storedHandles (values : List Value) : List Handle := values.filterMap Value.handle?

/-- The names and values of some entries. -/
def Entry.parts (entries : List Entry) : List Value :=
  entries.flatMap fun entry => [entry.name, entry.value]

/-- The handles that a frame stores. -/
def Frame.handles (frame : Frame) : List Handle :=
  frame.outer.toList.map .frame ++ storedHandles (frame.bindings.map Prod.snd)

/-! ## Graphs -/

/-- Frames and objects, each with the handles it stores. -/
structure Graph where
  nodes : List (Handle × List Handle)
  /-- which handles have a node -/
  entered : Std.HashSet Handle
  deriving Inhabited

namespace Graph

/-- The graph without nodes. -/
def empty : Graph := ⟨[], ∅⟩

/-- The graph with one more node. -/
def enter (node : Handle) (handles : List Handle) (graph : Graph) : Graph :=
  ⟨(node, handles) :: graph.nodes, graph.entered.insert node⟩

mutual

/-- The graph with a value, if it is an object, and all objects that can be reached from it
through arrays and hashes. -/
def visit (graph : Graph) : Value → Graph
  | .array id elements =>
    if graph.entered.contains (.object id) then graph
    else (graph.enter (.object id) (storedHandles elements)).visitAll elements
  | .hash id entries =>
    if graph.entered.contains (.object id) then graph
    else (graph.enter (.object id) (storedHandles (Entry.parts entries))).visitEntries entries
  | .function id _ frame =>
    if graph.entered.contains (.object id) then graph
    else graph.enter (.object id) [.frame frame]
  | .null | .integer _ | .boolean _ | .string _ | .builtin _ => graph

/-- The graph with some values. -/
def visitAll (graph : Graph) : List Value → Graph
  | [] => graph
  | value :: rest => (graph.visit value).visitAll rest

/-- The graph with the names and values of some entries. -/
def visitEntries (graph : Graph) : List Entry → Graph
  | [] => graph
  | entry :: rest => (graph.visitEntry entry).visitEntries rest

/-- The graph with the name and the value of an entry. -/
def visitEntry (graph : Graph) : Entry → Graph
  | ⟨_, name, value⟩ => (graph.visit name).visit value

end

/-- The graph with a frame and all objects that can be reached from its bindings. -/
def visitFrame (graph : Graph) (id : FrameId) (frame : Frame) : Graph :=
  (graph.enter (.frame id) frame.handles).visitAll (frame.bindings.map Prod.snd)

/-- The graph of some frames. -/
def ofFrames (frames : List (FrameId × Frame)) : Graph :=
  frames.foldl (fun graph entry => graph.visitFrame entry.1 entry.2) empty

/-- All handles that the nodes store. -/
def handles (graph : Graph) : List Handle := graph.nodes.flatMap Prod.snd

end Graph

/-! ## Counting -/

/-- How often each handle occurs in a list. -/
def tally (handles : List Handle) : Std.HashMap Handle Nat :=
  handles.foldl (fun counts handle => counts.insert handle (counts.getD handle 0 + 1)) ∅

theorem getD_foldl_insert (handles : List Handle) (counts : Std.HashMap Handle Nat)
    (wanted : Handle) :
    (handles.foldl (fun counts handle => counts.insert handle (counts.getD handle 0 + 1))
      counts).getD wanted 0 = counts.getD wanted 0 + handles.count wanted := by
  induction handles generalizing counts with
  | nil => simp
  | cons handle rest ih =>
    rw [List.foldl_cons, ih, Std.HashMap.getD_insert, List.count_cons]
    by_cases same : handle = wanted
    · subst same
      simp only [beq_self_eq_true, if_true]
      omega
    · simp [same]

/-- The tally counts. -/
theorem getD_tally (handles : List Handle) (wanted : Handle) :
    (tally handles).getD wanted 0 = handles.count wanted := by
  rw [tally, getD_foldl_insert, Std.HashMap.getD_empty, Nat.zero_add]

end Scriptlet
