import Scriptlet.Heap.Graph

set_option autoImplicit false

/-!
# How frames die

A frame is dropped as soon as nothing refers to it any more, and with it goes what only it
referred to.  Nothing shows when exactly that happens, so the heap is brought up to date where it
matters: `Heap.release` drops, round by round, every frame that neither the outside nor anything
kept refers to.

Frames that refer to each other in a cycle are never without a reference.  `Heap.collect` finds
the ones that the outside cannot reach.  It does not follow references from the outside: it counts
them.  In the graph of all live frames it compares, for every node, the references there are to it
in all with those that the graph stores itself.  A node with more of the former is held from
outside, and what can be reached from such nodes stays.  The other frames are cleared, which breaks
their cycles, and released.

What the outside holds is passed in as `Roots`: handles to frames, and values.
-/

namespace Scriptlet

/-- What is held from outside the heap, each handle as often as it is held. -/
structure Roots where
  frames : List FrameId
  values : List Value
  deriving Inhabited

namespace Roots

/-- The roots with one more value. -/
def hold (roots : Roots) (value : Value) : Roots := { roots with values := value :: roots.values }

/-- The roots with some more values. -/
def holdAll (roots : Roots) (values : List Value) : Roots :=
  { roots with values := values ++ roots.values }

/-- The roots with one more frame. -/
def holdFrame (roots : Roots) (id : FrameId) : Roots := { roots with frames := id :: roots.frames }

/-- The handles held. -/
def handles (roots : Roots) : List Handle :=
  roots.frames.map .frame ++ storedHandles roots.values

end Roots

/-! ## Dropping what nothing refers to -/

/-- The nodes that a root or a node refers to. -/
def referredTo (roots : List Handle) (nodes : List (Handle × List Handle)) :
    List (Handle × List Handle) :=
  let held := Std.HashSet.ofList (roots ++ nodes.flatMap Prod.snd)
  nodes.filter fun node => held.contains node.1

/-- The nodes left after at most so many rounds of dropping those that nothing left refers to. -/
def survivors (roots : List Handle) :
    Nat → List (Handle × List Handle) → List (Handle × List Handle)
  | 0, nodes => nodes
  | rounds + 1, nodes =>
    let kept := referredTo roots nodes
    if kept.length = nodes.length then nodes else survivors roots rounds kept

/-! ## Finding what can be reached -/

/-- The marks and the waiting list with the handles that are not marked yet added to both. -/
def markNew (marked : Std.HashSet Handle) (waiting : List Handle) :
    List Handle → Std.HashSet Handle × List Handle
  | [] => (marked, waiting)
  | handle :: rest =>
    if marked.contains handle then markNew marked waiting rest
    else markNew (marked.insert handle) (handle :: waiting) rest

/-- The marks after following the handles that at most so many waiting nodes store. -/
def markFrom (stored : Std.HashMap Handle (List Handle)) :
    Nat → Std.HashSet Handle → List Handle → Std.HashSet Handle
  | 0, marked, _ => marked
  | _, marked, [] => marked
  | steps + 1, marked, handle :: waiting =>
    match markNew marked waiting (stored.getD handle []) with
    | (marked, waiting) => markFrom stored steps marked waiting

namespace Graph

/-- What can be reached from some nodes along stored handles.  No handle waits twice, so the
number of nodes and of stored handles bounds the steps. -/
def reachable (graph : Graph) (sources : List Handle) : Std.HashSet Handle :=
  match markNew ∅ [] sources with
  | (marked, waiting) =>
    markFrom (Std.HashMap.ofList graph.nodes) (sources.length + graph.handles.length) marked waiting

/-- The nodes to which there are more references in all than the graph stores itself. -/
def heldFromOutside (graph : Graph) (all : List Handle) : List Handle :=
  let strong := tally all
  let internal := tally graph.handles
  (graph.nodes.map Prod.fst).filter fun node => internal.getD node 0 < strong.getD node 0

end Graph

namespace Heap

/-- The registered frames that have not been dropped. -/
def liveFrames (heap : Heap) : List (FrameId × Frame) :=
  heap.registry.toList.filterMap fun id => (heap.frame? id).map fun frame => (id, frame)

/-- The graph of the registered frames. -/
def graph (heap : Heap) : Graph := Graph.ofFrames heap.liveFrames

/-- The graph with the objects that only the outside holds. -/
def world (heap : Heap) (roots : Roots) : Graph := heap.graph.visitAll roots.values

/-- The heap with some frames dropped. -/
def drop (ids : List FrameId) (heap : Heap) : Heap :=
  { heap with
    frames := ids.foldl (fun frames id => frames.setIfInBounds id.index none) heap.frames }

/-- The heap with some frames emptied: no bindings, no outer frame. -/
def clear (ids : List FrameId) (heap : Heap) : Heap :=
  { heap with
    frames := ids.foldl (fun frames id => frames.modify id.index (·.map fun _ => ⟨[], none⟩))
      heap.frames }

/-- The heap without the frames that nothing refers to. -/
def release (roots : Roots) (heap : Heap) : Heap :=
  let nodes := (heap.world roots).nodes
  let kept := Std.HashSet.ofList ((survivors roots.handles nodes.length nodes).map Prod.fst)
  heap.drop ((heap.liveFrames.map Prod.fst).filter fun id => !kept.contains (.frame id))

/-- The heap with only live frames in its registry. -/
def prune (heap : Heap) : Heap :=
  { heap with registry := heap.registry.filter heap.isAlive }

/-- The live frames that the outside cannot reach. -/
def garbage (roots : Roots) (heap : Heap) : List FrameId :=
  let graph := heap.graph
  let held := graph.heldFromOutside ((heap.world roots).handles ++ roots.handles)
  let marked := graph.reachable held
  (heap.liveFrames.map Prod.fst).filter fun id => !marked.contains (.frame id)

/-- Frees every frame that the outside cannot reach; also says how many were still alive. -/
def collect (roots : Roots) (heap : Heap) : Nat × Heap :=
  let heap := (heap.release roots).prune
  let garbage := heap.garbage roots
  let heap := ((heap.clear garbage).release roots).prune
  (garbage.length, { heap with threshold := max (2 * heap.registry.size) minThreshold })

/-- A new frame, with a collection before it if `due` asks for one. -/
def allocate (due : Heap → Bool) (roots : Roots) (outer : Option FrameId) (heap : Heap) :
    FrameId × Heap :=
  let roots := outer.elim roots roots.holdFrame
  let heap := if due heap then (heap.collect roots).2 else heap
  heap.newFrame outer

end Heap

end Scriptlet
