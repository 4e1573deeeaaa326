import Scriptlet.Heap.Graph

set_option autoImplicit false

/-!
# Taking stock of the heap

`Graph.visit` follows the contents of an object where it meets them, which takes as much room as
contents are nested.  This module takes the same stock with a list of the values that still have to
be looked at (`ObjectGraph.visitPending`), and with each frame and object also notes how many handles
there are to it, in all (`Node.strong`) and in what was taken stock of (`Node.internal`).

What is met again is not entered again, but every time it is met there is one more handle to it in
the node of whatever stores it.
-/

namespace Scriptlet

/-- What is noted of a frame or an object. -/
structure Node where
  /-- the number of handles to it -/
  strong : Nat
  /-- how many of them are stored in nodes -/
  internal : Nat
  /-- the handles that it stores -/
  edges : List Handle
  /-- the place of a frame in the list of frames -/
  frame : Option Nat
  deriving Repr, Inhabited

/-- The node with one more handle to it found in a node. -/
def Node.refer (node : Node) : Node := { node with internal := node.internal + 1 }

/-- The nodes of frames and objects. -/
abbrev ObjectGraph := Std.HashMap Handle Node

namespace ObjectGraph

/-! ## Contents -/

/-- Adds a value to the handles of an object that stores it, and to the values that have to be
looked at, if it is an object itself. -/
def pushChild (found : List Handle × List Value) (value : Value) : List Handle × List Value :=
  match value.handle? with
  | some handle => (found.1 ++ [handle], value :: found.2)
  | none => found

/-- The handles that an object stores, and what has to be looked at with its contents. -/
def pushChildren (pending : List Value) : Value → List Handle × List Value
  | .array _ elements => elements.foldl pushChild ([], pending)
  | .hash _ entries =>
    entries.foldl (fun found entry => pushChild (pushChild found entry.name) entry.value)
      ([], pending)
  | .function _ _ frame => ([.frame frame], pending)
  | .null | .integer _ | .boolean _ | .string _ | .builtin _ => ([], pending)

/-- The size of all that has to be looked at, which gets less at every step. -/
noncomputable def weight (pending : List Value) : Nat :=
  pending.foldr (fun value total => sizeOf value + total) 0

theorem weight_cons (value : Value) (pending : List Value) :
    weight (value :: pending) = sizeOf value + weight pending :=
  rfl

theorem weight_lt_cons (value : Value) (pending : List Value) :
    weight pending < weight (value :: pending) := by
  have hpos : 0 < sizeOf value := by cases value <;> simp +arith
  rw [weight_cons]
  omega

theorem weight_pushChild_le (found : List Handle × List Value) (value : Value) :
    weight (pushChild found value).2 ≤ sizeOf value + weight found.2 := by
  unfold pushChild
  split
  · exact Nat.le_of_eq (weight_cons _ _)
  · exact Nat.le_add_left _ _

theorem weight_elements_lt (elements : List Value) (found : List Handle × List Value) :
    weight (elements.foldl pushChild found).2 < sizeOf elements + weight found.2 := by
  induction elements generalizing found with
  | nil => exact Nat.lt_add_of_pos_left (Nat.zero_lt_succ _)
  | cons element rest ih =>
    have hrest := ih (pushChild found element)
    have hfirst := weight_pushChild_le found element
    rw [List.foldl_cons, List.cons.sizeOf_spec]
    omega

theorem weight_entries_lt (entries : List Entry) (found : List Handle × List Value) :
    weight (entries.foldl
      (fun found entry => pushChild (pushChild found entry.name) entry.value) found).2 <
        sizeOf entries + weight found.2 := by
  induction entries generalizing found with
  | nil => exact Nat.lt_add_of_pos_left (Nat.zero_lt_succ _)
  | cons entry rest ih =>
    have hrest := ih (pushChild (pushChild found entry.name) entry.value)
    have hname := weight_pushChild_le found entry.name
    have hvalue := weight_pushChild_le (pushChild found entry.name) entry.value
    have hentry : sizeOf entry = 1 + sizeOf entry.key + sizeOf entry.name + sizeOf entry.value := by
      cases entry
      rfl
    rw [List.foldl_cons, List.cons.sizeOf_spec]
    omega

/-- Contents are smaller than what holds them. -/
theorem weight_pushChildren_lt (pending : List Value) (value : Value) :
    weight (pushChildren pending value).2 < weight (value :: pending) := by
  cases value with
  | array id elements =>
    have hlt : _ < _ + weight pending := weight_elements_lt elements ([], pending)
    rw [pushChildren, weight_cons, Value.array.sizeOf_spec]
    omega
  | hash id entries =>
    have hlt : _ < _ + weight pending := weight_entries_lt entries ([], pending)
    rw [pushChildren, weight_cons, Value.hash.sizeOf_spec]
    omega
  | function _ _ _ | null | integer _ | boolean _ | string _ | builtin _ =>
    exact weight_lt_cons _ pending

/-! ## Visits -/

section

variable (strong : Handle → Nat)

/-- Looks at all values that have to be looked at, and at their contents, the latest first.  Enters
the objects among them that have no node, and adds the first of them to the handles of whatever
stores it.  A value that is no object is passed over. -/
def visitPending (graph : ObjectGraph) (pending : List Value) (first : Bool)
    (edges : List Handle) : ObjectGraph × List Handle :=
  match pending with
  | [] => (graph, edges)
  | value :: pending =>
    match value.handle? with
    | none => visitPending graph pending first edges
    | some handle =>
      let edges := if first then edges ++ [handle] else edges
      if graph.contains handle then visitPending graph pending false edges
      else
        let found := pushChildren pending value
        visitPending (graph.insert handle ⟨strong handle, 0, found.1, none⟩) found.2 false edges
termination_by weight pending
decreasing_by
  · exact weight_lt_cons value pending
  · exact weight_lt_cons value pending
  · exact weight_pushChildren_lt pending value

/-- Looks at a value, and adds it to the handles of what stores it. -/
def visit (found : ObjectGraph × List Handle) (value : Value) : ObjectGraph × List Handle :=
  visitPending strong found.1 [value] true found.2

/-- Looks at what a frame binds, and enters the frame. -/
def visitFrame (graph : ObjectGraph) (place : Nat) (id : FrameId) (frame : Frame) : ObjectGraph :=
  let found := (frame.bindings.map Prod.snd).foldl (visit strong)
    (graph, frame.outer.toList.map .frame)
  found.1.insert (.frame id) ⟨strong (.frame id), 0, found.2, some place⟩

/-- The nodes of some frames, without counts. -/
def gather (frames : List (FrameId × Frame)) : ObjectGraph :=
  frames.zipIdx.foldl (fun graph entry => graph.visitFrame strong entry.2 entry.1.1 entry.1.2) ∅

/-- All handles that the nodes store. -/
def handles (graph : ObjectGraph) : List Handle := graph.toList.flatMap fun entry => entry.2.edges

/-- The graph of some frames, given how many handles there are to each frame and each object. -/
def build (frames : List (FrameId × Frame)) : ObjectGraph :=
  let graph := gather strong frames
  graph.handles.foldl (fun graph target => graph.modify target Node.refer) graph

end

end ObjectGraph

end Scriptlet
