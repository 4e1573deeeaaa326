import Scriptlet.Value

set_option autoImplicit false

/-!
# Scopes

A *frame* binds names to values and may have an outer frame.  The heap holds the frames that have
been made.  A name is looked up in a frame and then in the frames around it, and bound in the
frame itself: no binding ever changes an outer frame.

Frames and objects are named by counting, so a name is never used twice.  A frame that has been
dropped leaves its place in the heap empty.

The heap also keeps the *registry* of frames that a collection has to look at: every new frame
enters it, and only a collection takes entries out.
-/

namespace Scriptlet

/-! ## Bindings -/

/-- Names with their values, each name once. -/
abbrev Bindings := List (String × Value)

/-- The bindings with a name bound to a value. -/
def Bindings.bind (name : String) (value : Value) : Bindings → Bindings
  | [] => [(name, value)]
  | (other, old) :: rest =>
    if other = name then (name, value) :: rest else (other, old) :: Bindings.bind name value rest

theorem Bindings.lookup_bind_self (name : String) (value : Value) (bindings : Bindings) :
    (bindings.bind name value).lookup name = some value := by
  induction bindings with
  | nil => simp [Bindings.bind]
  | cons binding rest ih =>
    obtain ⟨other, old⟩ := binding
    rw [Bindings.bind]
    split
    · simp
    next different =>
      rw [List.lookup_cons, beq_eq_false_iff_ne.2 (Ne.symm different)]
      exact ih

theorem Bindings.lookup_bind_of_ne {name wanted : String} (h : wanted ≠ name) (value : Value)
    (bindings : Bindings) : (bindings.bind name value).lookup wanted = bindings.lookup wanted := by
  induction bindings with
  | nil => simp [Bindings.bind, List.lookup_cons, beq_eq_false_iff_ne.2 h]
  | cons binding rest ih =>
    obtain ⟨other, old⟩ := binding
    rw [Bindings.bind]
    split
    next same =>
      subst same
      simp only [List.lookup_cons, beq_eq_false_iff_ne.2 h]
    · simp only [List.lookup_cons, ih]

/-! ## Frames and the heap -/

/-- A scope: its bindings, and the scope around it. -/
structure Frame where
  bindings : Bindings
  outer : Option FrameId
  deriving Inhabited

/-- The least number of registered frames at which a collection is due. -/
def minThreshold : Nat := 1024

/-- All frames, and what is needed to name and collect them. -/
structure Heap where
  /-- the frame of each name, or nothing once it has been dropped -/
  frames : Array (Option Frame)
  /-- the name of the next object -/
  nextObject : Nat
  /-- the frames made and not yet seen dropped by a collection -/
  registry : Array FrameId
  /-- the number of registered frames at which a collection is due -/
  threshold : Nat

namespace Heap

/-- The heap without frames. -/
def empty : Heap := ⟨#[], 0, #[], minThreshold⟩

instance : Inhabited Heap := ⟨empty⟩

/-- The frame of a name, unless it has been dropped. -/
def frame? (heap : Heap) (id : FrameId) : Option Frame := heap.frames[id.index]?.join

/-- Whether a frame has not been dropped. -/
def isAlive (heap : Heap) (id : FrameId) : Bool := (heap.frame? id).isSome

/-- Whether a collection is due before the next frame is made. -/
def isCollectionDue (heap : Heap) : Bool := heap.threshold ≤ heap.registry.size

/-- A new object identity. -/
def newObject (heap : Heap) : ObjectId × Heap :=
  (⟨heap.nextObject⟩, { heap with nextObject := heap.nextObject + 1 })

/-- A new frame without bindings. -/
def newFrame (outer : Option FrameId) (heap : Heap) : FrameId × Heap :=
  let id : FrameId := ⟨heap.frames.size⟩
  let frames := heap.frames.push (some ⟨[], outer⟩)
  (id, { heap with frames := frames, registry := heap.registry.push id })

/-- The heap with a name bound to a value in a frame. -/
def bind (id : FrameId) (name : String) (value : Value) (heap : Heap) : Heap :=
  { heap with
    frames := heap.frames.modify id.index fun frame =>
      frame.map fun frame => { frame with bindings := frame.bindings.bind name value } }

/-- The heap with parameters bound to arguments in a frame, pair by pair, in order.  What is left
over on either side is not bound. -/
def bindAll (id : FrameId) (names : List Name) (values : List Value) (heap : Heap) : Heap :=
  match names, values with
  | name :: names, value :: values => (heap.bind id name.text value).bindAll id names values
  | _, _ => heap

/-- The value of a name in at most `steps` frames of a chain of scopes. -/
def lookupWithin (heap : Heap) (name : String) : Nat → FrameId → Option Value
  | 0, _ => none
  | steps + 1, id =>
    match heap.frame? id with
    | none => none
    | some frame =>
      match frame.bindings.lookup name with
      | some value => some value
      | none =>
        match frame.outer with
        | some outer => heap.lookupWithin name steps outer
        | none => none

/-- The value of a name as seen from a frame: from the nearest frame of its chain that binds it.
A chain is no longer than there are frames. -/
def lookup (heap : Heap) (id : FrameId) (name : String) : Option Value :=
  heap.lookupWithin name heap.frames.size id

/-- The frame around a frame. -/
def outer? (heap : Heap) (id : FrameId) : Option FrameId := (heap.frame? id).bind Frame.outer

/-- The names that a frame binds, in order. -/
def boundNames (heap : Heap) (id : FrameId) : List String :=
  match heap.frame? id with
  | some frame => (frame.bindings.map Prod.fst).mergeSort
  | none => []

/-! ## What each operation does to the frames -/

@[simp] theorem frame?_newObject (heap : Heap) (id : FrameId) :
    heap.newObject.2.frame? id = heap.frame? id := rfl

theorem frame?_newFrame_self (outer : Option FrameId) (heap : Heap) :
    (heap.newFrame outer).2.frame? (heap.newFrame outer).1 = some ⟨[], outer⟩ := by
  simp [frame?, newFrame]

theorem frame?_newFrame_of_ne {outer : Option FrameId} {heap : Heap} {id : FrameId}
    (h : id ≠ (heap.newFrame outer).1) : (heap.newFrame outer).2.frame? id = heap.frame? id := by
  have other : id.index ≠ heap.frames.size := fun same => h (by cases id; simp_all [newFrame])
  simp [frame?, newFrame, Array.getElem?_push, other]

theorem frame?_bind_self (id : FrameId) (name : String) (value : Value) (heap : Heap) :
    (heap.bind id name value).frame? id =
      (heap.frame? id).map fun frame =>
        { frame with bindings := frame.bindings.bind name value } := by
  simp only [frame?, bind, Array.getElem?_modify, if_true]
  cases heap.frames[id.index]? with
  | none => rfl
  | some slot => cases slot <;> rfl

theorem frame?_bind_of_ne {id other : FrameId} (h : other ≠ id) (name : String) (value : Value)
    (heap : Heap) : (heap.bind id name value).frame? other = heap.frame? other := by
  have different : id.index ≠ other.index := fun same => h (by cases id; cases other; simp_all)
  simp [frame?, bind, Array.getElem?_modify, different]

end Heap

end Scriptlet
