import Scriptlet.Proofs.Heap.WellFormed

set_option autoImplicit false

/-!
# Histories of heaps

Component: the environments, the objects and the registry of frames.  Specification: section 3 on
objects that are shared, and section 5, by which later bindings in a frame are visible to all that
share it.

A heap comes about by *moves*: handles are copied and dropped, objects and frames are made, names
are bound, counting drops frames and a collection frees them.  A `History` is any sequence of moves,
told by what they do to frames (`Event`).  When a frame may be made without a collection before it
is left open (`ready`).

What a single move keeps, a history keeps.  Heaps stay well-formed (`History.wellFormed`).  An
object is there afterwards only if it was there before or has an identity that had not been handed
out (`History.has_of_lt`), so an identity never comes to stand for other contents
(`History.eq_of_object?`).  A frame that is left is as it was, but for what was bound in it
(`History.exists_frame`).

    keep, take          handles are dropped and copied
    object, frame       something new is made of what is held
    bind                a name is bound to a value that is held
    release, collect    counting and the collector do their work

Evaluations, conversations and the commands of a host are histories, which is shown elsewhere.  What
is said here of all histories is therefore said of these.
-/

namespace Scriptlet

/-- A heap and what is held of it. -/
structure Holding where
  heap : Heap
  roots : Roots

namespace Holding

/-- Before anything has been made. -/
def start : Holding := ⟨.empty, ⟨[], []⟩⟩

/-- Whether the heap is well-formed for what is held. -/
abbrev WellFormed (holding : Holding) : Prop := holding.heap.WellFormed holding.roots

/-- Whether a value is there: held or bound, or a part of what is. -/
def Has (holding : Holding) (value : Value) : Prop :=
  ∃ whole, holding.heap.Carries holding.roots whole ∧ whole.Part value

end Holding

/-- What a move does to frames. -/
inductive Event where
  | made (id : FrameId)
  | bound (id : FrameId)
  | collected
  | other
  deriving DecidableEq

/-- One move.  What is bound and where has to be held, and what is made is held at first; what is
taken is a part of what is there. -/
inductive Holding.Move (ready : Heap → Prop) : Event → Holding → Holding → Prop where
  | keep {heap : Heap} {roots others : Roots} (within : roots.Within others) :
      Holding.Move ready .other ⟨heap, others⟩ ⟨heap, roots⟩
  | take {heap : Heap} {roots : Roots} {value : Value} (offers : heap.Offers roots value) :
      Holding.Move ready .other ⟨heap, roots⟩ ⟨heap, roots.hold value⟩
  | takeFrame {heap : Heap} {roots : Roots} {id : FrameId} (alive : heap.isAlive id = true) :
      Holding.Move ready .other ⟨heap, roots⟩ ⟨heap, roots.holdFrame id⟩
  | object {heap : Heap} {roots : Roots} {value : Value} (new : heap.Makes roots value) :
      Holding.Move ready .other ⟨heap, roots⟩ ⟨heap.newObject.2, roots.hold value⟩
  | frame {heap : Heap} {roots : Roots} (outer : Option FrameId) (may : ready heap)
      (held : ∀ id, outer = some id → id ∈ roots.frames) :
      Holding.Move ready (.made (heap.newFrame outer).1) ⟨heap, roots⟩
        ⟨(heap.newFrame outer).2, roots.holdFrame (heap.newFrame outer).1⟩
  | bind {heap : Heap} {roots : Roots} {id : FrameId} (name : String) {value : Value}
      (held : id ∈ roots.frames) (inHand : value ∈ roots.values) :
      Holding.Move ready (.bound id) ⟨heap, roots⟩ ⟨heap.bind id name value, roots⟩
  | release {heap : Heap} {roots : Roots} :
      Holding.Move ready .other ⟨heap, roots⟩ ⟨heap.release roots, roots⟩
  | collect {heap : Heap} {roots : Roots} :
      Holding.Move ready .collected ⟨heap, roots⟩ ⟨(heap.collect roots).2, roots⟩

/-- A sequence of moves. -/
inductive History (ready : Heap → Prop) : List Event → Holding → Holding → Prop where
  | nil (holding : Holding) : History ready [] holding holding
  | cons {event : Event} {events : List Event} {before middle after : Holding}
      (first : Holding.Move ready event before middle) (rest : History ready events middle after) :
      History ready (event :: events) before after

/-! ## Counting -/

namespace Heap

variable {heap : Heap} {roots : Roots}

/-- Counting leaves a place for each frame there was. -/
theorem size_frames_release (heap : Heap) (roots : Roots) :
    (heap.release roots).frames.size = heap.frames.size := by
  rw [release_eq, size_frames_drop]

/-- Counting keeps a heap well-formed. -/
theorem WellFormed.release (h : heap.WellFormed roots) : (heap.release roots).WellFormed roots := by
  have hframe : ∀ id frame, (heap.release roots).frame? id = some frame →
      heap.frame? id = some frame := fun id frame here => (h.toSound.frame_mem_remains here).1
  exact {
    toSound := h.toSound.release
    bounded := fun id hid => by
      rw [size_frames_release]
      exact h.bounded id hid
    older := fun id frame outer here => h.older id frame outer (hframe id frame here)
    distinct := fun id frame here => h.distinct id frame (hframe id frame here)
    issued := fun value part object hcarries => h.issued value part object
      (hcarries.of_frames fun id frame here => .inl (hframe id frame here)) }

end Heap

/-! ## Moves -/

namespace Holding.Move

variable {ready : Heap → Prop} {event : Event} {before after : Holding}

/-- Every move keeps a heap well-formed. -/
theorem wellFormed (h : Holding.Move ready event before after) (hbefore : before.WellFormed) :
    after.WellFormed := by
  cases h with
  | keep within => exact Heap.WellFormed.of_within hbefore within
  | take offers => exact Heap.WellFormed.hold hbefore offers
  | takeFrame alive => exact Heap.WellFormed.holdFrame hbefore alive
  | object new => exact Heap.WellFormed.newObject hbefore new
  | frame outer _ held => exact Heap.WellFormed.newFrame hbefore outer held
  | @bind heap roots id name value _ inHand =>
    have hheld : heap.WellFormed (roots.hold value) :=
      Heap.WellFormed.hold hbefore (.of_carries (.held inHand))
    exact hheld.bind id name
  | release => exact Heap.WellFormed.release hbefore
  | collect => exact Heap.WellFormed.collect hbefore

/-- Identities are handed out in order. -/
theorem nextObject_le (h : Holding.Move ready event before after) :
    before.heap.nextObject ≤ after.heap.nextObject := by
  cases h with
  | object => exact Nat.le_succ _
  | keep | take | takeFrame | frame | bind | release | collect => exact Nat.le_refl _

/-- What is there after a move was there before, or is an object with the next identity. -/
theorem has_cases (h : Holding.Move ready event before after) (hbefore : before.WellFormed)
    {value : Value} {object : ObjectId} (hvalue : after.Has value)
    (hobject : value.object? = some object) :
    before.Has value ∨ object.index = before.heap.nextObject := by
  obtain ⟨whole, hwhole, hinside⟩ := hvalue
  cases h with
  | keep within =>
    refine .inl ⟨whole, ?_, hinside⟩
    cases hwhole with
    | held hmem => exact .held (within.values _ hmem)
    | bound here hmem => exact .bound here hmem
  | take offers => exact .inl (offers.exists_part hwhole hinside hobject)
  | takeFrame =>
    refine .inl ⟨whole, ?_, hinside⟩
    cases hwhole with
    | held hmem => exact .held hmem
    | bound here hmem => exact .bound here hmem
  | object new =>
    rcases new.part_cases hwhole hinside with rfl | hwhole
    · rw [new.object] at hobject
      cases hobject
      exact .inr rfl
    · exact .inl hwhole
  | frame => exact .inl ⟨whole, hwhole.of_newFrame, hinside⟩
  | bind name _ inHand =>
    refine .inl ⟨whole, ?_, hinside⟩
    rcases hwhole.of_bind.of_hold with rfl | hcarries
    · exact .held inHand
    · exact hcarries
  | release =>
    refine .inl ⟨whole, hwhole.of_frames fun id frame here => .inl ?_, hinside⟩
    exact (hbefore.toSound.frame_mem_remains here).1
  | collect =>
    refine .inl ⟨whole, hwhole.of_frames fun id frame here => .inl ?_, hinside⟩
    have hreach := hbefore.toSound.reachable_of_isAlive_collect (Heap.isAlive_iff.mpr ⟨frame, here⟩)
    rwa [hbefore.toSound.frame?_collect_of_reachable hreach] at here

/-- There are never fewer frames than before. -/
theorem size_frames_le (h : Holding.Move ready event before after) :
    before.heap.frames.size ≤ after.heap.frames.size := by
  cases h with
  | keep | take | takeFrame | object => exact Nat.le_refl _
  | frame => simp [Heap.newFrame]
  | bind => simp [Heap.bind]
  | release => exact Nat.le_of_eq (Heap.size_frames_release _ _).symm
  | collect => exact Nat.le_of_eq (Heap.size_frames_collect _ _).symm

/-- A frame that is left after a move is as it was, unless a name was bound in it. -/
theorem exists_frame (h : Holding.Move ready event before after) (hbefore : before.WellFormed)
    {id : FrameId} {new : Frame} (hlt : id.index < before.heap.frames.size)
    (hnew : after.heap.frame? id = some new) :
    ∃ old, before.heap.frame? id = some old ∧ new.outer = old.outer ∧
      (event ≠ .bound id → new = old) := by
  cases h with
  | keep | take | takeFrame | object => exact ⟨new, hnew, rfl, fun _ => rfl⟩
  | frame outer =>
    rcases Heap.frame?_newFrame_cases hnew with ⟨rfl, _⟩ | hold
    · exact absurd hlt (Nat.lt_irrefl _)
    · exact ⟨new, hold, rfl, fun _ => rfl⟩
  | @bind heap roots other name value =>
    by_cases hsame : id = other
    · obtain ⟨old, hold, houter, _⟩ := Heap.frame?_bind_cases hnew
      exact ⟨old, hold, houter, fun hne => absurd (congrArg Event.bound hsame.symm) hne⟩
    · change (heap.bind other name value).frame? id = some new at hnew
      rw [Heap.frame?_bind_of_ne hsame] at hnew
      exact ⟨new, hnew, rfl, fun _ => rfl⟩
  | release => exact ⟨new, (hbefore.toSound.frame_mem_remains hnew).1, rfl, fun _ => rfl⟩
  | collect =>
    have hreach := hbefore.toSound.reachable_of_isAlive_collect (Heap.isAlive_iff.mpr ⟨new, hnew⟩)
    refine ⟨new, ?_, rfl, fun _ => rfl⟩
    exact (hbefore.toSound.frame?_collect_of_reachable hreach).symm.trans hnew

end Holding.Move

/-! ## Histories -/

namespace History

variable {ready : Heap → Prop} {events others : List Event} {before middle after : Holding}

/-- Histories are put together. -/
theorem append (h : History ready events before middle) (h' : History ready others middle after) :
    History ready (events ++ others) before after := by
  induction h with
  | nil => exact h'
  | cons first _ ih => exact .cons first (ih h')

/-- So does every history. -/
theorem wellFormed (h : History ready events before after) (hbefore : before.WellFormed) :
    after.WellFormed := by
  induction h with
  | nil => exact hbefore
  | cons first _ ih => exact ih (first.wellFormed hbefore)

/-- Also in the course of time. -/
theorem nextObject_le (h : History ready events before after) :
    before.heap.nextObject ≤ after.heap.nextObject := by
  induction h with
  | nil => exact Nat.le_refl _
  | cons first _ ih => exact Nat.le_trans first.nextObject_le ih

/-- An object whose identity had been handed out before was there before, just as it is after. -/
theorem has_of_lt (h : History ready events before after) (hbefore : before.WellFormed)
    {value : Value} {object : ObjectId} (hvalue : after.Has value)
    (hobject : value.object? = some object) (hlt : object.index < before.heap.nextObject) :
    before.Has value := by
  induction h with
  | nil => exact hvalue
  | cons first _ ih =>
    have hmiddle := ih (first.wellFormed hbefore) hvalue
      (Nat.lt_of_lt_of_le hlt first.nextObject_le)
    rcases first.has_cases hbefore hmiddle hobject with hhas | hnext
    · exact hhas
    · exact absurd hnext (Nat.ne_of_lt hlt)

/-- Also in the course of time. -/
theorem size_frames_le (h : History ready events before after) :
    before.heap.frames.size ≤ after.heap.frames.size := by
  induction h with
  | nil => exact Nat.le_refl _
  | cons first _ ih => exact Nat.le_trans first.size_frames_le ih

/-- A frame that is left is as it was, unless a name was bound in it. -/
theorem exists_frame (h : History ready events before after) (hbefore : before.WellFormed)
    {id : FrameId} {new : Frame} (hlt : id.index < before.heap.frames.size)
    (hnew : after.heap.frame? id = some new) :
    ∃ old, before.heap.frame? id = some old ∧ new.outer = old.outer ∧
      (.bound id ∉ events → new = old) := by
  induction h with
  | nil => exact ⟨new, hnew, rfl, fun _ => rfl⟩
  | cons first _ ih =>
    obtain ⟨mid, hmid, houter, hsame⟩ := ih (first.wellFormed hbefore)
      (Nat.lt_of_lt_of_le hlt first.size_frames_le) hnew
    obtain ⟨old, hold, houter', hsame'⟩ := first.exists_frame hbefore hlt hmid
    refine ⟨old, hold, houter.trans houter', fun hnot => ?_⟩
    have hrest := hsame fun hmem => hnot (List.mem_cons_of_mem _ hmem)
    exact hrest.trans (hsame' fun heq => hnot (heq ▸ List.mem_cons_self))

end History

/-! ## Objects that are there -/

namespace Holding

variable {holding : Holding}

/-- The identity of what is there has been handed out. -/
theorem WellFormed.lt_nextObject (h : holding.WellFormed) {value : Value}
    (hvalue : holding.Has value) {object : ObjectId} (hobject : value.object? = some object) :
    object.index < holding.heap.nextObject := by
  obtain ⟨whole, hwhole, hinside⟩ := hvalue
  exact h.issued whole value object hwhole hinside hobject

/-- One identity stands for one object. -/
theorem WellFormed.eq_of_object? (h : holding.WellFormed) {left right : Value}
    (hleft : holding.Has left) (hright : holding.Has right) {object : ObjectId}
    (hobject : left.object? = some object) (hobject' : right.object? = some object) :
    left = right := by
  obtain ⟨whole, hwhole, hinside⟩ := hleft
  obtain ⟨whole', hwhole', hinside'⟩ := hright
  exact h.coherent whole whole' hwhole hwhole' left right object hinside hinside' hobject hobject'

end Holding

/-- Also in the course of time one identity stands for one object: the contents of an object never
change. -/
theorem History.eq_of_object? {ready : Heap → Prop} {events : List Event} {before after : Holding}
    (h : History ready events before after) (hbefore : before.WellFormed) {left right : Value}
    (hleft : before.Has left) (hright : after.Has right) {object : ObjectId}
    (hobject : left.object? = some object) (hobject' : right.object? = some object) :
    left = right := by
  have hlt := hbefore.lt_nextObject hleft hobject
  exact hbefore.eq_of_object? hleft (h.has_of_lt hbefore hright hobject' hlt) hobject hobject'

end Scriptlet
