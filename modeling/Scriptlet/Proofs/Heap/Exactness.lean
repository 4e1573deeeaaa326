import Scriptlet.Proofs.Heap.WellFormed

set_option autoImplicit false

/-!
# Collections are exact

Component: the collector of frames that refer to each other.  Specification: section 9, by which
shared ownership of environments is done by counting, section 5 on frames that several functions
share, and section 1, by which nothing else about memory is promised.

The collector never follows a reference from the outside: it infers what is held from the numbers
of references.  `Heap.collect_exact` says that nothing is lost by that, for every sound heap and
whatever is held of it.

A heap in which counting has not done its work yet may have live frames that nothing refers to.
Those go before the collection begins, and they are not among the frames it reports; a settled heap
has none.

The hypothesis is soundness and nothing more: what is referred to is alive, live frames are
registered once, and an identity stands for one object.  It says nothing of what can be reached, nor
that the counts agree with it.

The tangle is the smallest heap with all the difficulties in it: a cycle through one array that two
frames bind, and a frame that is kept by a function in an array that only the outside holds.
-/

namespace Scriptlet

namespace Heap

/-- Counting does not prune the registry. -/
theorem registry_release (heap : Heap) (roots : Roots) :
    (heap.release roots).registry = heap.registry := rfl

/-- Counting leaves all live frames of a settled heap alive. -/
theorem Sound.liveFrames_release_of_settled {heap : Heap} {roots : Roots}
    (sound : heap.Sound roots) (settled : heap.Settled roots) :
    (heap.release roots).liveFrames = heap.liveFrames := by
  rw [liveFrames, liveFrames, registry_release]
  exact congrArg (List.filterMap · heap.registry.toList)
    (funext fun id => by rw [sound.frame?_release_of_settled settled])

/-- A collection clears exactly the live frames that the outside cannot reach.  What is reached
stays as it was; what is not is dropped, and nothing refers to it any more.  The number reported is
that of the frames alive before and not after, and another collection finds nothing. -/
theorem collect_exact {heap : Heap} {roots : Roots} (sound : heap.Sound roots) :
    (∀ id, id ∈ (heap.counted roots).garbage roots ↔
      (heap.release roots).isAlive id = true ∧ ¬ heap.Reachable roots id) ∧
    (∀ id, heap.Reachable roots id → heap.isAlive id = true ∧
      (heap.collect roots).2.frame? id = heap.frame? id) ∧
    (∀ id, ¬ heap.Reachable roots id → (heap.collect roots).2.isAlive id = false ∧
      (heap.collect roots).2.strongCount roots (.frame id) = 0) ∧
    (heap.collect roots).1 + (heap.collect roots).2.liveFrames.length =
      (heap.release roots).liveFrames.length ∧
    ((heap.collect roots).2.collect roots).1 = 0 ∧
    (heap.Settled roots → (heap.release roots).liveFrames = heap.liveFrames ∧
      ∀ id, (heap.release roots).frame? id = heap.frame? id) := by
  refine ⟨fun id => sound.mem_garbage_counted, fun id h => ?_, fun id h => ?_,
    sound.collect_fst_add_length, sound.collect_collect_fst, fun settled => ?_⟩
  · exact ⟨sound.isAlive_of_reachable h, sound.frame?_collect_of_reachable h⟩
  · refine ⟨?_, sound.strongCount_collect h⟩
    rw [isAlive, sound.frame?_collect_of_not_reachable h]
    rfl
  · exact ⟨sound.liveFrames_release_of_settled settled, sound.frame?_release_of_settled settled⟩

/-! ## A tangle -/

/-- A function with an empty body, made in a frame. -/
def hollow (object frame : Nat) : Value :=
  .function ⟨object⟩ ⟨default, [], ⟨default, [], default⟩⟩ ⟨frame⟩

/-- Two functions made in frames that refer to each other, in an array. -/
def knot : Value := .array ⟨2⟩ [hollow 0 1, hollow 1 2, hollow 0 1]

/-- A function in an array. -/
def parcel : Value := .array ⟨4⟩ [hollow 3 3]

/-- Four frames.  The second and the third refer to each other through one array, which each of
them binds; the last is referred to by a function inside an array that is bound nowhere. -/
def tangle : Heap :=
  let frames := (((empty.newFrame none).2.newFrame (some ⟨0⟩)).2.newFrame (some ⟨1⟩)).2
  let heap := (frames.newFrame (some ⟨0⟩)).2
  let heap := heap.newObject.2.newObject.2.newObject.2.newObject.2.newObject.2
  ((heap.bind ⟨1⟩ "knot" knot).bind ⟨2⟩ "knot" knot).bind ⟨3⟩ "self" (hollow 3 3)

/-- The first frame of the tangle and its loose array. -/
def looseEnds : Roots := ⟨[⟨0⟩], [parcel]⟩

/-- Such a function may be made where its frame is held. -/
theorem makes_hollow {heap : Heap} {roots : Roots} (object frame : Nat)
    (next : heap.nextObject = object) (h : ⟨frame⟩ ∈ roots.frames) :
    heap.Makes roots (hollow object frame) where
  object := by rw [next]; rfl
  contents := fun _ hmem => absurd hmem List.not_mem_nil
  captured := fun _ hid => by cases hid; exact h

/-- An array may be made of what is held. -/
theorem makes_array {heap : Heap} {roots : Roots} (object : Nat) (elements : List Value)
    (next : heap.nextObject = object) (h : ∀ element ∈ elements, element ∈ roots.values) :
    heap.Makes roots (.array ⟨object⟩ elements) where
  object := by rw [next]; rfl
  contents := h
  captured := fun _ hid => by cases hid

/-- The tangle comes about by making frames and objects and binding names. -/
theorem wellFormed_tangle : tangle.WellFormed looseEnds := by
  have hglobal := wellFormed_empty.newFrame none (fun _ h => by cases h)
  have hsecond := hglobal.newFrame (some ⟨0⟩) (fun _ h => by cases h; decide)
  have hthird := hsecond.newFrame (some ⟨1⟩) (fun _ h => by cases h; decide)
  have hframes := hthird.newFrame (some ⟨0⟩) (fun _ h => by cases h; decide)
  have hfunctions := (hframes.newObject (makes_hollow 0 1 rfl (by decide))).newObject
    (makes_hollow 1 2 rfl (by decide))
  have hknot := hfunctions.newObject
    (makes_array 2 [hollow 0 1, hollow 1 2, hollow 0 1] rfl (by simp [Roots.hold]))
  have hparcel := (hknot.newObject (makes_hollow 3 3 rfl (by decide))).newObject
    (makes_array 4 [hollow 3 3] rfl (by simp [Roots.hold]))
  have hheld : WellFormed _ (((looseEnds.hold (hollow 3 3)).hold knot).hold knot) :=
    hparcel.of_within ⟨by decide, by simp [Roots.hold, looseEnds, knot, parcel]⟩
  exact ((hheld.bind ⟨1⟩ "knot").bind ⟨2⟩ "knot").bind ⟨3⟩ "self"

/-- The loose array and the function in it lead to the last frame only. -/
theorem eq_of_leads_parcel {value : Value} (h : value = parcel ∨ value = hollow 3 3) {id : FrameId}
    (leads : value.Leads id) : id = ⟨3⟩ := by
  have hhollow : ∀ {id : FrameId}, (hollow 3 3).Leads id → id = ⟨3⟩ := by
    rintro id ⟨part, hpart, hcaptured⟩
    rw [hpart.eq_of_contents_nil rfl] at hcaptured
    cases hcaptured
    rfl
  rcases h with rfl | rfl
  · rcases Value.leads_iff.mp leads with hcaptured | ⟨content, hmember, hleads⟩
    · cases hcaptured
    · rw [List.mem_singleton.mp hmember] at hleads
      exact hhollow hleads
  · exact hhollow leads

/-- Nothing that is held leads to the frames that refer to each other. -/
theorem reachable_tangle {id : FrameId} (h : tangle.Reachable looseEnds id) :
    id = ⟨0⟩ ∨ id = ⟨3⟩ := by
  induction h with
  | held h => exact .inl (List.mem_singleton.mp h)
  | captured h leads => exact .inr (eq_of_leads_parcel (.inl (List.mem_singleton.mp h)) leads)
  | outer inner here h ih =>
    rcases ih with rfl | rfl
    · cases here
      cases h
    · cases here
      cases h
      exact .inl rfl
  | bound inner here h leads ih =>
    rcases ih with rfl | rfl
    · cases here
      exact absurd h List.not_mem_nil
    · cases here
      rw [List.mem_singleton.mp h] at leads
      exact .inr (eq_of_leads_parcel (.inr rfl) leads)

/-- The two frames of the tangle that only refer to each other go, and the one that a loose array
leads to stays. -/
theorem collect_exact_tangle :
    tangle.Sound looseEnds ∧
    (tangle.collect looseEnds).2.isAlive ⟨1⟩ = false ∧
    (tangle.collect looseEnds).2.strongCount looseEnds (.frame ⟨2⟩) = 0 ∧
    (tangle.collect looseEnds).2.frame? ⟨3⟩ = some ⟨[("self", hollow 3 3)], some ⟨0⟩⟩ ∧
    ((tangle.collect looseEnds).2.collect looseEnds).1 = 0 := by
  have hsound := wellFormed_tangle.toSound
  obtain ⟨_, hkept, hgone, _, hagain, _⟩ := collect_exact hsound
  have hloose : tangle.Reachable looseEnds ⟨3⟩ :=
    .captured List.mem_cons_self ⟨hollow 3 3, .of_mem List.mem_cons_self, rfl⟩
  have htied : ∀ id, id ≠ ⟨0⟩ → id ≠ ⟨3⟩ → ¬ tangle.Reachable looseEnds id := by
    intro id hfirst hlast h
    rcases reachable_tangle h with heq | heq
    · exact hfirst heq
    · exact hlast heq
  refine ⟨hsound, (hgone ⟨1⟩ (htied _ (by decide) (by decide))).1,
    (hgone ⟨2⟩ (htied _ (by decide) (by decide))).2, ?_, hagain⟩
  exact (hkept ⟨3⟩ hloose).2.trans rfl

end Heap

end Scriptlet
