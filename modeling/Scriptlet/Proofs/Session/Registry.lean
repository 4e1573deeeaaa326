import Scriptlet.Proofs.Session.Histories

set_option autoImplicit false

/-!
# The registry

Component: the registry of frames, and when a collection is due.  Specification: section 9 on
environments with shared ownership, where cycles have to be looked for.

Every frame that is made is entered in the registry, and only a collection takes entries out.  So
between two collections the registry holds what the first one left and what has been made since
(`Heap.Tallies`), and the threshold is what the first one set it to.  A frame is made only where the
registry is below its threshold, after a collection if need be.

From this follow the bounds: the registry never grows beyond its threshold
(`Heap.Bounded`), and before another collection is due at least half as many frames have to be made
as the threshold counts.

    tally       entries that a collection left, and frames made since
    threshold   twice as many entries as it left, but not less than the least one
    due         the registry has as many entries as the threshold says

So a collection that leaves many frames is followed by a long time without one, and the work of
collections is in proportion to the frames that are made.
-/

namespace Scriptlet

/-! ## Entries and live frames -/

namespace Heap

variable {heap : Heap} {roots : Roots}

/-- How many frames are alive. -/
def liveCount (heap : Heap) : Nat :=
  ((List.range heap.frames.size).filter fun index => heap.isAlive ⟨index⟩).length

/-- Every live frame has one entry. -/
theorem Sound.count_registry (sound : heap.Sound roots) {id : FrameId}
    (alive : heap.isAlive id = true) : heap.registry.toList.count id = 1 :=
  List.count_eq_one_of_mem sound.once (sound.registered id alive)

/-- If only live frames are entered, there are as many entries as live frames. -/
theorem WellFormed.size_registry (h : heap.WellFormed roots)
    (live : ∀ id ∈ heap.registry.toList, heap.isAlive id = true) :
    heap.registry.size = heap.liveCount := by
  have hinjective : Function.Injective FrameId.index := by
    rintro ⟨index⟩ ⟨other⟩ rfl
    rfl
  have hmem : ∀ index, index ∈ heap.registry.toList.map FrameId.index ↔
      index ∈ (List.range heap.frames.size).filter fun index => heap.isAlive ⟨index⟩ := by
    intro index
    rw [List.mem_filter, List.mem_range, List.mem_map]
    constructor
    · rintro ⟨id, hid, rfl⟩
      exact ⟨h.bounded id hid, live id hid⟩
    · rintro ⟨_, halive⟩
      exact ⟨⟨index⟩, h.registered _ halive, rfl⟩
  have hperm := (List.perm_ext_iff_of_nodup (h.once.map hinjective)
    (List.nodup_range.filter _)).mpr hmem
  rw [liveCount, ← hperm.length_eq, List.length_map, Array.length_toList]

/-- What a collection leaves entered is alive. -/
theorem isAlive_of_mem_registry_collect {id : FrameId}
    (h : id ∈ (heap.collect roots).2.registry.toList) :
    (heap.collect roots).2.isAlive id = true := by
  rw [collect_eq, prune] at h
  exact (List.mem_filter.mp (Array.toList_filter ▸ h)).2

/-- A collection sets the threshold by what it leaves. -/
theorem threshold_collect (heap : Heap) (roots : Roots) :
    (heap.collect roots).2.threshold =
      max (2 * (heap.collect roots).2.registry.size) minThreshold := rfl

/-- After a collection the entries are the live frames. -/
theorem WellFormed.size_registry_collect (h : heap.WellFormed roots) :
    (heap.collect roots).2.registry.size = (heap.collect roots).2.liveCount :=
  h.collect.size_registry fun _ => isAlive_of_mem_registry_collect

end Heap

/-! ## Bounds -/

namespace Heap

/-- Whether a frame may be made without a collection before it. -/
def Undue (heap : Heap) : Prop := heap.isCollectionDue = false

/-- Where none is due there is room for one entry more. -/
theorem Undue.lt {heap : Heap} (h : heap.Undue) : heap.registry.size < heap.threshold :=
  Nat.not_le.mp (of_decide_eq_false h)

/-- Whether the registry keeps to its threshold. -/
structure Bounded (heap : Heap) : Prop where
  least : minThreshold ≤ heap.threshold
  fits : heap.registry.size ≤ heap.threshold

/-- Whether the registry holds the entries that a collection left and those made since. -/
structure Tallies (left made : Nat) (heap : Heap) : Prop where
  size : heap.registry.size = left + made
  threshold : heap.threshold = max (2 * left) minThreshold

variable {heap : Heap} {left made : Nat}

/-- A collection starts a new tally. -/
theorem tallies_collect (heap : Heap) (roots : Roots) :
    (heap.collect roots).2.Tallies (heap.collect roots).2.registry.size 0 := ⟨rfl, rfl⟩

/-- A collection keeps to the threshold that it sets. -/
theorem bounded_collect (heap : Heap) (roots : Roots) : (heap.collect roots).2.Bounded := by
  have hthreshold := threshold_collect heap roots
  constructor <;> omega

/-- Right after a collection none is due. -/
theorem undue_collect (heap : Heap) (roots : Roots) : (heap.collect roots).2.Undue := by
  have hthreshold := threshold_collect heap roots
  have hleast : minThreshold = 1024 := rfl
  exact decide_eq_false (by omega)

/-- So the registry is bounded by what the last collection left. -/
theorem Tallies.size_le (h : heap.Tallies left made) (bounded : heap.Bounded) :
    heap.registry.size ≤ max (2 * left) minThreshold :=
  h.threshold ▸ bounded.fits

/-- A collection is due only when at least half as many frames have been made as the threshold
counts. -/
theorem Tallies.le_of_due (h : heap.Tallies left made) (due : heap.isCollectionDue = true) :
    max left (minThreshold / 2) ≤ made := by
  have hdue : heap.threshold ≤ heap.registry.size := of_decide_eq_true due
  have hsize := h.size
  have hthreshold := h.threshold
  omega

end Heap

/-! ## Histories -/

/-- Whether an event is that a frame is made. -/
def Event.isMade : Event → Bool
  | .made _ => true
  | .bound _ | .collected | .other => false

variable {event : Event} {events : List Event} {before after : Holding} {left made : Nat}

/-- A move that is no collection enters what it makes. -/
theorem Holding.Move.registry (h : Holding.Move Heap.Undue event before after)
    (kept : event ≠ .collected) :
    after.heap.threshold = before.heap.threshold ∧
      after.heap.registry.size = before.heap.registry.size + [event].countP Event.isMade ∧
      (event.isMade = true → before.heap.registry.size < before.heap.threshold) := by
  cases h with
  | keep | take | takeFrame | object | bind | release =>
    exact ⟨rfl, rfl, fun hmade => by cases hmade⟩
  | frame outer may => exact ⟨rfl, Array.size_push _, fun _ => may.lt⟩
  | collect => exact absurd rfl kept

/-- Every move keeps the registry to its threshold. -/
theorem Holding.Move.bounded (h : Holding.Move Heap.Undue event before after)
    (bounded : before.heap.Bounded) : after.heap.Bounded := by
  by_cases hcollect : event = .collected
  · subst hcollect
    cases h
    exact Heap.bounded_collect _ _
  · obtain ⟨hthreshold, hsize, hroom⟩ := h.registry hcollect
    refine ⟨hthreshold ▸ bounded.least, ?_⟩
    rw [hthreshold, hsize, List.countP_singleton]
    split
    next hmade => exact hroom hmade
    · exact bounded.fits

/-- Any other move adds what it makes to the tally. -/
theorem Holding.Move.tallies (h : Holding.Move Heap.Undue event before after)
    (kept : event ≠ .collected) (tallies : before.heap.Tallies left made) :
    after.heap.Tallies left (made + [event].countP Event.isMade) := by
  obtain ⟨hthreshold, hsize, _⟩ := h.registry kept
  exact ⟨by rw [hsize, tallies.size, Nat.add_assoc], hthreshold.trans tallies.threshold⟩

/-- So does every history. -/
theorem History.bounded (h : History Heap.Undue events before after)
    (bounded : before.heap.Bounded) : after.heap.Bounded := by
  induction h with
  | nil => exact bounded
  | cons first _ ih => exact ih (first.bounded bounded)

/-- Without a collection the registry grows by what is made. -/
theorem History.tallies (h : History Heap.Undue events before after) (kept : .collected ∉ events)
    (tallies : before.heap.Tallies left made) :
    after.heap.Tallies left (made + events.countP Event.isMade) := by
  induction h generalizing made with
  | nil => exact tallies
  | @cons event events _ _ _ first _ ih =>
    have hfirst : event ≠ .collected := (List.ne_of_not_mem_cons kept).symm
    have htallies := ih (List.not_mem_of_not_mem_cons kept) (first.tallies hfirst tallies)
    have hcount : ([event] ++ events).countP Event.isMade =
        [event].countP Event.isMade + events.countP Event.isMade := List.countP_append
    rwa [Nat.add_assoc, ← hcount] at htallies

/-- Nothing has been registered at first. -/
theorem Heap.bounded_empty : Heap.empty.Bounded := ⟨Nat.le_refl _, Nat.zero_le _⟩

/-- A frame is made, after a collection where one is due. -/
theorem exists_history_allocate (heap : Heap) (roots : Roots) (outer : Option FrameId) :
    ∃ events, History Heap.Undue events ⟨heap, outer.elim roots roots.holdFrame⟩
        ⟨(heap.allocate Heap.isCollectionDue roots outer).2,
          (outer.elim roots roots.holdFrame).holdFrame
            (heap.allocate Heap.isCollectionDue roots outer).1⟩ ∧
      (.collected ∈ events ↔ heap.isCollectionDue = true) ∧ events.countP Event.isMade = 1 := by
  have held : ∀ id, outer = some id → id ∈ (outer.elim roots roots.holdFrame).frames := by
    rintro id rfl
    exact List.mem_cons_self
  simp only [Heap.allocate]
  cases hdue : heap.isCollectionDue with
  | false =>
    exact ⟨_, .cons (.frame outer hdue held) (.nil _), by simp, rfl⟩
  | true =>
    exact ⟨_, .cons .collect (.cons (.frame outer (Heap.undue_collect _ _) held) (.nil _)),
      by simp, rfl⟩

/-- The setup of programs makes frames only where no collection is due. -/
theorem Setup.heeds_undue (files : Files) (callDepth : Nat) :
    (Setup.standard files callDepth).Heeds Heap.Undue :=
  ⟨fun _ h => h, fun heap roots => Heap.undue_collect heap roots⟩

/-- The registry holds every live frame once and keeps to its threshold, which is never below the
least one.  After a collection, asked for or due, it holds nothing else, and the threshold is set to
twice as much.  Until the next collection it stays below that, and before one is due at least as
many frames are made as there were left, and half the least threshold.

Frames are made where no collection is due or right after one, as `Heap.allocate` does; so do all
sessions of the usual setup. -/
theorem registry_bounded :
    (∀ {events : List Event} {holding : Holding}, History Heap.Undue events .start holding →
      (∀ id, holding.heap.isAlive id = true → holding.heap.registry.toList.count id = 1) ∧
      holding.heap.Bounded ∧
      let collected := (holding.heap.collect holding.roots).2
      (∀ id, id ∈ collected.registry.toList ↔ collected.isAlive id = true) ∧
      collected.registry.size = collected.liveCount ∧
      collected.threshold = max (2 * collected.liveCount) minThreshold ∧
      ∀ {later : List Event} {after : Holding},
        History Heap.Undue later ⟨collected, holding.roots⟩ after → .collected ∉ later →
          after.heap.registry.size ≤ max (2 * collected.liveCount) minThreshold ∧
          (after.heap.isCollectionDue = true →
            max collected.liveCount (minThreshold / 2) ≤ later.countP Event.isMade)) ∧
    (∀ (heap : Heap) (roots : Roots) (outer : Option FrameId),
      ∃ events, History Heap.Undue events ⟨heap, outer.elim roots roots.holdFrame⟩
          ⟨(heap.allocate Heap.isCollectionDue roots outer).2,
            (outer.elim roots roots.holdFrame).holdFrame
              (heap.allocate Heap.isCollectionDue roots outer).1⟩ ∧
        (.collected ∈ events ↔ heap.isCollectionDue = true) ∧ events.countP Event.isMade = 1) ∧
    ∀ (files : Files) (callDepth : Nat) (console : Console) (commands : List Command),
      ∃ events, History Heap.Undue events .start ((Session.performAll commands
        (Session.start (.standard files callDepth) console)).2.holding []) := by
  refine ⟨fun {events holding} h => ?_, exists_history_allocate,
    fun files callDepth console commands =>
      evolves_session (Setup.heeds_undue files callDepth) console commands⟩
  have hwellFormed := h.wellFormed Holding.wellFormed_start
  have hsize := hwellFormed.size_registry_collect
  refine ⟨fun id => hwellFormed.toSound.count_registry, h.bounded Heap.bounded_empty,
    fun id => ⟨Heap.isAlive_of_mem_registry_collect, hwellFormed.collect.registered id⟩, hsize,
    hsize ▸ Heap.threshold_collect _ _, fun {later after} hlater kept => ?_⟩
  have htallies := hlater.tallies kept (Heap.tallies_collect _ _)
  rw [hsize, Nat.zero_add] at htallies
  exact ⟨htallies.size_le (hlater.bounded (Heap.bounded_collect _ _)), htallies.le_of_due⟩

/-! ### Running full -/

/-- The registry can be filled, with frames that are dropped at once. -/
theorem exists_history_full {holding : Holding} (bounded : holding.heap.Bounded) :
    ∃ events after, History Heap.Undue events holding after ∧ .collected ∉ events ∧
      after.heap.isCollectionDue = true := by
  -- by induction on how many more entries fit
  generalize hroom : holding.heap.threshold - holding.heap.registry.size = room
  induction room generalizing holding with
  | zero =>
    refine ⟨[], holding, .nil holding, List.not_mem_nil, decide_eq_true ?_⟩
    exact Nat.sub_eq_zero_iff_le.mp hroom
  | succ room ih =>
    obtain ⟨heap, roots⟩ := holding
    have hundue : heap.Undue := decide_eq_false (by simp only at hroom; omega)
    have hmove : Holding.Move Heap.Undue (.made (heap.newFrame none).1) ⟨heap, roots⟩ ⟨_, _⟩ :=
      .frame none hundue fun _ h => by cases h
    obtain ⟨events, after, history, hkept, hdue⟩ := ih (hmove.bounded bounded) (by
      have hsize : (heap.newFrame none).2.registry.size = heap.registry.size + 1 :=
        Array.size_push _
      have hthreshold : (heap.newFrame none).2.threshold = heap.threshold := rfl
      simp only at hroom ⊢
      omega)
    exact ⟨_, after, .cons hmove history, by simpa using hkept, hdue⟩

/-- From nothing to a collection that is due, past one that is asked for. -/
theorem registry_bounded_full : ∃ later after,
    History Heap.Undue later ⟨(Heap.empty.collect ⟨[], []⟩).2, ⟨[], []⟩⟩ after ∧
      after.heap.isCollectionDue = true ∧ 512 ≤ later.countP Event.isMade := by
  let collected : Holding := ⟨(Heap.empty.collect ⟨[], []⟩).2, ⟨[], []⟩⟩
  have hbounded : collected.heap.Bounded := Heap.bounded_collect _ _
  obtain ⟨later, after, history, hkept, hdue⟩ := exists_history_full hbounded
  have hbounds := (registry_bounded.1 (.nil .start)).2.2.2.2.2 history hkept
  exact ⟨later, after, history, hdue, Nat.le_trans (Nat.le_max_right _ _) (hbounds.2 hdue)⟩

end Scriptlet
