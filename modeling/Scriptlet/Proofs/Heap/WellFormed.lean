import Scriptlet.Proofs.Heap.Collect

set_option autoImplicit false

/-!
# Well-formed heaps

Component: the environments and the object model.  Specification: section 3 on environments with an
optional outer one and on objects that are told by their reference, and section 10.5, by which
arrays, hashes and functions are equal if they are the same.

A heap that comes about by making frames and objects, binding names and collecting is not only
sound.  Outer frames are older than their inner frames, identities are handed out in order, and a
frame binds each name once.  `Heap.WellFormed` says so, and every operation keeps it: what is new
may be held afterwards (`WellFormed.newFrame`, `WellFormed.newObject`), what was held and is bound
need not be held any more (`WellFormed.bind`).

Soundness is what a collection needs.  The four other conditions are what evaluations need: a chain
of outer frames ends because each is older than the one before it, and a search finds the only
binding of a name.
-/

namespace Scriptlet

/-! ## Bindings -/

/-- After a binding there is the new one, and of the others those there were. -/
theorem Bindings.mem_of_mem_bind {name : String} {value : Value} {bindings : Bindings}
    {binding : String × Value} (h : binding ∈ bindings.bind name value) :
    binding = (name, value) ∨ binding ∈ bindings := by
  induction bindings with
  | nil => exact .inl (List.mem_singleton.mp h)
  | cons first rest ih =>
    obtain ⟨other, old⟩ := first
    rw [Bindings.bind] at h
    split at h
    · rcases List.mem_cons.mp h with h | h
      · exact .inl h
      · exact .inr (List.mem_cons_of_mem _ h)
    · rcases List.mem_cons.mp h with rfl | h
      · exact .inr List.mem_cons_self
      · rcases ih h with h | h
        · exact .inl h
        · exact .inr (List.mem_cons_of_mem _ h)

/-- A name more may be bound. -/
theorem Bindings.mem_fst_bind {name wanted : String} {value : Value} {bindings : Bindings} :
    wanted ∈ (bindings.bind name value).map Prod.fst ↔
      wanted = name ∨ wanted ∈ bindings.map Prod.fst := by
  induction bindings with
  | nil => simp [Bindings.bind]
  | cons first rest ih =>
    obtain ⟨other, old⟩ := first
    rw [Bindings.bind]
    split
    next same =>
      subst same
      simp
    · rw [List.map_cons, List.mem_cons, ih, List.map_cons, List.mem_cons]
      exact or_left_comm

/-- A name that is bound again is still bound once. -/
theorem Bindings.nodup_bind {bindings : Bindings} (h : (bindings.map Prod.fst).Nodup)
    (name : String) (value : Value) : ((bindings.bind name value).map Prod.fst).Nodup := by
  induction bindings with
  | nil => simp [Bindings.bind]
  | cons first rest ih =>
    obtain ⟨other, old⟩ := first
    rw [List.map_cons, List.nodup_cons] at h
    rw [Bindings.bind]
    split
    next same =>
      subst same
      exact List.nodup_cons.mpr h
    next different =>
      refine List.nodup_cons.mpr ⟨fun hmem => ?_, ih h.2⟩
      rcases Bindings.mem_fst_bind.mp hmem with heq | hmem
      · exact different heq
      · exact h.1 hmem

/-- What is looked up is bound. -/
theorem Bindings.mem_of_lookup {bindings : Bindings} {name : String} {value : Value}
    (h : bindings.lookup name = some value) : (name, value) ∈ bindings := by
  obtain ⟨before, after, rfl, _⟩ := List.lookup_eq_some_iff.mp h
  simp

/-- What is bound once is what is looked up. -/
theorem Bindings.lookup_of_mem {bindings : Bindings} (h : (bindings.map Prod.fst).Nodup)
    {name : String} {value : Value} (hmem : (name, value) ∈ bindings) :
    bindings.lookup name = some value := by
  induction bindings with
  | nil => exact absurd hmem List.not_mem_nil
  | cons first rest ih =>
    obtain ⟨other, old⟩ := first
    rw [List.map_cons, List.nodup_cons] at h
    rw [List.lookup_cons]
    rcases List.mem_cons.mp hmem with heq | hrest
    · cases heq
      simp
    · have hne : name ≠ other := by
        rintro rfl
        exact h.1 (List.mem_map.mpr ⟨_, hrest, rfl⟩)
      rw [beq_eq_false_iff_ne.mpr hne]
      exact ih h.2 hrest

/-! ## Roots -/

namespace Roots

/-- Roots hold what they hold. -/
theorem Within.refl (roots : Roots) : roots.Within roots := ⟨fun _ h => h, fun _ h => h⟩

/-- To hold less than what holds less is to hold less. -/
theorem Within.trans {roots middle others : Roots} (h : roots.Within middle)
    (h' : middle.Within others) : roots.Within others :=
  ⟨fun id hid => h'.frames id (h.frames id hid),
    fun value hvalue => h'.values value (h.values value hvalue)⟩

end Roots

/-- Whether every object part of a value is a part of one of some values. -/
def Value.MadeOf (values : List Value) (value : Value) : Prop :=
  ∀ part object, value.Part part → part.object? = some object → ∃ whole ∈ values, whole.Part part

/-- A part of one of some values is made of them. -/
theorem Value.MadeOf.of_part {values : List Value} {whole part : Value} (h : whole ∈ values)
    (inside : whole.Part part) : part.MadeOf values :=
  fun _ _ hpart _ => ⟨whole, h, inside.trans hpart⟩

/-- It is made of more values as well. -/
theorem Value.MadeOf.mono {values others : List Value} {value : Value} (h : value.MadeOf values)
    (hsub : ∀ whole ∈ values, whole ∈ others) : value.MadeOf others := by
  intro part object hpart hobject
  obtain ⟨whole, hwhole, hinside⟩ := h part object hpart hobject
  exact ⟨whole, hsub whole hwhole, hinside⟩

/-- A value that is no object is made of nothing. -/
theorem Value.MadeOf.of_object?_none {values : List Value} {value : Value}
    (h : value.object? = none) : value.MadeOf values := by
  intro part object hpart hobject
  have hcontents : value.contents = [] := by
    cases hvalue : value.contents with
    | nil => rfl
    | cons content rest =>
      obtain ⟨id, hid⟩ := Value.object?_of_mem_contents (hvalue ▸ List.mem_cons_self)
      rw [h] at hid
      cases hid
  rw [hpart.eq_of_contents_nil hcontents, h] at hobject
  cases hobject

/-- What a value leads to that is made of held values, one of those leads to. -/
theorem Value.MadeOf.exists_leads {values : List Value} {value : Value} (h : value.MadeOf values)
    {id : FrameId} (leads : value.Leads id) : ∃ whole ∈ values, whole.Leads id := by
  obtain ⟨part, hpart, hcaptured⟩ := leads
  obtain ⟨object, hobject⟩ := Value.object?_of_captured hcaptured
  obtain ⟨whole, hwhole, hinside⟩ := h part object hpart hobject
  exact ⟨whole, hwhole, part, hinside, hcaptured⟩

namespace Heap

/-! ## Well-formedness -/

/-- What holds of a heap that came about by the operations of this library. -/
structure WellFormed (heap : Heap) (roots : Roots) : Prop extends Sound heap roots where
  /-- frames are registered when they are named -/
  bounded : ∀ id ∈ heap.registry.toList, id.index < heap.frames.size
  /-- an outer frame is older -/
  older : ∀ id frame outer, heap.frame? id = some frame → frame.outer = some outer →
    outer.index < id.index
  /-- a frame binds a name once -/
  distinct : ∀ id frame, heap.frame? id = some frame → (frame.bindings.map Prod.fst).Nodup
  /-- identities are handed out in order -/
  issued : ∀ value part object, heap.Carries roots value → value.Part part →
    part.object? = some object → object.index < heap.nextObject

variable {heap : Heap} {roots others : Roots}

/-- What is alive has its place among the frames. -/
theorem lt_size_of_isAlive {id : FrameId} (h : heap.isAlive id = true) :
    id.index < heap.frames.size := by
  by_contra hge
  simp [isAlive, frame?, Array.getElem?_eq_none (Nat.le_of_not_lt hge)] at h

/-- Before anything has been made. -/
theorem wellFormed_empty : empty.WellFormed ⟨[], []⟩ := by
  have hnone : ∀ id, empty.frame? id = none := fun id => by simp [empty, frame?]
  have hcarries : ∀ value, ¬ empty.Carries ⟨[], []⟩ value := by
    intro value h
    cases h with
    | held h => exact List.not_mem_nil h
    | bound here => rw [hnone] at here; cases here
  exact {
    registered := fun id h => by simp [isAlive, hnone] at h
    once := List.nodup_nil
    held_alive := fun id h => absurd h List.not_mem_nil
    outer_alive := fun id frame outer here => by rw [hnone] at here; cases here
    leads_alive := fun value id h => absurd h (hcarries value)
    coherent := fun left right h => absurd h (hcarries left)
    bounded := fun id h => absurd h List.not_mem_nil
    older := fun id frame outer here => by rw [hnone] at here; cases here
    distinct := fun id frame here => by rw [hnone] at here; cases here
    issued := fun value part object h => absurd h (hcarries value) }

/-- Holding less keeps a heap well-formed. -/
theorem WellFormed.of_within (h : heap.WellFormed others) (within : roots.Within others) :
    heap.WellFormed roots where
  toSound := h.toSound.of_within within
  bounded := h.bounded
  older := h.older
  distinct := h.distinct
  issued := fun value part object hcarries => h.issued value part object (by
    cases hcarries with
    | held hmem => exact .held (within.values _ hmem)
    | bound here hmem => exact .bound here hmem)

/-- What is carried with one value more in hand is that value, or was carried. -/
theorem Carries.of_hold {value other : Value} (h : heap.Carries (roots.hold value) other) :
    other = value ∨ heap.Carries roots other := by
  cases h with
  | held hmem =>
    rcases List.mem_cons.mp hmem with rfl | hmem
    · exact .inl rfl
    · exact .inr (.held hmem)
  | bound here hmem => exact .inr (.bound here hmem)

/-- Whether every object part of a value is a part of one that is held or bound. -/
def Offers (heap : Heap) (roots : Roots) (value : Value) : Prop :=
  ∀ part object, value.Part part → part.object? = some object →
    ∃ whole, heap.Carries roots whole ∧ whole.Part part

/-- What is carried is offered. -/
theorem Offers.of_carries {value : Value} (h : heap.Carries roots value) :
    heap.Offers roots value :=
  fun _ _ hpart _ => ⟨value, h, hpart⟩

/-- So is what is made of held values. -/
theorem Offers.of_madeOf {value : Value} (made : value.MadeOf roots.values) :
    heap.Offers roots value := by
  intro part object hpart hobject
  obtain ⟨whole, hwhole, hinside⟩ := made part object hpart hobject
  exact ⟨whole, .held hwhole, hinside⟩

/-- An object part of what is carried with an offered value was a part of something carried. -/
theorem Offers.exists_part {value other part : Value} {object : ObjectId}
    (offers : heap.Offers roots value) (h : heap.Carries (roots.hold value) other)
    (inside : other.Part part) (hobject : part.object? = some object) :
    ∃ whole, heap.Carries roots whole ∧ whole.Part part := by
  rcases h.of_hold with rfl | h
  · exact offers part object inside hobject
  · exact ⟨other, h, inside⟩

/-- A value whose parts are held or bound may be held, too. -/
theorem WellFormed.hold (h : heap.WellFormed roots) {value : Value}
    (offers : heap.Offers roots value) : heap.WellFormed (roots.hold value) where
  registered := h.registered
  once := h.once
  held_alive := h.held_alive
  outer_alive := h.outer_alive
  leads_alive := fun other id hcarries ⟨part, hpart, hcaptured⟩ => by
    obtain ⟨object, hobject⟩ := Value.object?_of_captured hcaptured
    obtain ⟨whole, hwhole, hinside⟩ := offers.exists_part hcarries hpart hobject
    exact h.leads_alive whole id hwhole ⟨part, hinside, hcaptured⟩
  coherent := fun left right hleft hright part other object hpart hother hobject hobject' => by
    obtain ⟨whole, hwhole, hinside⟩ := offers.exists_part hleft hpart hobject
    obtain ⟨whole', hwhole', hinside'⟩ := offers.exists_part hright hother hobject'
    exact h.coherent whole whole' hwhole hwhole' part other object hinside hinside' hobject hobject'
  bounded := h.bounded
  older := h.older
  distinct := h.distinct
  issued := fun other part object hcarries hpart hobject => by
    obtain ⟨whole, hwhole, hinside⟩ := offers.exists_part hcarries hpart hobject
    exact h.issued whole part object hwhole hinside hobject

/-- A frame that is alive may be held, too. -/
theorem WellFormed.holdFrame (h : heap.WellFormed roots) {id : FrameId}
    (alive : heap.isAlive id = true) : heap.WellFormed (roots.holdFrame id) := by
  have hcarries : ∀ value, heap.Carries (roots.holdFrame id) value → heap.Carries roots value := by
    intro value hvalue
    cases hvalue with
    | held hmem => exact .held hmem
    | bound here hmem => exact .bound here hmem
  exact {
    registered := h.registered
    once := h.once
    held_alive := fun other hmem => by
      rcases List.mem_cons.mp hmem with rfl | hmem
      · exact alive
      · exact h.held_alive other hmem
    outer_alive := h.outer_alive
    leads_alive := fun value other hvalue => h.leads_alive value other (hcarries value hvalue)
    coherent := fun left right hleft hright =>
      h.coherent left right (hcarries left hleft) (hcarries right hright)
    bounded := h.bounded
    older := h.older
    distinct := h.distinct
    issued := fun value part object hvalue => h.issued value part object (hcarries value hvalue) }

/-! ## New objects -/

/-- Whether a value is the next object of a heap, made of what is held. -/
structure Makes (heap : Heap) (roots : Roots) (value : Value) : Prop where
  object : value.object? = some ⟨heap.nextObject⟩
  contents : ∀ content ∈ value.contents, content ∈ roots.values
  captured : ∀ id, value.captured = some id → id ∈ roots.frames

/-- An object part of what is carried with the new object is that object, or was carried. -/
theorem Makes.part_cases {value other part : Value}
    (new : heap.Makes roots value) (h : heap.newObject.2.Carries (roots.hold value) other)
    (inside : other.Part part) :
    part = value ∨ ∃ whole, heap.Carries roots whole ∧ whole.Part part := by
  have hold : heap.Carries (roots.hold value) other := by
    cases h with
    | held hmem => exact .held hmem
    | bound here hmem => exact .bound here hmem
  rcases hold.of_hold with rfl | hcarries
  · cases inside with
    | self => exact .inl rfl
    | content member inside => exact .inr ⟨_, .held (new.contents _ member), inside⟩
  · exact .inr ⟨other, hcarries, inside⟩

/-- A new object may be held, and its identity is issued. -/
theorem WellFormed.newObject (h : heap.WellFormed roots) {value : Value}
    (new : heap.Makes roots value) : heap.newObject.2.WellFormed (roots.hold value) := by
  -- the new object has the next identity, and all others have earlier ones
  have hissued : ∀ other part object, heap.newObject.2.Carries (roots.hold value) other →
      other.Part part → part.object? = some object →
      part = value ∨ object.index < heap.nextObject := by
    intro other part object hcarries hpart hobject
    rcases new.part_cases hcarries hpart with rfl | ⟨whole, hwhole, hinside⟩
    · exact .inl rfl
    · exact .inr (h.issued whole part object hwhole hinside hobject)
  exact {
    registered := h.registered
    once := h.once
    held_alive := h.held_alive
    outer_alive := h.outer_alive
    leads_alive := fun other id hcarries ⟨part, hpart, hcaptured⟩ => by
      obtain ⟨object, hobject⟩ := Value.object?_of_captured hcaptured
      rcases new.part_cases hcarries hpart with rfl | ⟨whole, hwhole, hinside⟩
      · exact h.held_alive id (new.captured id hcaptured)
      · exact h.leads_alive whole id hwhole ⟨part, hinside, hcaptured⟩
    -- two objects with one identity are both new, or both old
    coherent := fun left right hleft hright part other object hpart hother hobject hobject' => by
      have hnext : ∀ {part : Value}, part = value → part.object? = some object →
          object.index = heap.nextObject := by
        rintro _ rfl hpart
        rw [new.object] at hpart
        cases hpart
        rfl
      rcases new.part_cases hleft hpart with heq | ⟨whole, hwhole, hinside⟩
      · rcases hissued right other object hright hother hobject' with heq' | hlt
        · rw [heq, heq']
        · have hindex := hnext heq hobject
          omega
      · rcases new.part_cases hright hother with heq' | ⟨whole', hwhole', hinside'⟩
        · have hindex := hnext heq' hobject'
          have hlt := h.issued whole part object hwhole hinside hobject
          omega
        · exact h.coherent whole whole' hwhole hwhole' part other object hinside hinside' hobject
            hobject'
    bounded := h.bounded
    older := h.older
    distinct := h.distinct
    issued := fun other part object hcarries hpart hobject => by
      rcases hissued other part object hcarries hpart hobject with rfl | hlt
      · rw [new.object] at hobject
        cases hobject
        exact Nat.lt_succ_self _
      · exact Nat.lt_succ_of_lt hlt }

/-! ## Binding a name -/

/-- What a frame is after a name has been bound somewhere. -/
theorem frame?_bind_cases {id other : FrameId} {name : String} {value : Value} {frame : Frame}
    (here : (heap.bind id name value).frame? other = some frame) :
    ∃ old, heap.frame? other = some old ∧ frame.outer = old.outer ∧
      (frame.bindings = old.bindings ∨ frame.bindings = old.bindings.bind name value) := by
  by_cases hsame : other = id
  · subst hsame
    rw [frame?_bind_self, Option.map_eq_some_iff] at here
    obtain ⟨old, hold, rfl⟩ := here
    exact ⟨old, hold, rfl, .inr rfl⟩
  · rw [frame?_bind_of_ne hsame] at here
    exact ⟨frame, here, rfl, .inl rfl⟩

/-- After a binding a frame has the new one, and of the others those it had. -/
theorem mem_bindings_bind {id other : FrameId} {name : String} {value : Value} {frame : Frame}
    (here : (heap.bind id name value).frame? other = some frame) {binding : String × Value}
    (h : binding ∈ frame.bindings) :
    binding = (name, value) ∨ ∃ old, heap.frame? other = some old ∧ binding ∈ old.bindings := by
  obtain ⟨old, hold, _, hsame | hbind⟩ := frame?_bind_cases here
  · exact .inr ⟨old, hold, hsame ▸ h⟩
  · rcases Bindings.mem_of_mem_bind (hbind ▸ h) with heq | hmem
    · exact .inl heq
    · exact .inr ⟨old, hold, hmem⟩

/-- Binding makes nothing alive, and nothing dead. -/
theorem isAlive_bind (heap : Heap) (id other : FrameId) (name : String) (value : Value) :
    (heap.bind id name value).isAlive other = heap.isAlive other := by
  by_cases hsame : other = id
  · subst hsame
    simp [isAlive, frame?_bind_self]
  · rw [isAlive, frame?_bind_of_ne hsame, isAlive]

/-- What is carried after a binding was carried, or is what has been bound. -/
theorem Carries.of_bind {id : FrameId} {name : String} {value other : Value}
    (h : (heap.bind id name value).Carries roots other) :
    heap.Carries (roots.hold value) other := by
  cases h with
  | held hmem => exact .held (List.mem_cons_of_mem _ hmem)
  | bound here hmem =>
    rcases mem_bindings_bind here hmem with rfl | ⟨old, hold, hmem⟩
    · exact .held List.mem_cons_self
    · exact .bound hold hmem

/-- A held value may be bound, and need not be held any more. -/
theorem WellFormed.bind {value : Value} (h : heap.WellFormed (roots.hold value)) (id : FrameId)
    (name : String) : (heap.bind id name value).WellFormed roots where
  registered := fun other halive => h.registered other (isAlive_bind heap id other name value ▸ halive)
  once := h.once
  held_alive := fun other hmem =>
    (isAlive_bind heap id other name value).trans (h.held_alive other hmem)
  outer_alive := fun other frame outer here houter => by
    obtain ⟨old, hold, hsame, _⟩ := frame?_bind_cases here
    exact (isAlive_bind heap id outer name value).trans
      (h.outer_alive other old outer hold (hsame ▸ houter))
  leads_alive := fun other outer hcarries leads =>
    (isAlive_bind heap id outer name value).trans (h.leads_alive other outer hcarries.of_bind leads)
  coherent := fun left right hleft hright => h.coherent left right hleft.of_bind hright.of_bind
  bounded := fun other hmem => by
    have hlt := h.bounded other hmem
    simpa [Heap.bind] using hlt
  older := fun other frame outer here houter => by
    obtain ⟨old, hold, hsame, _⟩ := frame?_bind_cases here
    exact h.older other old outer hold (hsame ▸ houter)
  distinct := fun other frame here => by
    obtain ⟨old, hold, _, hsame | hbind⟩ := frame?_bind_cases here
    · rw [hsame]
      exact h.distinct other old hold
    · rw [hbind]
      exact Bindings.nodup_bind (h.distinct other old hold) name value
  issued := fun other part object hcarries => h.issued other part object hcarries.of_bind

/-! ## New frames -/

/-- A new frame is empty, inside its outer one, and the others are as they were. -/
theorem frame?_newFrame_cases {outer : Option FrameId} {id : FrameId} {frame : Frame}
    (here : (heap.newFrame outer).2.frame? id = some frame) :
    (id = (heap.newFrame outer).1 ∧ frame = ⟨[], outer⟩) ∨ heap.frame? id = some frame := by
  by_cases hsame : id = (heap.newFrame outer).1
  · subst hsame
    rw [frame?_newFrame_self] at here
    exact .inl ⟨rfl, (Option.some.inj here).symm⟩
  · rw [frame?_newFrame_of_ne hsame] at here
    exact .inr here

/-- A frame that is alive is not the next one. -/
theorem ne_newFrame_of_isAlive (outer : Option FrameId) {id : FrameId}
    (h : heap.isAlive id = true) : id ≠ (heap.newFrame outer).1 := by
  rintro rfl
  exact Nat.lt_irrefl _ (lt_size_of_isAlive h)

/-- What was alive is alive. -/
theorem isAlive_newFrame {outer : Option FrameId} {id : FrameId} (h : heap.isAlive id = true) :
    (heap.newFrame outer).2.isAlive id = true := by
  rw [isAlive, frame?_newFrame_of_ne (ne_newFrame_of_isAlive outer h)]
  exact h

/-- A new frame carries nothing. -/
theorem Carries.of_newFrame {outer : Option FrameId} {value : Value}
    (h : (heap.newFrame outer).2.Carries (roots.holdFrame (heap.newFrame outer).1) value) :
    heap.Carries roots value := by
  cases h with
  | held hmem => exact .held hmem
  | bound here hmem =>
    rcases frame?_newFrame_cases here with ⟨_, rfl⟩ | hold
    · exact absurd hmem List.not_mem_nil
    · exact .bound hold hmem

/-- A frame can be made inside one that is held. -/
theorem WellFormed.newFrame (h : heap.WellFormed roots) (outer : Option FrameId)
    (hheld : ∀ id, outer = some id → id ∈ roots.frames) :
    (heap.newFrame outer).2.WellFormed (roots.holdFrame (heap.newFrame outer).1) where
  registered := fun id halive => by
    obtain ⟨frame, hframe⟩ := isAlive_iff.mp halive
    rw [Heap.newFrame, Array.toList_push]
    rcases frame?_newFrame_cases hframe with ⟨rfl, _⟩ | hold
    · exact List.mem_append.mpr (.inr List.mem_cons_self)
    · exact List.mem_append.mpr (.inl (h.registered id (isAlive_iff.mpr ⟨frame, hold⟩)))
  -- the new frame has not been registered, as all that have been are older
  once := by
    rw [Heap.newFrame, Array.toList_push]
    refine List.nodup_append.mpr ⟨h.once, List.pairwise_singleton _ _, fun id hid other hother => ?_⟩
    rw [List.mem_singleton.mp hother]
    rintro rfl
    exact Nat.lt_irrefl _ (h.bounded _ hid)
  held_alive := fun id hid => by
    rcases List.mem_cons.mp hid with rfl | hid
    · rw [isAlive, frame?_newFrame_self]
      rfl
    · exact isAlive_newFrame (h.held_alive id hid)
  outer_alive := fun id frame other here houter => by
    rcases frame?_newFrame_cases here with ⟨_, rfl⟩ | hold
    · exact isAlive_newFrame (h.held_alive other (hheld other houter))
    · exact isAlive_newFrame (h.outer_alive id frame other hold houter)
  leads_alive := fun value id hcarries leads =>
    isAlive_newFrame (h.leads_alive value id hcarries.of_newFrame leads)
  coherent := fun left right hleft hright =>
    h.coherent left right hleft.of_newFrame hright.of_newFrame
  bounded := fun id hid => by
    rw [Heap.newFrame, Array.toList_push] at hid
    have hsize : (heap.newFrame outer).2.frames.size = heap.frames.size + 1 := by simp [Heap.newFrame]
    rw [hsize]
    rcases List.mem_append.mp hid with hid | hid
    · exact Nat.lt_succ_of_lt (h.bounded id hid)
    · rw [List.mem_singleton.mp hid]
      exact Nat.lt_succ_self _
  -- its outer frame is held, and so it has been made before
  older := fun id frame other here houter => by
    rcases frame?_newFrame_cases here with ⟨rfl, rfl⟩ | hold
    · exact lt_size_of_isAlive (h.held_alive other (hheld other houter))
    · exact h.older id frame other hold houter
  distinct := fun id frame here => by
    rcases frame?_newFrame_cases here with ⟨_, rfl⟩ | hold
    · exact List.nodup_nil
    · exact h.distinct id frame hold
  issued := fun value part object hcarries => h.issued value part object hcarries.of_newFrame

/-! ## Collections -/

/-- Frames that are dropped keep their place. -/
theorem size_frames_drop (ids : List FrameId) (heap : Heap) :
    (heap.drop ids).frames.size = heap.frames.size := by
  have hfold : ∀ frames : Array (Option Frame),
      (ids.foldl (fun frames id => frames.setIfInBounds id.index none) frames).size =
        frames.size := by
    induction ids with
    | nil => exact fun _ => rfl
    | cons id rest ih =>
      intro frames
      rw [List.foldl_cons, ih, Array.size_setIfInBounds]
  exact hfold heap.frames

/-- So do frames that are emptied. -/
theorem size_frames_clear (ids : List FrameId) (heap : Heap) :
    (heap.clear ids).frames.size = heap.frames.size := by
  have hfold : ∀ frames : Array (Option Frame),
      (ids.foldl (fun frames id => frames.modify id.index (·.map fun _ => ⟨[], none⟩))
        frames).size = frames.size := by
    induction ids with
    | nil => exact fun _ => rfl
    | cons id rest ih =>
      intro frames
      rw [List.foldl_cons, ih, Array.size_modify]
  exact hfold heap.frames

/-- So a collection leaves as many places as before. -/
theorem size_frames_collect (heap : Heap) (roots : Roots) :
    (heap.collect roots).2.frames.size = heap.frames.size := by
  have hrelease : ∀ heap : Heap, (heap.release roots).frames.size = heap.frames.size :=
    fun heap => by rw [release_eq, size_frames_drop]
  have hemptied : (heap.emptied roots).frames.size = heap.frames.size := by
    rw [emptied, size_frames_clear]
    exact hrelease heap
  exact (hrelease (heap.emptied roots)).trans hemptied

/-- A collection keeps a heap well-formed. -/
theorem WellFormed.collect (h : heap.WellFormed roots) :
    (heap.collect roots).2.WellFormed roots := by
  have hframe : ∀ id frame, (heap.collect roots).2.frame? id = some frame →
      heap.frame? id = some frame := by
    intro id frame here
    have hreach := h.toSound.reachable_of_isAlive_collect (isAlive_iff.mpr ⟨frame, here⟩)
    rwa [h.toSound.frame?_collect_of_reachable hreach] at here
  exact {
    toSound := h.toSound.collect
    bounded := fun id hid => by
      rw [size_frames_collect]
      have hregistry : id ∈ heap.registry.toList := by
        rw [collect_eq] at hid
        simp only [Heap.prune, Array.toList_filter, List.mem_filter] at hid
        have hcounted : id ∈ (heap.counted roots).registry.toList := hid.1
        simp only [Heap.counted, Heap.prune, Array.toList_filter, List.mem_filter] at hcounted
        exact hcounted.1
      exact h.bounded id hregistry
    older := fun id frame outer here => h.older id frame outer (hframe id frame here)
    distinct := fun id frame here => h.distinct id frame (hframe id frame here)
    issued := fun value part object hcarries => h.issued value part object
      (hcarries.of_frames fun id frame here => .inl (hframe id frame here)) }

end Heap

end Scriptlet
