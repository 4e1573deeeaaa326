import Scriptlet.Proofs.Simulation.Program

set_option autoImplicit false

/-!
# Heaps that look the same

Component: the environments.  Specification: section 3 on lookup along the chain of environments and
on what a binding changes, and section 5 on frames that several functions share.

Two heaps are *similar* under a link if, from what both runs hold, nothing can be told apart: where
the left run can get to a frame, the right run can get to the linked one, and every name is bound
to matching values there.  Frames out of reach do not matter, nor does the order of bindings, the
registry or the threshold.

Well-formed and similar heaps are a simulation (`similarity`).  A collection changes nothing that
can be reached, so it keeps heaps similar even if only one run collects.

Only frames that the left run reaches are asked for.  That is enough: their partners are what the
right run reaches (`Heap.Similar.reachable_of_linked`), so that the relation could be turned round,
but it never has to be.
-/

namespace Scriptlet

namespace Heap

variable {heap : Heap} {roots : Roots}

/-! ## Nothing more is reached -/

/-- Holding a value reaches no more if what it leads to is reached. -/
theorem Reachable.of_hold {value : Value}
    (leads : ∀ id, value.Leads id → heap.Reachable roots id) {id : FrameId}
    (h : heap.Reachable (roots.hold value) id) : heap.Reachable roots id := by
  induction h with
  | held h => exact .held h
  | captured h hleads =>
    rcases List.mem_cons.mp h with rfl | h
    · exact leads _ hleads
    · exact .captured h hleads
  | outer _ here h ih => exact .outer ih here h
  | bound _ here h hleads ih => exact .bound ih here h hleads

/-- Holding a frame reaches no more if it is reached. -/
theorem Reachable.of_holdFrame {held : FrameId} (reached : heap.Reachable roots held) {id : FrameId}
    (h : heap.Reachable (roots.holdFrame held) id) : heap.Reachable roots id := by
  induction h with
  | held h =>
    rcases List.mem_cons.mp h with rfl | h
    · exact reached
    · exact .held h
  | captured h leads => exact .captured h leads
  | outer _ here h ih => exact .outer ih here h
  | bound _ here h leads ih => exact .bound ih here h leads

/-- After a binding nothing more is reached than when its value was held. -/
theorem Reachable.of_bind {frame : FrameId} {name : String} {value : Value} {id : FrameId}
    (h : (heap.bind frame name value).Reachable roots id) :
    heap.Reachable (roots.hold value) id := by
  induction h with
  | held h => exact .held h
  | captured h leads => exact .captured (List.mem_cons_of_mem _ h) leads
  | outer _ here h ih =>
    obtain ⟨old, hold, hsame, _⟩ := frame?_bind_cases here
    exact .outer ih hold (hsame ▸ h)
  | bound _ here h leads ih =>
    rcases mem_bindings_bind here h with rfl | ⟨old, hold, hmem⟩
    · exact .captured List.mem_cons_self leads
    · exact .bound ih hold hmem leads

/-- A new frame is reached when it is held, and otherwise nothing more. -/
theorem Reachable.of_newFrame {outer : Option FrameId}
    (held : ∀ id, outer = some id → id ∈ roots.frames) {id : FrameId}
    (h : (heap.newFrame outer).2.Reachable (roots.holdFrame (heap.newFrame outer).1) id) :
    id = (heap.newFrame outer).1 ∨ heap.Reachable roots id := by
  induction h with
  | held h =>
    rcases List.mem_cons.mp h with rfl | h
    · exact .inl rfl
    · exact .inr (.held h)
  | captured h leads => exact .inr (.captured h leads)
  | outer _ here h ih =>
    rcases frame?_newFrame_cases here with ⟨_, rfl⟩ | hold
    · exact .inr (.held (held _ h))
    · rcases ih with rfl | ih
      · rw [frame?_newFrame_self] at here
        cases here
        exact .inr (.held (held _ h))
      · exact .inr (.outer ih hold h)
  | bound _ here h leads ih =>
    rcases frame?_newFrame_cases here with ⟨_, rfl⟩ | hold
    · exact absurd h List.not_mem_nil
    · rcases ih with rfl | ih
      · rw [frame?_newFrame_self] at here
        cases here
        exact absurd h List.not_mem_nil
      · exact .inr (.bound ih hold h leads)

end Heap

/-! ## Optional partners -/

/-- Partners are so under any weaker relation. -/
theorem rel_imp {α β : Type} {r s : α → β → Prop} (himp : ∀ a b, r a b → s a b) {x : Option α}
    {y : Option β} (h : Option.Rel r x y) : Option.Rel s x y := by
  cases h with
  | none => exact .none
  | some h => exact .some (himp _ _ h)

/-- What is there has a partner. -/
theorem exists_of_rel_some {α β : Type} {r : α → β → Prop} {a : α} {x : Option α} {y : Option β}
    (h : Option.Rel r x y) (hx : x = some a) : ∃ b, y = some b ∧ r a b := by
  cases h with
  | none => cases hx
  | some h =>
    cases hx
    exact ⟨_, rfl, h⟩

/-! ## Similar heaps -/

/-- Whether two frames bind the same names to matching values, inside linked frames. -/
structure Frame.Match (link : Link) (frame other : Frame) : Prop where
  outer : Option.Rel link.frames frame.outer other.outer
  bindings : ∀ name, Option.Rel (Value.Match link) (frame.bindings.lookup name)
    (other.bindings.lookup name)

/-- Whether two heaps look the same from what two runs hold. -/
structure Heap.Similar (link : Link) (held : Held) (left right : Heap) : Prop where
  frames : ∀ pair ∈ held.frames, link.frames pair.1 pair.2
  values : ∀ pair ∈ held.values, pair.1.Match link pair.2
  named : ∀ id id', link.frames id id' →
    id.index < left.frames.size ∧ id'.index < right.frames.size
  numbered : ∀ object object', link.objects object object' →
    object.index < left.nextObject ∧ object'.index < right.nextObject
  alike : ∀ id id', link.frames id id' → left.Reachable held.left id →
    Option.Rel (Frame.Match link) (left.frame? id) (right.frame? id')

/-- Frames that match go on to match when more is linked. -/
theorem Frame.Match.mono {link next : Link} (within : link.Within next) {frame other : Frame}
    (h : frame.Match link other) : frame.Match next other where
  outer := rel_imp (fun _ _ h => within.frames h) h.outer
  bindings := fun name => rel_imp (fun _ _ h => Value.Match.mono within _ h) (h.bindings name)

namespace Heap.Similar

variable {link : Link} {held : Held} {left right : Heap} {roots roots' : Roots}

/-- A frame that the left run reaches is linked to one that the right run reaches. -/
theorem exists_reachable (h : Heap.Similar link held left right) (wellFormed : left.WellFormed roots)
    {id : FrameId} (reached : left.Reachable held.left id) :
    ∃ id', link.frames id id' ∧ right.Reachable held.right id' := by
  induction reached with
  | held hmem =>
    obtain ⟨pair, hpair, rfl⟩ := List.mem_map.mp hmem
    exact ⟨pair.2, h.frames pair hpair, .held (List.mem_map_of_mem hpair)⟩
  | captured hmem leads =>
    obtain ⟨pair, hpair, rfl⟩ := List.mem_map.mp hmem
    obtain ⟨id', hleads, hlink⟩ := (h.values pair hpair).exists_leads leads
    exact ⟨id', hlink, .captured (List.mem_map_of_mem hpair) hleads⟩
  | outer inner here houter ih =>
    obtain ⟨inner', hlink, hreach⟩ := ih
    obtain ⟨other, hother, hmatch⟩ := exists_of_rel_some (h.alike _ _ hlink inner) here
    obtain ⟨outer', houter', hlink'⟩ := exists_of_rel_some hmatch.outer houter
    exact ⟨outer', hlink', .outer hreach hother houter'⟩
  | @bound _ _ _ binding inner here hmem leads ih =>
    obtain ⟨inner', hlink, hreach⟩ := ih
    obtain ⟨other, hother, hmatch⟩ := exists_of_rel_some (h.alike _ _ hlink inner) here
    have hlookup := Bindings.lookup_of_mem (wellFormed.distinct _ _ here) hmem
    obtain ⟨value, hvalue, hvalues⟩ := exists_of_rel_some (hmatch.bindings binding.1) hlookup
    obtain ⟨id', hleads, hlink'⟩ := hvalues.exists_leads leads
    exact ⟨id', hlink', .bound hreach hother (Bindings.mem_of_lookup hvalue) hleads⟩

/-- The partner of a frame that the left run reaches is reached by the right run. -/
theorem reachable_of_linked (h : Heap.Similar link held left right) (wellFormed : left.WellFormed roots)
    {id id' : FrameId} (hlink : link.frames id id') (reached : left.Reachable held.left id) :
    right.Reachable held.right id' := by
  obtain ⟨other, hother, hreach⟩ := h.exists_reachable wellFormed reached
  rwa [(link.frames_iff hlink hother).mp rfl]

/-! ## Holding -/

/-- Heaps that look the same from more look the same from less. -/
theorem weaken {others : Held} (h : Heap.Similar link others left right) (within : held.Within others) :
    Heap.Similar link held left right where
  frames := fun pair hpair => h.frames pair (within.frames pair hpair)
  values := fun pair hpair => h.values pair (within.values pair hpair)
  named := h.named
  numbered := h.numbered
  alike := fun id id' hlink reached =>
    h.alike id id' hlink (reached.mono within.left fun _ _ => rfl)

/-- Matching values may be held if the left one leads nowhere new. -/
theorem hold (h : Heap.Similar link held left right) {value other : Value}
    (hmatch : value.Match link other) (leads : ∀ id, value.Leads id → left.Reachable held.left id) :
    Heap.Similar link (held.hold value other) left right where
  frames := h.frames
  values := fun pair hpair => by
    rcases List.mem_cons.mp hpair with rfl | hpair
    · exact hmatch
    · exact h.values pair hpair
  named := h.named
  numbered := h.numbered
  alike := fun id id' hlink reached => h.alike id id' hlink (.of_hold leads reached)

/-- Linked frames may be held if the left one is reached. -/
theorem holdFrame (h : Heap.Similar link held left right) {id id' : FrameId}
    (hlink : link.frames id id') (reached : left.Reachable held.left id) :
    Heap.Similar link (held.holdFrame id id') left right where
  frames := fun pair hpair => by
    rcases List.mem_cons.mp hpair with rfl | hpair
    · exact hlink
    · exact h.frames pair hpair
  values := h.values
  named := h.named
  numbered := h.numbered
  alike := fun other other' hlink hreach => h.alike other other' hlink (.of_holdFrame reached hreach)

/-! ## Looking up names -/

/-- What is found in linked frames: matching values, bound in frames that are reached. -/
structure Found (link : Link) (held : Held) (left right : Heap) (value other : Value) : Prop where
  values : value.Match link other
  leads : ∀ id, value.Leads id → left.Reachable held.left id
  left : ∀ roots, left.Carries roots value
  right : ∀ roots, right.Carries roots other

/-- Linked frames are searched alike: chains of scopes lead to older frames, so that they end
before the bound on their length. -/
theorem rel_lookupWithin (h : Heap.Similar link held left right) (wellFormed : left.WellFormed roots)
    (wellFormed' : right.WellFormed roots') (name : String) (steps : Nat) :
    ∀ (steps' : Nat) {id id' : FrameId}, link.frames id id' → left.Reachable held.left id →
      id.index < steps → id'.index < steps' →
      Option.Rel (Found link held left right) (left.lookupWithin name steps id)
        (right.lookupWithin name steps' id') := by
  induction steps with
  | zero => exact fun _ _ _ _ _ hlt => absurd hlt (Nat.not_lt_zero _)
  | succ steps ih =>
    intro steps' id id' hlink reached hlt hlt'
    cases steps' with
    | zero => exact absurd hlt' (Nat.not_lt_zero _)
    | succ steps' =>
      have hframes := h.alike _ _ hlink reached
      simp only [Heap.lookupWithin]
      generalize hframe : left.frame? id = frame?, hother : right.frame? id' = other? at hframes
      cases hframes with
      | none => exact .none
      | @some frame other hmatch =>
        have hbound := hmatch.bindings name
        dsimp only
        generalize hvalue : frame.bindings.lookup name = value,
          hvalue' : other.bindings.lookup name = value' at hbound
        cases hbound with
        | some hvalues =>
          have hmem := Bindings.mem_of_lookup hvalue
          exact .some ⟨hvalues, fun _ leads => .bound reached hframe hmem leads,
            fun _ => .bound hframe hmem, fun _ => .bound hother (Bindings.mem_of_lookup hvalue')⟩
        | none =>
          have houter := hmatch.outer
          generalize ho : frame.outer = outer, ho' : other.outer = outer' at houter
          cases houter with
          | none => exact .none
          | some hlink' =>
            have hless := wellFormed.older id frame _ hframe ho
            have hless' := wellFormed'.older id' other _ hother ho'
            exact ih steps' hlink' (.outer reached hframe ho) (by omega) (by omega)

/-- So names are looked up alike from linked frames. -/
theorem rel_lookup (h : Heap.Similar link held left right) (wellFormed : left.WellFormed roots)
    (wellFormed' : right.WellFormed roots') {id id' : FrameId} (hlink : link.frames id id')
    (reached : left.Reachable held.left id) (name : String) :
    Option.Rel (Found link held left right) (left.lookup id name) (right.lookup id' name) :=
  h.rel_lookupWithin wellFormed wellFormed' name _ _ hlink reached (h.named _ _ hlink).1
    (h.named _ _ hlink).2

/-! ## Making and binding -/

/-- New objects are linked, and may be held. -/
theorem newObject (h : Heap.Similar link held left right) {value other : Value}
    (new : left.Makes held.left value)
    (hmatch : ∀ next : Link, link.Within next →
      next.objects ⟨left.nextObject⟩ ⟨right.nextObject⟩ → value.Match next other) :
    ∃ next, Heap.Similar next (held.hold value other) left.newObject.2 right.newObject.2 := by
  have hfresh : ∀ other, ¬ link.objects ⟨left.nextObject⟩ other :=
    fun other hlink => Nat.lt_irrefl _ (h.numbered _ other hlink).1
  have hfresh' : ∀ other, ¬ link.objects other ⟨right.nextObject⟩ :=
    fun other hlink => Nat.lt_irrefl _ (h.numbered other _ hlink).2
  have hwithin : link.Within (link.addObjects _ _ hfresh hfresh') := ⟨id, .inl⟩
  have hleads : ∀ id, value.Leads id → left.Reachable held.left id := by
    intro id leads
    rcases Value.leads_iff.mp leads with hcaptured | ⟨content, hmember, hleads⟩
    · exact .held (new.captured id hcaptured)
    · exact .captured (new.contents content hmember) hleads
  refine ⟨link.addObjects _ _ hfresh hfresh', ?_⟩
  exact {
    frames := h.frames
    values := fun pair hpair => by
      rcases List.mem_cons.mp hpair with rfl | hpair
      · exact hmatch _ hwithin (.inr ⟨rfl, rfl⟩)
      · exact Value.Match.mono hwithin _ (h.values pair hpair)
    named := h.named
    numbered := fun object object' hlink => by
      rcases hlink with hlink | ⟨rfl, rfl⟩
      · have hbounds := h.numbered object object' hlink
        exact ⟨Nat.lt_succ_of_lt hbounds.1, Nat.lt_succ_of_lt hbounds.2⟩
      · exact ⟨Nat.lt_succ_self _, Nat.lt_succ_self _⟩
    alike := fun id id' hlink reached => by
      have hbefore : left.Reachable (held.hold value other).left id :=
        reached.mono (.refl _) fun id _ => (left.frame?_newObject id).symm
      exact rel_imp (fun _ _ => Frame.Match.mono hwithin)
        (h.alike id id' hlink (.of_hold hleads hbefore)) }

/-- Held values may be bound in held frames. -/
theorem bind {value other : Value} (h : Heap.Similar link (held.hold value other) left right)
    {id id' : FrameId} (hframe : (id, id') ∈ held.frames) (name : String) :
    Heap.Similar link held (left.bind id name value) (right.bind id' name other) where
  frames := h.frames
  values := fun pair hpair => h.values pair (List.mem_cons_of_mem _ hpair)
  named := fun a b hlink => by
    simp only [Heap.bind, Array.size_modify]
    exact h.named a b hlink
  numbered := h.numbered
  alike := fun a b hlink reached => by
    have hframes := h.alike a b hlink reached.of_bind
    have hlinked := h.frames (id, id') hframe
    by_cases hsame : a = id
    · subst hsame
      obtain rfl := (link.frames_iff hlink hlinked).mp rfl
      rw [Heap.frame?_bind_self, Heap.frame?_bind_self]
      generalize left.frame? a = frame?, right.frame? b = other? at hframes
      cases hframes with
      | none => exact .none
      | some hmatch =>
        refine .some ⟨hmatch.outer, fun wanted => ?_⟩
        by_cases hname : wanted = name
        · subst hname
          rw [Bindings.lookup_bind_self, Bindings.lookup_bind_self]
          exact .some (h.values (value, other) List.mem_cons_self)
        · rw [Bindings.lookup_bind_of_ne hname, Bindings.lookup_bind_of_ne hname]
          exact hmatch.bindings wanted
    · have hsame' : b ≠ id' := fun heq => hsame ((link.frames_iff hlink hlinked).mpr heq)
      rw [Heap.frame?_bind_of_ne hsame, Heap.frame?_bind_of_ne hsame']
      exact hframes

/-- New frames are linked, and may be held. -/
theorem newFrame (h : Heap.Similar link held left right) {outer outer' : Option FrameId}
    (houter : Option.Rel (fun id id' => (id, id') ∈ held.frames) outer outer') :
    ∃ next, Heap.Similar next
      (held.holdFrame (left.newFrame outer).1 (right.newFrame outer').1) (left.newFrame outer).2
        (right.newFrame outer').2 := by
  have hfresh : ∀ other, ¬ link.frames (left.newFrame outer).1 other :=
    fun other hlink => Nat.lt_irrefl _ (h.named _ other hlink).1
  have hfresh' : ∀ other, ¬ link.frames other (right.newFrame outer').1 :=
    fun other hlink => Nat.lt_irrefl _ (h.named other _ hlink).2
  have hwithin : link.Within (link.addFrames _ _ hfresh hfresh') := ⟨.inl, id⟩
  have hheld : ∀ id, outer = some id → id ∈ held.left.frames := by
    intro id hid
    obtain ⟨id', _, hmem⟩ := exists_of_rel_some houter hid
    exact List.mem_map_of_mem hmem
  have hsize : ∀ (outer : Option FrameId) (heap : Heap),
      (heap.newFrame outer).2.frames.size = heap.frames.size + 1 := fun outer heap => by
    simp [Heap.newFrame]
  refine ⟨link.addFrames _ _ hfresh hfresh', ?_⟩
  exact {
    frames := fun pair hpair => by
      rcases List.mem_cons.mp hpair with rfl | hpair
      · exact .inr ⟨rfl, rfl⟩
      · exact .inl (h.frames pair hpair)
    values := fun pair hpair => Value.Match.mono hwithin _ (h.values pair hpair)
    named := fun a b hlink => by
      rw [hsize, hsize]
      rcases hlink with hlink | ⟨rfl, rfl⟩
      · have hbounds := h.named a b hlink
        exact ⟨Nat.lt_succ_of_lt hbounds.1, Nat.lt_succ_of_lt hbounds.2⟩
      · exact ⟨Nat.lt_succ_self _, Nat.lt_succ_self _⟩
    numbered := h.numbered
    alike := fun a b hlink reached => by
      rcases hlink with hlink | ⟨rfl, rfl⟩
      · have hne : a ≠ (left.newFrame outer).1 := fun heq => hfresh b (heq ▸ hlink)
        have hne' : b ≠ (right.newFrame outer').1 := fun heq => hfresh' a (heq ▸ hlink)
        rw [Heap.frame?_newFrame_of_ne hne, Heap.frame?_newFrame_of_ne hne']
        exact rel_imp (fun _ _ => Frame.Match.mono hwithin)
          (h.alike a b hlink ((reached.of_newFrame hheld).resolve_left hne))
      · rw [Heap.frame?_newFrame_self, Heap.frame?_newFrame_self]
        refine .some ⟨rel_imp (fun _ _ hmem => .inl (h.frames _ hmem)) houter, fun _ => .none⟩ }

/-! ## Collections -/

/-- The left heap may be another one that is the same as far as it is reached. -/
theorem congrLeft (h : Heap.Similar link held left right) {next : Heap}
    (size : next.frames.size = left.frames.size) (nextObject : next.nextObject = left.nextObject)
    (same : ∀ id, left.Reachable held.left id → next.frame? id = left.frame? id) :
    Heap.Similar link held next right where
  frames := h.frames
  values := h.values
  named := fun id id' hlink => by
    rw [size]
    exact h.named id id' hlink
  numbered := fun object object' hlink => by
    rw [nextObject]
    exact h.numbered object object' hlink
  alike := fun id id' hlink reached => by
    have hbefore : left.Reachable held.left id := by
      clear hlink
      induction reached with
      | held hmem => exact .held hmem
      | captured hmem leads => exact .captured hmem leads
      | outer _ here houter ih => exact .outer ih ((same _ ih).symm.trans here) houter
      | bound _ here hmem leads ih => exact .bound ih ((same _ ih).symm.trans here) hmem leads
    rw [same id hbefore]
    exact h.alike id id' hlink hbefore

/-- The right heap may be another one that is the same as far as it is reached. -/
theorem congrRight (h : Heap.Similar link held left right) (wellFormed : left.WellFormed roots)
    {next : Heap} (size : next.frames.size = right.frames.size)
    (nextObject : next.nextObject = right.nextObject)
    (same : ∀ id, right.Reachable held.right id → next.frame? id = right.frame? id) :
    Heap.Similar link held left next where
  frames := h.frames
  values := h.values
  named := fun id id' hlink => by
    rw [size]
    exact h.named id id' hlink
  numbered := fun object object' hlink => by
    rw [nextObject]
    exact h.numbered object object' hlink
  alike := fun id id' hlink reached => by
    rw [same id' (h.reachable_of_linked wellFormed hlink reached)]
    exact h.alike id id' hlink reached

/-- The left run may collect without the right one. -/
theorem collectLeft (h : Heap.Similar link held left right) (sound : left.Sound roots)
    (within : held.left.Within roots) : Heap.Similar link held (left.collect roots).2 right :=
  h.congrLeft (Heap.size_frames_collect left roots) rfl fun _ reached =>
    sound.frame?_collect_of_reachable (reached.mono within fun _ _ => rfl)

/-- The right run may collect without the left one. -/
theorem collectRight (h : Heap.Similar link held left right) (wellFormed : left.WellFormed roots)
    (sound : right.Sound roots') (within : held.right.Within roots') :
    Heap.Similar link held left (right.collect roots').2 :=
  h.congrRight wellFormed (Heap.size_frames_collect right roots') rfl fun _ reached =>
    sound.frame?_collect_of_reachable (reached.mono within fun _ _ => rfl)

end Heap.Similar

end Scriptlet
