import Scriptlet.Proofs.Heap.Without
import Scriptlet.Proofs.Simulation.Collections

set_option autoImplicit false

/-!
# Bindings of the names of native functions are dead

Component: the evaluator and the table of native functions.  Specification: section 4.4, by which
the table is looked up before user bindings, so that user code can neither shadow a native function
by accident nor override one, and section 9 on tables that are injected.

A name that is in the table of native functions never reaches the scopes, so that what it is bound
to there does not matter.  Machines are related by their heaps without these bindings
(`Machine.SimilarBut`): the frames that either run really has may hold any values under such names,
and reach whatever they like through them.  All the operations of a heap work on the heap without
dead bindings as they do on the heap itself, so machines that are related in this way are a
simulation.

As for collections, the theorem is about every table of the library's functions.  It depends on the
names in the table and on nothing else of it: a name that is in no table is looked up in the scopes,
and is dead nowhere.

Parameters are bindings like any other, so that a parameter with the name of a native function is
dead, too, and its argument is not seen.
-/

namespace Scriptlet

/-- Whether a name is the name of a native function. -/
def BuiltinTable.has (table : BuiltinTable) (name : String) : Bool := (table.find? name).isSome

/-- The heap without bindings of dead names, in whatever frame. -/
abbrev Heap.withoutNames (dead : String → Bool) (heap : Heap) : Heap := heap.without fun _ => dead

/-- Whether two machines look the same from what two runs hold, apart from bindings of dead names;
each run may hold other things aside. -/
structure Machine.SimilarBut (dead : String → Bool) (aside aside' : Roots) (link : Link)
    (held : Held) (l r : Machine) : Prop where
  left : l.heap.WellFormed (held.left.and aside)
  right : r.heap.WellFormed (held.right.and aside')
  heaps : Heap.Similar link held (l.heap.withoutNames dead) (r.heap.withoutNames dead)
  console : l.console = r.console

namespace Heap

variable {dead : FrameId → String → Bool} {heap : Heap} {roots others : Roots}

/-- What is made is made of what is held, and no binding matters. -/
theorem Makes.without {value : Value} (new : heap.Makes roots value) :
    (heap.without dead).Makes roots value where
  object := new.object
  contents := new.contents
  captured := new.captured

/-- A collection leaves what is reached without dead bindings. -/
theorem Sound.frame?_without_collect (sound : heap.Sound others) (within : roots.Within others)
    {id : FrameId} (reached : (heap.without dead).Reachable roots id) :
    ((heap.collect others).2.without dead).frame? id = (heap.without dead).frame? id := by
  have hreach : heap.Reachable others id := reached.of_without.mono within fun _ _ => rfl
  rw [frame?_without, frame?_without, sound.frame?_collect_of_reachable hreach]

/-- A collection leaves a place for each frame. -/
theorem size_frames_without_collect (dead : FrameId → String → Bool) (heap : Heap)
    (roots : Roots) :
    ((heap.collect roots).2.without dead).frames.size = (heap.without dead).frames.size := by
  rw [size_frames_without, size_frames_without, size_frames_collect]

end Heap

section

variable {left right : Setup} (aside aside' : Roots)

/-- Machines that are similar but for bindings of the names of native functions are a simulation. -/
def similarityBut (agrees : left.Agrees right) : Simulation left right aside aside' where
  Related := Machine.SimilarBut left.builtins.has aside aside'
  builtins_eq := agrees.builtins
  files_eq := agrees.files
  digest_eq := agrees.digest
  callDepth_eq := agrees.callDepth
  frames := fun h => h.heaps.frames
  values := fun h => h.heaps.values
  console_eq := fun h => h.console
  weaken := fun h within => {
    left := h.left.of_within (within.left.and aside)
    right := h.right.of_within (within.right.and aside')
    heaps := h.heaps.weaken within
    console := h.console }
  hold := fun h hmatch made made' => {
    left := h.left.hold (.of_held made (Roots.within_and _ _))
    right := h.right.hold (.of_held made' (Roots.within_and _ _))
    heaps := h.heaps.hold hmatch fun id leads => by
      obtain ⟨whole, hwhole, hleads⟩ := made.exists_leads leads
      exact .captured hwhole hleads
    console := h.console }
  holdFrame := fun {_ held _ _ _ _ _ _} h hmem leads leads' hlink => {
    left := h.left.holdFrame (h.left.leads_alive _ _
      (.held (List.mem_append.mpr (.inl (List.mem_map_of_mem hmem)))) leads)
    right := h.right.holdFrame (h.right.leads_alive _ _
      (.held (List.mem_append.mpr (.inl (List.mem_map_of_mem hmem)))) leads')
    heaps := h.heaps.holdFrame hlink (.captured (List.mem_map_of_mem hmem) leads)
    console := h.console }
  lookup := fun name hname h hframe => by
    have hlive : left.builtins.has name = false := by rw [BuiltinTable.has, hname]; rfl
    have hfound := h.heaps.rel_lookup (h.left.without _) (h.right.without _)
      (h.heaps.frames _ hframe) (.held (List.mem_map_of_mem hframe)) name
    rw [Heap.lookup_without fun _ => hlive, Heap.lookup_without fun _ => hlive] at hfound
    refine rel_imp (fun value other found => ?_) hfound
    exact {
      left := h.left.hold (.of_carries (found.left _).of_without)
      right := h.right.hold (.of_carries (found.right _).of_without)
      heaps := h.heaps.hold found.values found.leads
      console := h.console }
  create := fun h new new' hmatch => by
    obtain ⟨next, hnext⟩ := h.heaps.newObject new.without hmatch
    exact ⟨next, {
      left := h.left.newObject (new.mono (Roots.within_and _ _))
      right := h.right.newObject (new'.mono (Roots.within_and _ _))
      heaps := hnext
      console := h.console }⟩
  bind := fun name h hframe => {
    left := h.left.bind _ name
    right := h.right.bind _ name
    heaps := by
      cases hname : left.builtins.has name with
      | true =>
        simp only [Machine.withHeap, Heap.withoutNames, Heap.without_bind_of_dead, hname]
        exact h.heaps.weaken (Held.within_hold _ _ _)
      | false =>
        simp only [Machine.withHeap, Heap.withoutNames, Heap.without_bind, hname]
        exact h.heaps.bind hframe name
    console := h.console }
  newFrame := fun h hframe => by
    obtain ⟨next, hnext⟩ := h.heaps.newFrame (.some hframe)
    simp only [Heap.newFrame_without] at hnext
    refine ⟨next, {
      left := h.left.newFrame _ fun id hid => ?_
      right := h.right.newFrame _ fun id hid => ?_
      heaps := hnext
      console := h.console }⟩
    · cases hid
      exact List.mem_append.mpr (.inl (List.mem_map_of_mem hframe))
    · cases hid
      exact List.mem_append.mpr (.inl (List.mem_map_of_mem hframe))
  collectLeft := fun h => {
    left := h.left.collect
    right := h.right
    heaps := h.heaps.congrLeft (Heap.size_frames_without_collect _ _ _) rfl fun _ reached =>
      h.left.toSound.frame?_without_collect (Roots.within_and _ _) reached
    console := h.console }
  collectRight := fun h => {
    left := h.left
    right := h.right.collect
    heaps := h.heaps.congrRight (h.left.without _) (Heap.size_frames_without_collect _ _ _) rfl
      fun _ reached => h.right.toSound.frame?_without_collect (Roots.within_and _ _) reached
    console := h.console }
  console := fun console asked asked' h => ⟨h.left, h.right, h.heaps, rfl⟩

end

/-! ## What can be seen -/

/-- Whether two machines are the same but for the bindings of dead names in their frames, and for
what no program sees: which frames are registered, when a collection is due, how many objects have
been made and which files have been asked for. -/
structure Machine.SameBut (dead : String → Bool) (l r : Machine) : Prop where
  frames : ∀ id, (r.heap.withoutNames dead).frame? id = (l.heap.withoutNames dead).frame? id
  console : l.console = r.console

/-- Whether two ended programs cannot be told apart but by looking up dead names: by their values or
errors, by what has been read and written, by what any scope looks up that is held or that can be
reached from what is held, or by anything that runs later. -/
structure IndistinguishableBut (dead : String → Bool) (aside aside' : Roots) (held : Held)
    (first second : Outcome × Machine) : Prop where
  outcome : first.1.seen = second.1.seen
  console : first.2.console = second.2.console
  lookups : ∀ pair ∈ held.frames, ∀ name, dead name = false →
    (first.2.heap.lookup pair.1 name).map Value.seen =
      (second.2.heap.lookup pair.2 name).map Value.seen
  later : ∃ link,
    Machine.SimilarBut dead aside aside' link (first.1.heldWith held second.1) first.2 second.2 ∧
    ∀ id id', link.frames id id' → (first.2.heap.withoutNames dead).Reachable
      (first.1.heldWith held second.1).left id → ∀ name, dead name = false →
      (first.2.heap.lookup id name).map Value.seen = (second.2.heap.lookup id' name).map Value.seen

section

variable {dead : String → Bool} {aside aside' : Roots} {link : Link} {held : Held} {l r : Machine}

/-- Linked frames that are reached look up all names alike that are not dead. -/
theorem Machine.SimilarBut.lookups (h : Machine.SimilarBut dead aside aside' link held l r)
    {id id' : FrameId} (hlink : link.frames id id')
    (reached : (l.heap.withoutNames dead).Reachable held.left id) {name : String}
    (hlive : dead name = false) :
    (l.heap.lookup id name).map Value.seen = (r.heap.lookup id' name).map Value.seen := by
  have hrel := h.heaps.rel_lookup (h.left.without _) (h.right.without _) hlink reached name
  rw [Heap.lookup_without fun _ => hlive, Heap.lookup_without fun _ => hlive] at hrel
  generalize l.heap.lookup id name = value, r.heap.lookup id' name = other at hrel
  cases hrel with
  | none => rfl
  | some found => exact congrArg some found.values.seen

/-- Machines that look the same but for dead names can be told apart by these only. -/
theorem Machine.SimilarBut.indistinguishable {first second : Outcome}
    (seen : first.seen = second.seen) (within : held.Within (first.heldWith held second))
    (h : Machine.SimilarBut dead aside aside' link (first.heldWith held second) l r) :
    IndistinguishableBut dead aside aside' held (first, l) (second, r) where
  outcome := seen
  console := h.console
  lookups := fun pair hpair _ hlive => by
    have hmem := within.frames pair hpair
    exact h.lookups (h.heaps.frames pair hmem) (.held (List.mem_map_of_mem hmem)) hlive
  later := ⟨link, h, fun _ _ hlink reached _ hlive => h.lookups hlink reached hlive⟩

end

/-- Programs that end alike cannot be told apart but by looking up dead names. -/
theorem indistinguishableBut_of_ends {left right : Setup} {aside aside' : Roots}
    {agrees : left.Agrees right} {held : Held} {first second : Outcome × Machine}
    (h : (similarityBut aside aside' agrees).Ends held first second) :
    IndistinguishableBut left.builtins.has aside aside' held first second := by
  cases h with
  | finished h =>
    cases h with
    | none h =>
      obtain ⟨link, h⟩ := h
      exact Machine.SimilarBut.indistinguishable rfl (.refl held) h
    | some h =>
      obtain ⟨link, h⟩ := h
      refine Machine.SimilarBut.indistinguishable ?_ (held.within_hold _ _) h
      exact congrArg (Except.ok ∘ some) (h.heaps.values _ List.mem_cons_self).seen
  | failed error h =>
    obtain ⟨link, h⟩ := h
    exact Machine.SimilarBut.indistinguishable rfl (.refl held) h
  | exhausted h =>
    obtain ⟨link, h⟩ := h
    exact Machine.SimilarBut.indistinguishable rfl (.refl held) h

/-- Machines that are the same but for dead names look the same but for them. -/
theorem Machine.SameBut.similar {dead : String → Bool} {roots : Roots} {l r : Machine}
    (h : l.SameBut dead r) (hleft : l.heap.WellFormed roots) (hright : r.heap.WellFormed roots) :
    ∃ link, Machine.SimilarBut dead ⟨[], []⟩ ⟨[], []⟩ link roots.both l r := by
  have hnobody : roots.and ⟨[], []⟩ = roots := by simp [Roots.and]
  exact ⟨_, {
    left := by rwa [Roots.left_both, hnobody]
    right := by rwa [Roots.right_both, hnobody]
    heaps := (hleft.without _).similar (hright.without _) h.frames
    console := h.console }⟩

/-- Bindings of names of native functions are dead, in whatever frame, whoever made them.  Two runs
of a program end alike, whatever is bound to such names: when they start from machines that look the
same from what is held but for these bindings; in particular from machines that are the same but for
them. -/
theorem runProgram_ignores_names_of_builtins {left right : Setup} (agrees : left.Agrees right)
    (program : Program) :
    (∀ {aside aside' : Roots} {link : Link} {held : Held} {l r : Machine} {id id' : FrameId},
      Machine.SimilarBut left.builtins.has aside aside' link held l r → (id, id') ∈ held.frames →
      IndistinguishableBut left.builtins.has aside aside' held
        (runProgram left id (held.left.and aside) program l)
        (runProgram right id' (held.right.and aside') program r)) ∧
    (∀ {roots : Roots} {l r : Machine} {id : FrameId},
      l.heap.WellFormed roots → r.heap.WellFormed roots → l.SameBut left.builtins.has r →
      id ∈ roots.frames →
      IndistinguishableBut left.builtins.has ⟨[], []⟩ ⟨[], []⟩ roots.both
        (runProgram left id roots program l) (runProgram right id roots program r)) := by
  have hsimilar : ∀ {aside aside' : Roots} {link : Link} {held : Held} {l r : Machine}
      {id id' : FrameId}, Machine.SimilarBut left.builtins.has aside aside' link held l r →
      (id, id') ∈ held.frames →
      IndistinguishableBut left.builtins.has aside aside' held
        (runProgram left id (held.left.and aside) program l)
        (runProgram right id' (held.right.and aside') program r) := by
    intro aside aside' link held l r id id' h hframe
    have halike : (similarityBut aside aside' agrees).Alike held l r := ⟨link, h⟩
    exact indistinguishableBut_of_ends (Simulation.ends_runProgram program halike hframe)
  refine ⟨hsimilar, ?_⟩
  intro roots l r id hleft hright same hid
  obtain ⟨link, hstart⟩ := same.similar hleft hright
  have hnobody : roots.and ⟨[], []⟩ = roots := by simp [Roots.and]
  have hends := hsimilar hstart (List.mem_map_of_mem hid)
  rwa [Roots.left_both, Roots.right_both, hnobody] at hends

/-- A frame that binds the name of a native function to an integer. -/
def shadowed (value : Int64) : Heap := (Heap.empty.newFrame none).2.bind ⟨0⟩ "len" (.integer value)

/-- Binding an integer needs nothing to be held. -/
theorem wellFormed_shadowed (value : Int64) : (shadowed value).WellFormed ⟨[⟨0⟩], []⟩ := by
  have hframe := Heap.wellFormed_empty.newFrame none (fun _ h => by cases h)
  exact (hframe.hold (.of_madeOf (.of_object?_none rfl))).bind ⟨0⟩ "len"

/-- A program that binds the name of a native function again, as a parameter, too. -/
def shadowing : Program := (parse "let f = fn(len) { len([1, 2]) }; let len = f(3); len(\"ab\")").program

/-- What a native function's name is bound to at first makes no difference to such a program. -/
theorem runProgram_shadowing :
    (Setup.collecting true).Agrees (Setup.collecting false) ∧
    (Setup.collecting true).builtins.has "len" = true ∧
    (shadowed 1).lookup ⟨0⟩ "len" ≠ (shadowed 2).lookup ⟨0⟩ "len" ∧
    (shadowed 1).WellFormed ⟨[⟨0⟩], []⟩ ∧ (shadowed 2).WellFormed ⟨[⟨0⟩], []⟩ ∧
    Machine.SameBut (Setup.collecting true).builtins.has ⟨shadowed 1, .ofInput [], []⟩
      ⟨shadowed 2, .ofInput [], []⟩ ∧
    IndistinguishableBut (Setup.collecting true).builtins.has ⟨[], []⟩ ⟨[], []⟩
      (Roots.both ⟨[⟨0⟩], []⟩)
      (runProgram (.collecting true) ⟨0⟩ ⟨[⟨0⟩], []⟩ shadowing ⟨shadowed 1, .ofInput [], []⟩)
      (runProgram (.collecting false) ⟨0⟩ ⟨[⟨0⟩], []⟩ shadowing ⟨shadowed 2, .ofInput [], []⟩) := by
  have hagrees : (Setup.collecting true).Agrees (Setup.collecting false) := ⟨rfl, rfl, rfl, rfl⟩
  have hname : (Setup.collecting true).builtins.has "len" = true := by decide
  have hsame : Machine.SameBut (Setup.collecting true).builtins.has
      ⟨shadowed 1, .ofInput [], []⟩ ⟨shadowed 2, .ofInput [], []⟩ := by
    refine ⟨fun id => ?_, rfl⟩
    simp only [shadowed, Heap.withoutNames, Heap.without_bind_of_dead, hname]
  refine ⟨hagrees, hname, ?_, wellFormed_shadowed 1, wellFormed_shadowed 2, hsame, ?_⟩
  · have hbound : ∀ value, (shadowed value).lookup ⟨0⟩ "len" = some (.integer value) := fun _ => rfl
    rw [hbound, hbound, ne_eq, Option.some.injEq, Value.integer.injEq]
    decide
  · exact (runProgram_ignores_names_of_builtins hagrees shadowing).2 (wellFormed_shadowed 1)
      (wellFormed_shadowed 2) hsame List.mem_cons_self

end Scriptlet
