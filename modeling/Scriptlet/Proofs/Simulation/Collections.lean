import Scriptlet.Proofs.Heap.Exactness
import Scriptlet.Proofs.Simulation.Similar

set_option autoImplicit false

/-!
# Collections are invisible

Component: the evaluator and the collector.  Specification: section 5, by which a program sees its
environments and nothing of the memory they take, section 9 on shared ownership, and section 8, by
which running a program again in a fresh environment gives the same.

Machines whose heaps are well-formed and similar are a simulation.  So two runs of a program that
start from such machines cannot be told apart: they may differ in when collections happen, in what
is registered, in the threshold, in garbage, and in whatever else is alive beside what the program
can get to.

The theorem is about every table of the library's functions: which names they have is part of the
setup, and two runs agree in it (`Setup.Agrees`).  Functions that a host might add are no part of
the library.  One that looked at the memory could tell two runs apart.

That programs end alike is not all of it.  What is left behind is alike, too
(`Indistinguishable.later`), so that nothing that runs later tells the difference either.
-/

namespace Scriptlet

/-- Whether two setups agree in all that a program may notice: in everything but when collections
are due. -/
structure Setup.Agrees (left right : Setup) : Prop where
  builtins : left.builtins = right.builtins
  files : left.files = right.files
  digest : left.digest = right.digest
  callDepth : left.callDepth = right.callDepth

/-- Whether two machines look the same from what two runs hold, each of which may hold other things
aside. -/
structure Machine.Similar (aside aside' : Roots) (link : Link) (held : Held) (l r : Machine) :
    Prop where
  left : l.heap.WellFormed (held.left.and aside)
  right : r.heap.WellFormed (held.right.and aside')
  heaps : Heap.Similar link held l.heap r.heap
  console : l.console = r.console

namespace Heap

variable {heap : Heap} {roots others : Roots}

/-- What is made of what is held is made of more, as well. -/
theorem Makes.mono {value : Value} (new : heap.Makes roots value) (within : roots.Within others) :
    heap.Makes others value where
  object := new.object
  contents := fun content hmem => within.values content (new.contents content hmem)
  captured := fun id hid => within.frames id (new.captured id hid)

/-- What is made of held values is offered where more is held. -/
theorem Offers.of_held {value : Value} (made : value.MadeOf roots.values)
    (within : roots.Within others) : heap.Offers others value :=
  .of_madeOf (made.mono within.values)

end Heap

section

variable {left right : Setup} (aside aside' : Roots)

/-- Similar machines are a simulation. -/
def similarity (agrees : left.Agrees right) : Simulation left right aside aside' where
  Related := Machine.Similar aside aside'
  builtins_eq := agrees.builtins
  files_eq := agrees.files
  digest_eq := agrees.digest
  callDepth_eq := agrees.callDepth
  frames := fun h => h.heaps.frames
  values := fun h => h.heaps.values
  console_eq := fun h => h.console
  weaken := fun h within => {
    left := h.left.of_within (within.left.and aside)
    right := h.right.of_within (within.right.and aside')
    heaps := h.heaps.weaken within
    console := h.console }
  hold := fun h hmatch made made' => {
    left := h.left.hold (.of_held made (Roots.within_and _ _))
    right := h.right.hold (.of_held made' (Roots.within_and _ _))
    heaps := h.heaps.hold hmatch fun id leads => by
      obtain ⟨whole, hwhole, hleads⟩ := made.exists_leads leads
      exact .captured hwhole hleads
    console := h.console }
  holdFrame := fun {_ held _ _ _ _ _ _} h hmem leads leads' hlink => {
    left := h.left.holdFrame (h.left.leads_alive _ _
      (.held (List.mem_append.mpr (.inl (List.mem_map_of_mem hmem)))) leads)
    right := h.right.holdFrame (h.right.leads_alive _ _
      (.held (List.mem_append.mpr (.inl (List.mem_map_of_mem hmem)))) leads')
    heaps := h.heaps.holdFrame hlink (.captured (List.mem_map_of_mem hmem) leads)
    console := h.console }
  lookup := fun name _ h hframe => by
    refine rel_imp (fun value other found => ?_) (h.heaps.rel_lookup h.left h.right
      (h.heaps.frames _ hframe) (.held (List.mem_map_of_mem hframe)) name)
    exact {
      left := h.left.hold (.of_carries (found.left _))
      right := h.right.hold (.of_carries (found.right _))
      heaps := h.heaps.hold found.values found.leads
      console := h.console }
  create := fun h new new' hmatch => by
    obtain ⟨next, hnext⟩ := h.heaps.newObject new hmatch
    exact ⟨next, {
      left := h.left.newObject (new.mono (Roots.within_and _ _))
      right := h.right.newObject (new'.mono (Roots.within_and _ _))
      heaps := hnext
      console := h.console }⟩
  bind := fun name h hframe => {
    left := h.left.bind _ name
    right := h.right.bind _ name
    heaps := h.heaps.bind hframe name
    console := h.console }
  newFrame := fun h hframe => by
    obtain ⟨next, hnext⟩ := h.heaps.newFrame (.some hframe)
    refine ⟨next, {
      left := h.left.newFrame _ fun id hid => ?_
      right := h.right.newFrame _ fun id hid => ?_
      heaps := hnext
      console := h.console }⟩
    · cases hid
      exact List.mem_append.mpr (.inl (List.mem_map_of_mem hframe))
    · cases hid
      exact List.mem_append.mpr (.inl (List.mem_map_of_mem hframe))
  collectLeft := fun h => {
    left := h.left.collect
    right := h.right
    heaps := h.heaps.collectLeft h.left.toSound (Roots.within_and _ _)
    console := h.console }
  collectRight := fun h => {
    left := h.left
    right := h.right.collect
    heaps := h.heaps.collectRight h.left h.right.toSound (Roots.within_and _ _)
    console := h.console }
  console := fun console asked asked' h => ⟨h.left, h.right, h.heaps, rfl⟩

end

/-! ## Where two runs may start -/

/-- Some roots, on either side. -/
def Roots.both (roots : Roots) : Held :=
  ⟨roots.frames.map fun id => (id, id), roots.values.map fun value => (value, value)⟩

/-- On the left these are the roots. -/
theorem Roots.left_both (roots : Roots) : roots.both.left = roots := by
  simp [both, Held.left, Function.comp_def]

/-- On the right these are the roots, too. -/
theorem Roots.right_both (roots : Roots) : roots.both.right = roots := by
  simp [both, Held.right, Function.comp_def]

/-- Everything linked with itself that two heaps have named. -/
def Heap.common (heap other : Heap) : Link where
  frames id id' := id = id' ∧ id.index < heap.frames.size ∧ id.index < other.frames.size
  objects object object' :=
    object = object' ∧ object.index < heap.nextObject ∧ object.index < other.nextObject
  frames_iff := by
    rintro a b c d ⟨rfl, _⟩ ⟨rfl, _⟩
    exact Iff.rfl
  objects_iff := by
    rintro a b c d ⟨rfl, _⟩ ⟨rfl, _⟩
    exact Iff.rfl

/-- A value matches itself where its objects and the frames it leads to are linked with themselves. -/
theorem Value.match_self {link : Link} (value : Value)
    (objects : ∀ part object, value.Part part → part.object? = some object →
      link.objects object object)
    (frames : ∀ id, value.Leads id → link.frames id id) : value.Match link value := by
  induction value using Value.contents_induction with
  | step value ih =>
    have hcontents : ∀ content ∈ value.contents, content.Match link content := by
      intro content hmem
      refine ih content hmem (fun part object hpart => objects part object (.content hmem hpart)) ?_
      rintro id ⟨part, hpart, hcaptured⟩
      exact frames id ⟨part, .content hmem hpart, hcaptured⟩
    cases value with
    | null => exact .null
    | integer n => exact .integer n
    | boolean b => exact .boolean b
    | string s => exact .string s
    | builtin builtin => exact .builtin builtin
    | function object literal frame =>
      exact .function literal (objects _ object (.self _) rfl) (frames frame ⟨_, .self _, rfl⟩)
    | array object elements =>
      exact .array (objects _ object (.self _) rfl) (List.forall₂_same.mpr hcontents)
    | hash object entries =>
      exact .hash (objects _ object (.self _) rfl)
        (Simulation.matchEntries rfl (List.forall₂_same.mpr hcontents))

/-- What is carried is told by the frames. -/
theorem Heap.Carries.of_frame?_eq {heap other : Heap} {roots : Roots} {value : Value}
    (h : heap.Carries roots value) (frames : ∀ id, other.frame? id = heap.frame? id) :
    other.Carries roots value := by
  cases h with
  | held hmem => exact .held hmem
  | bound here hmem => exact .bound ((frames _).trans here) hmem

/-- Heaps with the same frames are similar, whatever is registered and whenever a collection is
due. -/
theorem Heap.WellFormed.similar {heap other : Heap} {roots : Roots} (h : heap.WellFormed roots)
    (h' : other.WellFormed roots) (frames : ∀ id, other.frame? id = heap.frame? id) :
    Heap.Similar (heap.common other) roots.both heap other := by
  have halive : ∀ id, heap.isAlive id = true → (heap.common other).frames id id := by
    intro id halive
    refine ⟨rfl, Heap.lt_size_of_isAlive halive, Heap.lt_size_of_isAlive ?_⟩
    rwa [Heap.isAlive, frames]
  have hvalue : ∀ value, heap.Carries roots value → value.Match (heap.common other) value := by
    intro value hcarries
    refine value.match_self (fun part object hpart hobject => ⟨rfl, ?_, ?_⟩) fun id leads => ?_
    · exact h.issued value part object hcarries hpart hobject
    · exact h'.issued value part object (hcarries.of_frame?_eq frames) hpart hobject
    · exact halive id (h.leads_alive value id hcarries leads)
  exact {
    frames := fun pair hpair => by
      obtain ⟨id, hid, rfl⟩ := List.mem_map.mp hpair
      exact halive id (h.held_alive id hid)
    values := fun pair hpair => by
      obtain ⟨value, hmem, rfl⟩ := List.mem_map.mp hpair
      exact hvalue value (.held hmem)
    named := by
      rintro id id' ⟨rfl, hlt⟩
      exact hlt
    numbered := by
      rintro object object' ⟨rfl, hlt⟩
      exact hlt
    alike := by
      rintro id id' ⟨rfl, _⟩ _
      rw [frames]
      cases hhere : heap.frame? id with
      | none => exact .none
      | some frame =>
        refine .some ⟨?_, fun name => ?_⟩
        · cases houter : frame.outer with
          | none => exact .none
          | some outer => exact .some (halive outer (h.outer_alive id frame outer hhere houter))
        · cases hbound : frame.bindings.lookup name with
          | none => exact .none
          | some value =>
            exact .some (hvalue value (.bound hhere (Bindings.mem_of_lookup hbound))) }

/-- Two machines in which nothing is held in common look the same, and so they do with a new frame
on either side. -/
theorem Machine.similar_newFrame {left right : Setup} {aside aside' : Roots} {l r : Machine}
    (hleft : l.heap.WellFormed aside) (hright : r.heap.WellFormed aside')
    (console : l.console = r.console) :
    ∃ link, Machine.Similar aside aside' link
      ⟨[((l.newFrame left aside none).1, (r.newFrame right aside' none).1)], []⟩
      (l.newFrame left aside none).2 (r.newFrame right aside' none).2 := by
  have hdue : ∀ (due : Bool) {heap : Heap} {roots : Roots}, heap.WellFormed roots →
      (if due then (heap.collect roots).2 else heap).WellFormed roots := by
    intro due heap roots h
    split
    · exact h.collect
    · exact h
  have hnothing : ∀ l r : Heap, Heap.Similar
      ⟨fun _ _ => False, fun _ _ => False, fun h => h.elim, fun h => h.elim⟩ ⟨[], []⟩ l r :=
    fun l r => {
      frames := fun _ h => absurd h List.not_mem_nil
      values := fun _ h => absurd h List.not_mem_nil
      named := fun _ _ h => h.elim
      numbered := fun _ _ h => h.elim
      alike := fun _ _ h => h.elim }
  have hleft' := hdue (left.due l.heap) hleft
  have hright' := hdue (right.due r.heap) hright
  obtain ⟨link, hlink⟩ := (hnothing _ _).newFrame (.none)
  exact ⟨link, {
    left := hleft'.newFrame none fun _ h => by cases h
    right := hright'.newFrame none fun _ h => by cases h
    heaps := hlink
    console := console }⟩

/-! ## What can be seen -/

/-- What can be seen of a value. -/
def Value.seen (value : Value) : ValueType × String := (value.type, value.inspect)

/-- What can be seen of how a program ended: its value, if it has one, or its error. -/
def Outcome.seen : Outcome → Except (Option RuntimeError) (Option (ValueType × String))
  | .finished value => .ok (value.map Value.seen)
  | .failed error => .error (some error)
  | .exhausted => .error none

/-- What two runs hold after their programs have ended: also the values of these. -/
def Outcome.heldWith (held : Held) : Outcome → Outcome → Held
  | .finished (some value), .finished (some other) => held.hold value other
  | _, _ => held

/-- Whether two ended programs cannot be told apart: by their values or errors, by what has been
read and written, by what any scope held looks up, or by anything that runs later. -/
structure Indistinguishable (aside aside' : Roots) (held : Held)
    (first second : Outcome × Machine) : Prop where
  outcome : first.1.seen = second.1.seen
  console : first.2.console = second.2.console
  lookups : ∀ pair ∈ held.frames, ∀ name,
    (first.2.heap.lookup pair.1 name).map Value.seen =
      (second.2.heap.lookup pair.2 name).map Value.seen
  later : ∃ link, Machine.Similar aside aside' link (first.1.heldWith held second.1) first.2 second.2

/-- Of matching values the same can be seen. -/
theorem Value.Match.seen {link : Link} {value other : Value} (h : value.Match link other) :
    value.seen = other.seen := by
  rw [Value.seen, Value.seen, h.type, Value.Match.inspect value h]

/-- Frames that both runs hold look up what cannot be told apart. -/
theorem Machine.Similar.lookups {aside aside' : Roots} {link : Link} {held : Held} {l r : Machine}
    (h : Machine.Similar aside aside' link held l r) {pair : FrameId × FrameId}
    (hpair : pair ∈ held.frames) (name : String) :
    (l.heap.lookup pair.1 name).map Value.seen = (r.heap.lookup pair.2 name).map Value.seen := by
  have hrel := h.heaps.rel_lookup h.left h.right (h.heaps.frames pair hpair)
    (.held (List.mem_map_of_mem hpair)) name
  generalize l.heap.lookup pair.1 name = value, r.heap.lookup pair.2 name = other at hrel
  cases hrel with
  | none => rfl
  | some found => exact congrArg some found.values.seen

/-- Programs that end alike cannot be told apart. -/
theorem indistinguishable_of_ends {left right : Setup} {aside aside' : Roots}
    {agrees : left.Agrees right} {held : Held} {first second : Outcome × Machine}
    (h : (similarity aside aside' agrees).Ends held first second) :
    Indistinguishable aside aside' held first second := by
  cases h with
  | finished h =>
    cases h with
    | none h =>
      obtain ⟨link, h⟩ := h
      exact ⟨rfl, h.console, fun _ hpair name => h.lookups hpair name, link, h⟩
    | some h =>
      obtain ⟨link, h⟩ := h
      refine ⟨?_, h.console, fun _ hpair name => h.lookups hpair name, link, h⟩
      exact congrArg (Except.ok ∘ some) (h.heaps.values _ List.mem_cons_self).seen
  | failed error h =>
    obtain ⟨link, h⟩ := h
    exact ⟨rfl, h.console, fun _ hpair name => h.lookups hpair name, link, h⟩
  | exhausted h =>
    obtain ⟨link, h⟩ := h
    exact ⟨rfl, h.console, fun _ hpair name => h.lookups hpair name, link, h⟩

/-- Collections are invisible.  Two runs of a program cannot be told apart, whenever collections
happen in either of them: when they start from machines that look the same from what is held; in
particular from one machine, whatever its registry and its threshold are; and in new scopes of any
two machines with the same console. -/
theorem runProgram_indistinguishable {left right : Setup} (agrees : left.Agrees right)
    (program : Program) :
    (∀ {aside aside' : Roots} {link : Link} {held : Held} {l r : Machine} {id id' : FrameId},
      Machine.Similar aside aside' link held l r → (id, id') ∈ held.frames →
      Indistinguishable aside aside' held
        (runProgram left id (held.left.and aside) program l)
        (runProgram right id' (held.right.and aside') program r)) ∧
    (∀ {roots : Roots} {l r : Machine} {id : FrameId},
      l.heap.WellFormed roots → r.heap.WellFormed roots → r.heap.frames = l.heap.frames →
      r.heap.nextObject = l.heap.nextObject → r.console = l.console → id ∈ roots.frames →
      Indistinguishable ⟨[], []⟩ ⟨[], []⟩ roots.both (runProgram left id roots program l)
        (runProgram right id roots program r)) ∧
    (∀ {aside aside' : Roots} {l r : Machine},
      l.heap.WellFormed aside → r.heap.WellFormed aside' → l.console = r.console →
      Indistinguishable aside aside'
        ⟨[((l.newFrame left aside none).1, (r.newFrame right aside' none).1)], []⟩
        (runProgram left (l.newFrame left aside none).1
          (aside.holdFrame (l.newFrame left aside none).1) program (l.newFrame left aside none).2)
        (runProgram right (r.newFrame right aside' none).1
          (aside'.holdFrame (r.newFrame right aside' none).1) program
          (r.newFrame right aside' none).2)) := by
  have hsimilar : ∀ {aside aside' : Roots} {link : Link} {held : Held} {l r : Machine}
      {id id' : FrameId}, Machine.Similar aside aside' link held l r → (id, id') ∈ held.frames →
      Indistinguishable aside aside' held
        (runProgram left id (held.left.and aside) program l)
        (runProgram right id' (held.right.and aside') program r) := by
    intro aside aside' link held l r id id' h hframe
    have halike : (similarity aside aside' agrees).Alike held l r := ⟨link, h⟩
    exact indistinguishable_of_ends (Simulation.ends_runProgram program halike hframe)
  refine ⟨hsimilar, ?_, ?_⟩
  · intro roots l r id hleft hright frames _ console hid
    have hnobody : ∀ roots : Roots, roots.and ⟨[], []⟩ = roots := fun roots => by simp [Roots.and]
    have hsame : ∀ id, r.heap.frame? id = l.heap.frame? id := fun id => by
      rw [Heap.frame?, Heap.frame?, frames]
    have hstart : Machine.Similar ⟨[], []⟩ ⟨[], []⟩ (l.heap.common r.heap) roots.both l r := {
      left := by rwa [Roots.left_both, hnobody]
      right := by rwa [Roots.right_both, hnobody]
      heaps := hleft.similar hright hsame
      console := console.symm }
    have hends := hsimilar hstart (List.mem_map_of_mem hid)
    rwa [Roots.left_both, Roots.right_both, hnobody] at hends
  · intro aside aside' l r hleft hright console
    obtain ⟨link, hstart⟩ := Machine.similar_newFrame hleft hright console
    exact hsimilar hstart List.mem_cons_self

/-- Functions that keep the frames of their calls alive. -/
def keepers : Program :=
  (parse "let keep = fn(n) { if (n < 1) { [] } else { push(keep(n - 1), fn() { n }) } }; keep(3)").program

/-- A setup in which a collection is due before every frame that is made, or before none. -/
def Setup.collecting (always : Bool) : Setup :=
  ⟨.standard, FileTable.toFiles [], .sha1, 100, fun _ => always⟩

/-- A program that makes frames ends the same in an empty machine that never collects, and among
unrelated frames in a machine that always does. -/
theorem runProgram_keepers :
    (Setup.collecting false).Agrees (Setup.collecting true) ∧
    Heap.empty.WellFormed ⟨[], []⟩ ∧ Heap.tangle.WellFormed Heap.looseEnds ∧
    let l := (Machine.ofConsole (.ofInput [])).newFrame (.collecting false) ⟨[], []⟩ none
    let r := (⟨Heap.tangle, .ofInput [], []⟩ : Machine).newFrame (.collecting true)
      Heap.looseEnds none
    Indistinguishable ⟨[], []⟩ Heap.looseEnds ⟨[(l.1, r.1)], []⟩
      (runProgram (.collecting false) l.1 ⟨[l.1], []⟩ keepers l.2)
      (runProgram (.collecting true) r.1 (Heap.looseEnds.holdFrame r.1) keepers r.2) := by
  have hagrees : (Setup.collecting false).Agrees (Setup.collecting true) := ⟨rfl, rfl, rfl, rfl⟩
  obtain ⟨_, _, hfresh⟩ := runProgram_indistinguishable hagrees keepers
  refine ⟨hagrees, Heap.wellFormed_empty, Heap.wellFormed_tangle, ?_⟩
  exact @hfresh ⟨[], []⟩ Heap.looseEnds (Machine.ofConsole (.ofInput []))
    ⟨Heap.tangle, .ofInput [], []⟩ Heap.wellFormed_empty Heap.wellFormed_tangle rfl

end Scriptlet
