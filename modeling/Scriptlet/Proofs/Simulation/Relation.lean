import Scriptlet.Interpreter
import Scriptlet.Proofs.Heap.WellFormed
import Scriptlet.Proofs.Simulation.Match

set_option autoImplicit false

/-!
# Two runs side by side

Component: two runs of the evaluator, compared.  Specification: section 5, by which evaluation is
deterministic and its order part of the contract, and section 8, by which running a program again
gives the same.

A `Simulation` relates the machines of two runs of one program while both hold the same things,
pair by pair (`Held`).  Besides, either run may have other things held *aside*, which the program
knows nothing of.  The fields of a simulation are what its relation has to survive: the few
operations by which an evaluation looks at its machine or changes it.  From these alone it follows
that two evaluations end alike (`Simulation.Agree`), whatever is evaluated.

A relation says nothing about what neither run holds, which is how garbage disappears from it.

What one run names, the other may name differently: frames and objects are numbered as they are
made, and the runs may have made different numbers of them.  Therefore a relation is given along a
`Link`, which grows as the runs go on, and what is stated of two evaluations is only that there is
some link at their end (`Simulation.Alike`).

There are three simulations of this library: heaps that look the same, heaps that look the same but
for some names, and one in which what one run holds alone is kept behind the rest.
-/

namespace Scriptlet

/-! ## What both runs hold -/

/-- The frames and values that two runs hold, those of the left run with those of the right. -/
structure Held where
  frames : List (FrameId × FrameId)
  values : List (Value × Value)

namespace Held

/-- What the left run holds. -/
def left (held : Held) : Roots := ⟨held.frames.map Prod.fst, held.values.map Prod.fst⟩

/-- What the right run holds. -/
def right (held : Held) : Roots := ⟨held.frames.map Prod.snd, held.values.map Prod.snd⟩

/-- With a value on either side. -/
def hold (value other : Value) (held : Held) : Held :=
  { held with values := (value, other) :: held.values }

/-- With a frame on either side. -/
def holdFrame (id other : FrameId) (held : Held) : Held :=
  { held with frames := (id, other) :: held.frames }

/-- With some values on either side, pair by pair. -/
def holdAll (values others : List Value) (held : Held) : Held :=
  { held with values := values.zip others ++ held.values }

/-- The left run holds the left halves of pairs. -/
theorem left_holdAll {values others : List Value} (h : values.length = others.length)
    (held : Held) : (held.holdAll values others).left = held.left.holdAll values := by
  simp [left, holdAll, Roots.holdAll, List.map_fst_zip (Nat.le_of_eq h)]

/-- The right run holds the right halves. -/
theorem right_holdAll {values others : List Value} (h : values.length = others.length)
    (held : Held) : (held.holdAll values others).right = held.right.holdAll others := by
  simp [right, holdAll, Roots.holdAll, List.map_snd_zip (Nat.le_of_eq h.symm)]

/-- Whether all that is held is held elsewhere, too. -/
structure Within (held others : Held) : Prop where
  frames : ∀ pair ∈ held.frames, pair ∈ others.frames
  values : ∀ pair ∈ held.values, pair ∈ others.values

/-- What is held is held. -/
theorem Within.refl (held : Held) : held.Within held := ⟨fun _ h => h, fun _ h => h⟩

/-- To hold less than what holds less is to hold less. -/
theorem Within.trans {held middle others : Held} (h : held.Within middle)
    (h' : middle.Within others) : held.Within others :=
  ⟨fun pair hpair => h'.frames pair (h.frames pair hpair),
    fun pair hpair => h'.values pair (h.values pair hpair)⟩

/-- What was held is held with a pair of values more. -/
theorem within_hold (held : Held) (value other : Value) : held.Within (held.hold value other) :=
  ⟨fun _ h => h, fun _ h => List.mem_cons_of_mem _ h⟩

/-- What was held is held with a pair of frames more. -/
theorem within_holdFrame (held : Held) (id other : FrameId) :
    held.Within (held.holdFrame id other) :=
  ⟨fun _ h => List.mem_cons_of_mem _ h, fun _ h => h⟩

/-- What was held is held with several pairs of values more. -/
theorem within_holdAll (held : Held) (values others : List Value) :
    held.Within (held.holdAll values others) :=
  ⟨fun _ h => h, fun _ h => List.mem_append.mpr (.inr h)⟩

/-- One pair more may be held on both sides. -/
theorem Within.hold {held others : Held} (h : held.Within others) (value other : Value) :
    (held.hold value other).Within (others.hold value other) := by
  refine ⟨h.frames, fun pair hpair => ?_⟩
  rcases List.mem_cons.mp hpair with rfl | hpair
  · exact List.mem_cons_self
  · exact List.mem_cons_of_mem _ (h.values pair hpair)

/-- The left run holds less if both do. -/
theorem Within.left {held others : Held} (h : held.Within others) :
    held.left.Within others.left := by
  constructor
  · intro id hid
    obtain ⟨pair, hpair, rfl⟩ := List.mem_map.mp hid
    exact List.mem_map_of_mem (h.frames pair hpair)
  · intro value hvalue
    obtain ⟨pair, hpair, rfl⟩ := List.mem_map.mp hvalue
    exact List.mem_map_of_mem (h.values pair hpair)

/-- The right run holds less if both do. -/
theorem Within.right {held others : Held} (h : held.Within others) :
    held.right.Within others.right := by
  constructor
  · intro id hid
    obtain ⟨pair, hpair, rfl⟩ := List.mem_map.mp hid
    exact List.mem_map_of_mem (h.frames pair hpair)
  · intro value hvalue
    obtain ⟨pair, hpair, rfl⟩ := List.mem_map.mp hvalue
    exact List.mem_map_of_mem (h.values pair hpair)

/-- Holding one more pair keeps within what holds it, too. -/
theorem Within.of_hold {held others : Held} {value other : Value} (h : held.Within others)
    (hmem : (value, other) ∈ others.values) : (held.hold value other).Within others := by
  refine ⟨h.frames, fun pair hpair => ?_⟩
  rcases List.mem_cons.mp hpair with rfl | hpair
  · exact hmem
  · exact h.values pair hpair

/-- Holding some more pairs keeps within what holds them, too. -/
theorem Within.of_holdAll {held others : Held} {values values' : List Value}
    (h : held.Within others) (hmem : ∀ pair ∈ values.zip values', pair ∈ others.values) :
    (held.holdAll values values').Within others := by
  refine ⟨h.frames, fun pair hpair => ?_⟩
  rcases List.mem_append.mp hpair with hpair | hpair
  · exact hmem pair hpair
  · exact h.values pair hpair

end Held

/-! ## Machines -/

/-- What is held by either of two owners. -/
def Roots.and (roots others : Roots) : Roots :=
  ⟨roots.frames ++ others.frames, roots.values ++ others.values⟩

/-- What one owner holds, two hold. -/
theorem Roots.within_and (roots others : Roots) : roots.Within (roots.and others) :=
  ⟨fun _ h => List.mem_append.mpr (.inl h), fun _ h => List.mem_append.mpr (.inl h)⟩

/-- The second owner may be the same. -/
theorem Roots.Within.and {roots others : Roots} (h : roots.Within others) (aside : Roots) :
    (roots.and aside).Within (others.and aside) := by
  constructor
  · intro id hid
    rcases List.mem_append.mp hid with hid | hid
    · exact List.mem_append.mpr (.inl (h.frames id hid))
    · exact List.mem_append.mpr (.inr hid)
  · intro value hvalue
    rcases List.mem_append.mp hvalue with hvalue | hvalue
    · exact List.mem_append.mpr (.inl (h.values value hvalue))
    · exact List.mem_append.mpr (.inr hvalue)

/-- Values may be held by the first of two owners. -/
theorem Roots.holdAll_and (roots others : Roots) (values : List Value) :
    (roots.and others).holdAll values = (roots.holdAll values).and others := by
  simp [Roots.and, Roots.holdAll]

/-- The machine with another heap. -/
def Machine.withHeap (heap : Heap) (machine : Machine) : Machine := { machine with heap := heap }

/-- A relation between the machines of two runs that every operation of an evaluation keeps. -/
structure Simulation (left right : Setup) (aside aside' : Roots) where
  /-- whether two machines are related by a link, given what both runs hold -/
  Related : Link → Held → Machine → Machine → Prop
  builtins_eq : left.builtins = right.builtins
  files_eq : left.files = right.files
  digest_eq : left.digest = right.digest
  callDepth_eq : left.callDepth = right.callDepth
  /-- held frames are linked -/
  frames : ∀ {link : Link} {held : Held} {l r : Machine}, Related link held l r →
    ∀ pair ∈ held.frames, link.frames pair.1 pair.2
  /-- held values match -/
  values : ∀ {link : Link} {held : Held} {l r : Machine}, Related link held l r →
    ∀ pair ∈ held.values, pair.1.Match link pair.2
  console_eq : ∀ {link : Link} {held : Held} {l r : Machine}, Related link held l r →
    l.console = r.console
  /-- less may be held -/
  weaken : ∀ {link : Link} {held others : Held} {l r : Machine}, Related link others l r →
    held.Within others → Related link held l r
  /-- matching values that are made of held values may be held -/
  hold : ∀ {link : Link} {held : Held} {l r : Machine} {value other : Value},
    Related link held l r → value.Match link other →
    value.MadeOf held.left.values → other.MadeOf held.right.values →
    Related link (held.hold value other) l r
  /-- frames that held values lead to may be held -/
  holdFrame : ∀ {link : Link} {held : Held} {l r : Machine} {value other : Value}
    {id id' : FrameId}, Related link held l r → (value, other) ∈ held.values →
    value.Leads id → other.Leads id' → link.frames id id' →
    Related link (held.holdFrame id id') l r
  /-- a name that is no native function is bound to matching values, which may be held -/
  lookup : ∀ {link : Link} {held : Held} {l r : Machine} {id id' : FrameId} (name : String),
    left.builtins.find? name = none → Related link held l r → (id, id') ∈ held.frames →
    Option.Rel (fun value other => Related link (held.hold value other) l r)
      (l.heap.lookup id name) (r.heap.lookup id' name)
  /-- new objects that match once their identities are linked may be held -/
  create : ∀ {link : Link} {held : Held} {l r : Machine} {value other : Value},
    Related link held l r → l.heap.Makes held.left value → r.heap.Makes held.right other →
    (∀ next : Link, link.Within next → next.objects ⟨l.heap.nextObject⟩ ⟨r.heap.nextObject⟩ →
      value.Match next other) →
    ∃ next, Related next (held.hold value other) (l.withHeap l.heap.newObject.2)
      (r.withHeap r.heap.newObject.2)
  /-- held values may be bound in held frames -/
  bind : ∀ {link : Link} {held : Held} {l r : Machine} {value other : Value} {id id' : FrameId}
    (name : String), Related link (held.hold value other) l r → (id, id') ∈ held.frames →
    Related link held (l.withHeap (l.heap.bind id name value))
      (r.withHeap (r.heap.bind id' name other))
  /-- frames may be made inside held frames -/
  newFrame : ∀ {link : Link} {held : Held} {l r : Machine} {id id' : FrameId},
    Related link held l r → (id, id') ∈ held.frames →
    ∃ next, Related next
      (held.holdFrame (l.heap.newFrame (some id)).1 (r.heap.newFrame (some id')).1)
      (l.withHeap (l.heap.newFrame (some id)).2) (r.withHeap (r.heap.newFrame (some id')).2)
  /-- the left run may collect without the right one -/
  collectLeft : ∀ {link : Link} {held : Held} {l r : Machine}, Related link held l r →
    Related link held (l.collect (held.left.and aside)).2 r
  /-- the right run may collect without the left one -/
  collectRight : ∀ {link : Link} {held : Held} {l r : Machine}, Related link held l r →
    Related link held l (r.collect (held.right.and aside')).2
  /-- both consoles may be used alike -/
  console : ∀ {link : Link} {held : Held} {l r : Machine} (console : Console)
    (asked asked' : List String), Related link held l r →
    Related link held ⟨l.heap, console, asked⟩ ⟨r.heap, console, asked'⟩

namespace Simulation

variable {left right : Setup} {aside aside' : Roots} (sim : Simulation left right aside aside')

/-! ## Ending alike -/

/-- Whether the machines are related by some link. -/
def Alike (held : Held) (l r : Machine) : Prop := ∃ link, sim.Related link held l r

/-- Whether two values may be held. -/
def Valued (held : Held) (value other : Value) (l r : Machine) : Prop :=
  sim.Alike (held.hold value other) l r

/-- Whether some values may be held, pair by pair. -/
def Listed (held : Held) (values others : List Value) (l r : Machine) : Prop :=
  values.length = others.length ∧ sim.Alike (held.holdAll values others) l r

/-- Whether the parts of some entries with the same keys may be held. -/
def Entered (held : Held) (entries others : List Entry) (l r : Machine) : Prop :=
  entries.map Entry.key = others.map Entry.key ∧
    sim.Alike (held.holdAll (Entry.parts entries) (Entry.parts others)) l r

/-- Whether two optional values are both there, and may be held, or both missing. -/
inductive Optional (held : Held) : Option Value → Option Value → Machine → Machine → Prop where
  | none {l r : Machine} (h : sim.Alike held l r) : Optional held none none l r
  | some {value other : Value} {l r : Machine} (h : sim.Valued held value other l r) :
      Optional held (some value) (some other) l r

/-- Whether two evaluations end alike: both with related results, or cut short alike. -/
inductive Agree (held : Held) {α : Type} (post : α → α → Machine → Machine → Prop) :
    EStateM.Result Halt Machine α → EStateM.Result Halt Machine α → Prop where
  | ok {x y : α} {l r : Machine} (h : post x y l r) : Agree held post (.ok x l) (.ok y r)
  | returned {value other : Value} {l r : Machine} (h : sim.Valued held value other l r) :
      Agree held post (.error (.returned value) l) (.error (.returned other) r)
  | fault (fault : Fault) {l r : Machine} (h : sim.Alike held l r) :
      Agree held post (.error (.fault fault) l) (.error (.fault fault) r)
  | exhausted {l r : Machine} (h : sim.Alike held l r) :
      Agree held post (.error .exhausted l) (.error .exhausted r)

variable {sim}

/-- Machines that are related while more is held are related. -/
theorem Alike.weaken {held others : Held} {l r : Machine} (h : sim.Alike others l r)
    (within : held.Within others) : sim.Alike held l r := by
  obtain ⟨link, h⟩ := h
  exact ⟨link, sim.weaken h within⟩

/-- So are machines with values that may be held. -/
theorem Valued.weaken {held others : Held} {value other : Value} {l r : Machine}
    (h : sim.Valued others value other l r) (within : held.Within others) :
    sim.Valued held value other l r :=
  Alike.weaken h (within.hold _ _)

/-- So are machines with values that may be held, if there are any. -/
theorem Optional.weaken {held others : Held} {value other : Option Value} {l r : Machine}
    (h : sim.Optional others value other l r) (within : held.Within others) :
    sim.Optional held value other l r := by
  cases h with
  | none h => exact .none (h.weaken within)
  | some h => exact .some (h.weaken within)

/-- A missing value counts as null. -/
theorem Optional.getD {held : Held} {value other : Option Value} {l r : Machine}
    (h : sim.Optional held value other l r) :
    sim.Valued held (value.getD .null) (other.getD .null) l r := by
  cases h with
  | none h =>
    obtain ⟨link, h⟩ := h
    exact ⟨link, sim.hold h .null (.of_object?_none rfl) (.of_object?_none rfl)⟩
  | some h => exact h

/-- And so do evaluations agree. -/
theorem Agree.weaken {held others : Held} {α : Type} {post post' : α → α → Machine → Machine → Prop}
    {x y : EStateM.Result Halt Machine α} (h : sim.Agree others post x y)
    (within : held.Within others) (hpost : ∀ x y l r, post x y l r → post' x y l r) :
    sim.Agree held post' x y := by
  cases h with
  | ok h => exact .ok (hpost _ _ _ _ h)
  | returned h => exact .returned (h.weaken within)
  | fault fault h => exact .fault fault (h.weaken within)
  | exhausted h => exact .exhausted (h.weaken within)

/-- Evaluations that agree go on to agree if what follows them does. -/
theorem Agree.bind {held others : Held} {α β : Type} {post : α → α → Machine → Machine → Prop}
    {post' : β → β → Machine → Machine → Prop} {first first' : Eval α} {next next' : α → Eval β}
    {l r : Machine} (h : sim.Agree others post (first l) (first' r)) (within : held.Within others)
    (hnext : ∀ x y l r, post x y l r → sim.Agree held post' (next x l) (next' y r)) :
    sim.Agree held post' ((first >>= next) l) ((first' >>= next') r) := by
  change sim.Agree held post' (EStateM.bind first next l) (EStateM.bind first' next' r)
  unfold EStateM.bind
  generalize first l = result, first' r = result' at h
  cases h with
  | ok h => exact hnext _ _ _ _ h
  | returned h => exact .returned (h.weaken within)
  | fault fault h => exact .fault fault (h.weaken within)
  | exhausted h => exact .exhausted (h.weaken within)

/-! ## Values that may be held -/

/-- What is no object may be held in any case. -/
theorem Valued.of_scalar {held : Held} {l r : Machine} {value : Value} (h : sim.Alike held l r)
    (hscalar : value.object? = none) : sim.Valued held value value l r := by
  obtain ⟨link, h⟩ := h
  exact ⟨link, sim.hold h (.of_object?_none hscalar) (.of_object?_none hscalar)
    (.of_object?_none hscalar)⟩

/-- Held lists of values match, value by value. -/
theorem forall₂_of_related {held : Held} {link : Link} {l r : Machine} {values others : List Value}
    (hlength : values.length = others.length)
    (h : sim.Related link (held.holdAll values others) l r) :
    List.Forall₂ (Value.Match link) values others := by
  refine List.forall₂_iff_zip.mpr ⟨hlength, fun {a b} hmem => ?_⟩
  exact sim.values h (a, b) (List.mem_append.mpr (.inl hmem))

/-- Results that are the same fault, or the same value that is no object. -/
theorem agree_ofExcept {held : Held} {l r : Machine} (h : sim.Alike held l r)
    {result : Except Fault Value} (hscalar : ∀ value, result = .ok value → value.object? = none) :
    sim.Agree held (sim.Valued held) (Eval.ofExcept result l) (Eval.ofExcept result r) := by
  cases result with
  | error fault => exact .fault fault h
  | ok value => exact .ok (.of_scalar h (hscalar value rfl))

/-! ## New objects -/

/-- Both runs make an array of what they hold. -/
theorem agree_newArray {held : Held} {l r : Machine} {elements others : List Value}
    (h : sim.Listed held elements others l r) :
    sim.Agree held (sim.Valued held) (Eval.newArray elements l) (Eval.newArray others r) := by
  obtain ⟨hlength, link, h⟩ := h
  have hmatch := forall₂_of_related hlength h
  have new : l.heap.Makes (held.holdAll elements others).left
      (.array ⟨l.heap.nextObject⟩ elements) := by
    rw [Held.left_holdAll hlength held]
    exact ⟨rfl, fun _ hmem => List.mem_append.mpr (.inl hmem), fun _ hid => by cases hid⟩
  have new' : r.heap.Makes (held.holdAll elements others).right
      (.array ⟨r.heap.nextObject⟩ others) := by
    rw [Held.right_holdAll hlength held]
    exact ⟨rfl, fun _ hmem => List.mem_append.mpr (.inl hmem), fun _ hid => by cases hid⟩
  have hcreated := sim.create h new new' fun next within hsame => .array hsame
    (hmatch.imp fun _ _ hcontent => Value.Match.mono within _ hcontent)
  exact .ok (Valued.weaken hcreated (held.within_holdAll _ _))

/-- Entries with the same keys have as many parts. -/
theorem length_parts {entries others : List Entry}
    (h : entries.map Entry.key = others.map Entry.key) :
    (Entry.parts entries).length = (Entry.parts others).length := by
  induction entries generalizing others with
  | nil =>
    cases others with
    | nil => rfl
    | cons => cases h
  | cons first rest ih =>
    cases others with
    | nil => cases h
    | cons first' rest' => exact congrArg (· + 2) (ih (List.cons.inj h).2)

/-- Entries with the same keys and matching parts match. -/
theorem matchEntries {link : Link} {entries others : List Entry}
    (hkeys : entries.map Entry.key = others.map Entry.key)
    (h : List.Forall₂ (Value.Match link) (Entry.parts entries) (Entry.parts others)) :
    List.Forall₂ (Entry.Match link) entries others := by
  induction entries generalizing others with
  | nil =>
    cases others with
    | nil => exact .nil
    | cons => cases hkeys
  | cons first rest ih =>
    cases others with
    | nil => cases hkeys
    | cons first' rest' =>
      obtain ⟨hkey, hrest⟩ := List.cons.inj hkeys
      cases first with
      | mk key name value =>
        cases first' with
        | mk key' name' value' =>
          cases hkey
          cases h with
          | cons names h =>
            cases h with
            | cons values h => exact .cons (.mk key names values) (ih hrest h)

/-- Both make a hash of entries that may be held. -/
theorem agree_newHash {held : Held} {l r : Machine} {entries others : List Entry}
    (h : sim.Entered held entries others l r) :
    sim.Agree held (sim.Valued held) (Eval.newHash entries l) (Eval.newHash others r) := by
  obtain ⟨hkeys, link, h⟩ := h
  have hlength := length_parts hkeys
  have hmatch := matchEntries hkeys (forall₂_of_related hlength h)
  have new : l.heap.Makes (held.holdAll (Entry.parts entries) (Entry.parts others)).left
      (.hash ⟨l.heap.nextObject⟩ entries) := by
    rw [Held.left_holdAll hlength held]
    exact ⟨rfl, fun _ hmem => List.mem_append.mpr (.inl hmem), fun _ hid => by cases hid⟩
  have new' : r.heap.Makes (held.holdAll (Entry.parts entries) (Entry.parts others)).right
      (.hash ⟨r.heap.nextObject⟩ others) := by
    rw [Held.right_holdAll hlength held]
    exact ⟨rfl, fun _ hmem => List.mem_append.mpr (.inl hmem), fun _ hid => by cases hid⟩
  have hcreated := sim.create h new new' fun next within hsame => .hash hsame
    (hmatch.imp fun _ _ hentry => by
      cases hentry with
      | mk key names values =>
        exact .mk key (Value.Match.mono within _ names) (Value.Match.mono within _ values))
  exact .ok (Valued.weaken hcreated (held.within_holdAll _ _))

/-- Both make a function in linked frames. -/
theorem agree_newFunction {held : Held} {l r : Machine} {id id' : FrameId}
    (h : sim.Alike held l r) (hframe : (id, id') ∈ held.frames) (literal : FunctionLiteral) :
    sim.Agree held (sim.Valued held) (Eval.newFunction literal id l)
      (Eval.newFunction literal id' r) := by
  obtain ⟨link, h⟩ := h
  have hlink := sim.frames h (id, id') hframe
  have new : l.heap.Makes held.left (.function ⟨l.heap.nextObject⟩ literal id) :=
    ⟨rfl, fun _ hmem => absurd hmem List.not_mem_nil, fun _ hid => by
      cases hid
      exact List.mem_map_of_mem hframe⟩
  have new' : r.heap.Makes held.right (.function ⟨r.heap.nextObject⟩ literal id') :=
    ⟨rfl, fun _ hmem => absurd hmem List.not_mem_nil, fun _ hid => by
      cases hid
      exact List.mem_map_of_mem hframe⟩
  exact .ok (sim.create h new new' fun next within hsame =>
    .function literal hsame (within.frames hlink))

end Simulation

end Scriptlet
