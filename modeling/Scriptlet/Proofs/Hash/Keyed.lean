import Scriptlet.Proofs.Effects.Histories
import Scriptlet.Proofs.Effects.Maintains
import Scriptlet.Proofs.Hash.Entries

set_option autoImplicit false

/-!
# Hashes stay in order

Component: the object model and the environment.  Specification: section 3 on hashes, keys and
bindings.

The entries of a hash are *indexed*: ordered, and each keyed by its name.  A value is *keyed* if
that is so of every hash in it, and a heap is if all that is bound in it is.  Hashes are made by
inserting entries whose names have been searched for their keys, so evaluation leaves a keyed heap
keyed and comes to keyed values only (`keeps_expression`, `keeps_runProgram`).

The digest is a parameter of all of it.  A setup brings one, and the invariant of its heaps is told
with that one; a hash whose names are no strings is indexed for every digest at once.

For values the invariant is about all parts at any depth, so that it holds of whatever is taken out
of an array or a hash (`Value.Keyed.of_part`).  For heaps it is about all bindings of all frames,
also of those that have been cleared.  None of the ways to change a heap makes a value, so each
keeps it.
-/

namespace Scriptlet

variable {digest : Digest}

/-! ## Values -/

/-- Whether entries are ordered, and each is keyed by its name. -/
structure Indexed (digest : Digest) (entries : List Entry) : Prop where
  ordered : Ordered entries
  fits : ∀ entry ∈ entries, entry.Fits digest

theorem Indexed.nil : Indexed digest [] := ⟨.nil, fun _ h => absurd h List.not_mem_nil⟩

/-- An entry that is keyed by its name may be inserted. -/
theorem Indexed.insertEntry {entries : List Entry} {new : Entry} (h : Indexed digest entries)
    (fits : new.Fits digest) : Indexed digest (insertEntry new entries) where
  ordered := h.ordered.insertEntry new
  fits := fun _ hentry => (mem_insertEntry hentry).elim (fun heq => heq ▸ fits) (h.fits _)

namespace Value

/-- Whether every hash in a value is indexed. -/
def Keyed (digest : Digest) (value : Value) : Prop :=
  ∀ object entries, value.Part (.hash object entries) → Indexed digest entries

/-- A value is keyed if its contents are, and if it is indexed in case it is a hash. -/
theorem keyed_iff {value : Value} : value.Keyed digest ↔
    (∀ object entries, value = .hash object entries → Indexed digest entries) ∧
      ∀ content ∈ value.contents, content.Keyed digest := by
  constructor
  · intro h
    exact ⟨fun object entries heq => h object entries (heq ▸ .self _),
      fun content hmem object entries hpart => h object entries (.content hmem hpart)⟩
  · rintro ⟨hself, hcontents⟩ object entries hpart
    generalize hhash : Value.hash object entries = part at hpart
    cases hpart with
    | self => exact hself object entries hhash.symm
    | content member inside => exact hcontents _ member object entries (hhash ▸ inside)

/-- Every part of a keyed value is keyed. -/
theorem Keyed.of_part {value part : Value} (h : value.Keyed digest) (hpart : value.Part part) :
    part.Keyed digest :=
  fun object entries inside => h object entries (hpart.trans inside)

/-- In particular its elements, or the names and values in it. -/
theorem Keyed.of_mem {value content : Value} (h : value.Keyed digest)
    (hmem : content ∈ value.contents) : content.Keyed digest :=
  h.of_part (.of_mem hmem)

/-- What is no hash and has no contents is keyed. -/
theorem keyed_of_contents_nil {value : Value} (empty : value.contents = [])
    (other : value.type ≠ .hash) : value.Keyed digest := by
  refine keyed_iff.mpr ⟨?_, fun content hmem => absurd (empty ▸ hmem) List.not_mem_nil⟩
  rintro object entries rfl
  exact absurd rfl other

@[simp] theorem keyed_null : Keyed digest .null := keyed_of_contents_nil rfl (by decide)

@[simp] theorem keyed_integer (n : Int64) : Keyed digest (.integer n) :=
  keyed_of_contents_nil rfl ValueType.noConfusion

@[simp] theorem keyed_boolean (b : Bool) : Keyed digest (.boolean b) :=
  keyed_of_contents_nil rfl ValueType.noConfusion

@[simp] theorem keyed_string (s : String) : Keyed digest (.string s) :=
  keyed_of_contents_nil rfl ValueType.noConfusion

@[simp] theorem keyed_function (object : ObjectId) (literal : FunctionLiteral) (frame : FrameId) :
    Keyed digest (.function object literal frame) :=
  keyed_of_contents_nil rfl ValueType.noConfusion

@[simp] theorem keyed_builtin (builtin : Builtin) : Keyed digest (.builtin builtin) :=
  keyed_of_contents_nil rfl ValueType.noConfusion

/-- An array is keyed if its elements are. -/
@[simp] theorem keyed_array {object : ObjectId} {elements : List Value} :
    Keyed digest (.array object elements) ↔ ∀ element ∈ elements, element.Keyed digest := by
  rw [keyed_iff]
  exact and_iff_right fun _ _ => Value.noConfusion

/-- A hash is, if it is indexed and its parts are keyed. -/
theorem keyed_hash {object : ObjectId} {entries : List Entry} :
    Keyed digest (.hash object entries) ↔
      Indexed digest entries ∧ ∀ part ∈ Entry.parts entries, part.Keyed digest := by
  rw [keyed_iff]
  refine and_congr_left fun _ => ⟨fun h => h object entries rfl, ?_⟩
  rintro h _ _ ⟨⟩
  exact h

end Value

/-- Whether entries are those of a keyed hash. -/
structure KeyedEntries (digest : Digest) (entries : List Entry) : Prop where
  indexed : Indexed digest entries
  parts : ∀ part ∈ Entry.parts entries, part.Keyed digest

/-- Whether an entry is keyed by its name, and its parts are keyed. -/
structure KeyedEntry (digest : Digest) (entry : Entry) : Prop where
  fits : entry.Fits digest
  name : entry.name.Keyed digest
  value : entry.value.Keyed digest

theorem KeyedEntries.nil : KeyedEntries digest [] := ⟨.nil, fun _ h => absurd h List.not_mem_nil⟩

/-- A keyed entry may be inserted. -/
theorem KeyedEntries.insertEntry {entries : List Entry} {new : Entry}
    (h : KeyedEntries digest entries) (hnew : KeyedEntry digest new) :
    KeyedEntries digest (insertEntry new entries) where
  indexed := h.indexed.insertEntry hnew.fits
  parts := fun part hpart => by
    obtain ⟨entry, hentry, hself⟩ := Value.mem_parts.mp hpart
    rcases mem_insertEntry hentry with rfl | hentry
    · rcases hself with rfl | rfl
      · exact hnew.name
      · exact hnew.value
    · exact h.parts part (Value.mem_parts.mpr ⟨entry, hentry, hself⟩)

/-! ## Heaps -/

namespace Heap

/-- Whether all that is bound is keyed. -/
def Keyed (digest : Digest) (heap : Heap) : Prop :=
  ∀ id frame, heap.frame? id = some frame → ∀ binding ∈ frame.bindings, binding.2.Keyed digest

variable {heap : Heap}

/-- Where nothing is bound, all that is bound is keyed. -/
theorem keyed_empty : empty.Keyed digest := by
  intro id frame here
  simp [frame?, empty] at here

/-- A keyed value may be bound. -/
theorem Keyed.bind (h : heap.Keyed digest) (id : FrameId) (name : String) {value : Value}
    (hvalue : value.Keyed digest) : (heap.bind id name value).Keyed digest := by
  intro other frame here binding hbinding
  rcases mem_bindings_bind here hbinding with rfl | ⟨old, hold, hmem⟩
  · exact hvalue
  · exact h other old hold binding hmem

/-- So may keyed arguments. -/
theorem Keyed.bindAll (h : heap.Keyed digest) (id : FrameId) (names : List Name)
    {values : List Value} (hvalues : ∀ value ∈ values, value.Keyed digest) :
    (heap.bindAll id names values).Keyed digest := by
  induction names generalizing heap values with
  | nil => exact h
  | cons name names ih =>
    cases values with
    | nil => exact h
    | cons value values =>
      obtain ⟨hvalue, hrest⟩ := List.forall_mem_cons.mp hvalues
      exact ih (h.bind id name.text hvalue) hrest

/-- A new frame is empty. -/
theorem Keyed.newFrame (h : heap.Keyed digest) (outer : Option FrameId) :
    (heap.newFrame outer).2.Keyed digest := by
  intro id frame here
  rcases frame?_newFrame_cases here with ⟨_, rfl⟩ | hold
  · exact fun _ hmem => absurd hmem List.not_mem_nil
  · exact h id frame hold

theorem Keyed.drop (h : heap.Keyed digest) (ids : List FrameId) : (heap.drop ids).Keyed digest := by
  intro id frame here
  rw [frame?_drop] at here
  split at here
  · cases here
  · exact h id frame here

/-- A frame that is cleared binds nothing. -/
theorem Keyed.clear (h : heap.Keyed digest) (ids : List FrameId) :
    (heap.clear ids).Keyed digest := by
  intro id frame here
  rw [frame?_clear] at here
  split at here
  · obtain ⟨_, _, rfl⟩ := Option.map_eq_some_iff.mp here
    exact fun _ hmem => absurd hmem List.not_mem_nil
  · exact h id frame here

theorem Keyed.release (h : heap.Keyed digest) (roots : Roots) : (heap.release roots).Keyed digest :=
  h.drop _

/-- So a collection keeps what it does not clear. -/
theorem Keyed.collect (h : heap.Keyed digest) (roots : Roots) :
    (heap.collect roots).2.Keyed digest := by
  have hcounted : (heap.release roots).prune.Keyed digest := h.release roots
  exact (hcounted.clear _).release roots

/-- And so does making a frame, with or without a collection. -/
theorem Keyed.allocate (h : heap.Keyed digest) (due : Heap → Bool) (roots : Roots)
    (outer : Option FrameId) : (heap.allocate due roots outer).2.Keyed digest := by
  simp only [Heap.allocate]
  split
  · exact (h.collect _).newFrame outer
  · exact h.newFrame outer

/-- What is looked up is keyed. -/
theorem Keyed.lookup (h : heap.Keyed digest) {id : FrameId} {name : String} {value : Value}
    (hvalue : heap.lookup id name = some value) : value.Keyed digest := by
  obtain ⟨owner, frame, hframe, hmem⟩ := exists_binding_of_lookupWithin hvalue
  exact h owner frame hframe _ hmem

end Heap

/-! ## Evaluations -/

/-- Whether the heap of a machine is keyed. -/
def Machine.Keyed (digest : Digest) (machine : Machine) : Prop := machine.heap.Keyed digest

/-- Whether what a `return` takes with it is keyed. -/
def Halt.Keyed (digest : Digest) : Halt → Prop
  | .returned value => value.Keyed digest
  | .fault _ | .exhausted => True

/-- Whether an evaluation keeps a heap keyed, and comes to nothing but results of a kind. -/
abbrev Eval.Keeps (digest : Digest) {α : Type} (kind : Digest → α → Prop) (run : Eval α) : Prop :=
  Maintains (Machine.Keyed digest) (Halt.Keyed digest) (kind digest) run

/-- Native functions make no hashes. -/
theorem encloses_keyed :
    Encloses (Machine.Keyed digest) (Halt.Keyed digest) (Value.Keyed digest) where
  frames := fun h hframes id frame here => h id frame (by rwa [Heap.frame?, hframes] at here)
  fault := fun _ => trivial
  plain := Value.keyed_of_contents_nil
  array := Value.keyed_array

/-- A new hash is made of entries in order. -/
theorem keeps_newHash {entries : List Entry} (h : KeyedEntries digest entries) :
    (Eval.newHash entries).Keeps digest Value.Keyed :=
  fun _ hmachine => ⟨hmachine, Value.keyed_hash.mpr ⟨h.indexed, h.parts⟩⟩

theorem keeps_newFunction (literal : FunctionLiteral) (frame : FrameId) :
    (Eval.newFunction literal frame).Keeps digest Value.Keyed :=
  fun _ hmachine => ⟨hmachine, Value.keyed_function _ _ _⟩

/-! ### Operators -/

/-- An operator makes integers, truth values and strings only. -/
theorem keyed_applyPrefix {operator : PrefixOp} {right value : Value}
    (h : applyPrefix operator right = .ok value) : value.Keyed digest := by
  unfold applyPrefix at h
  split at h <;> cases h <;> simp

/-- And so does an infix one. -/
theorem keyed_applyInfix {operator : InfixOp} {left right value : Value}
    (h : applyInfix operator left right = .ok value) : value.Keyed digest := by
  unfold applyInfix at h
  split at h
  · cases operator with
    | divide =>
      simp only [applyInteger] at h
      split at h <;> cases h
      exact Value.keyed_integer _
    | add | subtract | multiply | less | greater | equal | notEqual => cases h; simp
  · cases operator <;> cases h
    exact Value.keyed_string _
  · unfold compareValues at h
    split at h
    · cases h
    · cases operator <;> cases h <;> exact Value.keyed_boolean _

/-- An element of an array, or null. -/
theorem keyed_elementAt {object : ObjectId} {elements : List Value}
    (h : (Value.array object elements).Keyed digest) (n : Int64) :
    (elementAt elements n).Keyed digest := by
  unfold elementAt
  split
  · exact Value.keyed_null
  · cases helement : elements[n.toInt.toNat]? with
    | none => exact Value.keyed_null
    | some element => exact h.of_mem (List.mem_of_getElem? helement)

/-- An element of an array, a value in a hash, or null. -/
theorem keyed_applyIndex {left index value : Value} (hleft : left.Keyed digest)
    (h : applyIndex digest left index = .ok value) : value.Keyed digest := by
  unfold applyIndex at h
  split at h
  · cases h
    exact keyed_elementAt hleft _
  · split at h
    next key _ =>
      cases h
      cases hfind : findEntry key _ with
      | none => exact Value.keyed_null
      | some entry =>
        have hmem := List.mem_of_find?_eq_some hfind
        exact hleft.of_mem (Value.mem_parts.mpr ⟨entry, hmem, .inr rfl⟩)
    · cases h
  · cases h

end Scriptlet
