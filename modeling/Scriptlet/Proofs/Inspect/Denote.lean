import Scriptlet.Proofs.Hash.Keyed
import Scriptlet.Proofs.Session.Comparisons

set_option autoImplicit false

/-!
# Trees that stand for values

Component: the object model and the evaluator.  Specification: section 4.3 on literals of integers,
truth values, arrays and hashes, and on the minus; section 10.5 on the order of the entries of a
hash.

A tree *denotes* a value if it is worth an equal one, wherever it is evaluated, and evaluating it
does nothing else but to issue identities for the arrays and hashes in it.

The entries of a hash are written in the order of their keys.  So each entry is inserted behind all
before it, and the hash comes out with the entries in the same places.

Identities are issued in the order of evaluation, so that the result has other identities than the
value that was written.  That is why the result is an equal value and not the same one: equality of
arrays and hashes goes into their contents.

It is stated for every frame, every machine and every way to make calls, and that matters: a plain
value has no names and no calls in it, so nothing around it can change what its tree is worth.
-/

namespace Scriptlet

/-- The machine with another identity to be issued next. -/
def Machine.issuing (next : Nat) (machine : Machine) : Machine :=
  { machine with heap := { machine.heap with nextObject := next } }

/-- Whether a tree stands for a value. -/
def Denotes (tree : Expression) (value : Value) : Prop :=
  ∀ (setup : Setup) (invoke : Invoke) (frame : FrameId) (roots : Roots) (machine : Machine),
    ∃ result next, evalExpression setup invoke frame roots tree machine =
      .ok result (machine.issuing next) ∧ result.shape = value.shape

/-- Whether the trees of a pair stand for the name and the value of an entry. -/
def Pair.Denotes (pair : Pair) (entry : Entry) : Prop :=
  Scriptlet.Denotes pair.key entry.name ∧ Scriptlet.Denotes pair.value entry.value

/-- A literal of an integer. -/
theorem denotes_integer (token : Token) (n : Int64) : Denotes (.integer token n) (.integer n) :=
  fun _ _ _ _ machine => ⟨.integer n, machine.heap.nextObject, by rw [evalExpression]; rfl, rfl⟩

/-- A truth value. -/
theorem denotes_boolean (token : Token) (b : Bool) : Denotes (.boolean token b) (.boolean b) :=
  fun _ _ _ _ machine => ⟨.boolean b, machine.heap.nextObject, by rw [evalExpression]; rfl, rfl⟩

/-- A minus in front of digits. -/
theorem denotes_negative (token digits : Token) (n : Int64) :
    Denotes (.unary token .negate (.integer digits n)) (.integer (-n)) := by
  intro setup invoke frame roots machine
  have hdigits : evalExpression setup invoke frame roots (.integer digits n) machine =
      .ok (.integer n) machine := by
    rw [evalExpression]
    rfl
  refine ⟨.integer (-n), machine.heap.nextObject, ?_, rfl⟩
  rw [evalExpression, Eval.bind_of_ok hdigits]
  rfl

section

variable {setup : Setup} {invoke : Invoke} {frame : FrameId}

/-! ## Arrays -/

/-- Elements are evaluated from left to right, each issuing what it needs. -/
theorem evalExpressions_of_denotes {trees : List Expression} {values : List Value}
    (h : List.Forall₂ Denotes trees values) (roots : Roots) (machine : Machine) :
    ∃ results next, evalExpressions setup invoke frame roots trees machine =
      .ok results (machine.issuing next) ∧ shapes results = shapes values := by
  induction h generalizing roots machine with
  | nil => exact ⟨[], machine.heap.nextObject, by rw [evalExpressions]; rfl, rfl⟩
  | cons hfirst _ ih =>
    obtain ⟨result, middle, heval, hshape⟩ := hfirst setup invoke frame roots machine
    obtain ⟨results, next, hrest, hshapes⟩ := ih (roots.hold result) (machine.issuing middle)
    refine ⟨result :: results, next, ?_, ?_⟩
    · rw [evalExpressions, Eval.bind_of_ok heval, Eval.bind_of_ok hrest]
      rfl
    · rw [shapes, shapes, hshape, hshapes]

/-- An array issues one identity more, for itself. -/
theorem denotes_array (token : Token) (id : ObjectId) {trees : List Expression}
    {values : List Value} (h : List.Forall₂ Denotes trees values) :
    Denotes (.array token trees) (.array id values) := by
  intro setup invoke frame roots machine
  obtain ⟨results, next, heval, hshapes⟩ := evalExpressions_of_denotes h roots machine
  refine ⟨.array ⟨next⟩ results, next + 1, ?_, ?_⟩
  · rw [evalExpression, Eval.bind_of_ok heval]
    rfl
  · rw [Value.shape, Value.shape, hshapes]

/-! ## Hashes -/

/-- An entry whose key is behind all others is inserted at the end. -/
theorem insertEntry_of_behind {new : Entry} {entries : List Entry}
    (h : ∀ entry ∈ entries, entry.key.before new.key = true) :
    insertEntry new entries = entries ++ [new] := by
  induction entries with
  | nil => rfl
  | cons entry rest ih =>
    have hbefore := h entry List.mem_cons_self
    have hkey : entry.key ≠ new.key := fun heq =>
      HashKey.before_irrefl new.key (heq ▸ hbefore)
    have hbehind : ¬ new.key.before entry.key = true := fun hother =>
      HashKey.before_irrefl _ (HashKey.before_trans hbefore hother)
    rw [insertEntry, if_neg hkey, if_neg hbehind,
      ih fun other hmem => h other (List.mem_cons_of_mem _ hmem), List.cons_append]

/-- The shapes of entries are taken one by one. -/
theorem shapesOfEntries_append (entries others : List Entry) :
    shapesOfEntries (entries ++ others) = shapesOfEntries entries ++ shapesOfEntries others := by
  induction entries with
  | nil => rfl
  | cons entry rest ih =>
    rw [List.cons_append, shapesOfEntries, ih, shapesOfEntries, List.cons_append]

/-- A pair makes the entry that it stands for, with its key. -/
theorem Pair.Denotes.evalPair {pair : Pair} {entry : Entry} (h : pair.Denotes entry)
    (fits : entry.Fits setup.digest) (roots : Roots) (machine : Machine) :
    ∃ result next, evalPair setup invoke frame roots pair machine =
      .ok result (machine.issuing next) ∧ result.shape = entry.shape ∧ result.key = entry.key := by
  obtain ⟨hname, hvalue⟩ := h
  obtain ⟨nameTree, valueTree⟩ := pair
  obtain ⟨key, written, content⟩ := entry
  obtain ⟨name, middle, hevalName, hnameShape⟩ := hname setup invoke frame roots machine
  obtain ⟨value, next, hevalValue, hvalueShape⟩ :=
    hvalue setup invoke frame (roots.hold name) (machine.issuing middle)
  have hkey : name.hashKey setup.digest = .ok key := by
    rw [← Value.hashKey_shape, hnameShape, Value.hashKey_shape]
    exact fits
  refine ⟨⟨key, name, value⟩, next, ?_, ?_, rfl⟩
  · rw [Scriptlet.evalPair, Eval.bind_of_ok hevalName, Eval.bind_of_ok hevalValue, hkey]
    rfl
  · rw [Entry.shape, Entry.shape, hnameShape, hvalueShape]

/-- Pairs that are written in order are inserted one behind the other. -/
theorem evalPairs_of_denotes {pairs : List Pair} {entries : List Entry}
    (h : List.Forall₂ Pair.Denotes pairs entries) (indexed : Indexed setup.digest entries)
    {done : List Entry}
    (behind : ∀ first ∈ done, ∀ entry ∈ entries, first.key.before entry.key = true)
    (roots : Roots) (machine : Machine) :
    ∃ results next, evalPairs setup invoke frame roots done pairs machine =
        .ok results (machine.issuing next) ∧
      shapesOfEntries results = shapesOfEntries done ++ shapesOfEntries entries := by
  induction h generalizing done machine with
  | nil =>
    exact ⟨done, machine.heap.nextObject, by rw [evalPairs]; rfl, (List.append_nil _).symm⟩
  | @cons pair entry pairs entries hfirst _ ih =>
    obtain ⟨hbefore, hordered⟩ := List.pairwise_cons.mp indexed.ordered
    obtain ⟨result, middle, heval, hshape, hkey⟩ :=
      hfirst.evalPair (indexed.fits entry List.mem_cons_self) (roots.holdAll (Entry.parts done))
        machine
    have hinsert : insertEntry result done = done ++ [result] := by
      refine insertEntry_of_behind fun first hmem => ?_
      rw [hkey]
      exact behind first hmem entry List.mem_cons_self
    have hbehind : ∀ first ∈ done ++ [result], ∀ other ∈ entries,
        first.key.before other.key = true := by
      intro first hmem other hother
      rcases List.mem_append.mp hmem with hmem | hmem
      · exact behind first hmem other (List.mem_cons_of_mem _ hother)
      · rw [List.mem_singleton.mp hmem, hkey]
        exact hbefore other hother
    obtain ⟨results, next, hrest, hshapes⟩ :=
      ih ⟨hordered, fun other hother => indexed.fits other (List.mem_cons_of_mem _ hother)⟩ hbehind
        (machine.issuing middle)
    refine ⟨results, next, ?_, ?_⟩
    · rw [evalPairs, Eval.bind_of_ok heval, hinsert, hrest]
      rfl
    · rw [hshapes, shapesOfEntries_append, shapesOfEntries, shapesOfEntries, shapesOfEntries,
        hshape, List.append_assoc]
      rfl

/-- A hash has the entries of its pairs, in the order of their keys, for every digest. -/
theorem denotes_hash (token : Token) (id : ObjectId) {pairs : List Pair} {entries : List Entry}
    (h : List.Forall₂ Pair.Denotes pairs entries) (indexed : ∀ digest, Indexed digest entries) :
    Denotes (.hash token pairs) (.hash id entries) := by
  intro setup invoke frame roots machine
  obtain ⟨results, next, heval, hshapes⟩ :=
    evalPairs_of_denotes h (indexed setup.digest) (fun _ hmem => absurd hmem List.not_mem_nil) roots
      machine
  refine ⟨.hash ⟨next⟩ results, next + 1, ?_, ?_⟩
  · rw [evalExpression, Eval.bind_of_ok heval]
    rfl
  · rw [Value.shape, Value.shape, hshapes]
    rfl

end

end Scriptlet
