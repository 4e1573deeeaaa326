import Scriptlet.Proofs.Control.Contexts
import Scriptlet.Proofs.Hash.Sessions
import Scriptlet.Proofs.Session.Identity

set_option autoImplicit false

/-!
# Hash literals are finite maps

Component: the evaluator and the object model.  Specification: section 4.3 on hash literals, by
which keys and values are evaluated pair by pair and the first error ends it, and on indexing by a
key; section 3 on keys; section 10.5 on how a hash is shown; section 10.3 does not say which of two
pairs with one key stays, and here it is the last.

A hash that is written out has one entry for each key of its pairs, and that is the one of the last
pair with the key.  What it is searched for by is found, and it is shown in the order of its keys.
The first pair that cannot be searched for ends it.

`Worth` separates what the pairs are worth from what is made of them.  It goes along the pairs with
the entries so far, since those are held while the next pair is evaluated, and lists the entries in
the order of the pairs; `insertAll` then says what is in the hash.  So the statement about the map
(`LastWins`) is one about lists.
-/

namespace Scriptlet

/-! ## Pairs and what they are worth -/

section

variable (setup : Setup) (invoke : Invoke) (frame : FrameId) (roots : Roots)

/-- Whether pairs are evaluated normally, each to a name that has a key: from the entries so far and
a machine, with the entries that the pairs are worth, in their order, and a machine. -/
inductive Worth : List Entry → List Pair → Machine → List Entry → Machine → Prop where
  | nil {entries : List Entry} {machine : Machine} : Worth entries [] machine [] machine
  | cons {entries news : List Entry} {pair : Pair} {rest : List Pair}
      {machine middle next last : Machine} {name value : Value} {key : HashKey}
      (hname : evalExpression setup invoke frame (roots.holdAll (Entry.parts entries)) pair.key
        machine = .ok name middle)
      (hvalue : evalExpression setup invoke frame ((roots.holdAll (Entry.parts entries)).hold name)
        pair.value middle = .ok value next)
      (hkey : name.hashKey setup.digest = .ok key)
      (more : Worth (insertEntry ⟨key, name, value⟩ entries) rest next news last) :
      Worth entries (pair :: rest) machine (⟨key, name, value⟩ :: news) last

end

section

variable {setup : Setup} {invoke : Invoke} {frame : FrameId} {roots : Roots}
  {machine middle next last : Machine} {entries news : List Entry} {pairs : List Pair}

/-- A pair is its name and then its value. -/
theorem evalPair_of_ok {pair : Pair} {name value : Value}
    (hname : evalExpression setup invoke frame roots pair.key machine = .ok name middle)
    (hvalue : evalExpression setup invoke frame (roots.hold name) pair.value middle =
      .ok value next) :
    evalPair setup invoke frame roots pair machine =
      match name.hashKey setup.digest with
      | .ok key => .ok ⟨key, name, value⟩ next
      | .error fault => .error (.fault fault) next := by
  obtain ⟨key, content⟩ := pair
  rw [evalPair, Eval.bind_of_ok hname, Eval.bind_of_ok hvalue]
  cases name.hashKey setup.digest <;> rfl

/-- Pairs put in what they are worth, one after the other. -/
theorem Worth.evalPairs (h : Worth setup invoke frame roots entries pairs machine news last) :
    evalPairs setup invoke frame roots entries pairs machine =
      .ok (insertAll entries news) last := by
  induction h with
  | nil =>
    rw [Scriptlet.evalPairs]
    rfl
  | cons hname hvalue hkey _ ih =>
    have hpair := evalPair_of_ok hname hvalue
    rw [hkey] at hpair
    rw [Scriptlet.evalPairs, Eval.bind_of_ok hpair, ih]
    rfl

/-- Pairs that are evaluated normally are worth something. -/
theorem exists_worth_of_evalPairs {result : List Entry}
    (h : evalPairs setup invoke frame roots entries pairs machine = .ok result last) :
    ∃ news, Worth setup invoke frame roots entries pairs machine news last := by
  induction pairs generalizing entries machine with
  | nil =>
    rw [evalPairs] at h
    cases h
    exact ⟨[], .nil⟩
  | cons pair rest ih =>
    rw [evalPairs] at h
    obtain ⟨entry, next, hpair, hrest⟩ := exists_of_bind_ok h
    obtain ⟨key, content⟩ := pair
    rw [evalPair] at hpair
    obtain ⟨name, middle, hname, hvalue⟩ := exists_of_bind_ok hpair
    obtain ⟨value, after, hvalue, hentry⟩ := exists_of_bind_ok hvalue
    obtain ⟨hashKey, final, hkey, hentry⟩ := exists_of_bind_ok hentry
    cases hentry
    cases hhash : name.hashKey setup.digest with
    | error fault =>
      rw [hhash] at hkey
      cases hkey
    | ok found =>
      rw [hhash] at hkey
      cases hkey
      obtain ⟨news, hmore⟩ := ih hrest
      exact ⟨_, .cons hname hvalue hhash hmore⟩

/-- A hash literal is worth a hash of what its pairs are worth. -/
theorem Worth.evalLiteral (h : Worth setup invoke frame roots [] pairs machine news last)
    (token : Token) :
    evalExpression setup invoke frame roots (.hash token pairs) machine =
      .ok (.hash ⟨last.heap.nextObject⟩ (insertAll [] news))
        { last with heap := last.heap.newObject.2 } := by
  rw [evalExpression, Eval.bind_of_ok h.evalPairs]
  rfl

/-- A pair whose name has no key ends the literal once its value has been evaluated. -/
theorem Worth.literal_fails {key value : Expression} {name content : Value}
    (h : Worth setup invoke frame roots [] pairs machine news last)
    (hname : evalExpression setup invoke frame
      (roots.holdAll (Entry.parts (insertAll [] news))) key last = .ok name middle)
    (hvalue : evalExpression setup invoke frame
      ((roots.holdAll (Entry.parts (insertAll [] news))).hold name) value middle =
        .ok content next) {fault : Fault}
    (hkey : name.hashKey setup.digest = .error fault) (token : Token) (after : List Pair) :
    evalExpression setup invoke frame roots (.hash token (pairs ++ ⟨key, value⟩ :: after))
      machine = .error (.fault fault) next := by
  have hpair := @evalPair_of_ok setup invoke frame _ last middle next ⟨key, value⟩ name content
    hname hvalue
  rw [hkey] at hpair
  rw [evalExpression]
  exact Eval.bind_of_error (evalPairs_append h.evalPairs hpair after)

end

/-! ## The map that comes of it -/

/-- Whether the entries of a hash are what a map has in which the last of some entries with a key
is found under it. -/
structure LastWins (digest : Digest) (news : List Entry) (object : ObjectId)
    (entries : List Entry) : Prop where
  /-- what there is, is the last with its key -/
  mem_iff : ∀ entry, entry ∈ entries ↔ LastOf entry news
  /-- and there is one under each key -/
  one : ∀ new ∈ news, ∃! entry, entry ∈ entries ∧ entry.key = new.key
  /-- which is found -/
  found : ∀ {index : Value} {key : HashKey}, index.hashKey digest = .ok key →
    ∀ entry ∈ entries, entry.key = key →
      applyIndex digest (.hash object entries) index = .ok entry.value
  missing : ∀ {index : Value} {key : HashKey}, index.hashKey digest = .ok key →
    (∀ entry ∈ entries, entry.key ≠ key) →
      applyIndex digest (.hash object entries) index = .ok .null
  ordered : Ordered entries
  /-- the entries are shown in their order -/
  inspect : (Value.hash object entries).inspect =
    "\x7b" ++ commaSeparated (entries.map Entry.inspect) ++ "\x7d"

/-- What is inserted into nothing is the map in which the last wins. -/
theorem lastWins_insertAll (digest : Digest) (news : List Entry) (object : ObjectId) :
    LastWins digest news object (insertAll [] news) := by
  have hordered : Ordered (insertAll [] news) := Ordered.insertAll .nil news
  have hmem : ∀ entry, entry ∈ insertAll [] news ↔ LastOf entry news := fun entry => by
    rw [mem_insertAll .nil]
    exact or_iff_left fun h => absurd h.1 List.not_mem_nil
  exact {
    mem_iff := hmem
    one := fun new hnew => by
      obtain ⟨entry, hlast, hkey⟩ := exists_lastOf hnew
      have hentry := (hmem entry).mpr hlast
      exact ⟨entry, ⟨hentry, hkey⟩, fun other ⟨hother, hsame⟩ =>
        hordered.eq_of_key hother hentry (hsame.trans hkey.symm)⟩
    found := fun hindex entry hentry hkey => by
      simp only [applyIndex, hindex, (findEntry_eq_some_iff hordered).mpr ⟨hentry, hkey⟩]
      rfl
    missing := fun hindex hnone => by
      simp only [applyIndex, hindex, findEntry_eq_none_iff.mpr hnone]
      rfl
    ordered := hordered
    inspect := by rw [Value.inspect, inspectEntries_eq_map] }

/-! ## All together -/

/-- That hash literals are finite maps in which the last pair with a key wins, whichever digest the
setup has. -/
structure HashLiterals (setup : Setup) : Prop where
  /-- a literal whose pairs are evaluated normally, to names with keys, is worth such a map -/
  worth : ∀ {depth : Nat} {frame : FrameId} {roots : Roots} {token : Token} {pairs : List Pair}
    {machine last : Machine} {news : List Entry},
    Worth setup (invokeWithin setup depth) frame roots [] pairs machine news last →
    ∃ entries, evalExpression setup (invokeWithin setup depth) frame roots (.hash token pairs)
        machine = .ok (.hash ⟨last.heap.nextObject⟩ entries)
          { last with heap := last.heap.newObject.2 } ∧
      LastWins setup.digest news ⟨last.heap.nextObject⟩ entries
  /-- and no other literal is worth anything -/
  only : ∀ {depth : Nat} {frame : FrameId} {roots : Roots} {token : Token} {pairs : List Pair}
    {machine after : Machine} {value : Value},
    evalExpression setup (invokeWithin setup depth) frame roots (.hash token pairs) machine =
      .ok value after →
    ∃ news last, Worth setup (invokeWithin setup depth) frame roots [] pairs machine news last
  /-- the first name without a key ends a literal when the value of the pair has been evaluated,
  and before anything behind the pair is -/
  unhashable : ∀ {depth : Nat} {frame : FrameId} {roots : Roots} {pairs : List Pair}
    {machine last middle next : Machine} {news : List Entry} {key value : Expression}
    {name content : Value} {fault : Fault},
    Worth setup (invokeWithin setup depth) frame roots [] pairs machine news last →
    evalExpression setup (invokeWithin setup depth) frame
      (roots.holdAll (Entry.parts (insertAll [] news))) key last = .ok name middle →
    evalExpression setup (invokeWithin setup depth) frame
      ((roots.holdAll (Entry.parts (insertAll [] news))).hold name) value middle =
        .ok content next →
    name.hashKey setup.digest = .error fault →
    ∀ (token : Token) (after : List Pair),
      evalExpression setup (invokeWithin setup depth) frame roots
        (.hash token (pairs ++ ⟨key, value⟩ :: after)) machine =
          .error (.fault (.notHashable name.type)) next
  /-- two values have one key only if they are the same, or strings whose digests have the same
  sum -/
  keys : ∀ {left right : Value} {k l : HashKey}, left.hashKey setup.digest = .ok k →
    right.hashKey setup.digest = .ok l →
    (k = l ↔ left = right ∨ ∃ s t, left = .string s ∧ right = .string t ∧
      byteSum (setup.digest.bytes (Text.encode s)) = byteSum (setup.digest.bytes (Text.encode t)))
  /-- in all that is evaluated, the entries of hashes are ordered, each keyed by its name -/
  evaluated : ∀ (depth : Nat) (frame : FrameId) (roots : Roots) (expression : Expression),
    (evalExpression setup (invokeWithin setup depth) frame roots expression).Keeps setup.digest
      Value.Keyed
  /-- and in all that there is in a session -/
  reached : ∀ (console : Console) (commands : List Command) (value : Value),
    ((Session.performAll commands (Session.start setup console)).2.holding []).Has value →
    value.Keyed setup.digest
  /-- and in what a session answers -/
  answered : ∀ command : Command, command.perform.Keeps setup.digest Answer.Keyed
  /-- so that there are at most 5101 strings in a hash -/
  strings : ∀ {value : Value}, value.Keyed setup.digest → ∀ object entries,
    value.Part (.hash object entries) → (stringEntries entries).length ≤ 5101

/-- A hash that is written out has one entry for each key, that of the last pair with it; indexing
finds it by its key, and it is shown in the order of its keys.  No hash has more than 5101 entries
under strings, as a digest has twenty bytes. -/
theorem hash_literals_are_maps (setup : Setup) : HashLiterals setup where
  worth := fun h => ⟨_, h.evalLiteral _, lastWins_insertAll _ _ _⟩
  only := fun h => by
    rw [evalExpression] at h
    obtain ⟨entries, last, hpairs, _⟩ := exists_of_bind_ok h
    obtain ⟨news, hworth⟩ := exists_worth_of_evalPairs hpairs
    exact ⟨news, last, hworth⟩
  unhashable := by
    intro depth frame roots pairs machine last middle next news key value name content fault h hname
      hvalue hkey token after
    have hfault : fault = .notHashable name.type := by
      cases name <;> cases hkey <;> rfl
    exact hfault ▸ h.literal_fails hname hvalue hkey token after
  keys := fun hleft hright => by
    simp only [hashKey_eq_iff hleft hright, stringNumber_eq_byteSum]
  evaluated := fun depth _ roots expression =>
    keeps_expression (keeps_invokeWithin setup depth) expression roots
  reached := fun console commands _ hvalue =>
    ((keyed_start setup console).performAll commands).has hvalue
  answered := keeps_perform
  strings := fun hvalue object entries hpart =>
    let indexed := hvalue object entries hpart
    indexed.ordered.length_stringEntries_le indexed.fits

/-! ### A literal with strings in it -/

/-- The bytes of the digests of these two strings have one sum. -/
theorem stringNumber_five_east :
    stringNumber .sha1 "five" = 2336 ∧ stringNumber .sha1 "east" = 2336 := by decide +kernel

/-- So this is the key of the first. -/
theorem hashKey_five : (Value.string "five").hashKey .sha1 = .ok ⟨.string, 2336⟩ := by
  rw [Value.hashKey, stringNumber_five_east.1]
  rfl

/-- It is the key of the second, too. -/
theorem hashKey_east : (Value.string "east").hashKey .sha1 = .ok ⟨.string, 2336⟩ := by
  rw [Value.hashKey, stringNumber_five_east.2]
  rfl

/-- A string that is written out. -/
def quoted (text : String) : Expression := .string ⟨.string, text, default⟩

/-- Three pairs, of which the last one has the key of the first one, under another name. -/
def threePairs : List Pair :=
  [⟨quoted "five", .integer default 1⟩, ⟨.boolean default true, .integer default 2⟩,
    ⟨quoted "east", .integer default 3⟩]

/-- What they are worth. -/
def threeEntries : List Entry :=
  [⟨⟨.string, 2336⟩, .string "five", .integer 1⟩, ⟨⟨.boolean, 1⟩, .boolean true, .integer 2⟩,
    ⟨⟨.string, 2336⟩, .string "east", .integer 3⟩]

/-- A pair whose name is an array. -/
def arrayPair : Pair := ⟨.array default [], .array default []⟩

/-- The pairs are worth these entries, and change nothing. -/
theorem worth_threePairs :
    Worth bareSetup (invokeWithin bareSetup 1) ⟨0⟩ oneFrame.roots [] threePairs
      ⟨oneFrame.heap, default, []⟩ threeEntries ⟨oneFrame.heap, default, []⟩ :=
  .cons rfl rfl hashKey_five (.cons rfl rfl rfl (.cons rfl rfl hashKey_east .nil))

/-- The literal is worth a hash of two entries, as the two strings have one key.  With a pair behind
it whose name is an array, it fails when the value of that pair has been evaluated, and no pair
behind that is looked at. -/
theorem hash_literals_are_maps_threePairs :
    (∃ entries, evalExpression bareSetup (invokeWithin bareSetup 1) ⟨0⟩ oneFrame.roots
        (.hash default threePairs) ⟨oneFrame.heap, default, []⟩ =
          .ok (.hash ⟨0⟩ entries) ⟨oneFrame.heap.newObject.2, default, []⟩ ∧
      LastWins .sha1 threeEntries ⟨0⟩ entries ∧
      applyIndex .sha1 (.hash ⟨0⟩ entries) (.string "five") = .ok (.integer 3) ∧
      (stringEntries entries).length ≤ 5101) ∧
    byteSum (Digest.sha1.bytes (Text.encode "five")) =
      byteSum (Digest.sha1.bytes (Text.encode "east")) ∧
    ∀ after : List Pair,
      evalExpression bareSetup (invokeWithin bareSetup 1) ⟨0⟩ oneFrame.roots
        (.hash default (threePairs ++ arrayPair :: after)) ⟨oneFrame.heap, default, []⟩ =
        .error (.fault (.notHashable .array))
          ⟨oneFrame.heap.newObject.2.newObject.2, default, []⟩ := by
  have hliterals := hash_literals_are_maps bareSetup
  refine ⟨?_, ?_, fun after => ?_⟩
  · obtain ⟨entries, heval, hlast⟩ := hliterals.worth worth_threePairs
    have hevaluated := hliterals.evaluated 1 ⟨0⟩ oneFrame.roots (.hash default threePairs)
      ⟨oneFrame.heap, default, []⟩ (Heap.keyed_empty.newFrame none)
    rw [heval] at hevaluated
    have heast : ⟨⟨.string, 2336⟩, .string "east", .integer 3⟩ ∈ entries :=
      (hlast.mem_iff _).mpr ⟨threeEntries.take 2, [], rfl, fun _ h => absurd h List.not_mem_nil⟩
    exact ⟨entries, heval, hlast, hlast.found hashKey_five _ heast rfl,
      hliterals.strings hevaluated.2 _ entries (.self _)⟩
  · rcases (hliterals.keys hashKey_five hashKey_east).mp rfl with hsame | ⟨s, t, hs, ht, hsum⟩
    · exact absurd (Value.string.inj hsame) (by decide)
    · cases hs
      cases ht
      exact hsum
  · have hkey : (Value.array ⟨0⟩ []).hashKey bareSetup.digest = .error (.notHashable .array) := rfl
    exact hliterals.unhashable worth_threePairs rfl rfl hkey default after

end Scriptlet
