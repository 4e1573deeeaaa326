import Scriptlet.Digest
import Scriptlet.Fault

set_option autoImplicit false

/-!
# Hash keys and hashes

Integers, truth values and strings can be keys of a hash.  A string is keyed by the sum of the
bytes of its digest, so different strings may share a key; the later of them takes the place of
the earlier, name and all.  Which digest that is, is a parameter here.

The entries of a hash stand in the order of their keys, one for each key.
-/

namespace Scriptlet

/-- The number that keys a string. -/
def stringNumber (digest : Digest) (text : String) : Nat :=
  (digest.bytes (Text.encode text)).foldl (fun total byte => total + byte.toNat) 0

/-- The key that a value is searched by, if it has one; by SHA-1, if no other digest is named. -/
def Value.hashKey (value : Value) (digest : Digest := .sha1) : Except Fault HashKey :=
  match value with
  | .integer n => .ok ⟨.integer, n⟩
  | .boolean b => .ok ⟨.boolean, if b then 1 else 0⟩
  | .string s => .ok ⟨.string, Int64.ofNat (stringNumber digest s)⟩
  | value => .error (.notHashable value.type)

/-- The entries with one more, which takes the place of one with the same key. -/
def insertEntry (new : Entry) : List Entry → List Entry
  | [] => [new]
  | entry :: rest =>
    if entry.key = new.key then new :: rest
    else if new.key.before entry.key then new :: entry :: rest
    else entry :: insertEntry new rest

/-- The entry under a key. -/
def findEntry (key : HashKey) (entries : List Entry) : Option Entry :=
  entries.find? (·.key == key)

theorem findEntry_insertEntry_self (new : Entry) (entries : List Entry) :
    findEntry new.key (insertEntry new entries) = some new := by
  induction entries with
  | nil => simp [insertEntry, findEntry]
  | cons entry rest ih =>
    rw [insertEntry]
    split
    · simp [findEntry]
    · split
      · simp [findEntry]
      next other _ =>
        rw [findEntry, List.find?_cons_of_neg (by simpa using other)]
        exact ih

end Scriptlet
