import Scriptlet.Value

set_option autoImplicit false

/-!
# When two values are the same

`Value.identical` is what programs compare with: integers, truth values, strings and null by what
they are, arrays, hashes and functions by identity, native functions by name.

`Value.equal` looks into arrays and hashes instead: they are equal if their parts are, in the same
places.  Values that are identical are equal as long as an identity stands for one object only.
-/

namespace Scriptlet

/-- Whether two values are one and the same to a program. -/
def Value.identical : Value → Value → Bool
  | .null, .null => true
  | .integer a, .integer b => a == b
  | .boolean a, .boolean b => a == b
  | .string a, .string b => a == b
  | .array a _, .array b _ => a == b
  | .hash a _, .hash b _ => a == b
  | .function a _ _, .function b _ _ => a == b
  | .builtin a, .builtin b => a.name == b.name
  | _, _ => false

mutual

/-- Whether two values have equal contents. -/
def Value.equal : Value → Value → Bool
  | .array _ a, other =>
    match other with
    | .array _ b => equalValues a b
    | _ => false
  | .hash _ a, other =>
    match other with
    | .hash _ b => equalEntries a b
    | _ => false
  | value, other => value.identical other

/-- Whether two lists of values are equal place by place. -/
def equalValues : List Value → List Value → Bool
  | [], [] => true
  | a :: as, b :: bs => a.equal b && equalValues as bs
  | _, _ => false

/-- Whether two lists of entries are equal place by place. -/
def equalEntries : List Entry → List Entry → Bool
  | [], [] => true
  | a :: as, b :: bs => a.equal b && equalEntries as bs
  | _, _ => false

/-- Whether two entries have the same key and equal contents. -/
def Entry.equal : Entry → Entry → Bool
  | ⟨key, name, value⟩, other =>
    key == other.key && name.equal other.name && value.equal other.value

end

end Scriptlet
