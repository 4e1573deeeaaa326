import Scriptlet.Tree

set_option autoImplicit false

/-!
# Values

Integers have 64 bits and wrap.  Arrays and hashes never change once they are made; each of them,
and each function, is an *object* with an identity of its own, by which programs compare it.  An
array or a hash carries its contents next to its identity: two values with one identity have the
same contents.

A function is its literal together with the frame it was made in.  Frames are named here and kept
in the heap.
-/

namespace Scriptlet

/-- The name of a frame.  A name is never given to a second frame. -/
structure FrameId where
  index : Nat
  deriving DecidableEq, Hashable, Repr, Inhabited

/-- The identity of an array, a hash or a function.  It is never given to a second object. -/
structure ObjectId where
  index : Nat
  deriving DecidableEq, Hashable, Repr, Inhabited

/-! ## Hash keys -/

/-- What a hash key was made from. -/
inductive KeyKind where
  | integer
  | boolean
  | string
  deriving DecidableEq, Repr, Inhabited

/-- What stands for a value where a hash is searched. -/
structure HashKey where
  kind : KeyKind
  number : Int64
  deriving DecidableEq, Repr, Inhabited

/-- The place of a kind in the order of keys. -/
def KeyKind.rank : KeyKind → Nat
  | .integer => 0
  | .boolean => 1
  | .string => 2

/-- Whether a key stands before another: by kind, and by number within a kind. -/
def HashKey.before (a b : HashKey) : Bool :=
  a.kind.rank < b.kind.rank || (a.kind.rank == b.kind.rank && a.number < b.number)

/-- The order of two keys. -/
def HashKey.order (a b : HashKey) : Ordering :=
  if a = b then .eq else if a.before b then .lt else .gt

/-! ## Native functions -/

/-- The functions that the library provides.  There are no others: functions that a host would
write itself and put into a table are left out. -/
inductive Intrinsic where
  | len
  | first
  | last
  | rest
  | push
  | puts
  | readline
  | readfile
  deriving DecidableEq, Repr, Inhabited

/-- The name by which a function speaks of itself. -/
def Intrinsic.name : Intrinsic → String
  | .len => "len"
  | .first => "first"
  | .last => "last"
  | .rest => "rest"
  | .push => "push"
  | .puts => "puts"
  | .readline => "readline"
  | .readfile => "readfile"

/-- A function of the library under the name that programs call it by. -/
structure Builtin where
  name : String
  operation : Intrinsic
  deriving DecidableEq, Repr, Inhabited

/-! ## Values -/

mutual

/-- What an expression can be worth. -/
inductive Value where
  | null
  | integer (n : Int64)
  | boolean (b : Bool)
  | string (s : String)
  | array (id : ObjectId) (elements : List Value)
  | hash (id : ObjectId) (entries : List Entry)
  | function (id : ObjectId) (literal : FunctionLiteral) (frame : FrameId)
  | builtin (builtin : Builtin)

/-- An entry of a hash: its key as it is searched, the value the key was made from, and the value
that stands under it. -/
structure Entry where
  key : HashKey
  name : Value
  value : Value

end

instance : Inhabited Value := ⟨.null⟩
instance : Inhabited Entry := ⟨⟨default, .null, .null⟩⟩

/-- The types of values. -/
inductive ValueType where
  | null
  | integer
  | boolean
  | string
  | array
  | hash
  | function
  | builtin
  deriving DecidableEq, Repr, Inhabited

/-- The name of a type in messages. -/
def ValueType.name : ValueType → String
  | .null => "NULL"
  | .integer => "INTEGER"
  | .boolean => "BOOLEAN"
  | .string => "STRING"
  | .array => "ARRAY"
  | .hash => "HASH"
  | .function => "FUNCTION"
  | .builtin => "BUILTIN"

namespace Value

/-- The type of a value. -/
def type : Value → ValueType
  | .null => .null
  | .integer _ => .integer
  | .boolean _ => .boolean
  | .string _ => .string
  | .array _ _ => .array
  | .hash _ _ => .hash
  | .function _ _ _ => .function
  | .builtin _ => .builtin

/-- Whether a value counts as true: all do but null and false. -/
def truthy : Value → Bool
  | .null => false
  | .boolean b => b
  | _ => true

/-- The identity of a value that is an object. -/
def object? : Value → Option ObjectId
  | .array id _ | .hash id _ | .function id _ _ => some id
  | .null | .integer _ | .boolean _ | .string _ | .builtin _ => none

end Value

end Scriptlet
