import Scriptlet.Session

set_option autoImplicit false

/-!
# Drafts of values

The host writes values out as drafts.  A draft can mention held values and native functions by
name.  Building a draft makes a new object for every array and hash that is written out, while what
is mentioned by name stays itself.
-/

namespace Scriptlet

mutual

/-- A value as the host writes it. -/
inductive Draft where
  | null
  | integer (n : Int64)
  | boolean (b : Bool)
  | string (s : String)
  | array (elements : List Draft)
  | hash (pairs : List DraftPair)
  /-- the value held under a name -/
  | held (name : String)
  /-- the native function that programs call by a name -/
  | builtin (name : String)

/-- A key and a value as the host writes them. -/
structure DraftPair where
  key : Draft
  value : Draft

end

instance : Inhabited Draft := ⟨.null⟩
instance : Inhabited DraftPair := ⟨⟨.null, .null⟩⟩

/-- A new object identity. -/
def Step.newObject : Step ObjectId :=
  Step.onMachine fun _ _ machine =>
    match machine.heap.newObject with
    | (id, heap) => (id, { machine with heap := heap })

mutual

/-- The value of a draft. -/
def Draft.build : Draft → Step Value
  | .null => return .null
  | .integer n => return .integer n
  | .boolean b => return .boolean b
  | .string s => return .string s
  | .array elements => do
    let elements ← Draft.buildAll elements
    return .array (← Step.newObject) elements
  | .hash pairs => do
    let entries ← Draft.buildPairs [] pairs
    return .hash (← Step.newObject) entries
  | .held name => do
    match (← get).values.lookup name with
    | some value => return value
    | none => throw (.noValue name)
  | .builtin name => do
    match (← get).setup.builtins.find? name with
    | some builtin => return .builtin builtin
    | none => throw (.noBuiltin name)

/-- The values of some drafts. -/
def Draft.buildAll : List Draft → Step (List Value)
  | [] => return []
  | draft :: rest => do
    let value ← draft.build
    let values ← Draft.buildAll rest
    return value :: values

/-- The entries that the given ones become by some pairs. -/
def Draft.buildPairs (entries : List Entry) : List DraftPair → Step (List Entry)
  | [] => return entries
  | pair :: rest => do
    let entry ← pair.build
    Draft.buildPairs (insertEntry entry entries) rest

/-- The entry of a pair. -/
def DraftPair.build : DraftPair → Step Entry
  | ⟨name, value⟩ => do
    let name ← name.build
    let value ← value.build
    match name.hashKey (← Step.digest) with
    | .ok key => return ⟨key, name, value⟩
    | .error _ => throw (.badKey name.type)

end

end Scriptlet
