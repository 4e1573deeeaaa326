import Scriptlet.Value

set_option autoImplicit false

/-!
# Tables of native functions

A table says which native function a program calls under which name.  Programs look a name up
here before they look into their scopes, so what a scope binds to a name of the table is never
seen.

Any table can be made, with any of the library's eight functions under any names, and a program
runs with any of them.  A host that uses the library could put functions of its own into a table
as well.  Such functions are left out: a table holds functions of the library only, and what is
shown for every table is shown for every such table.
-/

namespace Scriptlet

/-- Native functions by the names that programs use. -/
structure BuiltinTable where
  builtins : List Builtin
  deriving Repr, Inhabited

namespace BuiltinTable

/-- The table without functions. -/
def empty : BuiltinTable := ⟨[]⟩

/-- The table with a function under a name, which loses what it named before. -/
def register (name : String) (operation : Intrinsic) (table : BuiltinTable) : BuiltinTable :=
  ⟨⟨name, operation⟩ :: table.builtins.filter (·.name != name)⟩

/-- The function under a name. -/
def find? (table : BuiltinTable) (name : String) : Option Builtin :=
  table.builtins.find? (·.name == name)

/-- All native functions under their own names. -/
def standard : BuiltinTable :=
  ⟨[.len, .first, .last, .rest, .push, .puts, .readline, .readfile].map fun operation =>
    ⟨operation.name, operation⟩⟩

/-- The names in a table, in order. -/
def names (table : BuiltinTable) : List String := (table.builtins.map Builtin.name).mergeSort

theorem find?_register_self (name : String) (operation : Intrinsic) (table : BuiltinTable) :
    (table.register name operation).find? name = some ⟨name, operation⟩ := by
  simp [find?, register]

/-- What is found under a name has that name. -/
theorem name_of_find? {table : BuiltinTable} {name : String} {builtin : Builtin}
    (h : table.find? name = some builtin) : builtin.name = name := by
  simpa using List.find?_some h

end BuiltinTable

end Scriptlet
