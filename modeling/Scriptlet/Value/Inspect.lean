import Scriptlet.Value
import Scriptlet.Tree.Render
import Scriptlet.Text.Escape

set_option autoImplicit false

/-!
# The text of a value

`Value.inspect` is what programs print: strings stand without quotes, hashes list their entries in
the order of their keys, and a function is shown as it was written.

`Value.describe` is for looking inside a value: it names the type of every part and shows the keys
of a hash as they are searched.
-/

namespace Scriptlet

/-- An integer in decimal. -/
def integerText (n : Int64) : String := n.toInt.repr

/-- A truth value in words. -/
def booleanText : Bool → String
  | true => "true"
  | false => "false"

/-! ## As programs print it -/

mutual

/-- The text of a value. -/
def Value.inspect : Value → String
  | .null => "null"
  | .integer n => integerText n
  | .boolean b => booleanText b
  | .string s => s
  | .array _ elements => "[" ++ commaSeparated (inspectValues elements) ++ "]"
  | .hash _ entries => "\x7b" ++ commaSeparated (inspectEntries entries) ++ "\x7d"
  | .function _ ⟨_, parameters, body⟩ _ =>
    "fn(" ++ commaSeparated (parameters.map Name.text) ++ ") \x7b\n" ++ body.render ++ "\n\x7d"
  | .builtin _ => "builtin function"

/-- The texts of some values. -/
def inspectValues : List Value → List String
  | [] => []
  | value :: rest => value.inspect :: inspectValues rest

/-- The texts of some entries. -/
def inspectEntries : List Entry → List String
  | [] => []
  | entry :: rest => entry.inspect :: inspectEntries rest

/-- The text of an entry. -/
def Entry.inspect : Entry → String
  | ⟨_, name, value⟩ => name.inspect ++ ": " ++ value.inspect

end

/-! ## From the inside -/

/-- The name of a kind of key. -/
def KeyKind.name : KeyKind → String
  | .integer => "Integer"
  | .boolean => "Boolean"
  | .string => "String"

/-- A key in words. -/
def HashKey.describe (key : HashKey) : String :=
  "HashKey \x7b key_type: " ++ key.kind.name ++ ", value: " ++ integerText key.number ++ " \x7d"

mutual

/-- The parts of a value in words. -/
def Value.describe : Value → String
  | .null => "Null"
  | .integer n => "Integer(" ++ integerText n ++ ")"
  | .boolean b => "Boolean(" ++ booleanText b ++ ")"
  | .string s => "String(" ++ Text.quoted s ++ ")"
  | .array _ elements => "Array([" ++ commaSeparated (describeValues elements) ++ "])"
  | .hash _ entries => "Hash(\x7b" ++ commaSeparated (describeEntries entries) ++ "\x7d)"
  | .function _ ⟨_, parameters, _⟩ _ =>
    "Function(Function \x7b parameters: " ++ parameters.length.repr ++ ", .. \x7d)"
  | .builtin builtin => "Builtin(Builtin(" ++ builtin.name ++ "))"

/-- Some values in words. -/
def describeValues : List Value → List String
  | [] => []
  | value :: rest => value.describe :: describeValues rest

/-- Some entries in words. -/
def describeEntries : List Entry → List String
  | [] => []
  | entry :: rest => entry.describe :: describeEntries rest

/-- An entry in words. -/
def Entry.describe : Entry → String
  | ⟨key, name, value⟩ =>
    key.describe ++ ": HashPair \x7b key: " ++ name.describe ++ ", value: " ++ value.describe ++
      " \x7d"

end

theorem inspectValues_eq_map (values : List Value) :
    inspectValues values = values.map Value.inspect := by
  induction values with
  | nil => rfl
  | cons value rest ih => rw [inspectValues, ih, List.map_cons]

theorem inspectEntries_eq_map (entries : List Entry) :
    inspectEntries entries = entries.map Entry.inspect := by
  induction entries with
  | nil => rfl
  | cons entry rest ih => rw [inspectEntries, ih, List.map_cons]

end Scriptlet
