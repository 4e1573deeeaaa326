import Scriptlet.Value.Equality
import Scriptlet.Value.Key

set_option autoImplicit false

/-!
# Operators

What the operators make of their operands.  Integers are added, subtracted, multiplied and negated
modulo 2^64, and divided toward zero.  Strings are joined by `+` and have no other operator.  All
other values can only be compared, and only with values of their own type.
-/

namespace Scriptlet

/-- The value of a prefix operator. -/
def applyPrefix : PrefixOp → Value → Except Fault Value
  | .not, .boolean b => .ok (.boolean !b)
  | .not, .null => .ok (.boolean true)
  | .not, _ => .ok (.boolean false)
  | .negate, .integer n => .ok (.integer (-n))
  | .negate, right => .error (.noPrefix .negate right.type)

/-- The value of an infix operator between integers. -/
def applyInteger (operator : InfixOp) (left right : Int64) : Except Fault Value :=
  match operator with
  | .add => .ok (.integer (left + right))
  | .subtract => .ok (.integer (left - right))
  | .multiply => .ok (.integer (left * right))
  | .divide => if right = 0 then .error .divisionByZero else .ok (.integer (left / right))
  | .less => .ok (.boolean (left < right))
  | .greater => .ok (.boolean (right < left))
  | .equal => .ok (.boolean (left == right))
  | .notEqual => .ok (.boolean (left != right))

/-- The value of an infix operator between strings. -/
def applyString (operator : InfixOp) (left right : String) : Except Fault Value :=
  match operator with
  | .add => .ok (.string (left ++ right))
  | operator => .error (.noInfix .string operator .string)

/-- The value of an infix operator between values that are not both integers or both strings. -/
def compareValues (operator : InfixOp) (left right : Value) : Except Fault Value :=
  if left.type ≠ right.type then .error (.typeMismatch left.type operator right.type)
  else
    match operator with
    | .equal => .ok (.boolean (left.identical right))
    | .notEqual => .ok (.boolean (!left.identical right))
    | operator => .error (.noInfix left.type operator right.type)

/-- The value of an infix operator. -/
def applyInfix (operator : InfixOp) (left right : Value) : Except Fault Value :=
  match left, right with
  | .integer l, .integer r => applyInteger operator l r
  | .string l, .string r => applyString operator l r
  | left, right => compareValues operator left right

/-- The element of an array at an index that counts from zero; null outside of it. -/
def elementAt (elements : List Value) (index : Int64) : Value :=
  if index < 0 then .null else (elements[index.toInt.toNat]?).getD .null

/-- The value of an indexing: of an array by an integer, of a hash by a key. -/
def applyIndex (digest : Digest) (left index : Value) : Except Fault Value :=
  match left, index with
  | .array _ elements, .integer n => .ok (elementAt elements n)
  | .hash _ entries, index =>
    match index.hashKey digest with
    | .ok key => .ok (((findEntry key entries).map Entry.value).getD .null)
    | .error fault => .error fault
  | left, _ => .error (.notIndexable left.type)

end Scriptlet
