set_option autoImplicit false

/-!
# Blank characters

The characters with the Unicode property *White_Space*, and a text without those at its two ends.
A line typed at the prompt is trimmed so before it is looked at.
-/

namespace Scriptlet.Text

/-- Whether a character is white space. -/
def isBlank (c : Char) : Bool :=
  let n := c.toNat
  (9 ≤ n && n ≤ 13) || n == 0x20 || n == 0x85 || n == 0xA0 || n == 0x1680 ||
    (0x2000 ≤ n && n ≤ 0x200A) || n == 0x2028 || n == 0x2029 || n == 0x202F || n == 0x205F ||
    n == 0x3000

/-- The characters from the first one that fails `drop` to the last one that does. -/
def trimWhere (drop : Char → Bool) (text : List Char) : List Char :=
  ((text.dropWhile drop).reverse.dropWhile drop).reverse

/-- The text without the blank characters at its ends. -/
def trim (text : String) : String := String.ofList (trimWhere isBlank text.toList)

end Scriptlet.Text
