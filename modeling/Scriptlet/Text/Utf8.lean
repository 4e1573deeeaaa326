set_option autoImplicit false

/-!
# Bytes and text

Text leaves and enters a program as bytes, in UTF-8.  Reading is strict where the text is used
(`decode?` refuses bytes that are no UTF-8) and lenient where it is only shown: `decodeLossy`
puts U+FFFD for every stretch of bytes that starts a character and does not finish it, and for
every byte that starts none.
-/

namespace Scriptlet.Text

/-- The bytes of a text. -/
def encode (text : String) : List UInt8 := text.toUTF8.data.toList

/-- The text that some bytes are, if they are one. -/
def decode? (bytes : List UInt8) : Option String := String.fromUTF8? ⟨bytes.toArray⟩

/-- The ranges that the bytes behind a leading byte have to lie in; a byte that leads no character
has none. -/
def continuationRanges (lead : UInt8) : Option (List (UInt8 × UInt8)) :=
  if lead ≤ 0x7F then some []
  else if lead < 0xC2 then none
  else if lead ≤ 0xDF then some [(0x80, 0xBF)]
  else if lead = 0xE0 then some [(0xA0, 0xBF), (0x80, 0xBF)]
  else if lead = 0xED then some [(0x80, 0x9F), (0x80, 0xBF)]
  else if lead ≤ 0xEF then some [(0x80, 0xBF), (0x80, 0xBF)]
  else if lead = 0xF0 then some [(0x90, 0xBF), (0x80, 0xBF), (0x80, 0xBF)]
  else if lead ≤ 0xF3 then some [(0x80, 0xBF), (0x80, 0xBF), (0x80, 0xBF)]
  else if lead = 0xF4 then some [(0x80, 0x8F), (0x80, 0xBF), (0x80, 0xBF)]
  else none

/-- The longest front part of `bytes` that lies in the ranges, one byte in each. -/
def continuation : List (UInt8 × UInt8) → List UInt8 → List UInt8
  | (low, high) :: ranges, byte :: bytes =>
    if low ≤ byte ∧ byte ≤ high then byte :: continuation ranges bytes else []
  | _, _ => []

/-- The character of a leading byte and the bytes that continue it. -/
def assemble (lead : UInt8) (rest : List UInt8) : Char :=
  let payload : Nat :=
    match rest.length with
    | 0 => lead.toNat
    | 1 => lead.toNat % 32
    | 2 => lead.toNat % 16
    | _ => lead.toNat % 8
  Char.ofNat (rest.foldl (fun value byte => value * 64 + byte.toNat % 64) payload)

/-- The mark for what is no text. -/
def replacement : Char := '\uFFFD'

/-- The characters of some bytes, with a mark where they are none. -/
def decodeLossyChars : List UInt8 → List Char
  | [] => []
  | lead :: bytes =>
    match continuationRanges lead with
    | none => replacement :: decodeLossyChars bytes
    | some ranges =>
      let rest := continuation ranges bytes
      let char := if rest.length = ranges.length then assemble lead rest else replacement
      char :: decodeLossyChars (bytes.drop rest.length)
termination_by bytes => bytes.length

/-- The text of some bytes, with a mark where they are none. -/
def decodeLossy (bytes : List UInt8) : String := String.ofList (decodeLossyChars bytes)

end Scriptlet.Text
