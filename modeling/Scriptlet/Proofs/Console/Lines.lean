import Scriptlet.Intrinsic

set_option autoImplicit false

/-!
# The lines of the input

Component: the context of input and output.  Specification: section 10.6, by which input is read by
lines from an injected reader, and what is written goes to an injected writer.

The input is the lines it splits into, each with the line feed that ends it; the last one may be
without.  Reading takes the first of them.  Output only grows.

A line is taken with its line feed.  So nothing is lost by splitting: the lines, put together, are
the input (`flatten_splitLines`).  What is read of it is another matter, since the bytes of a line
need not be a text (`lineText`).
-/

namespace Scriptlet

/-- The lines that bytes are made of: a line ends behind each line feed, and at the end. -/
def splitLines : List UInt8 → List (List UInt8)
  | [] => []
  | byte :: rest =>
    if byte = Console.lineFeed then [byte] :: splitLines rest
    else
      match splitLines rest with
      | [] => [[byte]]
      | line :: lines => (byte :: line) :: lines

/-- The text of a line, if its bytes are one. -/
def lineText (line : List UInt8) : Except InputFault String :=
  match Text.decode? line with
  | some text => .ok text
  | none => .error .notText

namespace Console

/-- What is read is the text of the first line. -/
theorem readLine_fst (console : Console) :
    console.readLine.1 = lineText (splitLine console.input).1 := rfl

/-- A line feed ends the line. -/
theorem splitLine_cons_lineFeed (rest : List UInt8) :
    splitLine (lineFeed :: rest) = ([lineFeed], rest) := by
  simp [splitLine]

/-- Any other byte belongs to it. -/
theorem splitLine_cons_of_ne {byte : UInt8} (h : byte ≠ lineFeed) (rest : List UInt8) :
    splitLine (byte :: rest) = (byte :: (splitLine rest).1, (splitLine rest).2) := by
  have hdrop : (byte :: rest).dropWhile (· != lineFeed) = rest.dropWhile (· != lineFeed) :=
    List.dropWhile_cons_of_pos (bne_iff_ne.mpr h)
  have htake : (byte :: rest).takeWhile (· != lineFeed) =
      byte :: rest.takeWhile (· != lineFeed) := List.takeWhile_cons_of_pos (bne_iff_ne.mpr h)
  unfold splitLine
  rw [hdrop, htake]
  cases rest.dropWhile (· != lineFeed) <;> rfl

/-- What is left behind a line is shorter, unless there was nothing. -/
theorem length_splitLine_lt {input : List UInt8} (h : input ≠ []) :
    (splitLine input).2.length < input.length := by
  have hlength := congrArg List.length (splitLine_append input)
  have hline := List.length_pos_iff.mpr (splitLine_fst_ne_nil h)
  rw [List.length_append] at hlength
  omega

/-- What is left is never more than there was. -/
theorem length_splitLine_le (input : List UInt8) :
    (splitLine input).2.length ≤ input.length := by
  have hlength := congrArg List.length (splitLine_append input)
  rw [List.length_append] at hlength
  omega

end Console

/-- Reading a line takes the first of those that the input splits into. -/
theorem splitLines_eq_cons {input : List UInt8} (h : input ≠ []) :
    splitLines input = (Console.splitLine input).1 :: splitLines (Console.splitLine input).2 := by
  induction input with
  | nil => exact absurd rfl h
  | cons byte rest ih =>
    by_cases hbyte : byte = Console.lineFeed
    · subst hbyte
      rw [splitLines, if_pos rfl, Console.splitLine_cons_lineFeed]
    · rw [splitLines, if_neg hbyte, Console.splitLine_cons_of_ne hbyte]
      cases rest with
      | nil => rfl
      | cons => rw [ih (List.cons_ne_nil _ _)]

/-- The last line is without a line feed. -/
example : splitLines [104, 10, 10, 105] = [[104, 10], [10], [105]] := by decide

/-- Splitting loses no byte and adds none. -/
theorem flatten_splitLines (input : List UInt8) : (splitLines input).flatten = input := by
  induction input with
  | nil => rfl
  | cons byte rest ih =>
    rw [splitLines]
    split
    · rw [List.flatten_cons, ih]
      rfl
    · generalize splitLines rest = lines at ih
      cases lines with
      | nil => rw [← ih]; rfl
      | cons line lines => rw [← ih]; rfl

/-- Whether what has been written on one console is the front of what has been written on
another. -/
def Console.Extends (before after : Console) : Prop :=
  ∃ more : Array UInt8, after.written = before.written ++ more

namespace Console.Extends

/-- What is written is a front of itself. -/
theorem refl (console : Console) : console.Extends console := ⟨#[], by simp⟩

/-- A front of a front is a front. -/
theorem trans {first second third : Console} (h : first.Extends second)
    (h' : second.Extends third) : first.Extends third := by
  obtain ⟨more, hmore⟩ := h
  obtain ⟨more', hmore'⟩ := h'
  exact ⟨more ++ more', by rw [hmore', hmore, Array.append_assoc]⟩

/-- Writing adds to what has been written, even if it fails. -/
theorem write (text : String) (console : Console) : console.Extends (console.write text).2 :=
  ⟨((Text.encode text).take (console.room (Text.encode text).length)).toArray,
    Array.ext' (by rw [Console.written_write, Array.toList_appendList, Array.toList_append])⟩

/-- So does writing lines. -/
theorem writeLines (texts : List String) (console : Console) :
    console.Extends (console.writeLines texts).2 := by
  induction texts generalizing console with
  | nil => exact refl console
  | cons text rest ih =>
    have hwrite := write (text ++ "\n") console
    rw [Console.writeLines]
    generalize console.write (text ++ "\n") = result at hwrite
    obtain ⟨_ | _, next⟩ := result
    · exact hwrite
    · exact hwrite.trans (ih next)

/-- So does `puts`. -/
theorem writeValues (values : List Value) (console : Console) :
    console.Extends (writeValues values console).2 := by
  have hwrite := writeLines (values.map Value.inspect) console
  rw [Scriptlet.writeValues]
  generalize console.writeLines (values.map Value.inspect) = result at hwrite
  obtain ⟨_ | _, next⟩ := result
  · exact hwrite
  · exact hwrite

/-- Reading writes nothing. -/
theorem readLine (console : Console) : console.Extends console.readLine.2 := refl console

end Console.Extends

/-- Writing reads nothing. -/
theorem Console.input_writeValues (values : List Value) (console : Console) :
    (writeValues values console).2.input = console.input := by
  have hinput := console.input_writeLines (values.map Value.inspect)
  rw [writeValues]
  generalize console.writeLines (values.map Value.inspect) = result at hinput
  obtain ⟨_ | _, next⟩ := result
  · exact hinput
  · exact hinput

/-- The console with other input, of which the end may have been reached. -/
def Console.withInput (input : List UInt8) (starved : Option Nat) (console : Console) : Console :=
  { console with input := input, starved := starved }

/-- Output does not depend on the input. -/
theorem Console.writeLines_withInput (texts : List String) (console : Console)
    (input : List UInt8) (starved : Option Nat) :
    (console.withInput input starved).writeLines texts =
      ((console.writeLines texts).1, (console.writeLines texts).2.withInput input starved) := by
  induction texts generalizing console with
  | nil => rfl
  | cons text rest ih =>
    have hwrite : (console.withInput input starved).write (text ++ "\n") =
        ((console.write (text ++ "\n")).1,
          (console.write (text ++ "\n")).2.withInput input starved) := rfl
    rw [writeLines, writeLines, hwrite]
    generalize console.write (text ++ "\n") = result
    obtain ⟨_ | _, next⟩ := result
    · rfl
    · exact ih next

theorem Console.writeValues_withInput (values : List Value) (console : Console)
    (input : List UInt8) (starved : Option Nat) :
    (writeValues values (console.withInput input starved)).1 = (writeValues values console).1 := by
  rw [writeValues, writeValues, Console.writeLines_withInput]
  generalize console.writeLines (values.map Value.inspect) = result
  obtain ⟨_ | _, next⟩ := result <;> rfl

end Scriptlet
