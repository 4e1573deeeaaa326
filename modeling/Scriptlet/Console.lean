import Scriptlet.Text.Utf8

set_option autoImplicit false

/-!
# The console

A console is a stream of input bytes, read line by line, and a stream of output bytes, written
text by text.  The program and the prompt share both: a line that one of them reads is gone for
the other.

The output may have a capacity.  The write that would exceed it stores what fits and fails, and so
does every later write of at least one byte.  Flushing may be made to fail.

These are all the streams there are here.  A host could hand in others: output that takes part of
a write, or fails and then works again, or fails with another text, and input that fails where no
line is broken.  Such streams are left out.  Input is a list of bytes, all of them known before the
program runs, and the only fault of reading is that a line is no text.
-/

namespace Scriptlet

/-- Why output failed. -/
inductive OutputFault where
  /-- the capacity is used up -/
  | full
  /-- what was written could not be passed on -/
  | flush
  deriving DecidableEq, Repr, Inhabited

/-- The fault in words. -/
def OutputFault.message : OutputFault → String
  | .full => "output is full"
  | .flush => "flush failed"

/-- Why a line could not be read. -/
inductive InputFault where
  /-- the bytes of the line are no text -/
  | notText
  deriving DecidableEq, Repr, Inhabited

/-- The fault in words. -/
def InputFault.message : InputFault → String
  | .notText => "stream did not contain valid UTF-8"

/-- The two streams of a program. -/
structure Console where
  /-- the bytes that have not been read -/
  input : List UInt8
  /-- the bytes that have been written -/
  written : Array UInt8
  /-- the number of bytes that can be written in all, if there is a bound -/
  capacity : Option Nat
  /-- whether flushing fails -/
  flushFails : Bool
  /-- how much had been written when a line was first asked for and no input was left -/
  starved : Option Nat
  deriving Repr, Inhabited

namespace Console

/-- A console with some input, and output that never fails. -/
def ofInput (input : List UInt8) : Console := ⟨input, #[], none, false, none⟩

/-! ## Output -/

/-- How many of `wanted` further bytes can still be written. -/
def room (wanted : Nat) (console : Console) : Nat :=
  match console.capacity with
  | none => wanted
  | some capacity => min wanted (capacity - console.written.size)

/-- Writes a text. -/
def write (text : String) (console : Console) : Except OutputFault Unit × Console :=
  let bytes := Text.encode text
  let room := console.room bytes.length
  (if bytes.length ≤ room then .ok () else .error .full,
    { console with written := console.written ++ bytes.take room })

/-- Passes on what has been written. -/
def flush (console : Console) : Except OutputFault Unit :=
  if console.flushFails then .error .flush else .ok ()

/-- Writes some texts, each on a line of its own, up to the first that does not fit. -/
def writeLines : List String → Console → Except OutputFault Unit × Console
  | [], console => (.ok (), console)
  | text :: rest, console =>
    match console.write (text ++ "\n") with
    | (.ok (), console) => console.writeLines rest
    | (.error fault, console) => (.error fault, console)

@[simp] theorem input_write (text : String) (console : Console) :
    (console.write text).2.input = console.input := rfl

/-- What has been written stays, and is followed by as much of the text as there is room for. -/
theorem written_write (text : String) (console : Console) :
    (console.write text).2.written =
      console.written ++ (Text.encode text).take (console.room (Text.encode text).length) := rfl

@[simp] theorem input_writeLines (texts : List String) (console : Console) :
    (console.writeLines texts).2.input = console.input := by
  induction texts generalizing console with
  | nil => rfl
  | cons text rest ih =>
    have kept := input_write (text ++ "\n") console
    rw [writeLines]
    split
    next next eq => rw [eq] at kept; exact (ih next).trans kept
    next fault next eq => rw [eq] at kept; exact kept

/-! ## Input -/

/-- The byte that ends a line. -/
def lineFeed : UInt8 := 10

/-- The bytes through the first line feed, or all if there is none, and the bytes behind them. -/
def splitLine (input : List UInt8) : List UInt8 × List UInt8 :=
  match input.dropWhile (· != lineFeed) with
  | [] => (input, [])
  | ending :: rest => (input.takeWhile (· != lineFeed) ++ [ending], rest)

/-- Reads the next line, its ending included; at the end of the input that is the empty text.  The
bytes of the line are consumed also when they are no text. -/
def readLine (console : Console) : Except InputFault String × Console :=
  let (line, rest) := splitLine console.input
  let answer : Except InputFault String :=
    match Text.decode? line with
    | some text => .ok text
    | none => .error .notText
  let starved :=
    if line.isEmpty then console.starved.or (some console.written.size) else console.starved
  (answer, { console with input := rest, starved := starved })

@[simp] theorem written_readLine (console : Console) :
    console.readLine.2.written = console.written := rfl

@[simp] theorem input_readLine (console : Console) :
    console.readLine.2.input = (splitLine console.input).2 := rfl

/-- A line is the front of the input. -/
theorem splitLine_append (input : List UInt8) :
    (splitLine input).1 ++ (splitLine input).2 = input := by
  have parts := List.takeWhile_append_dropWhile (p := (· != lineFeed)) (l := input)
  unfold splitLine
  split
  next => simp
  next ending rest eq => rw [eq] at parts; simpa using parts

/-- Unless the input has ended, a line holds at least one byte. -/
theorem splitLine_fst_ne_nil {input : List UInt8} (h : input ≠ []) : (splitLine input).1 ≠ [] := by
  unfold splitLine
  split <;> simp [h]

end Console

end Scriptlet
