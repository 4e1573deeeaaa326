import Scriptlet.Proofs.Console.Output
import Scriptlet.Proofs.Console.Readline

set_option autoImplicit false

/-!
# Output with a capacity

Component: the context of input and output that native functions run against, and `puts` among them.
Specification: section 10.6 on that context and on the diagnostic of a failed write, and section 7,
by which a failure of output is surfaced and never swallowed.

A console with a capacity stores what is written as far as it fits.  The write that would exceed the
capacity fails, and stores what there is room for; so what is stored is the longest front of all that
was written that fits (`LongestFront`), whatever was written in one piece and whatever in several.

A value is written piece by piece, as it is nested (`Value.pieces`), up to the first piece that
fails.  That is as good as writing its text at once (`Console.writePieces_eq`), so that it does not
matter which piece of which value the capacity ends in.

A console without a capacity has no limit, and the theorems here are about one that has; output that
never fails is treated apart.  A write that fails leaves what it has stored, so that the bytes of a
failed call are still there when the next call comes.

The plan is the same as for input.  One request stores what it writes as far as it fits
(`Request.holds_answer`); a dialogue makes one request after another (`Dialogue.holds_run`); and
whatever is evaluated is led by a dialogue.
-/

namespace Scriptlet

/-! ## Pieces of a text -/

/-- Texts are encoded one after the other. -/
theorem Text.encode_append (text other : String) :
    Text.encode (text ++ other) = Text.encode text ++ Text.encode other := by
  simp [Text.encode]

/-- The pieces of some texts, with a comma between one text and the next. -/
def separatedPieces : List (List String) → List String
  | [] => []
  | [pieces] => pieces
  | pieces :: rest => pieces ++ ", " :: separatedPieces rest

/-- Texts of pieces are put together as the pieces are. -/
theorem join_append (pieces more : List String) :
    String.join (pieces ++ more) = String.join pieces ++ String.join more := by
  induction pieces with
  | nil => rw [List.nil_append, String.join_nil, String.empty_append]
  | cons piece rest ih =>
    rw [List.cons_append, String.join_cons, String.join_cons, ih, String.append_assoc]

/-- The pieces of texts make up the texts, separated by commas. -/
theorem join_separatedPieces (parts : List (List String)) :
    String.join (separatedPieces parts) = commaSeparated (parts.map String.join) := by
  induction parts with
  | nil => rfl
  | cons pieces rest ih =>
    cases rest with
    | nil => rfl
    | cons next rest =>
      rw [separatedPieces, join_append, String.join_cons, ih, ← String.append_assoc]
      · rfl
      · exact List.cons_ne_nil _ _

mutual

/-- The pieces in which a value is written.  The body of a function is one of them. -/
def Value.pieces : Value → List String
  | .null => ["null"]
  | .integer n => [integerText n]
  | .boolean b => [booleanText b]
  | .string s => [s]
  | .array _ elements => "[" :: (separatedPieces (piecesOfValues elements) ++ ["]"])
  | .hash _ entries => "\x7b" :: (separatedPieces (piecesOfEntries entries) ++ ["\x7d"])
  | .function _ ⟨_, parameters, body⟩ _ =>
    "fn(" :: (separatedPieces (parameters.map fun name => [name.text]) ++
      [") \x7b\n", body.render, "\n\x7d"])
  | .builtin _ => ["builtin function"]

/-- The pieces in which each of some values is written. -/
def piecesOfValues : List Value → List (List String)
  | [] => []
  | value :: rest => value.pieces :: piecesOfValues rest

/-- The pieces in which each of some entries is written. -/
def piecesOfEntries : List Entry → List (List String)
  | [] => []
  | entry :: rest => entry.pieces :: piecesOfEntries rest

/-- The pieces in which an entry is written. -/
def Entry.pieces : Entry → List String
  | ⟨_, name, value⟩ => name.pieces ++ ": " :: value.pieces

end

mutual

/-- The pieces of a value make up its text. -/
theorem Value.join_pieces (value : Value) : String.join value.pieces = value.inspect := by
  match value with
  | .null | .integer _ | .boolean _ | .string _ | .builtin _ =>
    simp [Value.pieces, Value.inspect, String.join_cons]
  | .array _ elements =>
    simp only [Value.pieces, Value.inspect, String.join_cons, join_append, join_separatedPieces,
      join_piecesOfValues elements, String.join_nil, String.append_empty, String.append_assoc]
  | .hash _ entries =>
    simp only [Value.pieces, Value.inspect, String.join_cons, join_append, join_separatedPieces,
      join_piecesOfEntries entries, String.join_nil, String.append_empty, String.append_assoc]
  | .function _ ⟨_, parameters, body⟩ _ =>
    have hnames : (parameters.map fun name => [name.text]).map String.join =
        parameters.map Name.text := by
      rw [List.map_map]
      exact List.map_congr_left fun name _ => by simp [String.join_cons]
    simp only [Value.pieces, Value.inspect, String.join_cons, join_append, join_separatedPieces,
      hnames, String.join_nil, String.append_empty, String.append_assoc]

/-- The pieces of some values, one text for each of them, are their texts. -/
theorem join_piecesOfValues (values : List Value) :
    (piecesOfValues values).map String.join = inspectValues values := by
  match values with
  | [] => rfl
  | value :: rest =>
    rw [piecesOfValues, List.map_cons, value.join_pieces, join_piecesOfValues rest, inspectValues]

/-- The pieces of some entries are their texts. -/
theorem join_piecesOfEntries (entries : List Entry) :
    (piecesOfEntries entries).map String.join = inspectEntries entries := by
  match entries with
  | [] => rfl
  | entry :: rest =>
    rw [piecesOfEntries, List.map_cons, entry.join_pieces, join_piecesOfEntries rest,
      inspectEntries]

/-- The pieces of an entry are its text. -/
theorem Entry.join_pieces (entry : Entry) : String.join entry.pieces = entry.inspect := by
  match entry with
  | ⟨_, name, value⟩ =>
    rw [Entry.pieces, Entry.inspect, join_append, String.join_cons, name.join_pieces,
      value.join_pieces, String.append_assoc]

end

/-- The text that `puts` writes. -/
def putsText (values : List Value) : String :=
  String.join (values.map fun value => value.inspect ++ "\n")

/-- The pieces in which `puts` writes it. -/
def putsPieces (values : List Value) : List String :=
  values.flatMap fun value => value.pieces ++ ["\n"]

/-- The pieces that `puts` writes make up its text. -/
theorem join_putsPieces (values : List Value) : String.join (putsPieces values) = putsText values := by
  induction values with
  | nil => rfl
  | cons value rest ih =>
    have hpieces : putsPieces (value :: rest) = value.pieces ++ ["\n"] ++ putsPieces rest := rfl
    have htext : putsText (value :: rest) = value.inspect ++ "\n" ++ putsText rest := by
      rw [putsText, List.map_cons, String.join_cons]
      rfl
    rw [hpieces, htext, join_append, join_append, value.join_pieces, ih]
    simp [String.join_cons]

/-- Its bytes are those that have been counted before. -/
theorem encode_putsText (values : List Value) : Text.encode (putsText values) = putsBytes values := by
  induction values with
  | nil => rfl
  | cons value rest ih =>
    rw [putsText, List.map_cons, String.join_cons, Text.encode_append]
    exact congrArg (Text.encode (value.inspect ++ "\n") ++ ·) ih

/-! ## Writing piece by piece -/

namespace Console

variable {console : Console} {capacity : Nat}

/-- Writes the pieces of a text, up to the first that does not fit. -/
def writePieces : List String → Console → Except OutputFault Unit × Console
  | [], console => (.ok (), console)
  | piece :: rest, console =>
    match console.write piece with
    | (.ok (), console) => console.writePieces rest
    | (.error fault, console) => (.error fault, console)

/-- Without a capacity there is room for anything. -/
theorem room_of_none (h : console.capacity = none) (wanted : Nat) :
    console.room wanted = wanted := by
  rw [room, h]

/-- With one there is as much room as is left of it. -/
theorem room_of_some (h : console.capacity = some capacity) (wanted : Nat) :
    console.room wanted = min wanted (capacity - console.written.size) := by
  rw [room, h]

/-- What is put is written whole. -/
theorem size_put (bytes : List UInt8) (console : Console) :
    (console.put bytes).written.size = console.written.size + bytes.length := by
  rw [written_put, ← Array.length_toList, Array.toList_appendList, List.length_append,
    Array.length_toList]

/-- No more is written than there is to write. -/
theorem room_le (wanted : Nat) (console : Console) : console.room wanted ≤ wanted := by
  cases hcapacity : console.capacity with
  | none => exact (room_of_none hcapacity wanted).le
  | some capacity =>
    rw [room_of_some hcapacity]
    exact Nat.min_le_left _ _

/-- Behind bytes that fit there is room for as many fewer. -/
theorem room_add_of_fits {bytes : List UInt8} (h : bytes.length ≤ console.room bytes.length)
    (more : Nat) :
    console.room (bytes.length + more) = bytes.length + (console.put bytes).room more := by
  cases hcapacity : console.capacity with
  | none =>
    have hput : (console.put bytes).capacity = none := hcapacity
    rw [room_of_none hcapacity, room_of_none hput]
  | some capacity =>
    have hput : (console.put bytes).capacity = some capacity := hcapacity
    rw [room_of_some hcapacity] at h ⊢
    rw [room_of_some hput, size_put]
    omega

/-- Where bytes do not fit there is no more room for more. -/
theorem room_add_of_not_fits {wanted : Nat} (h : ¬ wanted ≤ console.room wanted) (more : Nat) :
    console.room (wanted + more) = console.room wanted := by
  cases hcapacity : console.capacity with
  | none => exact absurd (room_of_none hcapacity wanted).ge h
  | some capacity =>
    rw [room_of_some hcapacity] at h ⊢
    rw [room_of_some hcapacity]
    omega

/-- A text that fits is written whole. -/
theorem write_of_fits {text : String}
    (h : (Text.encode text).length ≤ console.room (Text.encode text).length) :
    console.write text = (.ok (), console.put (Text.encode text)) := by
  have hroom := Nat.le_antisymm (console.room_le _) h
  simp only [write, hroom, Nat.le_refl, if_true, List.take_length]
  rfl

/-- A text that does not is written as far as there is room, and the write fails. -/
theorem write_of_not_fits {text : String}
    (h : ¬ (Text.encode text).length ≤ console.room (Text.encode text).length) :
    console.write text = (.error .full,
      console.put ((Text.encode text).take (console.room (Text.encode text).length))) := by
  simp only [write, if_neg h]
  rfl

/-- A text may be written in two pieces. -/
theorem write_append (text other : String) (console : Console) :
    console.write (text ++ other) =
      match console.write text with
      | (.ok (), next) => next.write other
      | (.error fault, next) => (.error fault, next) := by
  by_cases hfits : (Text.encode text).length ≤ console.room (Text.encode text).length
  · rw [write_of_fits hfits]
    have hroom := room_add_of_fits hfits (Text.encode other).length
    simp only [write, Text.encode_append, List.length_append, hroom, Nat.add_le_add_iff_left,
      List.take_length_add_append]
    congr 1
    simp only [put, append_listAppend]
  · rw [write_of_not_fits hfits]
    have hroom := room_add_of_not_fits hfits (Text.encode other).length
    have hless : ¬ (Text.encode text).length + (Text.encode other).length ≤
        console.room (Text.encode text).length := by omega
    simp only [write, Text.encode_append, List.length_append, hroom, if_neg hless,
      List.take_append_of_le_length (console.room_le _)]
    rfl

/-- The empty text fits everywhere, a full console included. -/
theorem write_empty (console : Console) : console.write "" = (.ok (), console) := by
  have hempty : Text.encode "" = [] := by decide
  have hfits : (Text.encode "").length ≤ console.room (Text.encode "").length := by
    rw [hempty]
    exact Nat.zero_le _
  rw [write_of_fits hfits, hempty, put_nil]

/-- Writing the pieces of a text is as good as writing the text. -/
theorem writePieces_eq (pieces : List String) (console : Console) :
    console.writePieces pieces = console.write (String.join pieces) := by
  induction pieces generalizing console with
  | nil => exact (write_empty console).symm
  | cons piece rest ih =>
    rw [String.join_cons, write_append, writePieces]
    split
    next next eq => exact ih next
    next => rfl

/-- Lines are pieces, too. -/
theorem writeLines_eq (texts : List String) (console : Console) :
    console.writeLines texts = console.writePieces (texts.map (· ++ "\n")) := by
  induction texts generalizing console with
  | nil => rfl
  | cons text rest ih =>
    rw [writeLines, List.map_cons, writePieces]
    rcases console.write (text ++ "\n") with ⟨_ | _, next⟩
    · rfl
    · exact ih next

end Console

/-- What `puts` does to a console: it writes its text, and then passes it on. -/
theorem writeValues_eq (values : List Value) (console : Console) :
    writeValues values console =
      match console.write (putsText values) with
      | (.ok (), next) => (next.flush, next)
      | (.error fault, next) => (.error fault, next) := by
  rw [writeValues, Console.writeLines_eq, Console.writePieces_eq, List.map_map]
  rfl

/-! ## What is stored -/

/-- Whether some bytes are the longest front of others that fits into a capacity. -/
structure LongestFront (capacity : Nat) (whole stored : List UInt8) : Prop where
  front : stored <+: whole
  fits : stored.length ≤ capacity
  longest : ∀ other, other <+: whole → other.length ≤ capacity → other <+: stored

/-- So the longest front is computed by counting. -/
theorem longestFront_iff {capacity : Nat} {whole stored : List UInt8} :
    LongestFront capacity whole stored ↔ stored = whole.take capacity := by
  constructor
  · intro h
    have hback := h.longest _ (List.take_prefix capacity whole) (List.length_take_le _ _)
    have hthere := List.prefix_take_iff.mpr ⟨h.front, h.fits⟩
    exact hthere.eq_of_length_le hback.length_le
  · rintro rfl
    exact ⟨List.take_prefix _ _, List.length_take_le _ _,
      fun _ hfront hfits => List.prefix_take_iff.mpr ⟨hfront, hfits⟩⟩

/-- What does not fit makes no difference to what is stored later. -/
theorem take_append_take {α : Type} (capacity : Nat) (whole more : List α) :
    (whole.take capacity ++ more).take capacity = (whole ++ more).take capacity := by
  by_cases hfits : whole.length ≤ capacity
  · rw [List.take_of_length_le hfits]
  · have hlength : capacity ≤ (whole.take capacity).length := by
      rw [List.length_take]
      omega
    rw [List.take_append_of_le_length hlength, List.take_append_of_le_length (by omega),
      List.take_take, Nat.min_self]

/-- Whether output has a capacity, and the longest front that fits is stored of some bytes. -/
structure Console.Holds (capacity : Nat) (all : List UInt8) (console : Console) : Prop where
  limit : console.capacity = some capacity
  stored : LongestFront capacity all console.written.toList

/-- The console with some more bytes stored behind those written, as far as they fit. -/
def Console.store (capacity : Nat) (bytes : List UInt8) (console : Console) : Console :=
  { console with written := ((console.written.toList ++ bytes).take capacity).toArray }

namespace Console.Holds

variable {console : Console} {capacity : Nat} {all : List UInt8}

/-- Storing more keeps the longest front of all. -/
theorem store (h : console.Holds capacity all) (bytes : List UInt8) :
    (console.store capacity bytes).Holds capacity (all ++ bytes) where
  limit := h.limit
  stored := by
    have hstored := longestFront_iff.mp h.stored
    refine longestFront_iff.mpr ?_
    rw [← take_append_take, ← hstored]
    rfl

/-- Reading stores nothing. -/
theorem readLine (h : console.Holds capacity all) : console.readLine.2.Holds capacity all :=
  ⟨h.limit, h.stored⟩

/-- Of a text there is written as much as fits. -/
theorem write (h : console.Holds capacity all) (text : String) :
    console.write text =
      (if (console.written.toList ++ Text.encode text).length ≤ capacity then .ok ()
        else .error .full, console.store capacity (Text.encode text)) := by
  have hfits : console.written.toList.length ≤ capacity := h.stored.fits
  have hroom : console.room (Text.encode text).length =
      min (Text.encode text).length (capacity - console.written.toList.length) :=
    room_of_some h.limit _
  have hbytes : console.written ++
      (Text.encode text).take (console.room (Text.encode text).length) =
        ((console.written.toList ++ Text.encode text).take capacity).toArray := by
    refine Array.ext' ?_
    rw [Array.toList_appendList, List.take_append, List.take_of_length_le hfits, hroom,
      Nat.min_comm, ← List.take_eq_take_min]
  have hiff : (Text.encode text).length ≤ console.room (Text.encode text).length ↔
      (console.written.toList ++ Text.encode text).length ≤ capacity := by
    rw [hroom, List.length_append]
    omega
  simp only [Console.write, hbytes, hiff]
  rfl

/-- What `puts` does to a console. -/
theorem writeValues (h : console.Holds capacity all) (values : List Value) :
    writeValues values console =
      (if (console.written.toList ++ putsBytes values).length ≤ capacity then console.flush
        else .error .full, console.store capacity (putsBytes values)) := by
  rw [writeValues_eq, h.write, encode_putsText]
  by_cases hfits : (console.written.toList ++ putsBytes values).length ≤ capacity
  · rw [if_pos hfits, if_pos hfits]
    rfl
  · rw [if_neg hfits, if_neg hfits]

end Console.Holds

/-! ## Dialogues -/

/-- What a request writes is stored as far as it fits. -/
theorem Request.holds_answer (request : Request) {console : Console} {capacity : Nat}
    {all : List UInt8} (h : console.Holds capacity all) :
    (request.answer console).2.Holds capacity (all ++ request.output) := by
  have hsilent : ∀ {next : Console}, next.Holds capacity all →
      next.Holds capacity (all ++ []) := fun hnext => by rwa [List.append_nil]
  cases request with
  | write text =>
    rw [answer, h.write text]
    exact h.store _
  | flush => exact hsilent h
  | line => exact hsilent h.readLine
  | native files operation arguments machine =>
    by_cases hputs : operation = .puts
    · subst hputs
      rw [answer_puts, h.writeValues]
      exact h.store _
    · rw [output_native_of_ne hputs]
      rcases native_cases files operation arguments with rfl | ⟨rfl, rfl⟩ | ⟨hblind, _⟩
      · exact absurd rfl hputs
      · rw [answer_readline]
        exact hsilent h.readLine
      · rw [answer_of_blind hblind]
        exact hsilent h

/-- All that is written in a dialogue is stored as far as it fits. -/
theorem Dialogue.holds_run {ρ : Type} (dialogue : Dialogue ρ) {console : Console} {capacity : Nat}
    {all : List UInt8} (h : console.Holds capacity all) :
    (dialogue.run console).2.Holds capacity
      (all ++ (dialogue.trace console).flatMap fun exchange => exchange.request.output) := by
  induction dialogue generalizing console all with
  | ended result => exact (List.append_nil all).symm ▸ h
  | ask request next ih =>
    have hrest := ih (request.answer console).1 (request.holds_answer h)
    rw [List.append_assoc] at hrest
    exact hrest

/-- Whether a computation stores what it writes as far as it fits.  There is a dialogue that leads
it, making allowed requests only, and whatever dialogue leads it, of the bytes written before and
those that are written in the dialogue, in order, the longest front that fits is stored. -/
structure FillsOutput (allowed : Request → Prop) (bound : ℕ∞) {ε σ α : Type} [HasConsole σ]
    (run : EStateM ε σ α) : Prop where
  talks : Talks allowed bound run
  fills : ∀ (state : σ) (dialogue : Dialogue (EStateM.Result ε σ α)),
    dialogue.Leads bound run state → ∀ (console : Console) (capacity : Nat) (earlier : List UInt8),
      console.Holds capacity earlier → (console.input.length : ℕ∞) ≤ bound →
      (endingConsole (run (HasConsole.put console state))).Holds capacity
        (earlier ++ (dialogue.trace console).flatMap fun exchange => exchange.request.output)

/-- Every dialogue fills the output. -/
theorem Talks.fillsOutput {allowed : Request → Prop} {bound : ℕ∞} {ε σ α : Type} [HasConsole σ]
    {run : EStateM ε σ α} (h : Talks allowed bound run) : FillsOutput allowed bound run where
  talks := h
  fills := fun state dialogue leads console capacity earlier holds hfits => by
    rw [leads console hfits, endingConsole_putConsole]
    exact dialogue.holds_run holds

/-! ## Calls of `puts` -/

/-- The machine with other bytes on its output. -/
def Machine.withWritten (bytes : Array UInt8) (machine : Machine) : Machine :=
  { machine with console := { machine.console with written := bytes } }

/-- Whether all that `puts` writes fits behind what is stored. -/
def Console.Fits (capacity : Nat) (values : List Value) (console : Console) : Prop :=
  (console.written.toList ++ putsBytes values).length ≤ capacity

instance (capacity : Nat) (values : List Value) (console : Console) :
    Decidable (console.Fits capacity values) :=
  inferInstanceAs (Decidable (_ ≤ _))

/-- How a call of `puts` goes when some bytes have been written before, and the output has a
capacity.  In the end some bytes are stored, and nothing else of the machine has changed. -/
structure PutsStores (capacity : Nat) (earlier : List UInt8) (values : List Value)
    (machine : Machine) (stored : Array UInt8) (ending : EStateM.Result Halt Machine Value) :
    Prop where
  /-- the text is written behind the earlier bytes, as far as it fits -/
  holds : LongestFront capacity (earlier ++ putsBytes values) stored.toList
  /-- the result is null just if all of the text fits and is passed on -/
  succeeds : ending = .ok .null (machine.withWritten stored) ↔
    machine.console.Fits capacity values ∧ machine.console.flushFails = false
  /-- otherwise the call fails, and says why -/
  fails : ¬ (machine.console.Fits capacity values ∧ machine.console.flushFails = false) →
    ∃ fault, ending = .error (.fault (.output fault)) (machine.withWritten stored) ∧
      (Fault.output fault).message = "could not write output: " ++ fault.message ∧
      fault = if machine.console.Fits capacity values then .flush else .full

/-- A call that fails returns no null, so that there is only its fault to tell. -/
theorem PutsStores.of_error {capacity : Nat} {earlier : List UInt8} {values : List Value}
    {machine : Machine} {stored : Array UInt8} {ending : EStateM.Result Halt Machine Value}
    {fault : OutputFault} (holds : LongestFront capacity (earlier ++ putsBytes values) stored.toList)
    (hending : ending = .error (.fault (.output fault)) (machine.withWritten stored))
    (hnot : ¬ (machine.console.Fits capacity values ∧ machine.console.flushFails = false))
    (hfault : fault = if machine.console.Fits capacity values then .flush else .full) :
    PutsStores capacity earlier values machine stored ending where
  holds := holds
  succeeds := iff_of_false (fun hok => by rw [hending] at hok; cases hok) hnot
  fails := fun _ => ⟨fault, hending, rfl, hfault⟩

/-- Any call of `puts`, behind any bytes. -/
theorem putsStores_run {capacity : Nat} {earlier : List UInt8} {machine : Machine}
    (h : machine.console.Holds capacity earlier) (files : Files) (values : List Value) :
    ∃ stored, PutsStores capacity earlier values machine stored
      (Intrinsic.puts.run files values machine) := by
  have hstored := (h.store (putsBytes values)).stored
  have hrun : Intrinsic.puts.run files values machine =
      putConsole (machine.console.store capacity (putsBytes values))
        (putsEnding machine (if machine.console.Fits capacity values then machine.console.flush
          else .error .full)) := by
    rw [run_puts, h.writeValues]
    rfl
  by_cases hfits : machine.console.Fits capacity values
  · rw [if_pos hfits, Console.flush] at hrun
    cases hflush : machine.console.flushFails with
    | false =>
      rw [hflush] at hrun
      exact ⟨_, hstored, iff_of_true hrun ⟨hfits, hflush⟩, fun hnot => absurd ⟨hfits, hflush⟩ hnot⟩
    | true =>
      rw [hflush] at hrun
      exact ⟨_, .of_error hstored hrun (by simp [hflush]) (if_pos hfits).symm⟩
  · rw [if_neg hfits] at hrun
    exact ⟨_, .of_error hstored hrun (fun hboth => hfits hboth.1) (if_neg hfits).symm⟩

/-- Output with a capacity, whatever has been written before and whatever is written.  A call of
`puts` stores the longest front of the earlier bytes and its text that fits, and changes nothing
else; it returns null if and only if all of its text fits and is passed on, and otherwise fails and
says why (`PutsStores`).  The next call goes on behind that.

A text may be written in any pieces, such as those that values are made of however they are nested:
the first piece that fails ends the writing, and the result is that of writing the text at once.

Nor does it matter what else is done between calls of `puts`, in evaluations, programs and sessions:
what is stored in the end is the longest front that fits of all that they write, in order
(`FillsOutput`). -/
theorem puts_fills (files : Files) :
    (∀ (capacity : Nat) (earlier : List UInt8) (machine : Machine),
      machine.console.Holds capacity earlier → ∀ values : List Value,
        ∃ stored, PutsStores capacity earlier values machine stored
            (Intrinsic.puts.run files values machine) ∧
          (machine.withWritten stored).console.Holds capacity (earlier ++ putsBytes values) ∧
          ∀ later : List Value, ∃ stored', PutsStores capacity (earlier ++ putsBytes values) later
            (machine.withWritten stored) stored'
            (Intrinsic.puts.run files later (machine.withWritten stored))) ∧
    (∀ (values : List Value) (pieces : List String), String.join pieces = putsText values →
      ∀ console : Console, writeValues values console =
        match console.writePieces pieces with
        | (.ok (), next) => (next.flush, next)
        | (.error fault, next) => (.error fault, next)) ∧
    (∀ values : List Value, String.join (putsPieces values) = putsText values ∧
      Text.encode (putsText values) = putsBytes values) ∧
    (∀ (setup : Setup) (frame : FrameId) (roots : Roots),
      (∀ expression, FillsOutput (fun request => request.isNative = true) ⊤
        (evalExpression setup (invokeWithin setup setup.callDepth) frame roots expression)) ∧
      (∀ statement, FillsOutput (fun request => request.isNative = true) ⊤
        (execute setup frame roots statement)) ∧
      (∀ program, FillsOutput (fun request => request.isNative = true) ⊤
        (modifyGet (runProgram setup frame roots program) : Eval Outcome)) ∧
      ∀ callee arguments, FillsOutput (fun request => request.isNative = true) ⊤
        (applyCallable setup roots callee arguments)) ∧
    ∀ (bytes : Nat) (commands : List Command), FillsOutput (fun _ => True) bytes
      (modifyGet (Session.performAll commands) : Step (List (Except Mistake Answer))) := by
  refine ⟨fun capacity earlier machine holds values => ?_, fun values pieces hjoin console => ?_,
    fun values => ⟨join_putsPieces values, encode_putsText values⟩,
    fun setup frame roots => ⟨fun expression => ?_, fun statement => ?_, fun program => ?_,
      fun callee arguments => ?_⟩, fun bytes commands => ?_⟩
  · obtain ⟨stored, hputs⟩ := putsStores_run holds files values
    have hnext : (machine.withWritten stored).console.Holds capacity
        (earlier ++ putsBytes values) := ⟨holds.limit, hputs.holds⟩
    exact ⟨stored, hputs, hnext, putsStores_run hnext files⟩
  · rw [console.writePieces_eq, hjoin]
    exact writeValues_eq values console
  · exact (talks_expression (onlyCalls_invokeWithin setup _) expression frame roots).fillsOutput
  · exact (talks_execute setup frame roots statement).fillsOutput
  · exact (talks_runProgram setup frame roots program).fillsOutput
  · exact (talks_applyCallable setup roots callee arguments).fillsOutput
  · exact (speaks_performAll bytes commands).fillsOutput

/-- A machine with room for three more bytes behind the two that have been written. -/
def narrow : Machine := .ofConsole ⟨[], #[97, 10], some 5, false, none⟩

/-- An array in an array is cut where the room ends, and nothing is written behind that. -/
theorem puts_fills_narrow :
    ∃ stored, stored.toList = Text.encode "a\n[1," ∧
      Intrinsic.puts.run fileless.files
          [.array ⟨0⟩ [.integer 1, .array ⟨1⟩ [.integer 2]], .boolean true] narrow =
        .error (.fault (.output .full)) (narrow.withWritten stored) ∧
      Intrinsic.puts.run fileless.files [.null] (narrow.withWritten stored) =
        .error (.fault (.output .full)) (narrow.withWritten stored) ∧
      Intrinsic.puts.run fileless.files [] (narrow.withWritten stored) =
        .ok .null (narrow.withWritten stored) := by
  have hholds : narrow.console.Holds 5 (Text.encode "a\n") :=
    ⟨rfl, longestFront_iff.mpr (by decide)⟩
  obtain ⟨stored, hputs, hnext, hlater⟩ := (puts_fills fileless.files).1 5 _ narrow hholds
    [.array ⟨0⟩ [.integer 1, .array ⟨1⟩ [.integer 2]], .boolean true]
  have hstored : stored.toList = Text.encode "a\n[1," := by
    rw [longestFront_iff.mp hputs.holds]
    decide +kernel
  obtain rfl : stored = #[97, 10, 91, 49, 44] := Array.ext' (hstored.trans (by decide +kernel))
  refine ⟨_, hstored, ?_, ?_, ?_⟩
  · obtain ⟨fault, hending, -, hfault⟩ := hputs.fails (by decide +kernel)
    have hfull : fault = .full := hfault.trans (if_neg (by decide +kernel))
    rw [hending, hfull]
  · obtain ⟨stored', hputs'⟩ := hlater [.null]
    have hsame : stored' = #[97, 10, 91, 49, 44] :=
      Array.ext' ((longestFront_iff.mp hputs'.holds).trans (by decide +kernel))
    obtain ⟨fault, hending, -, hfault⟩ := hputs'.fails (by decide +kernel)
    have hfull : fault = .full := hfault.trans (if_neg (by decide +kernel))
    rw [hending, hfull, hsame]
    rfl
  · obtain ⟨stored', hputs'⟩ := hlater []
    have hsame : stored' = #[97, 10, 91, 49, 44] :=
      Array.ext' ((longestFront_iff.mp hputs'.holds).trans (by decide +kernel))
    rw [hputs'.succeeds.mpr (by decide +kernel), hsame]
    rfl

end Scriptlet
