import Scriptlet.Proofs.Console.Dialogue

set_option autoImplicit false

/-!
# Output that never fails

Component: the context of input and output.  Specification: section 10.6, where the default of that
context is the standard output, which has no bound.

Where output has no bound and flushing succeeds, all that is written arrives, and nothing that is
asked of a console is answered by how much has been written before.  So a dialogue goes the same way
on any two such consoles with the same input, writes the same on both (`Dialogue.run_of_input`), and
if it takes no line the input does not matter either (`Dialogue.run_of_silent`).

The answer to a request depends on what has been written before only by way of the room that is
left.  Where there is always room, a dialogue can be moved to another console, as long as that
answers the same lines; this is how a program that is run by the prompt is compared with the same
program run as a script.
-/

namespace Scriptlet

/-! ## Consoles -/

/-- Bytes are appended in two steps as in one. -/
theorem append_listAppend (bytes : Array UInt8) (first second : List UInt8) :
    bytes ++ (first ++ second) = bytes ++ first ++ second :=
  Array.ext' (by simp only [Array.toList_appendList, List.append_assoc])

/-- Whether output never fails. -/
structure Console.Free (console : Console) : Prop where
  unbounded : console.capacity = none
  passing : console.flushFails = false

namespace Console

/-- The console with some more bytes written. -/
def put (bytes : List UInt8) (console : Console) : Console :=
  { console with written := console.written ++ bytes }

/-- What is put stands behind what has been written. -/
@[simp] theorem written_put (bytes : List UInt8) (console : Console) :
    (console.put bytes).written = console.written ++ bytes := rfl

/-- To put nothing changes nothing. -/
theorem put_nil (console : Console) : console.put [] = console := by
  simp [put]

/-- Bytes are put in two steps as in one. -/
theorem put_append (bytes more : List UInt8) (console : Console) :
    console.put (bytes ++ more) = (console.put bytes).put more := by
  simp only [put, append_listAppend]

namespace Free

variable {console : Console}

/-- Writing does not make output fail. -/
theorem put (h : console.Free) (bytes : List UInt8) : (console.put bytes).Free :=
  ⟨h.unbounded, h.passing⟩

/-- Neither does reading. -/
theorem readLine (h : console.Free) : console.readLine.2.Free := ⟨h.unbounded, h.passing⟩

/-- All of a text is written. -/
theorem write (h : console.Free) (text : String) :
    console.write text = (.ok (), console.put (Text.encode text)) := by
  have hroom : console.room (Text.encode text).length = (Text.encode text).length := by
    rw [room, h.unbounded]
  simp only [Console.write, hroom, Nat.le_refl, if_true, List.take_length]
  rfl

/-- So are all of some lines. -/
theorem writeLines (h : console.Free) (texts : List String) :
    console.writeLines texts =
      (.ok (), console.put (texts.flatMap fun text => Text.encode (text ++ "\n"))) := by
  induction texts generalizing console with
  | nil => rw [Console.writeLines, List.flatMap_nil, put_nil]
  | cons text rest ih =>
    rw [Console.writeLines, h.write (text ++ "\n")]
    simp only [ih (h.put _), List.flatMap_cons, put_append]

/-- Passing on succeeds. -/
theorem flush (h : console.Free) : console.flush = .ok () := by
  rw [Console.flush, h.passing]
  rfl

end Free

end Console

/-- The bytes that `puts` writes. -/
def putsBytes (values : List Value) : List UInt8 :=
  values.flatMap fun value => Text.encode (value.inspect ++ "\n")

/-- So `puts` writes all of its arguments. -/
theorem Console.Free.writeValues {console : Console} (h : console.Free) (values : List Value) :
    writeValues values console = (.ok (), console.put (putsBytes values)) := by
  rw [Scriptlet.writeValues, h.writeLines]
  simp only [(h.put _).flush, List.flatMap_map]
  rfl

/-! ## Requests -/

namespace Request

/-- What a request writes. -/
def output : Request → List UInt8
  | .native _ .puts arguments _ => putsBytes arguments
  | .write text => Text.encode text
  | .native .. | .flush | .line => []

variable {console other : Console}

/-- No other native function writes. -/
theorem output_native_of_ne {operation : Intrinsic} (h : operation ≠ .puts) (files : Files)
    (arguments : List Value) (machine : Machine) :
    (native files operation arguments machine).output = [] := by
  cases operation <;> first
    | rfl
    | exact absurd rfl h

/-- All that a request writes arrives. -/
theorem free_answer (request : Request) (h : console.Free) :
    (request.answer console).2.Free ∧
      (request.answer console).2.written = console.written ++ request.output := by
  have hsilent : console.written = console.written ++ ([] : List UInt8) := by simp
  cases request with
  | write text =>
    rw [answer, h.write text]
    exact ⟨h.put _, rfl⟩
  | flush => exact ⟨h, hsilent⟩
  | line => exact ⟨h.readLine, hsilent⟩
  | native files operation arguments machine =>
    by_cases hputs : operation = .puts
    · subst hputs
      rw [answer_puts, h.writeValues]
      exact ⟨h.put _, rfl⟩
    · rw [output_native_of_ne hputs]
      rcases native_cases files operation arguments with rfl | ⟨rfl, rfl⟩ | ⟨hblind, _⟩
      · exact absurd rfl hputs
      · rw [answer_readline]
        exact ⟨h.readLine, hsilent⟩
      · rw [answer_of_blind hblind]
        exact ⟨h, hsilent⟩

/-- How `puts` ends does not depend on the console of the machine. -/
theorem putsEnding_put (console : Console) (machine : Machine)
    (answer : Except OutputFault Unit) :
    putsEnding (HasConsole.put console machine) answer =
      putConsole console (putsEnding machine answer) := by
  cases answer <;> rfl

/-- Nor does how `readline` ends. -/
theorem readlineEnding_put (console : Console) (machine : Machine)
    (answer : Except InputFault String) :
    readlineEnding (HasConsole.put console machine) answer =
      putConsole console (readlineEnding machine answer) := by
  cases answer <;> rfl

/-- What is answered does not depend on what has been written. -/
theorem answer_eq_of_free (request : Request) (h : console.Free) (h' : other.Free)
    (hline : request.reads = true →
      (Console.splitLine other.input).1 = (Console.splitLine console.input).1) :
    (request.answer other).1 = (request.answer console).1 := by
  have hread : (Console.splitLine other.input).1 = (Console.splitLine console.input).1 →
      other.readLine.1 = console.readLine.1 := fun hsame => by
    simp only [Console.readLine, hsame]
  cases request with
  | write text => rw [answer, answer, h.write, h'.write]
  | flush =>
    simp only [answer, h.flush, h'.flush]
    rfl
  | line => exact hread (hline rfl)
  | native files operation arguments machine =>
    rcases native_cases files operation arguments with rfl | ⟨rfl, rfl⟩ | ⟨hblind, _⟩
    · rw [answer_puts, answer_puts, h.writeValues, h'.writeValues, putsEnding_put, putsEnding_put]
      rfl
    · rw [answer_readline, answer_readline, hread (hline rfl), readlineEnding_put,
        readlineEnding_put]
      cases console.readLine.1 <;> rfl
    · rw [answer_of_blind hblind, answer_of_blind hblind]

end Request

/-! ## Dialogues -/

namespace Dialogue

variable {ρ : Type} {console other : Console}

/-- All that is written in a dialogue arrives. -/
theorem free_run (dialogue : Dialogue ρ) (h : console.Free) :
    (dialogue.run console).2.Free ∧
      (dialogue.run console).2.written = console.written ++
        (dialogue.trace console).flatMap fun exchange => exchange.request.output := by
  induction dialogue generalizing console with
  | ended result => exact ⟨h, by simp [run, trace]⟩
  | ask request next ih =>
    obtain ⟨hfree, hwritten⟩ := request.free_answer h
    obtain ⟨hfree', hwritten'⟩ := ih (request.answer console).1 hfree
    refine ⟨hfree', hwritten'.trans ?_⟩
    rw [hwritten, ← append_listAppend]
    rfl

/-- A dialogue goes the same way on consoles with the same input. -/
theorem run_of_input (dialogue : Dialogue ρ) (h : console.Free) (h' : other.Free)
    (hinput : other.input = console.input) :
    (dialogue.run other).1 = (dialogue.run console).1 ∧
      dialogue.trace other = dialogue.trace console ∧
      (dialogue.run other).2.input = (dialogue.run console).2.input := by
  induction dialogue generalizing console other with
  | ended result => exact ⟨rfl, rfl, hinput⟩
  | ask request next ih =>
    have hanswer := request.answer_eq_of_free h h' fun _ => by rw [hinput]
    have hrest : (request.answer other).2.input = (request.answer console).2.input := by
      rw [request.input_answer, request.input_answer, hinput]
    obtain ⟨hrun, htrace, hleft⟩ := ih (request.answer console).1 (request.free_answer h).1
      (request.free_answer h').1 hrest
    simp only [run, trace, hanswer, hinput]
    exact ⟨hrun, congrArg _ htrace, hleft⟩

/-- A dialogue that takes no line goes the same way on all consoles. -/
theorem run_of_silent (dialogue : Dialogue ρ) (h : console.Free) (h' : other.Free)
    (silent : ∀ exchange ∈ dialogue.trace console, exchange.request.reads = false) :
    (dialogue.run other).1 = (dialogue.run console).1 ∧
      dialogue.trace other = dialogue.trace console ∧
      (dialogue.run other).2.input = other.input := by
  induction dialogue generalizing console other with
  | ended result => exact ⟨rfl, rfl, rfl⟩
  | ask request next ih =>
    obtain ⟨hfirst, hlater⟩ := List.forall_mem_cons.mp silent
    have hreads : request.reads = false := hfirst
    have hanswer := request.answer_eq_of_free h h' fun hread => by rw [hreads] at hread; cases hread
    obtain ⟨hrun, htrace, hleft⟩ := ih (request.answer console).1 (request.free_answer h).1
      (request.free_answer h').1 hlater
    have hinput : (request.answer other).2.input = other.input := by
      rw [request.input_answer, hreads]
      rfl
    simp only [run, trace, hanswer, hreads]
    exact ⟨hrun, congrArg _ htrace, hleft.trans hinput⟩

end Dialogue

end Scriptlet
