import Scriptlet.Proofs.Console.Conserved
import Scriptlet.Proofs.Console.Output

set_option autoImplicit false

/-!
# Conversations, turn by turn

Component: the prompt.  Specification: section 6 on the loop that parses and evaluates one line at a
time, and section 10.10, by which `exit`, `quit` or the end of the input leaves it.

`Repl.Conversation` says what a conversation is, apart from how the console is shared: lines are
heard one after the other until the input ends or one of them leaves, and each of the others is
answered, where the machine that the answer leaves is the one that hears the next line.  What the
prompt writes is told in the log of the turns only; on the console of the machine there is just what
programs have written.

Everything is proved of one turn first (`Takes`), and of conversations by induction.

A turn records the line that was heard, what the program in it asked of the console, and what was
shown.  From that all else is told: the lines that the turn has used up (`Turn.lines`), what was put
by the program (`Turn.put`) and all that was written, the prompt included (`Turn.said`).

A conversation is determined by its machine up to the dialogues of its programs, and it exists
whenever the lines are texts (`exists_conversation`).  Bytes that are not a text end the prompt with
a fault; that case is excluded here and not told.
-/

namespace Scriptlet

namespace Text

/-- Bytes that are a text are its bytes. -/
theorem encode_of_decode? {bytes : List UInt8} {text : String} (h : decode? bytes = some text) :
    encode text = bytes := by
  unfold decode? String.fromUTF8? at h
  split at h
  · cases h
    rfl
  · cases h

end Text

/-- Every line has at least one byte. -/
theorem ne_nil_of_mem_splitLines {input line : List UInt8} (h : line ∈ splitLines input) :
    line ≠ [] := by
  induction hlength : input.length using Nat.strong_induction_on generalizing input with
  | _ length ih =>
    by_cases hempty : input = []
    · rw [hempty] at h
      exact absurd h List.not_mem_nil
    · rw [splitLines_eq_cons hempty] at h
      rcases List.mem_cons.mp h with rfl | h
      · exact Console.splitLine_fst_ne_nil hempty
      · exact ih _ (hlength ▸ Console.length_splitLine_lt hempty) h rfl

/-- There are no more lines than bytes. -/
theorem length_splitLines_le (input : List UInt8) : (splitLines input).length ≤ input.length := by
  induction input with
  | nil => exact Nat.le_refl _
  | cons byte rest ih =>
    rw [splitLines]
    split
    · exact Nat.succ_le_succ ih
    · generalize splitLines rest = lines at ih
      cases lines with
      | nil => exact Nat.succ_le_succ (Nat.zero_le _)
      | cons => exact Nat.le_succ_of_le ih

/-- The lines that were handed out, but for the empty ones at the end, are the front of the lines of
the input. -/
theorem Conserves.splitLines_eq {exchanges : List Exchange} {before after : Console}
    (h : Conserves exchanges before after) :
    splitLines before.input =
      (exchanges.filterMap Exchange.line).filter (fun line => !line.isEmpty) ++
        splitLines after.input := by
  obtain ⟨taken, ends, hlines, hsplit, _⟩ := h.lines
  have htaken : taken.filter (fun line => !line.isEmpty) = taken := by
    refine List.filter_eq_self.mpr fun line hmem => ?_
    have hne := ne_nil_of_mem_splitLines (hsplit ▸ List.mem_append_left _ hmem)
    simpa using hne
  have hends : (List.replicate ends ([] : List UInt8)).filter (fun line => !line.isEmpty) = [] := by
    simp
  rw [hlines, List.filter_append, htaken, hends, List.append_nil, hsplit]

namespace Repl

/-! ## What a conversation is -/

/-- What is shown of how a program ended. -/
def shown : Outcome → String
  | .finished (some value) => value.inspect ++ "\n"
  | .finished none => ""
  | .failed error => "ERROR: " ++ error.fault.message ++ "\n"
  | .exhausted => ""

/-- What a line is to the prompt. -/
inductive Line where
  | blank
  | leave
  | command (text : String)
  deriving DecidableEq, Repr, Inhabited

/-- A line as the prompt takes it. -/
def classify (line : String) : Line :=
  let text := Text.trim line
  if text.isEmpty then .blank
  else if text = "exit" ∨ text = "quit" then .leave
  else .command text

/-- A turn: the line that was heard, empty at the end of the input; what the program in it asked of
the console; and what was shown behind the prompt in the end. -/
structure Turn where
  line : String
  exchanges : List Exchange
  shown : String

namespace Turn

/-- What the program has written in a turn. -/
def put (turn : Turn) : List UInt8 := turn.exchanges.flatMap fun exchange => exchange.request.output

/-- All that is written in a turn if prompt and program share the output. -/
def said (turn : Turn) : List UInt8 :=
  Text.encode prompt ++ turn.put ++ Text.encode turn.shown

/-- The lines of the input that a turn has used up: the one that was heard, and those that the
program has taken. -/
def lines (turn : Turn) : List (List UInt8) :=
  (Text.encode turn.line :: turn.exchanges.filterMap Exchange.line).filter fun line => !line.isEmpty

/-- Whether the program takes no line in a turn. -/
def Silent (turn : Turn) : Prop :=
  ∀ exchange ∈ turn.exchanges, exchange.request.reads = false

/-- The text that is run in a turn, if any is. -/
def command (turn : Turn) : Option String :=
  match classify turn.line with
  | .command text => some text
  | .blank | .leave => none

/-- A line that is a command is the text that is run. -/
theorem command_of_classify {line text : String} {exchanges : List Exchange} {shown : String}
    (h : classify line = .command text) : command ⟨line, exchanges, shown⟩ = some text := by
  simp only [command, h]

end Turn

/-- How a conversation ends. -/
inductive Ending where
  | over
  /-- in an evaluation that does not come to an end -/
  | exhausted
  deriving DecidableEq, Repr, Inhabited

namespace Ending

/-- How a conversation ends behind a program, unless it goes on. -/
def ofOutcome : Outcome → Option Ending
  | .finished _ | .failed _ => none
  | .exhausted => some .exhausted

/-- The result of a conversation that leaves a machine. -/
def result (machine : Machine) : Ending → EStateM.Result ReplFault Machine Unit
  | .over => .ok () machine
  | .exhausted => .error .exhausted machine

/-- The result of a turn that leaves a machine. -/
def turnResult (machine : Machine) : Option Ending → EStateM.Result ReplFault Machine Bool
  | none => .ok true machine
  | some .over => .ok false machine
  | some .exhausted => .error .exhausted machine

end Ending

/-- How a program runs from a machine: what it asks of the console, all of it by calls of native
functions; how it ends; and the machine left. -/
structure Runs (setup : Setup) (frame : FrameId) (roots : Roots) (program : Program)
    (machine : Machine) (exchanges : List Exchange) (outcome : Outcome) (next : Machine) :
    Prop where
  ends : runProgram setup frame roots program machine = (outcome, next)
  asks : ∃ dialogue : Dialogue (EStateM.Result ReplFault Machine Outcome),
    dialogue.Only (fun request => request.isNative = true) ∧
      dialogue.Leads ⊤ (modifyGet (runProgram setup frame roots program)) machine ∧
      dialogue.trace machine.console = exchanges

/-- The machine when a line has been heard. -/
def heard (machine : Machine) : Machine := HasConsole.put machine.console.readLine.2 machine

/-- Whether there is a next line, which is a text. -/
structure Hears (machine : Machine) (line : String) : Prop where
  more : machine.console.input ≠ []
  text : Text.decode? (Console.splitLine machine.console.input).1 = some line

/-- A turn from one machine to the next, and how the conversation ends with it, if it does. -/
inductive Takes (setup : Setup) (frame : FrameId) (roots : Roots) :
    Machine → Turn → Option Ending → Machine → Prop where
  /-- at the end of the input a line feed is shown -/
  | atEnd {machine : Machine} (h : machine.console.input = []) :
      Takes setup frame roots machine ⟨"", [], "\n"⟩ (some .over) (heard machine)
  | leave {machine : Machine} {line : String} (hears : Hears machine line)
      (h : classify line = .leave) :
      Takes setup frame roots machine ⟨line, [], ""⟩ (some .over) (heard machine)
  | blank {machine : Machine} {line : String} (hears : Hears machine line)
      (h : classify line = .blank) :
      Takes setup frame roots machine ⟨line, [], ""⟩ none (heard machine)
  /-- a text with errors is not run -/
  | rejected {machine : Machine} {line text : String} (hears : Hears machine line)
      (h : classify line = .command text) (errors : (parse text).errors.isEmpty = false) :
      Takes setup frame roots machine ⟨line, [], complaint (parse text).errors⟩ none
        (heard machine)
  | answered {machine next : Machine} {line text : String} {exchanges : List Exchange}
      {outcome : Outcome} (hears : Hears machine line) (h : classify line = .command text)
      (errors : (parse text).errors.isEmpty = true)
      (runs : Runs setup frame roots (parse text).program (heard machine) exchanges outcome next) :
      Takes setup frame roots machine ⟨line, exchanges, shown outcome⟩ (Ending.ofOutcome outcome)
        next

/-- A conversation: the turns that it takes from a machine, how it ends, and the machine left. -/
inductive Conversation (setup : Setup) (frame : FrameId) (roots : Roots) :
    Machine → List Turn → Ending → Machine → Prop where
  | last {machine after : Machine} {turn : Turn} {ending : Ending}
      (h : Takes setup frame roots machine turn (some ending) after) :
      Conversation setup frame roots machine [turn] ending after
  | cons {machine next after : Machine} {turn : Turn} {log : List Turn} {ending : Ending}
      (h : Takes setup frame roots machine turn none next)
      (rest : Conversation setup frame roots next log ending after) :
      Conversation setup frame roots machine (turn :: log) ending after

/-! ## Runs of programs -/

section

variable {change : Machine → Outcome × Machine}
  {dialogue : Dialogue (EStateM.Result ReplFault Machine Outcome)} {machine : Machine}

/-- How a change of the machine ends that a dialogue leads. -/
theorem exists_of_leads (leads : dialogue.Leads ⊤ (modifyGet change) machine) (console : Console) :
    ∃ outcome state, (dialogue.run console).1 = .ok outcome state ∧
      change (HasConsole.put console machine) =
        (outcome, HasConsole.put (dialogue.run console).2 state) := by
  have hrun := leads console le_top
  rw [modifyGet_apply] at hrun
  cases hending : (dialogue.run console).1 with
  | ok outcome state =>
    rw [hending] at hrun
    refine ⟨outcome, state, rfl, ?_⟩
    injection hrun with houtcome hstate
    exact Prod.ext houtcome hstate
  | error fault state =>
    rw [hending] at hrun
    cases hrun

/-- Consoles on which a dialogue has the same result make the same of the machine, but for the
console. -/
theorem change_eq_of_leads (leads : dialogue.Leads ⊤ (modifyGet change) machine)
    {console other : Console} (h : (dialogue.run other).1 = (dialogue.run console).1) :
    change (HasConsole.put other machine) = ((change (HasConsole.put console machine)).1,
      HasConsole.put (dialogue.run other).2 (change (HasConsole.put console machine)).2) := by
  obtain ⟨outcome, state, hending, hchange⟩ := exists_of_leads leads console
  obtain ⟨outcome', state', hending', hchange'⟩ := exists_of_leads leads other
  rw [hending, hending'] at h
  cases h
  rw [hchange, hchange']
  rfl

end

variable {setup : Setup} {frame : FrameId} {roots : Roots}

namespace Runs

variable {program : Program} {machine next : Machine} {exchanges : List Exchange}
  {outcome : Outcome}

/-- Every program runs somehow. -/
theorem exists_runs (setup : Setup) (frame : FrameId) (roots : Roots) (program : Program)
    (machine : Machine) : ∃ exchanges outcome next,
      Runs setup frame roots program machine exchanges outcome next := by
  obtain ⟨dialogue, honly, hleads⟩ := talks_runProgram setup frame roots program machine
  exact ⟨_, _, _, rfl, dialogue, honly, hleads, rfl⟩

/-- A run on another console, on which the dialogue has the same result. -/
theorem on_other (h : Runs setup frame roots program machine exchanges outcome next)
    {dialogue : Dialogue (EStateM.Result ReplFault Machine Outcome)}
    (leads : dialogue.Leads ⊤ (modifyGet (runProgram setup frame roots program)) machine)
    {other : Console} (same : (dialogue.run other).1 = (dialogue.run machine.console).1) :
    runProgram setup frame roots program (HasConsole.put other machine) =
      (outcome, HasConsole.put (dialogue.run other).2 next) := by
  have hchange := change_eq_of_leads leads same
  have hself : HasConsole.put machine.console machine = machine := rfl
  rwa [hself, h.ends] at hchange

/-- The console that a run leaves is that of the dialogue. -/
theorem console_eq (h : Runs setup frame roots program machine exchanges outcome next)
    {dialogue : Dialogue (EStateM.Result ReplFault Machine Outcome)}
    (leads : dialogue.Leads ⊤ (modifyGet (runProgram setup frame roots program)) machine) :
    next.console = (dialogue.run machine.console).2 := by
  have hself : runProgram setup frame roots program machine =
      (outcome, HasConsole.put (dialogue.run machine.console).2 next) := h.on_other leads rfl
  rw [h.ends] at hself
  exact congrArg (fun ending => ending.2.console) hself

/-- A run takes the lines of the console in order. -/
theorem conserves (h : Runs setup frame roots program machine exchanges outcome next) :
    Conserves exchanges machine.console next.console := by
  obtain ⟨dialogue, _, hleads, rfl⟩ := h.asks
  rw [h.console_eq hleads]
  exact dialogue.conserves machine.console

/-- All that a program puts arrives. -/
theorem written (h : Runs setup frame roots program machine exchanges outcome next)
    (free : machine.console.Free) : next.console.Free ∧ next.console.written =
      machine.console.written ++ exchanges.flatMap fun exchange => exchange.request.output := by
  obtain ⟨dialogue, _, hleads, rfl⟩ := h.asks
  rw [h.console_eq hleads]
  exact dialogue.free_run free

/-- Programs do the same on all consoles with the same input. -/
theorem of_input (h : Runs setup frame roots program machine exchanges outcome next)
    (free : machine.console.Free) {other : Console} (free' : other.Free)
    (hinput : other.input = machine.console.input) :
    ∃ left : Console, runProgram setup frame roots program (HasConsole.put other machine) =
        (outcome, HasConsole.put left next) ∧ left.Free ∧ left.input = next.console.input ∧
      left.written =
        other.written ++ exchanges.flatMap fun exchange => exchange.request.output := by
  obtain ⟨dialogue, _, hleads, rfl⟩ := h.asks
  obtain ⟨hrun, htrace, hleft⟩ := dialogue.run_of_input free free' hinput
  obtain ⟨hfree, hwritten⟩ := dialogue.free_run free'
  refine ⟨(dialogue.run other).2, h.on_other hleads hrun, hfree, ?_, htrace ▸ hwritten⟩
  rw [hleft, h.console_eq hleads]

/-- Programs that take no line do the same on all consoles. -/
theorem of_silent (h : Runs setup frame roots program machine exchanges outcome next)
    (free : machine.console.Free) {other : Console} (free' : other.Free)
    (silent : ∀ exchange ∈ exchanges, exchange.request.reads = false) :
    ∃ left : Console, runProgram setup frame roots program (HasConsole.put other machine) =
        (outcome, HasConsole.put left next) ∧ left.Free ∧ left.input = other.input ∧
      left.written =
        other.written ++ exchanges.flatMap fun exchange => exchange.request.output := by
  obtain ⟨dialogue, _, hleads, rfl⟩ := h.asks
  obtain ⟨hrun, htrace, hleft⟩ := dialogue.run_of_silent free free' silent
  obtain ⟨hfree, hwritten⟩ := dialogue.free_run free'
  exact ⟨(dialogue.run other).2, h.on_other hleads hrun, hfree, hleft, htrace ▸ hwritten⟩

end Runs

/-! ## One turn -/

/-- What is heard is the first line. -/
theorem Hears.encode {machine : Machine} {line : String} (h : Hears machine line) :
    Text.encode line = (Console.splitLine machine.console.input).1 :=
  Text.encode_of_decode? h.text

/-- Hearing a line takes the first of the input. -/
theorem Hears.splitLines_eq {machine : Machine} {line : String} (h : Hears machine line) :
    splitLines machine.console.input =
      Text.encode line :: splitLines (heard machine).console.input := by
  rw [h.encode]
  exact splitLines_eq_cons h.more

/-- A turn uses up the line that was heard, and those taken in it that are not empty. -/
theorem Hears.lines {machine : Machine} {line : String} (h : Hears machine line)
    (exchanges : List Exchange) (shown : String) : Turn.lines ⟨line, exchanges, shown⟩ =
      Text.encode line :: (exchanges.filterMap Exchange.line).filter fun line => !line.isEmpty := by
  have hne : (!(Text.encode line).isEmpty) = true := by
    have := Console.splitLine_fst_ne_nil h.more
    rw [← h.encode] at this
    simpa using this
  exact List.filter_cons_of_pos hne

namespace Takes

variable {machine next : Machine} {turn : Turn} {verdict : Option Ending}

/-- In a turn just what programs have written comes onto the console of the machine. -/
theorem written (h : Takes setup frame roots machine turn verdict next)
    (free : machine.console.Free) : next.console.Free ∧
      next.console.written = machine.console.written ++ turn.put := by
  cases h with
  | atEnd | leave | blank | rejected => exact ⟨free.readLine, by simp [Turn.put, heard]; rfl⟩
  | answered hears hline errors runs => exact runs.written free.readLine

/-- A turn uses up the lines that are heard and taken in it. -/
theorem splitLines_eq (h : Takes setup frame roots machine turn verdict next) :
    splitLines machine.console.input = turn.lines ++ splitLines next.console.input := by
  cases h with
  | atEnd hend =>
    rw [hend]
    change [] = _ ++ splitLines (Console.splitLine machine.console.input).2
    rw [hend]
    rfl
  | leave hears | blank hears | rejected hears =>
    rw [hears.lines, hears.splitLines_eq]
    rfl
  | answered hears hline errors runs =>
    rw [hears.lines, hears.splitLines_eq, runs.conserves.splitLines_eq]
    rfl

/-- A turn behind which the conversation goes on uses up a line. -/
theorem lines_ne_nil (h : Takes setup frame roots machine turn none next) : turn.lines ≠ [] := by
  generalize hverdict : (none : Option Ending) = verdict at h
  cases h with
  | atEnd | leave => cases hverdict
  | blank hears | rejected hears | answered hears =>
    rw [hears.lines]
    exact List.cons_ne_nil _ _

/-- A conversation breaks off only in a program. -/
theorem exists_exhausted (h : Takes setup frame roots machine turn (some .exhausted) next) :
    ∃ text before, turn.command = some text ∧
      (runProgram setup frame roots (parse text).program before).1 = .exhausted := by
  generalize hverdict : some Ending.exhausted = verdict at h
  cases h with
  | atEnd | leave | blank | rejected => cases hverdict
  | @answered _ line text exchanges outcome hears hline errors runs =>
    refine ⟨text, heard machine, Turn.command_of_classify hline, ?_⟩
    rw [runs.ends]
    cases outcome with
    | finished | failed => cases hverdict
    | exhausted => rfl

end Takes

/-- Wherever the next line is a text, there is a turn. -/
theorem exists_takes (setup : Setup) (frame : FrameId) (roots : Roots) {machine : Machine}
    (text : ∃ line, Text.decode? (Console.splitLine machine.console.input).1 = some line) :
    ∃ turn verdict next, Takes setup frame roots machine turn verdict next := by
  by_cases hmore : machine.console.input = []
  · exact ⟨_, _, _, .atEnd hmore⟩
  · obtain ⟨line, hline⟩ := text
    have hears : Hears machine line := ⟨hmore, hline⟩
    cases hclass : classify line with
    | blank => exact ⟨_, _, _, .blank hears hclass⟩
    | leave => exact ⟨_, _, _, .leave hears hclass⟩
    | command command =>
      cases herrors : (parse command).errors.isEmpty with
      | false => exact ⟨_, _, _, .rejected hears hclass herrors⟩
      | true =>
        obtain ⟨_, _, _, hruns⟩ :=
          Runs.exists_runs setup frame roots (parse command).program (heard machine)
        exact ⟨_, _, _, .answered hears hclass herrors hruns⟩

/-! ## Whole conversations -/

namespace Conversation

variable {machine after : Machine} {log : List Turn} {ending : Ending}

/-- All that comes onto the console of the machine is what programs have written. -/
theorem written (h : Conversation setup frame roots machine log ending after)
    (free : machine.console.Free) : after.console.Free ∧
      after.console.written = machine.console.written ++ log.flatMap Turn.put := by
  induction h with
  | last h =>
    rw [List.flatMap_singleton]
    exact h.written free
  | cons h _ ih =>
    obtain ⟨hfree, hwritten⟩ := h.written free
    obtain ⟨hfree', hwritten'⟩ := ih hfree
    rw [List.flatMap_cons, append_listAppend, ← hwritten]
    exact ⟨hfree', hwritten'⟩

/-- Each line of the input is heard, or taken by the program in that turn, or left. -/
theorem splitLines_eq (h : Conversation setup frame roots machine log ending after) :
    splitLines machine.console.input =
      log.flatMap Turn.lines ++ splitLines after.console.input := by
  induction h with
  | last h =>
    rw [List.flatMap_singleton]
    exact h.splitLines_eq
  | cons h _ ih => rw [List.flatMap_cons, List.append_assoc, ← ih, h.splitLines_eq]

/-- Every turn but the last uses up a line. -/
theorem length_le (h : Conversation setup frame roots machine log ending after) :
    log.length ≤ (splitLines machine.console.input).length + 1 := by
  induction h with
  | last h => exact Nat.le_add_left _ _
  | cons h _ ih =>
    have hlines := List.length_pos_iff.mpr h.lines_ne_nil
    rw [h.splitLines_eq, List.length_append, List.length_cons]
    omega

/-- A conversation breaks off in one of its programs only. -/
theorem exists_exhausted (h : Conversation setup frame roots machine log ending after)
    (broken : ending = .exhausted) : ∃ text ∈ log.filterMap Turn.command, ∃ before,
      (runProgram setup frame roots (parse text).program before).1 = .exhausted := by
  induction h with
  | last h =>
    obtain ⟨text, before, hcommand, hexhausted⟩ := (broken ▸ h).exists_exhausted
    exact ⟨text, List.mem_filterMap.mpr ⟨_, List.mem_singleton_self _, hcommand⟩, before,
      hexhausted⟩
  | cons h _ ih =>
    obtain ⟨text, hmem, hexhausted⟩ := ih broken
    obtain ⟨turn, hturn, hcommand⟩ := List.mem_filterMap.mp hmem
    exact ⟨text, List.mem_filterMap.mpr ⟨turn, List.mem_cons_of_mem _ hturn, hcommand⟩, hexhausted⟩

/-- Wherever all lines of the input are texts, there is a conversation. -/
theorem exists_conversation (setup : Setup) (frame : FrameId) (roots : Roots) {machine : Machine}
    (texts : ∀ line ∈ splitLines machine.console.input, ∃ text, Text.decode? line = some text) :
    ∃ log ending after, Conversation setup frame roots machine log ending after := by
  -- by induction on the number of lines left, since every turn but the last uses up at least one
  induction hlength : (splitLines machine.console.input).length using Nat.strong_induction_on
    generalizing machine with
  | _ length ih =>
    have hfirst : ∃ line, Text.decode? (Console.splitLine machine.console.input).1 = some line := by
      by_cases hmore : machine.console.input = []
      · exact ⟨"", by rw [hmore]; rfl⟩
      · exact texts _ (splitLines_eq_cons hmore ▸ List.mem_cons_self)
    obtain ⟨turn, verdict, next, hturn⟩ := exists_takes setup frame roots hfirst
    cases verdict with
    | some ending => exact ⟨_, _, _, .last hturn⟩
    | none =>
      have hsplit := hturn.splitLines_eq
      have hlines := List.length_pos_iff.mpr hturn.lines_ne_nil
      have hless : (splitLines next.console.input).length < length := by
        rw [← hlength, hsplit, List.length_append]
        omega
      obtain ⟨log, ending, after, hrest⟩ := ih _ hless
        (fun line hmem => texts line (hsplit ▸ List.mem_append_right _ hmem)) rfl
      exact ⟨_, _, _, .cons hturn hrest⟩

end Conversation

end Repl

end Scriptlet
