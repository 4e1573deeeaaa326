import Scriptlet.Proofs.Console.Turns

set_option autoImplicit false

/-!
# The prompt folds programs

Component: the prompt and the runner.  Specification: section 6, by which the prompt evaluates one
line at a time against one persistent environment and the runner evaluates a file once, and section
10.10 on the texts that the prompt shows.

On a console where output never fails, the prompt holds the conversation that there is from its
machine: it shows what the log tells, among what programs put, and takes the lines that are told
there (`Takes.turn_eq`).  Where no program takes a line, the conversation leaves the machine that
the programs leave if they are run as scripts one after the other (`Takes.scripts_eq`).

Two things are compared that do not do the same to the console: a conversation, where the prompt
takes its lines from the console and writes its own texts there, and scripts, which are given their
texts.  So each is told on a console of its own, and what is equal is the rest of the machine.

A line that is blank and a line that leaves are no scripts, and neither changes anything but the
console; a line with errors is a script that fails before it is run.  Only a program that does not
come to an end breaks a conversation off, and a script just as well.
-/

namespace Scriptlet

namespace Repl

variable {setup : Setup} {frame : FrameId} {roots : Roots} {machine next : Machine}

/-! ## The parts of a turn -/

/-- What is said is written. -/
theorem say_of_free (free : machine.console.Free) (text : String) :
    say text machine =
      .ok () (HasConsole.put (machine.console.put (Text.encode text)) machine) := by
  rw [say_eq, free.write]
  rfl

/-- Passing on succeeds. -/
theorem flush_of_free (free : machine.console.Free) : flush machine = .ok () machine := by
  rw [flush_eq, free.flush]
  rfl

/-- A line that is a text is heard. -/
theorem hear_of_text {line : String}
    (text : Text.decode? (Console.splitLine machine.console.input).1 = some line) :
    hear machine = .ok line (heard machine) := by
  have hread : machine.console.readLine.1 = .ok line := by
    simp only [Console.readLine, text]
  rw [hear_eq, hread]
  rfl

/-- A text with errors is complained about. -/
theorem answer_of_errors {text : String} (free : machine.console.Free)
    (errors : (parse text).errors.isEmpty = false) :
    answer setup frame roots text machine = .ok () (HasConsole.put
      (machine.console.put (Text.encode (complaint (parse text).errors))) machine) := by
  rw [← say_of_free free, answer]
  simp only [errors, Bool.false_eq_true, if_false]

/-- A program is run, and what it is worth is shown. -/
theorem answer_of_ends {text : String} {outcome : Outcome}
    (errors : (parse text).errors.isEmpty = true)
    (ends : runProgram setup frame roots (parse text).program machine = (outcome, next))
    (free : next.console.Free) :
    (do
      answer setup frame roots text
      return true : Repl Bool) machine =
      Ending.turnResult (HasConsole.put (next.console.put (Text.encode (shown outcome))) next)
        (Ending.ofOutcome outcome) := by
  have hsilent : HasConsole.put (next.console.put (Text.encode "")) next = next :=
    congrArg (fun console => HasConsole.put console next) next.console.put_nil
  rw [bind_apply, answer]
  simp only [errors, if_true]
  rw [bind_apply, modifyGet_apply, ends]
  cases outcome with
  | finished value =>
    cases value with
    | none => exact congrArg (EStateM.Result.ok true) hsilent.symm
    | some value => exact congrArg (goOn _) (say_of_free free _)
  | failed error => exact congrArg (goOn _) (say_of_free free _)
  | exhausted => exact congrArg (EStateM.Result.error _) hsilent.symm

/-- The console on which the prompt has been shown and a line been heard. -/
def promptedConsole (console : Console) : Console := (console.put (Text.encode prompt)).readLine.2

/-- A turn, from the line on that is heard in it. -/
theorem turn_of_text {console : Console} {line : String} (free : console.Free)
    (text : Text.decode? (Console.splitLine console.input).1 = some line) :
    turn setup frame roots (HasConsole.put console machine) =
      (if line.isEmpty then do
          say "\n"
          return false
        else if (Text.trim line).isEmpty then return true
        else if Text.trim line = "exit" ∨ Text.trim line = "quit" then return false
        else do
          answer setup frame roots (Text.trim line)
          return true : Repl Bool) (HasConsole.put (promptedConsole console) machine) := by
  have hsay : say prompt (HasConsole.put console machine) =
      .ok () (HasConsole.put (console.put (Text.encode prompt)) machine) := say_of_free free prompt
  have hflush : flush (HasConsole.put (console.put (Text.encode prompt)) machine) =
      .ok () (HasConsole.put (console.put (Text.encode prompt)) machine) :=
    flush_of_free (free.put _)
  have hhear : hear (HasConsole.put (console.put (Text.encode prompt)) machine) =
      .ok line (HasConsole.put (promptedConsole console) machine) := hear_of_text text
  rw [turn, bind_apply, hsay, goOn, bind_apply, hflush, goOn, bind_apply, hhear]
  rfl

/-- What a turn does about a line. -/
def respond (setup : Setup) (frame : FrameId) (roots : Roots) : Line → Repl Bool
  | .blank => return true
  | .leave => return false
  | .command text => do
    answer setup frame roots text
    return true

/-- A line that is heard is not the empty text. -/
theorem Hears.isEmpty_eq_false {line : String} (h : Hears machine line) : line.isEmpty = false := by
  refine Bool.eq_false_iff.mpr fun hempty => ?_
  have hencode := h.encode
  rw [String.isEmpty_iff.mp hempty] at hencode
  exact Console.splitLine_fst_ne_nil h.more hencode.symm

/-- A turn in which a line is heard. -/
theorem turn_of_hears {console : Console} {line : String} (hears : Hears machine line)
    (free : console.Free) (hinput : console.input = machine.console.input) :
    turn setup frame roots (HasConsole.put console machine) =
      respond setup frame roots (classify line)
        (HasConsole.put (promptedConsole console) machine) := by
  rw [turn_of_text free (hinput ▸ hears.text), hears.isEmpty_eq_false, if_neg Bool.false_ne_true]
  by_cases hblank : (Text.trim line).isEmpty = true
  · simp only [classify, hblank, if_true]
    rfl
  · by_cases hleave : Text.trim line = "exit" ∨ Text.trim line = "quit"
    · simp only [classify, hblank, hleave, if_true]
      rfl
    · simp only [classify, hblank, hleave, if_false]
      rfl

/-- What is written in a turn in which no program is run. -/
theorem written_promptedConsole_put (console : Console) (line shown : String) :
    ((promptedConsole console).put (Text.encode shown)).written =
      console.written ++ Turn.said ⟨line, [], shown⟩ := by
  have hsaid : Turn.said ⟨line, [], shown⟩ = Text.encode prompt ++ Text.encode shown := by
    rw [Turn.said, Turn.put, List.flatMap_nil, List.append_nil]
  rw [hsaid, append_listAppend]
  rfl

/-! ## Scripts -/

/-- Runs some texts as scripts, one after the other. -/
def scripts (setup : Setup) (frame : FrameId) (roots : Roots) (texts : List String)
    (machine : Machine) : Machine :=
  texts.foldl (fun machine text => (runScript setup frame roots text machine).2) machine

/-- Scripts are run one after the other. -/
theorem scripts_append (first second : List String) (machine : Machine) :
    scripts setup frame roots (first ++ second) machine =
      scripts setup frame roots second (scripts setup frame roots first machine) :=
  List.foldl_append

/-- The scripts of a log are that of its first turn, if it has one, and those of the others. -/
theorem filterMap_command_cons (turn : Turn) (log : List Turn) :
    (turn :: log).filterMap Turn.command = turn.command.toList ++ log.filterMap Turn.command := by
  rw [List.filterMap_cons]
  cases turn.command <;> rfl

/-- A text with errors is not run. -/
theorem runScript_of_errors {text : String} (errors : (parse text).errors.isEmpty = false) :
    (runScript setup frame roots text machine).2 = machine := by
  simp only [runScript, errors, Bool.false_eq_true, if_false]

/-- Any other is run as a program. -/
theorem runScript_of_ends {text : String} {outcome : Outcome}
    (errors : (parse text).errors.isEmpty = true)
    (ends : runProgram setup frame roots (parse text).program machine = (outcome, next)) :
    (runScript setup frame roots text machine).2 = next := by
  simp only [runScript, errors, if_true, ends]
  cases outcome <;> rfl

/-! ## One turn -/

namespace Takes

variable {turn : Turn} {verdict : Option Ending}

/-- The prompt takes the turn, on any console with the same input. -/
theorem turn_eq (h : Takes setup frame roots machine turn verdict next)
    (free : machine.console.Free) {console : Console} (free' : console.Free)
    (hinput : console.input = machine.console.input) :
    ∃ left : Console, Repl.turn setup frame roots (HasConsole.put console machine) =
        Ending.turnResult (HasConsole.put left next) verdict ∧ left.Free ∧
      left.input = next.console.input ∧ left.written = console.written ++ turn.said := by
  have hprompted : (promptedConsole console).Free := (free'.put _).readLine
  have hleft : (promptedConsole console).input = (heard machine).console.input :=
    congrArg (fun input => (Console.splitLine input).2) hinput
  cases h with
  | atEnd hend =>
    have hnothing : Text.decode? (Console.splitLine console.input).1 = some "" := by
      rw [hinput, hend]
      rfl
    refine ⟨(promptedConsole console).put (Text.encode "\n"), ?_, hprompted.put _, hleft,
      written_promptedConsole_put console _ _⟩
    rw [turn_of_text free' hnothing]
    exact congrArg (goOn _) (say_of_free hprompted "\n")
  | leave hears hline | blank hears hline =>
    refine ⟨promptedConsole console, ?_, hprompted, hleft, ?_⟩
    · rw [turn_of_hears hears free' hinput, hline]
      rfl
    · rw [← written_promptedConsole_put, ← Console.put_nil (promptedConsole console)]
      rfl
  | @rejected line text hears hline errors =>
    refine ⟨(promptedConsole console).put (Text.encode (complaint (parse text).errors)), ?_,
      hprompted.put _, hleft, written_promptedConsole_put console _ _⟩
    rw [turn_of_hears hears free' hinput, hline]
    exact congrArg (goOn _) (answer_of_errors hprompted errors)
  | @answered _ line text exchanges outcome hears hline errors runs =>
    obtain ⟨left, hends, hfree, hinput', hwritten⟩ :=
      runs.of_input free.readLine hprompted hleft
    refine ⟨left.put (Text.encode (shown outcome)), ?_, hfree.put _, hinput', ?_⟩
    · rw [turn_of_hears hears free' hinput, hline]
      exact answer_of_ends errors hends hfree
    · rw [Console.written_put, hwritten, Turn.said, append_listAppend, append_listAppend]
      rfl

/-- A turn in which no program takes a line leaves what the script leaves, on any console. -/
theorem scripts_eq (h : Takes setup frame roots machine turn verdict next)
    (free : machine.console.Free) {console : Console} (free' : console.Free)
    (silent : turn.Silent) :
    ∃ left : Console, scripts setup frame roots turn.command.toList
        (HasConsole.put console machine) = HasConsole.put left next ∧ left.Free ∧
      left.input = console.input ∧ left.written = console.written ++ turn.put := by
  have hnothing : console.written = console.written ++ ([] : List UInt8) := by simp
  cases h with
  | atEnd => exact ⟨console, rfl, free', rfl, hnothing⟩
  | leave hears hline | blank hears hline =>
    refine ⟨console, ?_, free', rfl, hnothing⟩
    simp only [Turn.command, hline]
    rfl
  | rejected hears hline errors =>
    refine ⟨console, ?_, free', rfl, hnothing⟩
    rw [Turn.command_of_classify hline]
    exact runScript_of_errors errors
  | answered hears hline errors runs =>
    obtain ⟨left, hends, hfree, hinput, hwritten⟩ := runs.of_silent free.readLine free' silent
    refine ⟨left, ?_, hfree, hinput, hwritten⟩
    rw [Turn.command_of_classify hline]
    exact runScript_of_ends errors hends

end Takes

/-! ## Whole conversations -/

namespace Conversation

variable {after : Machine} {log : List Turn} {ending : Ending}

/-- The prompt takes the turns of the conversation, on any console with the same input, and no
more. -/
theorem turns_eq (h : Conversation setup frame roots machine log ending after)
    (free : machine.console.Free) {console : Console} (free' : console.Free)
    (hinput : console.input = machine.console.input) :
    ∃ left : Console, (∀ count, log.length ≤ count →
        turns setup frame roots count (HasConsole.put console machine) =
          ending.result (HasConsole.put left after)) ∧
      left.input = after.console.input ∧
      left.written = console.written ++ log.flatMap Turn.said := by
  induction h generalizing console with
  | @last _ _ _ ending h =>
    obtain ⟨left, hturn, _, hleft, hwritten⟩ := h.turn_eq free free' hinput
    refine ⟨left, fun count hcount => ?_, hleft, ?_⟩
    · obtain ⟨count, rfl⟩ := Nat.exists_eq_add_of_le' hcount
      rw [List.length_singleton, turns, bind_apply, hturn]
      cases ending <;> rfl
    · rw [List.flatMap_singleton]
      exact hwritten
  | cons h _ ih =>
    obtain ⟨middle, hturn, hfree, hmiddle, hwritten⟩ := h.turn_eq free free' hinput
    obtain ⟨left, hturns, hleft, hwritten'⟩ := ih (h.written free).1 hfree hmiddle
    refine ⟨left, fun count hcount => ?_, hleft, ?_⟩
    · obtain ⟨count, rfl⟩ := Nat.exists_eq_add_of_le' (Nat.lt_of_lt_of_le (Nat.succ_pos _) hcount)
      rw [turns, bind_apply, hturn]
      exact hturns count (Nat.le_of_succ_le_succ hcount)
    · rw [List.flatMap_cons, append_listAppend, ← hwritten, hwritten']

/-- Where no program takes a line, the programs leave the same if they are run as scripts. -/
theorem scripts_eq (h : Conversation setup frame roots machine log ending after)
    (free : machine.console.Free) {console : Console} (free' : console.Free)
    (silent : ∀ turn ∈ log, turn.Silent) :
    ∃ left : Console, scripts setup frame roots (log.filterMap Turn.command)
        (HasConsole.put console machine) = HasConsole.put left after ∧
      left.input = console.input ∧ left.written = console.written ++ log.flatMap Turn.put := by
  induction h generalizing console with
  | last h =>
    obtain ⟨left, hscripts, _, hleft, hwritten⟩ :=
      h.scripts_eq free free' (silent _ List.mem_cons_self)
    refine ⟨left, ?_, hleft, ?_⟩
    · rw [filterMap_command_cons, List.filterMap_nil, List.append_nil]
      exact hscripts
    · rw [List.flatMap_singleton]
      exact hwritten
  | cons h _ ih =>
    obtain ⟨hsilent, hlater⟩ := List.forall_mem_cons.mp silent
    obtain ⟨middle, hscript, hfree, hmiddle, hwritten⟩ := h.scripts_eq free free' hsilent
    obtain ⟨left, hscripts, hleft, hwritten'⟩ := ih (h.written free).1 hfree hlater
    refine ⟨left, ?_, hleft.trans hmiddle, ?_⟩
    · rw [filterMap_command_cons, scripts_append, hscript, hscripts]
    · rw [List.flatMap_cons, append_listAppend, ← hwritten, hwritten']

end Conversation

/-! ## The prompt -/

/-- What the prompt makes of a conversation. -/
structure Holds (setup : Setup) (frame : FrameId) (roots : Roots) (machine : Machine)
    (log : List Turn) (ending : Ending) (after : Machine) : Prop where
  /-- there are no more turns than lines, but for the last -/
  bounded : log.length ≤ (splitLines machine.console.input).length + 1
  /-- each line is heard, or taken by the program in that turn, or left, in order -/
  lines : splitLines machine.console.input =
    log.flatMap Turn.lines ++ splitLines after.console.input
  /-- it breaks off only in a program that does not come to an end -/
  broken : ending = .exhausted → ∃ text ∈ log.filterMap Turn.command, ∃ before,
    (runProgram setup frame roots (parse text).program before).1 = .exhausted
  /-- what programs have written -/
  put : after.console.written = machine.console.written ++ log.flatMap Turn.put
  /-- the prompt comes to the same end after so many turns, and shows what the log tells among what
  programs write -/
  prompt : ∃ left : Console, left.input = after.console.input ∧
    left.written = machine.console.written ++ log.flatMap Turn.said ∧
    converse setup frame roots machine = ending.result (HasConsole.put left after) ∧
    ∀ count, log.length ≤ count →
      turns setup frame roots count machine = ending.result (HasConsole.put left after)
  /-- where no program takes a line, the same is left and written by the commands as scripts -/
  scripts : (∀ turn ∈ log, turn.Silent) → ∀ console : Console, console.Free →
    ∃ left : Console, Repl.scripts setup frame roots (log.filterMap Turn.command)
        (HasConsole.put console machine) = HasConsole.put left after ∧
      left.input = console.input ∧ left.written = console.written ++ log.flatMap Turn.put

/-- The prompt is a fold of programs over the lines of its input.  If output never fails and all
lines are texts, there is a conversation, and the prompt holds just that: each line that it hears is
blank, leaves, is complained about, or is run as a program on what those before it have left. -/
theorem converse_folds (setup : Setup) (frame : FrameId) (roots : Roots) (machine : Machine)
    (free : machine.console.Free)
    (texts : ∀ line ∈ splitLines machine.console.input, ∃ text, Text.decode? line = some text) :
    ∃ log ending after, Conversation setup frame roots machine log ending after ∧
      Holds setup frame roots machine log ending after := by
  obtain ⟨log, ending, after, h⟩ := Conversation.exists_conversation setup frame roots texts
  obtain ⟨left, hturns, hinput, hwritten⟩ := h.turns_eq free free rfl
  have hself : HasConsole.put machine.console machine = machine := rfl
  rw [hself] at hturns
  refine ⟨log, ending, after, h, {
    bounded := h.length_le
    lines := h.splitLines_eq
    broken := h.exists_exhausted
    put := (h.written free).2
    prompt := ⟨left, hinput, hwritten, hturns _ ?_, hturns⟩
    scripts := fun silent _ free' => h.scripts_eq free free' silent }⟩
  exact h.length_le.trans (Nat.succ_le_succ (length_splitLines_le _))

/-- The machine before a conversation of three lines. -/
def threeLines : Machine := .ofConsole (.ofInput (Text.encode "let x = 1;\nx\nexit\n"))

theorem converse_folds_threeLines :
    ∃ log ending after, Conversation (.standard ⟨fun _ => false, fun _ => .error .notFound⟩ 1) ⟨0⟩
        ⟨[⟨0⟩], []⟩ threeLines log ending after ∧
      Holds (.standard ⟨fun _ => false, fun _ => .error .notFound⟩ 1) ⟨0⟩ ⟨[⟨0⟩], []⟩ threeLines log
        ending after :=
  converse_folds _ _ _ _ ⟨rfl, rfl⟩ fun line hmem => Option.isSome_iff_exists.mp
    ((by decide : ∀ line ∈ splitLines threeLines.console.input,
      (Text.decode? line).isSome = true) line hmem)

end Repl

end Scriptlet
