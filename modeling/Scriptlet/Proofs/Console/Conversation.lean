import Scriptlet.Proofs.Console.Talks
import Scriptlet.Repl

set_option autoImplicit false

/-!
# Conversations are dialogues

Component: the prompt.  Specification: section 6, by which the prompt parses and evaluates one line
at a time against one persistent environment, and section 10.10 on what it shows, and on what ends
it.

The prompt asks for a line, and what it runs asks for more of them from the same console.  Every
turn but the last takes at least one byte of the input.  So a conversation is one dialogue for all
consoles with so much input, however many turns more it were given.

The prompt is defined with a bound on its turns, and `converse` takes one more than there are bytes
of input.  That it is enough is what is proved about the length of the input: hearing a line that is
not empty takes at least one byte of it (`input_lt_of_hear`), nothing that is evaluated gives one
back (`Talks.length_input_le`), and so conversations with different bounds are the same
(`turns_eq`).
-/

namespace Scriptlet

/-- Whether a computation is a dialogue of any requests. -/
abbrev Speaks (bound : ℕ∞) {ε σ α : Type} [HasConsole σ] (run : EStateM ε σ α) : Prop :=
  Talks (fun _ => True) bound run

/-- What calls native functions only makes requests. -/
theorem Talks.speaks {bound : ℕ∞} {ε σ α : Type} [HasConsole σ] {run : EStateM ε σ α}
    (h : OnlyCalls run) : Speaks bound run :=
  h.mono (fun _ _ => trivial) le_top

/-- Whatever is led by a dialogue leaves no more input than there was. -/
theorem Talks.length_input_le {allowed : Request → Prop} {ε α : Type} {run : EStateM ε Machine α}
    (h : Talks allowed ⊤ run) (machine : Machine) :
    (endingConsole (run machine)).input.length ≤ machine.console.input.length := by
  obtain ⟨dialogue, _, hrun⟩ := h machine
  have hself : run machine = _ := hrun machine.console le_top
  rw [hself]
  rw [endingConsole_putConsole]
  exact dialogue.length_input_le machine.console

/-- In particular when it ends normally. -/
theorem Talks.length_input_of_ok {ε α : Type} {run : EStateM ε Machine α} (h : Speaks ⊤ run)
    {machine after : Machine} {result : α} (hrun : run machine = .ok result after) :
    after.console.input.length ≤ machine.console.input.length := by
  have hless := h.length_input_le machine
  rwa [hrun] at hless

/-- What ends normally in two steps has ended each of them normally. -/
theorem exists_of_bind_ok {ε σ α β : Type} {run : EStateM ε σ α} {next : α → EStateM ε σ β}
    {state after : σ} {result : β} (h : (run >>= next) state = .ok result after) :
    ∃ first middle, run state = .ok first middle ∧ next first middle = .ok result after := by
  rw [bind_apply] at h
  cases hrun : run state with
  | ok first middle =>
    rw [hrun] at h
    exact ⟨first, middle, rfl, h⟩
  | error reason middle =>
    rw [hrun] at h
    cases h

namespace Repl

variable {bound : ℕ∞} {setup : Setup} {frame : FrameId} {roots : Roots}

/-- How a part of a conversation ends that the console answered. -/
def replyEnding {α β : Type} (fault : β → ReplFault) (machine : Machine) :
    Except β α → EStateM.Result ReplFault Machine α
  | .ok result => .ok result machine
  | .error reason => .error (fault reason) machine

/-- Only what is answered matters to such a part, and the console is put into the machine
afterwards. -/
theorem replyEnding_put {α β : Type} (fault : β → ReplFault) (machine : Machine) (console : Console)
    (reply : Except β α) :
    replyEnding fault (HasConsole.put console machine) reply =
      putConsole console (replyEnding fault machine reply) := by
  cases reply <;> rfl

/-- To say something is to write it. -/
theorem say_eq (text : String) (machine : Machine) :
    say text machine = replyEnding .output
      (HasConsole.put (machine.console.write text).2 machine) (machine.console.write text).1 := by
  rw [say, get_bind_apply]
  generalize machine.console.write text = result
  rcases result with ⟨_ | _, next⟩ <;> rfl

/-- To flush is to ask the console to. -/
theorem flush_eq (machine : Machine) :
    flush machine = replyEnding .output machine machine.console.flush := by
  rw [flush, get_bind_apply]
  generalize machine.console.flush = result
  rcases result with _ | _ <;> rfl

/-- To hear is to read a line. -/
theorem hear_eq (machine : Machine) :
    hear machine = replyEnding .input
      (HasConsole.put machine.console.readLine.2 machine) machine.console.readLine.1 := by
  rw [hear, get_bind_apply]
  generalize machine.console.readLine = result
  rcases result with ⟨_ | _, next⟩ <;> rfl

/-- To say something is one request. -/
theorem speaks_say (text : String) : Speaks bound (say text) := by
  refine @Talks.ask _ _ _ _ _ _ (.write text) trivial _ (replyEnding .output)
    fun machine console => ?_
  rw [say_eq]
  exact replyEnding_put _ machine _ _

/-- To pass on what has been written is one request. -/
theorem speaks_flush : Speaks bound flush := by
  refine @Talks.ask _ _ _ _ _ _ .flush trivial _ (replyEnding .output) fun machine console => ?_
  rw [flush_eq]
  exact replyEnding_put _ machine _ _

/-- To get the next line is one request. -/
theorem speaks_hear : Speaks bound hear := by
  refine @Talks.ask _ _ _ _ _ _ .line trivial _ (replyEnding .input) fun machine console => ?_
  rw [hear_eq]
  exact replyEnding_put _ machine _ _

/-- An answer is a complaint about the line, or the program in it and what is shown of its result.
-/
theorem speaks_answer (line : String) : Speaks bound (answer setup frame roots line) := by
  unfold answer
  refine .ite ((talks_runProgram setup frame roots _).speaks.bind fun outcome => ?_)
    (speaks_say _)
  split
  · exact speaks_say _
  · exact .pure _
  · exact speaks_say _
  · exact .throw _

/-- A turn is what it is made of. -/
theorem speaks_turn : Speaks bound (turn setup frame roots) := by
  refine (speaks_say prompt).bind fun _ => speaks_flush.bind fun _ => ?_
  refine speaks_hear.bind fun line => ?_
  refine .ite ((speaks_say _).bind fun _ => .pure _) (.ite (.pure _) (.ite (.pure _) ?_))
  exact (speaks_answer _).bind fun _ => .pure _

/-- So are some turns, however many. -/
theorem speaks_turns (count : Nat) : Speaks bound (turns setup frame roots count) := by
  induction count with
  | zero => exact .pure _
  | succ count ih => exact speaks_turn.bind fun goesOn => .ite ih (.pure _)

/-! ### Turns shorten the input -/

/-- Whoever hears anything has taken at least one byte. -/
theorem input_lt_of_hear {machine after : Machine} {line : String}
    (h : hear machine = .ok line after) (hline : line.isEmpty = false) :
    after.console.input.length < machine.console.input.length := by
  rw [hear_eq] at h
  generalize hread : machine.console.readLine.1 = reply at h
  cases reply with
  | error reason => cases h
  | ok text =>
    cases h
    refine Console.length_splitLine_lt fun hempty => ?_
    have hnothing : machine.console.readLine.1 = .ok "" := by
      rw [Console.readLine, hempty]
      rfl
    rw [hread] at hnothing
    cases hnothing
    cases hline

/-- Every turn but the last takes at least one byte. -/
theorem input_lt_of_turn {machine after : Machine}
    (h : turn setup frame roots machine = .ok true after) :
    after.console.input.length < machine.console.input.length := by
  obtain ⟨_, said, hsay, h⟩ := exists_of_bind_ok h
  obtain ⟨_, flushed, hflush, h⟩ := exists_of_bind_ok h
  obtain ⟨line, heard, hhear, h⟩ := exists_of_bind_ok h
  have hsaid := (speaks_say prompt).length_input_of_ok hsay
  have hflushed := speaks_flush.length_input_of_ok hflush
  cases hline : line.isEmpty with
  | true =>
    rw [hline, if_pos rfl] at h
    obtain ⟨_, _, _, h⟩ := exists_of_bind_ok h
    cases h
  | false =>
    have hheard := input_lt_of_hear hhear hline
    rw [hline, if_neg Bool.false_ne_true] at h
    split at h
    · cases h
      omega
    · split at h
      · cases h
      · obtain ⟨_, answered, hanswer, h⟩ := exists_of_bind_ok h
        have hanswered := (speaks_answer _).length_input_of_ok hanswer
        cases h
        omega

/-- There are no more turns than bytes of input. -/
theorem turns_eq (count : Nat) {others : Nat} {machine : Machine}
    (h : machine.console.input.length < count) (h' : machine.console.input.length < others) :
    turns setup frame roots count machine = turns setup frame roots others machine := by
  -- a turn that is followed by another one leaves fewer bytes than there were before it, so the
  -- bytes left stay below both counts
  induction count generalizing others machine with
  | zero => exact absurd h (Nat.not_lt_zero _)
  | succ count ih =>
    cases others with
    | zero => exact absurd h' (Nat.not_lt_zero _)
    | succ others =>
      rw [turns, turns, bind_apply, bind_apply]
      cases hturn : turn setup frame roots machine with
      | error reason after => rfl
      | ok goesOn after =>
        cases goesOn with
        | false => rfl
        | true =>
          have hless := input_lt_of_turn hturn
          exact ih (by omega) (by omega)

/-- A conversation is one dialogue for all consoles with at most so much input. -/
theorem speaks_converse (setup : Setup) (frame : FrameId) (roots : Roots) (bytes : Nat) :
    Speaks bytes (converse setup frame roots) := by
  intro machine
  -- how many turns there may be depends on the console, but no dialogue does: take as many as
  -- any of these consoles allows
  have hturns : Speaks bytes (turns setup frame roots (bytes + 1)) := speaks_turns _
  obtain ⟨dialogue, honly, hrun⟩ := hturns machine
  refine ⟨dialogue, honly, fun console hfits => ?_⟩
  rw [← hrun console hfits]
  have hless : console.input.length ≤ bytes := Nat.cast_le.mp hfits
  exact turns_eq (console.input.length + 1) (Nat.lt_succ_self _) (Nat.lt_succ_of_le hless)

end Repl

end Scriptlet
