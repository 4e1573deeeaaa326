import Scriptlet.Proofs.Console.Commands

set_option autoImplicit false

/-!
# Input is conserved

Component: the context of input and output, with all that reads from it.  Specification: section 6
on the prompt, sections 4.4 and 10.6 on `readline`, which reads one line from the context that is
injected into the evaluator, and section 5, by which everything runs in one order.

Commands to a session, the lines a conversation reads and the calls of `readline` in whatever is
evaluated take their lines from one console.  Each line goes to the one that asks next, and what
nobody asks for stays.

What a reader does with its line is part of the statement.  Each reading request is answered its own
line: `readline` and the prompt get its text, or the fault that it is none, and the host gets the
text as it is (`Request.Says`).  At the end of the input the line is empty, and it is again so for
whoever asks next.

The last section runs a session in which the host reads a line, a script calls `readline`, the
prompt hears a line whose program calls `readline`, and so on in turn until a line is left over.
-/

namespace Scriptlet

/-! ## Sessions -/

/-- Carries out some commands one after the other, also after mistakes. -/
def Session.performAll : List Command → Session → List (Except Mistake Answer) × Session
  | [], session => ([], session)
  | command :: rest, session =>
    match session.perform command with
    | (answer, session) =>
      match performAll rest session with
      | (answers, session) => (answer.map Prod.fst :: answers, session)

/-- Commands given one after the other are dialogues one behind the other. -/
theorem speaks_performAll (bytes : Nat) (commands : List Command) :
    Speaks bytes (modifyGet (Session.performAll commands) :
      EStateM Mistake Session (List (Except Mistake Answer))) := by
  induction commands with
  | nil => exact .modifyGet fun _ _ => rfl
  | cons command rest ih =>
    have hcons : (modifyGet (Session.performAll (command :: rest)) :
        EStateM Mistake Session (List (Except Mistake Answer))) =
        (do
          let answer ← attempt command.perform
          let answers ← modifyGet (Session.performAll rest)
          return answer :: answers) := by
      funext session
      rw [modifyGet_apply, bind_apply, attempt, Session.performAll, Session.perform]
      rcases command.perform session with ⟨_, _⟩ | ⟨_, _⟩ <;> rfl
    rw [hcons]
    exact (speaks_perform bytes command).attempt.bind fun _ => ih.bind fun _ => .pure _

/-! ## Lines taken in order -/

/-- Whether a computation takes the lines of its input in order.  There is a dialogue that leads
it, making allowed requests only, and whatever dialogue leads it, the lines that are handed out in
it are the first of those that the input splits into, and the others are left. -/
structure TakesLines (allowed : Request → Prop) (bound : ℕ∞) {ε σ α : Type} [HasConsole σ]
    (run : EStateM ε σ α) : Prop where
  talks : Talks allowed bound run
  conserves : ∀ (state : σ) (dialogue : Dialogue (EStateM.Result ε σ α)),
    dialogue.Leads bound run state → ∀ console : Console, (console.input.length : ℕ∞) ≤ bound →
      Conserves (dialogue.trace console) console
        (endingConsole (run (HasConsole.put console state)))

/-- Every dialogue takes its lines in order. -/
theorem Talks.takesLines {allowed : Request → Prop} {bound : ℕ∞} {ε σ α : Type} [HasConsole σ]
    {run : EStateM ε σ α} (h : Talks allowed bound run) : TakesLines allowed bound run where
  talks := h
  conserves := fun state dialogue leads console hfits => by
    rw [leads console hfits, endingConsole_putConsole]
    exact dialogue.conserves console

/-! ## Readers -/

/-- A call of `readline` is worth the text of the next line without its end. -/
theorem run_readline_eq (files : Files) (machine : Machine) :
    Intrinsic.readline.run files [] machine =
      putConsole machine.console.readLine.2
        (readlineEnding machine (lineText (Console.splitLine machine.console.input).1)) :=
  run_readline_nil files machine

/-- The prompt hears the text of the next line. -/
theorem Repl.hear_eq_lineText (machine : Machine) :
    hear machine =
      replyEnding .input (HasConsole.put machine.console.readLine.2 machine)
        (lineText (Console.splitLine machine.console.input).1) :=
  hear_eq machine

/-- A host that reads a line is handed its text. -/
theorem perform_readLine (session : Session) :
    Command.readLine.perform session =
      .ok (.line (lineText (Console.splitLine session.machine.console.input).1))
        (HasConsole.put session.machine.console.readLine.2 session) := rfl

/-! ## All together -/

/-- That console input is conserved, whatever it is, and output only grows. -/
structure InputConserved : Prop where
  /-- an evaluation, however it ends, uses the console by calling native functions only, and the
  lines handed out to them are the first of the input -/
  evaluations : ∀ (setup : Setup) (frame : FrameId) (roots : Roots),
    (∀ expression, TakesLines (fun request => request.isNative = true) ⊤
      (evalExpression setup (invokeWithin setup setup.callDepth) frame roots expression)) ∧
    (∀ statement, TakesLines (fun request => request.isNative = true) ⊤
      (execute setup frame roots statement)) ∧
    (∀ program, TakesLines (fun request => request.isNative = true) ⊤
      (modifyGet (runProgram setup frame roots program) : Eval Outcome)) ∧
    ∀ callee arguments, TakesLines (fun request => request.isNative = true) ⊤
      (applyCallable setup roots callee arguments)
  /-- a conversation takes its lines from the same input as the programs that it runs -/
  conversations : ∀ (setup : Setup) (frame : FrameId) (roots : Roots) (bytes : Nat),
    TakesLines (fun _ => True) bytes (Repl.converse setup frame roots)
  /-- and a session, whatever its host asks for -/
  sessions : ∀ (bytes : Nat) (commands : List Command), TakesLines (fun _ => True) bytes
    (modifyGet (Session.performAll commands) : Step (List (Except Mistake Answer)))
  /-- what is answered depends on the input by the line that is handed out alone -/
  answers : ∀ (request : Request) (console : Console) (input : List UInt8) (starved : Option Nat),
    (request.reads = true → (Console.splitLine input).1 = (Console.splitLine console.input).1) →
    (request.answer (console.withInput input starved)).1 = (request.answer console).1
  /-- a call of `readline` is worth the line, without its end -/
  returned : ∀ (files : Files) (machine : Machine), Intrinsic.readline.run files [] machine =
    putConsole machine.console.readLine.2
      (readlineEnding machine (lineText (Console.splitLine machine.console.input).1))
  /-- with arguments it is rejected before it takes any -/
  rejected : ∀ (files : Files) (arguments : List Value) (machine : Machine), arguments ≠ [] →
    Intrinsic.readline.run files arguments machine =
      .error (.fault (.argumentCount arguments.length 0)) machine
  /-- the prompt hears the line -/
  heard : ∀ machine : Machine, Repl.hear machine =
    Repl.replyEnding .input (HasConsole.put machine.console.readLine.2 machine)
      (lineText (Console.splitLine machine.console.input).1)
  /-- and a host that asks for it is handed it -/
  handed : ∀ session : Session, Command.readLine.perform session =
    .ok (.line (lineText (Console.splitLine session.machine.console.input).1))
      (HasConsole.put session.machine.console.readLine.2 session)

/-- Console input is conserved.  The lines handed out to all who read are, in order, the first of
those that the input splits into, each of them is what its reader is answered, and the rest is left
(`Conserves`).  If nobody asks for a line, the input is left as it is. -/
theorem input_conserved : InputConserved where
  evaluations := fun setup frame roots =>
    ⟨fun expression =>
        (talks_expression (onlyCalls_invokeWithin setup _) expression frame roots).takesLines,
      fun statement => (talks_execute setup frame roots statement).takesLines,
      fun program => (talks_runProgram setup frame roots program).takesLines,
      fun callee arguments => (talks_applyCallable setup roots callee arguments).takesLines⟩
  conversations := fun setup frame roots bytes =>
    (Repl.speaks_converse setup frame roots bytes).takesLines
  sessions := fun bytes commands => (speaks_performAll bytes commands).takesLines
  answers := fun _ _ _ _ h => Request.answer_eq_of_line h
  returned := run_readline_eq
  rejected := fun files _ machine h => run_readline_of_ne_nil files h machine
  heard := Repl.hear_eq_lineText
  handed := perform_readLine

/-! ### A session with all its readers -/

/-- The text that a command comes to, if it comes to one. -/
def Answer.text? : Answer → Option String
  | .line (.ok text) | .value (some (.string text)) | .outcome (.finished (some (.string text))) =>
    some text
  | _ => none

/-- A session whose input has a program in it that reads on from there. -/
def sharedSession : Session :=
  .start (.standard ⟨fun _ => false, fun _ => .error .notFound⟩ 1)
    (.ofInput (Text.encode "readline()\none\nexit\ntwo\nthree\nfour"))

/-- A conversation, a line for the host, and two programs that call `readline`, of which the second
call is rejected. -/
def sharedCommands : List Command :=
  [.converse Session.global, .readLine, .run "readline()" Session.global false none,
    .run "readline(1)" Session.global false none]

/-- The lines that are handed out. -/
def sharedLines : List (List UInt8) :=
  ["readline()\n", "one\n", "exit\n", "two\n", "three\n"].map Text.encode

/-- The prompt, the program that it runs, the host, and a program that the host runs take turns on
one input, and each of them is answered its own line. -/
theorem input_conserved_shared :
    ∃ dialogue : Dialogue (EStateM.Result Mistake Session (List (Except Mistake Answer))),
      let before := sharedSession.machine.console
      let ended := sharedSession.performAll sharedCommands
      dialogue.Leads before.input.length (modifyGet (Session.performAll sharedCommands))
        sharedSession ∧
      (dialogue.trace before).filterMap Exchange.line = sharedLines ∧
      (∀ exchange ∈ dialogue.trace before, ∀ line, exchange.line = some line →
        exchange.request.Says line exchange.reply) ∧
      (ended.1.map fun answer => answer.toOption.bind Answer.text?) =
        [none, some "two\n", some "three", none] ∧
      ended.2.machine.console.written.toList = Text.encode ">> one\n>> " ∧
      ended.2.machine.console.input = Text.encode "four" := by
  have hsession := input_conserved.sessions sharedSession.machine.console.input.length
    sharedCommands
  obtain ⟨dialogue, _, hleads⟩ := hsession.talks sharedSession
  have hconserves := hsession.conserves sharedSession dialogue hleads
    sharedSession.machine.console le_rfl
  have hleft : (sharedSession.performAll sharedCommands).2.machine.console.input =
      Text.encode "four" := by decide +kernel
  have hafter : (endingConsole ((modifyGet (Session.performAll sharedCommands) :
      Step (List (Except Mistake Answer))) (HasConsole.put sharedSession.machine.console
        sharedSession))).input = Text.encode "four" := hleft
  obtain ⟨taken, ends, htrace, hsplit, hends⟩ := hconserves.lines
  rw [hafter] at hsplit hends
  -- as something is left, nobody has been handed anything behind the last line
  obtain rfl : ends = 0 := by
    by_contra hne
    exact absurd (hends hne) (by decide +kernel)
  have hlines : splitLines sharedSession.machine.console.input =
      sharedLines ++ splitLines (Text.encode "four") := by decide +kernel
  have htaken : taken = sharedLines := List.append_cancel_right (hsplit.symm.trans hlines)
  refine ⟨dialogue, hleads, ?_, fun exchange hmem => (hconserves.replies exchange hmem).2,
    by decide +kernel, by decide +kernel, hleft⟩
  rw [htrace, htaken]
  exact List.append_nil _

end Scriptlet
