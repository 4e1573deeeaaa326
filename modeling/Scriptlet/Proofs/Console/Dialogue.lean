import Scriptlet.Proofs.Console.Lines
import Scriptlet.Session

set_option autoImplicit false

/-!
# Dialogues

Component: the context of input and output, as everything sees it that reads or writes.
Specification: section 10.6, by which native functions run against an injected context of an output
and a line reader, and section 4.4 on `puts` and `readline`.

A `Dialogue` is what a computation does with a console: it asks for one thing after another, each
time going on from the answer, and ends with a result.  It is not a function of the console.  All
it gets to know of the input is the lines that it is answered, and it cannot give one back, look
ahead or read one twice.

So whatever is led by a dialogue takes the lines of the input in order and leaves the others
(`Dialogue.conserves`).

A request is answered by the console (`Request.answer`), and what it is answered tells what was
read: `readline` and the prompt get the text of the line or the fault that it is none
(`Request.Says`).  So an exchange is a request with its reply and, if it took one, with its line;
the exchanges with one console are its trace (`Dialogue.trace`).

Of the native functions only two use the console, and `readline` only if it is called without
arguments; all others are the same on every console (`Blind`).  The cases that later proofs
distinguish are just these three (`Request.native_cases`).
-/

namespace Scriptlet

/-! ## Computations -/

section

variable {ε σ α β : Type}

/-- What comes after a computation that has ended. -/
def goOn (next : α → EStateM ε σ β) : EStateM.Result ε σ α → EStateM.Result ε σ β
  | .ok result state => next result state
  | .error reason state => .error reason state

/-- Two steps, from a state. -/
theorem bind_apply (run : EStateM ε σ α) (next : α → EStateM ε σ β) (state : σ) :
    (run >>= next) state = goOn next (run state) := by
  change EStateM.bind run next state = _
  unfold EStateM.bind
  cases run state <;> rfl

/-- To look at the state leaves it. -/
theorem get_bind_apply (next : σ → EStateM ε σ α) (state : σ) :
    (get >>= next) state = next state state := rfl

/-- A change gives its result and the new state. -/
theorem modifyGet_apply (change : σ → α × σ) (state : σ) :
    (modifyGet change : EStateM ε σ α) state = .ok (change state).1 (change state).2 := rfl

end

/-! ## States with a console -/

/-- A state that a console is part of. -/
class HasConsole (σ : Type) where
  /-- the state with another console -/
  put : Console → σ → σ
  /-- the console of the state -/
  console : σ → Console
  console_put : ∀ other state, console (put other state) = other

instance : HasConsole Machine where
  put console machine := { machine with console := console }
  console := Machine.console
  console_put _ _ := rfl

instance : HasConsole Session where
  put console session := { session with machine := HasConsole.put console session.machine }
  console session := session.machine.console
  console_put _ _ := rfl

/-- The ending with another console. -/
def putConsole {ε σ α : Type} [HasConsole σ] (console : Console) :
    EStateM.Result ε σ α → EStateM.Result ε σ α
  | .ok result state => .ok result (HasConsole.put console state)
  | .error reason state => .error reason (HasConsole.put console state)

/-- The console of an ending. -/
def endingConsole {ε σ α : Type} [HasConsole σ] : EStateM.Result ε σ α → Console
  | .ok _ state | .error _ state => HasConsole.console state

/-- The console that has been put is there. -/
theorem endingConsole_putConsole {ε σ α : Type} [HasConsole σ] (console : Console)
    (ending : EStateM.Result ε σ α) : endingConsole (putConsole console ending) = console := by
  cases ending with
  | ok result state => exact HasConsole.console_put console state
  | error reason state => exact HasConsole.console_put console state

/-! ## Requests -/

/-- What a console is asked for. -/
inductive Request where
  /-- what a native function does, called with some arguments on a machine with this console in
  place of its own -/
  | native (files : Files) (operation : Intrinsic) (arguments : List Value) (machine : Machine)
  /-- to write a text -/
  | write (text : String)
  /-- to pass on what has been written -/
  | flush
  /-- the next line -/
  | line

namespace Request

/-- What a request is answered.  The machine that a native function leaves is part of the answer,
but not its console. -/
def Reply : Request → Type
  | .native .. => EStateM.Result Halt Machine Value
  | .write _ | .flush => Except OutputFault Unit
  | .line => Except InputFault String

/-- The answer of a console, which the request may change. -/
def answer : (request : Request) → Console → request.Reply × Console
  | .native files operation arguments machine, console =>
    let ending := operation.run files arguments (HasConsole.put console machine)
    (putConsole default ending, endingConsole ending)
  | .write text, console => console.write text
  | .flush, console => (console.flush, console)
  | .line, console => console.readLine

/-- Whether a request takes a line of the input: directly, or by a call of `readline` that is not
rejected for its arguments. -/
def reads : Request → Bool
  | .native _ .readline [] _ | .line => true
  | .native .. | .write _ | .flush => false

/-- Whether a request is a call of a native function. -/
def isNative : Request → Bool
  | .native .. => true
  | .write _ | .flush | .line => false

end Request

/-! ## Dialogues -/

/-- What is asked of a console, each time going on from the answer, until there is a result. -/
inductive Dialogue (ρ : Type) where
  | ended (result : ρ)
  | ask (request : Request) (next : request.Reply → Dialogue ρ)

/-- A request with the bytes it has been handed, if it takes a line, and what it is answered. -/
structure Exchange where
  request : Request
  line : Option (List UInt8)
  reply : request.Reply

namespace Dialogue

variable {ρ τ : Type}

/-- The dialogue with a console. -/
def run : Dialogue ρ → Console → ρ × Console
  | .ended result, console => (result, console)
  | .ask request next, console =>
    match request.answer console with
    | (reply, console) => (next reply).run console

/-- The requests made in the dialogue with a console, in order. -/
def trace : Dialogue ρ → Console → List Exchange
  | .ended _, _ => []
  | .ask request next, console =>
    ⟨request, if request.reads then some (Console.splitLine console.input).1 else none,
        (request.answer console).1⟩ ::
      match request.answer console with
      | (reply, console) => (next reply).trace console

/-- Whether all requests are allowed ones, whatever is answered. -/
def Only (allowed : Request → Prop) : Dialogue ρ → Prop
  | .ended _ => True
  | .ask request next => allowed request ∧ ∀ reply, (next reply).Only allowed

/-- A dialogue and the one that goes on from its result. -/
def bind (next : ρ → Dialogue τ) : Dialogue ρ → Dialogue τ
  | .ended result => next result
  | .ask request rest => .ask request fun reply => (rest reply).bind next

/-- One dialogue behind another goes on with the console that is left. -/
theorem run_bind (next : ρ → Dialogue τ) (dialogue : Dialogue ρ) (console : Console) :
    (dialogue.bind next).run console =
      (next (dialogue.run console).1).run (dialogue.run console).2 := by
  induction dialogue generalizing console with
  | ended result => rfl
  | ask request rest ih => exact ih _ _

/-- Both make the allowed requests only. -/
theorem Only.bind {allowed : Request → Prop} {next : ρ → Dialogue τ} {dialogue : Dialogue ρ}
    (h : dialogue.Only allowed) (hnext : ∀ result, (next result).Only allowed) :
    (dialogue.bind next).Only allowed := by
  induction dialogue with
  | ended result => exact hnext result
  | ask request rest ih => exact ⟨h.1, fun reply => ih reply (h.2 reply)⟩

/-- What is allowed may be more. -/
theorem Only.mono {allowed others : Request → Prop} {dialogue : Dialogue ρ}
    (h : dialogue.Only allowed) (hsub : ∀ request, allowed request → others request) :
    dialogue.Only others := by
  induction dialogue with
  | ended result => trivial
  | ask request rest ih => exact ⟨hsub request h.1, fun reply => ih reply (h.2 reply)⟩

end Dialogue

/-! ## Native functions and the console -/

/-- Whether a computation neither sees nor changes the console. -/
class Blind {ε σ α : Type} [HasConsole σ] (run : EStateM ε σ α) : Prop where
  put : ∀ console state, run (HasConsole.put console state) = putConsole console (run state)

namespace Blind

variable {ε σ α β : Type} [HasConsole σ]

instance bind (run : EStateM ε σ α) (next : α → EStateM ε σ β) [Blind run]
    [∀ result, Blind (next result)] : Blind (run >>= next) where
  put := by
    intro console state
    have hrun : run (HasConsole.put console state) = putConsole console (run state) :=
      Blind.put console state
    rw [bind_apply, bind_apply, hrun]
    cases run state with
    | ok result middle => exact (inferInstance : Blind (next result)).put console middle
    | error reason middle => rfl

instance (result : α) : Blind (pure result : EStateM ε σ α) := ⟨fun _ _ => rfl⟩

instance (fault : Fault) : Blind (Eval.fail fault : Eval α) := ⟨fun _ _ => rfl⟩

instance (elements : List Value) : Blind (Eval.newArray elements) := ⟨fun _ _ => rfl⟩

instance (arguments : List Value) (wanted : Nat) : Blind (checkCount arguments wanted) := by
  unfold checkCount
  split <;> infer_instance

instance (arguments : List Value) : Blind (soleArgument arguments) := by
  unfold soleArgument
  infer_instance

instance (operation : Intrinsic) (value : Value) : Blind (elementsOf operation value) := by
  unfold elementsOf
  split <;> infer_instance

instance (value : Value) : Blind (lengthOf value) := by
  unfold lengthOf
  split <;> infer_instance

instance (files : Files) (path : String) : Blind (readFile files path) where
  put := by
    intro console machine
    unfold readFile
    cases files.read path <;> rfl

/-- Only `puts` and `readline` use the console. -/
theorem run {operation : Intrinsic} (hputs : operation ≠ .puts) (hreadline : operation ≠ .readline)
    (files : Files) (arguments : List Value) : Blind (operation.run files arguments) := by
  cases operation with
  | len | first | last => exact bind _ _
  | rest =>
    refine @bind _ _ _ _ _ _ _ inferInstance fun value =>
      @bind _ _ _ _ _ _ _ inferInstance fun elements => ?_
    split <;> infer_instance
  | push => exact bind _ _
  | puts => exact absurd rfl hputs
  | readline => exact absurd rfl hreadline
  | readfile =>
    refine @bind _ _ _ _ _ _ _ inferInstance fun value => ?_
    split <;> infer_instance

end Blind

/-- How `puts` ends. -/
def putsEnding (machine : Machine) : Except OutputFault Unit → EStateM.Result Halt Machine Value
  | .ok () => .ok .null machine
  | .error fault => .error (.fault (.output fault)) machine

/-- How `readline` ends. -/
def readlineEnding (machine : Machine) :
    Except InputFault String → EStateM.Result Halt Machine Value
  | .ok line => .ok (.string (dropLineEnd line)) machine
  | .error fault => .error (.fault (.input fault)) machine

/-- A step on the console is answered by it, and what follows sees the answer. -/
theorem onConsole_bind_apply {α β : Type} (change : Console → α × Console) (next : α → Eval β)
    (machine : Machine) :
    (Eval.onConsole change >>= next) machine =
      next (change machine.console).1 (HasConsole.put (change machine.console).2 machine) := rfl

/-- All that `puts` does is to write its arguments. -/
theorem run_puts (files : Files) (arguments : List Value) (machine : Machine) :
    Intrinsic.puts.run files arguments machine =
      putConsole (writeValues arguments machine.console).2
        (putsEnding machine (writeValues arguments machine.console).1) := by
  rw [Intrinsic.run, onConsole_bind_apply]
  generalize writeValues arguments machine.console = result
  rcases result with ⟨_ | _, next⟩ <;> rfl

/-- All that `readline` does is to read a line and to trim it. -/
theorem run_readline_nil (files : Files) (machine : Machine) :
    Intrinsic.readline.run files [] machine =
      putConsole machine.console.readLine.2
        (readlineEnding machine machine.console.readLine.1) := by
  rw [Intrinsic.run, checkCount, if_pos List.length_nil, bind_apply]
  change (Eval.onConsole Console.readLine >>= _) machine = _
  rw [onConsole_bind_apply]
  generalize machine.console.readLine = result
  rcases result with ⟨_ | _, next⟩ <;> rfl

/-- A call of `readline` with arguments is rejected, and changes nothing. -/
theorem run_readline_of_ne_nil (files : Files) {arguments : List Value} (h : arguments ≠ [])
    (machine : Machine) :
    Intrinsic.readline.run files arguments machine =
      .error (.fault (.argumentCount arguments.length 0)) machine := by
  obtain ⟨argument, rest, rfl⟩ := List.exists_cons_of_ne_nil h
  rfl

/-! ## What requests are answered -/

namespace Request

/-- The answer to a call is its ending, but for the console, which is the one left. -/
theorem answer_of_run {files : Files} {operation : Intrinsic} {arguments : List Value}
    {machine : Machine} {console next : Console} {ending : EStateM.Result Halt Machine Value}
    (h : operation.run files arguments (HasConsole.put console machine) = putConsole next ending) :
    (native files operation arguments machine).answer console =
      (putConsole default ending, next) := by
  have hanswer : (native files operation arguments machine).answer console =
      (putConsole default (putConsole next ending), endingConsole (putConsole next ending)) := by
    rw [← h]
    rfl
  rw [hanswer]
  cases ending <;> rfl

/-- The answer to a call of `puts`. -/
theorem answer_puts (files : Files) (arguments : List Value) (machine : Machine)
    (console : Console) :
    (native files .puts arguments machine).answer console =
      (putConsole default
          (putsEnding (HasConsole.put console machine) (writeValues arguments console).1),
        (writeValues arguments console).2) :=
  answer_of_run (run_puts files arguments _)

/-- The answer to a call of `readline`. -/
theorem answer_readline (files : Files) (machine : Machine) (console : Console) :
    (native files .readline [] machine).answer console =
      (putConsole default (readlineEnding (HasConsole.put console machine) console.readLine.1),
        console.readLine.2) :=
  answer_of_run (run_readline_nil files _)

/-- The answer to any other call, by which the console is left as it is. -/
theorem answer_of_blind {files : Files} {operation : Intrinsic} {arguments : List Value}
    (blind : Blind (operation.run files arguments)) (machine : Machine) (console : Console) :
    (native files operation arguments machine).answer console =
      (putConsole default (operation.run files arguments machine), console) :=
  answer_of_run (blind.put console machine)

/-- A rejected call of `readline` does not see the console. -/
theorem blind_readline_cons (files : Files) (argument : Value) (rest : List Value) :
    Blind (Intrinsic.readline.run files (argument :: rest)) := ⟨fun _ _ => rfl⟩

/-- Requests are to write, to read, or do not see the console. -/
theorem native_cases (files : Files) (operation : Intrinsic) (arguments : List Value) :
    operation = .puts ∨ (operation = .readline ∧ arguments = []) ∨
      Blind (operation.run files arguments) ∧
        ∀ machine, (native files operation arguments machine).reads = false := by
  cases operation with
  | puts => exact .inl rfl
  | readline =>
    cases arguments with
    | nil => exact .inr (.inl ⟨rfl, rfl⟩)
    | cons argument rest =>
      exact .inr (.inr ⟨blind_readline_cons files argument rest, fun _ => rfl⟩)
  | len | first | last | rest | push | readfile =>
    exact .inr (.inr ⟨Blind.run Intrinsic.noConfusion Intrinsic.noConfusion files arguments,
      fun _ => rfl⟩)

/-- Whether a reply is what a line says.  A request for a line is answered the text of the line, or
that the bytes are no text; `readline` is worth the text without its end, or fails. -/
def Says : (request : Request) → List UInt8 → request.Reply → Prop
  | .line, bytes, reply => reply = lineText bytes
  | .native _ .readline [] machine, bytes, reply =>
    reply = putConsole default (readlineEnding machine (lineText bytes))
  | .native .., _, _ | .write _, _, _ | .flush, _, _ => False

/-- A request that takes a line is answered what the line says. -/
theorem answer_says {request : Request} (h : request.reads = true) (console : Console) :
    request.Says (Console.splitLine console.input).1 (request.answer console).1 := by
  cases request with
  | write | flush => cases h
  | line => rfl
  | native files operation arguments machine =>
    rcases native_cases files operation arguments with rfl | ⟨rfl, rfl⟩ | ⟨_, hsilent⟩
    · cases h
    · rw [answer_readline, Console.readLine_fst, Says]
      cases lineText (Console.splitLine console.input).1 <;> rfl
    · rw [hsilent machine] at h
      cases h

/-- A request takes the next line or leaves the input. -/
theorem input_answer (request : Request) (console : Console) :
    (request.answer console).2.input =
      if request.reads then (Console.splitLine console.input).2 else console.input := by
  cases request with
  | write | flush | line => rfl
  | native files operation arguments machine =>
    rcases native_cases files operation arguments with rfl | ⟨rfl, rfl⟩ | ⟨hblind, hreads⟩
    · rw [answer_puts]
      exact Console.input_writeValues arguments console
    · rw [answer_readline]
      rfl
    · rw [answer_of_blind hblind, hreads machine]
      rfl

/-- No request puts input back. -/
theorem length_input_le (request : Request) (console : Console) :
    (request.answer console).2.input.length ≤ console.input.length := by
  rw [input_answer]
  split
  · exact Console.length_splitLine_le _
  · exact Nat.le_refl _

/-- What has been written stays. -/
theorem extends_answer (request : Request) (console : Console) :
    console.Extends (request.answer console).2 := by
  cases request with
  | write text => exact .write text console
  | flush => exact .refl console
  | line => exact .readLine console
  | native files operation arguments machine =>
    rcases native_cases files operation arguments with rfl | ⟨rfl, rfl⟩ | ⟨hblind, _⟩
    · rw [answer_puts]
      exact .writeValues arguments console
    · rw [answer_readline]
      exact .readLine console
    · rw [answer_of_blind hblind]
      exact .refl console

/-- The answer depends on the input by the line that is handed out, if one is, and not at all
otherwise. -/
theorem answer_eq_of_line {request : Request} {console : Console} {input : List UInt8}
    {starved : Option Nat} (h : request.reads = true →
      (Console.splitLine input).1 = (Console.splitLine console.input).1) :
    (request.answer (console.withInput input starved)).1 = (request.answer console).1 := by
  have hreadLine : (Console.splitLine input).1 = (Console.splitLine console.input).1 →
      (console.withInput input starved).readLine.1 = console.readLine.1 := by
    intro hline
    simp only [Console.readLine, Console.withInput, hline]
  cases request with
  | write | flush => rfl
  | line => exact hreadLine (h rfl)
  | native files operation arguments machine =>
    rcases native_cases files operation arguments with rfl | ⟨rfl, rfl⟩ | ⟨hblind, _⟩
    · rw [answer_puts, answer_puts, Console.writeValues_withInput]
      generalize (writeValues arguments console).1 = result
      rcases result with _ | _ <;> rfl
    · rw [answer_readline, answer_readline, hreadLine (h rfl)]
      generalize console.readLine.1 = result
      rcases result with _ | _ <;> rfl
    · rw [answer_of_blind hblind, answer_of_blind hblind]

end Request

/-- Whether the requests made between two consoles took the lines of the input in order.  What was
handed out is a front of the lines that the input splits into, and the others are still there; after
the last of them nothing was handed out any more but empty lines.  Whoever took a line was answered
what it says.  If no request took a line, the input is what it was.  What had been written has only
been added to. -/
structure Conserves (exchanges : List Exchange) (before after : Console) : Prop where
  lines : ∃ taken ends, exchanges.filterMap Exchange.line = taken ++ List.replicate ends [] ∧
    splitLines before.input = taken ++ splitLines after.input ∧ (ends ≠ 0 → after.input = [])
  replies : ∀ exchange ∈ exchanges, (exchange.line.isSome = exchange.request.reads) ∧
    ∀ line, exchange.line = some line → exchange.request.Says line exchange.reply
  untouched : (∀ exchange ∈ exchanges, exchange.request.reads = false) →
    after.input = before.input
  grows : before.Extends after

namespace Conserves

/-- Where nothing is asked nothing is taken. -/
theorem nil (console : Console) : Conserves [] console console where
  lines := ⟨[], 0, rfl, rfl, fun h => absurd rfl h⟩
  replies := fun _ hmem => absurd hmem List.not_mem_nil
  untouched := fun _ => rfl
  grows := .refl console

/-- The line of the first request stands before those of the others. -/
theorem cons {request : Request} {exchanges : List Exchange} {before after : Console}
    (h : Conserves exchanges (request.answer before).2 after) :
    Conserves (⟨request, if request.reads then some (Console.splitLine before.input).1 else none,
      (request.answer before).1⟩ :: exchanges) before after := by
  have hinput := request.input_answer before
  refine ⟨?_, ?_, fun hsilent => ?_, (request.extends_answer before).trans h.grows⟩
  · obtain ⟨taken, ends, hlines, hsplit, hends⟩ := h.lines
    rw [hinput] at hsplit
    cases hreads : request.reads with
    | false =>
      simp only [hreads, Bool.false_eq_true, if_false] at hsplit ⊢
      exact ⟨taken, ends, hlines, hsplit, hends⟩
    | true =>
      simp only [hreads, if_true] at hsplit ⊢
      rw [List.filterMap_cons, hlines]
      -- at the end of the input a request is handed an empty line, which is none of those that
      -- the input splits into
      by_cases hempty : before.input = []
      · rw [hempty] at hsplit ⊢
        obtain ⟨rfl, hafter⟩ := List.append_eq_nil_iff.mp hsplit.symm
        refine ⟨[], ends + 1, rfl, hsplit, fun _ => ?_⟩
        rw [← flatten_splitLines after.input, hafter]
        rfl
      · exact ⟨(Console.splitLine before.input).1 :: taken, ends, rfl, by
          rw [splitLines_eq_cons hempty, hsplit]
          rfl, hends⟩
  · refine List.forall_mem_cons.mpr ⟨?_, h.replies⟩
    cases hreads : request.reads with
    | false => exact ⟨by simp, fun line hline => by simp at hline⟩
    | true =>
      refine ⟨by simp, fun line hline => ?_⟩
      obtain rfl : (Console.splitLine before.input).1 = line := by simpa using hline
      exact Request.answer_says hreads before
  · obtain ⟨hfirst, hrest⟩ := List.forall_mem_cons.mp hsilent
    have hreads : request.reads = false := hfirst
    rw [hreads] at hinput
    exact (h.untouched hrest).trans hinput

end Conserves

/-- A dialogue takes the lines of the input in order. -/
theorem Dialogue.conserves {ρ : Type} (dialogue : Dialogue ρ) (console : Console) :
    Conserves (dialogue.trace console) console (dialogue.run console).2 := by
  induction dialogue generalizing console with
  | ended result => exact .nil console
  | ask request next ih => exact .cons (ih _ _)

end Scriptlet
