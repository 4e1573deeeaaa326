import Scriptlet.Proofs.Parser.Run
import Scriptlet.Proofs.Tree.Parts

set_option autoImplicit false

/-!
# Accounts of a parse

Component: the parser.  Specification: sections 4.2 and 7, by which diagnostics go into one list and
the tree keeps what could be parsed, and section 10.3, by which a production that fails makes its
statement absent.

What a parse yields does not tell how it came about: which statements were tried, where, and which
of them an error belongs to.  An account tells that.  It is the list of what happens, in order:
errors are recorded and productions are called, each call with the states in which it starts and
stops, its result, and the account of what happens inside.

`Happens` says what happens inside of which calls, and `gather` collects it in order.

Accounts are trees, as calls hold the accounts of what happens inside of them.  Two ways to go
through them are enough for all that follows.  `Happens` finds one event below the calls around it,
and is used to say where something is; `gather` lists what events yield, in order, and can leave out
the inside of some calls, and is used to say how many and in which order.  `mem_gather` connects the
two.

A call is `Truthful` if it is one of the parser: started in its state, its production does what the
call says.  An account in which every call is truthful says something about the parser and not about
itself.
-/

namespace Scriptlet

/-- The functions that the parser consists of. -/
inductive Production where
  | parameters
  | moreParameters
  | expression
  | extended
  | continued
  | operand
  | alternative
  | expressions
  | moreExpressions
  | pairs
  | block
  | statements
  | statement
  deriving DecidableEq, Repr

/-- What a production reads. -/
@[reducible] def Production.Tree : Production → Type
  | .parameters | .moreParameters => List Name
  | .expression | .extended | .continued | .operand => Expression
  | .alternative => Option Block
  | .expressions | .moreExpressions => List Expression
  | .pairs => List Pair
  | .block => Block
  | .statements => List Statement
  | .statement => Statement

/-- The parts inside of what a production reads.  A statement and a block are not inside of
themselves. -/
def Production.inner : (production : Production) → production.Tree → List Part
  | .parameters, tree | .moreParameters, tree => partsOfNames tree
  | .expression, tree | .extended, tree | .continued, tree | .operand, tree => tree.parts
  | .alternative, tree => partsOfAlternative tree
  | .expressions, tree | .moreExpressions, tree => partsOfExpressions tree
  | .pairs, tree => partsOfPairs tree
  | .block, tree => tree.inner
  | .statements, tree => partsOfStatements tree
  | .statement, tree => tree.inner

/-- What a production reads as a part of its own, if it is one. -/
def Production.node? : (production : Production) → production.Tree → Option Part
  | .block, tree => some (.block tree)
  | .statement, tree => some (.statement tree)
  | _, _ => none

/-- Whether a step of the parser is what a production does, within some budget and in some
context. -/
inductive Production.Performs : (production : Production) → Parse production.Tree → Prop where
  | parameters (budget : Nat) : Performs .parameters (Parse.parameters budget)
  | moreParameters (budget : Nat) : Performs .moreParameters (Parse.moreParameters budget)
  | expression (budget : Nat) (floor : Precedence) :
      Performs .expression (Parse.expression budget floor)
  | extended (budget : Nat) (floor : Precedence) (left : Expression) :
      Performs .extended (Parse.extended budget floor left)
  | continued (budget : Nat) (continuation : Continuation) (left : Expression) :
      Performs .continued (Parse.continued budget continuation left)
  | operand (budget : Nat) : Performs .operand (Parse.operand budget)
  | alternative (budget : Nat) : Performs .alternative (Parse.alternative budget)
  | expressions (budget : Nat) (close : TokenKind) :
      Performs .expressions (Parse.expressions budget close)
  | moreExpressions (budget : Nat) (close : TokenKind) :
      Performs .moreExpressions (Parse.moreExpressions budget close)
  | pairs (budget : Nat) : Performs .pairs (Parse.pairs budget)
  | block (budget : Nat) : Performs .block (Parse.block budget)
  | statements (budget : Nat) (inBlock : Bool) :
      Performs .statements (Parse.statements budget inBlock)
  | statement (budget : Nat) : Performs .statement (Parse.statement budget)

mutual

/-- Something that happens in a parse. -/
inductive ParseEvent where
  | recorded (error : SyntaxError)
  /-- a production has no budget left -/
  | exhausted
  | called (call : Call)

/-- A call of a production: where it starts and stops, what it reads, and what happens inside. -/
structure Call where
  production : Production
  start : ParseState
  stop : ParseState
  result : Option production.Tree
  events : List ParseEvent

end

/-! ## What happens inside of calls -/

/-- Whether something happens in an account inside of some calls, the outermost first. -/
inductive Happens (event : ParseEvent) : List Call → List ParseEvent → Prop where
  | here {events : List ParseEvent} (h : event ∈ events) : Happens event [] events
  | inside {call : Call} {above : List Call} {events : List ParseEvent} (h : .called call ∈ events)
      (inner : Happens event above call.events) : Happens event (call :: above) events

namespace Happens

variable {event : ParseEvent} {above : List Call} {events others : List ParseEvent}

/-- Nothing happens in an empty account. -/
theorem nil : ¬ Happens event above [] := by
  intro h
  cases h with
  | here h => exact List.not_mem_nil h
  | inside h => exact List.not_mem_nil h

/-- What happens in two accounts, one behind the other, happens in one of them. -/
theorem append :
    Happens event above (events ++ others) ↔
      Happens event above events ∨ Happens event above others := by
  constructor
  · intro h
    cases h with
    | here h => exact (List.mem_append.mp h).imp .here .here
    | inside h inner => exact (List.mem_append.mp h).imp (.inside · inner) (.inside · inner)
  · intro h
    obtain h | h := h
    all_goals
      cases h with
      | here h => exact .here (by simp [h])
      | inside h inner => exact .inside (by simp [h]) inner

/-- Where an error is recorded nothing else happens. -/
theorem recorded {error : SyntaxError} :
    Happens event above [.recorded error] ↔ event = .recorded error ∧ above = [] := by
  constructor
  · intro h
    cases h with
    | here h => exact ⟨List.mem_singleton.mp h, rfl⟩
    | inside h => cases List.mem_singleton.mp h
  · rintro ⟨rfl, rfl⟩
    exact .here List.mem_cons_self

/-- What happens in a call is the call itself and what happens inside of it. -/
theorem called {call : Call} :
    Happens event above [.called call] ↔ event = .called call ∧ above = [] ∨
      ∃ others, above = call :: others ∧ Happens event others call.events := by
  constructor
  · intro h
    cases h with
    | here h => exact .inl ⟨List.mem_singleton.mp h, rfl⟩
    | inside h inner =>
      cases List.mem_singleton.mp h
      exact .inr ⟨_, rfl, inner⟩
  · rintro (⟨rfl, rfl⟩ | ⟨others, rfl, inner⟩)
    · exact .here List.mem_cons_self
    · exact .inside List.mem_cons_self inner

/-- What happens inside of a call that happens, happens as well. -/
theorem trans {call : Call} {others : List Call} (h : Happens (.called call) above events)
    (inner : Happens event others call.events) :
    Happens event (above ++ call :: others) events := by
  generalize houter : ParseEvent.called call = outer at h
  induction h with
  | here h =>
    subst houter
    exact .inside h inner
  | inside h _ ih => exact .inside h ih

/-- The calls around something that happens, happen. -/
theorem exists_of_mem_above {call : Call} (h : Happens event above events) (hcall : call ∈ above) :
    ∃ others, Happens (.called call) others events := by
  induction h with
  | here => exact absurd hcall List.not_mem_nil
  | inside h _ ih =>
    obtain rfl | hcall := List.mem_cons.mp hcall
    · exact ⟨[], .here h⟩
    · obtain ⟨others, inner⟩ := ih hcall
      exact ⟨_ :: others, .inside h inner⟩

end Happens

/-! ## Collecting what happens -/

section

variable {β : Type} (enters : Call → Bool) (yields : ParseEvent → List β)

mutual

/-- What an event yields, and what the events inside of it do if it is entered. -/
def ParseEvent.gather : ParseEvent → List β
  | .recorded error => yields (.recorded error)
  | .exhausted => yields .exhausted
  | .called call => yields (.called call) ++ call.gather

/-- What the events inside of a call yield if it is entered. -/
def Call.gather : Call → List β
  | ⟨production, start, stop, result, events⟩ =>
    if enters ⟨production, start, stop, result, events⟩ then gather events else []

/-- What the events of an account yield in order, without the inside of calls that are not
entered. -/
def gather : List ParseEvent → List β
  | [] => []
  | event :: rest => event.gather ++ gather rest

end

variable {enters yields}

/-- What two accounts yield is what the first yields and what the second does. -/
theorem gather_append (events others : List ParseEvent) :
    gather enters yields (events ++ others) =
      gather enters yields events ++ gather enters yields others := by
  induction events with
  | nil => rfl
  | cons event events ih => rw [List.cons_append, gather, gather, ih, List.append_assoc]

/-- A call yields what it yields itself and, if it is entered, what is inside. -/
theorem gather_called (call : Call) :
    gather enters yields [.called call] =
      yields (.called call) ++ if enters call then gather enters yields call.events else [] := by
  obtain ⟨production, start, stop, result, events⟩ := call
  rw [gather, gather, List.append_nil, ParseEvent.gather, Call.gather]

/-- What an event yields is collected if all calls around it are entered. -/
theorem mem_gather_of_happens {x : β} {event : ParseEvent} {above : List Call}
    {events : List ParseEvent} (h : Happens event above events)
    (henters : ∀ call ∈ above, enters call = true)
    (hx : x ∈ yields event) : x ∈ gather enters yields events := by
  induction h with
  | here h =>
    obtain ⟨before, behind, rfl⟩ := List.append_of_mem h
    rw [gather_append, gather]
    cases event <;> simp [ParseEvent.gather, hx]
  | @inside call above events h inner ih =>
    obtain ⟨before, behind, rfl⟩ := List.append_of_mem h
    have hmem := ih fun other hother => henters other (List.mem_cons_of_mem _ hother)
    rw [List.append_cons, gather_append, gather_append, gather_called,
      if_pos (henters call List.mem_cons_self)]
    simp [hmem]

mutual

/-- What is collected from an event was yielded by it or by one inside of it. -/
theorem ParseEvent.exists_of_mem_gather {x : β} (event : ParseEvent)
    (h : x ∈ event.gather enters yields) :
    ∃ inner above, Happens inner above [event] ∧ (∀ call ∈ above, enters call = true) ∧
      x ∈ yields inner := by
  cases event with
  | recorded error => exact ⟨_, [], .here List.mem_cons_self, by simp, h⟩
  | exhausted => exact ⟨_, [], .here List.mem_cons_self, by simp, h⟩
  | called call =>
    obtain h | h := List.mem_append.mp h
    · exact ⟨_, [], .here List.mem_cons_self, by simp, h⟩
    · obtain ⟨hcall, inner, above, hhappens, henters, hx⟩ := call.exists_of_mem_gather h
      refine ⟨inner, call :: above, .inside List.mem_cons_self hhappens, ?_, hx⟩
      exact List.forall_mem_cons.mpr ⟨hcall, henters⟩

/-- The same for a call, by recursion on accounts and calls together. -/
theorem Call.exists_of_mem_gather {x : β} (call : Call) (h : x ∈ call.gather enters yields) :
    enters call = true ∧ ∃ inner above, Happens inner above call.events ∧
      (∀ call ∈ above, enters call = true) ∧ x ∈ yields inner := by
  obtain ⟨production, start, stop, result, events⟩ := call
  rw [Call.gather] at h
  split at h
  next hcall => exact ⟨hcall, exists_of_mem_gather events h⟩
  next => exact absurd h List.not_mem_nil

/-- The same for an account. -/
theorem exists_of_mem_gather {x : β} (events : List ParseEvent)
    (h : x ∈ gather enters yields events) :
    ∃ inner above, Happens inner above events ∧ (∀ call ∈ above, enters call = true) ∧
      x ∈ yields inner := by
  cases events with
  | nil => exact absurd h List.not_mem_nil
  | cons event rest =>
    rw [gather] at h
    obtain h | h := List.mem_append.mp h
    · obtain ⟨inner, above, hhappens, hrest⟩ := event.exists_of_mem_gather h
      exact ⟨inner, above, Happens.append.mpr (.inl hhappens), hrest⟩
    · obtain ⟨inner, above, hhappens, hrest⟩ := exists_of_mem_gather rest h
      have hhappens : Happens inner above ([event] ++ rest) := Happens.append.mpr (.inr hhappens)
      exact ⟨inner, above, hhappens, hrest⟩

end

/-- What is collected is what the events yield that happen inside of calls that are entered. -/
theorem mem_gather {x : β} {events : List ParseEvent} :
    x ∈ gather enters yields events ↔
      ∃ event above, Happens event above events ∧ (∀ call ∈ above, enters call = true) ∧
        x ∈ yields event :=
  ⟨exists_of_mem_gather events, fun ⟨_, _, h, henters, hx⟩ => mem_gather_of_happens h henters hx⟩

end

/-- The errors that an event is. -/
def ParseEvent.errors : ParseEvent → List SyntaxError
  | .recorded error => [error]
  | .exhausted | .called _ => []

/-- All errors that are recorded in an account, in order. -/
def errorsIn (events : List ParseEvent) : List SyntaxError :=
  gather (fun _ => true) ParseEvent.errors events

theorem errorsIn_append (events others : List ParseEvent) :
    errorsIn (events ++ others) = errorsIn events ++ errorsIn others :=
  gather_append events others

/-- The errors of an account that records errors only. -/
theorem errorsIn_recorded (errors : List SyntaxError) :
    errorsIn (errors.map .recorded) = errors := by
  induction errors with
  | nil => rfl
  | cons error errors ih => exact congrArg (error :: ·) ih

/-- A call has no error but those inside of it. -/
theorem errorsIn_called (call : Call) : errorsIn [.called call] = errorsIn call.events :=
  gather_called call

/-- Whether a call is one that the parser makes: started there, the production stops there with
that result, and the errors that it has recorded are those of the account. -/
def Call.Truthful (call : Call) : Prop :=
  ∃ step, call.production.Performs step ∧ step.outcome call.start = (call.result, call.stop) ∧
    call.stop.errors = call.start.errors ++ errorsIn call.events

/-- Where errors are recorded nothing is called. -/
theorem not_happens_called_map_recorded {call : Call} {above : List Call}
    {errors : List SyntaxError} : ¬ Happens (.called call) above (errors.map .recorded) := by
  intro h
  cases h with
  | here h => simp at h
  | inside h => simp at h

end Scriptlet
