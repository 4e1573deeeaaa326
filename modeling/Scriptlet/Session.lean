import Scriptlet.Interpreter

set_option autoImplicit false

/-!
# Sessions

A session is what embeds the language in a host: one machine, and what the host holds of it under
names of its own.  The host holds scopes and values, which keeps them alive, and watches scopes,
which does not.  Giving a name again replaces what it stood for.

The roots of the machine are exactly what the host holds.
-/

namespace Scriptlet

/-! ## Things under names -/

/-- Things that the host has named, each name once. -/
abbrev Named (α : Type) := List (String × α)

namespace Named

variable {α : Type}

/-- Without the thing of a name. -/
def forget (name : String) (named : Named α) : Named α := named.filter (·.1 != name)

/-- With a thing under a name, which loses what it stood for. -/
def put (name : String) (thing : α) (named : Named α) : Named α :=
  (name, thing) :: forget name named

theorem lookup_put_self (name : String) (thing : α) (named : Named α) :
    (put name thing named).lookup name = some thing := by
  simp [put]

theorem lookup_forget_of_ne {name wanted : String} (h : wanted ≠ name) (named : Named α) :
    (forget name named).lookup wanted = named.lookup wanted := by
  induction named with
  | nil => rfl
  | cons entry rest ih =>
    obtain ⟨other, thing⟩ := entry
    simp only [forget, List.filter_cons] at ih ⊢
    by_cases same : other = name
    · subst same
      simp only [bne_self_eq_false, Bool.false_eq_true, if_false, List.lookup_cons,
        beq_eq_false_iff_ne.2 h]
      exact ih
    · simp only [bne_iff_ne, ne_eq, same, not_false_eq_true, if_true, List.lookup_cons, ih]

theorem lookup_put_of_ne {name wanted : String} (h : wanted ≠ name) (thing : α) (named : Named α) :
    (put name thing named).lookup wanted = named.lookup wanted := by
  rw [put, List.lookup_cons, beq_eq_false_iff_ne.2 h]
  exact lookup_forget_of_ne h named

end Named

/-! ## The state of a session -/

/-- A machine and what the host has named. -/
structure Session where
  setup : Setup
  machine : Machine
  /-- the scopes held -/
  scopes : Named FrameId
  /-- the values held -/
  values : Named Value
  /-- the scopes watched -/
  watched : Named FrameId

/-- Why a command makes no sense in a session. -/
inductive Mistake where
  | noScope (name : String)
  | noValue (name : String)
  | noBuiltin (name : String)
  /-- a hash that is written out with a key that has no place in it -/
  | badKey (key : ValueType)
  deriving DecidableEq, Repr, Inhabited

/-- A step of a session. -/
abbrev Step := EStateM Mistake Session

namespace Session

/-- The name of the scope that a session starts with. -/
def global : String := "global"

/-- What the host holds. -/
def roots (session : Session) : Roots :=
  ⟨session.scopes.map Prod.snd, session.values.map Prod.snd⟩

/-- A session that holds an empty scope. -/
def start (setup : Setup) (console : Console) : Session :=
  match (Machine.ofConsole console).newFrame setup ⟨[], []⟩ none with
  | (frame, machine) => ⟨setup, machine, [(global, frame)], [], []⟩

end Session

namespace Step

/-- What hashes key strings by. -/
def digest : Step Digest := do return (← get).setup.digest

/-- The scope of a name. -/
def scope (name : String) : Step FrameId := do
  match (← get).scopes.lookup name with
  | some frame => return frame
  | none => throw (.noScope name)

/-- Holds a scope under a name. -/
def holdScope (name : String) (frame : FrameId) : Step Unit :=
  modify fun session => { session with scopes := session.scopes.put name frame }

/-- Holds a value under a name. -/
def holdValue (name : String) (value : Value) : Step Unit :=
  modify fun session => { session with values := session.values.put name value }

/-- Holds a value under a name if there are both. -/
def keep (name : Option String) (value : Option Value) : Step Unit :=
  match name, value with
  | some name, some value => holdValue name value
  | _, _ => return ()

/-- Changes the machine, with a result. -/
def onMachine {α : Type} (change : Setup → Roots → Machine → α × Machine) : Step α := do
  let session ← get
  match change session.setup session.roots session.machine with
  | (result, machine) =>
    set { session with machine := machine }
    return result

/-- Evaluates. -/
def evaluate {α : Type} (evaluation : Setup → Roots → Eval α) : Step (Except Halt α) :=
  onMachine fun setup roots machine =>
    match evaluation setup roots machine with
    | .ok result machine => (.ok result, machine)
    | .error halt machine => (.error halt, machine)

/-- Makes a scope, and holds it under a name. -/
def newScope (name : String) (outer : Option FrameId) : Step Unit := do
  holdScope name (← onMachine fun setup roots => Machine.newFrame setup roots outer)

end Step

end Scriptlet
