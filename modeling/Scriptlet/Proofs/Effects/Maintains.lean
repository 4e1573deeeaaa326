import Scriptlet.Intrinsic
import Scriptlet.Proofs.Console.Dialogue
import Scriptlet.Proofs.Heap.Contents

set_option autoImplicit false

/-!
# What computations maintain

Component: computations on the state of the evaluator, and the native functions.  Specification:
section 4.4, by which each native function checks the number and the types of its arguments, and
section 7, by which any evaluation may be cut short by an error.

Evaluations, steps of a session and parts of a conversation all change a state and may be cut short.
`Maintains` says of any of them that what holds of the state before holds after it, however it ends,
and of what kind its results and errors are.  It is found from the parts of a computation.

Native functions look no further into values than the elements of arrays, and make nothing but
arrays.  So what is closed under that, they maintain (`Encloses.run`).

An invariant is given by three parts: what holds of the machine, of the reasons to stop and of
values (`Encloses`).  What a native function must not break is told by four conditions on these.
They are met by every invariant that speaks of the frames and of what values contain, whatever else
it says.
-/

namespace Scriptlet

/-- Whether a computation keeps what holds of its state, however it ends, and ends with results and
errors of some kind only. -/
def Maintains {ε σ α : Type} (state : σ → Prop) (error : ε → Prop) (kind : α → Prop)
    (run : EStateM ε σ α) : Prop :=
  ∀ start, state start →
    match run start with
    | .ok result after => state after ∧ kind result
    | .error reason after => state after ∧ error reason

namespace Maintains

variable {ε σ α β : Type} {state : σ → Prop} {error : ε → Prop} {kind : α → Prop}
  {other : β → Prop}

/-- What a step keeps, the next one may use. -/
theorem bind {run : EStateM ε σ α} {next : α → EStateM ε σ β}
    (hrun : Maintains state error kind run)
    (hnext : ∀ result, kind result → Maintains state error other (next result)) :
    Maintains state error other (run >>= next) := by
  intro start h
  have hfirst := hrun start h
  rw [bind_apply]
  cases hresult : run start with
  | ok result middle =>
    rw [hresult] at hfirst
    exact hnext result hfirst.2 middle hfirst.1
  | error reason middle =>
    rw [hresult] at hfirst
    exact hfirst

/-- A result of the kind may be returned. -/
theorem pure {result : α} (h : kind result) :
    Maintains state error kind (pure result : EStateM ε σ α) :=
  fun _ hstart => ⟨hstart, h⟩

/-- An error of the kind may be raised. -/
theorem throw {reason : ε} (h : error reason) :
    Maintains state error kind (throw reason : EStateM ε σ α) :=
  fun _ hstart => ⟨hstart, h⟩

/-- What holds of the state holds of what is seen of it. -/
theorem get : Maintains state error state (MonadState.get : EStateM ε σ σ) :=
  fun _ hstart => ⟨hstart, hstart⟩

/-- A change that keeps the state does so wherever it is made. -/
theorem modifyGet {change : σ → α × σ}
    (h : ∀ start, state start → state (change start).2 ∧ kind (change start).1) :
    Maintains state error kind (MonadStateOf.modifyGet change : EStateM ε σ α) := h

/-- Whatever is decided, both keep it. -/
theorem ite {condition : Prop} [Decidable condition] {first second : EStateM ε σ α}
    (h : Maintains state error kind first) (h' : Maintains state error kind second) :
    Maintains state error kind (if condition then first else second) := by
  split
  · exact h
  · exact h'

end Maintains

/-! ## Native functions -/

section

variable {state : Machine → Prop} {error : Halt → Prop} {worth : Value → Prop}

/-- A fault may be raised if it is of the kind. -/
theorem Maintains.fail {α : Type} {kind : α → Prop} {fault : Fault} (h : error (.fault fault)) :
    Maintains state error kind (Eval.fail fault : Eval α) := .throw h

/-- What is a value or a fault already is looked at itself. -/
theorem Maintains.ofExcept {α : Type} {kind : α → Prop} {result : Except Fault α}
    (hvalue : ∀ value, result = .ok value → kind value)
    (hfault : ∀ fault, result = .error fault → error (.fault fault)) :
    Maintains state error kind (Eval.ofExcept result) := by
  cases result with
  | ok value => exact .pure (hvalue value rfl)
  | error fault => exact .fail (hfault fault rfl)

/-- Whether states, errors and values of some kind are not left by native functions. -/
structure Encloses (state : Machine → Prop) (error : Halt → Prop) (worth : Value → Prop) :
    Prop where
  /-- the state does not depend on more than frames -/
  frames : ∀ {machine after : Machine}, state machine →
    after.heap.frames = machine.heap.frames → state after
  fault : ∀ fault, error (.fault fault)
  plain : ∀ {value : Value}, value.contents = [] → value.type ≠ .hash → worth value
  array : ∀ {object : ObjectId} {elements : List Value},
    worth (.array object elements) ↔ ∀ element ∈ elements, worth element

namespace Encloses

variable (h : Encloses state error worth)

include h

/-- The console has no part in it. -/
theorem onConsole {α : Type} (change : Console → α × Console) :
    Maintains state error (fun _ => True) (Eval.onConsole change) :=
  .modifyGet fun _ hstate => ⟨h.frames hstate rfl, trivial⟩

/-- An array of values of the kind is one. -/
theorem newArray {elements : List Value} (helements : ∀ element ∈ elements, worth element) :
    Maintains state error worth (Eval.newArray elements) :=
  fun _ hstate => ⟨h.frames hstate rfl, h.array.mpr helements⟩

/-- Counting arguments keeps anything. -/
theorem checkCount (arguments : List Value) (wanted : Nat) :
    Maintains state error (fun _ => True) (checkCount arguments wanted) :=
  .ite (.pure trivial) (.fail (h.fault _))

/-- Null is of every kind that is enclosed. -/
theorem null : worth .null := h.plain rfl ValueType.noConfusion

/-- The only argument is one of them. -/
theorem soleArgument {arguments : List Value}
    (harguments : ∀ argument ∈ arguments, worth argument) :
    Maintains state error worth (soleArgument arguments) := by
  refine (h.checkCount arguments 1).bind fun _ _ => .pure ?_
  cases arguments with
  | nil => exact h.null
  | cons argument rest => exact harguments argument List.mem_cons_self

/-- The elements of an array of the kind are of it. -/
theorem elementsOf (operation : Intrinsic) {value : Value} (hvalue : worth value) :
    Maintains state error (fun elements => ∀ element ∈ elements, worth element)
      (elementsOf operation value) := by
  cases value with
  | array object elements => exact .pure (h.array.mp hvalue)
  | null | integer | boolean | string | hash | function | builtin => exact .fail (h.fault _)

/-- A length is a number. -/
theorem lengthOf (value : Value) : Maintains state error worth (lengthOf value) := by
  cases value with
  | string | array => exact .pure (h.plain rfl ValueType.noConfusion)
  | null | integer | boolean | hash | function | builtin => exact .fail (h.fault _)

/-- What a file contains is a text. -/
theorem readFile (files : Files) (path : String) :
    Maintains state error worth (readFile files path) := by
  have hasked : Maintains state error (fun _ => True) (modify fun machine : Machine =>
      { machine with filesAsked := path :: machine.filesAsked }) :=
    .modifyGet fun _ hstate => ⟨h.frames hstate rfl, trivial⟩
  refine hasked.bind fun _ _ => ?_
  split
  · exact .pure (h.plain rfl ValueType.noConfusion)
  · exact .fail (h.fault _)

/-- So every native function maintains what encloses. -/
theorem run (files : Files) (operation : Intrinsic) {arguments : List Value}
    (harguments : ∀ argument ∈ arguments, worth argument) :
    Maintains state error worth (operation.run files arguments) := by
  have hsole := h.soleArgument harguments
  cases operation with
  | len => exact hsole.bind fun value _ => h.lengthOf value
  | first =>
    refine hsole.bind fun value hvalue => (h.elementsOf .first hvalue).bind
      fun elements helements => .pure ?_
    cases elements with
    | nil => exact h.null
    | cons element rest => exact helements element List.mem_cons_self
  | last =>
    refine hsole.bind fun value hvalue => (h.elementsOf .last hvalue).bind
      fun elements helements => .pure ?_
    cases hlast : elements.getLast? with
    | none => exact h.null
    | some element => exact helements element (List.mem_of_getLast? hlast)
  | rest =>
    refine hsole.bind fun value hvalue => (h.elementsOf .rest hvalue).bind
      fun elements helements => ?_
    cases elements with
    | nil => exact .pure h.null
    | cons element others => exact h.newArray (List.forall_mem_cons.mp helements).2
  -- the two arguments, which the count has made sure of, are the first and the last
  | push =>
    have hhead : worth (arguments.headD .null) := by
      cases arguments with
      | nil => exact h.null
      | cons argument rest => exact harguments argument List.mem_cons_self
    have hlast : worth (arguments.getLastD .null) := by
      cases arguments with
      | nil => exact h.null
      | cons argument rest =>
        rw [List.getLastD_cons]
        exact harguments _ (List.getLastD_mem_cons ..)
    refine (h.checkCount arguments 2).bind fun _ _ =>
      (h.elementsOf .push hhead).bind fun elements helements => h.newArray fun element hmem => ?_
    rcases List.mem_append.mp hmem with hmem | hmem
    · exact helements element hmem
    · exact List.mem_singleton.mp hmem ▸ hlast
  | puts =>
    refine (h.onConsole _).bind fun result _ => ?_
    cases result with
    | ok => exact .pure h.null
    | error fault => exact .fail (h.fault _)
  | readline =>
    refine (h.checkCount arguments 0).bind fun _ _ => (h.onConsole _).bind fun result _ => ?_
    cases result with
    | ok => exact .pure (h.plain rfl ValueType.noConfusion)
    | error fault => exact .fail (h.fault _)
  | readfile =>
    refine hsole.bind fun value _ => ?_
    cases value with
    | string path => exact h.readFile files path
    | null | integer | boolean | array | hash | function | builtin => exact .fail (h.fault _)

end Encloses

end

end Scriptlet
