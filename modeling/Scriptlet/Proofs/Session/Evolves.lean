import Scriptlet.Proofs.Console.Dialogue
import Scriptlet.Proofs.Effects.Histories
import Scriptlet.Session.Command

set_option autoImplicit false

/-!
# Steps of a session as histories

Component: the session of a host.  Specification: section 6 on the contract between the evaluator
and its host, which keeps environments and values from one evaluation to the next.

What a step of a session does to the heap is a history (`Step.Evolves`), from what the host holds
and has in hand before it to what it holds and has in hand then.  In hand is what has been built and
not yet put under a name.

A step is told by what its result has; a step that has failed has nothing but what is left in hand.

A host names what it holds, and a step may need more for a while: the elements of an array that is
being built, the arguments of a call.  So the roots of a step are the named scopes and values, and
the list in hand before them.
-/

namespace Scriptlet

variable {ready : Heap → Prop}

/-! ## Sessions -/

namespace Session

/-- The heap of a session, and what the host holds and has in hand of it. -/
def holding (inHand : List Value) (session : Session) : Holding :=
  ⟨session.machine.heap, session.roots.holdAll inHand⟩

/-- Whether the heap of a session is well-formed for what the host holds and has in hand, and its
setup heeds a condition. -/
structure Sound (ready : Heap → Prop) (inHand : List Value) (session : Session) : Prop where
  heeds : session.setup.Heeds ready
  wellFormed : (session.holding inHand).WellFormed

/-- Whether one session becomes another by a history. -/
structure Evolves (ready : Heap → Prop) (inHand : List Value) (session : Session)
    (others : List Value) (after : Session) : Prop where
  setup : after.setup = session.setup
  history : (session.holding inHand).Evolves ready (after.holding others)

variable {inHand others last : List Value} {session middle after : Session}

namespace Evolves

/-- One change after another is a change. -/
theorem trans (h : session.Evolves ready inHand others middle)
    (h' : middle.Evolves ready others last after) : session.Evolves ready inHand last after :=
  ⟨h'.setup.trans h.setup, h.history.trans h'.history⟩

/-- A session that is sound stays so. -/
theorem sound (h : session.Evolves ready inHand others after)
    (hsound : session.Sound ready inHand) : after.Sound ready others :=
  ⟨h.setup ▸ hsound.heeds, h.history.wellFormed hsound.wellFormed⟩

/-- What is in hand may be let go. -/
theorem keep (hsub : ∀ value ∈ others, value ∈ inHand) :
    session.Evolves ready inHand others session :=
  ⟨rfl, .keep ⟨fun _ hid => hid, fun value hvalue => by
    rcases List.mem_append.mp hvalue with hvalue | hvalue
    · exact List.mem_append_left _ (hsub value hvalue)
    · exact List.mem_append_right _ hvalue⟩⟩

/-- A session becomes itself. -/
theorem refl (inHand : List Value) (session : Session) :
    session.Evolves ready inHand inHand session :=
  .keep fun _ h => h

end Evolves

end Session

/-! ## Steps -/

namespace Step

variable {α β : Type} {values : α → List Value} {others : β → List Value}
  {start rest last : List Value} {session : Session}

/-- What is taken is held in front of what is left in hand. -/
theorem within_hold_of_subset {roots : Roots} {taken : Value}
    (hsub : ∀ value ∈ rest, value ∈ start) :
    (roots.holdAll (taken :: rest)).Within ((roots.holdAll start).hold taken) := by
  refine ⟨fun _ h => h, fun value hvalue => ?_⟩
  rcases List.mem_cons.mp hvalue with rfl | hvalue
  · exact List.mem_cons_self
  · rcases List.mem_append.mp hvalue with hvalue | hvalue
    · exact List.mem_cons_of_mem _ (List.mem_append_left _ (hsub value hvalue))
    · exact List.mem_cons_of_mem _ (List.mem_append_right _ hvalue)

/-- Whether what a step does to the heap is a history, from what is in hand at its start to what is
in hand from then on and what its result has. -/
def Evolves (ready : Heap → Prop) (values : α → List Value) (start rest : List Value)
    (run : Step α) (session : Session) : Prop :=
  match run session with
  | .ok result after => session.Evolves ready start (values result ++ rest) after
  | .error _ after => session.Evolves ready start rest after

namespace Evolves

/-- What the result of a step has is in hand in the next one. -/
theorem bind {run : Step α} {next : α → Step β} (hstart : session.Sound ready start)
    (hrun : run.Evolves ready values start rest session) (hsub : ∀ value ∈ last, value ∈ rest)
    (hnext : ∀ result middle, run session = .ok result middle →
      middle.Sound ready (values result ++ rest) →
      (next result).Evolves ready others (values result ++ rest) last middle) :
    (run >>= next).Evolves ready others start last session := by
  unfold Evolves at hrun ⊢
  rw [bind_apply]
  cases hresult : run session with
  | ok result middle =>
    rw [hresult] at hrun
    have hmiddle := hnext result middle hresult (hrun.sound hstart)
    unfold Evolves at hmiddle
    simp only [goOn]
    cases hend : next result middle with
    | ok final after =>
      rw [hend] at hmiddle
      exact hrun.trans hmiddle
    | error mistake after =>
      rw [hend] at hmiddle
      exact hrun.trans hmiddle
  | error mistake middle =>
    rw [hresult] at hrun
    exact hrun.trans (.keep hsub)

/-- A step may end with what is in hand. -/
theorem pure {result : α} (hsub : ∀ value ∈ values result ++ rest, value ∈ start) :
    (pure result : Step α).Evolves ready values start rest session :=
  Session.Evolves.keep hsub

/-- It may fail, and let go of some of it. -/
theorem throw (mistake : Mistake) (hsub : ∀ value ∈ rest, value ∈ start) :
    (throw mistake : Step α).Evolves ready values start rest session :=
  Session.Evolves.keep hsub

/-- To look at the session changes nothing. -/
theorem get {next : Session → Step α} (h : (next session).Evolves ready values start rest session) :
    (MonadState.get >>= next : Step α).Evolves ready values start rest session := h

/-- A step that is answered, with nothing left in hand. -/
theorem answered {run : Step α} {answer : α → β} (hstart : session.Sound ready start)
    (h : run.Evolves ready values start [] session) :
    (run >>= fun result => Pure.pure (answer result)).Evolves ready (fun _ => []) start []
      session :=
  .bind hstart h (fun _ hnone => hnone) fun _ _ _ _ => .pure fun _ hnone => by cases hnone

/-- Whatever is decided, one of the two is done. -/
theorem ite {condition : Prop} [Decidable condition] {first second : Step α}
    (h : first.Evolves ready values start rest session)
    (h' : second.Evolves ready values start rest session) :
    (if condition then first else second).Evolves ready values start rest session := by
  split
  · exact h
  · exact h'

/-- Less may be kept in hand. -/
theorem mono {run : Step α} (h : run.Evolves ready values start rest session)
    (hsub : ∀ value ∈ last, value ∈ rest) : run.Evolves ready values start last session := by
  unfold Evolves at h ⊢
  cases hresult : run session with
  | ok result after =>
    rw [hresult] at h
    refine h.trans (.keep fun value hvalue => ?_)
    rcases List.mem_append.mp hvalue with hvalue | hvalue
    · exact List.mem_append_left _ hvalue
    · exact List.mem_append_right _ (hsub value hvalue)
  | error mistake after =>
    rw [hresult] at h
    exact h.trans (.keep hsub)

/-- A value that is there may be taken in hand. -/
theorem value {result : Value} (hsub : ∀ value ∈ rest, value ∈ start)
    (offers : session.machine.heap.Offers (session.roots.holdAll start) result) :
    (Pure.pure result : Step Value).Evolves ready (fun value => [value]) start rest session :=
  ⟨rfl, (Holding.Evolves.move (.take offers)).trans (.keep (within_hold_of_subset hsub))⟩

/-- An object may be made of what is in hand. -/
theorem object (make : ObjectId → Value) (hsub : ∀ value ∈ rest, value ∈ start)
    (new : session.machine.heap.Makes (session.roots.holdAll start)
      (make ⟨session.machine.heap.nextObject⟩)) :
    (do return make (← Step.newObject) : Step Value).Evolves ready (fun value => [value]) start rest
      session :=
  ⟨rfl, (Holding.Evolves.move (.object new)).trans (.keep (within_hold_of_subset hsub))⟩

/-- Something may have been done before. -/
theorem of_start {run : Step α} {middle : List Value}
    (h : session.Evolves ready start middle session)
    (hrun : run.Evolves ready values middle rest session) :
    run.Evolves ready values start rest session := by
  unfold Evolves at hrun ⊢
  cases hresult : run session with
  | ok result after =>
    rw [hresult] at hrun
    exact h.trans hrun
  | error mistake after =>
    rw [hresult] at hrun
    exact h.trans hrun

/-- A change of the machine is a history from what is in hand to what its result has. -/
theorem onMachine {change : Setup → Roots → Machine → α × Machine}
    (h : (session.holding start).Evolves ready
      ⟨(change session.setup session.roots session.machine).2.heap, session.roots.holdAll
        (values (change session.setup session.roots session.machine).1 ++ rest)⟩) :
    (Step.onMachine change).Evolves ready values start rest session := ⟨rfl, h⟩

/-- A change of the machine that leaves the heap. -/
theorem onMachine_of_heap {change : Setup → Roots → Machine → α × Machine}
    (same : (change session.setup session.roots session.machine).2.heap = session.machine.heap) :
    (Step.onMachine change).Evolves ready (fun _ => []) start start session := by
  refine .onMachine ?_
  rw [same]
  exact .refl _

end Evolves

/-! ### Names -/

/-- What is found under a name is named. -/
theorem mem_of_lookup_eq_some {named : Named α} {name : String} {thing : α}
    (h : named.lookup name = some thing) : thing ∈ named.map Prod.snd := by
  obtain ⟨before, after, rfl, _⟩ := List.lookup_eq_some_iff.mp h
  simp

/-- What is still named was named. -/
theorem mem_of_mem_forget {named : Named α} {name : String} {other : α}
    (h : other ∈ (named.forget name).map Prod.snd) : other ∈ named.map Prod.snd := by
  obtain ⟨entry, hentry, rfl⟩ := List.mem_map.mp h
  exact List.mem_map_of_mem (List.mem_of_mem_filter hentry)

/-- A new name adds what it is given to, and nothing else. -/
theorem mem_of_mem_put {named : Named α} {name : String} {thing other : α}
    (h : other ∈ (named.put name thing).map Prod.snd) :
    other = thing ∨ other ∈ named.map Prod.snd := by
  rcases List.mem_cons.mp h with rfl | h
  · exact .inl rfl
  · exact .inr (mem_of_mem_forget h)

/-- A scope that the host names is one that it holds. -/
theorem scope_cases (name : String) (session : Session) :
    (∃ frame ∈ session.roots.frames, scope name session = .ok frame session) ∨
      ∃ mistake, scope name session = .error mistake session := by
  cases hlookup : session.scopes.lookup name with
  | some frame =>
    refine .inl ⟨frame, mem_of_lookup_eq_some hlookup, ?_⟩
    rw [scope, get_bind_apply, hlookup]
    rfl
  | none =>
    refine .inr ⟨.noScope name, ?_⟩
    rw [scope, get_bind_apply, hlookup]
    rfl

/-- A step may go on with a scope that the host holds, or fail. -/
theorem Evolves.scope {name : String} {next : FrameId → Step α}
    (hsub : ∀ value ∈ rest, value ∈ start)
    (hnext : ∀ frame ∈ session.roots.frames,
      (next frame).Evolves ready values start rest session) :
    (Step.scope name >>= next).Evolves ready values start rest session := by
  unfold Evolves
  rw [bind_apply]
  rcases scope_cases name session with ⟨frame, hframe, hscope⟩ | ⟨mistake, hscope⟩
  · rw [hscope]
    exact hnext frame hframe
  · rw [hscope]
    exact Session.Evolves.keep hsub

/-- It may go on with the digest. -/
theorem Evolves.digest {next : Digest → Step α}
    (hnext : (next session.setup.digest).Evolves ready values start rest session) :
    (Step.digest >>= next).Evolves ready values start rest session := hnext

/-- A frame that is alive may be held under a name. -/
theorem evolves_holdScope (name : String) {frame : FrameId}
    (alive : session.machine.heap.isAlive frame = true) :
    (holdScope name frame).Evolves ready (fun _ => []) start start session := by
  refine ⟨rfl, (Holding.Evolves.move (.takeFrame alive)).trans
    (.keep ⟨fun id hid => ?_, fun _ h => h⟩)⟩
  rcases mem_of_mem_put hid with rfl | hid
  · exact List.mem_cons_self
  · exact List.mem_cons_of_mem _ hid

/-- A value that is in hand may be held under a name. -/
theorem evolves_holdValue (name : String) {value : Value} (inHand : value ∈ start) :
    (holdValue name value).Evolves ready (fun _ => []) start start session := by
  refine ⟨rfl, .keep ⟨fun _ hid => hid, fun other hother => ?_⟩⟩
  rcases List.mem_append.mp hother with hother | hother
  · exact List.mem_append_left _ hother
  · rcases mem_of_mem_put hother with rfl | hother
    · exact List.mem_append_left _ inHand
    · exact List.mem_append_right _ hother

/-- A result is named if there is one, and a name for it. -/
theorem evolves_keep (name : Option String) {value : Option Value}
    (inHand : ∀ other ∈ value, other ∈ start) :
    (keep name value).Evolves ready (fun _ => []) start start session := by
  cases name with
  | none => exact .pure fun _ h => h
  | some name =>
    cases value with
    | none => exact .pure fun _ h => h
    | some value => exact evolves_holdValue name (inHand value rfl)

/-- Letting go of scopes and values is no more than that. -/
theorem evolves_forget {change : Session → Session}
    (hsetup : (change session).setup = session.setup)
    (hheap : (change session).machine.heap = session.machine.heap)
    (hroots : (change session).roots.Within session.roots) :
    (modify change : Step Unit).Evolves ready (fun _ => []) start start session := by
  refine ⟨hsetup, ?_⟩
  have hholding : (change session).holding start =
      ⟨session.machine.heap, (change session).roots.holdAll start⟩ := by
    rw [Session.holding, hheap]
  have hkeep : (session.holding start).Evolves ready ((change session).holding start) := by
    rw [hholding]
    exact .keep (hroots.holdAll start)
  exact hkeep

/-- A frame may be made inside one that the host holds, and is held then. -/
theorem evolves_allocate {outer : Option FrameId} (hstart : session.Sound ready [])
    (held : ∀ id, outer = some id → id ∈ session.roots.frames) :
    Holding.Evolves ready ⟨session.machine.heap, session.roots⟩
      ⟨(session.machine.heap.allocate session.setup.due session.roots outer).2,
        session.roots.holdFrame
          (session.machine.heap.allocate session.setup.due session.roots outer).1⟩ := by
  cases outer with
  | none => exact .allocate hstart.heeds none (fun _ hid => by cases hid) rfl
  | some id =>
    have halive : session.machine.heap.isAlive id = true :=
      hstart.wellFormed.held_alive id (held id rfl)
    let made := session.machine.heap.allocate session.setup.due session.roots (some id)
    have hmade : Holding.Evolves ready ⟨session.machine.heap, session.roots.holdFrame id⟩
        ⟨made.2, (session.roots.holdFrame id).holdFrame made.1⟩ :=
      .allocate hstart.heeds (some id) (by rintro _ ⟨⟩; exact List.mem_cons_self) rfl
    refine (Holding.Evolves.move (.takeFrame halive)).trans
      (hmade.trans (.keep ⟨fun other hid => ?_, fun _ h => h⟩))
    rcases List.mem_cons.mp hid with rfl | hid
    · exact List.mem_cons_self
    · exact List.mem_cons_of_mem _ (List.mem_cons_of_mem _ hid)

/-- A new scope is a frame that is named. -/
theorem evolves_newScope (name : String) {outer : Option FrameId} (hstart : session.Sound ready [])
    (held : ∀ id, outer = some id → id ∈ session.roots.frames) :
    (newScope name outer).Evolves ready (fun _ => []) [] [] session := by
  refine ⟨rfl, (evolves_allocate hstart held).trans (.keep ⟨fun id hid => ?_, fun _ h => h⟩)⟩
  rcases mem_of_mem_put hid with rfl | hid
  · exact List.mem_cons_self
  · exact List.mem_cons_of_mem _ hid

/-! ### Evaluations -/

/-- What an evaluation has ended with, if it was not cut short. -/
def concluded (values : α → List Value) : Except Halt α → List Value
  | .ok result => values result
  | .error _ => []

/-- An evaluation for the host is a history if it is one for its roots. -/
theorem evolves_evaluate {evaluation : Setup → Roots → Eval α}
    (h : (evaluation session.setup session.roots).Evolves ready values (session.roots.holdAll start)
      session.roots session.machine) :
    (evaluate evaluation).Evolves ready (concluded values) start [] session := by
  unfold Eval.Evolves Eval.heldAfter Eval.ends at h
  refine .onMachine ?_
  cases hresult : evaluation session.setup session.roots session.machine with
  | ok result after =>
    rw [Eval.after_of_ok hresult, hresult] at h
    simp only [concluded, List.append_nil]
    exact h
  | error halt after =>
    rw [Eval.after_of_error hresult, hresult] at h
    exact h.trans (.keep (session.roots.within_holdAll _))

/-- It is concluded by naming its value, or with its fault. -/
theorem evolves_conclude (result : Option String) {ending : Except Halt Value}
    (hstart : session.Sound ready start) (inHand : ∀ value, ending = .ok value → value ∈ start) :
    (conclude result ending).Evolves ready (fun _ => []) start [] session := by
  have hnone : ∀ value ∈ ([] : List Value), value ∈ start := fun _ h => by cases h
  cases ending with
  | ok value =>
    refine .answered hstart (.mono (evolves_keep result fun other hother => ?_) hnone)
    cases hother
    exact inHand value rfl
  | error halt => exact .pure hnone

end Step

end Scriptlet
