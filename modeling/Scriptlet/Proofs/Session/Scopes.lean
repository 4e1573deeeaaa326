import Mathlib.Logic.Relation
import Scriptlet.Proofs.Session.Histories

set_option autoImplicit false

/-!
# Chains of scopes

Component: the environments.  Specification: section 3 on lookup, which walks outward through the
chain to the first frame that contains the name, and on `Set`, which always writes into the current
frame, and section 5 on closures that share a frame.

Every frame has been made after the frame around it, so going outward ends: a frame has one *chain*,
of itself and the frames around it (`Heap.Chain`).  A name is looked up along the chain, and its
value is that of the first frame that binds it.  That there are no more steps than frames does not
cut a lookup short.

Binding a name in a frame is seen from the frames whose chain reaches it before any other frame that
binds the name (`Heap.Sees`), and from no others.

A chain is a list of frames, so that a lookup is a search in a list and what a binding changes is
told by where the frame stands in it.  Frames that are not alive have no chain, and nothing is found
from them.

Some theorems need less than a well-formed heap, because a collection goes through heaps in which
emptied frames are still referred to.  What they need is that frames lie in older frames that are
alive (`Heap.Layered`).
-/

namespace Scriptlet

namespace Heap

variable {heap : Heap} {id other outer target : FrameId} {ids : List FrameId} {name : String}

/-! ## Layers -/

/-- Whether frames lie in frames that are older and alive. -/
structure Layered (heap : Heap) : Prop where
  older : ∀ {id frame outer}, heap.frame? id = some frame → frame.outer = some outer →
    outer.index < id.index
  alive : ∀ {id frame outer}, heap.frame? id = some frame → frame.outer = some outer →
    heap.isAlive outer = true

/-- A well-formed heap has such layers. -/
theorem WellFormed.layered {roots : Roots} (h : heap.WellFormed roots) : heap.Layered :=
  ⟨fun here houter => h.older _ _ _ here houter, fun here houter => h.outer_alive _ _ _ here houter⟩

/-- A binding moves no frame. -/
theorem Layered.bind (h : heap.Layered) (target : FrameId) (name : String) (value : Value) :
    (heap.bind target name value).Layered where
  older := fun here houter => by
    obtain ⟨old, hold, hsame, _⟩ := frame?_bind_cases here
    exact h.older hold (hsame ▸ houter)
  alive := fun here houter => by
    obtain ⟨old, hold, hsame, _⟩ := frame?_bind_cases here
    rw [isAlive_bind]
    exact h.alive hold (hsame ▸ houter)

/-- Also the frames that a collection has emptied, but not yet dropped, lie in no frame. -/
theorem Layered.clear (h : heap.Layered) (ids : List FrameId) : (heap.clear ids).Layered := by
  have hcases : ∀ {id frame outer}, (heap.clear ids).frame? id = some frame →
      frame.outer = some outer → heap.frame? id = some frame := by
    intro id frame outer here houter
    rw [frame?_clear] at here
    split at here
    · obtain ⟨_, _, rfl⟩ := Option.map_eq_some_iff.mp here
      cases houter
    · exact here
  refine ⟨fun here houter => h.older (hcases here houter) houter,
    fun {id frame outer} here houter => ?_⟩
  obtain ⟨found, hfound⟩ := isAlive_iff.mp (h.alive (hcases here houter) houter)
  rw [isAlive, frame?_clear, hfound]
  split <;> rfl

/-! ## Chains -/

/-- Whether a frame lies directly in another. -/
def LiesIn (heap : Heap) (id outer : FrameId) : Prop := heap.outer? id = some outer

/-- A frame that others lie in is older than they are. -/
theorem Layered.index_lt (h : heap.Layered) (lies : heap.LiesIn id outer) :
    outer.index < id.index := by
  obtain ⟨frame, here, houter⟩ := Option.bind_eq_some_iff.mp lies
  exact h.older here houter

/-- Going outward never leads back. -/
theorem Layered.acyclic (h : heap.Layered) (id : FrameId) :
    ¬ Relation.TransGen heap.LiesIn id id := by
  have hless : ∀ {id outer}, Relation.TransGen heap.LiesIn id outer → outer.index < id.index := by
    intro id outer hchain
    induction hchain with
    | single lies => exact h.index_lt lies
    | tail _ lies ih => exact Nat.lt_trans (h.index_lt lies) ih
  exact fun hchain => Nat.lt_irrefl _ (hless hchain)

/-- The frames from one outward. -/
inductive Chain (heap : Heap) : FrameId → List FrameId → Prop where
  | last {id : FrameId} {frame : Frame} (here : heap.frame? id = some frame)
      (h : frame.outer = none) : Chain heap id [id]
  | inside {id outer : FrameId} {frame : Frame} {ids : List FrameId}
      (here : heap.frame? id = some frame) (h : frame.outer = some outer)
      (rest : Chain heap outer ids) : Chain heap id (id :: ids)

/-- A live frame has a chain. -/
theorem Layered.exists_chain (h : heap.Layered) (alive : heap.isAlive id = true) :
    ∃ ids, heap.Chain id ids := by
  -- by induction on the age of the frame
  generalize hage : id.index = age
  induction age using Nat.strongRecOn generalizing id with
  | ind age ih =>
    obtain ⟨frame, here⟩ := isAlive_iff.mp alive
    cases houter : frame.outer with
    | none => exact ⟨_, .last here houter⟩
    | some outer =>
      obtain ⟨ids, hids⟩ := ih outer.index (hage ▸ h.older here houter) (h.alive here houter) rfl
      exact ⟨_, .inside here houter hids⟩

namespace Chain

/-- A frame has one chain. -/
theorem unique {others : List FrameId} (h : heap.Chain id ids) (h' : heap.Chain id others) :
    ids = others := by
  induction h generalizing others with
  | last here houter =>
    cases h' with
    | last => rfl
    | inside here' houter' =>
      rw [here] at here'
      cases here'
      rw [houter] at houter'
      cases houter'
  | inside here houter _ ih =>
    cases h' with
    | last here' houter' =>
      rw [here] at here'
      cases here'
      rw [houter] at houter'
      cases houter'
    | inside here' houter' rest' =>
      rw [here] at here'
      cases here'
      rw [houter] at houter'
      cases houter'
      rw [ih rest']

/-- A chain is no longer than the number of frames that had been made by then. -/
theorem length_le (h : heap.Chain id ids) (layered : heap.Layered) : ids.length ≤ id.index + 1 := by
  induction h with
  | last => exact Nat.succ_le_succ (Nat.zero_le _)
  | inside here houter _ ih => exact Nat.succ_le_succ (Nat.le_trans ih (layered.older here houter))

/-- A chain starts with a live frame. -/
theorem isAlive (h : heap.Chain id ids) : heap.isAlive id = true := by
  cases h with
  | last here | inside here => exact isAlive_iff.mpr ⟨_, here⟩

/-- A chain is no longer than there are frames. -/
theorem length_le_size (h : heap.Chain id ids) (layered : heap.Layered) :
    ids.length ≤ heap.frames.size :=
  Nat.le_trans (h.length_le layered) (lt_size_of_isAlive h.isAlive)

end Chain

/-! ## Lookups -/

/-- What a frame itself binds a name to. -/
def binding? (heap : Heap) (name : String) (id : FrameId) : Option Value :=
  (heap.frame? id).bind fun frame => frame.bindings.lookup name

/-- A search that may go far enough goes along the chain. -/
theorem Chain.lookupWithin (h : heap.Chain id ids) {steps : Nat} (enough : ids.length ≤ steps) :
    heap.lookupWithin name steps id = ids.findSome? (heap.binding? name) := by
  induction h generalizing steps with
  | @last id frame here houter =>
    obtain ⟨steps, rfl⟩ := Nat.exists_eq_succ_of_ne_zero (Nat.ne_of_gt enough)
    have hbinding : heap.binding? name id = frame.bindings.lookup name := by
      rw [binding?, here, Option.bind_some]
    rw [Heap.lookupWithin, here, List.findSome?_cons, hbinding]
    simp only [houter]
    cases frame.bindings.lookup name <;> rfl
  | @inside id outer frame ids here houter _ ih =>
    obtain ⟨steps, rfl⟩ := Nat.exists_eq_succ_of_ne_zero (Nat.ne_of_gt (Nat.lt_of_lt_of_le
      (Nat.succ_pos _) enough))
    have hbinding : heap.binding? name id = frame.bindings.lookup name := by
      rw [binding?, here, Option.bind_some]
    rw [Heap.lookupWithin, here, List.findSome?_cons, hbinding]
    simp only [houter, ih (Nat.le_of_succ_le_succ enough)]
    cases frame.bindings.lookup name <;> rfl

/-- A name is looked up along the chain. -/
theorem Chain.lookup (h : heap.Chain id ids) (layered : heap.Layered) :
    heap.lookup id name = ids.findSome? (heap.binding? name) :=
  h.lookupWithin (h.length_le_size layered)

/-- What a frame binds itself is found at once. -/
theorem lookup_of_binding? {value : Value} (h : heap.binding? name id = some value) :
    heap.lookup id name = some value := by
  obtain ⟨frame, here, hlookup⟩ := Option.bind_eq_some_iff.mp h
  obtain ⟨steps, hsteps⟩ := Nat.exists_eq_succ_of_ne_zero
    (Nat.ne_zero_of_lt (lt_size_of_isAlive (isAlive_iff.mpr ⟨frame, here⟩)))
  rw [lookup, hsteps, Heap.lookupWithin, here]
  simp only [hlookup]

/-- From a frame that is gone nothing is found. -/
theorem lookup_of_not_alive (dead : heap.isAlive id = false) : heap.lookup id name = none := by
  have hframe : heap.frame? id = none := by
    rw [isAlive] at dead
    exact Option.not_isSome_iff_eq_none.mp (Bool.eq_false_iff.mp dead)
  rw [lookup]
  cases heap.frames.size with
  | zero => rfl
  | succ steps => rw [lookupWithin, hframe]

/-! ## Binding a name -/

section

variable {value : Value}

/-- A binding leaves the chains. -/
theorem Chain.bind (h : heap.Chain id ids) (target : FrameId) (name : String) (value : Value) :
    (heap.bind target name value).Chain id ids := by
  have hframe : ∀ {id frame}, heap.frame? id = some frame →
      ∃ new, (heap.bind target name value).frame? id = some new ∧ new.outer = frame.outer := by
    intro id frame here
    by_cases hsame : id = target
    · subst hsame
      exact ⟨{ frame with bindings := frame.bindings.bind name value },
        by rw [frame?_bind_self, here, Option.map_some], rfl⟩
    · exact ⟨frame, by rw [frame?_bind_of_ne hsame, here], rfl⟩
  induction h with
  | last here houter =>
    obtain ⟨new, hnew, hsame⟩ := hframe here
    exact .last hnew (hsame.trans houter)
  | inside here houter _ ih =>
    obtain ⟨new, hnew, hsame⟩ := hframe here
    exact .inside hnew (hsame.trans houter) ih

/-- A live frame binds what has been bound in it. -/
theorem binding?_bind_self (alive : heap.isAlive target = true) :
    (heap.bind target name value).binding? name target = some value := by
  obtain ⟨frame, here⟩ := isAlive_iff.mp alive
  rw [binding?, frame?_bind_self, here]
  exact Bindings.lookup_bind_self name value frame.bindings

/-- Other frames bind what they bound. -/
theorem binding?_bind_of_frame (h : id ≠ target) (wanted : String) :
    (heap.bind target name value).binding? wanted id = heap.binding? wanted id := by
  rw [binding?, frame?_bind_of_ne h, binding?]

/-- Other names are bound to what they were bound to. -/
theorem binding?_bind_of_name {wanted : String} (h : wanted ≠ name) :
    (heap.bind target name value).binding? wanted = heap.binding? wanted := by
  funext id
  by_cases hsame : id = target
  · subst hsame
    rw [binding?, frame?_bind_self, binding?]
    cases heap.frame? id with
    | none => rfl
    | some frame => exact Bindings.lookup_bind_of_ne h value frame.bindings
  · exact binding?_bind_of_frame hsame wanted

/-- Whether the chain of a frame reaches another without passing one that binds a name. -/
def Sees (heap : Heap) (name : String) (target id : FrameId) : Prop :=
  ∃ passed beyond, heap.Chain id (passed ++ target :: beyond) ∧
    ∀ other ∈ passed, heap.binding? name other = none

/-- A binding is found where nothing before it on the way is in its place. -/
theorem findSome?_bind (alive : heap.isAlive target = true) {passed : List FrameId}
    (unbound : ∀ other ∈ passed, heap.binding? name other = none) (beyond : List FrameId) :
    (passed ++ target :: beyond).findSome? ((heap.bind target name value).binding? name) =
      some value := by
  induction passed with
  | nil => rw [List.nil_append, List.findSome?_cons, binding?_bind_self alive]
  | cons other rest ih =>
    obtain ⟨hother, hrest⟩ := List.forall_mem_cons.mp unbound
    rw [List.cons_append, List.findSome?_cons]
    by_cases hsame : other = target
    · rw [hsame, binding?_bind_self alive]
    · rw [binding?_bind_of_frame hsame, hother]
      exact ih hrest

/-- Nothing else is found than before on a way that does not come to the frame, or only behind one
that binds the name. -/
theorem findSome?_bind_of_hidden {ids : List FrameId}
    (hidden : ∀ passed beyond, ids = passed ++ target :: beyond →
      ¬ ∀ other ∈ passed, heap.binding? name other = none) :
    ids.findSome? ((heap.bind target name value).binding? name) =
      ids.findSome? (heap.binding? name) := by
  induction ids with
  | nil => rfl
  | cons id rest ih =>
    have hne : id ≠ target := by
      rintro rfl
      exact hidden [] rest rfl fun _ h => by cases h
    rw [List.findSome?_cons, List.findSome?_cons, binding?_bind_of_frame hne]
    cases hbinding : heap.binding? name id with
    | some found => rfl
    | none =>
      refine ih fun passed beyond heq hunbound => hidden (id :: passed) beyond ?_ ?_
      · rw [heq, List.cons_append]
      · exact List.forall_mem_cons.mpr ⟨hbinding, hunbound⟩

/-- What is looked up after a name has been bound in a frame: the value from where the frame is
seen, and what was there before from everywhere else and by any other name. -/
theorem Layered.lookup_bind (h : heap.Layered) (alive : heap.isAlive target = true) (name : String)
    (value : Value) (id : FrameId) :
    (heap.Sees name target id → (heap.bind target name value).lookup id name = some value) ∧
    (¬ heap.Sees name target id →
      (heap.bind target name value).lookup id name = heap.lookup id name) ∧
    ∀ wanted ≠ name, (heap.bind target name value).lookup id wanted = heap.lookup id wanted := by
  have hlayered := h.bind target name value
  cases halive : heap.isAlive id with
  | false =>
    have hdead : (heap.bind target name value).isAlive id = false := by
      rw [isAlive_bind, halive]
    have hsame : ∀ wanted,
        (heap.bind target name value).lookup id wanted = heap.lookup id wanted := fun wanted => by
      rw [lookup_of_not_alive hdead, lookup_of_not_alive halive]
    refine ⟨fun ⟨_, _, hchain, _⟩ => ?_, fun _ => hsame name, fun wanted _ => hsame wanted⟩
    exact absurd hchain.isAlive (Bool.eq_false_iff.mp halive)
  | true =>
    obtain ⟨ids, hchain⟩ := h.exists_chain halive
    have hbound := hchain.bind target name value
    refine ⟨fun ⟨passed, beyond, hreach, hunbound⟩ => ?_, fun hnot => ?_, fun wanted hwanted => ?_⟩
    · rw [hbound.lookup hlayered, hchain.unique hreach]
      exact findSome?_bind alive hunbound beyond
    · rw [hbound.lookup hlayered, hchain.lookup h]
      refine findSome?_bind_of_hidden fun passed beyond heq hunbound => hnot ?_
      exact ⟨passed, beyond, heq ▸ hchain, hunbound⟩
    · rw [hbound.lookup hlayered, hchain.lookup h, binding?_bind_of_name hwanted]

end

/-! ## Enclosed frames -/

/-- A frame without bindings of its own sees what the frame around it sees. -/
theorem Layered.lookup_of_empty (h : heap.Layered)
    (here : heap.frame? id = some ⟨[], some outer⟩) (name : String) :
    heap.lookup id name = heap.lookup outer name := by
  obtain ⟨ids, hchain⟩ := h.exists_chain (h.alive here rfl)
  have hbinding : heap.binding? name id = none := by
    rw [binding?, here]
    rfl
  rw [(Chain.inside here rfl hchain).lookup h, hchain.lookup h, List.findSome?_cons, hbinding]

/-- What is looked up depends on the frames of the chain alone. -/
theorem Chain.lookup_of_same {next : Heap} (h : heap.Chain id ids) (layered : heap.Layered)
    (layered' : next.Layered) (same : ∀ other ∈ ids, next.frame? other = heap.frame? other)
    (name : String) : next.lookup id name = heap.lookup id name := by
  have hchain : next.Chain id ids := by
    induction h with
    | last here houter => exact .last ((same _ List.mem_cons_self).trans here) houter
    | inside here houter _ ih =>
      refine .inside ((same _ List.mem_cons_self).trans here) houter (ih fun other hother => ?_)
      exact same other (List.mem_cons_of_mem _ hother)
  rw [hchain.lookup layered', h.lookup layered]
  clear h hchain
  induction ids with
  | nil => rfl
  | cons first rest ih =>
    rw [List.findSome?_cons, List.findSome?_cons, binding?, binding?, same first List.mem_cons_self,
      ih fun other hother => same other (List.mem_cons_of_mem _ hother)]

/-- Where a frame is reached, all of its chain is. -/
theorem Chain.reachable {roots : Roots} (h : heap.Chain id ids) (reach : heap.Reachable roots id) :
    ∀ other ∈ ids, heap.Reachable roots other := by
  induction h with
  | last =>
    intro other hother
    rwa [List.mem_singleton.mp hother]
  | inside here houter _ ih =>
    intro other hother
    rcases List.mem_cons.mp hother with rfl | hother
    · exact reach
    · exact ih (.outer reach here houter) other hother

/-! ### Frames that are made -/

section

variable {roots : Roots}

/-- Making a frame leaves all that can be reached, also if a collection comes before it. -/
theorem WellFormed.frame?_allocate (h : heap.WellFormed (roots.holdFrame outer)) (due : Heap → Bool)
    (reach : heap.Reachable (roots.holdFrame outer) id) :
    (heap.allocate due roots (some outer)).2.frame? id = heap.frame? id := by
  have halive := h.toSound.isAlive_of_reachable reach
  simp only [Heap.allocate, Option.elim_some]
  split
  · rw [frame?_newFrame_of_ne (ne_newFrame_of_isAlive _ ?_)]
    · exact h.toSound.frame?_collect_of_reachable reach
    · exact h.toSound.isAlive_collect_iff.mpr reach
  · exact frame?_newFrame_of_ne (ne_newFrame_of_isAlive _ halive)

/-- A frame that has been made is empty, inside the one that was asked for. -/
theorem frame?_allocate_self (heap : Heap) (due : Heap → Bool) (roots : Roots)
    (outer : Option FrameId) :
    (heap.allocate due roots outer).2.frame? (heap.allocate due roots outer).1 =
      some ⟨[], outer⟩ :=
  frame?_newFrame_self outer _

/-- A new frame sees what the frame around it saw. -/
theorem WellFormed.lookup_allocate (h : heap.WellFormed (roots.holdFrame outer)) (due : Heap → Bool)
    (name : String) :
    (heap.allocate due roots (some outer)).2.lookup (heap.allocate due roots (some outer)).1 name =
      heap.lookup outer name := by
  have houter : outer ∈ (roots.holdFrame outer).frames := List.mem_cons_self
  have hlayered := (h.allocate due).layered
  obtain ⟨ids, hchain⟩ := h.layered.exists_chain (h.held_alive outer houter)
  rw [hlayered.lookup_of_empty (frame?_allocate_self heap due roots (some outer))]
  exact hchain.lookup_of_same h.layered hlayered
    (fun other hother => h.frame?_allocate due (hchain.reachable (.held houter) other hother)) name

end

end Heap

/-- A frame that is made inside another sees what that one sees, for as long as nothing has been
bound in it. -/
theorem History.lookup_enclosed {ready : Heap → Prop} {events : List Event} {before after : Holding}
    (h : History ready events before after) (hbefore : before.WellFormed) {id outer : FrameId}
    (here : before.heap.frame? id = some ⟨[], some outer⟩) (unwritten : .bound id ∉ events)
    (alive : after.heap.isAlive id = true) (name : String) :
    after.heap.lookup id name = after.heap.lookup outer name := by
  obtain ⟨frame, hframe⟩ := Heap.isAlive_iff.mp alive
  have hlt := Heap.lt_size_of_isAlive (Heap.isAlive_iff.mpr ⟨_, here⟩)
  obtain ⟨old, hold, _, hsame⟩ := h.exists_frame hbefore hlt hframe
  rw [here] at hold
  cases hold
  rw [hsame unwritten] at hframe
  exact (h.wellFormed hbefore).layered.lookup_of_empty hframe name

/-! ## Scopes -/

/-- Scopes, in every heap that can be reached, by sessions for one.

Going outward never leads back, also while a collection has emptied frames that it has not dropped.
So every frame has a chain, lookups come to its end, and what they find is the binding of the first
frame that has one.

After a name has been bound in a frame, lookups of it give the value from the frames that see this
one, and all others give what they gave before; where a lookup did not give the value before, it
gives it then only if the frame is seen.  Also calls see the value of the functions that were made
in a frame that sees it.

A frame that is made inside another agrees with it on every name at first, and whatever is done
after, until something is bound in it. -/
theorem scope_chains :
    (∀ {holding : Holding}, holding.Reached →
      (∀ ids id, ¬ Relation.TransGen holding.heap.LiesIn id id ∧
        ¬ Relation.TransGen (holding.heap.clear ids).LiesIn id id) ∧
      (∀ id, holding.heap.isAlive id = true → ∃ ids, holding.heap.Chain id ids ∧ ∀ name,
        holding.heap.lookup id name = ids.findSome? (holding.heap.binding? name) ∧
        ∀ steps, ids.length ≤ steps →
          holding.heap.lookupWithin name steps id = holding.heap.lookup id name) ∧
      (∀ target, holding.heap.isAlive target = true → ∀ name value id,
        (holding.heap.Sees name target id →
          (holding.heap.bind target name value).lookup id name = some value) ∧
        (¬ holding.heap.Sees name target id →
          (holding.heap.bind target name value).lookup id name = holding.heap.lookup id name) ∧
        (holding.heap.lookup id name ≠ some value →
          ((holding.heap.bind target name value).lookup id name = some value ↔
            holding.heap.Sees name target id)) ∧
        ∀ wanted ≠ name, (holding.heap.bind target name value).lookup id wanted =
          holding.heap.lookup id wanted) ∧
      (∀ target name, ∀ value ∈ holding.roots.values, ∀ object literal captured,
        holding.heap.Carries holding.roots (.function object literal captured) →
        holding.heap.isAlive target = true → holding.heap.Sees name target captured → ∀ due,
          let call :=
            (holding.heap.bind target name value).allocate due holding.roots (some captured)
          call.2.lookup call.1 name = some value) ∧
      ∀ parent ∈ holding.roots.frames, ∀ due,
        let enclosed := holding.heap.allocate due holding.roots (some parent)
        (∀ name, enclosed.2.lookup enclosed.1 name = holding.heap.lookup parent name) ∧
        ∀ {events : List Event} {after : Holding},
          History (fun _ => True) events ⟨enclosed.2, holding.roots.holdFrame enclosed.1⟩ after →
          .bound enclosed.1 ∉ events → after.heap.isAlive enclosed.1 = true →
          ∀ name, after.heap.lookup enclosed.1 name = after.heap.lookup parent name) ∧
    ∀ (setup : Setup) (console : Console) (commands : List Command),
      ((Session.performAll commands (Session.start setup console)).2.holding []).Reached := by
  refine ⟨fun {holding} h => ?_, reached_session⟩
  have hwellFormed := h.wellFormed
  have hlayered := hwellFormed.layered
  refine ⟨fun ids id => ⟨hlayered.acyclic id, (hlayered.clear ids).acyclic id⟩, fun id halive => ?_,
    fun target halive name value id => ?_, ?_, ?_⟩
  -- a chain, and lookups along it
  · obtain ⟨ids, hchain⟩ := hlayered.exists_chain halive
    refine ⟨ids, hchain, fun name => ⟨hchain.lookup hlayered, fun steps hsteps => ?_⟩⟩
    rw [hchain.lookupWithin hsteps, hchain.lookup hlayered]
  -- what a binding changes
  · obtain ⟨hseen, hhidden, hothers⟩ := hlayered.lookup_bind halive name value id
    refine ⟨hseen, hhidden, fun hnew => ⟨fun hfound => ?_, hseen⟩, hothers⟩
    exact Classical.byContradiction fun hnot => hnew ((hhidden hnot).symm.trans hfound)
  -- a call of a function whose captured frame sees the binding
  · intro target name value hvalue object literal captured hcarries htarget hsees due
    have halive := hwellFormed.leads_alive _ captured hcarries ⟨_, .self _, rfl⟩
    have hheld : holding.heap.WellFormed (holding.roots.hold value) :=
      Heap.WellFormed.hold hwellFormed (.of_mem hvalue)
    have hbound := (hheld.bind target name).holdFrame ((Heap.isAlive_bind ..).trans halive)
    exact (hbound.lookup_allocate due name).trans
      ((hlayered.lookup_bind htarget name value captured).1 hsees)
  -- a frame that a host makes inside another
  · intro parent hparent due
    have hinside := Heap.WellFormed.holdFrame hwellFormed (hwellFormed.held_alive parent hparent)
    have hmade : Holding.WellFormed ⟨(holding.heap.allocate due holding.roots (some parent)).2,
        holding.roots.holdFrame (holding.heap.allocate due holding.roots (some parent)).1⟩ := by
      refine (hinside.allocate due).of_within ⟨fun other hother => ?_, fun _ h => h⟩
      rcases List.mem_cons.mp hother with rfl | hother
      · exact List.mem_cons_self
      · exact List.mem_cons_of_mem _ (List.mem_cons_of_mem _ hother)
    exact ⟨hinside.lookup_allocate due, fun hafter hunwritten halive name =>
      hafter.lookup_enclosed hmade (Heap.frame?_allocate_self ..) hunwritten halive name⟩

/-- Two frames, the second inside the first, which is held. -/
def twoFrames : Holding :=
  ⟨((Heap.empty.newFrame none).2.newFrame (some ⟨0⟩)).2, ⟨[⟨1⟩, ⟨0⟩], []⟩⟩

/-- They come about by making one in the other. -/
theorem reached_twoFrames : twoFrames.Reached := by
  have houter : Holding.Reached ⟨(Heap.empty.newFrame none).2, ⟨[⟨0⟩], []⟩⟩ :=
    .move (.frame none trivial fun _ h => by cases h)
  exact houter.trans (.move (.frame (some ⟨0⟩) trivial fun _ h => by cases h; decide))

/-- What is bound in the outer frame is seen from the inner one. -/
theorem scope_chains_nested :
    (twoFrames.heap.bind ⟨0⟩ "x" .null).lookup ⟨1⟩ "x" = some .null := by
  have hchain : twoFrames.heap.Chain ⟨1⟩ [⟨1⟩, ⟨0⟩] := .inside rfl rfl (.last rfl rfl)
  refine ((scope_chains.1 reached_twoFrames).2.2.1 ⟨0⟩ rfl "x" .null ⟨1⟩).1 ⟨[⟨1⟩], [], hchain, ?_⟩
  exact fun other hother => List.mem_singleton.mp hother ▸ rfl

end Scriptlet
