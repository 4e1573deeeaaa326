import Scriptlet.Proofs.Effects.WellFormed

set_option autoImplicit false

/-!
# What an evaluation writes

Component: the tree and the environments.  Specification: section 3, by which each binding
introduces or overwrites a name in the innermost frame, and section 4.3, where a binding binds its
name in the current environment.

Some syntax *binds* the names of its bindings that stand outside of every function literal, those
in blocks included: a block has no frame of its own (`Expression.binds`).

A heap writes only some names of a frame on its way to another one if every frame that was there is
either gone or as it was, but for that frame, in which those names may have been bound
(`Heap.Writes`).  Making objects and frames and collecting write nothing at all.

Which names these are is told by the tree alone.  Between two moments the frame need not have been
bound in the order of the tree, and some statements may never have been reached; so what is kept of
the bindings is only that they come from the earlier ones by binding some of the names
(`Bindings.Rebound`), and this is closed under everything that an evaluation does.
-/

namespace Scriptlet

/-! ## The names that syntax binds -/

mutual

/-- The names that an expression binds in the frame it is evaluated in. -/
def Expression.binds : Expression → List String
  | .identifier _ | .integer _ _ | .string _ | .boolean _ _ | .function _ => []
  | .unary _ _ right => right.binds
  | .binary _ left _ right => left.binds ++ right.binds
  | .conditional _ condition consequence alternative =>
    condition.binds ++ (consequence.binds ++ bindsOfAlternative alternative)
  | .call _ callee arguments => callee.binds ++ bindsOfExpressions arguments
  | .array _ elements => bindsOfExpressions elements
  | .index _ left position => left.binds ++ position.binds
  | .hash _ pairs => bindsOfPairs pairs

/-- The names that some expressions bind. -/
def bindsOfExpressions : List Expression → List String
  | [] => []
  | expression :: rest => expression.binds ++ bindsOfExpressions rest

/-- The names that the entries of a hash literal bind. -/
def bindsOfPairs : List Pair → List String
  | [] => []
  | pair :: rest => pair.binds ++ bindsOfPairs rest

/-- The names that an entry of a hash literal binds. -/
def Pair.binds : Pair → List String
  | ⟨key, value⟩ => key.binds ++ value.binds

/-- The names that the block behind `else` binds. -/
def bindsOfAlternative : Option Block → List String
  | none => []
  | some block => block.binds

/-- The names that a block binds. -/
def Block.binds : Block → List String
  | ⟨_, statements, _⟩ => bindsOfStatements statements

/-- The names that some statements bind. -/
def bindsOfStatements : List Statement → List String
  | [] => []
  | statement :: rest => statement.binds ++ bindsOfStatements rest

/-- The names that a statement binds: its own, if it is a binding, and those of its expression. -/
def Statement.binds : Statement → List String
  | .binding _ name value _ => name.text :: value.binds
  | .returning _ value _ | .expression _ value _ => value.binds

end

/-- The names that a program binds. -/
def Program.binds (program : Program) : List String := bindsOfStatements program.statements

/-! ## Bindings with some names bound -/

/-- Whether bindings come from others by binding some of the given names. -/
inductive Bindings.Rebound (names : List String) : Bindings → Bindings → Prop where
  | refl (bindings : Bindings) : Rebound names bindings bindings
  | bind {old new : Bindings} {name : String} (value : Value) (h : name ∈ names)
      (before : Rebound names old new) : Rebound names old (Bindings.bind name value new)

namespace Bindings.Rebound

variable {names others : List String} {old middle new : Bindings}

/-- What is bound first and what is bound then are bound. -/
theorem trans (h : Rebound names old middle) (h' : Rebound names middle new) :
    Rebound names old new := by
  induction h' with
  | refl => exact h
  | bind value hname _ ih => exact .bind value hname ih

/-- More names may be allowed. -/
theorem mono (h : Rebound names old new) (hsub : names ⊆ others) : Rebound others old new := by
  induction h with
  | refl => exact .refl old
  | bind value hname _ ih => exact .bind value (hsub hname) ih

/-- Where no name may be bound, nothing changes. -/
theorem eq_of_nil (h : Rebound [] old new) : new = old := by
  cases h with
  | refl => rfl
  | bind _ hname => exact absurd hname List.not_mem_nil

/-- The other names keep their values. -/
theorem lookup_eq (h : Rebound names old new) {name : String} (hname : name ∉ names) :
    new.lookup name = old.lookup name := by
  induction h with
  | refl => rfl
  | bind value hmem _ ih =>
    have hne : name ≠ _ := fun heq => hname (heq ▸ hmem)
    rw [Bindings.lookup_bind_of_ne hne, ih]

end Bindings.Rebound

/-! ## Frames that are gone or as they were -/

/-- Whether of the frames of a heap, those that are left in another are as they were, except that
in one frame some names may have been bound. -/
structure Heap.Writes (frame : FrameId) (names : List String) (before after : Heap) : Prop where
  size : before.frames.size ≤ after.frames.size
  kept : ∀ id new, id.index < before.frames.size → after.frame? id = some new →
    ∃ old, before.frame? id = some old ∧ new.outer = old.outer ∧
      Bindings.Rebound (if id = frame then names else []) old.bindings new.bindings

namespace Heap.Writes

variable {frame other : FrameId} {names others : List String} {before middle after : Heap}

/-- On the way from a heap to itself nothing is written. -/
theorem refl (frame : FrameId) (names : List String) (heap : Heap) : heap.Writes frame names heap :=
  ⟨Nat.le_refl _, fun _ new _ h => ⟨new, h, rfl, .refl _⟩⟩

/-- What is written on two ways is written on both together. -/
theorem trans (h : before.Writes frame names middle) (h' : middle.Writes frame names after) :
    before.Writes frame names after where
  size := Nat.le_trans h.size h'.size
  kept := by
    intro id new hlt hnew
    obtain ⟨mid, hmid, houter', hbindings'⟩ := h'.kept id new (Nat.lt_of_lt_of_le hlt h.size) hnew
    obtain ⟨old, hold, houter, hbindings⟩ := h.kept id mid hlt hmid
    exact ⟨old, hold, houter'.trans houter, hbindings.trans hbindings'⟩

/-- More names may be allowed to be written. -/
theorem mono (h : before.Writes frame names after) (hsub : names ⊆ others) :
    before.Writes frame others after where
  size := h.size
  kept := by
    intro id new hlt hnew
    obtain ⟨old, hold, houter, hbindings⟩ := h.kept id new hlt hnew
    refine ⟨old, hold, houter, hbindings.mono ?_⟩
    split
    · exact hsub
    · exact List.Subset.refl []

/-- What is written to a frame made on the way is nothing to the frames there were. -/
theorem of_new (h : before.Writes frame names middle) (h' : middle.Writes other others after)
    (hnew : before.frames.size ≤ other.index) : before.Writes frame names after where
  size := Nat.le_trans h.size h'.size
  kept := by
    intro id new hlt hafter
    obtain ⟨mid, hmid, houter', hbindings'⟩ := h'.kept id new (Nat.lt_of_lt_of_le hlt h.size) hafter
    have hne : id ≠ other := by
      rintro rfl
      exact Nat.lt_irrefl _ (Nat.lt_of_lt_of_le hlt hnew)
    rw [if_neg hne] at hbindings'
    obtain ⟨old, hold, houter, hbindings⟩ := h.kept id mid hlt hmid
    exact ⟨old, hold, houter'.trans houter, hbindings'.eq_of_nil ▸ hbindings⟩

/-! ### The operations of a heap -/

/-- A heap with the same frames has nothing written. -/
theorem of_frames_eq (h : after.frames = before.frames) : before.Writes frame names after where
  size := Nat.le_of_eq (congrArg Array.size h).symm
  kept := by
    intro id new _ hnew
    rw [Heap.frame?, h] at hnew
    exact ⟨new, hnew, rfl, .refl _⟩

/-- Binding one of the names writes no other. -/
theorem bind {name : String} (hname : name ∈ names) (value : Value) (heap : Heap) :
    heap.Writes frame names (heap.bind frame name value) where
  size := by simp [Heap.bind]
  kept := by
    intro id new _ hnew
    by_cases hsame : id = frame
    · subst hsame
      rw [Heap.frame?_bind_self, Option.map_eq_some_iff] at hnew
      obtain ⟨old, hold, rfl⟩ := hnew
      rw [if_pos rfl]
      exact ⟨old, hold, rfl, .bind value hname (.refl _)⟩
    · rw [Heap.frame?_bind_of_ne hsame] at hnew
      exact ⟨new, hnew, rfl, .refl _⟩

/-- Binding parameters writes the names of these. -/
theorem bindAll (names : List Name) (values : List Value) (heap : Heap) :
    heap.Writes frame (names.map Name.text) (heap.bindAll frame names values) := by
  induction names generalizing heap values with
  | nil =>
    rw [Heap.bindAll]
    · exact .refl _ _ _
    · exact fun _ _ _ _ h => by cases h
  | cons name names ih =>
    cases values with
    | nil => exact .refl _ _ _
    | cons value values =>
      have hfirst : heap.Writes frame ((name :: names).map Name.text)
          (heap.bind frame name.text value) := bind List.mem_cons_self value heap
      exact hfirst.trans ((ih values _).mono (List.subset_cons_self _ _))

/-- A new frame is none of those there were. -/
theorem newFrame (outer : Option FrameId) (heap : Heap) :
    heap.Writes frame names (heap.newFrame outer).2 where
  size := by simp [Heap.newFrame]
  kept := by
    intro id new hlt hnew
    rcases Heap.frame?_newFrame_cases hnew with ⟨rfl, _⟩ | hold
    · exact absurd hlt (Nat.lt_irrefl _)
    · exact ⟨new, hold, rfl, .refl _⟩

/-- A collection drops frames, and leaves the others as they are. -/
theorem collect {heap : Heap} {roots : Roots} (sound : heap.Sound roots) :
    heap.Writes frame names (heap.collect roots).2 where
  size := Nat.le_of_eq (Heap.size_frames_collect heap roots).symm
  kept := by
    intro id new _ hnew
    have hreach := sound.reachable_of_isAlive_collect (Heap.isAlive_iff.mpr ⟨new, hnew⟩)
    rw [sound.frame?_collect_of_reachable hreach] at hnew
    exact ⟨new, hnew, rfl, .refl _⟩

/-- A new frame may be made after a collection. -/
theorem allocate {heap : Heap} {roots : Roots} {outer : FrameId}
    (sound : heap.Sound (roots.holdFrame outer)) (due : Heap → Bool) :
    heap.Writes frame names (heap.allocate due roots (some outer)).2 := by
  simp only [Heap.allocate, Option.elim_some]
  split
  · exact (collect sound).trans (newFrame _ _)
  · exact newFrame _ _

end Heap.Writes

end Scriptlet
