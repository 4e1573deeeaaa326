import Scriptlet.Proofs.Simulation.Collections

set_option autoImplicit false

/-!
# Values kept behind others

Component: two runs of the evaluator, compared.  Specification: section 6, by which a host keeps
what an evaluation returns.

What a run holds is a list, and what both runs hold comes first in it.  So two runs may be compared
only as long as whatever one of them holds alone is behind all that they hold together.  Here some
pairs of values are kept beside those: they stay matched while either run holds its half of them
anywhere among its own.

Lists of roots that hold the same are the same to a collection, whatever their order (`Roots.Same`).
So what is kept may be moved behind the rest, compared there, and moved back.
-/

namespace Scriptlet

/-- With some pairs of values behind those held. -/
def Held.beside (kept : List (Value × Value)) (held : Held) : Held :=
  { held with values := held.values ++ kept }

/-- What was held is held. -/
theorem Held.within_beside (held : Held) (kept : List (Value × Value)) :
    held.Within (held.beside kept) :=
  ⟨fun _ h => h, fun _ h => List.mem_append_left kept h⟩

/-- The same may be kept on both sides. -/
theorem Held.Within.beside {held others : Held} (h : held.Within others)
    (kept : List (Value × Value)) : (held.beside kept).Within (others.beside kept) := by
  refine ⟨h.frames, fun pair hpair => ?_⟩
  rcases List.mem_append.mp hpair with hpair | hpair
  · exact List.mem_append_left kept (h.values pair hpair)
  · exact List.mem_append_right others.values hpair

/-- More may be held by the second of two owners. -/
theorem Roots.Within.and_right (roots : Roots) {aside others : Roots} (h : aside.Within others) :
    (roots.and aside).Within (roots.and others) := by
  constructor
  · intro id hid
    rcases List.mem_append.mp hid with hid | hid
    · exact List.mem_append_left others.frames hid
    · exact List.mem_append_right roots.frames (h.frames id hid)
  · intro value hvalue
    rcases List.mem_append.mp hvalue with hvalue | hvalue
    · exact List.mem_append_left others.values hvalue
    · exact List.mem_append_right roots.values (h.values value hvalue)

/-- Whether roots hold the same, in whatever order and however often. -/
structure Roots.Same (roots others : Roots) : Prop where
  within : roots.Within others
  back : others.Within roots

/-- Roots with the same frames hold the same if they have the same values. -/
theorem Roots.Same.of_values {roots others : Roots} (frames : roots.frames = others.frames)
    (values : ∀ value, value ∈ roots.values ↔ value ∈ others.values) : roots.Same others where
  within := ⟨fun _ h => frames ▸ h, fun value h => (values value).mp h⟩
  back := ⟨fun _ h => frames ▸ h, fun value h => (values value).mpr h⟩

/-- A collection may be given roots that hold the same. -/
theorem Heap.WellFormed.collect_same {heap : Heap} {roots others : Roots}
    (h : heap.WellFormed roots) (same : roots.Same others) : (heap.collect others).2.WellFormed roots :=
  (h.of_within same.back).collect.of_within same.within

namespace Machine.Similar

variable {aside aside' : Roots} {link : Link} {held : Held} {l r : Machine}

/-- Less may be held aside by the left run. -/
theorem forgetLeft {others : Roots} (h : Machine.Similar aside aside' link held l r)
    (within : others.Within aside) : Machine.Similar others aside' link held l r where
  left := h.left.of_within (.and_right held.left within)
  right := h.right
  heaps := h.heaps
  console := h.console

/-- The left run may collect with the same roots in another order. -/
theorem collectLeft {roots : Roots} (h : Machine.Similar aside aside' link held l r)
    (same : (held.left.and aside).Same roots) :
    Machine.Similar aside aside' link held (l.collect roots).2 r where
  left := h.left.collect_same same
  right := h.right
  heaps := h.heaps.collectLeft (h.left.of_within same.back).toSound
    ((Roots.within_and _ _).trans same.within)
  console := h.console

/-- The right run may collect with the same roots in another order. -/
theorem collectRight {roots : Roots} (h : Machine.Similar aside aside' link held l r)
    (same : (held.right.and aside').Same roots) :
    Machine.Similar aside aside' link held l (r.collect roots).2 where
  left := h.left
  right := h.right.collect_same same
  heaps := h.heaps.collectRight h.left (h.right.of_within same.back).toSound
    ((Roots.within_and _ _).trans same.within)
  console := h.console

end Machine.Similar

/-- A simulation with values kept beside what is held, where either run holds `others` aside in
place of the values kept and what it held aside before. -/
def Simulation.keeping {left right : Setup} {aside aside' others others' : Roots}
    (sim : Simulation left right aside aside') (kept : List (Value × Value))
    (collectLeft : ∀ {link : Link} {held : Held} {l r : Machine},
      sim.Related link (held.beside kept) l r →
      sim.Related link (held.beside kept) (l.collect (held.left.and others)).2 r)
    (collectRight : ∀ {link : Link} {held : Held} {l r : Machine},
      sim.Related link (held.beside kept) l r →
      sim.Related link (held.beside kept) l (r.collect (held.right.and others')).2) :
    Simulation left right others others' where
  Related link held l r := sim.Related link (held.beside kept) l r
  builtins_eq := sim.builtins_eq
  files_eq := sim.files_eq
  digest_eq := sim.digest_eq
  callDepth_eq := sim.callDepth_eq
  frames := fun h pair hpair => sim.frames h pair hpair
  values := fun h pair hpair => sim.values h pair ((Held.within_beside _ kept).values pair hpair)
  console_eq := fun h => sim.console_eq h
  weaken := fun h within => sim.weaken h (within.beside kept)
  hold := fun h hmatch made made' => (sim.hold h hmatch
    (made.mono (Held.within_beside _ kept).left.values)
    (made'.mono (Held.within_beside _ kept).right.values) :)
  holdFrame := fun h hmem => (sim.holdFrame h ((Held.within_beside _ kept).values _ hmem) :)
  lookup := fun name hnone h hframe => (sim.lookup name hnone h hframe :)
  create := fun h new new' hmatch => (sim.create h (new.mono (Held.within_beside _ kept).left)
    (new'.mono (Held.within_beside _ kept).right) hmatch :)
  bind := fun {link held l r value other _ _} name h hframe => by
    have hheld : sim.Related link ((held.beside kept).hold value other) l r := h
    exact sim.bind name hheld hframe
  newFrame := fun h hframe => (sim.newFrame h hframe :)
  collectLeft := collectLeft
  collectRight := collectRight
  console := fun console asked asked' h => sim.console console asked asked' h

end Scriptlet
