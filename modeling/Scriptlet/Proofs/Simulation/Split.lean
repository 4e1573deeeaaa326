import Scriptlet.Proofs.Effects.Statements
import Scriptlet.Proofs.Effects.WellFormed
import Scriptlet.Proofs.Simulation.Keeping

set_option autoImplicit false

/-!
# Programs in pieces

Component: the evaluator, where it runs programs in one environment.  Specification: section 6, by
which the prompt runs one line after the other against one persistent environment, and section 4.3,
by which a program is its statements in order.

Statements may be run in one program, or in two one after the other in the same frame.  In two runs
there is one collection more, after which the second starts, and while it runs the value of the
first may be held or not; in one run it is held until the next statement has ended.  None of this
can be noticed.

The two runs do not hold the same at the same time, so that they are compared with what one of them
holds alone kept aside.  It is the first run that is split: at the place where its first statements
have ended, its machine is compared with the one that the second of two runs starts from
(`alike_between`).
-/

namespace Scriptlet

/-! ## Two runs with the same roots -/

section

variable {setup : Setup} {frame : FrameId} {roots host : Roots}

/-- Some values, on either side. -/
def pairs (values : List Value) : List (Value × Value) := values.map fun value => (value, value)

/-- Values of the left run that are held aside may as well be kept beside. -/
theorem same_left_beside (held : Held) (values extra : List Value) :
    ((held.beside (pairs values)).left.and ⟨[], extra⟩).Same
      (held.left.and ⟨[], extra ++ values⟩) := by
  refine .of_values rfl fun value => ?_
  simp only [Held.beside, Held.left, Roots.and, pairs, List.map_append, List.map_map,
    Function.comp_def, List.map_id', List.mem_append]
  tauto

/-- So may values of the right run that it holds anyway. -/
theorem same_right_beside (held : Held) {values others : List Value}
    (hsub : ∀ value ∈ values, value ∈ others) :
    ((held.beside (pairs values)).right.and ⟨[], others⟩).Same (held.right.and ⟨[], others⟩) := by
  refine .of_values rfl fun value => ?_
  have hvalue := hsub value
  simp only [Held.beside, Held.right, Roots.and, pairs, List.map_append, List.map_map,
    Function.comp_def, List.map_id', List.mem_append]
  tauto

/-- The simulation of two runs that share some roots: the left run holds further values in front of
those of the roots, the right run any values that contain them. -/
def sharing (setup : Setup) (within : roots.Within host) (extra : List Value) :
    Simulation setup setup ⟨[], extra ++ roots.values⟩ ⟨[], host.values⟩ :=
  (similarity ⟨[], extra⟩ ⟨[], host.values⟩ (.refl setup)).keeping (pairs roots.values)
    (fun h => h.collectLeft (same_left_beside _ _ _))
    (fun h => h.collectRight (same_right_beside _ within.values))

/-- The frames of some roots, on either side. -/
def Roots.framesBoth (roots : Roots) : Held := ⟨roots.both.frames, []⟩

/-- The left run holds the roots and some values more. -/
theorem Roots.left_framesBoth (roots : Roots) (extra : List Value) :
    roots.framesBoth.left.and ⟨[], extra ++ roots.values⟩ = roots.holdAll extra := by
  have hframes := congrArg Roots.frames roots.left_both
  simp only [Held.left] at hframes
  simp [framesBoth, Held.left, Roots.and, Roots.holdAll, hframes]

/-- The right run holds what the host does. -/
theorem Roots.right_framesBoth (frames : host.frames = roots.frames) :
    roots.framesBoth.right.and ⟨[], host.values⟩ = host := by
  have hframes := congrArg Roots.frames roots.right_both
  simp only [Held.right] at hframes
  simp [framesBoth, Held.right, Roots.and, hframes, ← frames]

/-- The value so far is held if there is one. -/
theorem Roots.elim_hold (roots : Roots) (last : Option Value) :
    last.elim roots roots.hold = roots.holdAll last.toList := by
  cases last <;> rfl

/-- The value of a program that has ended is held. -/
theorem Outcome.heldIn_finished (roots : Roots) (value : Option Value) :
    (Outcome.finished value).heldIn roots = roots.holdAll value.toList := by
  cases value <;> rfl

/-- The left run may drop what it holds alone. -/
theorem Simulation.Alike.share {within : roots.Within host} {extra : List Value} {held : Held}
    {l r : Machine} (h : (sharing setup within extra).Alike held l r) :
    (sharing setup within []).Alike held l r := by
  obtain ⟨link, h⟩ := h
  have hsimilar : Machine.Similar ⟨[], extra⟩ ⟨[], host.values⟩ link
      (held.beside (pairs roots.values)) l r := h
  exact ⟨link, hsimilar.forgetLeft ⟨fun _ h => h, fun _ h => absurd h List.not_mem_nil⟩⟩

/-- A machine may be compared with itself after a collection. -/
theorem alike_collected {machine : Machine} {extra : List Value} (setup : Setup)
    (h : machine.heap.WellFormed (roots.holdAll extra)) (within : roots.Within host)
    (back : host.Within (roots.holdAll extra)) :
    (sharing setup within extra).Alike roots.framesBoth machine
      (machine.collect (roots.holdAll extra)).2 := by
  have hself := h.similar h fun _ => rfl
  have hcollected := hself.collectRight h h.toSound (by rw [Roots.right_both]; exact .refl _)
  have hheld : roots.both.Within (roots.holdAll extra).both := by
    rw [Roots.both_holdAll]
    exact Held.within_holdAll _ _ _
  have hroots : roots.Within (roots.holdAll extra) := roots.within_holdAll extra
  refine ⟨machine.heap.common machine.heap, ?_⟩
  have hsimilar : Machine.Similar ⟨[], extra⟩ ⟨[], host.values⟩ (machine.heap.common machine.heap)
      roots.both machine (machine.collect (roots.holdAll extra)).2 := {
    left := by
      rw [Roots.left_both]
      refine h.of_within ⟨fun id hid => ?_, fun value hvalue => ?_⟩
      · exact (List.mem_append.mp hid).resolve_right List.not_mem_nil
      · exact List.mem_append.mpr (List.mem_append.mp hvalue).symm
    right := by
      rw [Roots.right_both]
      refine h.collect.of_within ⟨fun id hid => ?_, fun value hvalue => ?_⟩
      · exact (List.mem_append.mp hid).resolve_right List.not_mem_nil
      · rcases List.mem_append.mp hvalue with hvalue | hvalue
        · exact hroots.values value hvalue
        · exact back.values value hvalue
    heaps := hcollected.weaken hheld
    console := rfl }
  exact hsimilar

/-- Statements end alike when the left run holds the value so far and the right run does not. -/
theorem ends_statements {within : roots.Within host} (frames : host.frames = roots.frames)
    (held : frame ∈ roots.frames) {value : Option Value} {l r : Machine}
    (h : (sharing setup within value.toList).Alike roots.framesBoth l r) (first : Statement)
    (rest : List Statement) :
    (sharing setup within []).Ends roots.framesBoth
      (runStatements setup frame roots value (first :: rest) l)
      (runStatements setup frame host none (first :: rest) r) := by
  have hframe : (frame, frame) ∈ roots.framesBoth.frames := List.mem_map_of_mem held
  have hfirst := Simulation.agree_execute h hframe first
  have hrest := fun {last last' : Option Value} {l r : Machine}
      (h : (sharing setup within []).Optional roots.framesBoth last last' l r) =>
    Simulation.ends_runStatements rest h hframe
  rw [Roots.left_framesBoth, Roots.right_framesBoth frames] at hfirst
  rw [Roots.left_framesBoth, Roots.right_framesBoth frames] at hrest
  rw [runStatements, runStatements, Roots.elim_hold, Option.elim_none]
  generalize execute setup frame (roots.holdAll value.toList) first l = result,
    execute setup frame host first r = result' at hfirst
  cases hfirst with
  | ok h => exact hrest (h.imp fun _ h => h.share)
  | returned h => exact .finished (.some (Simulation.Alike.share h))
  | fault fault h => exact .failed _ h.share
  | exhausted h => exact .exhausted h.share

/-- Programs that end alike while they share some roots cannot be told apart. -/
theorem indistinguishable_of_sharing {within : roots.Within host} {first second : Outcome × Machine}
    (h : (sharing setup within []).Ends roots.framesBoth first second) :
    Indistinguishable ⟨[], []⟩ ⟨[], host.values⟩ roots.both first second := by
  have hends : (similarity ⟨[], []⟩ ⟨[], host.values⟩ (.refl setup)).Ends roots.both
      first second := by
    refine h.imp fun values l r h => ?_
    obtain ⟨link, h⟩ := h
    refine ⟨link, ?_⟩
    have hsimilar : Machine.Similar ⟨[], []⟩ ⟨[], host.values⟩ link
        ⟨roots.both.frames, (values ++ []) ++ roots.both.values⟩ l r := h
    rwa [List.append_nil] at hsimilar
  exact indistinguishable_of_ends hends

/-! ## One run or two -/

/-- Where the second of two runs starts, after a first that ended normally, looks the same as where
one run of both goes on. -/
theorem alike_between {first : List Statement} {machine ended : Machine} {value : Option Value}
    (wellFormed : machine.heap.WellFormed roots) (held : frame ∈ roots.frames)
    (completes : Completes setup frame roots none first machine value ended)
    (within : roots.Within host) (back : host.Within (roots.holdAll value.toList)) :
    (sharing setup within value.toList).Alike roots.framesBoth ended
      (ended.collect (roots.holdAll value.toList)).2 := by
  have hended := @wellFormed_runStatements setup _ _ _ first wellFormed held
  rw [completes.run, Outcome.heldIn_finished] at hended
  exact alike_collected setup hended within back

/-- When nothing comes second, the second run only collects. -/
theorem similar_nothing {within : roots.Within host} (frames : host.frames = roots.frames)
    {extra : List Value} {l r : Machine}
    (h : (sharing setup within extra).Alike roots.framesBoth l r) :
    ∃ link, Machine.Similar ⟨[], extra⟩ ⟨[], host.values⟩ link roots.both
      (l.collect (roots.holdAll extra)).2 (r.collect host).2 := by
  have hcollected := h.collect
  rw [Roots.left_framesBoth, Roots.right_framesBoth frames] at hcollected
  exact hcollected

/-- When something comes second, the second of two runs ends like one run of both. -/
theorem indistinguishable_second {within : roots.Within host} (frames : host.frames = roots.frames)
    (held : frame ∈ roots.frames) {value : Option Value} {l r : Machine}
    (h : (sharing setup within value.toList).Alike roots.framesBoth l r) {second : List Statement}
    (hsecond : second ≠ []) :
    let ended := runStatements setup frame roots value second l
    Indistinguishable ⟨[], []⟩ ⟨[], host.values⟩ roots.both
      (ended.1, (ended.2.collect (ended.1.heldIn roots)).2)
      (runProgram setup frame host ⟨second⟩ r) := by
  obtain ⟨statement, rest, rfl⟩ := List.exists_cons_of_ne_nil hsecond
  have hends := (ends_statements frames held h statement rest).collect
  rw [Roots.left_framesBoth, Roots.right_framesBoth frames] at hends
  exact indistinguishable_of_sharing hends

/-- What one run of all statements ends with, told by what the first of them end with. -/
theorem runProgram_of_completes {first : List Statement} {machine ended : Machine}
    {value : Option Value} (completes : Completes setup frame roots none first machine value ended)
    (second : List Statement) :
    let last := runStatements setup frame roots value second ended
    runProgram setup frame roots ⟨first ++ second⟩ machine =
      (last.1, (last.2.collect (last.1.heldIn roots)).2) := by
  simp only [runProgram, completes.run_append second]

/-- One run of all statements and two runs look the same. -/
theorem runs_look_alike {first : List Statement} {machine ended : Machine} {value : Option Value}
    (wellFormed : machine.heap.WellFormed roots) (held : frame ∈ roots.frames)
    (completes : Completes setup frame roots none first machine value ended)
    (within : roots.Within host) (back : host.Within (roots.holdAll value.toList))
    (frames : host.frames = roots.frames) (second : List Statement) :
    let whole := runProgram setup frame roots ⟨first ++ second⟩ machine
    let split := runProgram setup frame host ⟨second⟩ (ended.collect (roots.holdAll value.toList)).2
    whole.2.console = split.2.console ∧
    (∀ id ∈ roots.frames, ∀ name, (whole.2.heap.lookup id name).map Value.seen =
      (split.2.heap.lookup id name).map Value.seen) ∧
    (second ≠ [] → Indistinguishable ⟨[], []⟩ ⟨[], host.values⟩ roots.both whole split) := by
  intro whole split
  have halike := alike_between wellFormed held completes within back
  have hwhole : whole = _ := runProgram_of_completes completes second
  by_cases hsecond : second = []
  · subst hsecond
    obtain ⟨link, hsimilar⟩ := similar_nothing frames halike
    rw [hwhole]
    simp only [split, runProgram, runStatements, Outcome.heldIn_finished]
    exact ⟨hsimilar.console,
      fun id hid name => hsimilar.lookups (List.mem_map_of_mem hid) name, fun h => absurd rfl h⟩
  · have hseen := indistinguishable_second frames held halike hsecond
    rw [hwhole]
    exact ⟨hseen.console, fun id hid name => hseen.lookups _ (List.mem_map_of_mem hid) name,
      fun _ => hseen⟩

end

/-- Splitting a program over two runs changes nothing.  If the first statements end normally, one
run of all statements cannot be told apart from a run of the first and a run of the others after
it, in the same frame, whether or not the value of the first run is held during the second: both
have read and written the same, every scope held looks up the same, and they end in the same way
and with the same value, if there is a second part that they may end with.  If the first statements
do not end normally, nothing that comes behind them matters.

A run fails in its first statement that fails: all before it end normally, and it leaves the machine
as that statement has left it, but for the collection at the end. -/
theorem runProgram_append {setup : Setup} {frame : FrameId} {roots : Roots} {machine : Machine}
    (wellFormed : machine.heap.WellFormed roots) (held : frame ∈ roots.frames)
    (first second : List Statement) :
    let whole := runProgram setup frame roots ⟨first ++ second⟩ machine
    let start := runProgram setup frame roots ⟨first⟩ machine
    (∀ value ended, Completes setup frame roots none first machine value ended →
      ∀ host ∈ [roots, start.1.heldIn roots],
        let split := runProgram setup frame host ⟨second⟩ start.2
        whole.2.console = split.2.console ∧
        (∀ id ∈ roots.frames, ∀ name, (whole.2.heap.lookup id name).map Value.seen =
          (split.2.heap.lookup id name).map Value.seen) ∧
        (second ≠ [] → Indistinguishable ⟨[], []⟩ ⟨[], host.values⟩ roots.both whole split)) ∧
    ((∀ value ended, ¬ Completes setup frame roots none first machine value ended) →
      whole = start) ∧
    (∀ error ended, start = (.failed error, ended) ↔
      ∃ before statement after value middle fault last, error = ⟨statement.span, fault⟩ ∧
        CutShort setup frame roots none first machine before statement after value middle
          (.fault fault) last ∧
        ended = (last.collect roots).2) := by
  intro whole start
  refine ⟨?_, fun hnot => ?_, fun error ended => runProgram_failed_iff⟩
  · intro value ended completes host hhost
    have hstart : start = (.finished value, (ended.collect (roots.holdAll value.toList)).2) := by
      simp only [start, runProgram, completes.run, Outcome.heldIn_finished]
    rw [hstart, Outcome.heldIn_finished] at hhost
    rw [hstart]
    rcases List.mem_pair.mp hhost with rfl | rfl
    -- the second run holds what the first was given, or the value of the first as well
    · exact runs_look_alike wellFormed held completes (.refl _) (Roots.within_holdAll _ _) rfl
        second
    · exact runs_look_alike wellFormed held completes (Roots.within_holdAll _ _) (.refl _) rfl
        second
  · rcases completes_or_cutShort setup frame roots none first machine with
      ⟨value, ended, h⟩ | ⟨before, statement, after, value, middle, halt, ended, h⟩
    · exact absurd h (hnot value ended)
    · simp only [whole, start, runProgram, h.run, (h.append second).run]

/-- A statement that makes an array. -/
def arrayStatement : Statement :=
  .expression ⟨.leftBracket, "[", ⟨0, 1⟩⟩ (.array ⟨.leftBracket, "[", ⟨0, 1⟩⟩ []) ⟨0, 2⟩

/-- An array is made in a run of its own, and held during the next or not, which keeps the frames of
its calls alive and collects before each. -/
theorem runProgram_append_keepers :
    let setup := Setup.collecting true
    let machine : Machine := ⟨Heap.tangle, .ofInput [], []⟩
    Heap.tangle.WellFormed Heap.looseEnds ∧ ⟨0⟩ ∈ Heap.looseEnds.frames ∧
    ∃ value ended, Completes setup ⟨0⟩ Heap.looseEnds none [arrayStatement] machine value ended ∧
      ∀ host ∈ [Heap.looseEnds, Heap.looseEnds.hold (.array ⟨5⟩ [])],
        Indistinguishable ⟨[], []⟩ ⟨[], host.values⟩ Heap.looseEnds.both
          (runProgram setup ⟨0⟩ Heap.looseEnds ⟨[arrayStatement] ++ keepers.statements⟩ machine)
          (runProgram setup ⟨0⟩ host keepers
            (runProgram setup ⟨0⟩ Heap.looseEnds ⟨[arrayStatement]⟩ machine).2) := by
  intro setup machine
  have hcompletes : Completes setup ⟨0⟩ Heap.looseEnds none [arrayStatement] machine
      (some (.array ⟨5⟩ [])) ⟨Heap.tangle.newObject.2, .ofInput [], []⟩ := .cons rfl .nil
  have hkeepers : keepers.statements ≠ [] := by decide +kernel
  obtain ⟨hsplit, _, _⟩ := @runProgram_append setup ⟨0⟩ Heap.looseEnds machine
    Heap.wellFormed_tangle List.mem_cons_self [arrayStatement] keepers.statements
  refine ⟨Heap.wellFormed_tangle, List.mem_cons_self, _, _, hcompletes, fun host hhost => ?_⟩
  obtain ⟨_, _, hseen⟩ := hsplit _ _ hcompletes host (by
    rw [runProgram, hcompletes.run]
    exact hhost)
  exact hseen hkeepers

end Scriptlet
