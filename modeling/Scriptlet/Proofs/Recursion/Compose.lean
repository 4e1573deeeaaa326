import Scriptlet.Proofs.Recursion.Texts

set_option autoImplicit false

/-!
# Functions on arrays compute functions on lists

Component: programs of the language, from their text to what they print and leave.  Specification:
sections 4.3, 4.4 and 6; the program is that of a test of the library.

A program that defines `map`, `reduce` and `sum` goes on where they are known (`Runs.helpers`).
There an array of integers is doubled and summed up as a list is, whatever the program is run in,
and what an array is bound to stays (`helpers_compute_lists`).

The program may be run in any frame in which nothing is known, of any heap, with any collections,
under any setup that has the usual table.  That is what the rules are for: the proof says what the
program does to what it is given, and nothing about the machine besides.

Sums and doubles are told of exact numbers at the end, by wrapping (`Wraps`), so that nothing in the
statement is told by the operators of the language themselves.
-/

namespace Scriptlet

section

variable {setup : Setup} {facts : List Fact} {frame : FrameId}

/-! ## Programs -/

/-- Whether a text is a program, which ends with an outcome and leaves a machine. -/
structure Evaluates (setup : Setup) (frame : FrameId) (roots : Roots) (text : String)
    (machine : Machine) (outcome : Outcome) (after : Machine) : Prop where
  parses : (parse text).errors = []
  runs : runProgram setup frame roots (parse text).program machine = (outcome, after)

/-- Whether some statements run through to a good value and good facts, where some facts are
known. -/
def Runs (setup : Setup) (facts : List Fact) (frame : FrameId) (statements : List Statement)
    (good : Option Value → List Fact → Prop) : Prop :=
  ∀ (written : List Statement) (roots : Roots) (machine : Machine),
    mapSpansOfStatements (fun _ => default) written = statements →
    frame ∈ roots.frames → machine.heap.Knows roots facts →
    ∃ value known after, good value known ∧
      runStatements setup frame roots none written machine = (.finished value, after) ∧
      after.heap.Knows (Outcome.heldIn roots (.finished value)) known

namespace Runs

variable {good : Option Value → List Fact → Prop} {wanted : Value → Prop} {tree : Expression}

/-- No statements are worth nothing, and know what is known. -/
theorem nil (h : good none facts) : Runs setup facts frame [] good := by
  intro written roots machine hwritten held hknows
  cases written with
  | nil => exact ⟨none, facts, machine, h, rfl, hknows⟩
  | cons => cases hwritten

/-- A binding makes a fact known, and the other statements run where it is. -/
theorem binding {text : String} {rest : List Statement}
    (h : Yields setup setup.callDepth facts frame tree wanted)
    (own : ∀ fact ∈ facts, fact.frame = frame ∧ fact.name ≠ text)
    (hrest : ∀ value, wanted value → Runs setup (⟨frame, text, value⟩ :: facts) frame rest good) :
    Runs setup facts frame (Sketch.binding text tree :: rest) good := by
  intro written roots machine hwritten held hknows
  obtain ⟨token, name, inner, span, behind, rfl, rfl, hinner, hbehind⟩ :=
    Sketch.exists_binding hwritten
  obtain ⟨result, middle, hresult, heval, hmiddle⟩ :=
    h.evalStatement_binding hinner held hknows own
  obtain ⟨value, known, after, hgood, hrun, hafter⟩ :=
    hrest result hresult behind roots middle hbehind held hmiddle
  refine ⟨value, known, after, hgood, ?_, hafter⟩
  rw [runStatements, Option.elim_none, execute, heval]
  exact hrun

/-- A last expression is what the statements are worth. -/
theorem expression (h : Yields setup setup.callDepth facts frame tree wanted) (first : Token)
    (hgood : ∀ value, wanted value → good (some value) facts) :
    Runs setup facts frame [Sketch.statement first tree] good := by
  intro written roots machine hwritten held hknows
  obtain ⟨token, inner, span, rfl, hinner⟩ := Sketch.exists_statement hwritten
  obtain ⟨value, after, hvalue, hwrites, heval⟩ := h inner roots machine hinner held hknows
  refine ⟨some value, facts, after, hgood value hvalue, ?_,
    hknows.after_expression held hwrites heval⟩
  have hexecute : execute setup frame roots (.expression token inner span) machine =
      .ok (some value) after := by
    rw [execute, evalStatement, Eval.bind_of_ok heval]
    rfl
  rw [runStatements, Option.elim_none, hexecute]
  rfl

/-- A text whose statements run through is a program that does, and what is known stays known when
it is over. -/
theorem program {statements : List Statement} (h : Runs setup facts frame statements good)
    {text : String} (htext : StandsFor text statements) {roots : Roots} {machine : Machine}
    (held : frame ∈ roots.frames) (hknows : machine.heap.Knows roots facts) :
    ∃ value known after, good value known ∧
      Evaluates setup frame roots text machine (.finished value) after ∧
      after.heap.Knows (Outcome.heldIn roots (.finished value)) known := by
  obtain ⟨value, known, after, hgood, hrun, hafter⟩ :=
    h _ roots machine htext.statements held hknows
  refine ⟨value, known, (after.collect (Outcome.heldIn roots (.finished value))).2, hgood,
    ⟨htext.errors, ?_⟩, ?_⟩
  · rw [runProgram, hrun]
  · have hwrites : after.heap.Writes frame []
        (after.heap.collect (Outcome.heldIn roots (.finished value))).2 :=
      .collect hafter.wellFormed.toSound
    exact hafter.after hwrites hafter.wellFormed.collect (.refl _)

end Runs

/-! ## The functions on arrays -/

variable {map reduce sum : Value} {xs : List Int64}

/-- What is known where the functions are defined. -/
def helperFacts (frame : FrameId) (map reduce sum : Value) : List Fact :=
  [⟨frame, "sum", sum⟩, ⟨frame, "reduce", reduce⟩, ⟨frame, "map", map⟩]

/-- Statements behind the definitions of the functions. -/
theorem Runs.helpers {rest : List Statement} {good : Option Value → List Fact → Prop}
    (hrest : ∀ map reduce sum, map.IsFunction Sketch.map frame →
      reduce.IsFunction Sketch.reduce frame → sum.IsFunction Sketch.sum frame →
      Runs setup (helperFacts frame map reduce sum) frame rest good) :
    Runs setup [] frame (Sketch.helpers ++ rest) good := by
  refine .binding (.function _) (by simp) fun map hmap => ?_
  refine .binding (.function _) (by simp) fun reduce hreduce => ?_
  exact .binding (.function _) (by simp) fun sum hsum => hrest map reduce sum hmap hreduce hsum

/-- Literals of integers are worth them. -/
theorem yieldsAll_integers {depth : Nat} (xs : List Int64) :
    YieldsAll setup depth facts frame (xs.map Sketch.integer)
      ((xs.map Value.integer).map fun element => (· = element)) := by
  induction xs with
  | nil => exact .nil
  | cons x xs ih => exact .cons (.integer x) ih

/-- The literal of an array of integers is worth such an array. -/
theorem yields_array {depth : Nat} (xs : List Int64) :
    Yields setup depth facts frame (Sketch.array (xs.map Sketch.integer))
      (Value.IsArray (xs.map .integer)) :=
  .array (yieldsAll_integers xs)

/-- Where `map` is known, an array is doubled. -/
theorem yields_doubled {depth : Nat} {operand : Expression} (standard : setup.builtins = .standard)
    (hmap : map.IsFunction Sketch.map frame) (known : ⟨frame, "map", map⟩ ∈ facts)
    (hlength : xs.length < 2 ^ 64) (hdepth : xs.length + 2 ≤ depth)
    (hoperand : Yields setup depth facts frame operand (Value.IsArray (xs.map .integer))) :
    Yields setup depth facts frame (Sketch.doubled operand)
      (Value.IsArray ((xs.map (· * 2)).map .integer)) := by
  refine .call (.identifier (standard ▸ rfl) known)
    (.cons hoperand (.cons (.function _) .nil)) ?_
  rintro _ rfl
  rw [List.map_map]
  exact answers_map standard hmap (Nat.le_refl 1)
    (fun f depth x hf hdepth => answers_doubling hf x hdepth standard) hlength (by omega)

/-- Where `sum` and `reduce` are known, an array is summed up. -/
theorem yields_sum {depth : Nat} {operand : Expression} (standard : setup.builtins = .standard)
    (hreduce : reduce.IsFunction Sketch.reduce frame) (hsum : sum.IsFunction Sketch.sum frame)
    (knownReduce : ⟨frame, "reduce", reduce⟩ ∈ facts) (knownSum : ⟨frame, "sum", sum⟩ ∈ facts)
    (hlength : xs.length < 2 ^ 64) (hdepth : xs.length + 3 ≤ depth)
    (hoperand : Yields setup depth facts frame operand (Value.IsArray (xs.map .integer))) :
    Yields setup depth facts frame (Sketch.call (Sketch.identifier "sum") [operand])
      (· = .integer (xs.foldl (· + ·) 0)) := by
  refine .call (.identifier (standard ▸ rfl) knownSum) (.cons hoperand .nil) ?_
  rintro _ rfl
  exact answers_sum standard hsum hreduce knownReduce hlength hdepth

/-! ## Their programs -/

section

variable (standard : setup.builtins = .standard) (hlength : xs.length < 2 ^ 64)
  (hdepth : xs.length + 3 ≤ setup.callDepth)
include standard hlength hdepth

/-- In particular an array that is written out. -/
theorem yields_doubled_array (hmap : map.IsFunction Sketch.map frame) (reduce sum : Value) :
    Yields setup setup.callDepth (helperFacts frame map reduce sum) frame
      (Sketch.doubled (Sketch.array (xs.map Sketch.integer)))
      (Value.IsArray ((xs.map (· * 2)).map .integer)) :=
  yields_doubled standard hmap (by simp [helperFacts]) hlength (Nat.le_of_succ_le hdepth)
    (yields_array xs)

/-- The definitions, and `map` of an array. -/
theorem runs_map : Runs setup [] frame
    (Sketch.helpers ++ [Sketch.statement (Sketch.token .identifier "map")
      (Sketch.doubled (Sketch.array (xs.map Sketch.integer)))])
    fun value _ => ∃ object, value = some (.array object ((xs.map (· * 2)).map .integer)) := by
  refine .helpers fun map reduce sum hmap _ _ => ?_
  exact .expression (yields_doubled_array standard hlength hdepth hmap reduce sum) _
    fun value ⟨object, hvalue⟩ => ⟨object, congrArg some hvalue⟩

/-- The definitions, and `sum` of `map` of an array. -/
theorem runs_sum : Runs setup [] frame
    (Sketch.helpers ++ [Sketch.statement (Sketch.token .identifier "sum")
      (Sketch.call (Sketch.identifier "sum")
        [Sketch.doubled (Sketch.array (xs.map Sketch.integer))])])
    fun value _ => value = some (.integer ((xs.map (· * 2)).foldl (· + ·) 0)) := by
  refine .helpers fun map reduce sum hmap hreduce hsum => ?_
  have hdoubled := yields_doubled_array standard hlength hdepth hmap reduce sum
  refine .expression (yields_sum standard hreduce hsum ?_ ?_ ?_ ?_ hdoubled) _
    fun value hvalue => congrArg some hvalue
  · simp [helperFacts]
  · simp [helperFacts]
  · rwa [List.length_map]
  · rwa [List.length_map]

/-- What is known of an array behind its name, and of `map`. -/
def KnowsOriginal (frame : FrameId) (xs : List Int64) (original : ObjectId) (known : List Fact) :
    Prop :=
  ⟨frame, "original", .array original (xs.map .integer)⟩ ∈ known ∧
    ∃ map, map.IsFunction Sketch.map frame ∧ ⟨frame, "map", map⟩ ∈ known

omit standard hlength hdepth in
/-- The definitions, and a name for an array. -/
theorem runs_original : Runs setup [] frame
    (Sketch.helpers ++ [Sketch.binding "original" (Sketch.array (xs.map Sketch.integer))])
    fun value known => value = none ∧ ∃ original, KnowsOriginal frame xs original known := by
  refine .helpers fun map reduce sum hmap _ _ => .binding (yields_array xs) ?_ ?_
  · simp [helperFacts]
  · rintro _ ⟨original, rfl⟩
    exact .nil ⟨rfl, original, List.mem_cons_self, map, hmap, by simp [helperFacts]⟩

/-- `map` of that array, which stays what it is. -/
theorem runs_double_original {original : ObjectId} (h : KnowsOriginal frame xs original facts) :
    Runs setup facts frame [Sketch.statement (Sketch.token .identifier "map")
      (Sketch.doubled (Sketch.identifier "original"))]
    fun value known => (∃ object, value = some (.array object ((xs.map (· * 2)).map .integer))) ∧
      KnowsOriginal frame xs original known := by
  obtain ⟨map, hmap, known⟩ := h.2
  have hdoubled := yields_doubled standard hmap known hlength (Nat.le_of_succ_le hdepth)
    (.known (standard ▸ rfl) h.1 ⟨original, rfl⟩)
  exact .expression hdoubled _ fun value ⟨object, hvalue⟩ => ⟨⟨object, congrArg some hvalue⟩, h⟩

end

end

/-! ## Exact numbers -/

/-- Twice an integer, wrapped. -/
theorem wraps_double (x : Int64) : Wraps (x * 2) (2 * x.toInt) := by
  rw [Int.mul_comm]
  exact (Wraps.self x).mul (.self 2)

/-- Doubles that are added up are twice the sum, wrapped. -/
theorem wraps_foldl_double {start : Int64} {exact : Int} (h : Wraps start exact)
    (xs : List Int64) :
    Wraps ((xs.map (· * 2)).foldl (· + ·) start) (exact + 2 * (xs.map Int64.toInt).sum) := by
  induction xs generalizing start exact with
  | nil => simpa using h
  | cons x xs ih =>
    have hrest := ih (h.add (wraps_double x))
    rw [List.map_cons, List.foldl_cons, List.map_cons, List.sum_cons, Int.mul_add, ← Int.add_assoc]
    exact hrest

/-- Whether integers are the doubles of others, in order and as many, wrapped to 64 bits. -/
def Doubles (xs ys : List Int64) : Prop := List.Forall₂ (fun x y => Wraps y (2 * x.toInt)) xs ys

/-- Elements that are doubled one by one are their doubles. -/
theorem doubles_map (xs : List Int64) : Doubles xs (xs.map (· * 2)) :=
  List.forall₂_map_right_iff.mpr (List.forall₂_same.mpr fun x _ => wraps_double x)

/-- There is one such list. -/
theorem Doubles.unique {xs ys others : List Int64} (h : Doubles xs ys) (h' : Doubles xs others) :
    ys = others :=
  List.right_unique_forall₂' (fun _ _ _ hy hother => hy.unique hother) h h'

/-- Functions on arrays that are written in the language, as loops that call themselves, compute
functions on lists.  `sum` of `map` gives twice the sum of any integers, wrapped to 64 bits; `map`
gives their doubles; and an array that `map` is given is what it was.

An integer has a literal if it is greater than `-2^63`.  The length of an array is a machine word.
Calls are nested as deep as the array is long, and three deep for `sum`, `reduce` and the last turn
of its loop. -/
theorem helpers_compute_lists {setup : Setup} {frame : FrameId} {roots : Roots} {machine : Machine}
    {xs : List Int64} (standard : setup.builtins = .standard) (held : frame ∈ roots.frames)
    (hheap : machine.heap.WellFormed roots) (hliteral : ∀ x ∈ xs, -2 ^ 63 < x.toInt)
    (hlength : xs.length < 2 ^ 64) (hdepth : xs.length + 3 ≤ setup.callDepth) :
    (∃ total after,
      Evaluates setup frame roots (sumText xs) machine (.finished (some (.integer total))) after ∧
      Wraps total (2 * (xs.map Int64.toInt).sum)) ∧
    (∃ object ys after,
      Evaluates setup frame roots (mapText xs) machine
        (.finished (some (.array object (ys.map .integer)))) after ∧
      Doubles xs ys) ∧
    ∃ original bound object ys after,
      Evaluates setup frame roots (originalText xs) machine (.finished none) bound ∧
      bound.heap.lookup frame "original" = some (.array original (xs.map .integer)) ∧
      Evaluates setup frame roots doubleOriginalText bound
        (.finished (some (.array object (ys.map .integer)))) after ∧
      Doubles xs ys ∧
      after.heap.lookup frame "original" = some (.array original (xs.map .integer)) := by
  have hwritten : ∀ x ∈ xs, x ≠ Int64.minValue := by
    rintro x hmem rfl
    exact absurd (hliteral _ hmem) (by decide)
  have hknows : machine.heap.Knows roots [] :=
    ⟨hheap, List.forall_mem_nil _, List.forall_mem_nil _⟩
  refine ⟨?_, ?_, ?_⟩
  · obtain ⟨_, _, after, rfl, hevaluates, _⟩ :=
      (runs_sum standard hlength hdepth).program (standsFor_sumText hwritten) held hknows
    have htotal := wraps_foldl_double (.self 0) xs
    rw [Int64.toInt_zero, Int.zero_add] at htotal
    exact ⟨_, after, hevaluates, htotal⟩
  · obtain ⟨_, _, after, ⟨object, rfl⟩, hevaluates, _⟩ :=
      (runs_map standard hlength hdepth).program (standsFor_mapText hwritten) held hknows
    exact ⟨object, _, after, hevaluates, doubles_map xs⟩
  · obtain ⟨_, _, bound, ⟨rfl, original, horiginal⟩, hbinds, hbound⟩ :=
      runs_original.program (standsFor_originalText hwritten) held hknows
    obtain ⟨_, _, after, ⟨⟨object, rfl⟩, hkept⟩, hevaluates, hafter⟩ :=
      (runs_double_original standard hlength hdepth horiginal).program
        standsFor_doubleOriginalText held hbound
    exact ⟨original, bound, object, _, after, hbinds, hbound.found _ horiginal.1, hevaluates,
      doubles_map xs, hafter.found _ hkept.1⟩

/-- Calls that may be nested seven deep are enough for four elements, with a collection before every
frame that is made.  Two elements show how a sum wraps. -/
theorem helpers_compute_lists_four :
    let files : Files := ⟨fun _ => false, fun _ => .error .notFound⟩
    let setup : Setup := ⟨.standard, files, .sha1, 7, fun _ => true⟩
    let start : Machine := ⟨oneFrame.heap, default, []⟩
    oneFrame.heap.WellFormed oneFrame.roots ∧ arrayText [1, 2, 3, 4] = "[1, 2, 3, 4]" ∧
    (∃ after, Evaluates setup ⟨0⟩ oneFrame.roots (sumText [1, 2, 3, 4]) start
      (.finished (some (.integer 20))) after) ∧
    (∃ object after, Evaluates setup ⟨0⟩ oneFrame.roots (mapText [1, 2, 3, 4]) start
      (.finished (some (.array object [.integer 2, .integer 4, .integer 6, .integer 8]))) after) ∧
    arrayText [Int64.maxValue, -3] = "[9223372036854775807, -3]" ∧
    ∃ after, Evaluates setup ⟨0⟩ oneFrame.roots (sumText [Int64.maxValue, -3]) start
      (.finished (some (.integer (-8)))) after := by
  intro files setup start
  have hheap : oneFrame.heap.WellFormed oneFrame.roots := reached_oneFrame.wellFormed
  have hfourLiteral : ∀ x ∈ [1, 2, 3, 4], -2 ^ 63 < Int64.toInt x := by
    simp only [List.forall_mem_cons]
    exact ⟨by decide, by decide, by decide, by decide, List.forall_mem_nil _⟩
  have htwoLiteral : ∀ x ∈ [Int64.maxValue, -3], -2 ^ 63 < Int64.toInt x := by
    simp only [List.forall_mem_cons]
    exact ⟨by decide, by decide, List.forall_mem_nil _⟩
  have hfour := @helpers_compute_lists setup ⟨0⟩ oneFrame.roots start [1, 2, 3, 4] rfl
    List.mem_cons_self hheap hfourLiteral (by decide) (by decide)
  have htwo := @helpers_compute_lists setup ⟨0⟩ oneFrame.roots start [Int64.maxValue, -3] rfl
    List.mem_cons_self hheap htwoLiteral (by decide) (by decide)
  refine ⟨hheap, by decide, ?_, ?_, by decide, ?_⟩
  · obtain ⟨⟨total, after, hevaluates, htotal⟩, -⟩ := hfour
    obtain rfl : total = 20 := htotal.unique (.self 20)
    exact ⟨after, hevaluates⟩
  · obtain ⟨-, ⟨object, ys, after, hevaluates, hdoubles⟩, -⟩ := hfour
    obtain rfl : ys = [2, 4, 6, 8] := hdoubles.unique (doubles_map [1, 2, 3, 4])
    exact ⟨object, after, hevaluates⟩
  · obtain ⟨⟨total, after, hevaluates, htotal⟩, -⟩ := htwo
    obtain rfl : total = -8 := htotal.unique ⟨by decide, by decide, by decide⟩
    exact ⟨after, hevaluates⟩

end Scriptlet
