import Scriptlet.Proofs.Recursion.Yields

set_option autoImplicit false

/-!
# Functions on arrays

Component: programs of the language, with the evaluator and the native functions on arrays.
Specification: sections 4.4 and 10.6 for `len`, `first`, `rest` and `push`, section 8 for closures.

`map`, `reduce` and `sum` can be written with `len`, `first`, `rest` and `push`, as functions with a
loop inside: a function that calls itself with what is left of an array, and with what it has made
so far (`Sketch.looping`).  Such a loop folds the elements from the left (`answers_iter`).  So `map`
gives the images of the elements in order (`answers_map`), `reduce` folds them (`answers_reduce`)
and `sum` adds them up (`answers_sum`), where calls may be nested as deep as there are elements and
some more.

The loop is proved once, for any step (`StepFolds`, `answers_iter`), by induction on the elements
that are left with what has been made general.  `map` and `reduce` differ in the step and in what
they start from, so that each is an instance; `sum` calls `reduce` with a function that adds.

Two bounds come in.  Calls of the loop nest as deep as there are elements, since the language has no
loops of its own.  And the length of an array is taken as an integer that wraps, so that an array of
`2^64` elements would look empty to the test for emptiness; no machine has one, and the statement
says so.
-/

namespace Scriptlet

/-! ## The functions -/

namespace Sketch

/-- A loop over `arr` that keeps in `done` what it has made. -/
def iter (done : String) (step : Expression) : FunctionLiteral :=
  function ["arr", done] [
    statement (token .ifWord "if") (conditional
      (binary (call (identifier "len") [identifier "arr"]) .equal (digits 0))
      (statement (token .identifier done) (identifier done))
      (statement (token .identifier "iter") (call (identifier "iter")
        [call (identifier "rest") [identifier "arr"], step])))]

/-- What a function does that loops over `arr`. -/
def looping (done : String) (step start : Expression) : List Statement :=
  [binding "iter" (.function (iter done step)),
    statement (token .identifier "iter") (call (identifier "iter") [identifier "arr", start])]

/-- The step of `map`, which keeps images. -/
def mapStep : Expression :=
  call (identifier "push") [identifier "accumulated",
    call (identifier "f") [call (identifier "first") [identifier "arr"]]]

/-- `map`, which calls `f` for each element. -/
def map : FunctionLiteral :=
  function ["arr", "f"] (looping "accumulated" mapStep (array []))

/-- The step of `reduce`, which keeps one value. -/
def reduceStep : Expression :=
  call (identifier "f") [identifier "result", call (identifier "first") [identifier "arr"]]

/-- `reduce`, which calls `f` for what it has and each element. -/
def reduce : FunctionLiteral :=
  function ["arr", "initial", "f"] (looping "result" reduceStep (identifier "initial"))

/-- A function that adds two integers. -/
def adding : FunctionLiteral :=
  function ["initial", "el"] [statement (token .identifier "initial")
    (binary (identifier "initial") .add (identifier "el"))]

/-- `sum`, by `reduce` from zero. -/
def sum : FunctionLiteral :=
  function ["arr"] [statement (token .identifier "reduce")
    (call (identifier "reduce") [identifier "arr", digits 0, .function adding])]

/-- A function that doubles an integer. -/
def doubling : FunctionLiteral :=
  function ["x"] [statement (token .identifier "x")
    (binary (identifier "x") .multiply (digits 2))]

end Sketch

/-! ## Small functions -/

section

variable {setup : Setup} {depth : Nat} {facts : List Fact} {captured : FrameId} {callee : Value}

/-- It gives twice its argument, wrapped. -/
theorem answers_doubling (hcallee : callee.IsFunction Sketch.doubling captured) (n : Int64)
    (hdepth : 1 ≤ depth) (standard : setup.builtins = .standard) :
    Answers setup depth facts callee [(· = .integer n)] (· = .integer (n * 2)) := by
  obtain ⟨depth, rfl⟩ := Nat.exists_eq_add_of_le' hdepth
  refine .of_concludes hcallee ?_
  rintro call _ (_ | ⟨rfl, _ | _⟩)
  refine ⟨[⟨call, "x", .integer n⟩], List.forall_mem_singleton.mpr (.argument rfl), ?_⟩
  refine .expression (.binary (.identifier (standard ▸ rfl) List.mem_cons_self) (.digits 2) ?_) _
  rintro _ _ rfl rfl
  exact ⟨_, rfl, rfl⟩

/-- It gives the sum of its arguments, wrapped. -/
theorem answers_adding (hcallee : callee.IsFunction Sketch.adding captured) (m n : Int64)
    (hdepth : 1 ≤ depth) (standard : setup.builtins = .standard) :
    Answers setup depth facts callee [(· = .integer m), (· = .integer n)]
      (· = .integer (m + n)) := by
  obtain ⟨depth, rfl⟩ := Nat.exists_eq_add_of_le' hdepth
  refine .of_concludes hcallee ?_
  rintro call _ (_ | ⟨rfl, _ | ⟨rfl, _ | _⟩⟩)
  refine ⟨[⟨call, "initial", .integer m⟩, ⟨call, "el", .integer n⟩], ?_, ?_⟩
  · exact List.forall_mem_cons.mpr ⟨.argument rfl, List.forall_mem_singleton.mpr (.argument rfl)⟩
  · refine .expression (.binary (.identifier (standard ▸ rfl) List.mem_cons_self)
      (.identifier (standard ▸ rfl) (List.mem_cons_of_mem _ List.mem_cons_self)) ?_) _
    rintro _ _ rfl rfl
    exact ⟨_, rfl, rfl⟩

end

/-! ## Loops -/

section

variable {setup : Setup} {depth least : Nat} {facts : List Fact} {frame : FrameId}
  {done : String} {step : Expression} {iter f arr : Value}

/-- A number that fits into a machine word is not taken for zero. -/
theorem ofNat_eq_zero_iff {n : Nat} (h : n < 2 ^ 64) : Int64.ofNat n = Int64.ofNat 0 ↔ n = 0 := by
  refine ⟨fun hzero => ?_, congrArg Int64.ofNat⟩
  have hbmod : (n : Int).bmod (2 ^ 64) = 0 := Int64.toInt_ofNat'.symm.trans (congrArg _ hzero)
  have hmod : (0 : Int) % 2 ^ 64 = n % 2 ^ 64 := hbmod ▸ Int.bmod_emod
  omega

/-- What a native function makes of `arr`. -/
theorem yields_builtin_arr {name : String} {builtin : Builtin} {elements : List Value}
    {good : Value → Prop} (standard : setup.builtins = .standard)
    (found : BuiltinTable.standard.find? name = some builtin) (harr : arr.IsArray elements)
    (known : ⟨frame, "arr", arr⟩ ∈ facts)
    (hanswers : Answers setup depth facts (.builtin builtin) [Value.IsArray elements] good) :
    Yields setup depth facts frame
      (Sketch.call (Sketch.identifier name) [Sketch.identifier "arr"]) good := by
  have hargument : Yields setup depth facts frame (Sketch.identifier "arr")
      (Value.IsArray elements) :=
    .known (standard ▸ rfl) known harr
  refine .call (.builtin (standard ▸ found)) (.cons hargument .nil) ?_
  rintro _ rfl
  exact hanswers

/-- Whether `arr` has no elements.  The length is an integer: it must not wrap. -/
theorem yields_isEmpty {elements : List Value} (standard : setup.builtins = .standard)
    (harr : arr.IsArray elements) (known : ⟨frame, "arr", arr⟩ ∈ facts)
    (hlength : elements.length < 2 ^ 64) :
    Yields setup depth facts frame
      (Sketch.binary (Sketch.call (Sketch.identifier "len") [Sketch.identifier "arr"]) .equal
        (Sketch.digits 0)) (· = .boolean elements.isEmpty) := by
  refine .binary (yields_builtin_arr standard rfl harr known .len) (.digits 0) ?_
  rintro _ _ rfl rfl
  refine ⟨_, rfl, congrArg (Except.ok ∘ Value.boolean) ?_⟩
  rw [Bool.eq_iff_iff, beq_iff_eq, ofNat_eq_zero_iff hlength, List.length_eq_zero_iff,
    List.isEmpty_iff]

/-- What is known in a turn of a loop. -/
def turnFacts (call frame : FrameId) (done : String) (iter f arr made : Value) : List Fact :=
  [⟨call, "arr", arr⟩, ⟨call, done, made⟩, ⟨call, "f", f⟩, ⟨call, "iter", iter⟩,
    ⟨frame, "iter", iter⟩, ⟨frame, "f", f⟩]

/-- A turn knows its arguments, and of the frame around it the loop itself and `f`. -/
theorem begins_turnFacts (hdone : done ∉ ["arr", "iter", "f"]) (call frame : FrameId)
    (iter f arr made : Value) : ∀ fact ∈ turnFacts call frame done iter f arr made,
      fact.Begins [⟨frame, "iter", iter⟩, ⟨frame, "f", f⟩] (["arr", done].map Sketch.name)
        [arr, made] frame call := by
  simp only [List.mem_cons, List.not_mem_nil, or_false, not_or] at hdone
  obtain ⟨harr, hiter, hf⟩ := hdone
  simp only [turnFacts, List.forall_mem_cons]
  refine ⟨.argument ?_, .argument ?_, .inherited ?_ ?_, .inherited ?_ ?_, .captured ?_,
    .captured ?_, fun _ h => by cases h⟩
  all_goals simp [boundArgument?, Sketch.name, Sketch.token, Name.text, harr, hiter, hf]

/-- A turn of a loop ends it where nothing is left, and else goes on. -/
theorem answers_turn (standard : setup.builtins = .standard)
    (hiter : iter.IsFunction (Sketch.iter done step) frame)
    (hdone : done ∉ ["arr", "iter", "f"]) (free : setup.builtins.find? done = none)
    {elements : List Value} (hlength : elements.length < 2 ^ 64) {before after : Value → Prop}
    (hend : elements = [] → ∀ value, before value → after value)
    (hnext : elements ≠ [] → ∀ call arr made, arr.IsArray elements → before made →
      Yields setup depth (turnFacts call frame done iter f arr made) call
        (Sketch.call (Sketch.identifier "iter")
          [Sketch.call (Sketch.identifier "rest") [Sketch.identifier "arr"], step]) after) :
    Answers setup (depth + 1) [⟨frame, "iter", iter⟩, ⟨frame, "f", f⟩] iter
      [Value.IsArray elements, before] after := by
  refine .of_concludes hiter ?_
  rintro call _ (_ | ⟨harr, _ | ⟨hmade, _ | _⟩⟩)
  rename_i arr made
  refine ⟨_, begins_turnFacts hdone call frame iter f arr made, ?_⟩
  refine .expression (.conditional
    (yields_isEmpty standard harr List.mem_cons_self hlength) (fun hempty => ?_) fun hmore => ?_) _
  · exact .known free (List.mem_cons_of_mem _ List.mem_cons_self)
      (hend (List.isEmpty_iff.mp hempty) made hmade)
  · exact hnext (List.isEmpty_eq_false_iff.mp hmore) call arr made harr hmade

variable {α σ : Type} {element : α → Value} {State : σ → Value → Prop} {next : σ → α → σ}

/-- Whether the step of a loop makes one state of another and the first element, where calls may be
nested deep enough. -/
structure StepFolds (setup : Setup) (frame : FrameId) (f : Value) (least : Nat) (done : String)
    (step : Expression) (element : α → Value) (State : σ → Value → Prop) (next : σ → α → σ) :
    Prop where
  fresh : done ∉ ["arr", "iter", "f"]
  free : setup.builtins.find? done = none
  nests : 1 ≤ least
  yields : ∀ iter depth call arr made x rest state, least ≤ depth →
    arr.IsArray (element x :: rest) → State state made →
    Yields setup depth (turnFacts call frame done iter f arr made) call step
      (State (next state x))

/-- A loop folds the elements from the left. -/
theorem answers_iter (standard : setup.builtins = .standard)
    (hiter : iter.IsFunction (Sketch.iter done step) frame)
    (hstep : StepFolds setup frame f least done step element State next) (elements : List α)
    (hlength : elements.length < 2 ^ 64) (state : σ) (hdepth : elements.length + least ≤ depth) :
    Answers setup depth [⟨frame, "iter", iter⟩, ⟨frame, "f", f⟩] iter
      [Value.IsArray (elements.map element), State state]
      (State (elements.foldl next state)) := by
  have hnests := hstep.nests
  -- Every turn takes a level of nesting, and leaves the levels that the steps need.
  induction elements generalizing state depth with
  | nil =>
    obtain ⟨depth, rfl⟩ : ∃ d, depth = d + 1 := ⟨depth - 1, by omega⟩
    exact answers_turn standard hiter hstep.fresh hstep.free hlength (fun _ _ hmade => hmade)
      fun hmore => absurd rfl hmore
  | cons x rest ih =>
    rw [List.length_cons] at hlength hdepth
    obtain ⟨depth, rfl⟩ : ∃ d, depth = d + 1 := ⟨depth - 1, by omega⟩
    refine answers_turn standard hiter hstep.fresh hstep.free (by simpa using hlength)
      (fun hnone => absurd hnone (List.cons_ne_nil _ _)) fun _ call arr made harr hmade => ?_
    have hloop : Yields setup depth (turnFacts call frame done iter f arr made) call
        (Sketch.identifier "iter") (· = iter) :=
      .identifier (standard ▸ rfl) (by simp [turnFacts])
    have hrest : Yields setup depth (turnFacts call frame done iter f arr made) call
        (Sketch.call (Sketch.identifier "rest") [Sketch.identifier "arr"])
        (Value.IsArray (rest.map element)) :=
      yields_builtin_arr standard rfl harr List.mem_cons_self .rest
    have hmade' := hstep.yields iter depth call arr made x _ state (by omega) harr hmade
    refine .call hloop (.cons hrest (.cons hmade' .nil)) ?_
    rintro _ rfl
    refine (ih (by omega) (next state x) (by omega)).weaken ?_
    simp [turnFacts]

/-- A function that loops over `arr` gives what its loop makes of the elements. -/
theorem concludes_looping (standard : setup.builtins = .standard)
    (hstep : StepFolds setup frame f least done step element State next) {start : Expression}
    {elements : List α} (hlength : elements.length < 2 ^ 64) {state : σ}
    (hdepth : elements.length + least ≤ depth) (harr : arr.IsArray (elements.map element))
    (knownArr : ⟨frame, "arr", arr⟩ ∈ facts) (knownF : ⟨frame, "f", f⟩ ∈ facts)
    (own : ∀ fact ∈ facts, fact.frame = frame ∧ fact.name ≠ "iter")
    (hstart : Yields setup depth facts frame start (State state)) :
    Concludes setup depth facts frame (Sketch.looping done step start)
      (State (elements.foldl next state)) := by
  refine .binding (.function _) own fun iter hiter => .expression ?_ _
  have hargument : Yields setup depth (⟨frame, "iter", iter⟩ :: facts) frame
      (Sketch.identifier "arr") (Value.IsArray (elements.map element)) :=
    .known (standard ▸ rfl) (List.mem_cons_of_mem _ knownArr) harr
  refine .call (.identifier (standard ▸ rfl) List.mem_cons_self)
    (.cons hargument (.cons (hstart.weaken (List.subset_cons_self _ _)) .nil)) ?_
  rintro _ rfl
  refine (answers_iter standard hiter hstep elements hlength state hdepth).weaken ?_
  simp [knownF]

/-! ## The functions that loop -/

/-- In a turn `f` is called for some arguments. -/
theorem yields_f {call : FrameId} {made : Value} {trees : List Expression}
    {inputs : List (Value → Prop)} {good : Value → Prop} (standard : setup.builtins = .standard)
    (harguments :
      YieldsAll setup depth (turnFacts call frame done iter f arr made) call trees inputs)
    (hf : Answers setup depth [] f inputs good) :
    Yields setup depth (turnFacts call frame done iter f arr made) call
      (Sketch.call (Sketch.identifier "f") trees) good := by
  have hcallee : Yields setup depth (turnFacts call frame done iter f arr made) call
      (Sketch.identifier "f") (· = f) := .identifier (standard ▸ rfl) (by simp [turnFacts])
  refine .call hcallee harguments ?_
  rintro _ rfl
  exact hf.weaken (List.nil_subset _)

/-- In a turn the first element is taken. -/
theorem yields_first {x : Value} {rest : List Value} {call : FrameId}
    (standard : setup.builtins = .standard) (harr : arr.IsArray (x :: rest))
    (known : ⟨call, "arr", arr⟩ ∈ facts) :
    Yields setup depth facts call
      (Sketch.call (Sketch.identifier "first") [Sketch.identifier "arr"]) (· = x) := by
  have found : BuiltinTable.standard.find? "first" = some ⟨"first", .first⟩ := rfl
  exact yields_builtin_arr standard found harr known .first

/-- The step of `map` puts one image behind the others. -/
theorem stepFolds_mapStep (standard : setup.builtins = .standard) (hleast : 1 ≤ least)
    {image : α → Value} (hf : ∀ depth x, least ≤ depth →
      Answers setup depth [] f [(· = element x)] (· = image x)) :
    StepFolds setup frame f least "accumulated" Sketch.mapStep element
      (fun images => Value.IsArray images) (fun images x => images ++ [image x]) := by
  refine ⟨by decide, standard ▸ rfl, hleast, ?_⟩
  intro iter depth call arr made x rest images hdepth harr hmade
  have hbefore : Yields setup depth (turnFacts call frame "accumulated" iter f arr made) call
      (Sketch.identifier "accumulated") (Value.IsArray images) :=
    .known (standard ▸ rfl) (List.mem_cons_of_mem _ List.mem_cons_self) hmade
  have himage : Yields setup depth (turnFacts call frame "accumulated" iter f arr made) call
      (Sketch.call (Sketch.identifier "f")
        [Sketch.call (Sketch.identifier "first") [Sketch.identifier "arr"]]) (· = image x) :=
    yields_f standard (.cons (yields_first standard harr List.mem_cons_self) .nil)
      (hf depth x hdepth)
  have hpush : setup.builtins.find? "push" = some ⟨"push", .push⟩ := standard ▸ rfl
  refine .call (.builtin hpush) (.cons hbefore (.cons himage .nil)) ?_
  rintro _ rfl
  exact .push

/-- The step of `reduce` makes one value of another. -/
theorem stepFolds_reduceStep (standard : setup.builtins = .standard) (hleast : 1 ≤ least)
    (hf : ∀ depth state x, least ≤ depth →
      Answers setup depth [] f [State state, (· = element x)] (State (next state x))) :
    StepFolds setup frame f least "result" Sketch.reduceStep element State next := by
  refine ⟨by decide, standard ▸ rfl, hleast, ?_⟩
  intro iter depth call arr made x rest state hdepth harr hmade
  have hbefore : Yields setup depth (turnFacts call frame "result" iter f arr made) call
      (Sketch.identifier "result") (State state) :=
    .known (standard ▸ rfl) (List.mem_cons_of_mem _ List.mem_cons_self) hmade
  exact yields_f standard
    (.cons hbefore (.cons (yields_first standard harr List.mem_cons_self) .nil))
    (hf depth state x hdepth)

variable {callee : Value} {captured : FrameId} {elements : List α}

/-- `map` gives what its function makes of the elements, in order. -/
theorem answers_map (standard : setup.builtins = .standard)
    (hcallee : callee.IsFunction Sketch.map captured) (hleast : 1 ≤ least) {image : α → Value}
    {called : Value → Prop} (hf : ∀ f depth x, called f → least ≤ depth →
      Answers setup depth [] f [(· = element x)] (· = image x))
    (hlength : elements.length < 2 ^ 64) (hdepth : elements.length + least < depth) :
    Answers setup depth facts callee [Value.IsArray (elements.map element), called]
      (Value.IsArray (elements.map image)) := by
  obtain ⟨depth, rfl⟩ : ∃ d, depth = d + 1 := ⟨depth - 1, by omega⟩
  refine .of_concludes hcallee ?_
  rintro frame _ (_ | ⟨harr, _ | ⟨hcalled, _ | _⟩⟩)
  rename_i arr f
  refine ⟨[⟨frame, "arr", arr⟩, ⟨frame, "f", f⟩], ?_, ?_⟩
  · exact List.forall_mem_cons.mpr ⟨.argument rfl, List.forall_mem_singleton.mpr (.argument rfl)⟩
  -- The images of the elements are those that the steps add, one after the other.
  · rw [List.map_eq_flatMap, List.flatMap_eq_foldl]
    refine concludes_looping standard
      (stepFolds_mapStep standard hleast fun depth x => hf f depth x hcalled) hlength (by omega)
      harr List.mem_cons_self (List.mem_cons_of_mem _ List.mem_cons_self) ?_ (.array .nil)
    simp

/-- `reduce` folds the elements from the left. -/
theorem answers_reduce (standard : setup.builtins = .standard)
    (hcallee : callee.IsFunction Sketch.reduce captured) (hleast : 1 ≤ least)
    {called : Value → Prop} (hf : ∀ f depth state x, called f → least ≤ depth →
      Answers setup depth [] f [State state, (· = element x)] (State (next state x)))
    (hlength : elements.length < 2 ^ 64) (hdepth : elements.length + least < depth) (state : σ) :
    Answers setup depth facts callee
      [Value.IsArray (elements.map element), State state, called]
      (State (elements.foldl next state)) := by
  obtain ⟨depth, rfl⟩ : ∃ d, depth = d + 1 := ⟨depth - 1, by omega⟩
  refine .of_concludes hcallee ?_
  rintro frame _ (_ | ⟨harr, _ | ⟨hinitial, _ | ⟨hcalled, _ | _⟩⟩⟩)
  rename_i arr initial f
  refine ⟨[⟨frame, "arr", arr⟩, ⟨frame, "initial", initial⟩, ⟨frame, "f", f⟩], ?_, ?_⟩
  · simp only [List.forall_mem_cons]
    exact ⟨.argument rfl, .argument rfl, .argument rfl, List.forall_mem_nil _⟩
  · have hstart : Yields setup depth
        [⟨frame, "arr", arr⟩, ⟨frame, "initial", initial⟩, ⟨frame, "f", f⟩] frame
        (Sketch.identifier "initial") (State state) :=
      .known (standard ▸ rfl) (List.mem_cons_of_mem _ List.mem_cons_self) hinitial
    refine concludes_looping standard
      (stepFolds_reduceStep standard hleast fun depth state x => hf f depth state x hcalled)
      hlength (by omega) harr List.mem_cons_self ?_ ?_ hstart
    · simp
    · simp

end

/-! ## Sums -/

section

variable {setup : Setup} {depth : Nat} {facts : List Fact} {captured : FrameId}
  {callee reduce : Value}

/-- `sum` adds integers up, where `reduce` is known in the frame that it was made in. -/
theorem answers_sum (standard : setup.builtins = .standard)
    (hcallee : callee.IsFunction Sketch.sum captured)
    (hreduce : reduce.IsFunction Sketch.reduce captured)
    (known : ⟨captured, "reduce", reduce⟩ ∈ facts) {xs : List Int64}
    (hlength : xs.length < 2 ^ 64) (hdepth : xs.length + 3 ≤ depth) :
    Answers setup depth facts callee [Value.IsArray (xs.map .integer)]
      (· = .integer (xs.foldl (· + ·) 0)) := by
  obtain ⟨depth, rfl⟩ : ∃ d, depth = d + 1 := ⟨depth - 1, by omega⟩
  refine .of_concludes hcallee ?_
  rintro frame _ (_ | ⟨harr, _ | _⟩)
  rename_i arr
  refine ⟨[⟨frame, "arr", arr⟩, ⟨frame, "reduce", reduce⟩], ?_, ?_⟩
  · exact List.forall_mem_cons.mpr
      ⟨.argument rfl, List.forall_mem_singleton.mpr (.inherited rfl known)⟩
  have hargument : Yields setup depth [⟨frame, "arr", arr⟩, ⟨frame, "reduce", reduce⟩] frame
      (Sketch.identifier "arr") (Value.IsArray (xs.map .integer)) :=
    .known (standard ▸ rfl) List.mem_cons_self harr
  have hcalled : Yields setup depth [⟨frame, "arr", arr⟩, ⟨frame, "reduce", reduce⟩] frame
      (Sketch.identifier "reduce") (· = reduce) :=
    .identifier (standard ▸ rfl) (List.mem_cons_of_mem _ List.mem_cons_self)
  refine .expression (.call hcalled
    (.cons hargument (.cons (.digits 0) (.cons (.function _) .nil))) ?_) _
  rintro _ rfl
  exact answers_reduce standard hreduce (Nat.le_refl 1)
    (fun f depth m n hf hdepth => answers_adding hf m n hdepth standard) hlength (by omega) 0

end

end Scriptlet
