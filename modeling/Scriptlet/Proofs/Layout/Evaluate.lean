import Scriptlet.Proofs.Layout.Machine

set_option autoImplicit false

/-!
# Evaluation does not depend on spans

Component: the evaluator and the builtin registry.  Specification: sections 4.3, 4.4 and 10.6, rule
by rule.

Changing the spans of a program and of the machine it runs on changes the spans in what it leaves
and nothing else (`mirrors_execute`).  An evaluation is related to the same evaluation after the
change (`Mirrors`), which goes through `bind`, so that it is enough to look at the smallest steps.

The relation is an equation: the evaluation after the change ends as the change of the end before
it.  So it is proved by following the evaluator, with one line for each of its steps, and needs no
case on how an evaluation ends.

Calls are a parameter of the evaluator.  That they mirror each other is a hypothesis of the lemmas
on expressions and statements (`MirrorsCalls`) and is discharged by induction on the depth of calls.
-/

namespace Scriptlet

variable (f : Span → Span)

/-- The reason with the spans of the functions in it changed. -/
def Halt.mapSpans : Halt → Halt
  | .returned value => .returned (value.mapSpans f)
  | .fault reason => .fault reason
  | .exhausted => .exhausted

/-- The end of an evaluation with its result and all spans changed. -/
def mapEnding {α β : Type} (change : α → β) :
    EStateM.Result Halt Machine α → EStateM.Result Halt Machine β
  | .ok result machine => .ok (change result) (machine.mapSpans f)
  | .error halt machine => .error (halt.mapSpans f) (machine.mapSpans f)

/-- Whether the second evaluation does what the first one does, but for spans. -/
def Mirrors {α β : Type} (change : α → β) (run : Eval α) (mirrored : Eval β) : Prop :=
  ∀ machine : Machine, mirrored (machine.mapSpans f) = mapEnding f change (run machine)

namespace Mirrors

variable {f} {α β γ δ : Type} {change : α → β} {change' : γ → δ}

/-- One evaluation after another. -/
theorem bind {run : Eval α} {mirrored : Eval β} {next : α → Eval γ} {next' : β → Eval δ}
    (h : Mirrors f change run mirrored)
    (hnext : ∀ result, Mirrors f change' (next result) (next' (change result))) :
    Mirrors f change' (run >>= next) (mirrored >>= next') := by
  intro machine
  change EStateM.bind mirrored next' _ = mapEnding f change' (EStateM.bind run next machine)
  unfold EStateM.bind
  rw [h machine]
  cases run machine with
  | ok result machine => exact hnext result machine
  | error halt machine => rfl

/-- A result is mirrored by itself with its spans changed. -/
theorem pure (result : α) : Mirrors f change (pure result) (pure (change result)) := fun _ => rfl

/-- A fault has no spans. -/
theorem fail (fault : Fault) : Mirrors f change (Eval.fail fault) (Eval.fail fault) := fun _ => rfl

/-- An operator that gives a value or a fault. -/
theorem ofExcept (result : Except Fault Value) :
    Mirrors f (Value.mapSpans f) (Eval.ofExcept result) (Eval.ofExcept (mapResult f result)) := by
  cases result with
  | ok value => exact .pure value
  | error fault => exact .fail fault

/-- A change of the heap that does not see spans. -/
theorem onHeap {run : Heap → α × Heap} {run' : Heap → β × Heap}
    (h : ∀ heap : Heap, run' (heap.mapSpans f) = (change (run heap).1, (run heap).2.mapSpans f)) :
    Mirrors f change (Eval.onHeap run) (Eval.onHeap run') := by
  intro machine
  have hrun {γ : Type} (run : Heap → γ × Heap) (machine : Machine) : Eval.onHeap run machine =
      .ok (run machine.heap).1 { machine with heap := (run machine.heap).2 } := rfl
  rw [hrun, hrun, Machine.mapSpans, h]
  rfl

/-- A change of the console that has no spans in it. -/
theorem onConsole (run : Console → α × Console) :
    Mirrors f id (Eval.onConsole run) (Eval.onConsole run) := fun _ => rfl

/-- An identity has no spans. -/
theorem newObject : Mirrors f id (Eval.onHeap Heap.newObject) (Eval.onHeap Heap.newObject) :=
  onHeap fun _ => rfl

/-- A new array has the next identity on both sides. -/
theorem newArray (elements : List Value) : Mirrors f (Value.mapSpans f) (Eval.newArray elements)
    (Eval.newArray (elements.map (Value.mapSpans f))) := by
  rw [← mapSpansOfValues_eq_map]
  exact newObject.bind fun id => .pure (Value.array id elements)

/-- A hash is made of entries with their spans changed. -/
theorem newHash (entries : List Entry) : Mirrors f (Value.mapSpans f) (Eval.newHash entries)
    (Eval.newHash (mapSpansOfEntries f entries)) :=
  newObject.bind fun id => .pure (Value.hash id entries)

/-- A new function has its literal, with the spans of that changed. -/
theorem newFunction (literal : FunctionLiteral) (frame : FrameId) :
    Mirrors f (Value.mapSpans f) (Eval.newFunction literal frame)
      (Eval.newFunction (literal.mapSpans f) frame) :=
  newObject.bind fun id => .pure (Value.function id literal frame)

end Mirrors

/-! ## Native functions -/

section

variable {f}

/-- The number of arguments is the same. -/
theorem mirrors_checkCount (arguments : List Value) (wanted : Nat) :
    Mirrors f id (checkCount arguments wanted)
      (checkCount (arguments.map (Value.mapSpans f)) wanted) := by
  unfold checkCount
  rw [List.length_map]
  split
  · exact .pure ()
  · exact .fail _

/-- The only argument, or one fault. -/
theorem mirrors_soleArgument (arguments : List Value) :
    Mirrors f (Value.mapSpans f) (soleArgument arguments)
      (soleArgument (arguments.map (Value.mapSpans f))) := by
  unfold soleArgument
  rw [headD_mapSpans]
  exact (mirrors_checkCount arguments 1).bind fun _ => .pure _

/-- The elements of an array are changed one by one. -/
theorem mirrors_elementsOf (operation : Intrinsic) (value : Value) :
    Mirrors f (List.map (Value.mapSpans f)) (elementsOf operation value)
      (elementsOf operation (value.mapSpans f)) := by
  cases value with
  | array id elements =>
    rw [Value.mapSpans, mapSpansOfValues_eq_map]
    exact .pure elements
  | _ => exact .fail _

/-- Lengths are the same. -/
theorem mirrors_lengthOf (value : Value) :
    Mirrors f (Value.mapSpans f) (lengthOf value) (lengthOf (value.mapSpans f)) := by
  cases value with
  | string s => exact .pure _
  | array id elements =>
    have hlength : (mapSpansOfValues f elements).length = elements.length := by
      rw [mapSpansOfValues_eq_map, List.length_map]
    rw [Value.mapSpans, lengthOf, lengthOf, hlength]
    exact .pure _
  | _ => exact .fail _

/-- A file has no spans. -/
theorem mirrors_readFile (files : Files) (path : String) :
    Mirrors f (Value.mapSpans f) (readFile files path) (readFile files path) := by
  have hasked : Mirrors f id
      (modify fun machine => { machine with filesAsked := path :: machine.filesAsked })
      (modify fun machine => { machine with filesAsked := path :: machine.filesAsked }) :=
    fun _ => rfl
  apply hasked.bind
  intro _
  split
  · exact .pure _
  · exact .fail _

/-- What is printed is the same. -/
theorem writeValues_mapSpans (values : List Value) :
    writeValues (values.map (Value.mapSpans f)) = writeValues values := by
  funext console
  have htexts : (values.map (Value.mapSpans f)).map Value.inspect = values.map Value.inspect := by
    simp [Function.comp_def, Value.inspect_mapSpans]
  unfold writeValues
  rw [htexts]

/-- By cases on the eight functions. -/
theorem mirrors_intrinsic (files : Files) (operation : Intrinsic) (arguments : List Value) :
    Mirrors f (Value.mapSpans f) (operation.run files arguments)
      (operation.run files (arguments.map (Value.mapSpans f))) := by
  have hsole : Mirrors f (Value.mapSpans f) (soleArgument arguments) _ :=
    mirrors_soleArgument arguments
  -- spans are inside of functions, which native functions do not look into: all of them go on with
  -- types, texts and elements
  cases operation with
  | len => exact hsole.bind mirrors_lengthOf
  | first =>
    apply hsole.bind
    intro value
    apply (mirrors_elementsOf .first value).bind
    intro elements
    have hhead : ((elements.map (Value.mapSpans f)).head?).getD .null =
        ((elements.head?).getD .null).mapSpans f := by
      cases elements <;> rfl
    rw [hhead]
    exact .pure _
  | last =>
    apply hsole.bind
    intro value
    apply (mirrors_elementsOf .last value).bind
    intro elements
    have hlast : ((elements.map (Value.mapSpans f)).getLast?).getD .null =
        ((elements.getLast?).getD .null).mapSpans f := by
      rw [List.getLast?_map]
      cases elements.getLast? <;> rfl
    rw [hlast]
    exact .pure _
  | rest =>
    apply hsole.bind
    intro value
    apply (mirrors_elementsOf .rest value).bind
    intro elements
    cases elements with
    | nil => exact .pure Value.null
    | cons _ others => exact .newArray others
  | push =>
    apply (mirrors_checkCount arguments 2).bind
    intro _
    have hlast : (arguments.map (Value.mapSpans f)).getLastD .null =
        (arguments.getLastD .null).mapSpans f := by
      rw [List.getLastD_eq_getLast?, List.getLastD_eq_getLast?, List.getLast?_map]
      cases arguments.getLast? <;> rfl
    rw [headD_mapSpans, hlast]
    apply (mirrors_elementsOf .push _).bind
    intro elements
    have helements : elements.map (Value.mapSpans f) ++ [(arguments.getLastD .null).mapSpans f] =
        (elements ++ [arguments.getLastD .null]).map (Value.mapSpans f) := by simp
    rw [helements]
    exact .newArray _
  | puts =>
    rw [Intrinsic.run, Intrinsic.run, writeValues_mapSpans]
    apply (Mirrors.onConsole _).bind
    rintro (fault | _)
    · exact .fail _
    · exact .pure Value.null
  | readline =>
    apply (mirrors_checkCount arguments 0).bind
    intro _
    apply (Mirrors.onConsole _).bind
    rintro (fault | line)
    · exact .fail _
    · exact .pure (Value.string (dropLineEnd line))
  | readfile =>
    apply hsole.bind
    intro value
    cases value with
    | string path => exact mirrors_readFile files path
    | _ => exact .fail _

/-! ## Expressions and statements -/

/-- A name is looked up in the table and then in the scopes, neither of which sees spans. -/
theorem mirrors_evalName (setup : Setup) (frame : FrameId) (name : String) :
    Mirrors f (Value.mapSpans f) (evalName setup frame name) (evalName setup frame name) := by
  unfold evalName
  cases setup.builtins.find? name with
  | some builtin => exact .pure (Value.builtin builtin)
  | none =>
    intro machine
    have hlookup : (machine.mapSpans f).heap.lookup frame name =
        (machine.heap.lookup frame name).map (Value.mapSpans f) := Heap.lookup_mapSpans f _ _ _
    dsimp only [Bind.bind, EStateM.bind, get, getThe, MonadStateOf.get, EStateM.get]
    rw [hlookup]
    cases machine.heap.lookup frame name <;> rfl

/-- Whether calls do the same but for spans. -/
def MirrorsCalls (f : Span → Span) (invoke : Invoke) : Prop :=
  ∀ roots literal frame arguments, Mirrors f (Value.mapSpans f)
    (invoke roots literal frame arguments)
    (invoke (roots.mapSpans f) (literal.mapSpans f) frame (arguments.map (Value.mapSpans f)))

variable {setup : Setup} {invoke : Invoke}

/-- A function is called with its literal changed, a native one as it is. -/
theorem mirrors_applyValue (hcalls : MirrorsCalls f invoke) (roots : Roots) (callee : Value)
    (arguments : List Value) : Mirrors f (Value.mapSpans f)
      (applyValue setup invoke roots callee arguments)
      (applyValue setup invoke (roots.mapSpans f) (callee.mapSpans f)
        (arguments.map (Value.mapSpans f))) := by
  cases callee with
  | function id literal frame => exact hcalls (roots.hold (.function id literal frame)) _ _ _
  | builtin builtin => exact mirrors_intrinsic setup.files builtin.operation arguments
  | _ => exact .fail _

variable (hcalls : MirrorsCalls f invoke)

include hcalls

-- the recursion as a whole uses what is assumed of calls, though not each of its parts does
set_option linter.unusedSectionVars false

mutual

/-- By recursion on the tree, as the evaluator itself. -/
theorem mirrors_evalExpression (frame : FrameId) (roots : Roots) (expression : Expression) :
    Mirrors f (Value.mapSpans f) (evalExpression setup invoke frame roots expression)
      (evalExpression setup invoke frame (roots.mapSpans f) (expression.mapSpans f)) := by
  match expression with
  | .identifier name => exact mirrors_evalName setup frame name.text
  | .integer _ value => exact .pure (Value.integer value)
  | .string token => exact .pure (Value.string token.literal)
  | .boolean _ value => exact .pure (Value.boolean value)
  | .unary _ operator right =>
    apply (mirrors_evalExpression frame roots right).bind
    intro right
    rw [applyPrefix_mapSpans]
    exact .ofExcept _
  | .binary _ left operator right =>
    apply (mirrors_evalExpression frame roots left).bind
    intro left
    apply (mirrors_evalExpression frame (roots.hold left) right).bind
    intro right
    rw [applyInfix_mapSpans]
    exact .ofExcept _
  | .conditional _ condition consequence alternative =>
    apply (mirrors_evalExpression frame roots condition).bind
    intro condition
    have hnull (value : Option Value) : (value.map (Value.mapSpans f)).getD .null =
        (value.getD .null).mapSpans f := by
      cases value <;> rfl
    rw [Value.truthy_mapSpans]
    split
    · apply (mirrors_evalBlock frame (roots.hold condition) consequence).bind
      intro value
      rw [hnull]
      exact .pure _
    · apply (mirrors_evalAlternative frame (roots.hold condition) alternative).bind
      intro value
      rw [hnull]
      exact .pure _
  | .function literal => exact .newFunction literal frame
  | .call _ callee arguments =>
    apply (mirrors_evalExpression frame roots callee).bind
    intro callee
    apply (mirrors_evalExpressions frame (roots.hold callee) arguments).bind
    intro arguments
    exact mirrors_applyValue hcalls roots callee arguments
  | .array _ elements =>
    apply (mirrors_evalExpressions frame roots elements).bind
    exact .newArray
  | .index _ left position =>
    apply (mirrors_evalExpression frame roots left).bind
    intro left
    apply (mirrors_evalExpression frame (roots.hold left) position).bind
    intro position
    rw [applyIndex_mapSpans]
    exact .ofExcept _
  | .hash _ pairs =>
    apply (mirrors_evalPairs frame roots [] pairs).bind
    exact .newHash

/-- Expressions in a row are mirrored, too. -/
theorem mirrors_evalExpressions (frame : FrameId) (roots : Roots) (expressions : List Expression) :
    Mirrors f (List.map (Value.mapSpans f)) (evalExpressions setup invoke frame roots expressions)
      (evalExpressions setup invoke frame (roots.mapSpans f)
        (mapSpansOfExpressions f expressions)) := by
  match expressions with
  | [] => exact .pure []
  | expression :: rest =>
    apply (mirrors_evalExpression frame roots expression).bind
    intro value
    apply (mirrors_evalExpressions frame (roots.hold value) rest).bind
    intro values
    exact .pure (value :: values)

/-- Pairs are inserted one by one, and keys have no spans. -/
theorem mirrors_evalPairs (frame : FrameId) (roots : Roots) (entries : List Entry)
    (pairs : List Pair) :
    Mirrors f (mapSpansOfEntries f) (evalPairs setup invoke frame roots entries pairs)
      (evalPairs setup invoke frame (roots.mapSpans f) (mapSpansOfEntries f entries)
        (mapSpansOfPairs f pairs)) := by
  match pairs with
  | [] => exact .pure entries
  | pair :: rest =>
    have hpair := mirrors_evalPair frame (roots.holdAll (Entry.parts entries)) pair
    rw [Roots.mapSpans_holdAll, ← Entry.parts_mapSpans] at hpair
    apply hpair.bind
    intro entry
    rw [insertEntry_mapSpans]
    exact mirrors_evalPairs frame roots (insertEntry entry entries) rest

/-- A pair of a hash literal is mirrored. -/
theorem mirrors_evalPair (frame : FrameId) (roots : Roots) (pair : Pair) :
    Mirrors f (Entry.mapSpans f) (evalPair setup invoke frame roots pair)
      (evalPair setup invoke frame (roots.mapSpans f) (pair.mapSpans f)) := by
  match pair with
  | ⟨name, value⟩ =>
    apply (mirrors_evalExpression frame roots name).bind
    intro name
    apply (mirrors_evalExpression frame (roots.hold name) value).bind
    intro value
    rw [Value.hashKey_mapSpans]
    cases name.hashKey setup.digest with
    | ok key => exact .pure (Entry.mk key name value)
    | error fault => exact .fail fault

/-- What is behind `else` is mirrored, if there is anything. -/
theorem mirrors_evalAlternative (frame : FrameId) (roots : Roots) (alternative : Option Block) :
    Mirrors f (Option.map (Value.mapSpans f))
      (evalAlternative setup invoke frame roots alternative)
      (evalAlternative setup invoke frame (roots.mapSpans f)
        (mapSpansOfAlternative f alternative)) := by
  match alternative with
  | none => exact .pure none
  | some block => exact mirrors_evalBlock frame roots block

/-- A block is mirrored. -/
theorem mirrors_evalBlock (frame : FrameId) (roots : Roots) (block : Block) :
    Mirrors f (Option.map (Value.mapSpans f)) (evalBlock setup invoke frame roots block)
      (evalBlock setup invoke frame (roots.mapSpans f) (block.mapSpans f)) := by
  match block with
  | ⟨_, statements, _⟩ => exact mirrors_evalStatements frame roots none statements

/-- The value of a list of statements is that of the last one that has any. -/
theorem mirrors_evalStatements (frame : FrameId) (roots : Roots) (last : Option Value)
    (statements : List Statement) :
    Mirrors f (Option.map (Value.mapSpans f))
      (evalStatements setup invoke frame roots last statements)
      (evalStatements setup invoke frame (roots.mapSpans f) (last.map (Value.mapSpans f))
        (mapSpansOfStatements f statements)) := by
  match statements with
  | [] => exact .pure last
  | statement :: rest =>
    have hroots : (last.map (Value.mapSpans f)).elim (roots.mapSpans f) (roots.mapSpans f).hold =
        (last.elim roots roots.hold).mapSpans f := by
      cases last <;> rfl
    rw [mapSpansOfStatements, evalStatements, evalStatements, hroots]
    apply (mirrors_evalStatement frame _ statement).bind
    intro value
    exact mirrors_evalStatements frame roots value rest

/-- A statement is mirrored. -/
theorem mirrors_evalStatement (frame : FrameId) (roots : Roots) (statement : Statement) :
    Mirrors f (Option.map (Value.mapSpans f)) (evalStatement setup invoke frame roots statement)
      (evalStatement setup invoke frame (roots.mapSpans f) (statement.mapSpans f)) := by
  match statement with
  | .binding _ name value _ =>
    apply (mirrors_evalExpression frame roots value).bind
    intro value
    apply Mirrors.onHeap
    intro heap
    exact congrArg (Prod.mk none) (Heap.bind_mapSpans f frame name.text value heap)
  | .returning _ value _ =>
    apply (mirrors_evalExpression frame roots value).bind
    exact fun _ _ => rfl
  | .expression _ value _ =>
    apply (mirrors_evalExpression frame roots value).bind
    exact fun value => .pure (some value)

end

omit hcalls

/-! ## Calls -/

/-- A `return` ends where the call is. -/
theorem mirrors_catchReturn {body body' : Eval (Option Value)}
    (h : Mirrors f (Option.map (Value.mapSpans f)) body body') :
    Mirrors f (Value.mapSpans f) (catchReturn body) (catchReturn body') := by
  intro machine
  unfold catchReturn
  rw [h machine]
  cases body machine with
  | ok value machine => cases value <;> rfl
  | error halt machine => cases halt <;> rfl

/-- By induction on the depth: a body is evaluated with the calls that are left. -/
theorem mirrorsCalls_invokeWithin (hblind : setup.BlindTo f) (depth : Nat) :
    MirrorsCalls f (invokeWithin setup depth) := by
  induction depth with
  | zero => exact fun _ _ _ _ _ => rfl
  | succ depth ih =>
    intro roots literal frame arguments
    obtain ⟨token, parameters, body⟩ := literal
    have hcall : Mirrors f id
        (Eval.onHeap (Heap.allocate setup.due (roots.holdAll arguments) (some frame)))
        (Eval.onHeap (Heap.allocate setup.due ((roots.mapSpans f).holdAll
          (arguments.map (Value.mapSpans f))) (some frame))) := by
      apply Mirrors.onHeap
      intro heap
      rw [← Roots.mapSpans_holdAll]
      exact Heap.allocate_mapSpans f hblind _ _ heap
    apply hcall.bind
    intro call
    have hbind : Mirrors f id
        (Eval.onHeap fun heap => ((), heap.bindAll call parameters arguments))
        (Eval.onHeap fun heap => ((), heap.bindAll call (parameters.map (Name.mapSpan f))
          (arguments.map (Value.mapSpans f)))) := by
      apply Mirrors.onHeap
      intro heap
      exact congrArg (Prod.mk ()) (Heap.bindAll_mapSpans f call _ arguments heap)
    apply hbind.bind
    intro _
    exact mirrors_catchReturn (mirrors_evalBlock ih call (roots.holdFrame call) body)

/-- A statement does the same with other spans, to a machine with other spans. -/
theorem mirrors_execute (hblind : setup.BlindTo f) (frame : FrameId) (roots : Roots)
    (statement : Statement) :
    Mirrors f (Option.map (Value.mapSpans f)) (execute setup frame roots statement)
      (execute setup frame (roots.mapSpans f) (statement.mapSpans f)) :=
  mirrors_evalStatement (mirrorsCalls_invokeWithin hblind setup.callDepth) frame roots statement

end

end Scriptlet
