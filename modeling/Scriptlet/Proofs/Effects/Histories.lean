import Scriptlet.Proofs.Effects.Evolves

set_option autoImplicit false

/-!
# Evaluations are histories

Component: the evaluator, with native functions, and the programs that it runs.  Specification:
section 4.3, with every rule of its table, section 4.4 on the native functions, and section 5 on the
order of evaluation.

What an evaluation does to the heap, it does in moves: that is shown here for the native functions,
for expressions and statements by induction on the tree, for calls by induction on how deep they are
nested, and for programs.  So what moves keep, every run keeps, however it ends.

Each rule is followed in its order, since what is held grows with it: the left operand is held while
the right one is evaluated, the callee while its arguments are, and the entries so far while the
next pair is.  This is what lets a collection happen in any call.
-/

namespace Scriptlet

variable {ready : Heap → Prop}

/-! ## Names -/

namespace Heap

variable {heap : Heap}

/-- What is looked up is bound in a frame. -/
theorem exists_binding_of_lookupWithin {name : String} {steps : Nat} {id : FrameId} {value : Value}
    (h : heap.lookupWithin name steps id = some value) :
    ∃ owner frame, heap.frame? owner = some frame ∧ (name, value) ∈ frame.bindings := by
  induction steps generalizing id with
  | zero => cases h
  | succ steps ih =>
    simp only [lookupWithin] at h
    cases hframe : heap.frame? id with
    | none => simp [hframe] at h
    | some frame =>
      simp only [hframe] at h
      cases hlookup : frame.bindings.lookup name with
      | some found =>
        simp only [hlookup, Option.some.injEq] at h
        subst h
        exact ⟨id, frame, hframe, Bindings.mem_of_lookup hlookup⟩
      | none =>
        simp only [hlookup] at h
        cases houter : frame.outer with
        | none => simp [houter] at h
        | some outer =>
          simp only [houter] at h
          exact ih h

/-- The value of a name is carried. -/
theorem carries_of_lookup {name : String} {id : FrameId} {value : Value}
    (h : heap.lookup id name = some value) (roots : Roots) : heap.Carries roots value := by
  obtain ⟨owner, frame, hframe, hmem⟩ := exists_binding_of_lookupWithin h
  exact .bound hframe hmem

end Heap

/-! ## Native functions -/

section

variable {roots start : Roots} {machine : Machine}

/-- Counting arguments is no move. -/
theorem evolves_checkCount (arguments : List Value) (wanted : Nat) (within : roots.Within start) :
    (checkCount arguments wanted).Evolves ready (fun _ => []) start roots machine :=
  .ite (.pure_held within) (.fail _ within)

/-- The only argument is one of those held. -/
theorem evolves_soleArgument {arguments : List Value} (hstart : machine.heap.WellFormed start)
    (inHand : ∀ value ∈ arguments, value ∈ start.values) :
    (soleArgument arguments).Evolves ready (fun value => [value]) start start machine := by
  refine .bind hstart (evolves_checkCount arguments 1 (.refl start)) (.refl start)
    fun _ _ _ _ => .value (.refl start) ?_
  cases arguments with
  | nil => exact .of_object?_none rfl
  | cons argument rest => exact .of_mem (inHand _ List.mem_cons_self)

/-- Elements of what is held are offered. -/
theorem evolves_elementsOf (operation : Intrinsic) {value : Value} (held : value ∈ start.values) :
    (elementsOf operation value).Evolves ready (fun elements => elements) start start machine := by
  cases value with
  | array object elements =>
    exact .pure (.refl start) fun element hmem => .of_part held (.inl (.of_mem hmem))
  | null | integer | boolean | string | hash | function | builtin => exact .fail _ (.refl start)

/-- A length is a number. -/
theorem evolves_lengthOf (value : Value) (within : roots.Within start) :
    (lengthOf value).Evolves ready (fun value => [value]) start roots machine := by
  cases value with
  | string | array => exact .value within (.of_object?_none rfl)
  | null | integer | boolean | hash | function | builtin => exact .fail _ within

/-- What a file contains is a text. -/
theorem evolves_readFile (files : Files) (path : String) (within : roots.Within start) :
    (readFile files path).Evolves ready (fun value => [value]) start roots machine := by
  unfold readFile
  refine .modify rfl ?_
  split
  · exact .value within (.of_object?_none rfl)
  · exact .fail _ within

/-- The elements of the only argument are held in what follows. -/
theorem evolves_elements (operation : Intrinsic) {arguments : List Value}
    {next : List Value → Eval Value} (hstart : machine.heap.WellFormed start)
    (inHand : ∀ value ∈ arguments, value ∈ start.values) (within : roots.Within start)
    (hnext : ∀ elements middle, (next elements).Evolves ready (fun value => [value])
      (start.holdAll elements) roots middle) :
    (do next (← elementsOf operation (← soleArgument arguments))).Evolves ready
      (fun value => [value]) start roots machine := by
  refine .bind hstart (evolves_soleArgument hstart inHand) within fun value _ _ hvalue => ?_
  exact .bind hvalue ((evolves_elementsOf operation List.mem_cons_self).mono
    (start.within_hold value)) within fun elements middle _ _ => hnext elements middle

/-- Two arguments are a first and a second. -/
theorem exists_pair_of_checkCount {arguments : List Value} {middle : Machine}
    (h : checkCount arguments 2 machine = .ok () middle) :
    ∃ left right, arguments = [left, right] := by
  unfold checkCount at h
  split at h
  case isTrue hlength => exact List.length_eq_two.mp hlength
  case isFalse => cases h

/-- Native functions make nothing but moves. -/
theorem evolves_intrinsic (files : Files) (operation : Intrinsic) {arguments : List Value}
    (hstart : machine.heap.WellFormed start) (inHand : ∀ value ∈ arguments, value ∈ start.values)
    (within : roots.Within start) :
    (operation.run files arguments).Evolves ready (fun value => [value]) start roots machine := by
  have hsole : (soleArgument arguments).Evolves ready (fun value => [value]) start start machine :=
    evolves_soleArgument hstart inHand
  have hwithin : ∀ values, roots.Within (start.holdAll values) := fun values =>
    within.trans (start.within_holdAll values)
  cases operation with
  | len =>
    exact .bind hstart hsole within fun value _ _ _ => evolves_lengthOf value (hwithin [value])
  | first =>
    refine evolves_elements .first hstart inHand within fun elements _ => .value (hwithin _) ?_
    cases elements with
    | nil => exact .of_object?_none rfl
    | cons element rest => exact .of_mem List.mem_cons_self
  | last =>
    refine evolves_elements .last hstart inHand within fun elements _ => .value (hwithin _) ?_
    cases hlast : elements.getLast? with
    | none => exact .of_object?_none rfl
    | some element =>
      exact .of_mem (List.mem_append_left _ (List.mem_of_getLast? hlast))
  | rest =>
    refine evolves_elements .rest hstart inHand within fun elements _ => ?_
    cases elements with
    | nil => exact .value (hwithin []) (.of_object?_none rfl)
    | cons element others =>
      exact .newArray (hwithin (element :: others)) fun other hother =>
        List.mem_append_left _ (List.mem_cons_of_mem _ hother)
  | push =>
    refine .bind hstart (evolves_checkCount arguments 2 (.refl start)) within
      fun _ _ hchecked hmiddle => ?_
    obtain ⟨left, right, rfl⟩ := exists_pair_of_checkCount hchecked
    obtain ⟨hleft, hrest⟩ := List.forall_mem_cons.mp inHand
    refine .bind hmiddle (evolves_elementsOf .push hleft) within fun elements _ _ _ => ?_
    refine .newArray (hwithin elements) fun element hmem => ?_
    rcases List.mem_append.mp hmem with hmem | hmem
    · exact List.mem_append_left _ hmem
    · exact List.mem_append_right _ (hrest element hmem)
  | puts =>
    refine .bind hstart (.onConsole (.refl start)) within fun result _ _ _ => ?_
    cases result with
    | ok => exact .value (hwithin []) (.of_object?_none rfl)
    | error fault => exact .fail _ (hwithin [])
  | readline =>
    refine .bind hstart (evolves_checkCount arguments 0 (.refl start)) within
      fun _ _ _ hchecked => ?_
    refine .bind hchecked (.onConsole (.refl _)) (hwithin []) fun result _ _ _ => ?_
    cases result with
    | ok => exact .value (hwithin []) (.of_object?_none rfl)
    | error fault => exact .fail _ (hwithin [])
  | readfile =>
    refine .bind hstart hsole within fun value _ _ _ => ?_
    cases value with
    | string path => exact evolves_readFile files path (hwithin _)
    | null | integer | boolean | array | hash | function | builtin => exact .fail _ (hwithin _)

end

/-! ## Expressions and statements -/

/-- Whether calls of functions are histories, from when the arguments and the frame that the
function was made in are held. -/
def Invoke.Evolves (ready : Heap → Prop) (invoke : Invoke) : Prop :=
  ∀ (roots : Roots) (literal : FunctionLiteral) (id : FrameId) (arguments : List Value)
    (machine : Machine), machine.heap.WellFormed ((roots.holdAll arguments).holdFrame id) →
    (invoke roots literal id arguments).Evolves ready (fun value => [value])
      ((roots.holdAll arguments).holdFrame id) roots machine

section

variable {setup : Setup} {invoke : Invoke} {frame : FrameId}

/-- What a name stands for is there: a native function, or what is bound. -/
theorem evolves_evalName (frame : FrameId) (name : String) (roots : Roots) (machine : Machine) :
    (evalName setup frame name).Evolves ready (fun value => [value]) roots roots machine := by
  unfold evalName
  split
  · exact .value (.refl roots) (.of_object?_none rfl)
  · refine .get ?_
    split
    next value hlookup =>
      exact .value (.refl roots) (.of_carries (Heap.carries_of_lookup hlookup roots))
    · exact .fail _ (.refl roots)

/-- A call of a function is a history if calls are, and one of a native function is. -/
theorem evolves_applyValue (calls : invoke.Evolves ready) {roots : Roots} {callee : Value}
    {arguments : List Value} {machine : Machine}
    (h : machine.heap.WellFormed ((roots.hold callee).holdAll arguments)) :
    (applyValue setup invoke roots callee arguments).Evolves ready (fun value => [value])
      ((roots.hold callee).holdAll arguments) roots machine := by
  have hwithin : roots.Within ((roots.hold callee).holdAll arguments) :=
    (roots.within_hold callee).trans (Roots.within_holdAll _ arguments)
  cases callee with
  | function object literal id =>
    have hcallee : Value.function object literal id ∈
        ((roots.hold (.function object literal id)).holdAll arguments).values :=
      List.mem_append_right _ List.mem_cons_self
    have halive := h.leads_alive _ id (.held hcallee) ⟨_, .self _, rfl⟩
    refine .of_start (.move (.takeFrame halive)) ?_
    exact (calls _ literal id arguments machine (h.holdFrame halive)).mono (roots.within_hold _)
  | builtin builtin =>
    exact evolves_intrinsic setup.files builtin.operation h
      (fun value hmem => List.mem_append_left _ hmem) hwithin
  | null | integer | boolean | string | array | hash => exact .fail _ hwithin

mutual

/-- Expressions, in the order in which their parts are evaluated. -/
theorem evolves_expression (calls : invoke.Evolves ready) : (expression : Expression) →
    ∀ {roots : Roots} {machine : Machine}, machine.heap.WellFormed roots → frame ∈ roots.frames →
      (evalExpression setup invoke frame roots expression).Evolves ready (fun value => [value])
        roots roots machine
  | .identifier name, roots, machine, _, _ => by
    simp only [evalExpression]
    exact evolves_evalName frame name.text roots machine
  | .integer _ value, _, _, _, _ | .string token, _, _, _, _ | .boolean _ value, _, _, _, _ => by
    simp only [evalExpression]
    exact .value (.refl _) (.of_object?_none rfl)
  | .unary _ operator right, roots, _, h, held => by
    simp only [evalExpression]
    refine .bind h (evolves_expression calls right h held) (.refl roots) fun value middle _ _ => ?_
    refine .ofExcept (roots.within_hold value) fun result hresult other hother => ?_
    rw [List.mem_singleton.mp hother]
    exact .of_object?_none (object?_applyPrefix hresult)
  | .binary _ left operator right, roots, _, h, held => by
    simp only [evalExpression]
    refine .bind h (evolves_expression calls left h held) (.refl roots)
      fun value middle _ hvalue => ?_
    refine .bind hvalue (evolves_expression calls right hvalue held) (roots.within_hold value)
      fun value' last _ _ => ?_
    refine .ofExcept ((roots.within_hold value).trans (Roots.within_hold _ value'))
      fun result hresult other hother => ?_
    rw [List.mem_singleton.mp hother]
    exact .of_object?_none (object?_applyInfix hresult)
  | .conditional _ condition consequence alternative, roots, _, h, held => by
    simp only [evalExpression]
    refine .bind h (evolves_expression calls condition h held) (.refl roots)
      fun value middle _ hvalue => ?_
    -- what a branch is worth is held at its end, and null if it is worth nothing
    have hbranch : ∀ branch : Eval (Option Value),
        branch.Evolves ready Option.toList (roots.hold value) (roots.hold value) middle →
        (do return (← branch).getD .null).Evolves ready (fun value => [value]) (roots.hold value)
          roots middle := fun branch hevolves => by
      refine .bind hvalue hevolves (roots.within_hold value) fun result last _ _ => .value ?_ ?_
      · exact (roots.within_hold value).trans (Roots.within_holdAll _ _)
      · cases result with
        | none => exact .of_object?_none rfl
        | some result => exact .of_mem List.mem_cons_self
    exact .ite (hbranch _ (evolves_block calls consequence hvalue held))
      (hbranch _ (evolves_alternative calls alternative hvalue held))
  | .function literal, _, _, _, held => by
    simp only [evalExpression]
    exact .newFunction literal (.refl _) held
  | .call _ callee arguments, roots, _, h, held => by
    simp only [evalExpression]
    refine .bind h (evolves_expression calls callee h held) (.refl roots)
      fun value middle _ hvalue => ?_
    exact .bind hvalue (evolves_expressions calls arguments hvalue held) (roots.within_hold value)
      fun values last _ hvalues => evolves_applyValue calls hvalues
  | .array _ elements, roots, _, h, held => by
    simp only [evalExpression]
    exact .bind h (evolves_expressions calls elements h held) (.refl roots) fun values _ _ _ =>
      .newArray (roots.within_holdAll values) fun element hmem => List.mem_append_left _ hmem
  | .index _ left position, roots, _, h, held => by
    simp only [evalExpression]
    refine .bind h (evolves_expression calls left h held) (.refl roots)
      fun value middle _ hvalue => ?_
    refine .bind hvalue (evolves_expression calls position hvalue held) (roots.within_hold value)
      fun value' last _ _ => ?_
    refine .ofExcept ((roots.within_hold value).trans (Roots.within_hold _ value'))
      fun result hresult other hother => ?_
    rw [List.mem_singleton.mp hother]
    exact .of_part (List.mem_cons_of_mem _ List.mem_cons_self) (part_of_applyIndex hresult)
  | .hash _ pairs, roots, _, h, held => by
    simp only [evalExpression]
    exact .bind h (evolves_pairs calls pairs [] h held) (.refl roots) fun entries _ _ _ =>
      .newHash (roots.within_holdAll _) fun part hmem => List.mem_append_left _ hmem

/-- Expressions in a row, of which those before are held. -/
theorem evolves_expressions (calls : invoke.Evolves ready) : (expressions : List Expression) →
    ∀ {roots : Roots} {machine : Machine}, machine.heap.WellFormed roots → frame ∈ roots.frames →
      (evalExpressions setup invoke frame roots expressions).Evolves ready (fun values => values)
        roots roots machine
  | [], roots, _, _, _ => by
    simp only [evalExpressions]
    exact .pure_held (.refl roots)
  | expression :: rest, roots, _, h, held => by
    simp only [evalExpressions]
    refine .bind h (evolves_expression calls expression h held) (.refl roots)
      fun value middle _ hvalue => ?_
    refine .bind hvalue (evolves_expressions calls rest hvalue held) (roots.within_hold value)
      fun values last _ _ => .pure_held ⟨fun _ hid => hid, fun other hother => ?_⟩
    rcases List.mem_cons.mp hother with rfl | hother
    · exact List.mem_append_right _ List.mem_cons_self
    · exact ((roots.within_hold value).holdAll values).values other hother

/-- What the entries so far are made of is held, and what the entries at the end are made of. -/
theorem evolves_pairs (calls : invoke.Evolves ready) : (pairs : List Pair) →
    ∀ (entries : List Entry) {roots : Roots} {machine : Machine},
      machine.heap.WellFormed (roots.holdAll (Entry.parts entries)) → frame ∈ roots.frames →
      (evalPairs setup invoke frame roots entries pairs).Evolves ready Entry.parts
        (roots.holdAll (Entry.parts entries)) roots machine
  | [], _, _, _, _, _ => by
    simp only [evalPairs]
    exact .pure_held (.refl _)
  | pair :: rest, entries, roots, _, h, held => by
    simp only [evalPairs]
    refine .bind h (evolves_pair calls pair h held) (roots.within_holdAll _)
      fun entry middle _ hentry => ?_
    have hinsert := within_insertEntry roots entry entries
    exact .of_start (.keep hinsert) (evolves_pairs calls rest _ (hentry.of_within hinsert) held)

/-- The name of a pair is held while its value is evaluated. -/
theorem evolves_pair (calls : invoke.Evolves ready) : (pair : Pair) →
    ∀ {roots : Roots} {machine : Machine}, machine.heap.WellFormed roots → frame ∈ roots.frames →
      (evalPair setup invoke frame roots pair).Evolves ready (fun entry => Entry.parts [entry])
        roots roots machine
  | ⟨key, value⟩, roots, _, h, held => by
    simp only [evalPair]
    refine .bind h (evolves_expression calls key h held) (.refl roots) fun name middle _ hname => ?_
    refine .bind hname (evolves_expression calls value hname held) (roots.within_hold name)
      fun result last _ hresult => ?_
    have hwithin : roots.Within ((roots.hold name).hold result) :=
      (roots.within_hold name).trans (Roots.within_hold _ result)
    have hkey : (Eval.ofExcept (name.hashKey setup.digest)).Evolves ready (fun _ => [])
        ((roots.hold name).hold result) ((roots.hold name).hold result) last :=
      .ofExcept (.refl _) fun _ _ other hother => by cases hother
    refine .bind hresult hkey hwithin
      fun hashKey final _ _ => .pure_held ⟨fun _ hid => hid, fun other hother => ?_⟩
    rcases List.mem_append.mp hother with hother | hother
    · rcases List.mem_cons.mp hother with rfl | hother
      · exact List.mem_cons_of_mem _ List.mem_cons_self
      · rw [List.mem_singleton.mp hother]
        exact List.mem_cons_self
    · exact hwithin.values other hother

/-- What is behind `else`, or null. -/
theorem evolves_alternative (calls : invoke.Evolves ready) : (alternative : Option Block) →
    ∀ {roots : Roots} {machine : Machine}, machine.heap.WellFormed roots → frame ∈ roots.frames →
      (evalAlternative setup invoke frame roots alternative).Evolves ready Option.toList roots roots
        machine
  | none, roots, _, _, _ => by
    simp only [evalAlternative]
    exact .pure_held (.refl roots)
  | some block, _, _, h, held => by
    simp only [evalAlternative]
    exact evolves_block calls block h held

/-- A block is its statements. -/
theorem evolves_block (calls : invoke.Evolves ready) : (block : Block) →
    ∀ {roots : Roots} {machine : Machine}, machine.heap.WellFormed roots → frame ∈ roots.frames →
      (evalBlock setup invoke frame roots block).Evolves ready Option.toList roots roots machine
  | ⟨_, statements, _⟩, roots, _, h, held => by
    simp only [evalBlock]
    exact evolves_statements calls statements none h held

/-- The value of the statement before is held, and the value of the last statement at the end. -/
theorem evolves_statements (calls : invoke.Evolves ready) : (statements : List Statement) →
    ∀ (last : Option Value) {roots : Roots} {machine : Machine},
      machine.heap.WellFormed (last.elim roots roots.hold) → frame ∈ roots.frames →
      (evalStatements setup invoke frame roots last statements).Evolves ready Option.toList
        (last.elim roots roots.hold) roots machine
  | [], last, _, _, _, _ => by
    simp only [evalStatements]
    refine .pure_held ?_
    cases last <;> exact .refl _
  | statement :: rest, last, roots, _, h, held => by
    simp only [evalStatements]
    have hheld : frame ∈ (last.elim roots roots.hold).frames := by
      cases last <;> exact held
    have hwithin : roots.Within (last.elim roots roots.hold) := by
      cases last with
      | none => exact .refl roots
      | some value => exact roots.within_hold value
    refine .bind h (evolves_statement calls statement h hheld) hwithin
      fun value middle _ hvalue => ?_
    have hlast := within_last roots last value
    exact .of_start (.keep hlast)
      (evolves_statements calls rest value (hvalue.of_within hlast) held)

/-- A binding binds what its expression was worth. -/
theorem evolves_statement (calls : invoke.Evolves ready) : (statement : Statement) →
    ∀ {roots : Roots} {machine : Machine}, machine.heap.WellFormed roots → frame ∈ roots.frames →
      (evalStatement setup invoke frame roots statement).Evolves ready Option.toList roots roots
        machine
  | .binding _ name value _, roots, _, h, held => by
    simp only [evalStatement]
    refine .bind h (evolves_expression calls value h held) (.refl roots) fun result middle _ _ => ?_
    have hheld : frame ∈ (roots.hold result).frames := held
    exact (Holding.Evolves.move (.bind name.text hheld List.mem_cons_self)).trans
      (.keep (roots.within_hold result))
  | .returning _ value _, roots, _, h, held => by
    simp only [evalStatement]
    exact .bind h (evolves_expression calls value h held) (.refl roots) fun result _ _ _ =>
      .keep (.refl (roots.hold result))
  | .expression _ value _, roots, _, h, held => by
    simp only [evalStatement]
    exact .bind h (evolves_expression calls value h held) (.refl roots) fun result _ _ _ =>
      .pure_held (.refl (roots.hold result))

end

end

/-! ## Calls and programs -/

/-- What a `return` carries is what the call is worth. -/
theorem evolves_catchReturn {body : Eval (Option Value)} {start roots : Roots} {machine : Machine}
    (h : body.Evolves ready Option.toList start roots machine) :
    (catchReturn body).Evolves ready (fun value => [value]) start roots machine := by
  unfold Eval.Evolves Eval.heldAfter Eval.ends at h ⊢
  rw [after_catchReturn]
  cases hresult : body machine with
  | ok value next =>
    rw [hresult] at h
    rw [catchReturn, hresult]
    cases value with
    | some value => exact h
    | none => exact h.trans (.move (.take (.of_object?_none rfl)))
  | error halt next =>
    rw [hresult] at h
    rw [catchReturn, hresult]
    cases halt <;> exact h

/-- Calls are histories, however deep they are nested. -/
theorem evolves_invokeWithin {setup : Setup} (heeds : setup.Heeds ready) (depth : Nat) :
    (invokeWithin setup depth).Evolves ready := by
  induction depth with
  | zero =>
    intro roots literal id arguments machine _
    exact .keep ((roots.within_holdAll arguments).trans
      ⟨fun _ => List.mem_cons_of_mem _, fun _ h => h⟩)
  | succ depth ih =>
    rintro roots literal id arguments ⟨heap, console, asked⟩ h
    let start := (roots.holdAll arguments).holdFrame id
    let call := heap.allocate setup.due (roots.holdAll arguments) (some id)
    let bound : Machine := ⟨call.2.bindAll call.1 literal.parameters arguments, console, asked⟩
    have hmade : Holding.Evolves ready ⟨heap, start⟩ ⟨call.2, start.holdFrame call.1⟩ :=
      .allocate heeds (some id) (by rintro _ ⟨⟩; exact List.mem_cons_self) rfl
    have hbound : Holding.Evolves ready ⟨call.2, start.holdFrame call.1⟩
        ⟨bound.heap, start.holdFrame call.1⟩ :=
      .bindAll literal.parameters List.mem_cons_self fun value hmem => List.mem_append_left _ hmem
    have hless : (roots.holdFrame call.1).Within (start.holdFrame call.1) := {
      frames := fun other hother => by
        rcases List.mem_cons.mp hother with rfl | hother
        · exact List.mem_cons_self
        · exact List.mem_cons_of_mem _ (List.mem_cons_of_mem _ hother)
      values := fun value hmem => List.mem_append_right _ hmem }
    have hready : Holding.Evolves ready ⟨heap, start⟩ ⟨bound.heap, roots.holdFrame call.1⟩ :=
      (hmade.trans hbound).trans (.keep hless)
    have hbody : (evalBlock setup (invokeWithin setup depth) call.1 (roots.holdFrame call.1)
        literal.body).Evolves ready Option.toList (roots.holdFrame call.1) (roots.holdFrame call.1)
          bound :=
      evolves_block ih literal.body (hready.wellFormed h) List.mem_cons_self
    have hwithin : roots.Within (roots.holdFrame call.1) :=
      ⟨fun _ => List.mem_cons_of_mem _, fun _ h => h⟩
    exact hready.trans ((evolves_catchReturn hbody).mono hwithin)

section

variable {setup : Setup} {roots : Roots} {frame : FrameId} {machine : Machine}

/-- So are calls that a host makes. -/
theorem evolves_applyCallable (heeds : setup.Heeds ready) {callee : Value} {arguments : List Value}
    (h : machine.heap.WellFormed ((roots.hold callee).holdAll arguments)) :
    (applyCallable setup roots callee arguments).Evolves ready (fun value => [value])
      ((roots.hold callee).holdAll arguments) roots machine :=
  evolves_applyValue (evolves_invokeWithin heeds setup.callDepth) h

/-- So are statements at the top of a program. -/
theorem evolves_execute (heeds : setup.Heeds ready) (statement : Statement)
    (h : machine.heap.WellFormed roots) (held : frame ∈ roots.frames) :
    (execute setup frame roots statement).Evolves ready Option.toList roots roots machine :=
  evolves_statement (evolves_invokeWithin heeds setup.callDepth) statement h held

/-- Statements that are run in a row are a history, at the end of which what they are worth is
held. -/
theorem evolves_runStatements (heeds : setup.Heeds ready) (statements : List Statement)
    (last : Option Value) (h : machine.heap.WellFormed (last.elim roots roots.hold))
    (held : frame ∈ roots.frames) :
    Holding.Evolves ready ⟨machine.heap, last.elim roots roots.hold⟩
      ⟨(runStatements setup frame roots last statements machine).2.heap,
        (runStatements setup frame roots last statements machine).1.heldIn roots⟩ := by
  induction statements generalizing machine last with
  | nil => cases last <;> exact .refl _
  | cons statement rest ih =>
    have hheld : frame ∈ (last.elim roots roots.hold).frames := by
      cases last <;> exact held
    have hfirst := evolves_execute heeds statement h hheld
    unfold Eval.Evolves Eval.heldAfter Eval.ends at hfirst
    rw [runStatements]
    cases hresult : execute setup frame (last.elim roots roots.hold) statement machine with
    | ok value next =>
      rw [Eval.after_of_ok hresult, hresult] at hfirst
      have hnext := hfirst.trans (.keep (within_last roots last value))
      exact hnext.trans (ih value (hnext.wellFormed h))
    | error halt next =>
      rw [Eval.after_of_error hresult, hresult] at hfirst
      cases halt with
      | returned value => exact hfirst.trans (.keep (within_last roots last (some value)))
      | fault fault => exact hfirst.trans (.keep (within_last roots last none))
      | exhausted => exact hfirst.trans (.keep (within_last roots last none))

/-- A program is its statements, and a collection behind them. -/
theorem evolves_runProgram (heeds : setup.Heeds ready) (program : Program)
    (h : machine.heap.WellFormed roots) (held : frame ∈ roots.frames) :
    Holding.Evolves ready ⟨machine.heap, roots⟩
      ⟨(runProgram setup frame roots program machine).2.heap,
        (runProgram setup frame roots program machine).1.heldIn roots⟩ :=
  (evolves_runStatements heeds program.statements none h held).trans (.move .collect)

/-- A script is its program, if it has no errors. -/
theorem evolves_runScript (heeds : setup.Heeds ready) (text : String)
    (h : machine.heap.WellFormed roots) (held : frame ∈ roots.frames) :
    Holding.Evolves ready ⟨machine.heap, roots⟩
      ⟨(runScript setup frame roots text machine).2.heap, roots⟩ := by
  simp only [runScript]
  split
  · have hrun := evolves_runProgram heeds (parse text).program h held
    generalize runProgram setup frame roots (parse text).program machine = ended at hrun
    obtain ⟨outcome, next⟩ := ended
    have hless := hrun.trans (.keep (within_heldIn outcome))
    cases outcome <;> exact hless
  · exact .refl _

end

end Scriptlet
