import Scriptlet.Proofs.Hash.Keyed

set_option autoImplicit false

/-!
# Evaluation keeps hashes in order

Component: the evaluator.  Specification: section 4.3 on hash literals and indexing, with every
other rule of the table, as a value can come from anywhere.

By recursion on the tree, with what a call does as an assumption, which `keeps_invokeWithin` then
discharges for calls of any depth.

What is kept is an invariant of the heap and of results: every hash that is bound, that is the value
of an expression or that a `return` carries has its entries in order and keyed by their names.  Only
a hash literal makes a hash, and it makes it by inserting entries; all other rules pass values on.

There is one lemma for each kind of syntax, and each takes what holds of calls as a hypothesis.
Statements that bind change the heap, and keep it because what they bind is keyed.
-/

namespace Scriptlet

/-! ## Expressions and statements -/

/-- Whether calls with keyed arguments keep a heap keyed, and come to keyed values. -/
def Invoke.Keeps (digest : Digest) (invoke : Invoke) : Prop :=
  ∀ roots literal id arguments, (∀ argument ∈ arguments, argument.Keyed digest) →
    (invoke roots literal id arguments).Keeps digest Value.Keyed

/-- Whether a result, if there is one, is keyed. -/
def OptionKeyed (digest : Digest) (result : Option Value) : Prop :=
  ∀ value, result = some value → value.Keyed digest

/-- Null is keyed, so that it may stand in for no value. -/
theorem OptionKeyed.getD {digest : Digest} {result : Option Value} (h : OptionKeyed digest result) :
    (result.getD .null).Keyed digest := by
  cases result with
  | none => exact Value.keyed_null
  | some value => exact h value rfl

/-- What is looked up was bound, or is native. -/
theorem keeps_evalName (setup : Setup) (frame : FrameId) (name : String) :
    (evalName setup frame name).Keeps setup.digest Value.Keyed := by
  unfold evalName
  split
  next builtin _ => exact .pure (Value.keyed_builtin builtin)
  · refine Maintains.get.bind fun machine h => ?_
    split
    next value hlookup => exact .pure (Heap.Keyed.lookup h hlookup)
    · exact .fail trivial

section

variable {setup : Setup} {invoke : Invoke} {frame : FrameId}

/-- A call comes to a keyed value if calls do and native functions do. -/
theorem keeps_applyValue (calls : invoke.Keeps setup.digest) (roots : Roots) (callee : Value)
    {arguments : List Value} (h : ∀ argument ∈ arguments, argument.Keyed setup.digest) :
    (applyValue setup invoke roots callee arguments).Keeps setup.digest Value.Keyed := by
  cases callee with
  | function object literal captured => exact calls _ literal captured arguments h
  | builtin builtin => exact encloses_keyed.run setup.files builtin.operation h
  | null | integer | boolean | string | array | hash => exact .fail trivial

mutual

/-- Evaluation keeps a heap keyed, and comes to keyed values. -/
theorem keeps_expression (calls : invoke.Keeps setup.digest) : (expression : Expression) →
    ∀ roots : Roots,
      (evalExpression setup invoke frame roots expression).Keeps setup.digest Value.Keyed
  | .identifier name, _ => by
    simp only [evalExpression]
    exact keeps_evalName setup frame name.text
  | .integer _ _, _ | .string _, _ | .boolean _ _, _ => by
    simp only [evalExpression]
    exact .pure (by simp)
  | .unary _ operator right, roots => by
    simp only [evalExpression]
    refine (keeps_expression calls right roots).bind fun value _ => ?_
    exact .ofExcept (fun _ => keyed_applyPrefix) fun _ _ => trivial
  | .binary _ left operator right, roots => by
    simp only [evalExpression]
    refine (keeps_expression calls left roots).bind fun leftValue _ => ?_
    refine (keeps_expression calls right _).bind fun rightValue _ => ?_
    exact .ofExcept (fun _ => keyed_applyInfix) fun _ _ => trivial
  | .conditional _ condition consequence alternative, roots => by
    simp only [evalExpression]
    refine (keeps_expression calls condition roots).bind fun value _ => ?_
    split
    · exact (keeps_block calls consequence _).bind fun _ h => .pure h.getD
    · exact (keeps_alternative calls alternative _).bind fun _ h => .pure h.getD
  | .function literal, _ => by
    simp only [evalExpression]
    exact keeps_newFunction literal frame
  | .call _ callee arguments, roots => by
    simp only [evalExpression]
    refine (keeps_expression calls callee roots).bind fun value _ => ?_
    refine (keeps_expressions calls arguments _).bind fun values hvalues => ?_
    exact keeps_applyValue calls roots value hvalues
  | .array _ elements, roots => by
    simp only [evalExpression]
    exact (keeps_expressions calls elements roots).bind fun _ h => encloses_keyed.newArray h
  | .index _ left position, roots => by
    simp only [evalExpression]
    refine (keeps_expression calls left roots).bind fun value hvalue => ?_
    refine (keeps_expression calls position _).bind fun index _ => ?_
    exact .ofExcept (fun _ => keyed_applyIndex hvalue) fun _ _ => trivial
  | .hash _ pairs, roots => by
    simp only [evalExpression]
    exact (keeps_pairs calls pairs roots .nil).bind fun _ h => keeps_newHash h

/-- Values in a row are all keyed. -/
theorem keeps_expressions (calls : invoke.Keeps setup.digest) :
    (expressions : List Expression) → ∀ roots : Roots,
      (evalExpressions setup invoke frame roots expressions).Keeps setup.digest
        fun digest values => ∀ value ∈ values, value.Keyed digest
  | [], _ => by
    simp only [evalExpressions]
    exact .pure fun _ h => absurd h List.not_mem_nil
  | expression :: rest, roots => by
    simp only [evalExpressions]
    refine (keeps_expression calls expression roots).bind fun value hvalue => ?_
    refine (keeps_expressions calls rest _).bind fun values hvalues => ?_
    exact .pure (List.forall_mem_cons.mpr ⟨hvalue, hvalues⟩)

/-- The one place where a hash grows: an entry whose key is that of its name is inserted. -/
theorem keeps_pairs (calls : invoke.Keeps setup.digest) :
    (pairs : List Pair) → ∀ (roots : Roots) {entries : List Entry},
      KeyedEntries setup.digest entries →
      (evalPairs setup invoke frame roots entries pairs).Keeps setup.digest KeyedEntries
  | [], _, _, h => by
    simp only [evalPairs]
    exact .pure h
  | pair :: rest, roots, _, h => by
    simp only [evalPairs]
    refine (keeps_pair calls pair _).bind fun entry hentry => ?_
    exact keeps_pairs calls rest roots (h.insertEntry hentry)

/-- Its name has been searched for its key. -/
theorem keeps_pair (calls : invoke.Keeps setup.digest) : (pair : Pair) → ∀ roots : Roots,
    (evalPair setup invoke frame roots pair).Keeps setup.digest KeyedEntry
  | ⟨key, value⟩, roots => by
    simp only [evalPair]
    refine (keeps_expression calls key roots).bind fun name hname => ?_
    refine (keeps_expression calls value _).bind fun content hcontent => ?_
    have hkey : (Eval.ofExcept (name.hashKey setup.digest)).Keeps setup.digest
        fun digest key => name.hashKey digest = .ok key :=
      .ofExcept (fun _ h => h) fun _ _ => trivial
    exact hkey.bind fun _ h => .pure ⟨h, hname, hcontent⟩

theorem keeps_alternative (calls : invoke.Keeps setup.digest) : (alternative : Option Block) →
    ∀ roots : Roots,
      (evalAlternative setup invoke frame roots alternative).Keeps setup.digest OptionKeyed
  | none, _ => by
    simp only [evalAlternative]
    exact .pure fun _ h => by cases h
  | some block, roots => by
    simp only [evalAlternative]
    exact keeps_block calls block roots

theorem keeps_block (calls : invoke.Keeps setup.digest) : (block : Block) → ∀ roots : Roots,
    (evalBlock setup invoke frame roots block).Keeps setup.digest OptionKeyed
  | ⟨_, statements, _⟩, roots => by
    simp only [evalBlock]
    exact keeps_statements calls statements roots fun _ h => by cases h

/-- The value of a list of statements is that of one of them. -/
theorem keeps_statements (calls : invoke.Keeps setup.digest) : (statements : List Statement) →
    ∀ (roots : Roots) {last : Option Value}, OptionKeyed setup.digest last →
      (evalStatements setup invoke frame roots last statements).Keeps setup.digest OptionKeyed
  | [], _, _, h => by
    simp only [evalStatements]
    exact .pure h
  | statement :: rest, roots, _, _ => by
    simp only [evalStatements]
    refine (keeps_statement calls statement _).bind fun value hvalue => ?_
    exact keeps_statements calls rest roots hvalue

/-- What is bound is what an expression was worth. -/
theorem keeps_statement (calls : invoke.Keeps setup.digest) : (statement : Statement) →
    ∀ roots : Roots,
      (evalStatement setup invoke frame roots statement).Keeps setup.digest OptionKeyed
  | .binding _ name value _, roots => by
    simp only [evalStatement]
    refine (keeps_expression calls value roots).bind fun result hresult machine h => ?_
    exact ⟨h.bind frame name.text hresult, fun _ h => by cases h⟩
  | .returning _ value _, roots => by
    simp only [evalStatement]
    exact (keeps_expression calls value roots).bind fun _ h => .throw h
  | .expression _ value _, roots => by
    simp only [evalStatement]
    refine (keeps_expression calls value roots).bind fun result hresult => .pure ?_
    rintro _ ⟨⟩
    exact hresult

end

end

/-! ## Calls and programs -/

/-- What a `return` carries is keyed, and becomes the value of the call. -/
theorem keeps_catchReturn {digest : Digest} {body : Eval (Option Value)}
    (h : body.Keeps digest OptionKeyed) : (catchReturn body).Keeps digest Value.Keyed := by
  intro machine hmachine
  have hbody := h machine hmachine
  unfold catchReturn
  cases hresult : body machine with
  | ok result next =>
    rw [hresult] at hbody
    exact ⟨hbody.1, hbody.2.getD⟩
  | error halt next =>
    rw [hresult] at hbody
    cases halt <;> exact hbody

/-- Calls keep a heap keyed, however deep they are nested. -/
theorem keeps_invokeWithin (setup : Setup) (depth : Nat) :
    (invokeWithin setup depth).Keeps setup.digest := by
  induction depth with
  | zero => exact fun _ _ _ _ _ => .throw trivial
  | succ depth ih =>
    intro roots literal id arguments harguments machine h
    have hcall := (h.allocate setup.due (roots.holdAll arguments) (some id)).bindAll
      (machine.heap.allocate setup.due (roots.holdAll arguments) (some id)).1 literal.parameters
      harguments
    exact keeps_catchReturn (keeps_block ih literal.body _) _ hcall

/-- In particular calls that a host makes keep what is keyed. -/
theorem keeps_applyCallable (setup : Setup) (roots : Roots) (callee : Value)
    {arguments : List Value} (h : ∀ argument ∈ arguments, argument.Keyed setup.digest) :
    (applyCallable setup roots callee arguments).Keeps setup.digest Value.Keyed :=
  keeps_applyValue (keeps_invokeWithin setup setup.callDepth) roots callee h

/-- So do statements at the top of a program. -/
theorem keeps_execute (setup : Setup) (frame : FrameId) (roots : Roots) (statement : Statement) :
    (execute setup frame roots statement).Keeps setup.digest OptionKeyed :=
  keeps_statement (keeps_invokeWithin setup setup.callDepth) statement roots

/-- Whether a value that a program is worth is keyed. -/
def Outcome.Keyed (digest : Digest) : Outcome → Prop
  | .finished value => OptionKeyed digest value
  | .failed _ | .exhausted => True

/-- Along the statements of a program. -/
theorem keeps_runStatements (setup : Setup) (frame : FrameId) (roots : Roots)
    (statements : List Statement) {last : Option Value} {machine : Machine}
    (h : machine.heap.Keyed setup.digest) (hlast : OptionKeyed setup.digest last) :
    (runStatements setup frame roots last statements machine).2.heap.Keyed setup.digest ∧
      (runStatements setup frame roots last statements machine).1.Keyed setup.digest := by
  induction statements generalizing last machine with
  | nil => exact ⟨h, hlast⟩
  | cons statement rest ih =>
    have hfirst := keeps_execute setup frame (last.elim roots roots.hold) statement machine h
    rw [runStatements]
    cases hresult : execute setup frame (last.elim roots roots.hold) statement machine with
    | ok value next =>
      rw [hresult] at hfirst
      exact ih hfirst.1 hfirst.2
    | error halt next =>
      rw [hresult] at hfirst
      cases halt with
      | returned value => exact ⟨hfirst.1, by rintro _ ⟨⟩; exact hfirst.2⟩
      | fault | exhausted => exact ⟨hfirst.1, trivial⟩

/-- A program keeps its heap keyed, also through the collection at its end. -/
theorem keeps_runProgram (setup : Setup) (frame : FrameId) (roots : Roots) (program : Program)
    {machine : Machine} (h : machine.heap.Keyed setup.digest) :
    (runProgram setup frame roots program machine).2.heap.Keyed setup.digest ∧
      (runProgram setup frame roots program machine).1.Keyed setup.digest := by
  have hnone : OptionKeyed setup.digest none := fun _ h => by cases h
  obtain ⟨hheap, houtcome⟩ := keeps_runStatements setup frame roots program.statements h hnone
  exact ⟨hheap.collect _, houtcome⟩

/-- And so does a script, whether it can be parsed or not. -/
theorem keeps_runScript (setup : Setup) (frame : FrameId) (roots : Roots) (text : String)
    {machine : Machine} (h : machine.heap.Keyed setup.digest) :
    (runScript setup frame roots text machine).2.heap.Keyed setup.digest := by
  simp only [runScript]
  split
  · have hrun := (keeps_runProgram setup frame roots (parse text).program h).1
    generalize runProgram setup frame roots (parse text).program machine = ended at hrun
    obtain ⟨outcome, next⟩ := ended
    cases outcome <;> exact hrun
  · exact h

end Scriptlet
