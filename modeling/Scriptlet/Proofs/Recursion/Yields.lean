import Scriptlet.Proofs.Inspect.Parse
import Scriptlet.Proofs.Integer.Wraps
import Scriptlet.Proofs.Layout.Run
import Scriptlet.Proofs.Recursion.Knows

set_option autoImplicit false

/-!
# Rules for evaluations

Component: the evaluator.  Specification: section 4.3 for each kind of expression, sections 4.4 and
10.6 for the native functions.

What an expression is worth is told by rules, one for each kind of expression, from what is known of
the scopes (`Yields`), and likewise what a body is worth (`Concludes`).  A function answers to
arguments with what its body is worth (`Answers.of_concludes`).  So a function that calls itself is
proved to answer by induction on its arguments, where its own name is known to be worth it.

The trees are written without spans (`Sketch`).  The rules hold of all trees that are the same but
for spans.

Each judgement says that the evaluation ends normally, and how: it is a statement of total
correctness, where the number of nested calls that may still be made is the measure.  A call needs
one more than its body.

The good values are given by a predicate and not by a value, as an array has an identity that
depends on the machine.  Facts and depth can be weakened (`Yields.weaken`), so that a rule may be
used where more is known than it needs.
-/

namespace Scriptlet

/-! ## Trees without spans -/

namespace Sketch

/-- A token without a span. -/
def token (kind : TokenKind) (literal : String) : Token := ⟨kind, literal, default⟩

/-- A name. -/
def name (text : String) : Name := ⟨token .identifier text⟩

/-- A name as an expression. -/
def identifier (text : String) : Expression := .identifier (name text)

/-- The digits of a number. -/
def digits (n : Nat) : Expression := .integer (token .integer n.repr) (Int64.ofNat n)

/-- An integer as it is written, if it is not the least one. -/
def integer (n : Int64) : Expression :=
  if n.toInt < 0 then .unary (token .minus "-") .negate (digits n.toInt.natAbs)
  else digits n.toInt.natAbs

/-- An infix operator between two expressions. -/
def binary (left : Expression) (operator : InfixOp) (right : Expression) : Expression :=
  .binary (token operator.kind operator.symbol) left operator right

/-- A call of something with some arguments. -/
def call (callee : Expression) (arguments : List Expression) : Expression :=
  .call (token .leftParen "(") callee arguments

/-- The literal of an array. -/
def array (elements : List Expression) : Expression := .array (token .leftBracket "[") elements

/-- A statement that is an expression, with the token that it starts with. -/
def statement (first : Token) (value : Expression) : Statement := .expression first value default

/-- A `let` with a name and its value. -/
def binding (text : String) (value : Expression) : Statement :=
  .binding (token .letWord "let") (name text) value default

/-- Statements between braces. -/
def block (statements : List Statement) : Block := ⟨token .leftBrace "\x7b", statements, default⟩

/-- A function with some parameters and statements. -/
def function (parameters : List String) (body : List Statement) : FunctionLiteral :=
  ⟨token .functionWord "fn", parameters.map name, block body⟩

/-- An `if` with one statement in each of its branches. -/
def conditional (condition : Expression) (consequence alternative : Statement) : Expression :=
  .conditional (token .ifWord "if") condition (block [consequence]) (some (block [alternative]))

section

variable {written : Expression}

/-- What is a name but for its span is a name. -/
theorem exists_identifier {text : String} (h : written.plain = identifier text) :
    ∃ name, written = .identifier name ∧ name.text = text := by
  cases written with
  | identifier name => exact ⟨name, rfl, congrArg Name.text (Expression.identifier.inj h)⟩
  | _ => cases h

theorem exists_digits {n : Nat} (h : written.plain = digits n) :
    ∃ token, written = .integer token (Int64.ofNat n) := by
  cases written with
  | integer token value =>
    obtain ⟨_, rfl⟩ := Expression.integer.inj h
    exact ⟨token, rfl⟩
  | _ => cases h

theorem exists_unary {token : Token} {operator : PrefixOp} {right : Expression}
    (h : written.plain = .unary token operator right) :
    ∃ token' inner, written = .unary token' operator inner ∧ inner.plain = right := by
  cases written with
  | unary token' operator' inner =>
    obtain ⟨_, rfl, hright⟩ := Expression.unary.inj h
    exact ⟨token', inner, rfl, hright⟩
  | _ => cases h

/-- What is an operator but for its spans has operands that are the same but for theirs. -/
theorem exists_binary {left right : Expression} {operator : InfixOp}
    (h : written.plain = binary left operator right) :
    ∃ token first second, written = .binary token first operator second ∧ first.plain = left ∧
      second.plain = right := by
  cases written with
  | binary token first operator second =>
    obtain ⟨_, hleft, rfl, hright⟩ := Expression.binary.inj h
    exact ⟨token, first, second, rfl, hleft, hright⟩
  | _ => cases h

/-- A call has a callee and arguments that are. -/
theorem exists_call {callee : Expression} {arguments : List Expression}
    (h : written.plain = call callee arguments) :
    ∃ token first inner, written = .call token first inner ∧ first.plain = callee ∧
      mapSpansOfExpressions (fun _ => default) inner = arguments := by
  cases written with
  | call token first inner =>
    obtain ⟨_, hcallee, harguments⟩ := Expression.call.inj h
    exact ⟨token, first, inner, rfl, hcallee, harguments⟩
  | _ => cases h

theorem exists_array {elements : List Expression} (h : written.plain = array elements) :
    ∃ token inner, written = .array token inner ∧
      mapSpansOfExpressions (fun _ => default) inner = elements := by
  cases written with
  | array token inner => exact ⟨token, inner, rfl, (Expression.array.inj h).2⟩
  | _ => cases h

theorem exists_function {literal : FunctionLiteral} (h : written.plain = .function literal) :
    ∃ inner, written = .function inner ∧ (inner.mapSpans fun _ => default) = literal := by
  cases written with
  | function inner => exact ⟨inner, rfl, Expression.function.inj h⟩
  | _ => cases h

theorem exists_statement {others : List Statement} {first : Token} {value : Expression}
    (h : mapSpansOfStatements (fun _ => default) others = [statement first value]) :
    ∃ token inner span, others = [.expression token inner span] ∧ inner.plain = value := by
  cases others with
  | nil => cases h
  | cons other behind =>
    obtain ⟨hother, hbehind⟩ := List.cons.inj h
    cases behind with
    | nil =>
      cases other with
      | expression token inner span =>
        exact ⟨token, inner, span, rfl, (Statement.expression.inj hother).2.1⟩
      | binding | returning => cases hother
    | cons => cases hbehind

theorem exists_binding {others rest : List Statement} {text : String} {value : Expression}
    (h : mapSpansOfStatements (fun _ => default) others = binding text value :: rest) :
    ∃ token name inner span behind, others = .binding token name inner span :: behind ∧
      name.text = text ∧ inner.plain = value ∧
      mapSpansOfStatements (fun _ => default) behind = rest := by
  cases others with
  | nil => cases h
  | cons other behind =>
    obtain ⟨hother, hbehind⟩ := List.cons.inj h
    cases other with
    | binding token name inner span =>
      obtain ⟨_, hname, hinner, _⟩ := Statement.binding.inj hother
      exact ⟨token, name, inner, span, behind, rfl, congrArg Name.text hname, hinner, hbehind⟩
    | expression | returning => cases hother

/-- A conditional has its parts. -/
theorem exists_conditional {condition : Expression} {consequence alternative : Statement}
    (h : written.plain = conditional condition consequence alternative) :
    ∃ token inner first second, written = .conditional token inner first (some second) ∧
      inner.plain = condition ∧
      mapSpansOfStatements (fun _ => default) first.statements = [consequence] ∧
      mapSpansOfStatements (fun _ => default) second.statements = [alternative] := by
  cases written with
  | conditional token inner first other =>
    obtain ⟨_, hinner, hfirst, hother⟩ := Expression.conditional.inj h
    cases other with
    | none => cases hother
    | some second =>
      obtain ⟨_, statements, _⟩ := first
      obtain ⟨_, statements', _⟩ := second
      exact ⟨token, inner, _, _, rfl, hinner, congrArg Block.statements hfirst,
        congrArg Block.statements (Option.some.inj hother)⟩
  | _ => cases h

end

end Sketch

/-! ## Values -/

/-- Whether a value is an array of some values. -/
def Value.IsArray (elements : List Value) (value : Value) : Prop :=
  ∃ object, value = .array object elements

/-- Whether a value is a function that was made in a frame, with a literal that is some literal but
for spans. -/
def Value.IsFunction (literal : FunctionLiteral) (frame : FrameId) (value : Value) : Prop :=
  ∃ object, value.plain = .function object literal frame

/-- Such a function has a literal and the frame it was made in. -/
theorem Value.IsFunction.exists_literal {literal : FunctionLiteral} {frame : FrameId}
    {value : Value} (h : value.IsFunction literal frame) : ∃ object written,
      value = .function object written frame ∧ (written.mapSpans fun _ => default) = literal := by
  obtain ⟨object, hplain⟩ := h
  cases value with
  | function object written captured =>
    cases hplain
    exact ⟨object, written, rfl, rfl⟩
  | null | integer | boolean | string | array | hash | builtin => cases hplain

/-! ## What is to be proved -/

section

variable (setup : Setup) (depth : Nat) (facts : List Fact)

/-- Whether an expression is worth a good value in a frame, where calls may be nested so deep and
some facts are known.  Nothing is bound in the frames there are. -/
def Yields (frame : FrameId) (tree : Expression) (good : Value → Prop) : Prop :=
  ∀ (written : Expression) (roots : Roots) (machine : Machine), written.plain = tree →
    frame ∈ roots.frames → machine.heap.Knows roots facts →
    ∃ value after, good value ∧ machine.heap.Writes frame [] after.heap ∧
      evalExpression setup (invokeWithin setup depth) frame roots written machine =
        .ok value after

/-- Whether some expressions are worth good values, each for its own place. -/
def YieldsAll (frame : FrameId) (trees : List Expression) (wanted : List (Value → Prop)) : Prop :=
  ∀ (written : List Expression) (roots : Roots) (machine : Machine),
    mapSpansOfExpressions (fun _ => default) written = trees →
    frame ∈ roots.frames → machine.heap.Knows roots facts →
    ∃ values after, List.Forall₂ (fun good value => good value) wanted values ∧
      machine.heap.Writes frame [] after.heap ∧
      evalExpressions setup (invokeWithin setup depth) frame roots written machine =
        .ok values after

/-- Whether the last of some statements is worth a good value. -/
def Concludes (frame : FrameId) (statements : List Statement) (good : Value → Prop) : Prop :=
  ∀ (written : List Statement) (roots : Roots) (machine : Machine),
    mapSpansOfStatements (fun _ => default) written = statements →
    frame ∈ roots.frames → machine.heap.Knows roots facts →
    ∃ value after, good value ∧
      evalStatements setup (invokeWithin setup depth) frame roots none written machine =
        .ok (some value) after

/-- Whether a value that is called with good arguments gives a good value. -/
def Answers (callee : Value) (wanted : List (Value → Prop)) (good : Value → Prop) : Prop :=
  ∀ (roots : Roots) (arguments : List Value) (machine : Machine),
    List.Forall₂ (fun good value => good value) wanted arguments →
    machine.heap.Knows ((roots.hold callee).holdAll arguments) facts →
    ∃ value after, good value ∧
      applyValue setup (invokeWithin setup depth) roots callee arguments machine = .ok value after

end

section

variable {setup : Setup} {depth : Nat} {facts others : List Fact} {frame : FrameId}
  {roots : Roots} {machine after : Machine} {good wanted : Value → Prop}

/-- What is known before an expression is evaluated is known after it. -/
theorem Heap.Knows.after_expression {expression : Expression} {value : Value}
    (h : machine.heap.Knows roots facts) (held : frame ∈ roots.frames)
    (writes : machine.heap.Writes frame [] after.heap)
    (heval : evalExpression setup (invokeWithin setup depth) frame roots expression machine =
      .ok value after) : after.heap.Knows (roots.hold value) facts :=
  h.after writes
    ((confined_invokeWithin setup depth).hold_expression h.wellFormed held heval)
    (roots.within_hold value)

/-- And what is known before some expressions is known after them. -/
theorem Heap.Knows.after_expressions {expressions : List Expression} {values : List Value}
    (h : machine.heap.Knows roots facts) (held : frame ∈ roots.frames)
    (writes : machine.heap.Writes frame [] after.heap)
    (heval : evalExpressions setup (invokeWithin setup depth) frame roots expressions machine =
      .ok values after) : after.heap.Knows (roots.holdAll values) facts :=
  h.after writes
    (Eval.wellFormed_of_ok (wellFormed_evalExpressions (confined_invokeWithin setup depth).calls
      h.wellFormed held expressions) heval)
    (roots.within_holdAll values)

theorem Answers.weaken {callee : Value} {inputs : List (Value → Prop)}
    (h : Answers setup depth facts callee inputs good) (hsub : facts ⊆ others) :
    Answers setup depth others callee inputs good :=
  fun roots arguments machine harguments hknows =>
    h roots arguments machine harguments (hknows.mono hsub)

theorem Yields.weaken {tree : Expression} (h : Yields setup depth facts frame tree good)
    (hsub : facts ⊆ others) : Yields setup depth others frame tree good :=
  fun written roots machine hwritten held hknows =>
    h written roots machine hwritten held (hknows.mono hsub)

/-! ## Rules for expressions -/

/-- A statement that is an expression is worth what that is. -/
theorem evalStatements_of_yields {tree : Expression} {first : Token} {statements : List Statement}
    (h : Yields setup depth facts frame tree good)
    (hwritten : mapSpansOfStatements (fun _ => default) statements = [Sketch.statement first tree])
    (held : frame ∈ roots.frames) (hknows : machine.heap.Knows roots facts) :
    ∃ value after, good value ∧ machine.heap.Writes frame [] after.heap ∧
      evalStatements setup (invokeWithin setup depth) frame roots none statements machine =
        .ok (some value) after := by
  obtain ⟨token, inner, span, rfl, hinner⟩ := Sketch.exists_statement hwritten
  obtain ⟨value, after, hgood, hwrites, heval⟩ := h inner roots machine hinner held hknows
  have hstatement : evalStatement setup (invokeWithin setup depth) frame roots
      (.expression token inner span) machine = .ok (some value) after := by
    rw [evalStatement, Eval.bind_of_ok heval]
    rfl
  refine ⟨value, after, hgood, hwrites, ?_⟩
  rw [evalStatements, Option.elim_none, Eval.bind_of_ok hstatement, evalStatements]
  rfl

/-- A block is worth what its statements are. -/
theorem evalBlock_eq {invoke : Invoke} (block : Block) :
    evalBlock setup invoke frame roots block machine =
      evalStatements setup invoke frame roots none block.statements machine := by
  obtain ⟨_, _, _⟩ := block
  rw [evalBlock]

namespace Yields

theorem mono {tree : Expression} (h : Yields setup depth facts frame tree good)
    (himp : ∀ value, good value → wanted value) : Yields setup depth facts frame tree wanted := by
  intro written roots machine hwritten held hknows
  obtain ⟨value, after, hgood, hwrites, heval⟩ := h written roots machine hwritten held hknows
  exact ⟨value, after, himp value hgood, hwrites, heval⟩

/-- A name is worth what it is known to be worth. -/
theorem identifier {text : String} {value : Value} (free : setup.builtins.find? text = none)
    (known : ⟨frame, text, value⟩ ∈ facts) :
    Yields setup depth facts frame (Sketch.identifier text) (· = value) := by
  intro written roots machine hwritten held hknows
  obtain ⟨name, rfl, htext⟩ := Sketch.exists_identifier hwritten
  refine ⟨value, machine, rfl, .refl _ _ _, ?_⟩
  rw [evalExpression_identifier (htext ▸ free), htext, hknows.found _ known]

/-- A name is good if what it is known to be worth is. -/
theorem known {text : String} {value : Value} (free : setup.builtins.find? text = none)
    (hmem : ⟨frame, text, value⟩ ∈ facts) (hgood : good value) :
    Yields setup depth facts frame (Sketch.identifier text) good :=
  (identifier free hmem).mono fun _ hvalue => hvalue ▸ hgood

/-- The name of a native function is worth that. -/
theorem builtin {text : String} {builtin : Builtin}
    (found : setup.builtins.find? text = some builtin) :
    Yields setup depth facts frame (Sketch.identifier text) (· = .builtin builtin) := by
  intro written roots machine hwritten held hknows
  obtain ⟨name, rfl, htext⟩ := Sketch.exists_identifier hwritten
  refine ⟨.builtin builtin, machine, rfl, .refl _ _ _, ?_⟩
  rw [evalExpression, evalName, htext, found]
  rfl

/-- Digits are worth the number that they write. -/
theorem digits (n : Nat) :
    Yields setup depth facts frame (Sketch.digits n) (· = .integer (Int64.ofNat n)) := by
  intro written roots machine hwritten held hknows
  obtain ⟨token, rfl⟩ := Sketch.exists_digits hwritten
  refine ⟨_, machine, rfl, .refl _ _ _, ?_⟩
  rw [evalExpression]
  rfl

/-- A minus is worth the opposite. -/
theorem negative {tree : Expression} {n : Int64} {token : Token}
    (h : Yields setup depth facts frame tree (· = .integer n)) :
    Yields setup depth facts frame (.unary token .negate tree) (· = .integer (-n)) := by
  intro written roots machine hwritten held hknows
  obtain ⟨token', inner, rfl, hinner⟩ := Sketch.exists_unary hwritten
  obtain ⟨value, after, rfl, hwrites, heval⟩ := h inner roots machine hinner held hknows
  refine ⟨_, after, rfl, hwrites, ?_⟩
  rw [evalExpression_unary_of_ok token' heval]
  rfl

/-- An integer is worth itself. -/
theorem integer (n : Int64) :
    Yields setup depth facts frame (Sketch.integer n) (· = .integer n) := by
  have hn := ofNat_natAbs_toInt n
  unfold Sketch.integer
  split
  next hnegative =>
    rw [if_pos hnegative] at hn
    exact (digits _).negative.mono fun value hvalue => by rw [hvalue, hn]
  next hnegative =>
    rw [if_neg hnegative] at hn
    exact (digits _).mono fun value hvalue => by rw [hvalue, hn]

/-- An operator is worth what it makes of what its operands are worth. -/
theorem binary {left right : Expression} {operator : InfixOp} {first second : Value → Prop}
    (hleft : Yields setup depth facts frame left first)
    (hright : Yields setup depth facts frame right second)
    (happly : ∀ l r, first l → second r →
      ∃ value, good value ∧ applyInfix operator l r = .ok value) :
    Yields setup depth facts frame (Sketch.binary left operator right) good := by
  intro written roots machine hwritten held hknows
  obtain ⟨token, left', right', rfl, hleft', hright'⟩ := Sketch.exists_binary hwritten
  obtain ⟨l, middle, hl, hwrites, hevalLeft⟩ := hleft left' roots machine hleft' held hknows
  obtain ⟨r, after, hr, hwrites', hevalRight⟩ := hright right' (roots.hold l) middle hright' held
    (hknows.after_expression held hwrites hevalLeft)
  obtain ⟨value, hgood, hvalue⟩ := happly l r hl hr
  refine ⟨value, after, hgood, hwrites.trans hwrites', ?_⟩
  rw [evalExpression_binary_of_ok token operator hevalLeft hevalRight, hvalue]
  rfl

/-- A function is made in the frame that its literal is evaluated in. -/
theorem function (literal : FunctionLiteral) :
    Yields setup depth facts frame (.function literal) (Value.IsFunction literal frame) := by
  intro written roots machine hwritten held hknows
  obtain ⟨literal', rfl, hliteral⟩ := Sketch.exists_function hwritten
  refine ⟨.function ⟨machine.heap.nextObject⟩ literal' frame, _,
    ⟨⟨machine.heap.nextObject⟩, congrArg (Value.function _ · _) hliteral⟩, ?_, rfl⟩
  exact .of_frames_eq rfl

/-- An array is worth a new array of what its elements are worth. -/
theorem array {trees : List Expression} {elements : List Value}
    (h : YieldsAll setup depth facts frame trees (elements.map fun element => (· = element))) :
    Yields setup depth facts frame (Sketch.array trees) (Value.IsArray elements) := by
  intro written roots machine hwritten held hknows
  obtain ⟨token, trees', rfl, htrees⟩ := Sketch.exists_array hwritten
  obtain ⟨values, middle, hvalues, hwrites, heval⟩ := h trees' roots machine htrees held hknows
  obtain rfl : elements = values := by
    rw [List.forall₂_map_left_iff] at hvalues
    exact List.forall₂_eq_eq_eq ▸ hvalues.imp fun _ _ h => h.symm
  refine ⟨.array ⟨middle.heap.nextObject⟩ elements,
    { middle with heap := middle.heap.newObject.2 }, ⟨_, rfl⟩,
    hwrites.trans (.of_frames_eq rfl), ?_⟩
  rw [evalExpression, Eval.bind_of_ok heval]
  rfl

/-- An `if` is worth what the branch is that its condition chooses. -/
theorem conditional {condition consequence alternative : Expression} {first second : Token}
    {b : Bool} (hcondition : Yields setup depth facts frame condition (· = .boolean b))
    (hthen : b = true → Yields setup depth facts frame consequence good)
    (helse : b = false → Yields setup depth facts frame alternative good) :
    Yields setup depth facts frame (Sketch.conditional condition
      (Sketch.statement first consequence) (Sketch.statement second alternative)) good := by
  intro written roots machine hwritten held hknows
  obtain ⟨token, inner, branch, other, rfl, hinner, hbranch, hother⟩ :=
    Sketch.exists_conditional hwritten
  obtain ⟨_, middle, rfl, hwrites, heval⟩ := hcondition inner roots machine hinner held hknows
  have hmiddle := hknows.after_expression held hwrites heval
  have hheld : frame ∈ (roots.hold (.boolean b)).frames := held
  cases b with
  | true =>
    obtain ⟨value, after, hgood, hwrites', hbody⟩ :=
      evalStatements_of_yields (hthen rfl) hbranch hheld hmiddle
    refine ⟨value, after, hgood, hwrites.trans hwrites', ?_⟩
    rw [evalExpression, Eval.bind_of_ok heval, Value.truthy, if_pos rfl,
      Eval.bind_of_ok ((evalBlock_eq branch).trans hbody)]
    rfl
  | false =>
    obtain ⟨value, after, hgood, hwrites', hbody⟩ :=
      evalStatements_of_yields (helse rfl) hother hheld hmiddle
    refine ⟨value, after, hgood, hwrites.trans hwrites', ?_⟩
    rw [evalExpression, Eval.bind_of_ok heval, Value.truthy, if_neg Bool.false_ne_true,
      evalAlternative, Eval.bind_of_ok ((evalBlock_eq other).trans hbody)]
    rfl

/-- A call is worth what the callee answers to what the arguments are worth. -/
theorem call {callee : Expression} {arguments : List Expression} {called : Value → Prop}
    {inputs : List (Value → Prop)} (hcallee : Yields setup depth facts frame callee called)
    (harguments : YieldsAll setup depth facts frame arguments inputs)
    (hanswers : ∀ value, called value → Answers setup depth facts value inputs good) :
    Yields setup depth facts frame (Sketch.call callee arguments) good := by
  intro written roots machine hwritten held hknows
  obtain ⟨token, callee', arguments', rfl, hcallee', harguments'⟩ := Sketch.exists_call hwritten
  obtain ⟨called, middle, hcalled, hwrites, hevalCallee⟩ :=
    hcallee callee' roots machine hcallee' held hknows
  have hmiddle := hknows.after_expression held hwrites hevalCallee
  obtain ⟨values, last, hvalues, hwrites', hevalArguments⟩ :=
    harguments arguments' (roots.hold called) middle harguments' held hmiddle
  have hlast := hmiddle.after_expressions held hwrites' hevalArguments
  obtain ⟨value, after, hgood, happly⟩ := hanswers called hcalled roots values last hvalues hlast
  refine ⟨value, after, hgood, (hwrites.trans hwrites').trans ?_, ?_⟩
  · have hcall : (applyValue setup (invokeWithin setup depth) roots called values).Writes frame []
        last := writes_applyValue (confined_invokeWithin setup depth) hlast.wellFormed
    rwa [Eval.Writes, Eval.after_of_ok happly] at hcall
  · rw [evalExpression, Eval.bind_of_ok hevalCallee, Eval.bind_of_ok hevalArguments, happly]

end Yields

namespace YieldsAll

/-- No expressions. -/
theorem nil : YieldsAll setup depth facts frame [] [] := by
  intro written roots machine hwritten held hknows
  cases written with
  | nil => exact ⟨[], machine, .nil, .refl _ _ _, by rw [evalExpressions]; rfl⟩
  | cons => cases hwritten

/-- An expression and those behind it, evaluated while its value is held. -/
theorem cons {tree : Expression} {trees : List Expression} {inputs : List (Value → Prop)}
    (hfirst : Yields setup depth facts frame tree good)
    (hrest : YieldsAll setup depth facts frame trees inputs) :
    YieldsAll setup depth facts frame (tree :: trees) (good :: inputs) := by
  intro written roots machine hwritten held hknows
  cases written with
  | nil => cases hwritten
  | cons first rest =>
    obtain ⟨htree, htrees⟩ := List.cons.inj hwritten
    obtain ⟨value, middle, hgood, hwrites, heval⟩ := hfirst first roots machine htree held hknows
    obtain ⟨values, after, hvalues, hwrites', hevals⟩ := hrest rest (roots.hold value) middle htrees
      held (hknows.after_expression held hwrites heval)
    refine ⟨value :: values, after, .cons hgood hvalues, hwrites.trans hwrites', ?_⟩
    rw [evalExpressions, Eval.bind_of_ok heval, Eval.bind_of_ok hevals]
    rfl

end YieldsAll

/-! ## Rules for bodies -/

/-- A body that is an expression. -/
theorem Concludes.expression {tree : Expression} (h : Yields setup depth facts frame tree good)
    (first : Token) : Concludes setup depth facts frame [Sketch.statement first tree] good := by
  intro written roots machine hwritten held hknows
  obtain ⟨value, after, hgood, _, heval⟩ := evalStatements_of_yields h hwritten held hknows
  exact ⟨value, after, hgood, heval⟩

/-- A binding makes a fact known that is about its own frame and a new name. -/
theorem Yields.evalStatement_binding {tree : Expression}
    (h : Yields setup depth facts frame tree good) {token : Token} {name : Name}
    {value : Expression} {span : Span} (hvalue : value.plain = tree)
    (held : frame ∈ roots.frames) (hknows : machine.heap.Knows roots facts)
    (own : ∀ fact ∈ facts, fact.frame = frame ∧ fact.name ≠ name.text) :
    ∃ result after, good result ∧
      evalStatement setup (invokeWithin setup depth) frame roots (.binding token name value span)
        machine = .ok none after ∧
      after.heap.Knows roots (⟨frame, name.text, result⟩ :: facts) := by
  obtain ⟨result, middle, hgood, hwrites, heval⟩ := h value roots machine hvalue held hknows
  have hmiddle := hknows.after_expression held hwrites heval
  refine ⟨result, { middle with heap := middle.heap.bind frame name.text result }, hgood, ?_,
    hmiddle.bind held own⟩
  rw [evalStatement, Eval.bind_of_ok heval]
  rfl

/-- A body that starts with a binding, of a name that is not known of yet. -/
theorem Concludes.binding {tree : Expression} {text : String} {rest : List Statement}
    (h : Yields setup depth facts frame tree wanted)
    (own : ∀ fact ∈ facts, fact.frame = frame ∧ fact.name ≠ text)
    (hrest : ∀ value, wanted value →
      Concludes setup depth (⟨frame, text, value⟩ :: facts) frame rest good) :
    Concludes setup depth facts frame (Sketch.binding text tree :: rest) good := by
  intro written roots machine hwritten held hknows
  obtain ⟨token, name, inner, span, behind, rfl, rfl, hinner, hbehind⟩ :=
    Sketch.exists_binding hwritten
  obtain ⟨result, middle, hresult, heval, hmiddle⟩ :=
    h.evalStatement_binding hinner held hknows own
  obtain ⟨value, after, hgood, hevals⟩ :=
    hrest result hresult behind roots middle hbehind held hmiddle
  refine ⟨value, after, hgood, ?_⟩
  rw [evalStatements, Option.elim_none, Eval.bind_of_ok heval]
  exact hevals

/-! ## Rules for calls -/

/-- Which argument a parameter has does not depend on spans. -/
theorem boundArgument?_mapSpan (f : Span → Span) (name : String) (parameters : List Name)
    (arguments : List Value) :
    boundArgument? name (parameters.map (Name.mapSpan f)) arguments =
      boundArgument? name parameters arguments := by
  induction parameters generalizing arguments with
  | nil => rfl
  | cons parameter parameters ih =>
    cases arguments with
    | nil => rfl
    | cons argument arguments =>
      rw [List.map_cons, boundArgument?, boundArgument?, ih, Name.text_mapSpan]

namespace Answers

/-- A function answers with what its body is worth, in a frame of its own. -/
theorem of_concludes {parameters : List String} {body : List Statement} {captured : FrameId}
    {callee : Value} {inputs : List (Value → Prop)}
    (hcallee : callee.IsFunction (Sketch.function parameters body) captured)
    (hbody : ∀ call arguments, List.Forall₂ (fun good value => good value) inputs arguments →
      ∃ inner, (∀ fact ∈ inner,
        fact.Begins facts (parameters.map Sketch.name) arguments captured call) ∧
        Concludes setup depth inner call body good) :
    Answers setup (depth + 1) facts callee inputs good := by
  intro roots arguments machine harguments hknows
  obtain ⟨object, ⟨token, names, ⟨brace, statements, span⟩⟩, rfl, hliteral⟩ :=
    hcallee.exists_literal
  obtain ⟨_, hnames, hblock⟩ := FunctionLiteral.mk.inj hliteral
  obtain ⟨_, hstatements, _⟩ := Block.mk.inj hblock
  let literal : FunctionLiteral := ⟨token, names, ⟨brace, statements, span⟩⟩
  let start := bodyStart setup roots (.function object literal captured) literal captured
    arguments machine
  obtain ⟨inner, hinner, hconcludes⟩ := hbody start.1 arguments harguments
  have hbegins : start.2.2.heap.Knows start.2.1 inner := by
    refine hknows.begin fun fact hmem => (hinner fact hmem).congr fun name => ?_
    rw [← hnames, boundArgument?_mapSpan]
  obtain ⟨value, after, hgood, heval⟩ :=
    hconcludes statements start.2.1 start.2.2 hstatements List.mem_cons_self hbegins
  refine ⟨value, after, hgood, ?_⟩
  rw [applyValue_function]
  exact catchReturn_of_ends (.inr ((evalBlock_eq literal.body).trans heval))

variable {name : String} {elements : List Value} {element : Value}

/-- `len` of an array is the number of its elements. -/
theorem len : Answers setup depth facts (.builtin ⟨name, .len⟩) [Value.IsArray elements]
    (· = .integer (Int64.ofNat elements.length)) := by
  rintro roots _ machine (_ | ⟨⟨object, rfl⟩, _ | _⟩) _
  exact ⟨_, machine, rfl, rfl⟩

/-- `first` is the first of them. -/
theorem first : Answers setup depth facts (.builtin ⟨name, .first⟩)
    [Value.IsArray (element :: elements)] (· = element) := by
  rintro roots _ machine (_ | ⟨⟨object, rfl⟩, _ | _⟩) _
  exact ⟨_, machine, rfl, rfl⟩

/-- `rest` is a new array of the others. -/
theorem rest : Answers setup depth facts (.builtin ⟨name, .rest⟩)
    [Value.IsArray (element :: elements)] (Value.IsArray elements) := by
  rintro roots _ machine (_ | ⟨⟨object, rfl⟩, _ | _⟩) _
  exact ⟨_, _, ⟨⟨machine.heap.nextObject⟩, rfl⟩,
    run_rest setup.files object element elements machine⟩

/-- `push` is a new array with one more. -/
theorem push : Answers setup depth facts (.builtin ⟨name, .push⟩)
    [Value.IsArray elements, (· = element)] (Value.IsArray (elements ++ [element])) := by
  rintro roots _ machine (_ | ⟨⟨object, rfl⟩, _ | ⟨rfl, _ | _⟩⟩) _
  exact ⟨_, _, ⟨⟨machine.heap.nextObject⟩, rfl⟩, rfl⟩

end Answers

end

end Scriptlet
