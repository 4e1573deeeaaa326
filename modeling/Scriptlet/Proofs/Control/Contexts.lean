import Scriptlet.Proofs.Console.Conversation
import Scriptlet.Proofs.Effects.WellFormed

set_option autoImplicit false

/-!
# Contexts

Component: the evaluator.  Specification: section 4.3, whose every rule evaluates its parts in order
and stops at the first that is a signal, and section 5, by which the order is from left to right.

A *context* is syntax with a hole for one expression.  It is a list of layers, the outermost first;
a layer is one node of the tree, or a node with a block in it, a statement of which has the hole.
No layer goes into the body of a function that is written out: what is there is evaluated in a call,
if at all.

What a layer evaluates before control comes to its hole is its *approach*.  The approach says all
that the evaluation depends on until then; what stands behind the hole is no part of it.  If the
hole cuts the evaluation short, then nothing of that is evaluated, and the context ends as the hole
did (`evalExpression_fillAll`).

There is one constructor of `Layer` for each place in the tree where an expression can stand: the
operand of a prefix operator, either side of an infix operator, the parts of a conditional, the
callee and each argument, each element, each key and each value, what is indexed and the index.  The
value of a binding, of a `return` or of a statement comes in through the blocks of conditionals.

What is held while the hole is evaluated is part of how it is reached (`Approach.Reaches`): operands
that have been evaluated, arguments and entries so far.  It matters as a collection may run in the
hole.
-/

namespace Scriptlet

/-! ## Syntax with a hole -/

/-- A statement without its expression. -/
inductive StatementHole where
  | binding (token : Token) (name : Name) (span : Span)
  | returning (token : Token) (span : Span)
  | expression (token : Token) (span : Span)

/-- A block in which the expression of a statement is left out. -/
structure BlockHole where
  token : Token
  before : List Statement
  statement : StatementHole
  after : List Statement
  span : Span

/-- A node of an expression in which one part is left out. -/
inductive Layer where
  /-- the operand of a prefix operator -/
  | inOperand (token : Token) (operator : PrefixOp)
  | inLeft (token : Token) (operator : InfixOp) (right : Expression)
  | inRight (token : Token) (left : Expression) (operator : InfixOp)
  | inCondition (token : Token) (consequence : Block) (alternative : Option Block)
  | inConsequence (token : Token) (condition : Expression) (block : BlockHole)
      (alternative : Option Block)
  | inAlternative (token : Token) (condition : Expression) (consequence : Block) (block : BlockHole)
  | inCallee (token : Token) (arguments : List Expression)
  | inArgument (token : Token) (callee : Expression) (before after : List Expression)
  | inElement (token : Token) (before after : List Expression)
  /-- what is indexed -/
  | inIndexed (token : Token) (position : Expression)
  | inPosition (token : Token) (left : Expression)
  | inKey (token : Token) (before : List Pair) (value : Expression) (after : List Pair)
  | inValue (token : Token) (before : List Pair) (key : Expression) (after : List Pair)

/-- The statement with its expression. -/
def StatementHole.fill (expression : Expression) : StatementHole → Statement
  | .binding token name span => .binding token name expression span
  | .returning token span => .returning token expression span
  | .expression token span => .expression token expression span

/-- The block with the expression. -/
def BlockHole.fill (expression : Expression) (block : BlockHole) : Block :=
  ⟨block.token, block.before ++ block.statement.fill expression :: block.after, block.span⟩

/-- The node with an expression in the place of the part left out. -/
def Layer.fill (hole : Expression) : Layer → Expression
  | .inOperand token operator => .unary token operator hole
  | .inLeft token operator right => .binary token hole operator right
  | .inRight token left operator => .binary token left operator hole
  | .inCondition token consequence alternative => .conditional token hole consequence alternative
  | .inConsequence token condition block alternative =>
    .conditional token condition (block.fill hole) alternative
  | .inAlternative token condition consequence block =>
    .conditional token condition consequence (some (block.fill hole))
  | .inCallee token arguments => .call token hole arguments
  | .inArgument token callee before after => .call token callee (before ++ hole :: after)
  | .inElement token before after => .array token (before ++ hole :: after)
  | .inIndexed token position => .index token hole position
  | .inPosition token left => .index token left hole
  | .inKey token before value after => .hash token (before ++ ⟨hole, value⟩ :: after)
  | .inValue token before key after => .hash token (before ++ ⟨key, hole⟩ :: after)

/-- An expression inside some layers, the outermost first. -/
def fillAll (layers : List Layer) (hole : Expression) : Expression :=
  layers.foldr (fun layer inner => layer.fill inner) hole

/-! ## What is evaluated before the hole -/

/-- What has to end normally before control comes to a hole. -/
inductive Approach where
  | nothing
  /-- a left operand, or what is indexed -/
  | operand (left : Expression)
  /-- a condition that decides for a branch, and statements of that branch -/
  | branch (condition : Expression) (taken : Bool) (statements : List Statement)
  /-- a callee and the arguments so far -/
  | argument (callee : Expression) (arguments : List Expression)
  | elements (elements : List Expression)
  /-- the entries so far of a hash -/
  | key (pairs : List Pair)
  /-- the entries so far, and one more key -/
  | value (pairs : List Pair) (key : Expression)

/-- What a layer evaluates before its hole. -/
def Layer.approach : Layer → Approach
  | .inOperand .. | .inLeft .. | .inCondition .. | .inCallee .. | .inIndexed .. => .nothing
  | .inRight _ left _ | .inPosition _ left => .operand left
  | .inConsequence _ condition block _ => .branch condition true block.before
  | .inAlternative _ condition _ block => .branch condition false block.before
  | .inArgument _ callee before _ => .argument callee before
  | .inElement _ before _ => .elements before
  | .inKey _ before _ _ => .key before
  | .inValue _ before key _ => .value before key

section

variable (setup : Setup) (invoke : Invoke) (frame : FrameId)

/-- Whether an approach ends normally and control comes to the hole: from what is held and a
machine, with what is held then and the machine that the hole is evaluated on. -/
inductive Approach.Reaches : Approach → Roots → Machine → Roots → Machine → Prop where
  | nothing {roots : Roots} {machine : Machine} : Reaches .nothing roots machine roots machine
  | operand {left : Expression} {roots : Roots} {machine middle : Machine} {value : Value}
      (hleft : evalExpression setup invoke frame roots left machine = .ok value middle) :
      Reaches (.operand left) roots machine (roots.hold value) middle
  | branch {condition : Expression} {taken : Bool} {statements : List Statement} {roots : Roots}
      {machine middle last : Machine} {value : Value} {result : Option Value}
      (hcondition : evalExpression setup invoke frame roots condition machine = .ok value middle)
      (htaken : value.truthy = taken)
      (hstatements : evalStatements setup invoke frame (roots.hold value) none statements middle =
        .ok result last) :
      Reaches (.branch condition taken statements) roots machine
        (result.elim (roots.hold value) (roots.hold value).hold) last
  | argument {callee : Expression} {arguments : List Expression} {roots : Roots}
      {machine middle last : Machine} {value : Value} {values : List Value}
      (hcallee : evalExpression setup invoke frame roots callee machine = .ok value middle)
      (harguments : evalExpressions setup invoke frame (roots.hold value) arguments middle =
        .ok values last) :
      Reaches (.argument callee arguments) roots machine
        ((roots.hold value).holdAll values.reverse) last
  | elements {elements : List Expression} {roots : Roots} {machine middle : Machine}
      {values : List Value}
      (helements : evalExpressions setup invoke frame roots elements machine = .ok values middle) :
      Reaches (.elements elements) roots machine (roots.holdAll values.reverse) middle
  | key {pairs : List Pair} {roots : Roots} {machine middle : Machine} {entries : List Entry}
      (hpairs : evalPairs setup invoke frame roots [] pairs machine = .ok entries middle) :
      Reaches (.key pairs) roots machine (roots.holdAll (Entry.parts entries)) middle
  | value {pairs : List Pair} {key : Expression} {roots : Roots} {machine middle last : Machine}
      {entries : List Entry} {name : Value}
      (hpairs : evalPairs setup invoke frame roots [] pairs machine = .ok entries middle)
      (hkey : evalExpression setup invoke frame (roots.holdAll (Entry.parts entries)) key middle =
        .ok name last) :
      Reaches (.value pairs key) roots machine
        ((roots.holdAll (Entry.parts entries)).hold name) last

/-- The same for the approaches of some layers, one after the other. -/
inductive Approaches : List Approach → Roots → Machine → Roots → Machine → Prop where
  | nil {roots : Roots} {machine : Machine} : Approaches [] roots machine roots machine
  | cons {approach : Approach} {rest : List Approach} {roots inner hole : Roots}
      {machine middle last : Machine}
      (first : approach.Reaches setup invoke frame roots machine inner middle)
      (more : Approaches rest inner middle hole last) :
      Approaches (approach :: rest) roots machine hole last

end

/-! ## Evaluations that are cut short -/

section

variable {setup : Setup} {invoke : Invoke} {frame : FrameId} {roots inner : Roots}
  {machine middle ended : Machine} {hole : Expression} {halt : Halt}

/-- Expressions in a row are cut short by one of them if those before it end normally. -/
theorem evalExpressions_append {before : List Expression} {values : List Value}
    (hbefore : evalExpressions setup invoke frame roots before machine = .ok values middle)
    (hhole : evalExpression setup invoke frame (roots.holdAll values.reverse) hole middle =
      .error halt ended) (after : List Expression) :
    evalExpressions setup invoke frame roots (before ++ hole :: after) machine =
      .error halt ended := by
  induction before generalizing roots machine values with
  | nil =>
    simp only [evalExpressions] at hbefore
    cases hbefore
    simp only [List.nil_append, evalExpressions]
    exact Eval.bind_of_error hhole
  | cons first rest ih =>
    simp only [evalExpressions] at hbefore
    obtain ⟨value, next, hfirst, hmore⟩ := exists_of_bind_ok hbefore
    obtain ⟨others, last, hrest, hpure⟩ := exists_of_bind_ok hmore
    cases hpure
    have hheld : roots.holdAll (value :: others).reverse =
        (roots.hold value).holdAll others.reverse := by
      simp [Roots.holdAll, Roots.hold]
    rw [hheld] at hhole
    simp only [List.cons_append, evalExpressions]
    rw [Eval.bind_of_ok hfirst]
    exact Eval.bind_of_error (ih hrest hhole)

/-- So are the pairs of a hash. -/
theorem evalPairs_append {before : List Pair} {entries result : List Entry} {pair : Pair}
    (hbefore : evalPairs setup invoke frame roots entries before machine = .ok result middle)
    (hpair : evalPair setup invoke frame (roots.holdAll (Entry.parts result)) pair middle =
      .error halt ended) (after : List Pair) :
    evalPairs setup invoke frame roots entries (before ++ pair :: after) machine =
      .error halt ended := by
  induction before generalizing entries machine with
  | nil =>
    simp only [evalPairs] at hbefore
    cases hbefore
    simp only [List.nil_append, evalPairs]
    exact Eval.bind_of_error hpair
  | cons first rest ih =>
    simp only [evalPairs] at hbefore
    obtain ⟨entry, next, hfirst, hrest⟩ := exists_of_bind_ok hbefore
    simp only [List.cons_append, evalPairs]
    rw [Eval.bind_of_ok hfirst]
    exact ih hrest

/-- So are statements. -/
theorem evalStatements_append {before : List Statement} {last result : Option Value}
    {statement : Statement}
    (hbefore : evalStatements setup invoke frame roots last before machine = .ok result middle)
    (hstatement : evalStatement setup invoke frame (result.elim roots roots.hold) statement middle =
      .error halt ended) (after : List Statement) :
    evalStatements setup invoke frame roots last (before ++ statement :: after) machine =
      .error halt ended := by
  induction before generalizing last machine with
  | nil =>
    simp only [evalStatements] at hbefore
    cases hbefore
    simp only [List.nil_append, evalStatements]
    exact Eval.bind_of_error hstatement
  | cons first rest ih =>
    simp only [evalStatements] at hbefore
    obtain ⟨value, next, hfirst, hrest⟩ := exists_of_bind_ok hbefore
    simp only [List.cons_append, evalStatements]
    rw [Eval.bind_of_ok hfirst]
    exact ih hrest

/-- A statement ends as its expression does, if that is cut short. -/
theorem StatementHole.evalStatement_fill (statement : StatementHole)
    (hhole : evalExpression setup invoke frame roots hole machine = .error halt ended) :
    evalStatement setup invoke frame roots (statement.fill hole) machine = .error halt ended := by
  cases statement with
  | binding | returning | expression =>
    simp only [StatementHole.fill, evalStatement]
    exact Eval.bind_of_error hhole

/-- A block ends as the expression of one of its statements does, if the statements before it end
normally and that is cut short. -/
theorem BlockHole.evalBlock_fill (block : BlockHole) {result : Option Value}
    (hbefore : evalStatements setup invoke frame roots none block.before machine =
      .ok result middle)
    (hhole : evalExpression setup invoke frame (result.elim roots roots.hold) hole middle =
      .error halt ended) :
    evalBlock setup invoke frame roots (block.fill hole) machine = .error halt ended := by
  simp only [BlockHole.fill, evalBlock]
  exact evalStatements_append hbefore (block.statement.evalStatement_fill hhole) block.after

/-- A layer ends as its hole does, if control comes to the hole and that is cut short. -/
theorem Layer.evalExpression_fill (layer : Layer)
    (reaches : layer.approach.Reaches setup invoke frame roots machine inner middle)
    (hhole : evalExpression setup invoke frame inner hole middle = .error halt ended) :
    evalExpression setup invoke frame roots (layer.fill hole) machine = .error halt ended := by
  cases layer with
  | inOperand | inLeft | inCondition | inCallee | inIndexed =>
    cases reaches
    simp only [Layer.fill, evalExpression]
    exact Eval.bind_of_error hhole
  | inRight | inPosition =>
    cases reaches with
    | operand hleft =>
      simp only [Layer.fill, evalExpression]
      rw [Eval.bind_of_ok hleft]
      exact Eval.bind_of_error hhole
  -- a block is entered only if its branch is taken
  | inConsequence token condition block alternative =>
    cases reaches with
    | branch hcondition htaken hstatements =>
      simp only [Layer.fill, evalExpression]
      rw [Eval.bind_of_ok hcondition, if_pos htaken]
      exact Eval.bind_of_error (block.evalBlock_fill hstatements hhole)
  | inAlternative token condition consequence block =>
    cases reaches with
    | branch hcondition htaken hstatements =>
      simp only [Layer.fill, evalExpression, evalAlternative]
      rw [Eval.bind_of_ok hcondition, if_neg (Bool.eq_false_iff.mp htaken)]
      exact Eval.bind_of_error (block.evalBlock_fill hstatements hhole)
  -- what is behind the hole is not evaluated
  | inArgument token callee before after =>
    cases reaches with
    | argument hcallee harguments =>
      simp only [Layer.fill, evalExpression]
      rw [Eval.bind_of_ok hcallee]
      exact Eval.bind_of_error (evalExpressions_append harguments hhole after)
  | inElement token before after =>
    cases reaches with
    | elements helements =>
      simp only [Layer.fill, evalExpression]
      exact Eval.bind_of_error (evalExpressions_append helements hhole after)
  | inKey token before value after =>
    cases reaches with
    | key hpairs =>
      simp only [Layer.fill, evalExpression]
      refine Eval.bind_of_error (evalPairs_append hpairs ?_ after)
      simp only [evalPair]
      exact Eval.bind_of_error hhole
  -- the name of the entry has a value, and its own has none
  | inValue token before key after =>
    cases reaches with
    | value hpairs hkey =>
      simp only [Layer.fill, evalExpression]
      refine Eval.bind_of_error (evalPairs_append hpairs ?_ after)
      simp only [evalPair]
      rw [Eval.bind_of_ok hkey]
      exact Eval.bind_of_error hhole

/-- A context ends as its hole does, if control comes to the hole and that is cut short: with the
same halt, on the same machine, whatever stands behind the hole. -/
theorem evalExpression_fillAll {layers : List Layer}
    (reaches : Approaches setup invoke frame (layers.map Layer.approach) roots machine inner middle)
    (hhole : evalExpression setup invoke frame inner hole middle = .error halt ended) :
    evalExpression setup invoke frame roots (fillAll layers hole) machine = .error halt ended := by
  induction layers generalizing roots machine with
  | nil =>
    cases reaches
    exact hhole
  | cons layer layers ih =>
    cases reaches with
    | cons first more => exact layer.evalExpression_fill first (ih more)

end

end Scriptlet
