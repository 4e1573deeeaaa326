import Scriptlet.Proofs.Session.Scopes

set_option autoImplicit false

/-!
# Identity

Component: the object model and the evaluator.  Specification: section 10.5, by which arrays, hashes
and functions are equal if they are the same reference, section 3 on the order and the ownership of
elements, and section 4.4 on `push`, which makes a new array.

Arrays, hashes and functions are compared by identity, and never change.  So an identity stands for
one object at all times (`Holding.Evolves.eq_of_identical`): what is the same to a program has the
same contents.

Each time that an array, a hash or a function is written out and evaluated, and each time that
`push` or `rest` makes an array, the value is a new object (`Holding.Creates`), identical to nothing
that there ever was.  What is looked up, passed, returned or taken out of an array or a hash is what
was put there.

A comparison says whether two values are the same at one time.  That this means something needs two
more facts: that what an identity stands for does not change, and that no identity is given twice.
Both hold along histories, and so along whatever is evaluated, called or asked of a session.
-/

namespace Scriptlet

/-! ## What is the same to a program -/

namespace Value

/-- Every value is the same as itself. -/
theorem identical_self (value : Value) : value.identical value = true := by
  cases value <;> first
    | rfl
    | exact BEq.rfl

/-- It does not matter which of two values comes first. -/
theorem identical_comm (left right : Value) : left.identical right = right.identical left := by
  cases left <;> cases right <;> first
    | rfl
    | exact BEq.comm

/-- Objects that are the same have the same identity. -/
theorem object?_of_identical {left right : Value} {object : ObjectId}
    (hobject : left.object? = some object) (h : left.identical right = true) :
    right.object? = some object := by
  cases left <;> cases hobject <;> cases right <;> first
    | exact congrArg some (eq_of_beq h).symm
    | cases h

/-- Operators on objects compare them. -/
theorem applyInfix_of_object? (operator : InfixOp) {left : Value} {object : ObjectId}
    (hobject : left.object? = some object) (right : Value) :
    applyInfix operator left right = compareValues operator left right := by
  cases left <;> cases hobject <;> cases right <;> rfl

/-- An equality between objects that holds means that they are the same. -/
theorem identical_of_applyInfix {left right : Value} {object : ObjectId}
    (hobject : left.object? = some object)
    (h : applyInfix .equal left right = .ok (.boolean true)) : left.identical right = true := by
  rw [applyInfix_of_object? _ hobject, compareValues] at h
  split at h
  · cases h
  · simpa using h

/-- An object equals itself. -/
theorem applyInfix_self {value : Value} {object : ObjectId}
    (hobject : value.object? = some object) :
    applyInfix .equal value value = .ok (.boolean true) ∧
      applyInfix .notEqual value value = .ok (.boolean false) := by
  rw [applyInfix_of_object? _ hobject, applyInfix_of_object? _ hobject, compareValues,
    compareValues, if_neg (not_not_intro rfl), if_neg (not_not_intro rfl), identical_self]
  exact ⟨rfl, rfl⟩

end Value

section

variable {ready : Heap → Prop} {before after : Holding}

/-- What is the same to a program has the same contents, also if one of the two was there before
anything that has been done since. -/
theorem Holding.Evolves.eq_of_identical (h : before.Evolves ready after)
    (hbefore : before.WellFormed) {left right : Value} (hleft : before.Has left)
    (hright : after.Has right) {object : ObjectId} (hobject : left.object? = some object)
    (hsame : left.identical right = true) : left = right := by
  obtain ⟨events, history⟩ := h
  exact history.eq_of_object? hbefore hleft hright hobject
    (Value.object?_of_identical hobject hsame)

/-! ## New objects -/

/-- An object that is made next is identical to nothing that there ever was. -/
theorem Heap.Makes.not_identical {value other : Value} (new : after.heap.Makes after.roots value)
    (h : before.Evolves ready after) (hbefore : before.WellFormed) (hother : before.Has other) :
    other.identical value = false := by
  obtain ⟨events, history⟩ := h
  refine Bool.eq_false_iff.mpr fun hsame => ?_
  rw [Value.identical_comm] at hsame
  have hobject := Value.object?_of_identical new.object hsame
  have hlt := hbefore.lt_nextObject hother hobject
  exact absurd history.nextObject_le (Nat.not_le.mpr hlt)

end

/-- Whether a value comes to be in the course of a history, at its end, as an object made of what is
held then.  It is identical to nothing that there was at any time until then. -/
def Holding.Creates (start : Holding) (value : Value) (after : Heap) : Prop :=
  ∃ made : Holding, start.Evolves (fun _ => True) made ∧ made.heap.Makes made.roots value ∧
    after = made.heap.newObject.2 ∧ ∀ earlier : Holding, earlier.Reached →
      earlier.Evolves (fun _ => True) made → ∀ other, earlier.Has other →
        other.identical value = false

/-- What is made at the end of a history comes to be in its course. -/
theorem Holding.Creates.of_makes {start made : Holding} {value : Value}
    (h : start.Evolves (fun _ => True) made) (new : made.heap.Makes made.roots value) :
    start.Creates value made.heap.newObject.2 :=
  ⟨made, h, new, rfl, fun _ hearlier hmade _ hother =>
    new.not_identical hmade hearlier.wellFormed hother⟩

/-! ### Literals -/

/-- Whether an expression writes an array, a hash or a function out. -/
def Expression.isObjectLiteral : Expression → Bool
  | .array .. | .hash .. | .function _ => true
  | .identifier _ | .integer .. | .string _ | .boolean .. | .unary .. | .binary .. | .conditional ..
  | .call .. | .index .. => false

section

variable {setup : Setup} {invoke : Invoke} {frame : FrameId} {roots : Roots}
  {machine after : Machine} {value : Value}

/-- The value of a literal is made when all that it is made of has been evaluated. -/
theorem creates_of_literal (calls : invoke.Evolves fun _ => True) {expression : Expression}
    (hliteral : expression.isObjectLiteral = true) (h : machine.heap.WellFormed roots)
    (held : frame ∈ roots.frames)
    (hvalue : evalExpression setup invoke frame roots expression machine = .ok value after) :
    Holding.Creates ⟨machine.heap, roots⟩ value after.heap := by
  cases expression with
  | array token elements =>
    simp only [evalExpression] at hvalue
    obtain ⟨values, middle, hvalues, hnew⟩ := exists_of_bind_ok hvalue
    have hmade := (evolves_expressions calls elements h held).of_ok hvalues
    cases hnew
    exact .of_makes hmade {
      object := rfl
      contents := fun _ hmem => List.mem_append_left _ hmem
      captured := fun _ hid => by cases hid }
  | hash token pairs =>
    simp only [evalExpression] at hvalue
    obtain ⟨entries, middle, hentries, hnew⟩ := exists_of_bind_ok hvalue
    have hmade := (evolves_pairs calls pairs [] h held).of_ok hentries
    cases hnew
    exact .of_makes hmade {
      object := rfl
      contents := fun _ hmem => List.mem_append_left _ hmem
      captured := fun _ hid => by cases hid }
  | function literal =>
    simp only [evalExpression] at hvalue
    cases hvalue
    exact .of_makes (.refl ⟨machine.heap, roots⟩) {
      object := rfl
      contents := fun _ hmem => absurd hmem List.not_mem_nil
      captured := fun _ hid => by cases hid; exact held }
  | identifier | integer | string | boolean | unary | binary | conditional | call | index =>
    cases hliteral

/-! ### New arrays -/

/-- `push` makes a new array of the elements of the old one and one more. -/
theorem run_push (files : Files) {arguments : List Value}
    (hvalue : Intrinsic.push.run files arguments machine = .ok value after) :
    ∃ object elements last, arguments = [.array object elements, last] ∧
      value = .array ⟨machine.heap.nextObject⟩ (elements ++ [last]) ∧
      after = { machine with heap := machine.heap.newObject.2 } := by
  obtain ⟨_, checked, hchecked, hrest⟩ := exists_of_bind_ok hvalue
  obtain ⟨first, last, rfl⟩ := exists_pair_of_checkCount hchecked
  cases hchecked
  obtain ⟨elements, middle, helements, hnew⟩ := exists_of_bind_ok hrest
  cases first with
  | array object contents =>
    cases helements
    cases hnew
    exact ⟨object, elements, last, rfl, rfl, rfl⟩
  | null | integer | boolean | string | hash | function | builtin => cases helements

/-- `rest` makes a new array of all elements but the first. -/
theorem run_rest (files : Files) (object : ObjectId) (first : Value) (others : List Value)
    (machine : Machine) :
    Intrinsic.rest.run files [.array object (first :: others)] machine =
      .ok (.array ⟨machine.heap.nextObject⟩ others)
        { machine with heap := machine.heap.newObject.2 } := rfl

/-- So it is new, with an identity of its own. -/
theorem creates_of_push {files : Files} {arguments : List Value}
    (inHand : ∀ argument ∈ arguments, argument ∈ roots.values)
    (hvalue : Intrinsic.push.run files arguments machine = .ok value after) :
    Holding.Creates ⟨machine.heap, roots⟩ value after.heap := by
  obtain ⟨object, elements, last, rfl, rfl, rfl⟩ := run_push files hvalue
  obtain ⟨harray, hlast⟩ := List.forall_mem_cons.mp inHand
  have htaken : Holding.Evolves (fun _ => True) ⟨machine.heap, roots⟩
      ⟨machine.heap, roots.holdAll elements⟩ :=
    .takeAll fun element hmem => .of_part harray (.inl (.of_mem hmem))
  exact .of_makes htaken {
    object := rfl
    contents := fun content hmem => by
      rcases List.mem_append.mp hmem with hmem | hmem
      · exact List.mem_append_left _ hmem
      · exact List.mem_append_right _ (hlast content hmem)
    captured := fun _ hid => by cases hid }

/-- So is this one. -/
theorem creates_of_rest {files : Files} {object : ObjectId} {first : Value} {others : List Value}
    (held : .array object (first :: others) ∈ roots.values)
    (hvalue : Intrinsic.rest.run files [.array object (first :: others)] machine =
      .ok value after) :
    Holding.Creates ⟨machine.heap, roots⟩ value after.heap := by
  rw [run_rest] at hvalue
  cases hvalue
  have htaken : Holding.Evolves (fun _ => True) ⟨machine.heap, roots⟩
      ⟨machine.heap, roots.holdAll others⟩ :=
    .takeAll fun element hmem => .of_part held (.inl (.of_mem (List.mem_cons_of_mem _ hmem)))
  exact .of_makes htaken {
    object := rfl
    contents := fun _ hmem => List.mem_append_left _ hmem
    captured := fun _ hid => by cases hid }

end

/-! ## Values that are passed on -/

namespace Heap

variable {heap : Heap} {id : FrameId}

/-- Binding parameters leaves what other names are bound to. -/
theorem binding?_bindAll_of_ne {wanted : String} (names : List Name) (values : List Value)
    (hne : ∀ name ∈ names, name.text ≠ wanted) (heap : Heap) :
    (heap.bindAll id names values).binding? wanted id = heap.binding? wanted id := by
  induction names generalizing heap values with
  | nil => simp only [bindAll]
  | cons name names ih =>
    obtain ⟨hname, hnames⟩ := List.forall_mem_cons.mp hne
    cases values with
    | nil => rfl
    | cons value values =>
      rw [bindAll, ih values hnames, binding?_bind_of_name (Ne.symm hname)]

/-- A parameter is bound to the argument in its place, unless another parameter behind it has the
same name. -/
theorem lookup_bindAll (alive : heap.isAlive id = true) {names : List Name} {values : List Value}
    {place : Nat} {name : Name} {value : Value} (hname : names[place]? = some name)
    (hvalue : values[place]? = some value)
    (hlast : ∀ later ∈ names.drop (place + 1), later.text ≠ name.text) :
    (heap.bindAll id names values).lookup id name.text = some value := by
  refine lookup_of_binding? ?_
  induction names generalizing heap values place with
  | nil => cases hname
  | cons first names ih =>
    cases values with
    | nil => cases hvalue
    | cons argument values =>
      rw [bindAll]
      cases place with
      | zero =>
        cases hname
        cases hvalue
        rw [binding?_bindAll_of_ne names values hlast, binding?_bind_self alive]
      | succ place =>
        exact ih ((isAlive_bind heap id id first.text argument).trans alive) hname hvalue hlast

end Heap

/-- A name that no native function has is worth what it is bound to. -/
theorem evalName_of_lookup {setup : Setup} {frame : FrameId} {name : String} {machine : Machine}
    {value : Value} (free : setup.builtins.find? name = none)
    (h : machine.heap.lookup frame name = some value) :
    evalName setup frame name machine = .ok value machine := by
  rw [evalName, free]
  simp only [get_bind_apply, h]
  rfl

section

variable {setup : Setup} {invoke : Invoke} {frame : FrameId} {roots : Roots}
  {machine middle : Machine} {value : Value}

/-- What is bound to a name is what the name is worth after that. -/
theorem evalName_of_binding (alive : middle.heap.isAlive frame = true) (token : Token) {name : Name}
    {expression : Expression} (span : Span) (free : setup.builtins.find? name.text = none)
    (hvalue : evalExpression setup invoke frame roots expression machine = .ok value middle) :
    ∃ after, evalStatement setup invoke frame roots (.binding token name expression span) machine =
        .ok none after ∧ evalName setup frame name.text after = .ok value after := by
  refine ⟨{ middle with heap := middle.heap.bind frame name.text value }, ?_, ?_⟩
  · simp only [evalStatement]
    rw [Eval.bind_of_ok hvalue]
    rfl
  · exact evalName_of_lookup free (Heap.lookup_of_binding? (Heap.binding?_bind_self alive))

/-- A binding stays while nothing is bound in its frame. -/
theorem History.lookup_of_binding? {ready : Heap → Prop} {events : List Event}
    {before after : Holding} (h : History ready events before after) (hbefore : before.WellFormed)
    (unwritten : .bound frame ∉ events) (alive : after.heap.isAlive frame = true) {name : String}
    (hbinding : before.heap.binding? name frame = some value) :
    after.heap.lookup frame name = some value := by
  obtain ⟨new, hnew⟩ := Heap.isAlive_iff.mp alive
  obtain ⟨old, hold, _⟩ := Option.bind_eq_some_iff.mp hbinding
  have hlt := Heap.lt_size_of_isAlive (Heap.isAlive_iff.mpr ⟨old, hold⟩)
  obtain ⟨same, hsame, _, hkept⟩ := h.exists_frame hbefore hlt hnew
  refine Heap.lookup_of_binding? ?_
  rw [Heap.binding?, hnew, hkept unwritten, ← hsame]
  exact hbinding

/-! ### Calls -/

/-- The frame of a call, and the machine in which its body begins. -/
def callMachine (setup : Setup) (roots : Roots) (literal : FunctionLiteral) (captured : FrameId)
    (arguments : List Value) (machine : Machine) : FrameId × Machine :=
  let call := machine.heap.allocate setup.due (roots.holdAll arguments) (some captured)
  (call.1, { machine with heap := call.2.bindAll call.1 literal.parameters arguments })

/-- A call begins with its frame, evaluates the body there, and takes a `return` for its value. -/
theorem invokeWithin_succ (setup : Setup) (depth : Nat) (roots : Roots) (literal : FunctionLiteral)
    (captured : FrameId) (arguments : List Value) (machine : Machine) :
    invokeWithin setup (depth + 1) roots literal captured arguments machine =
      let call := callMachine setup roots literal captured arguments machine
      catchReturn (evalBlock setup (invokeWithin setup depth) call.1 (roots.holdFrame call.1)
        literal.body) call.2 := rfl

/-- In the body of a call a parameter is worth the argument in its place. -/
theorem evalName_parameter (literal : FunctionLiteral) (captured : FrameId)
    {arguments : List Value} {place : Nat} {name : Name}
    (hname : literal.parameters[place]? = some name) (hvalue : arguments[place]? = some value)
    (hlast : ∀ later ∈ literal.parameters.drop (place + 1), later.text ≠ name.text)
    (free : setup.builtins.find? name.text = none) :
    let call := callMachine setup roots literal captured arguments machine
    evalName setup call.1 name.text call.2 = .ok value call.2 := by
  refine evalName_of_lookup free (Heap.lookup_bindAll ?_ hname hvalue hlast)
  exact Heap.isAlive_iff.mpr ⟨_, Heap.frame?_allocate_self ..⟩

/-- A call is worth what its body returns or is worth. -/
theorem catchReturn_of_ends {body : Eval (Option Value)}
    (h : body machine = .error (.returned value) middle ∨ body machine = .ok (some value) middle) :
    catchReturn body machine = .ok value middle := by
  rcases h with h | h <;> rw [catchReturn, h]
  rfl

/-- A `return` carries what its expression is worth. -/
theorem evalStatement_returning (token : Token) {expression : Expression} (span : Span)
    (hvalue : evalExpression setup invoke frame roots expression machine = .ok value middle) :
    evalStatement setup invoke frame roots (.returning token expression span) machine =
      .error (.returned value) middle := by
  simp only [evalStatement]
  rw [Eval.bind_of_ok hvalue]
  rfl

/-- Two expressions that come to one object compare as equal. -/
theorem evalExpression_compare_self {token : Token} {left right : Expression} {after : Machine}
    {object : ObjectId}
    (hleft : evalExpression setup invoke frame roots left machine = .ok value middle)
    (hright : evalExpression setup invoke frame (roots.hold value) right middle =
      .ok value after) (hobject : value.object? = some object) :
    evalExpression setup invoke frame roots (.binary token left .equal right) machine =
        .ok (.boolean true) after ∧
      evalExpression setup invoke frame roots (.binary token left .notEqual right) machine =
        .ok (.boolean false) after := by
  obtain ⟨hequal, hdifferent⟩ := Value.applyInfix_self hobject
  constructor
  · simp only [evalExpression]
    rw [Eval.bind_of_ok hleft, Eval.bind_of_ok hright, hequal]
    rfl
  · simp only [evalExpression]
    rw [Eval.bind_of_ok hleft, Eval.bind_of_ok hright, hdifferent]
    rfl

end

/-! ### Elements and entries -/

/-- An element that was put in an array is taken out of it. -/
theorem applyIndex_array (digest : Digest) (object : ObjectId) {elements : List Value} {n : Int64}
    {element : Value} (hn : 0 ≤ n) (helement : elements[n.toInt.toNat]? = some element) :
    applyIndex digest (.array object elements) (.integer n) = .ok element := by
  rw [applyIndex, elementAt, if_neg (Int64.not_lt.mpr hn), helement]
  rfl

/-- So is the value of an entry, by any value with its key. -/
theorem applyIndex_hash {digest : Digest} (object : ObjectId) {index : Value} {key : HashKey}
    (name value : Value) (entries : List Entry) (hkey : index.hashKey digest = .ok key) :
    applyIndex digest (.hash object (insertEntry ⟨key, name, value⟩ entries)) index =
      .ok value := by
  simp only [applyIndex, hkey]
  rw [findEntry_insertEntry_self ⟨key, name, value⟩ entries]
  rfl

/-! ## All together -/

/-- That values are passed on as they are, so that a program that compares what it passed with what
comes of it finds them the same. -/
structure PassesOn (setup : Setup) : Prop where
  /-- what is bound to a name is what the name is worth -/
  bound : ∀ {depth : Nat} {frame : FrameId} {roots : Roots} {token : Token} {name : Name}
    {expression : Expression} {span : Span} {machine middle : Machine} {value : Value},
    Holding.Reached ⟨machine.heap, roots⟩ → frame ∈ roots.frames →
    setup.builtins.find? name.text = none →
    evalExpression setup (invokeWithin setup depth) frame roots expression machine =
      .ok value middle →
    ∃ after, evalStatement setup (invokeWithin setup depth) frame roots
        (.binding token name expression span) machine = .ok none after ∧
      evalName setup frame name.text after = .ok value after
  /-- and stays so while nothing is bound in the frame -/
  kept : ∀ {events : List Event} {before after : Holding} {frame : FrameId} {name : String}
    {value : Value}, before.Reached → History (fun _ => True) events before after →
    .bound frame ∉ events → after.heap.isAlive frame = true →
    before.heap.binding? name frame = some value → after.heap.lookup frame name = some value
  /-- in the body of a call a parameter is worth the argument in its place -/
  argument : ∀ {roots : Roots} {literal : FunctionLiteral} {captured : FrameId}
    {arguments : List Value} {machine : Machine} {place : Nat} {name : Name} {value : Value},
    literal.parameters[place]? = some name → arguments[place]? = some value →
    (∀ later ∈ literal.parameters.drop (place + 1), later.text ≠ name.text) →
    setup.builtins.find? name.text = none →
    let call := callMachine setup roots literal captured arguments machine
    evalName setup call.1 name.text call.2 = .ok value call.2
  /-- a `return` ends in the value of its expression -/
  returned : ∀ {depth : Nat} {frame : FrameId} {roots : Roots} {token : Token}
    {expression : Expression} {span : Span} {machine after : Machine} {value : Value},
    evalExpression setup (invokeWithin setup depth) frame roots expression machine =
      .ok value after →
    evalStatement setup (invokeWithin setup depth) frame roots (.returning token expression span)
      machine = .error (.returned value) after
  /-- a call is worth what its body returns or is worth -/
  result : ∀ {depth : Nat} {roots : Roots} {literal : FunctionLiteral} {captured : FrameId}
    {arguments : List Value} {machine after : Machine} {value : Value},
    let call := callMachine setup roots literal captured arguments machine
    let body := evalBlock setup (invokeWithin setup depth) call.1 (roots.holdFrame call.1)
      literal.body
    body call.2 = .error (.returned value) after ∨ body call.2 = .ok (some value) after →
    invokeWithin setup (depth + 1) roots literal captured arguments machine = .ok value after
  /-- what is found under an index is the element in its place -/
  element : ∀ {object : ObjectId} {elements : List Value} {n : Int64} {value : Value},
    0 ≤ n → elements[n.toInt.toNat]? = some value →
    applyIndex setup.digest (.array object elements) (.integer n) = .ok value
  /-- what is found under a key is the value that was put there -/
  entry : ∀ {object : ObjectId} {index name value : Value} {key : HashKey} {entries : List Entry},
    index.hashKey setup.digest = .ok key →
    applyIndex setup.digest (.hash object (insertEntry ⟨key, name, value⟩ entries)) index =
      .ok value
  first : ∀ {object : ObjectId} {value : Value} {others : List Value} {machine : Machine},
    Intrinsic.first.run setup.files [.array object (value :: others)] machine = .ok value machine
  last : ∀ {object : ObjectId} {value : Value} {others : List Value} {machine : Machine},
    Intrinsic.last.run setup.files [.array object (others ++ [value])] machine = .ok value machine
  /-- what is passed on is identical to what was passed, and an object compares as equal to it -/
  same : ∀ {depth : Nat} {frame : FrameId} {roots : Roots} {token : Token}
    {left right : Expression} {machine middle after : Machine} {value : Value},
    evalExpression setup (invokeWithin setup depth) frame roots left machine = .ok value middle →
    evalExpression setup (invokeWithin setup depth) frame (roots.hold value) right middle =
      .ok value after →
    value.identical value = true ∧ ∀ object, value.object? = some object →
      evalExpression setup (invokeWithin setup depth) frame roots
          (.binary token left .equal right) machine = .ok (.boolean true) after ∧
        evalExpression setup (invokeWithin setup depth) frame roots
          (.binary token left .notEqual right) machine = .ok (.boolean false) after

/-- The language passes values on, whatever the setup. -/
theorem passesOn (setup : Setup) : PassesOn setup where
  bound := fun {depth frame roots token _ expression span machine _ _} hreached held free
      hvalue => by
    have hexpression : (evalExpression setup (invokeWithin setup depth) frame roots
        expression).Evolves (fun _ => True) (fun value => [value]) roots roots machine :=
      evolves_expression (evolves_invokeWithin setup.heeds_true depth) expression
        hreached.wellFormed held
    have halive := (hexpression.wellFormed_of_ok hreached.wellFormed hvalue).held_alive _ held
    exact evalName_of_binding halive token span free hvalue
  kept := fun hreached history hunwritten halive hbinding =>
    history.lookup_of_binding? hreached.wellFormed hunwritten halive hbinding
  argument := fun {_ literal captured _ _ _ _ _} hname hvalue hlast free =>
    evalName_parameter literal captured hname hvalue hlast free
  returned := fun hvalue => evalStatement_returning _ _ hvalue
  result := fun h => (invokeWithin_succ ..).trans (catchReturn_of_ends h)
  element := fun hn helement => applyIndex_array _ _ hn helement
  entry := fun hkey => applyIndex_hash _ _ _ _ hkey
  first := rfl
  last := fun {object value others machine} => by
    change EStateM.Result.ok ((others ++ [value]).getLast?.getD .null) machine = _
    rw [List.getLast?_concat, Option.getD_some]
  same := fun {_ _ _ _ _ _ _ _ _ value} hleft hright =>
    ⟨value.identical_self, fun _ hobject => evalExpression_compare_self hleft hright hobject⟩

/-- Identity is coherent, in every heap that can be reached and whatever is done next.

What is the same to a program has the same contents, at one time as at different ones.  The value of
an array, a hash or a function that is written out, and what `push` and `rest` make, is identical to
nothing that there was at any time before.  And what is bound, passed, returned or taken out of an
array or a hash comes back as it is, and compares as the same.

All that is evaluated, called or asked of a session is a history, and leads from what can be reached
to what can be reached. -/
theorem identity_coherent :
    (∀ {before after : Holding}, before.Reached → before.Evolves (fun _ => True) after →
      ∀ {left right : Value} {object : ObjectId}, before.Has left → after.Has right →
        left.object? = some object →
        left.identical right = true ∨ applyInfix .equal left right = .ok (.boolean true) →
        left = right) ∧
    (∀ {setup : Setup} {depth : Nat} {frame : FrameId} {roots : Roots} {machine after : Machine}
      {expression : Expression} {value : Value}, Holding.Reached ⟨machine.heap, roots⟩ →
      frame ∈ roots.frames → expression.isObjectLiteral = true →
      evalExpression setup (invokeWithin setup depth) frame roots expression machine =
        .ok value after →
      Holding.Creates ⟨machine.heap, roots⟩ value after.heap) ∧
    (∀ {files : Files} {roots : Roots} {machine after : Machine} {value : Value},
      (∀ arguments : List Value, (∀ argument ∈ arguments, argument ∈ roots.values) →
        Intrinsic.push.run files arguments machine = .ok value after →
        Holding.Creates ⟨machine.heap, roots⟩ value after.heap) ∧
      ∀ object first others, .array object (first :: others) ∈ roots.values →
        Intrinsic.rest.run files [.array object (first :: others)] machine = .ok value after →
        Holding.Creates ⟨machine.heap, roots⟩ value after.heap) ∧
    (∀ setup : Setup, PassesOn setup) ∧
    (∀ {setup : Setup} {depth : Nat} {frame : FrameId} {roots : Roots} {machine : Machine},
      Holding.Reached ⟨machine.heap, roots⟩ →
      (frame ∈ roots.frames → ∀ expression,
        (evalExpression setup (invokeWithin setup depth) frame roots expression).Evolves
          (fun _ => True) (fun value => [value]) roots roots machine) ∧
      (∀ callee ∈ roots.values, ∀ arguments, (∀ argument ∈ arguments, argument ∈ roots.values) →
        (applyCallable setup roots callee arguments).Evolves (fun _ => True) (fun value => [value])
          roots roots machine) ∧
      ∀ operation : Intrinsic, ∀ arguments, (∀ argument ∈ arguments, argument ∈ roots.values) →
        (operation.run setup.files arguments).Evolves (fun _ => True) (fun value => [value])
          roots roots machine) ∧
    ∀ (setup : Setup) (console : Console) (commands more : List Command),
      let session := (Session.performAll commands (Session.start setup console)).2
      (session.holding []).Reached ∧
        (session.holding []).Evolves (fun _ => True) ((session.performAll more).2.holding []) := by
  refine ⟨?_, ?_, ?_, passesOn, ?_, ?_⟩
  · intro before after hreached h left right object hleft hright hobject hsame
    refine h.eq_of_identical hreached.wellFormed hleft hright hobject ?_
    exact hsame.elim id (Value.identical_of_applyInfix hobject)
  · intro setup depth frame roots machine after expression value hreached held hliteral hvalue
    exact creates_of_literal (evolves_invokeWithin setup.heeds_true depth) hliteral
      hreached.wellFormed held hvalue
  · intro files roots machine after value
    exact ⟨fun arguments inHand hvalue => creates_of_push inHand hvalue,
      fun object first others held hvalue => creates_of_rest held hvalue⟩
  · intro setup depth frame roots machine hreached
    have hcalls := evolves_invokeWithin setup.heeds_true depth
    refine ⟨fun held expression => ?_, fun callee hcallee arguments inHand => ?_,
      fun operation arguments inHand => ?_⟩
    · exact evolves_expression hcalls expression hreached.wellFormed held
    · have hinHand : ((roots.hold callee).holdAll arguments).Within roots := by
        refine ⟨fun _ h => h, fun value hvalue => ?_⟩
        rcases List.mem_append.mp hvalue with hvalue | hvalue
        · exact inHand value hvalue
        · rcases List.mem_cons.mp hvalue with rfl | hvalue
          · exact hcallee
          · exact hvalue
      exact .of_start (.keep hinHand) (evolves_applyCallable setup.heeds_true
        (Heap.WellFormed.of_within hreached.wellFormed hinHand))
    · exact evolves_intrinsic setup.files operation hreached.wellFormed inHand (.refl roots)
  · intro setup console commands more
    have hstart := sound_start setup.heeds_true console
    have hsession := (evolves_performAll commands hstart).sound hstart
    exact ⟨reached_session setup console commands, (evolves_performAll more hsession).history⟩

/-- A setup without files. -/
def bareSetup : Setup := .standard ⟨fun _ => false, fun _ => .error .notFound⟩ 1

/-- A machine with one frame, and what is held of it. -/
def oneFrame : Holding := ⟨(Heap.empty.newFrame none).2, ⟨[⟨0⟩], []⟩⟩

/-- It comes about by making the frame. -/
theorem reached_oneFrame : oneFrame.Reached :=
  .move (.frame none trivial fun _ h => by cases h)

/-- A machine with one frame and an array, which are held. -/
def oneArray : Machine := ⟨oneFrame.heap.newObject.2, default, []⟩

/-- It comes about by making the array in the frame. -/
theorem reached_oneArray : Holding.Reached ⟨oneArray.heap, ⟨[⟨0⟩], [.array ⟨0⟩ []]⟩⟩ :=
  reached_oneFrame.trans (.move (.object {
    object := rfl
    contents := fun _ hmem => absurd hmem List.not_mem_nil
    captured := fun _ hid => by cases hid }))

/-- An array that is written out is not the same as one that was written out before it. -/
theorem identity_coherent_arrays :
    Holding.Creates ⟨oneArray.heap, ⟨[⟨0⟩], [.array ⟨0⟩ []]⟩⟩ (.array ⟨1⟩ [])
      oneArray.heap.newObject.2 := by
  have hvalue : evalExpression bareSetup (invokeWithin bareSetup 1) ⟨0⟩ ⟨[⟨0⟩], [.array ⟨0⟩ []]⟩
      (.array default []) oneArray =
        .ok (.array ⟨1⟩ []) ⟨oneArray.heap.newObject.2, default, []⟩ := rfl
  exact identity_coherent.2.1 reached_oneArray List.mem_cons_self rfl hvalue

end Scriptlet
