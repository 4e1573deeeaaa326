import Scriptlet.Proofs.Simulation.Intrinsic

set_option autoImplicit false

/-!
# Evaluations end alike

Component: the evaluator.  Specification: section 4.3, with every rule of its table.

If a relation between two machines survives the operations of a `Simulation`, it survives whole
evaluations: of expressions and statements by induction on the tree, and of calls by induction on
how deep they may still be nested.  What is held on either side is what the evaluation lists as
its roots, so that a collection may happen wherever a frame is made.

There is one lemma for each kind of syntax, and each says that two evaluations of it follow each
other (`Simulation.Follows`): from related machines and linked frames they come to related machines
with results that may be held, or they are cut short alike.  The order in which the parts are
evaluated is the order in which what is held grows.
-/

namespace Scriptlet

namespace Simulation

variable {left right : Setup} {aside aside' : Roots} {sim : Simulation left right aside aside'}

/-! ## Names, calls and operators -/

variable {invoke invoke' : Invoke}

/-- Whether calls agree when their function, the frame it was made in, and their arguments may be
held. -/
def Calls (sim : Simulation left right aside aside') (invoke invoke' : Invoke) : Prop :=
  ∀ {held : Held} {l r : Machine} (literal : FunctionLiteral) {id id' : FrameId}
    {arguments others : List Value}, arguments.length = others.length →
    sim.Alike ((held.holdAll arguments others).holdFrame id id') l r →
    sim.Agree held (sim.Valued held) (invoke (held.left.and aside) literal id arguments l)
      (invoke' (held.right.and aside') literal id' others r)

/-- A name stands for the same native function, or for what linked frames look up. -/
theorem agree_evalName {held : Held} {l r : Machine} {id id' : FrameId} (h : sim.Alike held l r)
    (hframe : (id, id') ∈ held.frames) (name : String) :
    sim.Agree held (sim.Valued held) (evalName left id name l) (evalName right id' name r) := by
  unfold evalName
  rw [← sim.builtins_eq]
  cases hname : left.builtins.find? name with
  | some builtin => exact .ok (.of_scalar h rfl)
  | none =>
    obtain ⟨link, h⟩ := h
    have hlookup := sim.lookup name hname h hframe
    dsimp only [Bind.bind, EStateM.bind, get, getThe, MonadStateOf.get, EStateM.get]
    generalize l.heap.lookup id name = found, r.heap.lookup id' name = found' at hlookup ⊢
    cases hlookup with
    | none => exact .fault _ ⟨link, h⟩
    | some h => exact .ok ⟨link, h⟩

/-- Calls agree; what was called is still held afterwards. -/
theorem agree_applyValue (calls : sim.Calls invoke invoke') {held : Held} {l r : Machine}
    {callee callee' : Value} {arguments others : List Value}
    (h : sim.Listed (held.hold callee callee') arguments others l r) :
    sim.Agree (held.hold callee callee') (sim.Valued (held.hold callee callee'))
      (applyValue left invoke (held.left.and aside) callee arguments l)
      (applyValue right invoke' (held.right.and aside') callee' others r) := by
  obtain ⟨hlength, link, hrelated⟩ := h
  have halike : sim.Alike (held.hold callee callee') l r :=
    ⟨link, sim.weaken hrelated (Held.within_holdAll _ _ _)⟩
  have hcallee : (callee, callee') ∈ ((held.hold callee callee').holdAll arguments others).values :=
    List.mem_append.mpr (.inr List.mem_cons_self)
  have hmatch := sim.values hrelated _ hcallee
  cases hmatch with
  | @function object object' id id' literal same captured =>
    have hframe : sim.Alike _ l r :=
      ⟨link, sim.holdFrame hrelated hcallee ⟨_, .self _, rfl⟩ ⟨_, .self _, rfl⟩ captured⟩
    exact calls literal hlength hframe
  | builtin builtin =>
    rw [applyValue, applyValue, sim.files_eq]
    exact agree_run right.files builtin.operation ⟨hlength, link, hrelated⟩
  | null | integer | boolean | string | array | hash => exact .fault _ halike

/-- A prefix operator does not tell matching values apart. -/
theorem agree_applyPrefix {held : Held} {l r : Machine} (operator : PrefixOp)
    {value other : Value} (h : sim.Valued held value other l r) :
    sim.Agree held (sim.Valued held) (Eval.ofExcept (applyPrefix operator value) l)
      (Eval.ofExcept (applyPrefix operator other) r) := by
  obtain ⟨link, h⟩ := h
  rw [← applyPrefix_match operator (sim.values h (value, other) List.mem_cons_self)]
  exact agree_ofExcept ⟨link, sim.weaken h (held.within_hold _ _)⟩
    fun _ hvalue => object?_applyPrefix hvalue

/-- Nor does an infix operator. -/
theorem agree_applyInfix {held : Held} {l r : Machine} (operator : InfixOp)
    {first first' second second' : Value}
    (h : sim.Valued (held.hold first first') second second' l r) :
    sim.Agree held (sim.Valued held) (Eval.ofExcept (applyInfix operator first second) l)
      (Eval.ofExcept (applyInfix operator first' second') r) := by
  obtain ⟨link, h⟩ := h
  have hfirst := sim.values h (first, first') (List.mem_cons_of_mem _ List.mem_cons_self)
  have hsecond := sim.values h (second, second') List.mem_cons_self
  rw [← applyInfix_match operator hfirst hsecond]
  exact agree_ofExcept ⟨link, sim.weaken h ((held.within_hold _ _).trans (Held.within_hold _ _ _))⟩
    fun _ hvalue => object?_applyInfix hvalue

/-- Nor does indexing. -/
theorem agree_applyIndex {held : Held} {l r : Machine} {whole whole' index index' : Value}
    (h : sim.Valued (held.hold whole whole') index index' l r) :
    sim.Agree held (sim.Valued held) (Eval.ofExcept (applyIndex left.digest whole index) l)
      (Eval.ofExcept (applyIndex right.digest whole' index') r) := by
  obtain ⟨link, h⟩ := h
  have hwhole := sim.values h (whole, whole') (List.mem_cons_of_mem _ List.mem_cons_self)
  have hindex := sim.values h (index, index') List.mem_cons_self
  have hwithin : held.Within ((held.hold whole whole').hold index index') :=
    (held.within_hold _ _).trans (Held.within_hold _ _ _)
  rw [sim.digest_eq]
  have hresult := applyIndex_match right.digest hwhole hindex
  generalize heq : applyIndex right.digest whole index = result,
    heq' : applyIndex right.digest whole' index' = result' at hresult
  cases hresult with
  | error fault => exact .fault fault ⟨link, sim.weaken h hwithin⟩
  | @ok value other hmatch =>
    have hmade : ∀ {whole value : Value} {values : List Value}, whole ∈ values →
        (whole.Part value ∨ value = .null) → value.MadeOf values := by
      rintro whole value values hmem (hpart | rfl)
      · exact .of_part hmem hpart
      · exact .of_object?_none rfl
    have hvalue := sim.hold h hmatch
      (hmade (List.mem_cons_of_mem _ List.mem_cons_self) (part_of_applyIndex heq))
      (hmade (List.mem_cons_of_mem _ List.mem_cons_self) (part_of_applyIndex heq'))
    exact .ok ⟨link, sim.weaken hvalue (hwithin.hold _ _)⟩

/-! ## Hash literals -/

/-- Of entries with the same keys, those after an insertion are in step with those before. -/
theorem keys_insertEntry {entry entry' : Entry} {entries others : List Entry}
    (h : entry.key = entry'.key) (hs : entries.map Entry.key = others.map Entry.key) :
    (insertEntry entry entries).map Entry.key = (insertEntry entry' others).map Entry.key := by
  induction entries generalizing others with
  | nil =>
    cases others with
    | nil => exact congrArg (fun key => [key]) h
    | cons => cases hs
  | cons first rest ih =>
    cases others with
    | nil => cases hs
    | cons first' rest' =>
      obtain ⟨hfirst, hrest⟩ := List.cons.inj hs
      rw [insertEntry, insertEntry, ← h, ← hfirst]
      split
      · exact congrArg₂ List.cons h hrest
      · split
        · exact congrArg₂ List.cons h hs
        · exact congrArg₂ List.cons hfirst (ih hrest)

/-- What stands side by side after an insertion did so before, or is part of what was inserted. -/
theorem mem_zip_insertEntry {entry entry' : Entry} {entries others : List Entry}
    (h : entry.key = entry'.key) (hs : entries.map Entry.key = others.map Entry.key)
    {pair : Value × Value}
    (hpair : pair ∈ (Entry.parts (insertEntry entry entries)).zip
      (Entry.parts (insertEntry entry' others))) :
    pair ∈ [(entry.name, entry'.name), (entry.value, entry'.value)] ∨
      pair ∈ (Entry.parts entries).zip (Entry.parts others) := by
  have hcons : ∀ (first first' : Entry) (entries others : List Entry),
      (Entry.parts (first :: entries)).zip (Entry.parts (first' :: others)) =
        [(first.name, first'.name), (first.value, first'.value)] ++
          (Entry.parts entries).zip (Entry.parts others) := fun _ _ _ _ => rfl
  induction entries generalizing others with
  | nil =>
    cases others with
    | nil => exact .inl hpair
    | cons => cases hs
  | cons first rest ih =>
    cases others with
    | nil => cases hs
    | cons first' rest' =>
      obtain ⟨hfirst, hrest⟩ := List.cons.inj hs
      rw [insertEntry, insertEntry, ← h, ← hfirst] at hpair
      split at hpair
      · rw [hcons] at hpair ⊢
        exact (List.mem_append.mp hpair).imp id fun h => List.mem_append.mpr (.inr h)
      · split at hpair
        · rw [hcons] at hpair
          exact List.mem_append.mp hpair
        · rw [hcons] at hpair ⊢
          rcases List.mem_append.mp hpair with hpair | hpair
          · exact .inr (List.mem_append.mpr (.inl hpair))
          · exact (ih hrest hpair).imp id fun h => List.mem_append.mpr (.inr h)

/-- An entry may be inserted. -/
theorem Entered.insertEntry {held : Held} {l r : Machine} {entry entry' : Entry}
    {entries others : List Entry} (hs : entries.map Entry.key = others.map Entry.key)
    (h : sim.Entered (held.holdAll (Entry.parts entries) (Entry.parts others)) [entry] [entry'] l r) :
    sim.Entered held (insertEntry entry entries) (insertEntry entry' others) l r := by
  obtain ⟨hkey, halike⟩ := h
  have hkey : entry.key = entry'.key := (List.cons.inj hkey).1
  refine ⟨keys_insertEntry hkey hs, halike.weaken ?_⟩
  refine ((held.within_holdAll _ _).trans (Held.within_holdAll _ _ _)).of_holdAll fun pair hpair => ?_
  rcases mem_zip_insertEntry hkey hs hpair with hpair | hpair
  · exact List.mem_append.mpr (.inl hpair)
  · exact List.mem_append.mpr (.inr (List.mem_append.mpr (.inl hpair)))

/-! ## Expressions and statements -/

/-- Whether two evaluations agree in linked frames, wherever they start. -/
def Follows (sim : Simulation left right aside aside') {α : Type}
    (post : Held → α → α → Machine → Machine → Prop) (run run' : FrameId → Roots → Eval α) : Prop :=
  ∀ (held : Held) (l r : Machine) (id id' : FrameId), sim.Alike held l r → (id, id') ∈ held.frames →
    sim.Agree held (post held) (run id (held.left.and aside) l) (run' id' (held.right.and aside') r)

mutual

/-- Expressions of every kind. -/
theorem follows_expression (calls : sim.Calls invoke invoke') : (expression : Expression) →
    sim.Follows sim.Valued (evalExpression left invoke · · expression)
      (evalExpression right invoke' · · expression)
  | .identifier name => fun _ _ _ _ _ h hframe => by
    simp only [evalExpression]
    exact agree_evalName h hframe name.text
  | .integer _ value | .string token | .boolean _ value => fun _ _ _ _ _ h _ => by
    simp only [evalExpression]
    exact .ok (.of_scalar h rfl)
  | .unary _ operator operand => fun held _ _ _ _ h hframe => by
    simp only [evalExpression]
    refine (follows_expression calls operand _ _ _ _ _ h hframe).bind (.refl held) fun _ _ _ _ h => ?_
    exact agree_applyPrefix operator h
  | .binary _ first operator second => fun held _ _ _ _ h hframe => by
    simp only [evalExpression]
    refine (follows_expression calls first _ _ _ _ _ h hframe).bind (.refl held) fun _ _ _ _ h => ?_
    refine (follows_expression calls second _ _ _ _ _ h hframe).bind (held.within_hold _ _)
      fun _ _ _ _ h => ?_
    exact agree_applyInfix operator h
  | .conditional _ condition consequence alternative => fun held _ _ _ _ h hframe => by
    simp only [evalExpression]
    refine (follows_expression calls condition _ _ _ _ _ h hframe).bind (.refl held)
      fun value other _ _ h => ?_
    have htruthy : value.truthy = other.truthy := by
      obtain ⟨link, h⟩ := h
      exact (sim.values h (value, other) List.mem_cons_self).truthy
    rw [← htruthy]
    split
    · refine (follows_block calls consequence _ _ _ _ _ h hframe).bind (held.within_hold _ _)
        fun _ _ _ _ h => ?_
      exact .ok (h.getD.weaken (held.within_hold _ _))
    · refine (follows_alternative calls alternative _ _ _ _ _ h hframe).bind (held.within_hold _ _)
        fun _ _ _ _ h => ?_
      exact .ok (h.getD.weaken (held.within_hold _ _))
  | .function literal => fun _ _ _ _ _ h hframe => by
    simp only [evalExpression]
    exact agree_newFunction h hframe literal
  | .call _ callee arguments => fun held _ _ _ _ h hframe => by
    simp only [evalExpression]
    refine (follows_expression calls callee _ _ _ _ _ h hframe).bind (.refl held) fun _ _ _ _ h => ?_
    refine (follows_expressions calls arguments _ _ _ _ _ h hframe).bind (held.within_hold _ _)
      fun _ _ _ _ h => ?_
    exact (agree_applyValue calls h).weaken (held.within_hold _ _)
      fun _ _ _ _ h => h.weaken (held.within_hold _ _)
  | .array _ elements => fun held _ _ _ _ h hframe => by
    simp only [evalExpression]
    refine (follows_expressions calls elements _ _ _ _ _ h hframe).bind (.refl held) fun _ _ _ _ h => ?_
    exact agree_newArray h
  | .index _ whole position => fun held _ _ _ _ h hframe => by
    simp only [evalExpression]
    refine (follows_expression calls whole _ _ _ _ _ h hframe).bind (.refl held) fun _ _ _ _ h => ?_
    refine (follows_expression calls position _ _ _ _ _ h hframe).bind (held.within_hold _ _)
      fun _ _ _ _ h => ?_
    exact agree_applyIndex h
  | .hash _ pairs => fun held _ _ _ _ h hframe => by
    simp only [evalExpression]
    have hnone : sim.Entered held [] [] _ _ := ⟨rfl, h⟩
    refine (follows_pairs calls pairs hnone hframe).bind (.refl held) fun _ _ _ _ h => ?_
    exact agree_newHash h

/-- Expressions in a row. -/
theorem follows_expressions (calls : sim.Calls invoke invoke') : (expressions : List Expression) →
    sim.Follows sim.Listed (evalExpressions left invoke · · expressions)
      (evalExpressions right invoke' · · expressions)
  | [] => fun _ _ _ _ _ h _ => by
    simp only [evalExpressions]
    exact .ok ⟨rfl, h⟩
  | expression :: rest => fun held _ _ _ _ h hframe => by
    simp only [evalExpressions]
    refine (follows_expression calls expression _ _ _ _ _ h hframe).bind (.refl held) fun _ _ _ _ h => ?_
    refine (follows_expressions calls rest _ _ _ _ _ h hframe).bind (held.within_hold _ _)
      fun _ _ _ _ ⟨hlength, halike⟩ => ?_
    refine .ok ⟨congrArg (· + 1) hlength, halike.weaken ?_⟩
    refine ((held.within_hold _ _).trans (Held.within_holdAll _ _ _)).of_holdAll fun pair hpair => ?_
    rcases List.mem_cons.mp hpair with rfl | hpair
    · exact List.mem_append.mpr (.inr List.mem_cons_self)
    · exact List.mem_append.mpr (.inl hpair)

/-- Pairs of a hash literal, behind entries so far. -/
theorem follows_pairs (calls : sim.Calls invoke invoke') : (pairs : List Pair) →
    ∀ {held : Held} {l r : Machine} {id id' : FrameId} {entries others : List Entry},
      sim.Entered held entries others l r → (id, id') ∈ held.frames →
      sim.Agree held (sim.Entered held)
        (evalPairs left invoke id (held.left.and aside) entries pairs l)
        (evalPairs right invoke' id' (held.right.and aside') others pairs r)
  | [], _, _, _, _, _, _, _, h, _ => by
    simp only [evalPairs]
    exact .ok h
  | pair :: rest, held, _, _, _, _, entries, others, ⟨hkeys, halike⟩, hframe => by
    simp only [evalPairs]
    have hlength := length_parts hkeys
    rw [Roots.holdAll_and, Roots.holdAll_and, ← Held.left_holdAll hlength,
      ← Held.right_holdAll hlength]
    refine (follows_pair calls pair _ _ _ _ _ halike hframe).bind (held.within_holdAll _ _)
      fun _ _ _ _ h => ?_
    exact follows_pairs calls rest (Entered.insertEntry hkeys h) hframe

/-- A pair, whose name decides the key in both runs. -/
theorem follows_pair (calls : sim.Calls invoke invoke') : (pair : Pair) →
    sim.Follows (fun held entry other => sim.Entered held [entry] [other])
      (evalPair left invoke · · pair) (evalPair right invoke' · · pair)
  | ⟨name, value⟩ => fun held _ _ _ _ h hframe => by
    simp only [evalPair]
    refine (follows_expression calls name _ _ _ _ _ h hframe).bind (.refl held) fun key other _ _ h => ?_
    refine (follows_expression calls value _ _ _ _ _ h hframe).bind (held.within_hold _ _)
      fun first first' _ _ h => ?_
    obtain ⟨link, h⟩ := h
    have hmatch : key.Match link other :=
      sim.values h (key, other) (List.mem_cons_of_mem _ List.mem_cons_self)
    have hwithin := (held.within_hold key other).trans (Held.within_hold _ first first')
    rw [sim.digest_eq, ← hmatch.hashKey right.digest]
    cases key.hashKey right.digest with
    | error fault => exact .fault fault ⟨link, sim.weaken h hwithin⟩
    | ok hash =>
      refine .ok ⟨rfl, link, sim.weaken h (hwithin.of_holdAll fun pair hpair => ?_)⟩
      rcases List.mem_cons.mp hpair with rfl | hpair
      · exact List.mem_cons_of_mem _ List.mem_cons_self
      · rw [List.mem_singleton.mp hpair]
        exact List.mem_cons_self

/-- What is behind `else`, or nothing. -/
theorem follows_alternative (calls : sim.Calls invoke invoke') : (alternative : Option Block) →
    sim.Follows sim.Optional (evalAlternative left invoke · · alternative)
      (evalAlternative right invoke' · · alternative)
  | none => fun _ _ _ _ _ h _ => by
    simp only [evalAlternative]
    exact .ok (.none h)
  | some block => fun _ _ _ _ _ h hframe => by
    simp only [evalAlternative]
    exact follows_block calls block _ _ _ _ _ h hframe

/-- A block is its statements. -/
theorem follows_block (calls : sim.Calls invoke invoke') : (block : Block) →
    sim.Follows sim.Optional (evalBlock left invoke · · block) (evalBlock right invoke' · · block)
  | ⟨_, statements, _⟩ => fun _ _ _ _ _ h hframe => by
    simp only [evalBlock]
    exact follows_statements calls statements (.none h) hframe

/-- Statements one after the other, each of which lets go of the value before. -/
theorem follows_statements (calls : sim.Calls invoke invoke') : (statements : List Statement) →
    ∀ {held : Held} {l r : Machine} {id id' : FrameId} {last last' : Option Value},
      sim.Optional held last last' l r → (id, id') ∈ held.frames →
      sim.Agree held (sim.Optional held)
        (evalStatements left invoke id (held.left.and aside) last statements l)
        (evalStatements right invoke' id' (held.right.and aside') last' statements r)
  | [], _, _, _, _, _, _, _, h, _ => by
    simp only [evalStatements]
    exact .ok h
  | statement :: rest, held, _, _, _, _, _, _, h, hframe => by
    simp only [evalStatements]
    cases h with
    | none h =>
      refine (follows_statement calls statement _ _ _ _ _ h hframe).bind (.refl held) fun _ _ _ _ h => ?_
      exact follows_statements calls rest h hframe
    | some h =>
      refine (follows_statement calls statement _ _ _ _ _ h hframe).bind (held.within_hold _ _)
        fun _ _ _ _ h => ?_
      exact follows_statements calls rest (h.weaken (held.within_hold _ _)) hframe

/-- A binding binds matching values in linked frames. -/
theorem follows_statement (calls : sim.Calls invoke invoke') : (statement : Statement) →
    sim.Follows sim.Optional (evalStatement left invoke · · statement)
      (evalStatement right invoke' · · statement)
  | .binding _ name value _ => fun held _ _ _ _ h hframe => by
    simp only [evalStatement]
    refine (follows_expression calls value _ _ _ _ _ h hframe).bind (.refl held) fun _ _ _ _ h => ?_
    obtain ⟨link, h⟩ := h
    exact .ok (.none ⟨link, sim.bind name.text h hframe⟩)
  | .returning _ value _ => fun held _ _ _ _ h hframe => by
    simp only [evalStatement]
    refine (follows_expression calls value _ _ _ _ _ h hframe).bind (.refl held) fun _ _ _ _ h => ?_
    exact .returned h
  | .expression _ value _ => fun held _ _ _ _ h hframe => by
    simp only [evalStatement]
    refine (follows_expression calls value _ _ _ _ _ h hframe).bind (.refl held) fun _ _ _ _ h => ?_
    exact .ok (.some h)

end

/-! ## Calls -/

/-- What a `return` carries is what the call is worth in both runs. -/
theorem agree_catchReturn {held : Held} {body body' : Eval (Option Value)} {l r : Machine}
    (h : sim.Agree held (sim.Optional held) (body l) (body' r)) :
    sim.Agree held (sim.Valued held) (catchReturn body l) (catchReturn body' r) := by
  rw [catchReturn, catchReturn]
  generalize body l = result, body' r = result' at h
  cases h with
  | ok h => exact .ok h.getD
  | returned h => exact .ok h
  | fault fault h => exact .fault fault h
  | exhausted h => exact .exhausted h

/-- Arguments may be bound in a held frame. -/
theorem alike_bindAll (names : List Name) {held : Held} {l r : Machine} {id id' : FrameId}
    (hframe : (id, id') ∈ held.frames) {values others : List Value}
    (h : sim.Listed held values others l r) :
    sim.Alike held (l.withHeap (l.heap.bindAll id names values))
      (r.withHeap (r.heap.bindAll id' names others)) := by
  induction names generalizing l r values others with
  | nil =>
    simp only [Heap.bindAll]
    exact h.2.weaken (held.within_holdAll _ _)
  | cons name names ih =>
    obtain ⟨hlength, link, hrelated⟩ := h
    cases values with
    | nil =>
      cases others with
      | nil =>
        simp only [Heap.bindAll]
        exact ⟨link, hrelated⟩
      | cons => cases hlength
    | cons value values =>
      cases others with
      | nil => cases hlength
      | cons other others =>
        have hbound : sim.Alike (held.holdAll values others) _ _ :=
          ⟨link, sim.bind name.text hrelated hframe⟩
        exact ih ⟨Nat.succ.inj hlength, hbound⟩

/-- A frame may be made, whether or not a collection is due on either side. -/
theorem alike_allocate {held : Held} {l r : Machine} {id id' : FrameId}
    (h : sim.Alike (held.holdFrame id id') l r) :
    sim.Alike ((held.holdFrame id id').holdFrame
        (l.heap.allocate left.due (held.left.and aside) (some id)).1
        (r.heap.allocate right.due (held.right.and aside') (some id')).1)
      (l.withHeap (l.heap.allocate left.due (held.left.and aside) (some id)).2)
      (r.withHeap (r.heap.allocate right.due (held.right.and aside') (some id')).2) := by
  obtain ⟨link, h⟩ := h
  have hleft : sim.Alike (held.holdFrame id id') (l.withHeap (if left.due l.heap then
      (l.heap.collect ((held.holdFrame id id').left.and aside)).2 else l.heap)) r := by
    split
    · exact ⟨link, sim.collectLeft h⟩
    · exact ⟨link, h⟩
  obtain ⟨link, hleft⟩ := hleft
  have hboth : sim.Alike (held.holdFrame id id') (l.withHeap (if left.due l.heap then
      (l.heap.collect ((held.holdFrame id id').left.and aside)).2 else l.heap))
      (r.withHeap (if right.due r.heap then
        (r.heap.collect ((held.holdFrame id id').right.and aside')).2 else r.heap)) := by
    by_cases hdue : right.due r.heap = true
    · rw [if_pos hdue]
      exact ⟨link, sim.collectRight hleft⟩
    · rw [if_neg hdue]
      exact ⟨link, hleft⟩
  obtain ⟨link, hboth⟩ := hboth
  exact sim.newFrame hboth List.mem_cons_self

/-- Frames may be made for calls with arguments. -/
theorem agree_allocate {held : Held} {l r : Machine} {id id' : FrameId}
    {arguments others : List Value} (hlength : arguments.length = others.length)
    (h : sim.Alike ((held.holdAll arguments others).holdFrame id id') l r) :
    sim.Agree held
      (fun call call' l r => sim.Listed (held.holdFrame call call') arguments others l r)
      (Eval.onHeap
        (Heap.allocate left.due ((held.left.and aside).holdAll arguments) (some id)) l)
      (Eval.onHeap
        (Heap.allocate right.due ((held.right.and aside').holdAll others) (some id')) r) := by
  have hmade := alike_allocate h
  rw [Held.left_holdAll hlength, Held.right_holdAll hlength, ← Roots.holdAll_and,
    ← Roots.holdAll_and] at hmade
  refine .ok ⟨hlength, hmade.weaken ⟨fun pair hpair => ?_, fun _ h => h⟩⟩
  rcases List.mem_cons.mp hpair with rfl | hpair
  · exact List.mem_cons_self
  · exact List.mem_cons_of_mem _ (List.mem_cons_of_mem _ hpair)

/-- Calls agree, however deep they may be nested. -/
theorem calls_invokeWithin (sim : Simulation left right aside aside') (depth : Nat) :
    sim.Calls (invokeWithin left depth) (invokeWithin right depth) := by
  induction depth with
  | zero =>
    intro held l r literal id id' arguments others _ h
    exact .exhausted (h.weaken ((held.within_holdAll _ _).trans (Held.within_holdFrame _ _ _)))
  | succ depth ih =>
    intro held l r literal id id' arguments others hlength h
    simp only [invokeWithin]
    refine (agree_allocate hlength h).bind (.refl held) fun call call' l r h => ?_
    have hbound : sim.Alike (held.holdFrame call call') _ _ :=
      alike_bindAll literal.parameters List.mem_cons_self h
    have hbody := follows_block ih literal.body _ _ _ _ _ hbound List.mem_cons_self
    exact (agree_catchReturn hbody).weaken (held.within_holdFrame _ _)
      fun _ _ _ _ h => h.weaken (held.within_holdFrame _ _)

end Simulation

end Scriptlet
