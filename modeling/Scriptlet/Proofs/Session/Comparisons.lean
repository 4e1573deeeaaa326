import Scriptlet.Proofs.Hash.Entries
import Scriptlet.Proofs.Session.Identity

set_option autoImplicit false

/-!
# Comparisons

Component: the object model.  Specification: section 10.5 on equality, by which arrays, hashes and
functions are equal if they are the same, and native functions by name, section 4.3 on the operators
`==` and `!=`, and section 3 on keys.

Programs compare values by `Value.identical` and hosts also by `Value.equal`.  Each of the two is
the equality of what it looks at, the *mark* and the *shape* of a value, and so an equivalence.

Where an identity stands for one object, the mark determines the value but for its native functions,
and so its shape.  The shape determines all that can be told of a value: its type, whether it counts
as true, its text and its key.

    identical    what the operators of the language compare by
    equal        what hosts and tests compare by, which looks into arrays and hashes

That a comparison is symmetric or transitive would be tedious to prove along two values at once.  It
is immediate for the equality of something that is computed from each of them.
-/

namespace Scriptlet

/-! ## What comparisons look at -/

/-- A function literal without anything. -/
def blankLiteral : FunctionLiteral := ⟨default, [], ⟨default, [], default⟩⟩

/-- What `Value.identical` looks at. -/
def Value.mark : Value → Value
  | .array object _ => .array object []
  | .hash object _ => .hash object []
  | .function object _ _ => .function object blankLiteral ⟨0⟩
  | .builtin native => .builtin ⟨native.name, .len⟩
  | value => value

mutual

/-- What `Value.equal` looks at. -/
def Value.shape : Value → Value
  | .array _ elements => .array ⟨0⟩ (shapes elements)
  | .hash _ entries => .hash ⟨0⟩ (shapesOfEntries entries)
  | value => value.mark

/-- The shapes of some values. -/
def shapes : List Value → List Value
  | [] => []
  | value :: rest => value.shape :: shapes rest

/-- The shapes of some entries. -/
def shapesOfEntries : List Entry → List Entry
  | [] => []
  | entry :: rest => entry.shape :: shapesOfEntries rest

/-- The shape of one entry, with its key as it is. -/
def Entry.shape : Entry → Entry
  | ⟨key, name, value⟩ => ⟨key, name.shape, value.shape⟩

end

/-- Values are the same to a program if their marks are equal. -/
theorem Value.identical_iff_mark (left right : Value) :
    left.identical right = true ↔ left.mark = right.mark := by
  cases left <;> cases right <;> simp [Value.identical, Value.mark]

/-- What is no array and no hash is equal to what it is identical to. -/
theorem Value.equal_eq_identical {left : Value} (harray : left.type ≠ .array)
    (hhash : left.type ≠ .hash) (right : Value) : left.equal right = left.identical right := by
  cases left <;> first
    | exact absurd rfl harray
    | exact absurd rfl hhash
    | simp only [Value.equal]

/-- It is compared by its mark. -/
theorem Value.shape_eq_iff_mark {left : Value} (harray : left.type ≠ .array)
    (hhash : left.type ≠ .hash) (right : Value) :
    left.shape = right.shape ↔ left.mark = right.mark := by
  cases left <;> first
    | exact absurd rfl harray
    | exact absurd rfl hhash
    | cases right <;> simp [Value.shape, Value.mark]

mutual

/-- Two values are equal just if their shapes are the same. -/
theorem Value.equal_iff_shape : (left right : Value) →
    (left.equal right = true ↔ left.shape = right.shape)
  | .array _ elements, right => by
    cases right with
    | array _ others => simp [Value.equal, Value.shape, equalValues_iff_shapes elements others]
    | null | integer | boolean | string | hash | function | builtin =>
      simp [Value.equal, Value.shape, Value.mark]
  | .hash _ entries, right => by
    cases right with
    | hash _ others => simp [Value.equal, Value.shape, equalEntries_iff_shapes entries others]
    | null | integer | boolean | string | array | function | builtin =>
      simp [Value.equal, Value.shape, Value.mark]
  | .null, right | .integer _, right | .boolean _, right | .string _, right | .function _ _ _, right
  | .builtin _, right => by
    rw [Value.equal_eq_identical ValueType.noConfusion ValueType.noConfusion,
      Value.identical_iff_mark,
      Value.shape_eq_iff_mark ValueType.noConfusion ValueType.noConfusion]

/-- Lists of values are equal just if their shapes are the same. -/
theorem equalValues_iff_shapes : (left right : List Value) →
    (equalValues left right = true ↔ shapes left = shapes right)
  | [], [] => by simp [equalValues, shapes]
  | [], _ :: _ | _ :: _, [] => by simp [equalValues, shapes]
  | value :: rest, other :: others => by
    simp [equalValues, shapes, Value.equal_iff_shape value other,
      equalValues_iff_shapes rest others]

/-- Lists of entries are equal just if their shapes are the same. -/
theorem equalEntries_iff_shapes : (left right : List Entry) →
    (equalEntries left right = true ↔ shapesOfEntries left = shapesOfEntries right)
  | [], [] => by simp [equalEntries, shapesOfEntries]
  | [], _ :: _ | _ :: _, [] => by simp [equalEntries, shapesOfEntries]
  | entry :: rest, other :: others => by
    simp [equalEntries, shapesOfEntries, Entry.equal_iff_shape entry other,
      equalEntries_iff_shapes rest others]

/-- Two entries are equal just if their shapes are the same. -/
theorem Entry.equal_iff_shape : (left right : Entry) →
    (left.equal right = true ↔ left.shape = right.shape)
  | ⟨key, name, value⟩, ⟨key', name', value'⟩ => by
    simp [Entry.equal, Entry.shape, Value.equal_iff_shape name name',
      Value.equal_iff_shape value value', and_assoc]

end

/-- Identity is an equivalence. -/
theorem identical_equivalence : Equivalence fun left right : Value =>
    left.identical right = true := by
  simp only [Value.identical_iff_mark]
  exact ⟨fun _ => rfl, fun h => h.symm, fun h h' => h.trans h'⟩

/-- Equality, which looks into arrays and hashes, is an equivalence. -/
theorem equal_equivalence : Equivalence fun left right : Value => left.equal right = true := by
  simp only [Value.equal_iff_shape]
  exact ⟨fun _ => rfl, fun h => h.symm, fun h h' => h.trans h'⟩

/-! ## What can be told of equal values -/

namespace Value

/-- The shape of a value has its type. -/
theorem type_shape (value : Value) : value.shape.type = value.type := by
  cases value <;> simp only [shape, mark] <;> rfl

/-- The shape of a value counts as true just if the value does. -/
theorem truthy_shape (value : Value) : value.shape.truthy = value.truthy := by
  cases value <;> simp only [shape, mark] <;> rfl

/-- The shape of a value has its key, or its fault. -/
theorem hashKey_shape (digest : Digest) (value : Value) :
    value.shape.hashKey digest = value.hashKey digest := by
  cases value <;> simp only [shape, mark] <;> rfl

/-- What has a key is equal to what it is identical to. -/
theorem equal_eq_identical_of_hashKey {digest : Digest} {left : Value} {key : HashKey}
    (h : left.hashKey digest = .ok key) (right : Value) :
    left.equal right = left.identical right := by
  refine equal_eq_identical ?_ ?_ right <;> cases left <;> cases h <;> exact ValueType.noConfusion

/-- Integers and truth values are the same if they have one key. -/
theorem identical_iff_hashKey (digest : Digest) {left right : Value}
    (hleft : left.type = .integer ∨ left.type = .boolean)
    (hright : right.type = .integer ∨ right.type = .boolean) :
    left.identical right = true ↔ left.hashKey digest = right.hashKey digest := by
  cases left <;> simp [type] at hleft <;> cases right <;> simp [type] at hright
  case boolean.boolean b c => cases b <;> cases c <;> simp [identical, hashKey]
  all_goals simp [identical, hashKey]

end Value

namespace Holding

variable {holding : Holding}

/-- What is in something that is there is there. -/
theorem Has.of_mem {value content : Value} (h : holding.Has value)
    (hmem : content ∈ value.contents) : holding.Has content := by
  obtain ⟨whole, hcarries, hpart⟩ := h
  exact ⟨whole, hcarries, hpart.trans (.of_mem hmem)⟩

/-- What is the same to a program has one text. -/
theorem inspect_of_identical (h : holding.WellFormed) {left right : Value}
    (hleft : holding.Has left) (hright : holding.Has right) (hsame : left.identical right = true) :
    left.inspect = right.inspect := by
  cases hobject : left.object? with
  | some object =>
    rw [h.eq_of_object? hleft hright hobject (Value.object?_of_identical hobject hsame)]
  | none =>
    cases left <;> cases hobject <;> cases right <;> first
      | rfl
      | cases hsame
      | rw [eq_of_beq hsame]

mutual

/-- Equal values have one text: the functions in them are the same. -/
theorem inspect_of_equal (h : holding.WellFormed) : (left right : Value) →
    holding.Has left → holding.Has right → left.equal right = true → left.inspect = right.inspect
  | .array _ elements, right, hleft, hright, hequal => by
    cases right with
    | array _ others =>
      rw [Value.equal] at hequal
      have htexts := inspectValues_of_equal h elements others (fun _ hmem => hleft.of_mem hmem)
        (fun _ hmem => hright.of_mem hmem) hequal
      rw [Value.inspect, Value.inspect, htexts]
    | null | integer | boolean | string | hash | function | builtin => simp [Value.equal] at hequal
  | .hash _ entries, right, hleft, hright, hequal => by
    cases right with
    | hash _ others =>
      rw [Value.equal] at hequal
      have htexts := inspectEntries_of_equal h entries others (fun _ hmem => hleft.of_mem hmem)
        (fun _ hmem => hright.of_mem hmem) hequal
      rw [Value.inspect, Value.inspect, htexts]
    | null | integer | boolean | string | array | function | builtin => simp [Value.equal] at hequal
  | .null, right, hleft, hright, hequal | .integer _, right, hleft, hright, hequal
  | .boolean _, right, hleft, hright, hequal | .string _, right, hleft, hright, hequal
  | .function _ _ _, right, hleft, hright, hequal | .builtin _, right, hleft, hright, hequal => by
    rw [Value.equal_eq_identical ValueType.noConfusion ValueType.noConfusion] at hequal
    exact inspect_of_identical h hleft hright hequal

/-- So have equal values in a row. -/
theorem inspectValues_of_equal (h : holding.WellFormed) : (left right : List Value) →
    (∀ value ∈ left, holding.Has value) → (∀ value ∈ right, holding.Has value) →
    equalValues left right = true → inspectValues left = inspectValues right
  | [], [], _, _, _ => rfl
  | [], _ :: _, _, _, hequal | _ :: _, [], _, _, hequal => by simp [equalValues] at hequal
  | value :: rest, other :: others, hleft, hright, hequal => by
    obtain ⟨hvalue, hrest⟩ := List.forall_mem_cons.mp hleft
    obtain ⟨hother, hothers⟩ := List.forall_mem_cons.mp hright
    rw [equalValues, Bool.and_eq_true] at hequal
    rw [inspectValues, inspectValues, inspect_of_equal h value other hvalue hother hequal.1,
      inspectValues_of_equal h rest others hrest hothers hequal.2]

/-- So have equal entries. -/
theorem inspectEntries_of_equal (h : holding.WellFormed) : (left right : List Entry) →
    (∀ value ∈ Entry.parts left, holding.Has value) →
    (∀ value ∈ Entry.parts right, holding.Has value) →
    equalEntries left right = true → inspectEntries left = inspectEntries right
  | [], [], _, _, _ => rfl
  | [], _ :: _, _, _, hequal | _ :: _, [], _, _, hequal => by simp [equalEntries] at hequal
  | entry :: rest, other :: others, hleft, hright, hequal => by
    rw [equalEntries, Bool.and_eq_true] at hequal
    rw [Entry.parts, List.flatMap_cons, List.forall_mem_append] at hleft hright
    rw [inspectEntries, inspectEntries,
      inspectEntry_of_equal h entry other hleft.1 hright.1 hequal.1,
      inspectEntries_of_equal h rest others hleft.2 hright.2 hequal.2]

/-- So has an entry that equals another. -/
theorem inspectEntry_of_equal (h : holding.WellFormed) : (left right : Entry) →
    (∀ value ∈ [left.name, left.value], holding.Has value) →
    (∀ value ∈ [right.name, right.value], holding.Has value) →
    left.equal right = true → left.inspect = right.inspect
  | ⟨_, name, value⟩, ⟨_, name', value'⟩, hleft, hright, hequal => by
    rw [Entry.equal, Bool.and_eq_true, Bool.and_eq_true] at hequal
    have hname := inspect_of_equal h name name' (hleft _ List.mem_cons_self)
      (hright _ List.mem_cons_self) hequal.1.2
    have hmem : ∀ first second : Value, second ∈ [first, second] := fun _ _ =>
      List.mem_cons_of_mem _ List.mem_cons_self
    have hvalue := inspect_of_equal h value value' (hleft _ (hmem name value))
      (hright _ (hmem name' value')) hequal.2
    rw [Entry.inspect, Entry.inspect, hname, hvalue]

end

/-- What is the same to a program is equal. -/
theorem equal_of_identical (h : holding.WellFormed) {left right : Value} (hleft : holding.Has left)
    (hright : holding.Has right) (hsame : left.identical right = true) :
    left.equal right = true := by
  cases hobject : left.object? with
  | some object =>
    have hobject' := Value.object?_of_identical hobject hsame
    rw [h.eq_of_object? hleft hright hobject hobject']
    exact equal_equivalence.refl right
  | none =>
    have hplain : left.type ≠ .array ∧ left.type ≠ .hash := by
      cases left <;> cases hobject <;> exact ⟨ValueType.noConfusion, ValueType.noConfusion⟩
    rwa [Value.equal_eq_identical hplain.1 hplain.2]

end Holding

/-! ## All together -/

/-- What a host compares is there when it is compared. -/
theorem exists_of_compare {session after : Session} {left right : Draft} {same alike : Bool}
    {ready : Heap → Prop} (hstart : session.Sound ready [])
    (h : (Command.compare left right).perform session = .ok (.compared same alike) after) :
    ∃ value other, session.Evolves ready [] [other, value] after ∧
      same = value.identical other ∧ alike = value.equal other := by
  unfold Command.perform at h
  obtain ⟨value, middle, hvalue, hrest⟩ := exists_of_bind_ok h
  obtain ⟨other, last, hother, hanswer⟩ := exists_of_bind_ok hrest
  cases hanswer
  have hleft := evolves_build left hstart
  rw [Step.Evolves, hvalue] at hleft
  have hright := evolves_build right (hleft.sound hstart)
  rw [Step.Evolves, hother] at hright
  exact ⟨value, other, hleft.trans hright, rfl, rfl⟩

/-- The comparisons agree on all that there is together.

Both are equivalences.  What is the same to a program is equal, and what is equal has one type,
counts as true or not, has one text and one key, or is refused as a key for one reason.  On what has
a key the two comparisons are one, and on integers and truth values it is enough to compare keys.
What is said of keys is so for every digest.

A host compares in sessions, and every session has come about by moves. -/
theorem comparisons_cohere :
    (Equivalence fun left right : Value => left.identical right = true) ∧
    (Equivalence fun left right : Value => left.equal right = true) ∧
    (∀ holding : Holding, holding.Reached → ∀ left right : Value, holding.Has left →
      holding.Has right →
      (left.identical right = true → left.equal right = true) ∧
      (left.equal right = true → left.type.name = right.type.name ∧ left.truthy = right.truthy ∧
        left.inspect = right.inspect ∧
        ∀ digest : Digest, left.hashKey digest = right.hashKey digest)) ∧
    (∀ (digest : Digest) (left right : Value) (k l : HashKey), left.hashKey digest = .ok k →
      right.hashKey digest = .ok l → left.identical right = left.equal right) ∧
    (∀ (digest : Digest) (left right : Value), left.type = .integer ∨ left.type = .boolean →
      right.type = .integer ∨ right.type = .boolean →
      (left.identical right = true ↔ left.hashKey digest = right.hashKey digest)) ∧
    (∀ (setup : Setup) (console : Console) (commands : List Command),
      let session := (Session.performAll commands (Session.start setup console)).2
      (session.holding []).Reached ∧
      ∀ (left right : Draft) (same alike : Bool) (after : Session),
        (Command.compare left right).perform session = .ok (.compared same alike) after →
        ∃ (holding : Holding) (value other : Value), holding.Reached ∧ holding.Has value ∧
          holding.Has other ∧ same = value.identical other ∧ alike = value.equal other) := by
  refine ⟨identical_equivalence, equal_equivalence, ?_, ?_, ?_, ?_⟩
  · intro holding hreached left right hleft hright
    refine ⟨holding.equal_of_identical hreached.wellFormed hleft hright, fun hequal => ?_⟩
    have hshape := (Value.equal_iff_shape left right).mp hequal
    have hinspect := Holding.inspect_of_equal hreached.wellFormed left right hleft hright hequal
    refine ⟨?_, ?_, hinspect, fun digest => ?_⟩
    · rw [← Value.type_shape, hshape, Value.type_shape]
    · rw [← Value.truthy_shape, hshape, Value.truthy_shape]
    · rw [← Value.hashKey_shape, hshape, Value.hashKey_shape]
  · exact fun _ left right k l hleft _ => (Value.equal_eq_identical_of_hashKey hleft right).symm
  · exact fun digest left right => Value.identical_iff_hashKey digest
  · intro setup console commands session
    have hreached := reached_session setup console commands
    refine ⟨hreached, fun left right same alike after h => ?_⟩
    have hstart := sound_start setup.heeds_true console
    have hsession := (evolves_performAll commands hstart).sound hstart
    obtain ⟨value, other, hevolves, hsame, halike⟩ := exists_of_compare hsession h
    refine ⟨after.holding [other, value], value, other, hreached.trans hevolves.history, ?_, ?_,
      hsame, halike⟩
    · exact ⟨value, .held (List.mem_append_left _ (List.mem_cons_of_mem _ List.mem_cons_self)),
        .self value⟩
    · exact ⟨other, .held (List.mem_append_left _ List.mem_cons_self), .self other⟩

/-- Two arrays that are held. -/
def twoArrays : Holding :=
  ⟨oneArray.heap.newObject.2, ⟨[⟨0⟩], [.array ⟨1⟩ [], .array ⟨0⟩ []]⟩⟩

/-- They come about by making one after the other. -/
theorem reached_twoArrays : twoArrays.Reached :=
  reached_oneArray.trans (.move (.object {
    object := rfl
    contents := fun _ hmem => absurd hmem List.not_mem_nil
    captured := fun _ hid => by cases hid }))

/-- They are two, but equal, and so they have one text. -/
theorem comparisons_cohere_arrays :
    (Value.array ⟨0⟩ []).identical (.array ⟨1⟩ []) = false ∧
      (Value.array ⟨0⟩ []).inspect = (Value.array ⟨1⟩ []).inspect := by
  have hfirst : twoArrays.Has (.array ⟨0⟩ []) :=
    ⟨_, .held (List.mem_cons_of_mem _ List.mem_cons_self), .self _⟩
  have hsecond : twoArrays.Has (.array ⟨1⟩ []) := ⟨_, .held List.mem_cons_self, .self _⟩
  have hequal : (Value.array ⟨0⟩ []).equal (.array ⟨1⟩ []) = true := by
    simp [Value.equal, equalValues]
  have htold := (comparisons_cohere.2.2.1 twoArrays reached_twoArrays _ _ hfirst hsecond).2 hequal
  exact ⟨rfl, htold.2.2.1⟩

end Scriptlet
