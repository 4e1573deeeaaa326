import Mathlib.Data.List.Forall2
import Scriptlet.Operator
import Scriptlet.Proofs.Heap.Contents
import Scriptlet.Value.Inspect

set_option autoImplicit false

/-!
# Values that differ in names only

Component: the object model.  Specification: section 10.5 on what can be told of a value: its type,
its text, whether it equals another, and how it behaves under the operators; and section 3 on keys.

Two runs of one program name their frames and objects differently: the names depend on how many
there have been before.  A `Link` says which names of one run stand for which of the other, one to
one.  Two values *match* under a link if they differ in linked names only.

Programs cannot tell such values apart: they have the same type, text, truth value and hash key,
are identical to matching values only, and every operator makes the same of them.

A link is one to one because programs can compare: two objects of one run that stand for one of the
other would be equal there and not here.  It may grow while a program runs, when both runs make
something new, and what has matched goes on to match (`Value.Match.mono`).
-/

namespace Scriptlet

/-- Which frames and which objects of one run stand for which of another. -/
structure Link where
  frames : FrameId → FrameId → Prop
  objects : ObjectId → ObjectId → Prop
  frames_iff : ∀ {a b c d : FrameId}, frames a b → frames c d → (a = c ↔ b = d)
  objects_iff : ∀ {a b c d : ObjectId}, objects a b → objects c d → (a = c ↔ b = d)

/-- Whether all that one link links is linked by another. -/
structure Link.Within (link other : Link) : Prop where
  frames : ∀ {a b : FrameId}, link.frames a b → other.frames a b
  objects : ∀ {a b : ObjectId}, link.objects a b → other.objects a b

/-- A one-to-one relation stays so when two things are related that were not related before. -/
theorem iff_of_fresh {α : Type} {r : α → α → Prop}
    (injective : ∀ {a b c d : α}, r a b → r c d → (a = c ↔ b = d)) {x y : α}
    (fresh : ∀ other, ¬ r x other) (fresh' : ∀ other, ¬ r other y) {a b c d : α}
    (h : r a b ∨ a = x ∧ b = y) (h' : r c d ∨ c = x ∧ d = y) : a = c ↔ b = d := by
  rcases h with h | ⟨rfl, rfl⟩
  · rcases h' with h' | ⟨rfl, rfl⟩
    · exact injective h h'
    · constructor
      · rintro rfl
        exact absurd h (fresh _)
      · rintro rfl
        exact absurd h (fresh' _)
  · rcases h' with h' | ⟨rfl, rfl⟩
    · constructor
      · rintro rfl
        exact absurd h' (fresh _)
      · rintro rfl
        exact absurd h' (fresh' _)
    · exact ⟨fun _ => rfl, fun _ => rfl⟩

/-- The link with two more frames, neither of which is linked. -/
def Link.addFrames (link : Link) (id id' : FrameId) (fresh : ∀ other, ¬ link.frames id other)
    (fresh' : ∀ other, ¬ link.frames other id') : Link where
  frames a b := link.frames a b ∨ a = id ∧ b = id'
  objects := link.objects
  frames_iff := iff_of_fresh link.frames_iff fresh fresh'
  objects_iff := link.objects_iff

/-- The link with two more objects, neither of which is linked. -/
def Link.addObjects (link : Link) (id id' : ObjectId) (fresh : ∀ other, ¬ link.objects id other)
    (fresh' : ∀ other, ¬ link.objects other id') : Link where
  frames := link.frames
  objects a b := link.objects a b ∨ a = id ∧ b = id'
  frames_iff := link.frames_iff
  objects_iff := iff_of_fresh link.objects_iff fresh fresh'

mutual

/-- Whether two values differ in linked names only. -/
inductive Value.Match (link : Link) : Value → Value → Prop where
  | null : Value.Match link .null .null
  | integer (n : Int64) : Value.Match link (.integer n) (.integer n)
  | boolean (b : Bool) : Value.Match link (.boolean b) (.boolean b)
  | string (s : String) : Value.Match link (.string s) (.string s)
  | array {id other : ObjectId} {elements others : List Value} (same : link.objects id other)
      (contents : List.Forall₂ (Value.Match link) elements others) :
      Value.Match link (.array id elements) (.array other others)
  | hash {id other : ObjectId} {entries others : List Entry} (same : link.objects id other)
      (contents : List.Forall₂ (Entry.Match link) entries others) :
      Value.Match link (.hash id entries) (.hash other others)
  | function {id other : ObjectId} {frame otherFrame : FrameId} (literal : FunctionLiteral)
      (same : link.objects id other) (captured : link.frames frame otherFrame) :
      Value.Match link (.function id literal frame) (.function other literal otherFrame)
  | builtin (builtin : Builtin) : Value.Match link (.builtin builtin) (.builtin builtin)

/-- Whether two entries have the same key and matching parts. -/
inductive Entry.Match (link : Link) : Entry → Entry → Prop where
  | mk (key : HashKey) {name otherName value otherValue : Value}
      (names : Value.Match link name otherName) (values : Value.Match link value otherValue) :
      Entry.Match link ⟨key, name, value⟩ ⟨key, otherName, otherValue⟩

end

variable {link : Link}

/-! ## What matching values have in common -/

/-- Matching entries have matching parts. -/
theorem matchParts {entries others : List Entry} (h : List.Forall₂ (Entry.Match link) entries others) :
    List.Forall₂ (Value.Match link) (Entry.parts entries) (Entry.parts others) := by
  induction h with
  | nil => exact .nil
  | cons first _ ih =>
    cases first with
    | mk key names values => exact .cons names (.cons values ih)

namespace Value.Match

/-- Matching values contain matching values. -/
theorem contents {value other : Value} (h : value.Match link other) :
    List.Forall₂ (Value.Match link) value.contents other.contents := by
  cases h with
  | array _ contents => exact contents
  | hash _ contents => exact matchParts contents
  | null | integer | boolean | string | function | builtin => exact .nil

/-- Matching functions were made in linked frames. -/
theorem captured {value other : Value} (h : value.Match link other) {id : FrameId}
    (hid : value.captured = some id) : ∃ id', other.captured = some id' ∧ link.frames id id' := by
  cases h with
  | function literal same captured =>
    cases hid
    exact ⟨_, rfl, captured⟩
  | null | integer | boolean | string | array | hash | builtin => cases hid

/-- Matching values have one type. -/
theorem type {value other : Value} (h : value.Match link other) : value.type = other.type := by
  cases h <;> rfl

/-- Matching values count as true together. -/
theorem truthy {value other : Value} (h : value.Match link other) :
    value.truthy = other.truthy := by
  cases h <;> rfl

/-- Matching values have one key, or one fault. -/
theorem hashKey (digest : Digest) {value other : Value} (h : value.Match link other) :
    value.hashKey digest = other.hashKey digest := by
  cases h <;> rfl

/-- Matching values are identical to matching values only: links are one to one. -/
theorem identical {left left' right right' : Value} (hleft : left.Match link left')
    (hright : right.Match link right') : left.identical right = left'.identical right' := by
  have hids : ∀ {a b c d : ObjectId}, link.objects a b → link.objects c d →
      (a == c) = (b == d) := by
    intro a b c d hab hcd
    rw [Bool.eq_iff_iff, beq_iff_eq, beq_iff_eq]
    exact link.objects_iff hab hcd
  cases hleft <;> cases hright <;> first
    | rfl
    | exact hids ‹_› ‹_›

/-- A value that is no object matches itself. -/
theorem of_object?_none {value : Value} (h : value.object? = none) : value.Match link value := by
  cases value with
  | null => exact .null
  | integer n => exact .integer n
  | boolean b => exact .boolean b
  | string s => exact .string s
  | builtin builtin => exact .builtin builtin
  | array | hash | function => cases h

/-- Matching survives when more is linked. -/
theorem mono {other : Link} (within : link.Within other) (value : Value) :
    ∀ {value' : Value}, value.Match link value' → value.Match other value' := by
  induction value using Value.contents_induction with
  | step value ih =>
    intro value' h
    cases h with
    | null => exact .null
    | integer n => exact .integer n
    | boolean b => exact .boolean b
    | string s => exact .string s
    | builtin builtin => exact .builtin builtin
    | function literal same captured =>
      exact .function literal (within.objects same) (within.frames captured)
    | @array id id' elements others same contents =>
      refine .array (within.objects same) ?_
      replace ih : ∀ content ∈ elements, ∀ {content' : Value}, content.Match link content' →
          content.Match other content' := ih
      induction contents with
      | nil => exact .nil
      | cons first _ ihrest =>
        exact .cons (ih _ List.mem_cons_self first)
          (ihrest fun content hmem => ih content (List.mem_cons_of_mem _ hmem))
    | @hash id id' entries others same contents =>
      refine .hash (within.objects same) ?_
      replace ih : ∀ content ∈ Entry.parts entries, ∀ {content' : Value},
          content.Match link content' → content.Match other content' := ih
      induction contents with
      | nil => exact .nil
      | cons first _ ihrest =>
        cases first with
        | mk key names values =>
          refine .cons (.mk key (ih _ ?_ names) (ih _ ?_ values))
            (ihrest fun content hmem => ih content ?_)
          · exact List.mem_cons_self
          · exact List.mem_cons_of_mem _ List.mem_cons_self
          · exact List.mem_cons_of_mem _ (List.mem_cons_of_mem _ hmem)

/-- Matching values print the same text. -/
theorem inspect (value : Value) :
    ∀ {value' : Value}, value.Match link value' → value.inspect = value'.inspect := by
  induction value using Value.contents_induction with
  | step value ih =>
    intro value' h
    cases h with
    | null | integer | boolean | string | builtin => rfl
    | function literal =>
      cases literal
      rw [Value.inspect, Value.inspect]
    | @array id id' elements others same contents =>
      rw [Value.inspect, Value.inspect]
      replace ih : ∀ content ∈ elements, ∀ {content' : Value}, content.Match link content' →
          content.inspect = content'.inspect := ih
      have htexts : inspectValues elements = inspectValues others := by
        clear same
        induction contents with
        | nil => rfl
        | cons first _ ihrest =>
          rw [inspectValues, inspectValues, ih _ List.mem_cons_self first,
            ihrest fun content hmem => ih content (List.mem_cons_of_mem _ hmem)]
      rw [htexts]
    | @hash id id' entries others same contents =>
      rw [Value.inspect, Value.inspect]
      replace ih : ∀ content ∈ Entry.parts entries, ∀ {content' : Value},
          content.Match link content' → content.inspect = content'.inspect := ih
      have htexts : inspectEntries entries = inspectEntries others := by
        clear same
        induction contents with
        | nil => rfl
        | cons first _ ihrest =>
          cases first with
          | mk key names values =>
            rw [inspectEntries, inspectEntries, Entry.inspect, Entry.inspect,
              ih _ List.mem_cons_self names,
              ih _ (List.mem_cons_of_mem _ List.mem_cons_self) values,
              ihrest fun content hmem =>
                ih content (List.mem_cons_of_mem _ (List.mem_cons_of_mem _ hmem))]
      rw [htexts]

end Value.Match

/-- Of matching lists, what is found in one has a partner in the other. -/
theorem exists_match_of_mem {values others : List Value}
    (h : List.Forall₂ (Value.Match link) values others) {value : Value} (hmem : value ∈ values) :
    ∃ other ∈ others, value.Match link other := by
  induction h with
  | nil => exact absurd hmem List.not_mem_nil
  | cons first _ ih =>
    rcases List.mem_cons.mp hmem with rfl | hmem
    · exact ⟨_, List.mem_cons_self, first⟩
    · obtain ⟨other, hother, hmatch⟩ := ih hmem
      exact ⟨other, List.mem_cons_of_mem _ hother, hmatch⟩

namespace Value.Match

/-- A part of a value has a partner in a matching value. -/
theorem exists_part {value part : Value} (inside : value.Part part) :
    ∀ {other : Value}, value.Match link other → ∃ part', other.Part part' ∧ part.Match link part' := by
  induction inside with
  | self => exact fun h => ⟨_, .self _, h⟩
  | content member _ ih =>
    intro other h
    obtain ⟨content', hmember', hmatch⟩ := exists_match_of_mem h.contents member
    obtain ⟨part', hpart', hmatch'⟩ := ih hmatch
    exact ⟨part', .content hmember' hpart', hmatch'⟩

/-- Where a value leads, a matching value leads to a linked frame. -/
theorem exists_leads {value other : Value} (h : value.Match link other) {id : FrameId}
    (leads : value.Leads id) : ∃ id', other.Leads id' ∧ link.frames id id' := by
  obtain ⟨part, hpart, hcaptured⟩ := leads
  obtain ⟨part', hpart', hmatch⟩ := exists_part hpart h
  obtain ⟨id', hid', hlink⟩ := hmatch.captured hcaptured
  exact ⟨id', ⟨part', hpart', hid'⟩, hlink⟩

end Value.Match

/-! ## Operators -/

/-- A prefix operator makes the same of them. -/
theorem applyPrefix_match (operator : PrefixOp) {right right' : Value}
    (h : right.Match link right') : applyPrefix operator right = applyPrefix operator right' := by
  cases operator <;> cases h <;> rfl

/-- A prefix operator makes no object. -/
theorem object?_applyPrefix {operator : PrefixOp} {right value : Value}
    (h : applyPrefix operator right = .ok value) : value.object? = none := by
  cases operator <;> cases right <;> cases h <;> rfl

/-- They compare alike. -/
theorem compareValues_match (operator : InfixOp) {left left' right right' : Value}
    (hleft : left.Match link left') (hright : right.Match link right') :
    compareValues operator left right = compareValues operator left' right' := by
  unfold compareValues
  rw [hleft.type, hright.type, hleft.identical hright]

/-- An infix operator makes the same of two of them. -/
theorem applyInfix_match (operator : InfixOp) {left left' right right' : Value}
    (hleft : left.Match link left') (hright : right.Match link right') :
    applyInfix operator left right = applyInfix operator left' right' := by
  have hcompare := compareValues_match operator hleft hright
  cases hleft <;> cases hright <;> first
    | rfl
    | exact hcompare

/-- A comparison makes no object. -/
theorem object?_compareValues {operator : InfixOp} {left right value : Value}
    (h : compareValues operator left right = .ok value) : value.object? = none := by
  unfold compareValues at h
  split at h
  · cases h
  · split at h <;> cases h <;> rfl

/-- An infix operator makes no object. -/
theorem object?_applyInfix {operator : InfixOp} {left right value : Value}
    (h : applyInfix operator left right = .ok value) : value.object? = none := by
  unfold applyInfix at h
  split at h
  · unfold applyInteger at h
    split at h
    case h_4 => split at h <;> cases h; rfl
    all_goals
      cases h
      rfl
  · unfold applyString at h
    split at h <;> cases h
    rfl
  · exact object?_compareValues h

/-! ## Indexing -/

/-- What becomes of two evaluations that cannot tell matching values apart: matching values, or
the same fault. -/
inductive MatchResult (link : Link) : Except Fault Value → Except Fault Value → Prop where
  | ok {value other : Value} (h : value.Match link other) : MatchResult link (.ok value) (.ok other)
  | error (fault : Fault) : MatchResult link (.error fault) (.error fault)

/-- In one place there are matching elements, or null. -/
theorem elementAt_match {elements others : List Value}
    (h : List.Forall₂ (Value.Match link) elements others) (index : Int64) :
    (elementAt elements index).Match link (elementAt others index) := by
  rw [elementAt, elementAt]
  split
  · exact .null
  · generalize index.toInt.toNat = place
    induction h generalizing place with
    | nil => exact .null
    | cons first _ ih =>
      cases place with
      | zero => exact first
      | succ place => exact ih place

/-- Under one key there are matching values, or null. -/
theorem findEntry_match {entries others : List Entry}
    (h : List.Forall₂ (Entry.Match link) entries others) (key : HashKey) :
    Value.Match link (((findEntry key entries).map Entry.value).getD .null)
      (((findEntry key others).map Entry.value).getD .null) := by
  induction h with
  | nil => exact .null
  | cons first _ ih =>
    cases first with
    | mk own names values =>
      rw [findEntry, findEntry, List.find?_cons, List.find?_cons]
      by_cases hkey : (own == key) = true
      · simp only [hkey]
        exact values
      · simp only [Bool.eq_false_iff.mpr hkey]
        exact ih

/-- Indexing comes to matching values, or to one fault. -/
theorem applyIndex_match (digest : Digest) {left left' index index' : Value}
    (hleft : left.Match link left') (hindex : index.Match link index') :
    MatchResult link (applyIndex digest left index) (applyIndex digest left' index') := by
  cases hleft with
  | array same contents =>
    cases hindex with
    | integer n => exact .ok (elementAt_match contents n)
    | null | boolean | string | array | hash | function | builtin => exact .error _
  | hash same contents =>
    have hkey := hindex.hashKey digest
    simp only [applyIndex, hkey]
    cases index'.hashKey digest with
    | error fault => exact .error fault
    | ok key => exact .ok (findEntry_match contents key)
  | null | integer | boolean | string | function | builtin => exact .error _

/-- Indexing finds a part of what is indexed, or null. -/
theorem part_of_applyIndex {digest : Digest} {left index value : Value}
    (h : applyIndex digest left index = .ok value) : left.Part value ∨ value = .null := by
  unfold applyIndex at h
  split at h
  · cases h
    rw [elementAt]
    split
    · exact .inr rfl
    next elements n _ =>
      cases hget : elements[n.toInt.toNat]? with
      | none => exact .inr rfl
      | some element => exact .inl (.of_mem (List.mem_of_getElem? hget))
  · split at h
    · cases h
      next entries _ key _ =>
        cases hfind : findEntry key entries with
        | none => exact .inr rfl
        | some entry =>
          refine .inl (.of_mem (Value.mem_parts.mpr ⟨entry, ?_, .inr rfl⟩))
          exact List.mem_of_find?_eq_some hfind
    · cases h
  · cases h

end Scriptlet
