import Scriptlet.Heap.Collect

set_option autoImplicit false

/-!
# What values are made of

Component: the object model.  Specification: section 3 on arrays that own their elements together
with others, on hashes of entries, and on functions that capture an environment.

Arrays and hashes carry their contents, and contents carry contents again, down to functions,
which carry the name of a frame.  This module says what the *parts* of a value are, which frames a
value *leads* to, and which handles an object stores, each of them without saying in which order
they are met.  A property of values is proved from the contents up (`Value.contents_induction`).

Values are finite, since an array is made of elements that are there already.  Cycles go through
frames only: a function is bound in the frame that it was made in.  So what is in a value can be
told by recursion, and what can be reached from it cannot.
-/

namespace Scriptlet

namespace Value

/-! ## Contents -/

/-- The values that an array or a hash holds. -/
def contents : Value → List Value
  | .array _ elements => elements
  | .hash _ entries => Entry.parts entries
  | .null | .integer _ | .boolean _ | .string _ | .function _ _ _ | .builtin _ => []

/-- The frame that a function was made in. -/
def captured : Value → Option FrameId
  | .function _ _ frame => some frame
  | .null | .integer _ | .boolean _ | .string _ | .array _ _ | .hash _ _ | .builtin _ => none

/-- The handles that an object stores. -/
def stored (value : Value) : List Handle :=
  value.captured.toList.map .frame ++ storedHandles value.contents

/-- The parts of entries are their names and their values. -/
theorem mem_parts {entries : List Entry} {value : Value} :
    value ∈ Entry.parts entries ↔
      ∃ entry ∈ entries, value = entry.name ∨ value = entry.value := by
  simp [Entry.parts]

/-- Contents are smaller than what they are in. -/
theorem sizeOf_lt_of_mem_contents {value content : Value} (h : content ∈ value.contents) :
    sizeOf content < sizeOf value := by
  cases value with
  | array id elements =>
    have hlt := List.sizeOf_lt_of_mem (show content ∈ elements from h)
    rw [Value.array.sizeOf_spec]
    omega
  | hash id entries =>
    obtain ⟨entry, hentry, hcontent⟩ := mem_parts.mp h
    have hlt := List.sizeOf_lt_of_mem hentry
    have hparts : sizeOf content < sizeOf entry := by
      obtain ⟨key, name, value⟩ := entry
      rw [Entry.mk.sizeOf_spec]
      rcases hcontent with rfl | rfl <;> omega
    rw [Value.hash.sizeOf_spec]
    omega
  | null | integer _ | boolean _ | string _ | function _ _ _ | builtin _ =>
    exact absurd h (List.not_mem_nil)

/-- Induction on values, from the contents up. -/
theorem contents_induction {motive : Value → Prop}
    (step : ∀ value, (∀ content ∈ value.contents, motive content) → motive value)
    (value : Value) : motive value :=
  step value fun content _ => contents_induction step content
termination_by sizeOf value
decreasing_by exact sizeOf_lt_of_mem_contents ‹_›

/-! ## Parts -/

/-- What can be found in a value: the value itself, and the parts of its contents. -/
inductive Part : Value → Value → Prop where
  | self (value : Value) : Part value value
  | content {value content part : Value} (member : content ∈ value.contents)
      (inside : Part content part) : Part value part

/-- A part of a part is a part. -/
theorem Part.trans {whole middle part : Value} (outer : Part whole middle)
    (inner : Part middle part) : Part whole part := by
  induction outer with
  | self => exact inner
  | content member _ ih => exact .content member (ih inner)

/-- What a value contains is a part of it. -/
theorem Part.of_mem {value content : Value} (h : content ∈ value.contents) : Part value content :=
  .content h (.self content)

/-- A value with no contents has no part but itself. -/
theorem Part.eq_of_contents_nil {value part : Value} (h : Part value part)
    (empty : value.contents = []) : part = value := by
  cases h with
  | self => rfl
  | content member _ => exact absurd (empty ▸ member) List.not_mem_nil

/-- Whether a function that was made in a frame can be found in a value. -/
def Leads (value : Value) (id : FrameId) : Prop :=
  ∃ part, Part value part ∧ part.captured = some id

/-- A value leads where its parts lead. -/
theorem Leads.of_part {value part : Value} {id : FrameId} (hpart : Part value part)
    (h : part.Leads id) : value.Leads id := by
  obtain ⟨function, hfunction, hcaptured⟩ := h
  exact ⟨function, hpart.trans hfunction, hcaptured⟩

/-- A value leads to a frame if it is a function of it, or if one of its contents leads there. -/
theorem leads_iff {value : Value} {id : FrameId} :
    value.Leads id ↔ value.captured = some id ∨ ∃ content ∈ value.contents, content.Leads id := by
  constructor
  · rintro ⟨part, hpart, hcaptured⟩
    cases hpart with
    | self => exact .inl hcaptured
    | content member inside => exact .inr ⟨_, member, part, inside, hcaptured⟩
  · rintro (hcaptured | ⟨content, hmember, hleads⟩)
    · exact ⟨value, .self value, hcaptured⟩
    · exact hleads.of_part (.of_mem hmember)

/-! ## Objects -/

/-- A function is an object. -/
theorem object?_of_captured {value : Value} {id : FrameId} (h : value.captured = some id) :
    ∃ object, value.object? = some object := by
  cases value <;> simp_all [captured, object?]

/-- What contains something is an object. -/
theorem object?_of_mem_contents {value content : Value} (h : content ∈ value.contents) :
    ∃ object, value.object? = some object := by
  cases value <;> simp_all [contents, object?]

/-- The handle of a value is that of its object. -/
theorem handle?_eq_some {value : Value} {handle : Handle} :
    value.handle? = some handle ↔ ∃ object, value.object? = some object ∧ handle = .object object := by
  rw [handle?, Option.map_eq_some_iff]
  simp only [eq_comm]

/-- An object stores a handle to an object exactly if that is among its contents. -/
theorem object_mem_stored {value : Value} {object : ObjectId} :
    Handle.object object ∈ value.stored ↔ ∃ content ∈ value.contents, content.object? = some object := by
  simp [stored, storedHandles, handle?_eq_some]

/-- An object stores a handle to a frame exactly if it is a function of that frame. -/
theorem frame_mem_stored {value : Value} {id : FrameId} :
    Handle.frame id ∈ value.stored ↔ value.captured = some id := by
  simp [stored, storedHandles, handle?_eq_some]

/-- What holds of a value's own identity, and passes from that of a part to those of its contents,
holds of the identities of all parts. -/
theorem Part.object_induction {motive : ObjectId → Prop} {value part : Value}
    (inside : value.Part part) (top : ∀ object, value.object? = some object → motive object)
    (down : ∀ whole id content object, value.Part whole → whole.object? = some id → motive id →
      content ∈ whole.contents → content.object? = some object → motive object)
    {object : ObjectId} (hobject : part.object? = some object) : motive object := by
  suffices hpath : ∀ whole part : Value, whole.Part part → value.Part whole →
      (∀ object, whole.object? = some object → motive object) →
      ∀ object, part.object? = some object → motive object from
    hpath value part inside (.self value) top object hobject
  intro whole part hpart
  induction hpart with
  | self => exact fun _ h => h
  | @content whole content part member _ ih =>
    intro hwhole hmotive
    obtain ⟨id, hid⟩ := object?_of_mem_contents member
    exact ih (hwhole.trans (.of_mem member)) fun object hobject =>
      down whole id content object hwhole hid (hmotive id hid) member hobject

end Value

/-- The handles that some values store are those of the objects among them. -/
theorem mem_storedHandles {values : List Value} {handle : Handle} :
    handle ∈ storedHandles values ↔
      ∃ value ∈ values, ∃ object, value.object? = some object ∧ handle = .object object := by
  simp only [storedHandles, List.mem_filterMap, Value.handle?_eq_some]

/-- A frame stores handles to its outer frame and to the objects it binds. -/
theorem Frame.mem_handles {frame : Frame} {handle : Handle} :
    handle ∈ frame.handles ↔ (∃ outer, frame.outer = some outer ∧ handle = .frame outer) ∨
      ∃ binding ∈ frame.bindings, ∃ object,
        binding.2.object? = some object ∧ handle = .object object := by
  simp only [Frame.handles, List.mem_append, List.mem_map, Option.mem_toList, mem_storedHandles]
  constructor
  · rintro (⟨outer, houter, rfl⟩ | ⟨_, ⟨binding, hbinding, rfl⟩, h⟩)
    · exact .inl ⟨outer, houter, rfl⟩
    · exact .inr ⟨binding, hbinding, h⟩
  · rintro (⟨outer, houter, rfl⟩ | ⟨binding, hbinding, h⟩)
    · exact .inl ⟨outer, houter, rfl⟩
    · exact .inr ⟨binding.2, ⟨binding, hbinding, rfl⟩, h⟩

end Scriptlet
