import Scriptlet.Proofs.Simulation.Relation

set_option autoImplicit false

/-!
# Native functions end alike

Component: the native functions.  Specification: section 4.4, by which each of them checks the
number and the types of its arguments, and section 10.6 on their diagnostics and on what they
return.

A native function looks at the types and texts of its arguments, takes arrays apart and makes new
ones of what it has, and uses the console.  A relation between two machines survives all of this.

Each of them is a case of its own, put together of a few parts that several share: counting the
arguments, taking the only one, taking the elements of an array.
-/

namespace Scriptlet

namespace Simulation

variable {left right : Setup} {aside aside' : Roots} {sim : Simulation left right aside aside'}

variable {held : Held} {l r : Machine}

/-- Whatever is done to one console may be done to the other. -/
theorem agree_onConsole {α : Type} (h : sim.Alike held l r) (change : Console → α × Console) :
    sim.Agree held (fun x y l r => x = y ∧ sim.Alike held l r) (Eval.onConsole change l)
      (Eval.onConsole change r) := by
  obtain ⟨link, h⟩ := h
  obtain ⟨heap, console, asked⟩ := l
  obtain ⟨heap', console', asked'⟩ := r
  have hconsole : console = console' := sim.console_eq h
  subst hconsole
  exact .ok ⟨rfl, link, sim.console (change console).2 asked asked' h⟩

/-- Matching values that are made of held values may be held together. -/
theorem related_holdAll {link : Link} {values others : List Value} (h : sim.Related link held l r)
    (hmatch : List.Forall₂ (Value.Match link) values others)
    (made : ∀ value ∈ values, value.MadeOf held.left.values)
    (made' : ∀ other ∈ others, other.MadeOf held.right.values) :
    sim.Related link (held.holdAll values others) l r := by
  induction hmatch with
  | nil => exact h
  | @cons first first' rest rest' hfirst hrest ih =>
    have hlength := hrest.length_eq
    have htail := ih (fun value hmem => made value (List.mem_cons_of_mem _ hmem))
      (fun other hmem => made' other (List.mem_cons_of_mem _ hmem))
    refine sim.hold htail hfirst ?_ ?_
    · rw [Held.left_holdAll hlength]
      exact (made first List.mem_cons_self).mono fun _ hmem => List.mem_append.mpr (.inr hmem)
    · rw [Held.right_holdAll hlength]
      exact (made' first' List.mem_cons_self).mono fun _ hmem => List.mem_append.mpr (.inr hmem)

/-- The contents of held arrays may be held. -/
theorem listed_elements {link : Link} {object object' : ObjectId} {elements others : List Value}
    (h : sim.Related link held l r)
    (hmem : (Value.array object elements, Value.array object' others) ∈ held.values) :
    sim.Listed held elements others l r := by
  have hmatch := (sim.values h _ hmem).contents
  refine ⟨hmatch.length_eq, link, related_holdAll h hmatch ?_ ?_⟩
  · exact fun _ hvalue => .of_part (List.mem_map_of_mem hmem) (.of_mem hvalue)
  · exact fun _ hvalue => .of_part (List.mem_map_of_mem hmem) (.of_mem hvalue)

/-- Values at the same place of held lists may be held. -/
theorem Listed.getElem? {values others : List Value} (h : sim.Listed held values others l r)
    (place : Nat) : sim.Optional held values[place]? others[place]? l r := by
  obtain ⟨hlength, halike⟩ := h
  by_cases hplace : place < values.length
  · have hzip : (values[place], others[place]) ∈ values.zip others :=
      List.mem_iff_getElem.mpr ⟨place, by simp [← hlength, hplace], by simp⟩
    rw [List.getElem?_eq_getElem hplace, List.getElem?_eq_getElem (hlength ▸ hplace)]
    exact .some (halike.weaken
      ((held.within_holdAll _ _).of_hold (List.mem_append.mpr (.inl hzip))))
  · rw [List.getElem?_eq_none (by omega), List.getElem?_eq_none (by omega)]
    exact .none (halike.weaken (held.within_holdAll _ _))

/-- The first of some values matches, if there is one. -/
theorem Listed.head? {values others : List Value} (h : sim.Listed held values others l r) :
    sim.Optional held values.head? others.head? l r := by
  rw [List.head?_eq_getElem?, List.head?_eq_getElem?]
  exact h.getElem? 0

/-- The last of some values matches, if there is one. -/
theorem Listed.getLast? {values others : List Value} (h : sim.Listed held values others l r) :
    sim.Optional held values.getLast? others.getLast? l r := by
  rw [List.getLast?_eq_getElem?, List.getLast?_eq_getElem?, ← h.1]
  exact h.getElem? _

/-- Both runs have as many arguments. -/
theorem agree_checkCount {values others : List Value} (h : sim.Listed held values others l r)
    (wanted : Nat) :
    sim.Agree held (fun _ _ l r => values.length = wanted ∧ sim.Listed held values others l r)
      (checkCount values wanted l) (checkCount others wanted r) := by
  rw [checkCount, checkCount, ← h.1]
  split
  next hcount => exact .ok ⟨hcount, h⟩
  next => exact .fault _ (h.2.weaken (held.within_holdAll _ _))

/-- The only argument of each may be held. -/
theorem agree_soleArgument {values others : List Value} (h : sim.Listed held values others l r) :
    sim.Agree held (sim.Valued held) (soleArgument values l) (soleArgument others r) := by
  refine (agree_checkCount h 1).bind (.refl held) fun _ _ l r ⟨_, hlisted⟩ => ?_
  rw [List.headD_eq_head?_getD, List.headD_eq_head?_getD]
  exact .ok hlisted.head?.getD

/-- Elements may be held beside the array that they are taken from. -/
theorem agree_elementsOf (operation : Intrinsic) {value other : Value}
    (h : sim.Valued held value other l r) :
    sim.Agree held (sim.Listed (held.hold value other)) (elementsOf operation value l)
      (elementsOf operation other r) := by
  obtain ⟨link, h⟩ := h
  have halike : sim.Alike held l r := ⟨link, sim.weaken h (held.within_hold _ _)⟩
  have hmatch := sim.values h (value, other) List.mem_cons_self
  cases hmatch with
  | array => exact .ok (listed_elements h List.mem_cons_self)
  | null | integer | boolean | string | hash | function | builtin => exact .fault _ halike

/-- Matching values have one length. -/
theorem agree_lengthOf {value other : Value} (h : sim.Valued held value other l r) :
    sim.Agree held (sim.Valued held) (lengthOf value l) (lengthOf other r) := by
  obtain ⟨link, h⟩ := h
  have halike : sim.Alike held l r := ⟨link, sim.weaken h (held.within_hold _ _)⟩
  have hmatch := sim.values h (value, other) List.mem_cons_self
  cases hmatch with
  | string s => exact .ok (.of_scalar halike rfl)
  | array same contents =>
    rw [lengthOf, lengthOf, contents.length_eq]
    exact .ok (.of_scalar halike rfl)
  | null | integer | boolean | hash | function | builtin => exact .fault _ halike

/-- A file is the same text in both runs. -/
theorem agree_readFile (h : sim.Alike held l r) (files : Files) (path : String) :
    sim.Agree held (sim.Valued held) (readFile files path l) (readFile files path r) := by
  have hasked : sim.Alike held ⟨l.heap, l.console, path :: l.filesAsked⟩
      ⟨r.heap, r.console, path :: r.filesAsked⟩ := by
    obtain ⟨link, h⟩ := h
    have hconsole := sim.console l.console (path :: l.filesAsked) (path :: r.filesAsked) h
    rw [sim.console_eq h] at hconsole ⊢
    exact ⟨link, hconsole⟩
  unfold readFile
  cases files.read path with
  | ok text => exact .ok (.of_scalar hasked rfl)
  | error fault => exact .fault _ hasked

/-- Matching values are written alike. -/
theorem writeValues_match {link : Link} {values others : List Value}
    (h : List.Forall₂ (Value.Match link) values others) : writeValues values = writeValues others := by
  have htexts : values.map Value.inspect = others.map Value.inspect := by
    induction h with
    | nil => rfl
    | cons first _ ih => rw [List.map_cons, List.map_cons, Value.Match.inspect _ first, ih]
  funext console
  rw [writeValues, writeValues, htexts]

/-- Native functions cannot tell two runs apart. -/
theorem agree_run (files : Files) (operation : Intrinsic) {values others : List Value}
    (h : sim.Listed held values others l r) :
    sim.Agree held (sim.Valued held) (operation.run files values l) (operation.run files others r) := by
  cases operation with
  | len =>
    refine (agree_soleArgument h).bind (.refl held) fun _ _ _ _ hvalue => ?_
    exact agree_lengthOf hvalue
  | first =>
    refine (agree_soleArgument h).bind (.refl held) fun value other _ _ hvalue => ?_
    refine (agree_elementsOf .first hvalue).bind (.refl held) fun _ _ _ _ hlisted => ?_
    exact .ok (hlisted.head?.getD.weaken (held.within_hold _ _))
  | last =>
    refine (agree_soleArgument h).bind (.refl held) fun value other _ _ hvalue => ?_
    refine (agree_elementsOf .last hvalue).bind (.refl held) fun _ _ _ _ hlisted => ?_
    exact .ok (hlisted.getLast?.getD.weaken (held.within_hold _ _))
  -- the arrays have the same length in both runs, so that both are empty or neither is
  | rest =>
    refine (agree_soleArgument h).bind (.refl held) fun value other _ _ hvalue => ?_
    refine (agree_elementsOf .rest hvalue).bind (.refl held)
      fun elements others _ _ hlisted => ?_
    obtain ⟨hlength, halike⟩ := hlisted
    cases elements with
    | nil =>
      cases others with
      | nil => exact .ok (.of_scalar (halike.weaken (held.within_hold _ _)) rfl)
      | cons => cases hlength
    | cons first rest =>
      cases others with
      | nil => cases hlength
      | cons first' rest' =>
        refine agree_newArray ⟨Nat.succ.inj hlength, halike.weaken ?_⟩
        refine ((held.within_hold _ _).trans (Held.within_holdAll _ _ _)).of_holdAll ?_
        exact fun pair hpair => List.mem_append.mpr (.inl (List.mem_cons_of_mem _ hpair))
  -- what is pushed stays held while the elements are taken
  | push =>
    refine (agree_checkCount h 2).bind (.refl held) fun _ _ _ _ ⟨hcount, hlisted⟩ => ?_
    obtain ⟨value, added, rfl⟩ := List.length_eq_two.mp hcount
    obtain ⟨value', added', rfl⟩ := List.length_eq_two.mp (hlisted.1.symm.trans hcount)
    have hvalue : sim.Valued (held.hold added added') value value' _ _ := hlisted.2
    refine (agree_elementsOf .push hvalue).bind (held.within_hold _ _)
      fun elements others _ _ ⟨hlength, halike⟩ => ?_
    refine agree_newArray ⟨by simp [hlength], halike.weaken ?_⟩
    refine (((held.within_hold _ _).trans (Held.within_hold _ _ _)).trans
      (Held.within_holdAll _ _ _)).of_holdAll fun pair hpair => ?_
    rw [List.zip_append hlength] at hpair
    rcases List.mem_append.mp hpair with hpair | hpair
    · exact List.mem_append.mpr (.inl hpair)
    · rw [List.mem_singleton.mp hpair]
      exact List.mem_append.mpr (.inr (List.mem_cons_of_mem _ List.mem_cons_self))
  -- matching values have one text, so that both runs write the same
  | puts =>
    obtain ⟨hlength, link, hrelated⟩ := h
    have hwrite := writeValues_match (forall₂_of_related hlength hrelated)
    have halike : sim.Alike held l r := ⟨link, sim.weaken hrelated (held.within_holdAll _ _)⟩
    change sim.Agree held _ ((Eval.onConsole (writeValues values) >>= _) l)
      ((Eval.onConsole (writeValues others) >>= _) r)
    rw [hwrite]
    refine (agree_onConsole halike _).bind (.refl held) fun result _ _ _ ⟨hsame, halike⟩ => ?_
    subst hsame
    cases result with
    | ok => exact .ok (.of_scalar halike rfl)
    | error fault => exact .fault _ halike
  | readline =>
    refine (agree_checkCount h 0).bind (.refl held) fun _ _ _ _ ⟨_, _, halike⟩ => ?_
    have halike := halike.weaken (held.within_holdAll _ _)
    refine (agree_onConsole halike _).bind (.refl held) fun result _ _ _ ⟨hsame, halike⟩ => ?_
    subst hsame
    cases result with
    | ok => exact .ok (.of_scalar halike rfl)
    | error fault => exact .fault _ halike
  | readfile =>
    refine (agree_soleArgument h).bind (.refl held) fun value other _ _ hvalue => ?_
    obtain ⟨link, hrelated⟩ := hvalue
    have halike : sim.Alike held _ _ := ⟨link, sim.weaken hrelated (held.within_hold _ _)⟩
    have hmatch := sim.values hrelated (value, other) List.mem_cons_self
    -- only a text is a path; anything else is the same fault in both runs
    cases hmatch with
    | string path => exact agree_readFile halike files path
    | null | integer | boolean | array | hash | function | builtin => exact .fault _ halike

end Simulation

end Scriptlet
