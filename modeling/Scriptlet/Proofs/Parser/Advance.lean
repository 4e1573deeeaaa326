import Scriptlet.Proofs.Parser.Grammar
import Scriptlet.Proofs.Parser.Run

set_option autoImplicit false

/-!
# Going forward

Component: the parser.  Specification: section 4.2, by which the parser looks at two tokens, the
current one and the next, and moves by one step of its own, `advance`.

Steps of the parser only go forward in the tokens (`ParseState.Follows`).  How far a parser still
has to go is told by the number of tokens that are left; it is smaller once a token other than the
end has been read (`ParseState.Ends.behind_lt_left`).  This is what all that is proved of progress
and of budgets is measured by.

There are two measures, since the parser stands on a token that it may or may not have used.  `left`
counts that token, `behind` does not.  At the end token both are one: the parser stays there however
often it advances, so `behind` does not become zero.

`Forward` is a class, so that whether a step goes forward is found by the shape of the step.  There
is an instance for each of the smallest steps here; that putting steps together keeps it is shown
where they are put together.
-/

namespace Scriptlet

/-! ## Ended lists -/

namespace Ended

variable {token : Token} {tokens : List Token}

/-- There is at least the end token. -/
theorem exists_cons (h : Ended tokens) : ∃ token rest, tokens = token :: rest := by
  cases h with
  | eof => exact ⟨_, _, rfl⟩
  | cons => exact ⟨_, _, rfl⟩

theorem ne_nil (h : Ended tokens) : tokens ≠ [] := by
  obtain ⟨token, rest, rfl⟩ := h.exists_cons
  exact List.cons_ne_nil token rest

/-- Behind a token that is not the end the list goes on. -/
theorem tail (h : Ended (token :: tokens)) (hne : token.kind ≠ .eof) : Ended tokens := by
  cases h with
  | eof h => exact absurd h hne
  | cons _ h => exact h

/-- Behind the end token there is nothing. -/
theorem eq_nil (h : Ended (token :: tokens)) (heof : token.kind = .eof) : tokens = [] := by
  cases h with
  | eof => rfl
  | cons h => exact absurd heof h

/-- What is left of an ended list is one, as long as something is left. -/
theorem of_suffix {others : List Token} (h : Ended tokens)
    (hsuffix : token :: others <:+ tokens) : Ended (token :: others) := by
  induction h with
  | eof heof =>
    obtain hsuffix | hsuffix := List.suffix_cons_iff.mp hsuffix
    · rw [hsuffix]
      exact .eof heof
    · cases List.suffix_nil.mp hsuffix
  | cons hne hended ih =>
    obtain hsuffix | hsuffix := List.suffix_cons_iff.mp hsuffix
    · rw [hsuffix]
      exact .cons hne hended
    · exact ih hsuffix

end Ended

/-! ## States -/

namespace ParseState

variable {start state : ParseState}

/-- How many tokens are left, the current one included. -/
def left (state : ParseState) : Nat := state.rest.length + 1

/-- Whether a state is reached from another by going forward. -/
def Follows (state start : ParseState) : Prop :=
  state.current :: state.rest <:+ start.current :: start.rest

/-- Staying is going forward. -/
theorem Follows.refl (state : ParseState) : state.Follows state := List.suffix_rfl

/-- Going forward twice is going forward. -/
theorem Follows.trans {last : ParseState} (h : last.Follows state) (h' : state.Follows start) :
    last.Follows start := List.IsSuffix.trans h h'

/-- To advance is to drop a token, or to stay at the end. -/
theorem follows_advance (state : ParseState) : state.advance.Follows state := by
  unfold Follows advance
  split
  · exact List.suffix_rfl
  next token rest hrest =>
    rw [hrest]
    exact List.suffix_cons _ _

/-- How many tokens are left when the current one has been read. -/
def behind (state : ParseState) : Nat := state.advance.left

theorem left_advance (state : ParseState) : state.advance.left = state.behind := rfl

/-- Going forward, there are ever fewer tokens left. -/
theorem Follows.left_le (h : state.Follows start) : state.left ≤ start.left :=
  List.IsSuffix.length_le h

theorem behind_le_left (state : ParseState) : state.behind ≤ state.left :=
  state.follows_advance.left_le

/-- At the last token there is still that token to be read. -/
theorem behind_eq_max (state : ParseState) : state.behind = max state.rest.length 1 := by
  unfold behind left advance
  split
  next hrest => simp [hrest]
  next token rest hrest => simp [hrest]

/-- The same without the current token. -/
theorem Follows.behind_le (h : state.Follows start) : state.behind ≤ start.behind := by
  have hleft := h.left_le
  unfold left at hleft
  rw [behind_eq_max, behind_eq_max]
  omega

/-- What was looked at becomes the current token. -/
theorem current_advance (state : ParseState) : state.advance.current = state.peek := by
  unfold advance peek
  split
  next hrest => rw [hrest, List.headD_nil]
  next token rest hrest => rw [hrest, List.headD_cons]

theorem kind_advance {kind : TokenKind} (state : ParseState) (h : state.peek.kind = kind) :
    state.advance.current.kind = kind := by
  rw [current_advance]
  exact h

/-- Whether the tokens that are left end with the end token. -/
def Ends (state : ParseState) : Prop := Ended (state.current :: state.rest)

/-- The end token stays ahead wherever the parser goes. -/
theorem Ends.of_follows (h : start.Ends) (hfollows : state.Follows start) : state.Ends :=
  Ended.of_suffix h hfollows

theorem Ends.advance (h : state.Ends) : state.advance.Ends := h.of_follows state.follows_advance

/-- A token other than the end is gone when it has been read. -/
theorem Ends.behind_lt_left (h : state.Ends) (hne : state.current.kind ≠ .eof) :
    state.behind < state.left := by
  have hrest := List.length_pos_iff.mpr (Ended.tail h hne).ne_nil
  rw [behind_eq_max]
  unfold left
  omega

/-- Advancing onto a token that is not the end makes less of what is behind. -/
theorem Ends.behind_advance_lt (h : state.Ends) (hne : state.peek.kind ≠ .eof) :
    state.advance.behind < state.behind :=
  h.advance.behind_lt_left (by rwa [current_advance])

theorem Ends.rest_of_eof (h : state.Ends) (heof : state.current.kind = .eof) : state.rest = [] :=
  Ended.eq_nil h heof

/-- If nothing is left behind the current token, then it is the end. -/
theorem Ends.kind_of_rest (h : state.Ends) (hrest : state.rest = []) :
    state.current.kind = .eof := by
  by_cases heof : state.current.kind = .eof
  · exact heof
  · exact absurd hrest (Ended.tail h heof).ne_nil

/-- Behind the end token there is that token again. -/
theorem Ends.peek_of_eof (h : state.Ends) (heof : state.current.kind = .eof) :
    state.peek.kind = .eof := by
  unfold peek
  rw [h.rest_of_eof heof]
  exact heof

/-- From the end token there is no way on. -/
theorem Follows.eq_of_eof (h : state.Follows start) (hends : start.Ends)
    (heof : start.current.kind = .eof) :
    state.current = start.current ∧ state.rest = start.rest := by
  have hrest := hends.rest_of_eof heof
  unfold Follows at h
  rw [hrest] at h ⊢
  obtain h | h := List.suffix_cons_iff.mp h
  · exact List.cons.inj h
  · cases List.suffix_nil.mp h

end ParseState

/-! ## Steps -/

namespace Parse

/-- Whether a step only goes forward. -/
class Forward {α : Type} (step : Parse α) : Prop where
  follows : ∀ state, (step.outcome state).2.Follows state

/-- A step that reads no token. -/
theorem forward_of_stays {α : Type} {step : Parse α}
    (h : ∀ state, (step.outcome state).2.current = state.current ∧
      (step.outcome state).2.rest = state.rest) : Forward step := by
  refine ⟨fun state => ?_⟩
  obtain ⟨hcurrent, hrest⟩ := h state
  exact ⟨[], by rw [List.nil_append, hcurrent, hrest]⟩

instance : Forward current := forward_of_stays fun _ => ⟨rfl, rfl⟩

instance : Forward peekKind := forward_of_stays fun _ => ⟨rfl, rfl⟩

instance : Forward advance := ⟨ParseState.follows_advance⟩

instance {α : Type} (token : Token) (reason : SyntaxFault) :
    Forward (fault token reason : Parse α) := forward_of_stays fun _ => ⟨rfl, rfl⟩

instance (wanted : TokenKind) : Forward (expect wanted) where
  follows := by
    intro state
    rw [outcome_expect]
    split
    · exact state.follows_advance
    · exact .refl state

instance {α : Type} (result : Option α) : Forward (require result) :=
  forward_of_stays fun _ => ⟨rfl, rfl⟩

instance : Forward skipSemicolon where
  follows := by
    intro state
    rw [outcome_skipSemicolon]
    dsimp only
    split
    · exact state.follows_advance
    · exact .refl state

instance (first : Token) : Forward (spanFrom first) := forward_of_stays fun _ => ⟨rfl, rfl⟩

end Parse

end Scriptlet
