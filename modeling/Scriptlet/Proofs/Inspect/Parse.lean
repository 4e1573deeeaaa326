import Scriptlet.Proofs.Inspect.Denote
import Scriptlet.Proofs.Inspect.Words
import Scriptlet.Proofs.Parser.Complete

set_option autoImplicit false

/-!
# The words of plain values are parsed

Component: the parser.  Specification: section 4.2, by which a part that fails is noted and the
production goes on, and section 10.3, by which digits that are too many are an error and the
statement is dropped.

Tokens with the words of a plain value are parsed as a tree that denotes the value, unless the least
integer is in it.  The digits of that are no integer, so each time they are met an error is recorded
and the phrase around them fails, up to the whole value.  Failing does not make the parser miss a
token: whether it fails or not, it stops at the last token of the phrase (`Parse.Settles`).  So both
outcomes are proved by one induction.

All this holds where the token behind a phrase does not make it longer.

That a phrase that fails stops at its last token is what makes the number of errors come out: a
parser that gave up earlier would start a statement in the middle of the value and report what it
finds there.  It is so because productions attempt their parts and require them only at the end.

`Settled` puts the two outcomes into one statement: there is a good result just if there are no
errors.  Results are put together by `Settled.map` and `Settled.zip`, which follow the way a
production puts its parts together.
-/

namespace Scriptlet

open Parse

/-! ## Errors -/

/-- The errors for the digits of the least integer among some tokens. -/
def rangeErrors (tokens : List Token) : List SyntaxError :=
  (tokens.filter fun token => token.literal = leastDigits).map fun token =>
    ⟨token.span, .integerRange leastDigits⟩

/-- Errors come in the order of the tokens. -/
theorem rangeErrors_append (tokens others : List Token) :
    rangeErrors (tokens ++ others) = rangeErrors tokens ++ rangeErrors others := by
  rw [rangeErrors, List.filter_append, List.map_append]
  rfl

/-- Other tokens have none. -/
theorem rangeErrors_cons_of_ne {token : Token} (h : token.literal ≠ leastDigits)
    (tokens : List Token) : rangeErrors (token :: tokens) = rangeErrors tokens := by
  rw [rangeErrors, List.filter_cons_of_neg (by simpa using h)]
  rfl

/-- These digits have one, at their place. -/
theorem rangeErrors_singleton {token : Token} (h : token.literal = leastDigits) :
    rangeErrors [token] = [⟨token.span, .integerRange leastDigits⟩] := by
  simp [rangeErrors, h]

/-- A token with the word of a symbol has its name for a literal. -/
theorem literal_of_mark {token : Token} {kind : TokenKind} (h : token.spelling = kind.mark) :
    token.literal = kind.name :=
  congrArg Prod.snd h

/-- A symbol has no error. -/
theorem rangeErrors_mark {token : Token} {kind : TokenKind} (h : token.spelling = kind.mark)
    (hkind : kind.name ≠ leastDigits) (tokens : List Token) :
    rangeErrors (token :: tokens) = rangeErrors tokens :=
  rangeErrors_cons_of_ne (literal_of_mark h ▸ hkind) tokens

/-- There are as many errors as there are words of these digits. -/
theorem length_rangeErrors (tokens : List Token) :
    (rangeErrors tokens).length = leastCount (tokens.map Token.spelling) := by
  rw [rangeErrors, List.length_map, ← List.countP_eq_length_filter, leastCount, List.countP_map]
  rfl

/-! ## Results -/

/-- Whether there is a good result, just if there are no errors. -/
def Settled {α : Type} (errors : List SyntaxError) (good : α → Prop) : Option α → Prop
  | none => errors ≠ []
  | some result => errors = [] ∧ good result

section

variable {α β γ : Type} {errors others : List SyntaxError} {good : α → Prop} {good' : β → Prop}

/-- What is made of a result is there just if the result is. -/
theorem Settled.map {wanted : β → Prop} {result : Option α} (h : Settled errors good result)
    (f : α → β) (hgood : ∀ found, good found → wanted (f found)) :
    Settled errors wanted (result.map f) := by
  cases result with
  | none => exact h
  | some found => exact ⟨h.1, hgood found h.2⟩

/-- Two results are put together if both are there. -/
theorem Settled.zip {wanted : γ → Prop} {first : Option α} {second : Option β}
    (h : Settled errors good first) (h' : Settled others good' second) (f : α → β → γ)
    (hgood : ∀ a b, good a → good' b → wanted (f a b)) :
    Settled (errors ++ others) wanted (second.bind fun b => first.map fun a => f a b) := by
  cases first with
  | none =>
    have hnone : (second.bind fun b => (none : Option α).map fun a => f a b) = none := by
      cases second <;> rfl
    rw [hnone]
    exact fun hnil => h (List.append_eq_nil_iff.mp hnil).1
  | some a =>
    cases second with
    | none => exact fun hnil => h' (List.append_eq_nil_iff.mp hnil).2
    | some b => exact ⟨by rw [h.1, h'.1]; rfl, hgood a b h.2 h'.2⟩

end

/-! ## Steps of the parser -/

namespace Parse

variable {α β γ : Type}

/-- Whether a step stops at the last of some tokens, records an error for each digits of the least
integer among them, and has a good result just if there are none. -/
def Settles (step : Parse α) (good : α → Prop) (state : ParseState) (s rest : List Token)
    (errors : List SyntaxError) : Prop :=
  ∃ last result after, step.outcome state = (result, after) ∧
    after.After last rest (errors ++ rangeErrors s) ∧ Settled (rangeErrors s) good result

theorem outcome_require (result : Option α) (state : ParseState) :
    (require result).outcome state = (result, state) := rfl

/-- An attempt goes on with whatever the step has left. -/
theorem yields_attempt {step : Parse α} {state after : ParseState} {result : Option α}
    (h : step.outcome state = (result, after)) : (attempt step).Yields state result after := by
  rw [Yields, outcome_attempt, h]

/-- What is made of the result of a step. -/
theorem outcome_bind_pure {step : Parse α} {state after : ParseState} {result : Option α}
    (h : step.outcome state = (result, after)) (f : α → β) :
    (step >>= fun found => pure (f found)).outcome state = (result.map f, after) := by
  rw [outcome_bind, h]
  cases result <;> rfl

/-- What is made of the result of a step and of one that was attempted before it. -/
theorem outcome_bind_require {step : Parse β} {state after : ParseState} {result : Option β}
    (h : step.outcome state = (result, after)) (first : Option α) (f : α → β → γ) :
    (step >>= fun b => require first >>= fun a => pure (f a b)).outcome state =
      (result.bind fun b => first.map fun a => f a b, after) := by
  rw [outcome_bind, h]
  cases result with
  | none => rfl
  | some b => exact outcome_bind_pure (outcome_require first after) fun a => f a b

end Parse

/-- Whether some tokens are parsed as a good expression, or fail for the digits of the least
integer. -/
def ReadsAs (s : List Token) (good : Expression → Prop) : Prop :=
  ∀ budget floor next rest state errors, 4 * s.length ≤ budget → next.kind.quiet = true →
    state.Before (s ++ next :: rest) errors →
    (expression budget floor).Settles good state s (next :: rest) errors

/-- What makes an expression good may be weakened. -/
theorem ReadsAs.mono {s : List Token} {good wanted : Expression → Prop} (h : ReadsAs s good)
    (hgood : ∀ tree, good tree → wanted tree) : ReadsAs s wanted := by
  intro budget floor next rest state errors hbudget hquiet hstate
  obtain ⟨last, result, after, houtcome, hafter, hfound⟩ :=
    h budget floor next rest state errors hbudget hquiet hstate
  refine ⟨last, result, after, houtcome, hafter, ?_⟩
  have hmap := hfound.map id hgood
  rwa [Option.map_id] at hmap

/-- An operand is read as an expression where nothing makes it longer. -/
theorem ReadsAs.of_operand {s : List Token} {good : Expression → Prop} (hne : s ≠ [])
    (h : ∀ budget next rest state errors, 4 * s.length ≤ budget + 1 → next.kind.quiet = true →
      state.Before (s ++ next :: rest) errors →
      (operand budget).Settles good state s (next :: rest) errors) : ReadsAs s good := by
  intro budget floor next rest state errors hbudget hquiet hstate
  have hlength := List.length_pos_iff.mpr hne
  obtain ⟨budget, rfl⟩ : ∃ smaller, budget = smaller + 2 := ⟨budget - 2, by omega⟩
  obtain ⟨last, result, after, houtcome, hafter, hfound⟩ :=
    h (budget + 1) next rest state errors hbudget hquiet hstate
  refine ⟨last, result, after, ?_, hafter, hfound⟩
  rw [expression, outcome_bind, houtcome]
  cases result with
  | none => rfl
  | some tree =>
    refine extended_stop ?_
    rw [hafter.peek, TokenKind.rank_of_quiet hquiet]
    exact Nat.zero_le _

/-! ## Numbers and truth values -/

/-- One token that is an operand. -/
theorem reads_token {token : Token} {tree : Expression} (h : token.operand? = some tree)
    (hliteral : token.literal ≠ leastDigits) : ReadsAs [token] (· = tree) := by
  refine ReadsAs.of_operand (List.cons_ne_nil _ _) ?_
  intro budget next rest state errors hbudget _ hstate
  rw [List.length_singleton] at hbudget
  obtain ⟨budget, rfl⟩ := Nat.exists_eq_add_one_of_ne_zero (by omega : budget ≠ 0)
  have hnone : rangeErrors [token] = [] := rangeErrors_cons_of_ne hliteral []
  refine ⟨token, some tree, state, yields_operand (hstate.current.symm ▸ h), ?_, hnone, rfl⟩
  rw [hnone, List.append_nil]
  exact hstate.after (List.cons_ne_nil _ _)

/-- To record an error is not to move. -/
theorem ParseState.After.record {state : ParseState} {last : Token} {tokens : List Token}
    {errors : List SyntaxError} (h : state.After last tokens errors) (error : SyntaxError) :
    (state.record error).After last tokens (errors ++ [error]) :=
  ⟨h.current, h.ahead, congrArg (· ++ [error]) h.errors⟩

/-- The digits of an integer, or of the least one. -/
theorem reads_digits {token : Token} {n : Nat} (h : token.spelling = digitsWord n)
    (hn : n ≤ leastMagnitude) : ReadsAs [token] (· = .integer token (Int64.ofNat n)) := by
  obtain ⟨hkind, hliteral⟩ := Prod.mk.inj h
  by_cases hlt : n < leastMagnitude
  · apply reads_token
    · rw [Token.operand?, hkind]
      dsimp only
      rw [hliteral, integerLiteral?_repr, if_pos hlt]
      rfl
    · rw [hliteral]
      exact fun heq => Nat.ne_of_lt hlt (repr_eq_leastDigits_iff.mp heq)
  · have hleast : token.literal = leastDigits :=
      hliteral.trans (repr_eq_leastDigits_iff.mpr (by omega))
    have hrange : integerLiteral? token.literal = none := by
      rw [hliteral, integerLiteral?_repr, if_neg hlt]
    refine ReadsAs.of_operand (List.cons_ne_nil _ _) ?_
    intro budget next rest state errors hbudget _ hstate
    rw [List.length_singleton] at hbudget
    obtain ⟨budget, rfl⟩ := Nat.exists_eq_add_one_of_ne_zero (by omega : budget ≠ 0)
    refine ⟨token, none, state.record ⟨token.span, .integerRange leastDigits⟩, ?_, ?_, ?_⟩
    · rw [operand, outcome_bind_of_yields (yields_current state), hstate.current]
      simp only [hkind, hrange]
      rw [← hleast]
      rfl
    · rw [rangeErrors_singleton hleast]
      exact (hstate.after (List.cons_ne_nil _ _)).record _
    · rw [rangeErrors_singleton hleast]
      exact List.cons_ne_nil _ _

/-- A minus in front of an operand. -/
theorem ReadsAs.negative {token : Token} {s : List Token} {good : Expression → Prop}
    (h : ReadsAs s good) (htoken : token.spelling = TokenKind.minus.mark) :
    ReadsAs (token :: s) fun tree => ∃ right, tree = .unary token .negate right ∧ good right := by
  have hkind := Token.kind_of_mark htoken
  refine ReadsAs.of_operand (List.cons_ne_nil _ _) ?_
  intro budget next rest state errors hbudget hquiet hstate
  rw [List.length_cons] at hbudget
  obtain ⟨budget, rfl⟩ := Nat.exists_eq_add_one_of_ne_zero (by omega : budget ≠ 0)
  have hahead := (hstate.after (by simp)).advance
  obtain ⟨last, result, after, houtcome, hafter, hfound⟩ :=
    h budget .unary next rest state.advance errors (by omega) hquiet hahead
  refine ⟨last, result.map (.unary token .negate), after, ?_, ?_, ?_⟩
  · rw [operand, outcome_bind_of_yields (yields_current state), hstate.current]
    simp only [hkind]
    rw [outcome_bind_of_yields (yields_advance state)]
    exact outcome_bind_pure houtcome _
  · rwa [rangeErrors_mark htoken (by decide)]
  · rw [rangeErrors_mark htoken (by decide)]
    exact hfound.map _ fun right hright => ⟨right, rfl, hright⟩

/-- What tokens with the words of a value are read as. -/
def Value.Parses (value : Value) : Prop :=
  ∀ s : List Token, s.map Token.spelling = value.words → ReadsAs s (Denotes · value)

/-- An integer comes out of its digits and its minus. -/
theorem ofNat_natAbs_toInt (n : Int64) :
    (if n.toInt < 0 then -Int64.ofNat n.toInt.natAbs else Int64.ofNat n.toInt.natAbs) = n := by
  have hofNat : Int64.ofNat n.toInt.natAbs = Int64.ofInt n.toInt.natAbs := rfl
  rw [hofNat]
  split
  next h =>
    rw [← Int64.ofInt_neg, Int.ofNat_natAbs_of_nonpos (Int.le_of_lt h), Int.neg_neg,
      Int64.ofInt_toInt]
  next h => rw [Int.natAbs_of_nonneg (Int.not_lt.mp h), Int64.ofInt_toInt]

/-- The words of an integer are read as it, or rejected if it is the least one. -/
theorem parses_integer (n : Int64) : (Value.integer n).Parses := by
  intro s hs
  have hn := ofNat_natAbs_toInt n
  rw [Value.words, integerWords] at hs
  split at hs
  next hnegative =>
    rw [if_pos hnegative] at hn
    have hvalue : Value.integer n = .integer (-Int64.ofNat n.toInt.natAbs) := by rw [hn]
    obtain ⟨minus, s, rfl, hminus, hs⟩ := List.map_eq_cons_iff.mp hs
    obtain ⟨digits, s, rfl, hdigits, hs⟩ := List.map_eq_cons_iff.mp hs
    obtain rfl := List.map_eq_nil_iff.mp hs
    refine ((reads_digits hdigits (natAbs_toInt_le n)).negative hminus).mono ?_
    rintro tree ⟨right, rfl, rfl⟩
    rw [hvalue]
    exact denotes_negative minus digits _
  next hnegative =>
    rw [if_neg hnegative] at hn
    have hvalue : Value.integer n = .integer (Int64.ofNat n.toInt.natAbs) := by rw [hn]
    obtain ⟨digits, s, rfl, hdigits, hs⟩ := List.map_eq_cons_iff.mp hs
    obtain rfl := List.map_eq_nil_iff.mp hs
    refine (reads_digits hdigits (natAbs_toInt_le n)).mono ?_
    rintro tree rfl
    rw [hvalue]
    exact denotes_integer digits _

/-- The word of a truth value is read as it. -/
theorem parses_boolean (b : Bool) : (Value.boolean b).Parses := by
  intro s hs
  obtain ⟨token, s, rfl, htoken, hs⟩ := List.map_eq_cons_iff.mp hs
  obtain rfl := List.map_eq_nil_iff.mp hs
  have hoperand : token.operand? = some (.boolean token b) ∧ token.literal ≠ leastDigits := by
    cases b with
    | true =>
      obtain ⟨hkind, hliteral⟩ := Prod.mk.inj htoken
      exact ⟨by simp only [Token.operand?, hkind], hliteral ▸ by decide⟩
    | false =>
      obtain ⟨hkind, hliteral⟩ := Prod.mk.inj htoken
      exact ⟨by simp only [Token.operand?, hkind], hliteral ▸ by decide⟩
  refine (reads_token hoperand.1 hoperand.2).mono ?_
  rintro tree rfl
  exact denotes_boolean token b

theorem Value.parses_of_type {value : Value}
    (h : value.type = .integer ∨ value.type = .boolean) : value.Parses := by
  cases value with
  | integer n => exact parses_integer n
  | boolean b => exact parses_boolean b
  | null | string | array | hash | function | builtin => rcases h with h | h <;> cases h

/-! ## What stands in brackets -/

/-- Nor has a symbol at the end. -/
theorem rangeErrors_append_mark {token : Token} {kind : TokenKind}
    (h : token.spelling = kind.mark) (hkind : kind.name ≠ leastDigits) (tokens : List Token) :
    rangeErrors (tokens ++ [token]) = rangeErrors tokens := by
  rw [rangeErrors_append, rangeErrors_mark h hkind]
  exact List.append_nil _

/-- What is read behind an opening bracket, up to the closing one, makes an operand. -/
theorem ReadsAs.bracketed {α : Type} {s : List Token} {words : List (TokenKind × String)}
    {opening closing : TokenKind} {good : α → Prop} {wanted : Expression → Prop}
    (inside : Nat → Parse α) (make : Token → α → Expression)
    (hs : s.map Token.spelling = opening.mark :: (words ++ [closing.mark]))
    (hname : opening.name ≠ leastDigits)
    (hoperand : ∀ budget state, state.current.kind = opening →
      (operand (budget + 1)).outcome state =
        (inside budget >>= fun found => pure (make state.current found)).outcome state)
    (hinside : ∀ budget (token close : Token) (inner rest : List Token) errors state,
      inner.map Token.spelling = words → close.spelling = closing.mark → rest ≠ [] →
      4 * inner.length + 2 ≤ budget → state.After token (inner ++ close :: rest) errors →
      (inside budget).Settles good state (inner ++ [close]) rest errors)
    (hgood : ∀ token found, good found → wanted (make token found)) : ReadsAs s wanted := by
  obtain ⟨token, s, rfl, hopening, hs⟩ := List.map_eq_cons_iff.mp hs
  obtain ⟨inner, tail, rfl, hinner, htail⟩ := List.map_eq_append_iff.mp hs
  obtain ⟨close, tail, rfl, hclose, htail⟩ := List.map_eq_cons_iff.mp htail
  obtain rfl := List.map_eq_nil_iff.mp htail
  refine ReadsAs.of_operand (List.cons_ne_nil _ _) ?_
  intro budget next rest state errors hbudget _ hstate
  rw [List.length_cons, List.length_append, List.length_singleton] at hbudget
  obtain ⟨budget, rfl⟩ := Nat.exists_eq_add_one_of_ne_zero (by omega : budget ≠ 0)
  rw [List.cons_append, List.append_assoc, List.singleton_append] at hstate
  obtain ⟨last, result, after, houtcome, hafter, hfound⟩ :=
    hinside budget token close inner (next :: rest) errors state hinner hclose
      (List.cons_ne_nil next rest) (by omega) (hstate.after (by simp))
  have hcurrent := hstate.current
  refine ⟨last, result.map (make token), after, ?_, ?_, ?_⟩
  · rw [hoperand budget state (hcurrent ▸ Token.kind_of_mark hopening), hcurrent]
    exact outcome_bind_pure houtcome _
  · rwa [rangeErrors_mark hopening hname]
  · rw [rangeErrors_mark hopening hname]
    exact hfound.map _ (hgood token)

/-! ## Arrays -/

/-- The tokens of a plain value begin with one that neither closes anything nor begins another
statement. -/
theorem Value.Plain.exists_tokens_eq_cons {value : Value} (h : value.Plain) {s : List Token}
    (hs : s.map Token.spelling = value.words) :
    ∃ first rest, s = first :: rest ∧ first.kind.opensPlain = true := by
  obtain ⟨word, words, hwords, hopens⟩ := h.exists_words_eq_cons
  rw [hwords] at hs
  obtain ⟨first, rest, rfl, hfirst, _⟩ := List.map_eq_cons_iff.mp hs
  have hkind : first.kind = word.1 := congrArg Prod.fst hfirst
  exact ⟨first, rest, rfl, hkind.symm ▸ hopens⟩

/-- A token that a value begins with is no other one. -/
theorem TokenKind.ne_of_opensPlain {kind other : TokenKind} (h : kind.opensPlain = true)
    (hother : other.opensPlain = false) : kind ≠ other := by
  rintro rfl
  rw [hother] at h
  cases h

section

variable {close : Token} {rest s : List Token} {errors : List SyntaxError} {state : ParseState}

/-- Values with a comma between them, up to a closing bracket. -/
theorem settles_moreExpressions (budget : Nat) {first : Value} {values : List Value}
    (h : ∀ value ∈ first :: values, value.Parses)
    (hs : s.map Token.spelling = joined (wordsOfValues (first :: values)))
    (hclose : close.spelling = TokenKind.rightBracket.mark) (hne : rest ≠ [])
    (hbudget : 4 * s.length + 1 ≤ budget) (hstate : state.Before (s ++ close :: rest) errors) :
    (moreExpressions budget .rightBracket).Settles (List.Forall₂ Denotes · (first :: values)) state
      (s ++ [close]) rest errors := by
  induction values generalizing first s budget state errors with
  -- the last element: the bracket closes behind it
  | nil =>
    obtain ⟨budget, rfl⟩ := Nat.exists_eq_add_one_of_ne_zero (by omega : budget ≠ 0)
    have hkind := Token.kind_of_mark hclose
    obtain ⟨last, result, after, houtcome, hafter, hfound⟩ :=
      h first List.mem_cons_self s hs budget .lowest close rest state errors (by omega)
        (by rw [hkind]; rfl) hstate
    refine ⟨close, result.map fun tree => [tree], after.advance, ?_, ?_, ?_⟩
    · rw [moreExpressions, outcome_bind_of_yields (yields_attempt houtcome),
        outcome_bind_of_yields (yields_peekKind after), hafter.peek, hkind, if_neg (by decide),
        outcome_bind_of_yields (yields_expect_of_after hafter hkind)]
      exact outcome_bind_pure (outcome_require result _) _
    · rw [rangeErrors_append_mark hclose (by decide)]
      exact hafter.advance.after hne
    · rw [rangeErrors_append_mark hclose (by decide)]
      exact hfound.map _ fun tree htree => .cons htree .nil
  | cons second values ih =>
    -- otherwise a comma comes next, and the others behind it
    have hjoined : joined (wordsOfValues (first :: second :: values)) =
        first.words ++ TokenKind.comma.mark :: joined (wordsOfValues (second :: values)) := rfl
    rw [hjoined] at hs
    obtain ⟨front, tail, rfl, hfront, htail⟩ := List.map_eq_append_iff.mp hs
    obtain ⟨comma, s, rfl, hcomma, hs⟩ := List.map_eq_cons_iff.mp htail
    have hkind := Token.kind_of_mark hcomma
    rw [List.append_assoc, List.cons_append] at hstate
    rw [List.length_append, List.length_cons] at hbudget
    obtain ⟨budget, rfl⟩ := Nat.exists_eq_add_one_of_ne_zero (by omega : budget ≠ 0)
    obtain ⟨last, result, after, houtcome, hafter, hfound⟩ :=
      h first List.mem_cons_self front hfront budget .lowest comma _ state errors (by omega)
        (by rw [hkind]; rfl) hstate
    have hahead := (hafter.advance.after (by simp)).advance
    obtain ⟨last', results, after', houtcome', hafter', hfound'⟩ :=
      ih budget (fun value hmem => h value (List.mem_cons_of_mem _ hmem)) hs (by omega) hahead
    have herrors : rangeErrors ((front ++ comma :: s) ++ [close]) =
        rangeErrors front ++ rangeErrors (s ++ [close]) := by
      rw [List.append_assoc, List.cons_append, rangeErrors_append,
        rangeErrors_mark hcomma (by decide)]
    refine ⟨last', results.bind fun trees => result.map (· :: trees), after', ?_, ?_, ?_⟩
    · rw [moreExpressions, outcome_bind_of_yields (yields_attempt houtcome),
        outcome_bind_of_yields (yields_peekKind after), hafter.peek, hkind, if_pos rfl,
        outcome_bind_of_yields (yields_advance _), outcome_bind_of_yields (yields_advance _)]
      exact outcome_bind_require houtcome' result List.cons
    · rwa [herrors, ← List.append_assoc]
    · rw [herrors]
      exact hfound.zip hfound' List.cons fun _ _ htree htrees => .cons htree htrees

/-- The same, of any number of values behind an opening bracket. -/
theorem settles_expressions (budget : Nat) {opening : Token} {values : List Value}
    (plain : ∀ value ∈ values, value.Plain) (h : ∀ value ∈ values, value.Parses)
    (hs : s.map Token.spelling = joined (wordsOfValues values))
    (hclose : close.spelling = TokenKind.rightBracket.mark) (hne : rest ≠ [])
    (hbudget : 4 * s.length + 2 ≤ budget)
    (hstate : state.After opening (s ++ close :: rest) errors) :
    (expressions budget .rightBracket).Settles (List.Forall₂ Denotes · values) state
      (s ++ [close]) rest errors := by
  obtain ⟨budget, rfl⟩ := Nat.exists_eq_add_one_of_ne_zero (by omega : budget ≠ 0)
  have hahead := hstate.advance
  have hstep : (expressions (budget + 1) .rightBracket).outcome state =
      (if state.advance.current.kind = .rightBracket then pure []
        else moreExpressions budget .rightBracket : Parse (List Expression)).outcome
          state.advance := by
    rw [expressions, outcome_bind_of_yields (yields_advance state),
      outcome_bind_of_yields (yields_current _)]
  cases values with
  | nil =>
    obtain rfl := List.map_eq_nil_iff.mp hs
    have hnone : rangeErrors ([] ++ [close]) = [] := rangeErrors_append_mark hclose (by decide) []
    refine ⟨close, some [], state.advance, ?_, ?_, hnone, .nil⟩
    · rw [hstep, hahead.current, if_pos (Token.kind_of_mark hclose)]
      rfl
    · rw [hnone, List.append_nil]
      exact hahead.after hne
  | cons first values =>
    have hfirst : ∃ token others, s = token :: others ∧ token.kind.opensPlain = true := by
      cases values with
      | nil => exact (plain first List.mem_cons_self).exists_tokens_eq_cons hs
      | cons second values =>
        obtain ⟨front, tail, rfl, hfront, _⟩ := List.map_eq_append_iff.mp hs
        obtain ⟨token, others, rfl, hopens⟩ :=
          (plain first List.mem_cons_self).exists_tokens_eq_cons hfront
        exact ⟨token, others ++ tail, rfl, hopens⟩
    obtain ⟨token, others, rfl, hopens⟩ := hfirst
    obtain ⟨last, result, after, houtcome, hsettles⟩ :=
      settles_moreExpressions budget h hs hclose hne (by omega) hahead
    refine ⟨last, result, after, ?_, hsettles⟩
    rw [hstep, hahead.current, if_neg (TokenKind.ne_of_opensPlain hopens rfl), houtcome]

end

/-- An array is its elements in brackets. -/
theorem parses_array (id : ObjectId) {elements : List Value}
    (plain : ∀ element ∈ elements, element.Plain) (h : ∀ element ∈ elements, element.Parses) :
    (Value.array id elements).Parses := by
  intro s hs
  rw [Value.words] at hs
  refine ReadsAs.bracketed (fun budget => expressions budget .rightBracket) .array hs (by decide)
    ?_ ?_ fun token trees htrees => denotes_array token id htrees
  · intro budget state hkind
    rw [operand, outcome_bind_of_yields (yields_current state)]
    simp only [hkind]
  · intro budget token close inner rest errors state hinner hclose hne hbudget hstate
    exact settles_expressions budget plain h hinner hclose hne hbudget hstate

/-! ## Hashes -/

/-- What tokens with the words of the name and of the value of an entry are read as. -/
structure Entry.Parses (entry : Entry) : Prop where
  plain : entry.name.Plain
  name : entry.name.Parses
  value : entry.value.Parses

/-- Whether some tokens have the words of entries that are not the first ones: with a comma in front
of them, if there are any. -/
inductive Further : List Entry → List Token → Prop where
  | none : Further [] []
  | some {entries : List Entry} {comma : Token} {s : List Token}
      (separates : comma.spelling = TokenKind.comma.mark)
      (words : s.map Token.spelling = joined (wordsOfEntries entries)) :
      Further entries (comma :: s)

/-- The words of an entry are in front of those of others. -/
theorem exists_further {entry : Entry} {entries : List Entry} {s : List Token}
    (hs : s.map Token.spelling = joined (wordsOfEntries (entry :: entries))) :
    ∃ front colon middle tail, s = front ++ colon :: (middle ++ tail) ∧
      front.map Token.spelling = entry.name.words ∧ colon.spelling = TokenKind.colon.mark ∧
      middle.map Token.spelling = entry.value.words ∧ Further entries tail := by
  obtain ⟨key, name, value⟩ := entry
  have hsplit : ∃ first tail, s = first ++ tail ∧
      first.map Token.spelling = (Entry.mk key name value).words ∧ Further entries tail := by
    cases entries with
    | nil => exact ⟨s, [], (List.append_nil s).symm, hs, .none⟩
    | cons next entries =>
      obtain ⟨first, tail, rfl, hfirst, htail⟩ := List.map_eq_append_iff.mp hs
      obtain ⟨comma, others, rfl, hcomma, hothers⟩ := List.map_eq_cons_iff.mp htail
      exact ⟨first, comma :: others, rfl, hfirst, .some hcomma hothers⟩
  obtain ⟨first, tail, rfl, hfirst, htail⟩ := hsplit
  rw [Entry.words] at hfirst
  obtain ⟨front, behind, rfl, hfront, hbehind⟩ := List.map_eq_append_iff.mp hfirst
  obtain ⟨colon, middle, rfl, hcolon, hmiddle⟩ := List.map_eq_cons_iff.mp hbehind
  exact ⟨front, colon, middle, tail, by simp, hfront, hcolon, hmiddle, htail⟩

section

variable {close : Token} {rest s : List Token} {errors : List SyntaxError} {state : ParseState}

/-- An entry is followed by a comma or by the closing brace. -/
theorem Further.exists_next {entries : List Entry} (h : Further entries s)
    (hclose : close.spelling = TokenKind.rightBrace.mark) (rest : List Token) :
    ∃ next others, s ++ close :: rest = next :: others ∧ next.kind.quiet = true := by
  cases h with
  | none => exact ⟨close, rest, rfl, by rw [Token.kind_of_mark hclose]; rfl⟩
  | some hcomma _ => exact ⟨_, _, rfl, by rw [Token.kind_of_mark hcomma]; rfl⟩

/-- The comma is read, if there is one. -/
theorem Further.separated {entries : List Entry} {last : Token} (h : Further entries s)
    (hclose : close.spelling = TokenKind.rightBrace.mark)
    (hstate : state.After last (s ++ close :: rest) errors) :
    ∃ behind opening more,
      (if state.peek.kind ≠ .rightBrace then expect .comma else pure ()).Yields state () behind ∧
      behind.After opening (more ++ close :: rest) errors ∧
      more.map Token.spelling = joined (wordsOfEntries entries) ∧ more.length ≤ s.length ∧
      rangeErrors s = rangeErrors more := by
  cases h with
  | none =>
    refine ⟨state, last, [], ?_, hstate, rfl, Nat.le_refl _, rfl⟩
    rw [hstate.peek, if_neg fun hbrace => hbrace (Token.kind_of_mark hclose)]
    exact yields_pure () state
  | @some _ comma s hcomma hwords =>
    have hkind := Token.kind_of_mark hcomma
    refine ⟨state.advance, comma, s, ?_, hstate.advance.after (by simp), hwords, Nat.le_succ _,
      rangeErrors_mark hcomma (by decide) s⟩
    rw [hstate.peek, hkind, if_pos (by decide)]
    exact yields_expect_of_after hstate hkind

/-- How the entries of a hash literal are read: the first of them, then the others. -/
theorem outcome_pairs_succ {budget : Nat} {after after' comma final : ParseState}
    {name value : Option Expression} {others : Option (List Pair)}
    (hfirst : state.advance.current.kind ≠ .rightBrace)
    (hname : (expression budget .lowest).outcome state.advance = (name, after))
    (hcolon : after.peek.kind = .colon)
    (hvalue : (expression budget .lowest).outcome after.advance.advance = (value, after'))
    (hcomma : (if after'.peek.kind ≠ .rightBrace then expect .comma else pure ()).Yields after' ()
      comma)
    (hothers : (Parse.pairs budget).outcome comma = (others, final)) :
    (Parse.pairs (budget + 1)).outcome state =
      (others.bind fun others => (value.bind fun b => name.map fun a => Pair.mk a b).map
        (· :: others), final) := by
  have hpair : ∀ others, (require name >>= fun a => require value >>= fun b =>
      pure (Pair.mk a b :: others) : Parse (List Pair)).outcome final =
        ((value.bind fun b => name.map fun a => Pair.mk a b).map (· :: others), final) := by
    intro others
    cases name <;> cases value <;> rfl
  have hrest : (Parse.pairs budget >>= fun others => require name >>= fun a =>
      require value >>= fun b => pure (Pair.mk a b :: others) : Parse (List Pair)).outcome comma =
        (others.bind fun others => (value.bind fun b => name.map fun a => Pair.mk a b).map
          (· :: others), final) := by
    rw [outcome_bind, hothers]
    cases others with
    | none => rfl
    | some others => exact hpair others
  rw [Parse.pairs, outcome_bind_of_yields (yields_advance state),
    outcome_bind_of_yields (yields_current _), if_neg hfirst,
    outcome_bind_of_yields (yields_attempt hname), outcome_bind_of_yields (yields_expect hcolon),
    outcome_bind_of_yields (yields_advance _), outcome_bind_of_yields (yields_attempt hvalue),
    outcome_bind_of_yields (yields_peekKind _)]
  by_cases hbrace : after'.peek.kind ≠ .rightBrace
  · rw [if_pos hbrace] at hcomma ⊢
    rw [outcome_bind_of_yields hcomma]
    exact hrest
  · rw [if_neg hbrace] at hcomma ⊢
    obtain rfl : after' = comma := congrArg Prod.snd hcomma
    exact hrest

/-- Entries with a comma between them, up to a closing brace. -/
theorem settles_pairs (budget : Nat) {opening : Token} {entries : List Entry}
    (h : ∀ entry ∈ entries, entry.Parses)
    (hs : s.map Token.spelling = joined (wordsOfEntries entries))
    (hclose : close.spelling = TokenKind.rightBrace.mark) (hne : rest ≠ [])
    (hbudget : 4 * s.length + 1 ≤ budget)
    (hstate : state.After opening (s ++ close :: rest) errors) :
    (Parse.pairs budget).Settles (List.Forall₂ Pair.Denotes · entries) state (s ++ [close]) rest
      errors := by
  induction entries generalizing s budget state opening errors with
  | nil =>
    obtain ⟨budget, rfl⟩ := Nat.exists_eq_add_one_of_ne_zero (by omega : budget ≠ 0)
    obtain rfl := List.map_eq_nil_iff.mp hs
    have hnone : rangeErrors ([] ++ [close]) = [] := rangeErrors_append_mark hclose (by decide) []
    have hahead := hstate.advance
    refine ⟨close, some [], state.advance, ?_, ?_, hnone, .nil⟩
    · rw [Parse.pairs, outcome_bind_of_yields (yields_advance state),
        outcome_bind_of_yields (yields_current _), hahead.current,
        if_pos (Token.kind_of_mark hclose)]
      rfl
    · rw [hnone, List.append_nil]
      exact hahead.after hne
  | cons entry entries ih =>
    obtain ⟨budget, rfl⟩ := Nat.exists_eq_add_one_of_ne_zero (by omega : budget ≠ 0)
    obtain ⟨hplain, hname, hvalue⟩ := h entry List.mem_cons_self
    -- the words of the first entry are those of its name, a colon and those of its value
    obtain ⟨front, colon, middle, tail, rfl, hfront, hcolon, hmiddle, htail⟩ := exists_further hs
    have hkind := Token.kind_of_mark hcolon
    simp only [List.length_append, List.length_cons] at hbudget
    have hahead := hstate.advance
    simp only [List.append_assoc, List.cons_append] at hahead
    obtain ⟨last, name, after, houtcome, hafter, hfound⟩ :=
      hname front hfront budget .lowest colon _ state.advance errors (by omega)
        (by rw [hkind]; rfl) hahead
    have hbehind := (hafter.advance.after (by simp)).advance
    obtain ⟨next, others, hnext, hquiet⟩ := htail.exists_next hclose rest
    obtain ⟨last', value, after', houtcome', hafter', hfound'⟩ :=
      hvalue middle hmiddle budget .lowest next others _ _ (by omega) hquiet (hnext ▸ hbehind)
    -- behind an entry comes the closing brace, or a comma and the next entry
    obtain ⟨comma, opening', more, hseparates, hcomma, hmore, hlength, htailErrors⟩ :=
      htail.separated hclose (hnext ▸ hafter')
    obtain ⟨last'', pairs, final, houtcome'', hafter'', hfound''⟩ :=
      ih budget (fun entry hmem => h entry (List.mem_cons_of_mem _ hmem)) hmore (by omega) hcomma
    have hfirst : state.advance.current.kind ≠ .rightBrace := by
      obtain ⟨token, others, rfl, hopens⟩ := hplain.exists_tokens_eq_cons hfront
      rw [hahead.current]
      exact TokenKind.ne_of_opensPlain hopens rfl
    -- faults come from numbers only, so that commas and colons add none
    have herrors : rangeErrors ((front ++ colon :: (middle ++ tail)) ++ [close]) =
        rangeErrors front ++ rangeErrors middle ++ rangeErrors (more ++ [close]) := by
      rw [rangeErrors_append_mark hclose (by decide), rangeErrors_append_mark hclose (by decide),
        rangeErrors_append, rangeErrors_mark hcolon (by decide), rangeErrors_append, htailErrors,
        List.append_assoc]
    refine ⟨last'', _, final, outcome_pairs_succ hfirst houtcome (hafter.peek ▸ hkind) houtcome'
      hseparates houtcome'', ?_, ?_⟩
    · rw [herrors]
      simpa only [List.append_assoc] using hafter''
    · rw [herrors]
      exact (hfound.zip hfound' Pair.mk fun _ _ hfirst hsecond => ⟨hfirst, hsecond⟩).zip hfound''
        List.cons fun _ _ hpair hpairs => .cons hpair hpairs

end

/-- A hash is its entries in braces. -/
theorem parses_hash (id : ObjectId) {entries : List Entry}
    (indexed : ∀ digest, Indexed digest entries)
    (h : ∀ entry ∈ entries, entry.Parses) : (Value.hash id entries).Parses := by
  intro s hs
  rw [Value.words] at hs
  refine ReadsAs.bracketed Parse.pairs .hash hs (by decide) ?_ ?_
    fun token found hfound => denotes_hash token id hfound indexed
  · intro budget state hkind
    rw [operand, outcome_bind_of_yields (yields_current state)]
    simp only [hkind]
  · intro budget token close inner rest errors state hinner hclose hne hbudget hstate
    exact settles_pairs budget h hinner hclose hne (by omega) hstate

/-! ## Plain values -/

/-- Tokens with the words of a plain value are read as a tree that denotes it, if the least integer
is not in it. -/
theorem Value.Plain.parses {value : Value} (h : value.Plain) : value.Parses := by
  induction h with
  | integer n => exact parses_integer n
  | boolean b => exact parses_boolean b
  | array id plain ih => exact parses_array id plain ih
  | hash id indexed names plain ih =>
    exact parses_hash id indexed fun entry hmem => {
      plain := .of_type (names entry hmem)
      name := Value.parses_of_type (names entry hmem)
      value := ih entry hmem }

/-- The statement that tokens with the words of a plain value are, in front of the end. -/
theorem outcome_statement_of_plain {value : Value} (h : value.Plain) {s : List Token}
    (hs : s.map Token.spelling = value.words) {eof : Token} (heof : eof.kind = .eof) {budget : Nat}
    (hbudget : 4 * s.length ≤ budget) {state : ParseState} (hstate : state.Before (s ++ [eof]) []) :
    ∃ token span last result after,
      (statement (budget + 1)).outcome state =
        (result.map fun tree => .expression token tree span, after) ∧
      after.After last [eof] (rangeErrors s) ∧
      Settled (rangeErrors s) (Denotes · value) result := by
  obtain ⟨last, result, after, houtcome, hafter, hfound⟩ :=
    h.parses s hs budget .lowest eof [] state [] hbudget (by rw [heof]; rfl) hstate
  obtain ⟨first, rest, rfl, hopens⟩ := h.exists_tokens_eq_cons hs
  have hskip : skipSemicolon.Yields after () after := by
    rw [Yields, outcome_skipSemicolon, hafter.peek, heof, if_neg TokenKind.noConfusion]
  refine ⟨first, first.span.cover after.current.span, last, result, after, ?_, hafter, hfound⟩
  rw [statement, outcome_bind_of_yields (yields_current state), hstate.current]
  split
  next hlet => exact absurd hlet (TokenKind.ne_of_opensPlain hopens rfl)
  next hreturn => exact absurd hreturn (TokenKind.ne_of_opensPlain hopens rfl)
  next =>
    rw [outcome_bind_of_yields (yields_attempt houtcome), outcome_bind_of_yields hskip,
      outcome_bind_of_yields (yields_spanFrom first after)]
    exact outcome_bind_pure (outcome_require result after) _

/-- Tokens with the words of a plain value are the program of one statement, or of none if there are
errors. -/
theorem parseTokens_of_plain {value : Value} (h : value.Plain) {s : List Token}
    (hs : s.map Token.spelling = value.words) {eof : Token} (heof : eof.kind = .eof) :
    ∃ token span result,
      parseTokens (s ++ [eof]) =
        ⟨⟨(result.map fun tree => Statement.expression token tree span).toList⟩, rangeErrors s⟩ ∧
      Settled (rangeErrors s) (Denotes · value) result := by
  obtain ⟨first, rest, rfl, hopens⟩ := h.exists_tokens_eq_cons hs
  obtain ⟨budget, hparse, hbudget, hlarge⟩ : ∃ budget,
      parseBudget (first :: (rest ++ [eof])) = budget + 2 ∧
        4 * (first :: rest).length ≤ budget ∧ 11 ≤ budget := by
    refine ⟨8 * rest.length + 30, ?_, ?_, by omega⟩
    · simp only [parseBudget, List.length_cons, List.length_append, List.length_nil]
      omega
    · rw [List.length_cons]
      omega
  have hstart : ParseState.Before ⟨first, rest ++ [eof], []⟩ (first :: rest ++ [eof]) [] :=
    ⟨rfl, rfl⟩
  obtain ⟨token, span, last, result, after, hstatement, hafter, hfound⟩ :=
    outcome_statement_of_plain h hs heof hbudget hstart
  obtain ⟨next, hrest, hnext⟩ := Accepts.noStatement (budget + 1) false
    (by rw [List.length_singleton]; omega) (.inl heof)
    after.advance _ hafter.advance
  refine ⟨token, span, result, ?_, hfound⟩
  have hkind : ¬ (first.kind = .eof ∨ false = true ∧ first.kind = .rightBrace) := by
    rintro (heof | ⟨hfalse, _⟩)
    · exact TokenKind.ne_of_opensPlain hopens rfl heof
    · cases hfalse
  have houtcome : (statements (budget + 2) false).outcome ⟨first, rest ++ [eof], []⟩ =
      (some (result.map fun tree => Statement.expression token tree span).toList, next) := by
    rw [statements, outcome_bind_of_yields (yields_current _)]
    dsimp only
    rw [if_neg hkind, outcome_bind_of_yields (yields_attempt hstatement),
      outcome_bind_of_yields (yields_advance after), outcome_bind_of_yields hrest, List.append_nil]
    rfl
  unfold outcome at houtcome
  rw [List.cons_append, parseTokens, hparse, houtcome]
  dsimp only
  rw [hnext.errors]
  rfl

end Scriptlet
