import Scriptlet.Proofs.Parser.Exact

set_option autoImplicit false

/-!
# The first syntax error

Component: the parser.  Specification: sections 4.2 and 7, by which diagnostics are collected and
not thrown; this file says what the first of them is worth.

The first error of a parse stands at the first token with which the text cannot be a program any
more: what is before it begins a program, and what ends with it begins none
(`firstError_impossible`).  As a parse without an error is a run of the goal of a program
(`errors_eq_nil_iff_reads`), this is what is known of such runs.

Two things are said of the place of the first error.  That the text before it can be completed is
shown by completing it: each goal that the parser has open has tokens that close it, and these are
read without an error.  That no text begins with the token at it is shown for all texts that do,
since a run of goals is determined by the tokens that it reads: had there been a program, its run
would have taken the token on which this one failed.
-/

namespace Scriptlet

open Parse

/-- Tokens that are not the end, and the end behind them. -/
theorem Ended.of_ne_eof {tokens : List Token} {eof : Token}
    (h : ∀ token ∈ tokens, token.kind ≠ .eof) (heof : eof.kind = .eof) :
    Ended (tokens ++ [eof]) := by
  induction tokens with
  | nil => exact .eof heof
  | cons token tokens ih =>
    refine .cons (h token List.mem_cons_self) (ih ?_)
    intro other hother
    exact h other (List.mem_cons_of_mem token hother)

/-- An ended list has a last token. -/
theorem Ended.exists_append {tokens : List Token} (h : Ended tokens) :
    ∃ front eof, tokens = front ++ [eof] := by
  induction h with
  | @eof token => exact ⟨[], token, rfl⟩
  | @cons token _ _ _ ih =>
    obtain ⟨front, eof, rfl⟩ := ih
    exact ⟨token :: front, eof, rfl⟩

/-- A parse without an error reads all tokens but the last one. -/
theorem errors_eq_nil_iff_reads {tokens : List Token} {eof : Token}
    (hended : Ended (tokens ++ [eof])) :
    (parseTokens (tokens ++ [eof])).errors = [] ↔ Reads [.program] tokens eof [] := by
  obtain ⟨first, rest, heq⟩ := hended.exists_cons
  rw [heq] at hended ⊢
  have hsimulates := parseTokens_simulates hended
  rw [errors_parseTokens]
  constructor
  · intro h
    obtain ⟨_, _, read, head, behind, _, htokens, _, hreads, _, _, _, _, _, hclosed, hend⟩ |
      ⟨error, more, _, _, _, _, _, herrors, _⟩ := hsimulates
    · have heof := hend.resolve_left Bool.false_ne_true
      generalize hbehind : head :: behind = final at hclosed
      cases hclosed with
      | brace hbrace =>
        rw [heof] at hbrace
        exact TokenKind.noConfusion hbrace
      | eof =>
        obtain ⟨rfl, rfl⟩ := List.cons.inj hbehind
        rw [← heq] at htokens
        obtain ⟨rfl, hlast⟩ := List.append_inj' htokens rfl
        obtain rfl := (List.cons.inj hlast).1
        exact hreads
    · rw [h, List.nil_append] at herrors
      cases herrors
  · intro h
    obtain ⟨_, _, _, _, _, hyields, _, _, _, _, _, _, hstop, _⟩ |
      ⟨_, _, read, token, behind, _, _, _, _, htokens, hreads, hreject⟩ := hsimulates
    · rw [hyields]
      exact hstop.errors
    · rw [← heq] at htokens
      exact absurd htokens (hreads.not_rejected hreject h)

/-- The first error is that of a token with which no program goes on from what is before it, though
some program does start with that. -/
theorem firstError_impossible (tokens : List Token) (error : SyntaxError) (more : List SyntaxError)
    (hended : Ended tokens) (herrors : (parseTokens tokens).errors = error :: more) :
    ∃ before token behind, tokens = before ++ token :: behind ∧ error.span = token.span ∧
      (∃ others, Ended (before ++ others) ∧ (parseTokens (before ++ others)).errors = []) ∧
      ∀ others, Ended (before ++ token :: others) →
        (parseTokens (before ++ token :: others)).errors ≠ [] := by
  obtain ⟨first, rest, rfl⟩ := hended.exists_cons
  rw [errors_parseTokens] at herrors
  obtain ⟨_, _, _, _, _, hyields, _, _, _, _, _, _, hstop, _⟩ |
    ⟨error', more', before, token, behind, goal, below, herrors', hspan, htokens, hreads,
      hreject⟩ := parseTokens_simulates hended
  · rw [hyields, hstop.errors] at herrors
    cases herrors
  rw [herrors', List.nil_append] at herrors
  obtain ⟨rfl, rfl⟩ := List.cons.inj herrors
  refine ⟨before, token, behind, htokens, hspan, ?_, ?_⟩
  -- what has been read is completed by closing all goals that are open
  · obtain ⟨others, hothers⟩ := hreads.completable .program (Token.eof_kind 0)
    have hlegal := Ended.of_ne_eof (hothers.ne_eof .program) (Token.eof_kind 0)
    refine ⟨others ++ [.eof 0], ?_⟩
    rw [← List.append_assoc]
    exact ⟨hlegal, (errors_eq_nil_iff_reads hlegal).mpr hothers⟩
  -- a program that begins with the token would have read it
  · intro others hothers hnone
    obtain ⟨front, eof, heq⟩ := hothers.exists_append
    rw [heq] at hothers hnone
    have hall := (errors_eq_nil_iff_reads hothers).mp hnone
    exact hreads.not_rejected hreject hall heq.symm

/-- The tokens of `f([1, x) + ;`, a text with a misplaced bracket and a missing operand. -/
def misplaced : List Token :=
  [⟨.identifier, "f", ⟨0, 1⟩⟩, ⟨.leftParen, "(", ⟨1, 2⟩⟩, ⟨.leftBracket, "[", ⟨2, 3⟩⟩,
    ⟨.integer, "1", ⟨3, 4⟩⟩, ⟨.comma, ",", ⟨4, 5⟩⟩, ⟨.identifier, "x", ⟨6, 7⟩⟩,
    ⟨.rightParen, ")", ⟨7, 8⟩⟩, ⟨.plus, "+", ⟨9, 10⟩⟩, ⟨.semicolon, ";", ⟨11, 12⟩⟩, .eof 12]

/-- The error stands at the parenthesis, not at the bracket that is open. -/
theorem firstError_impossible_misplaced : Ended misplaced ∧
    ∃ before token behind, misplaced = before ++ token :: behind ∧ token.span = ⟨7, 8⟩ ∧
      (∃ others, Ended (before ++ others) ∧ (parseTokens (before ++ others)).errors = []) ∧
      ∀ others, Ended (before ++ token :: others) →
        (parseTokens (before ++ token :: others)).errors ≠ [] := by
  have hended : Ended misplaced := by decide
  have herrors : (parseTokens misplaced).errors =
      ⟨⟨7, 8⟩, .expected .rightBracket .rightParen⟩ :: (parseTokens misplaced).errors.tail := by
    decide +kernel
  obtain ⟨before, token, behind, heq, hspan, hcompletes, himpossible⟩ :=
    firstError_impossible misplaced _ _ hended herrors
  exact ⟨hended, before, token, behind, heq, hspan.symm, hcompletes, himpossible⟩

end Scriptlet
