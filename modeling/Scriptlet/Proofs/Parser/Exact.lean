import Scriptlet.Proofs.Parser.Sound

set_option autoImplicit false

/-!
# The parser accepts exactly the grammar

Component: the parser.  Specification: section 4.2: that the list of diagnostics is empty exactly
for the texts of the grammar, and that the tree is then the one that the precedences say.

A list of tokens is parsed without an error exactly if it is a program, and then the tree is that of
the program (`parseTokens_exact`).  In particular no list of tokens is a program in two ways.

Both directions rest on what is shown elsewhere.  A program is parsed by completeness: for each way
to derive a phrase there is a run of its production.  What is parsed without an error is a program
by soundness: the production that has a result and records nothing has read a phrase.  What is left
for this file is the whole text, whose statements end at the end token.
-/

namespace Scriptlet

open Parse

/-- A parse simulates the goal of a whole program. -/
theorem parseTokens_simulates {token : Token} {rest : List Token} (h : Ended (token :: rest)) :
    Simulates (statements (parseBudget (token :: rest)) false) ⟨token, rest, []⟩ [] (token :: rest)
      [.program] (HasStatements false [] (token :: rest)) := by
  have hbudget : 8 * (token :: rest).length + 4 ≤ parseBudget (token :: rest) := by
    unfold parseBudget
    omega
  exact (productions _).statements hbudget h ⟨rfl, rfl⟩

/-- The errors of a parse are those that its last state holds. -/
theorem errors_parseTokens (token : Token) (rest : List Token) :
    (parseTokens (token :: rest)).errors =
      ((statements (parseBudget (token :: rest)) false).outcome ⟨token, rest, []⟩).2.errors := rfl

/-- What is parsed without an error is a program. -/
theorem isProgram_of_errors_eq_nil {tokens : List Token} (hended : Ended tokens)
    (h : (parseTokens tokens).errors = []) : ∃ program, IsProgram tokens program := by
  obtain ⟨token, rest, rfl⟩ := hended.exists_cons
  rw [errors_parseTokens] at h
  obtain ⟨tree, stop, read, head, behind, _, _, _, _, close, last, final, _, htree, hclosed, hend⟩ |
    ⟨error, more, _, _, _, _, _, herrors, _⟩ := parseTokens_simulates hended
  · have heof : close.kind = .eof := hend.resolve_left Bool.false_ne_true
    cases hclosed with
    | brace hbrace =>
      rw [heof] at hbrace
      exact TokenKind.noConfusion hbrace
    | eof => exact ⟨⟨tree⟩, _, heof, htree⟩
  · rw [h, List.nil_append] at herrors
    cases herrors

/-- A parse without an error is what tells programs from other lists, and its tree is the one that
the grammar derives. -/
theorem parseTokens_exact (tokens : List Token) (h : Ended tokens) :
    ((parseTokens tokens).errors = [] ↔ ∃ program, IsProgram tokens program) ∧
      ∀ program, IsProgram tokens program → (parseTokens tokens).program = program := by
  refine ⟨⟨isProgram_of_errors_eq_nil h, ?_⟩, ?_⟩
  · rintro ⟨program, hprogram⟩
    rw [hprogram.parseTokens_eq]
  · intro program hprogram
    rw [hprogram.parseTokens_eq]

/-- The tokens of `fn(a) { -a * 2 + a`, a text that ends inside of a block. -/
def unclosed : List Token :=
  [⟨.functionWord, "fn", ⟨0, 2⟩⟩, ⟨.leftParen, "(", ⟨2, 3⟩⟩, ⟨.identifier, "a", ⟨3, 4⟩⟩,
    ⟨.rightParen, ")", ⟨4, 5⟩⟩, ⟨.leftBrace, "\x7b", ⟨6, 7⟩⟩, ⟨.minus, "-", ⟨8, 9⟩⟩,
    ⟨.identifier, "a", ⟨9, 10⟩⟩, ⟨.star, "*", ⟨11, 12⟩⟩, ⟨.integer, "2", ⟨13, 14⟩⟩,
    ⟨.plus, "+", ⟨15, 16⟩⟩, ⟨.identifier, "a", ⟨17, 18⟩⟩, .eof 18]

/-- A block that is not closed is closed by the end of the program, as the grammar has it. -/
theorem parseTokens_exact_unclosed : Ended unclosed ∧ ∃ program, IsProgram unclosed program ∧
    (parseTokens unclosed).program = program := by
  have hended : Ended unclosed := by decide
  obtain ⟨haccepts, htree⟩ := parseTokens_exact unclosed hended
  obtain ⟨program, hprogram⟩ := haccepts.mp (by decide +kernel)
  exact ⟨hended, program, hprogram, htree program hprogram⟩

end Scriptlet
