import Scriptlet.Proofs.Parser.Exact
import Scriptlet.Proofs.Render.Reread

set_option autoImplicit false

/-!
# The text of a legible program is a program

Component: the tree and the parser.  Specification: section 8, by which writing what was parsed
gives a form that is independent of the spacing, with sections 4.2 and 10.4 for the two directions.

A legible program that a text was parsed as is written as a text that is parsed as the program
again, but for its spans and the first tokens of expression statements (`parse_render`).  So the
text of such a program tells it from all others of this kind.

The tokens of the program are those of a text; that is why they can be written at all.  A program
put together from other tokens may have a name with a space in it.

The proof goes through the grammar and not through the parser.  From the derivation of the program
comes, for each part of it, what the part is written as and how that is derived again
(`Derives.rereadable`).  That the parser then builds the tree is its completeness, which is used
once, at the very end.

As a consequence writing is injective on these programs, up to what the text does not tell, and
writing a second time changes nothing.
-/

namespace Scriptlet

/-! ## Statements -/

/-- Whether a statement is written as some words that end it, and these are read as the statement
again. -/
structure RereadsStatement (statement : Statement) (words : List (TokenKind × String)) : Prop where
  spells : ∀ rest, spellings (statement.render.toList ++ rest) = words ++ spellings rest
  derives : ∀ (s rest : List Token), s.map Token.spelling = words →
    ∃ again last, Derives .statement (s ++ rest) again last rest ∧ again.bare = statement.bare

/-- Whether a statement can be read again, if it is an expression by what it is. -/
def Statement.Rereadable (statement : Statement) : Prop :=
  if statement.isExpression then Scriptlet.Rereadable statement.value
  else ∃ words, RereadsStatement statement words

/-- The sign of a binding, with a space behind it, is one token. -/
theorem spellings_assign (rest : List Char) :
    spellings ('=' :: ' ' :: rest) = TokenKind.assign.mark :: spellings rest := by
  have hword : Word .assign ['='] ['='] := .symbol rfl
  have hparts : Parts ['='] (' ' :: rest) := by
    rintro _ ⟨⟩
    rfl
  have hspellings := spellings_word hword hparts
  rw [spellings_space] at hspellings
  exact hspellings

/-- A word that is no symbol, and the space behind it. -/
theorem Token.Spelled.spells_space {token : Token} (h : token.Spelled)
    (hkind : token.kind = .letWord ∨ token.kind = .returnWord ∨ token.kind = .identifier)
    (rest : List Char) :
    spellings (token.literal.toList ++ ' ' :: rest) = token.spelling :: spellings rest := by
  have hplain : token.kind ≠ .eof ∧ token.kind ≠ .string ∧ token.kind.isSymbol = false := by
    rcases hkind with hkind | hkind | hkind <;> rw [hkind] <;> decide
  have hspells := Token.spells_literal (h hplain.1 hplain.2.1) hplain.2.2
  rw [hspells _ (.cons rfl _), spellings_space]
  rfl

/-- The end of a binding or a return, as tokens. -/
theorem split_ending {s : List Token} {words : List (TokenKind × String)}
    (h : s.map Token.spelling = words ++ [TokenKind.semicolon.mark]) :
    ∃ inner semicolon, s = inner ++ [semicolon] ∧ inner.map Token.spelling = words ∧
      semicolon.kind = .semicolon := by
  obtain ⟨inner, ending, rfl, hinner, hending⟩ := List.map_eq_append_iff.mp h
  obtain ⟨semicolon, nothing, rfl, hsemicolon, hnil⟩ := List.map_eq_cons_iff.mp hending
  obtain rfl := List.map_eq_nil_iff.mp hnil
  exact ⟨inner, semicolon, rfl, hinner, Token.kind_of_mark hsemicolon⟩

namespace Statement.Rereadable

variable {word name : Token} {value : Expression} {span : Span}

/-- A binding is written as its word, its name, the sign, its value and a semicolon. -/
theorem binding (hspelled : word.Spelled) (hword : word.kind = .letWord) (hname : name.Spelled)
    (hnamed : name.kind = .identifier) (hvalue : Scriptlet.Rereadable value) :
    Statement.Rereadable (.binding word ⟨name⟩ value span) := by
  obtain ⟨words, hvalue⟩ := hvalue
  refine ⟨word.spelling :: name.spelling :: TokenKind.assign.mark ::
    (words ++ [TokenKind.semicolon.mark]), ?_, ?_⟩
  · intro rest
    have hchars : (Statement.binding word ⟨name⟩ value span).render.toList ++ rest =
        word.literal.toList ++ (' ' :: (name.literal.toList ++ (' ' :: ('=' :: ' ' ::
          (value.render.toList ++ ';' :: rest))))) := by
      simp [Statement.render, Name.text, String.toList_append]
    rw [hchars, hspelled.spells_space (.inl hword), hname.spells_space (.inr (.inr hnamed)),
      spellings_assign, hvalue.spells _ (.cons rfl _), spellings_mark rfl (by decide)]
    simp only [List.append_assoc, List.cons_append, List.nil_append]
  · intro s rest hs
    obtain ⟨word', s, rfl, hword', hs⟩ := List.map_eq_cons_iff.mp hs
    obtain ⟨name', s, rfl, hname', hs⟩ := List.map_eq_cons_iff.mp hs
    obtain ⟨assign, s, rfl, hassign, hs⟩ := List.map_eq_cons_iff.mp hs
    obtain ⟨inner, semicolon, rfl, hinner, hsemicolon⟩ := split_ending hs
    obtain ⟨again, last, hagain, hplain⟩ := hvalue.derives_any hinner (semicolon :: rest)
    have happend : word' :: name' :: assign :: (inner ++ [semicolon]) ++ rest =
        word' :: name' :: assign :: (inner ++ semicolon :: rest) := by simp
    rw [happend]
    refine ⟨_, semicolon, .binding ((congrArg Prod.fst hword').trans hword)
      ((congrArg Prod.fst hname').trans hnamed) (Token.kind_of_mark hassign) hagain
      (.semicolon hsemicolon), ?_⟩
    have hmap := Token.mapSpan_const hword' default
    have hmap' := Token.mapSpan_const hname' default
    simp only [Statement.bare, Statement.mapSpans, Name.mapSpan, hmap, hmap', hplain]

/-- A `return` is written as its word, its value and a semicolon. -/
theorem returning (hspelled : word.Spelled) (hword : word.kind = .returnWord)
    (hvalue : Scriptlet.Rereadable value) : Statement.Rereadable (.returning word value span) := by
  obtain ⟨words, hvalue⟩ := hvalue
  refine ⟨word.spelling :: (words ++ [TokenKind.semicolon.mark]), ?_, ?_⟩
  · intro rest
    have hchars : (Statement.returning word value span).render.toList ++ rest =
        word.literal.toList ++ (' ' :: (value.render.toList ++ ';' :: rest)) := by
      simp [Statement.render, String.toList_append]
    rw [hchars, hspelled.spells_space (.inr (.inl hword)), hvalue.spells _ (.cons rfl _),
      spellings_mark rfl (by decide)]
    simp only [List.append_assoc, List.cons_append, List.nil_append]
  · intro s rest hs
    obtain ⟨word', s, rfl, hword', hs⟩ := List.map_eq_cons_iff.mp hs
    obtain ⟨inner, semicolon, rfl, hinner, hsemicolon⟩ := split_ending hs
    obtain ⟨again, last, hagain, hplain⟩ := hvalue.derives_any hinner (semicolon :: rest)
    have happend : word' :: (inner ++ [semicolon]) ++ rest =
        word' :: (inner ++ semicolon :: rest) := by simp
    rw [happend]
    refine ⟨_, semicolon, .returning ((congrArg Prod.fst hword').trans hword) hagain
      (.semicolon hsemicolon), ?_⟩
    have hmap := Token.mapSpan_const hword' default
    simp only [Statement.bare, Statement.mapSpans, hmap, hplain]

end Statement.Rereadable

/-! ## What was parsed can be read again -/

/-- Whether a phrase can be read again as far as it is legible. -/
def Phrase.Rereadable : (phrase : Phrase) → phrase.Tree → Prop
  | .statements, trees => ∀ tree ∈ trees, tree.value.legible = true → tree.Rereadable
  | .statement, tree => tree.value.legible = true → tree.Rereadable
  | .expression _, tree | .operand, tree => tree.legible = true → Scriptlet.Rereadable tree
  | .arguments _, trees | .moreArguments _, trees =>
    ∀ tree ∈ trees, tree.legible = true → Scriptlet.Rereadable tree
  | .pairs, trees => ∀ tree ∈ trees, tree.legible = true →
    Scriptlet.Rereadable tree.key ∧ Scriptlet.Rereadable tree.value
  | .block, _ | .parameters, _ | .moreParameters, _ => True

/-- What is derived from the tokens of a text can be read again. -/
theorem Derives.rereadable {phrase : Phrase} {s t : List Token} {tree : phrase.Tree} {last : Token}
    (h : Derives phrase s tree last t) (hspelled : ∀ token ∈ s, token.Spelled) :
    phrase.Rereadable tree := by
  -- the tokens of a part are some of those of the whole, which are all spelled
  have behind {a b : List Token} (hsuffix : a <:+ b) (hb : ∀ token ∈ b, token.Spelled) :
      ∀ token ∈ a, token.Spelled := fun token hmem => hb token (hsuffix.subset hmem)
  have head {token : Token} {a : List Token} (ha : ∀ other ∈ token :: a, other.Spelled) :
      token.Spelled := ha token List.mem_cons_self
  have tail {token : Token} {a : List Token} (ha : ∀ other ∈ token :: a, other.Spelled) :
      ∀ other ∈ a, other.Spelled := fun other hmem => ha other (List.mem_cons_of_mem token hmem)
  induction h with
  | noStatement | noArgument | noPair => exact fun _ hmem => by cases hmem
  -- no legible tree has blocks or parameters in it
  | block | noParameter | someParameters | lastParameter | moreParameters => trivial
  | moreStatements first _ ih₁ ih₂ =>
    intro tree hmem hlegible
    rcases List.mem_cons.mp hmem with rfl | hmem
    · exact ih₁ hspelled hlegible
    · exact ih₂ (behind first.suffix hspelled) tree hmem hlegible
  | binding hword hname _ _ _ ih =>
    intro hlegible
    have hvalue := ih (tail (tail (tail hspelled))) hlegible
    exact .binding (head hspelled) hword (head (tail hspelled)) hname hvalue
  | returning hword _ _ ih =>
    intro hlegible
    exact .returning (head hspelled) hword (ih (tail hspelled) hlegible)
  | expressionStatement _ _ ih =>
    intro hlegible
    exact ih hspelled hlegible
  | ofOperand _ _ ih | someArguments _ ih => exact ih hspelled
  | unary _ _ htoken _ ih =>
    intro hlegible
    exact .unary (head hspelled) htoken (ih (tail hspelled) hlegible)
  | binary _ _ htoken left _ ih₁ ih₂ =>
    intro hlegible
    obtain ⟨hleft, hright⟩ := Bool.and_eq_true_iff.mp hlegible
    have hrest := behind left.suffix hspelled
    exact .binary (head hrest) htoken (ih₁ hspelled hleft) (ih₂ (tail hrest) hright)
  | call _ htoken left _ ih₁ ih₂ =>
    intro hlegible
    obtain ⟨hcallee, harguments⟩ := Bool.and_eq_true_iff.mp hlegible
    rw [legibleExpressions_eq_all, List.all_eq_true] at harguments
    have hrest := behind left.suffix hspelled
    refine .call (head hrest) htoken (ih₁ hspelled hcallee) ?_
    exact fun tree hmem => ih₂ (tail hrest) tree hmem (harguments tree hmem)
  | index _ htoken left _ _ ih₁ ih₂ =>
    intro hlegible
    obtain ⟨hleft, hposition⟩ := Bool.and_eq_true_iff.mp hlegible
    have hrest := behind left.suffix hspelled
    exact .index (head hrest) htoken (ih₁ hspelled hleft) (ih₂ (tail hrest) hposition)
  | identifier _ h | trueWord _ h | falseWord _ h =>
    intro _
    apply Scriptlet.Rereadable.single (head hspelled)
    · simp only [Token.operand?, h]
    · rw [h]
      decide
  | integer _ h hvalue =>
    intro _
    apply Scriptlet.Rereadable.single (head hspelled)
    · simp only [Token.operand?, h, integerLiteral?, if_pos hvalue, Option.map_some]
    · rw [h]
      decide
  -- these are not legible, so that nothing is said of them
  | string | conditional | conditionalElse | function =>
    intro hlegible
    cases hlegible
  | group _ _ _ ih => exact ih (tail hspelled)
  | array htoken _ ih =>
    intro hlegible
    have hall : ∀ tree ∈ _, Expression.legible tree = true :=
      List.all_eq_true.mp ((legibleExpressions_eq_all _).symm.trans hlegible)
    apply Scriptlet.Rereadable.array (head hspelled) htoken
    exact fun tree hmem => ih (tail hspelled) tree hmem (hall tree hmem)
  | hash htoken _ ih =>
    intro hlegible
    have hall : ∀ pair ∈ _, Pair.legible pair = true :=
      List.all_eq_true.mp ((legiblePairs_eq_all _).symm.trans hlegible)
    apply Scriptlet.Rereadable.hash (head hspelled) htoken
    exact fun pair hmem => ih (tail hspelled) pair hmem (hall pair hmem)
  | lastArgument _ _ ih =>
    intro tree hmem
    obtain rfl := List.mem_singleton.mp hmem
    exact ih hspelled
  | moreArguments first _ _ ih₁ ih₂ =>
    intro tree hmem
    rcases List.mem_cons.mp hmem with rfl | hmem
    · exact ih₁ hspelled
    · exact ih₂ (tail (behind first.suffix hspelled)) tree hmem
  | lastPair first _ _ _ ih₁ ih₂ =>
    intro pair hmem hlegible
    obtain rfl := List.mem_singleton.mp hmem
    obtain ⟨hkey, hvalue⟩ := Bool.and_eq_true_iff.mp hlegible
    exact ⟨ih₁ hspelled hkey, ih₂ (tail (behind first.suffix hspelled)) hvalue⟩
  | morePairs first _ second _ _ ih₁ ih₂ ih₃ =>
    have hsecond := tail (behind first.suffix hspelled)
    intro pair hmem hlegible
    rcases List.mem_cons.mp hmem with rfl | hmem
    · obtain ⟨hkey, hvalue⟩ := Bool.and_eq_true_iff.mp hlegible
      exact ⟨ih₁ hspelled hkey, ih₂ hsecond hvalue⟩
    · exact ih₃ (tail (behind second.suffix hsecond)) pair hmem hlegible

/-! ## Programs -/

/-- Statements that can be read again, the last one alone being an expression, are a program. -/
theorem rereads_statements {statements : List Statement}
    (h : ∀ statement ∈ statements, statement.Rereadable)
    (hlast : ∀ statement ∈ statements.dropLast, statement.isExpression = false) :
    ∃ words, spellings (renderStatements statements).toList = words ++ [(.eof, "")] ∧
      ∀ (s : List Token) (eof : Token), s.map Token.spelling = words → eof.kind = .eof →
        ∃ again, Derives .statements (s ++ [eof]) again eof [eof] ∧
          again.map Statement.bare = statements.map Statement.bare := by
  induction statements with
  | nil =>
    refine ⟨[], spellings_nil, ?_⟩
    intro s eof hs _
    obtain rfl := List.map_eq_nil_iff.mp hs
    exact ⟨[], .noStatement eof [], rfl⟩
  | cons statement rest ih =>
    have hstatement := h statement List.mem_cons_self
    by_cases hexpression : statement.isExpression = true
    · -- only the last statement is an expression
      obtain rfl : rest = [] := by
        by_contra hrest
        have hmem : statement ∈ (statement :: rest).dropLast := by
          rw [List.dropLast_cons_of_ne_nil hrest]
          exact List.mem_cons_self
        rw [hlast statement hmem] at hexpression
        cases hexpression
      rw [Statement.Rereadable, if_pos hexpression] at hstatement
      obtain ⟨words, hvalue⟩ := hstatement
      cases statement with
      | binding | returning => cases hexpression
      | expression token value span =>
        replace hvalue : Rereads value words := hvalue
        refine ⟨words, ?_, ?_⟩
        · have hspells := hvalue.spells [] (fun _ hmem => by cases hmem)
          rw [List.append_nil, spellings_nil] at hspells
          simpa [renderStatements, Statement.render] using hspells
        · intro s eof hs heof
          obtain ⟨again, last, hagain, hplain⟩ := hvalue.derives_any hs [eof]
          obtain ⟨first, behind, heq, _⟩ := hagain.opens
          rw [heq] at hagain ⊢
          have hends : Terminated last [eof] last [eof] := .implicit (by rw [heof]; rfl)
          refine ⟨_, .moreStatements (.expressionStatement hagain hends) (.noStatement eof []), ?_⟩
          simp only [List.map_cons, List.map_nil, Statement.bare, hplain]
    · rw [Statement.Rereadable, if_neg hexpression] at hstatement
      obtain ⟨words, hspells, hderives⟩ := hstatement
      have hothers : ∀ other ∈ rest.dropLast, other.isExpression = false := by
        intro other hmem
        cases rest with
        | nil => cases hmem
        | cons next rest => exact hlast other (List.mem_cons_of_mem statement hmem)
      obtain ⟨others, hspells', hderives'⟩ :=
        ih (fun other hmem => h other (List.mem_cons_of_mem statement hmem)) hothers
      refine ⟨words ++ others, ?_, ?_⟩
      · rw [renderStatements, String.toList_append, hspells, hspells', List.append_assoc]
      · intro s eof hs heof
        obtain ⟨s, t, rfl, hs, ht⟩ := List.map_eq_append_iff.mp hs
        obtain ⟨again, hagain, hbare⟩ := hderives' t eof ht heof
        obtain ⟨first, last, hfirst, hbare'⟩ := hderives s (t ++ [eof]) hs
        refine ⟨first :: again, ?_, by rw [List.map_cons, hbare, hbare', List.map_cons]⟩
        rw [List.append_assoc]
        exact .moreStatements hfirst hagain

/-- The program of a text that has no errors, as far as it is legible, can be read again. -/
theorem rereadable_parse {text : String} (herrors : (parse text).errors = [])
    (hlegible : (parse text).program.legible = true) :
    ∃ again : Program, IsProgram (tokenize (parse text).program.render) again ∧
      again.bare = (parse text).program.bare := by
  obtain ⟨program, hprogram⟩ := isProgram_of_errors_eq_nil (Cursor.ended_tokens _) herrors
  have hparse : parse text = ⟨program, []⟩ := hprogram.parseTokens_eq
  rw [hparse] at hlegible ⊢
  obtain ⟨hlegible, hlast⟩ := Bool.and_eq_true_iff.mp hlegible
  rw [List.all_eq_true] at hlegible hlast
  obtain ⟨_, _, hderives⟩ := hprogram
  have hrereadable := hderives.rereadable (Cursor.spelled_tokens _)
  obtain ⟨words, hspells, hderives⟩ :=
    rereads_statements (fun statement hmem => hrereadable statement hmem (hlegible statement hmem))
      fun statement hmem => Bool.not_eq_true' _ ▸ hlast statement hmem
  obtain ⟨s, ending, htokens, hs, hending⟩ := List.map_eq_append_iff.mp hspells
  obtain ⟨eof, nothing, rfl, heof, hnil⟩ := List.map_eq_cons_iff.mp hending
  obtain rfl := List.map_eq_nil_iff.mp hnil
  have hkind : eof.kind = .eof := congrArg Prod.fst heof
  obtain ⟨again, hagain, hbare⟩ := hderives s eof hs hkind
  refine ⟨⟨again⟩, ⟨eof, hkind, ?_⟩, congrArg Program.mk hbare⟩
  have htokenize : tokenize program.render = s ++ [eof] := htokens
  rw [htokenize]
  exact hagain

/-- The text of a legible program is parsed without errors, as the program again but for its spans
and the first tokens of its expression statements; it is written as the same text again; and among
the legible programs of texts, those that are the same in this sense are those with this text. -/
theorem parse_render (text : String) (herrors : (parse text).errors = [])
    (hlegible : (parse text).program.legible = true) :
    (parse (parse text).program.render).errors = [] ∧
      (parse (parse text).program.render).program.bare = (parse text).program.bare ∧
      (parse (parse text).program.render).program.render = (parse text).program.render ∧
      ∀ other, (parse other).errors = [] → (parse other).program.legible = true →
        ((parse other).program.render = (parse text).program.render ↔
          (parse other).program.bare = (parse text).program.bare) := by
  obtain ⟨again, hagain, hbare⟩ := rereadable_parse herrors hlegible
  have hparse : parse (parse text).program.render = ⟨again, []⟩ := hagain.parseTokens_eq
  have hrender {program other : Program} (h : program.bare = other.bare) :
      program.render = other.render := by
    rw [← program.render_bare, h, other.render_bare]
  rw [hparse]
  refine ⟨rfl, hbare, hrender hbare, ?_⟩
  intro other hother hlegible'
  constructor
  · intro hsame
    obtain ⟨again', hagain', hbare'⟩ := rereadable_parse hother hlegible'
    rw [hsame] at hagain'
    have hparse' : parse (parse text).program.render = ⟨again', []⟩ := hagain'.parseTokens_eq
    rw [hparse] at hparse'
    rw [← hbare', ← hbare, (Parsed.mk.inj hparse').1]
  · exact hrender

/-- A text with all that is legible in it. -/
def nested : String :=
  "let a = -(x - -1)[2](y, \x7bk: !t\x7d); var é = [007 / 2 * z]; f(g)(1 == 2 < 3) + 4"

/-- Three statements, written as another text than they were read from. -/
theorem parse_render_nested : (parse nested).errors = [] ∧
    (parse nested).program.statements.length = 3 ∧ (parse nested).program.render ≠ nested ∧
    (parse (parse nested).program.render).errors = [] ∧
    (parse (parse nested).program.render).program.bare = (parse nested).program.bare := by
  have herrors : (parse nested).errors = [] := by decide +kernel
  have hlegible : (parse nested).program.legible = true := by decide +kernel
  obtain ⟨hnone, hbare, _⟩ := parse_render nested herrors hlegible
  exact ⟨herrors, by decide +kernel, by decide +kernel, hnone, hbare⟩

end Scriptlet
