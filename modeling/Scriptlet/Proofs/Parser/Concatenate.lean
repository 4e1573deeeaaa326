import Scriptlet.Proofs.Layout.Parse
import Scriptlet.Proofs.Parser.Budget
import Scriptlet.Proofs.Parser.Exact
import Scriptlet.Proofs.Parser.Graft
import Scriptlet.Proofs.Token.Pieces

set_option autoImplicit false

/-!
# Texts behind each other

Component: the scanner and the parser.  Specification: sections 4.1, 4.2 and 7, by which a text is
read from the front with two tokens in view; this file says that nothing of a finished text depends
on what is put behind it.

A text that is parsed without errors, has as many opening as closing braces and ends with a
semicolon is parsed as itself in front of any other text (`parse_append`), and the other text is
parsed as on its own, but for where it stands.

There are three parts to it.  The tokens of the first text are read as before, and those of the
second one as on their own.  The parser takes the statements of the first text one by one, as none
of them depends on what follows its semicolon.  Then it stands where it would start with the second
text, with another budget, which does not matter.

The conditions on the first text are necessary each in its own way.  Without the semicolon an
operator at the start of the second text would go on with the last expression; with more opening
braces the second text would stand in a block; with an error the parser may have stopped in the
middle of something that the second text could complete.
-/

namespace Scriptlet

open Parse

/-! ## Statements in front of other tokens -/

/-- A statement that ends with a semicolon is read whatever is behind it. -/
theorem Derives.takes_semicolon {s t : List Token} {tree : Statement} {last : Token}
    (h : Derives .statement s tree last t) (hlast : last.kind = .semicolon) (ht : t ≠ [])
    {budget : Nat} (hbudget : 8 * s.length + 3 ≤ budget) :
    (statement budget).Takes s tree last t := by
  have hends {s rest : List Token} {value : Expression} {middle : Token}
      (body : Derives .anyExpression s value middle rest) (ending : Terminated middle rest last t) :
      Accepts.Ending s value last t := by
    cases ending with
    | semicolon h => exact Accepts.ending_semicolon body.accepts h ht
    | implicit => exact absurd hlast (body.last_ne_semicolon trivial rfl)
  cases h with
  | binding hword hname hassign body ending =>
    obtain ⟨_, _, rfl, _⟩ := body.opens
    simp only [List.length_cons] at hbudget
    exact Accepts.takes_binding hword hname hassign (List.cons_ne_nil _ _) (hends body ending)
      (by simp only [List.length_cons]; omega)
  | returning hword body ending =>
    obtain ⟨_, _, rfl, _⟩ := body.opens
    simp only [List.length_cons] at hbudget
    exact Accepts.takes_returning hword (List.cons_ne_nil _ _) (hends body ending)
      (by simp only [List.length_cons]; omega)
  | expressionStatement body ending =>
    obtain ⟨_, _, heq, hfirst⟩ := body.opens
    obtain ⟨rfl, rfl⟩ := List.cons.inj heq
    exact Accepts.takes_expressionStatement hfirst (hends body ending) hbudget

/-- The last token of a statement is the one in front of the end of a balanced text. -/
theorem Derives.last_mem {front : List Token} {tree : Statement} {last token : Token}
    (h : Derives .statement (front ++ [token]) tree last [token])
    (hbraces : openings front ≤ closings front) : last ∈ front.getLast? := by
  have hle := h.braces_le trivial
  have hnot : last.kind ≠ .eof := by
    intro heof
    simp [openings, closings, Phrase.lack, Phrase.isBounded, Phrase.surplus, heof] at hle hbraces
    omega
  obtain ⟨before, hbefore⟩ := (h.last_cons_suffix rfl).resolve_left hnot
  have hfront : front = before ++ [last] := by
    have hsplit : before ++ [last] ++ [token] = front ++ [token] := by
      rw [← hbefore, List.append_assoc]
      rfl
    exact (List.append_inj_left' hsplit rfl).symm
  rw [hfront, List.getLast?_concat]
  rfl

/-- The parser takes the statements of a balanced text that ends with a semicolon, and comes to
what is behind them. -/
theorem Derives.outcome_append {front others : List Token} {trees : List Statement}
    {close token : Token} (h : Derives .statements (front ++ [token]) trees close [token])
    (hclose : close.kind = .eof) (hbraces : openings front = closings front)
    (hlast : ∀ last ∈ front.getLast?, last.kind = .semicolon) (hothers : others ≠ [])
    {budget : Nat} (hbudget : 8 * (front ++ others).length + 4 ≤ budget) {state : ParseState}
    {errors : List SyntaxError} (hstate : state.Before (front ++ others) errors) :
    ∃ left behind, 8 * others.length + 4 ≤ left ∧ behind.Before others errors ∧
      (statements budget false).outcome state =
        (((statements left false).outcome behind).1.map (trees ++ ·),
          ((statements left false).outcome behind).2) := by
  induction trees generalizing front budget state with
  | nil =>
    generalize hs : front ++ [token] = s at h
    generalize ht : [token] = t at h
    cases h with
    | noStatement =>
      have hnil : front = [] := by simpa [← ht] using hs
      subst hnil
      refine ⟨budget, state, hbudget, hstate, ?_⟩
      simp
  | cons first trees ih =>
    generalize hs : front ++ [token] = s at h
    cases h with
    | @moreStatements _ _ _ _ _ last _ head tail =>
      subst hs
      -- what is behind the first statement ends with the same token
      obtain ⟨rest, rfl⟩ := tail.suffix
      have hhead := head.braces_le trivial
      have htail := tail.braces_le trivial
      have hlength := head.length_le
      simp only [openings, closings, List.countP_append, Phrase.surplus] at hhead htail hbraces
      simp only [List.length_append, Phrase.least, List.length_singleton] at hlength hbudget
      obtain ⟨budget, rfl⟩ := Nat.exists_eq_add_one_of_ne_zero (by omega : budget ≠ 0)
      have hrest : ∀ last ∈ rest.getLast?, last.kind = .semicolon := by
        obtain ⟨before, hbefore⟩ := head.suffix
        rw [← List.append_assoc] at hbefore
        obtain rfl := List.append_inj_left' hbefore rfl
        intro last hmem
        refine hlast last ?_
        rw [List.getLast?_append, Option.mem_def.mp hmem]
        rfl
      have htakes : (statement budget).Takes (front ++ others) first last (rest ++ others) := by
        have hbudget : 8 * (front ++ others).length + 3 ≤ budget := by
          rw [List.length_append]
          omega
        cases rest with
        | nil =>
          have hsemicolon := hlast last (head.last_mem (by simp only [openings, closings]; omega))
          obtain ⟨same, heq, hgraft⟩ := head.graft_semicolon hsemicolon others
          obtain rfl := List.append_inj_left' heq rfl
          exact hgraft.takes_semicolon hsemicolon hothers hbudget
        | cons next rest =>
          obtain ⟨same, -, heq, hgraft⟩ := head.graft rfl (List.cons_ne_nil next rest) others
          obtain rfl := List.append_inj_left' heq rfl
          obtain ⟨_, _, heq, helse, hnext⟩ := tail.next_ne (.inl hclose)
          obtain ⟨rfl, rfl⟩ := List.cons.inj heq
          exact hgraft.accepts budget next (rest ++ others) hbudget rfl helse hnext
      obtain ⟨middle, hyields, hmiddle⟩ := htakes state errors hstate
      have hless : 8 * (rest ++ others).length + 4 ≤ budget := by
        rw [List.length_append]
        omega
      obtain ⟨left, behind, hleft, hbehind, heq⟩ := ih tail
        (by simp only [openings, closings]; omega) hrest hless hmiddle.advance
      refine ⟨left, behind, hleft, hbehind, ?_⟩
      obtain ⟨start, front, rfl⟩ := List.exists_cons_of_ne_nil
        (List.ne_nil_of_length_pos (by omega : 0 < front.length))
      obtain ⟨_, _, hstart, hopens⟩ := head.opens
      obtain ⟨rfl, -⟩ := List.cons.inj hstart
      rw [Accepts.outcome_moreStatements hopens hstate.current hyields, outcome_bind, heq]
      generalize (statements left false).outcome behind = outcome
      obtain ⟨result, final⟩ := outcome
      cases result <;> rfl

/-- A parser before some tokens is in just one state. -/
theorem ParseState.Before.eq {state : ParseState} {token : Token} {tokens : List Token}
    {errors : List SyntaxError} (h : state.Before (token :: tokens) errors) :
    state = ⟨token, tokens, errors⟩ := by
  obtain ⟨current, rest, recorded⟩ := state
  obtain ⟨rfl, rfl⟩ := List.cons.inj h.tokens
  obtain rfl := h.errors
  rfl

/-- The parse of some tokens, from the state before them. -/
theorem parseTokens_cons (token : Token) (rest : List Token) :
    parseTokens (token :: rest) =
      ⟨⟨((statements (parseBudget (token :: rest)) false).outcome ⟨token, rest, []⟩).1.getD []⟩,
        ((statements (parseBudget (token :: rest)) false).outcome ⟨token, rest, []⟩).2.errors⟩ :=
  rfl

/-- Tokens that are parsed without errors, are balanced and end with a semicolon are parsed as
themselves in front of any others, and those as on their own. -/
theorem parseTokens_append {front others : List Token} {token : Token}
    (hended : Ended (front ++ [token])) (herrors : (parseTokens (front ++ [token])).errors = [])
    (hbraces : openings front = closings front)
    (hlast : ∀ last ∈ front.getLast?, last.kind = .semicolon) (hothers : Ended others) :
    parseTokens (front ++ others) =
      ⟨⟨(parseTokens (front ++ [token])).program.statements ++
        (parseTokens others).program.statements⟩, (parseTokens others).errors⟩ := by
  obtain ⟨program, hprogram⟩ := isProgram_of_errors_eq_nil hended herrors
  rw [hprogram.parseTokens_eq]
  obtain ⟨close, hclose, hderives⟩ := hprogram
  obtain ⟨_, heq⟩ := hderives.suffix
  obtain rfl : close = token := by simpa using (List.append_inj' heq rfl).2
  obtain ⟨head, tail, rfl⟩ := hothers.exists_cons
  obtain ⟨first, rest, hfirst⟩ := List.exists_cons_of_ne_nil
    (List.append_ne_nil_of_right_ne_nil front (List.cons_ne_nil head tail))
  have hbudget (token : Token) (rest : List Token) :
      8 * (token :: rest).length + 4 ≤ parseBudget (token :: rest) := by
    unfold parseBudget
    omega
  have hneed : 8 * (front ++ head :: tail).length + 4 ≤ parseBudget (first :: rest) := by
    rw [hfirst]
    exact hbudget first rest
  have hstate : ParseState.Before ⟨first, rest, []⟩ (front ++ head :: tail) [] :=
    ⟨hfirst.symm, rfl⟩
  obtain ⟨left, behind, hleft, hbehind, houtcome⟩ := hderives.outcome_append hclose hbraces hlast
    (List.cons_ne_nil head tail) hneed hstate
  obtain rfl := hbehind.eq
  have hends : (⟨head, tail, []⟩ : ParseState).Ends := hothers
  rw [outcome_statements hends hleft (hbudget head tail)] at houtcome
  obtain ⟨result, hresult⟩ := exists_outcome_statements hends (hbudget head tail) false
  rw [hfirst, parseTokens_cons, parseTokens_cons, houtcome, hresult]
  rfl

/-! ## Tokens that stand elsewhere -/

/-- The spans of tokens that stand further on. -/
def Correspondence.shift (distance : Nat) : Correspondence where
  tokens span other := other = span.shift distance
  left := Span.shift distance
  right := id
  agree := fun _ _ h => h.symm
  left_cover := Span.shift_cover distance
  right_cover := fun _ _ => rfl

/-- Tokens that stand further on end as before. -/
theorem Ended.map_shift {tokens : List Token} (h : Ended tokens) (distance : Nat) :
    Ended (tokens.map (Token.shift distance)) := by
  induction h with
  | eof h => exact .eof h
  | cons h _ ih => exact .cons h ih

/-- Errors that correspond by a shift are the shifted ones. -/
theorem SyntaxError.eq_map_shift {distance : Nat} {errors others : List SyntaxError}
    (h : List.Forall₂ (SyntaxError.Corresponds (.shift distance)) errors others) :
    others = errors.map (SyntaxError.shift distance) := by
  induction h with
  | nil => rfl
  | @cons error other errors others hhead _ ih =>
    obtain ⟨span, fault⟩ := error
    obtain ⟨span', fault'⟩ := other
    obtain rfl : fault = fault' := hhead.fault
    obtain rfl : span' = span.shift distance := hhead.span
    rw [List.map_cons, ← ih]
    rfl

/-- Tokens that stand further on are parsed as the same program further on, with the same errors
further on. -/
theorem parseTokens_shift (distance : Nat) (tokens : List Token) :
    parseTokens (tokens.map (Token.shift distance)) =
      ⟨(parseTokens tokens).program.mapSpans (Span.shift distance),
        (parseTokens tokens).errors.map (SyntaxError.shift distance)⟩ := by
  have htokens : List.Forall₂ (Token.Corresponds (.shift distance)) tokens
      (tokens.map (Token.shift distance)) :=
    List.forall₂_map_right_iff.mpr (List.forall₂_same.mpr fun _ _ => ⟨rfl, rfl, rfl⟩)
  obtain ⟨hprogram, herrors⟩ := parseTokens_corresponds htokens
  have hsame : (parseTokens tokens).program.mapSpans (Span.shift distance) =
      (parseTokens (tokens.map (Token.shift distance))).program :=
    hprogram.trans (Program.mapSpans_id _)
  rw [hsame, ← SyntaxError.eq_map_shift herrors]

/-! ## Texts -/

/-- Whether the last token of a text is a semicolon, with nothing but layout behind it. -/
def EndsInSemicolon (text : String) : Prop :=
  ∃ front semicolon last, tokenize text = front ++ [semicolon, last] ∧
    semicolon.kind = .semicolon ∧
      ∀ c ∈ text.toList.drop semicolon.span.stop, isLayout c = true

/-- A text that is parsed without errors, has as many opening as closing braces and ends with a
semicolon is parsed as itself in front of any other text, and that one as on its own, further on:
with the same statements, whether it is well-formed or not, and the same errors. -/
theorem parse_append (text other : String) (herrors : (parse text).errors = [])
    (hbraces : openings (tokenize text) = closings (tokenize text))
    (hends : EndsInSemicolon text) :
    (parse (text ++ other)).program.statements = (parse text).program.statements ++
        ((parse other).program.mapSpans (Span.shift text.length)).statements ∧
      (parse (text ++ other)).errors =
        (parse other).errors.map (SyntaxError.shift text.length) := by
  obtain ⟨front, semicolon, last, htokens, hkind, hlayout⟩ := hends
  have hsplit : tokenize text = front ++ [semicolon] ++ [last] := by
    rw [htokens, List.append_assoc]
    rfl
  have hended : Ended (front ++ [semicolon] ++ [last]) := hsplit ▸ Cursor.ended_tokens _
  have hlast : last.kind = .eof := by
    cases Ended.of_suffix hended (List.suffix_append _ [last]) with
    | eof h => exact h
    | cons _ h => cases h
  have happend : tokenize (text ++ other) =
      front ++ [semicolon] ++ (tokenize other).map (Token.shift text.length) := by
    rw [tokenize_append htokens hkind hlayout, List.append_assoc]
    rfl
  have hbalanced : openings (front ++ [semicolon]) = closings (front ++ [semicolon]) := by
    rw [hsplit] at hbraces
    simpa [openings, closings, List.countP_cons, hkind, hlast] using hbraces
  have hsemicolon : ∀ last ∈ (front ++ [semicolon]).getLast?, last.kind = .semicolon := by
    rw [List.getLast?_concat]
    rintro _ ⟨⟩
    exact hkind
  have hother : Ended ((tokenize other).map (Token.shift text.length)) :=
    (Cursor.ended_tokens _).map_shift _
  have hparse := parseTokens_append hended (hsplit ▸ herrors) hbalanced hsemicolon hother
  rw [parse, happend, hparse, parseTokens_shift, ← hsplit]
  exact ⟨rfl, rfl⟩

/-- A text with blocks inside of blocks. -/
def whole : String := "let f = fn(x) \x7b if (x) \x7b x \x7d else \x7b -x \x7d \x7d;\nf(\n1); \t\r\n"

/-- A text that starts like the rest of a statement, and is not closed. -/
def remainder : String := "else (a); b + 2; if (b) \x7b [1"

/-- Two statements, and three behind them of a text with two errors. -/
theorem parse_append_whole :
    (parse whole).errors = [] ∧ openings (tokenize whole) = closings (tokenize whole) ∧
      EndsInSemicolon whole ∧ (parse whole).program.statements.length = 2 ∧
      (parse remainder).program.statements.length = 3 ∧ (parse remainder).errors.length = 2 ∧
      (parse (whole ++ remainder)).program.statements = (parse whole).program.statements ++
        ((parse remainder).program.mapSpans (Span.shift whole.length)).statements ∧
      (parse (whole ++ remainder)).errors =
        (parse remainder).errors.map (SyntaxError.shift whole.length) := by
  have herrors : (parse whole).errors = [] := by decide +kernel
  have hbraces : openings (tokenize whole) = closings (tokenize whole) := by decide +kernel
  have hlayout : (whole.toList.drop 50).all isLayout = true := by decide +kernel
  have hends : EndsInSemicolon whole :=
    ⟨(tokenize whole).dropLast.dropLast, ⟨.semicolon, ";", ⟨49, 50⟩⟩, Token.eof 54,
      by decide +kernel, rfl, List.all_eq_true.mp hlayout⟩
  exact ⟨herrors, hbraces, hends, by decide +kernel, by decide +kernel, by decide +kernel,
    parse_append whole remainder herrors hbraces hends⟩

end Scriptlet
