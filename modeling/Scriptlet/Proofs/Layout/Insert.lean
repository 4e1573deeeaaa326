import Scriptlet.Proofs.Token.Pieces

set_option autoImplicit false

/-!
# Layout around tokens

Component: the scanner.  Specification: section 4.1, by which spaces, tabs and line ends are
skipped, and section 10.2 on strings that are never closed.

Layout may be put before any token and behind any token without changing what the text is read as
(`spellings_insertLayout`).  Two tokens need none between them where the text had none: the second
one is not a part of the first, and layout never is.  The only place that is no end of a token is
that of a string which is never closed, as layout there is one more part of the string.

Where layout is put is told by the spans of tokens, which is where a reader of the text would put
it.  Inside of a word layout would cut the word, and inside of a string it would be a part of it; so
the statement is about the two ends of each token and about nothing in between.
-/

namespace Scriptlet

/-- The text with layout put at a place. -/
def insertLayout (text : String) (place : Nat) (layout : String) : String :=
  String.ofList (text.toList.take place ++ (layout.toList ++ text.toList.drop place))

variable {layout : List Char}

/-- Whether layout at a place, by its offset, does not change what some characters are read as. -/
def Insertable (layout : List Char) (offset : Nat) (chars : List Char) (place : Nat) : Prop :=
  ∃ before behind, chars = before ++ behind ∧ place = offset + before.length ∧
    spellings (before ++ (layout ++ behind)) = spellings chars

/-- Layout never makes a word longer. -/
theorem Parts.insert {word before behind : List Char} (hlayout : ∀ c ∈ layout, isLayout c = true)
    (h : Parts word (before ++ behind)) : Parts word (before ++ (layout ++ behind)) := by
  cases before with
  | cons c before => exact h
  | nil =>
    cases layout with
    | nil => exact h
    | cons c layout =>
      rintro _ ⟨⟩
      exact goesOn_of_isLayout (hlayout c List.mem_cons_self)

namespace Insertable

variable {offset place : Nat} {rest : List Char}

/-- In front of all characters layout is skipped. -/
theorem front (hlayout : ∀ c ∈ layout, isLayout c = true) (offset : Nat) (chars : List Char) :
    Insertable layout offset chars offset :=
  ⟨[], chars, rfl, rfl, spellings_layout hlayout chars⟩

/-- Behind a gap layout may be put where it may be put in what follows. -/
theorem gap {gap : List Char} (h : Insertable layout (offset + gap.length) rest place)
    (hgap : ∀ other, Gap gap other) : Insertable layout offset (gap ++ rest) place := by
  obtain ⟨before, behind, rfl, rfl, hspellings⟩ := h
  refine ⟨gap ++ before, behind, (List.append_assoc _ _ _).symm, ?_, ?_⟩
  · rw [List.length_append, Nat.add_assoc]
  · rw [List.append_assoc, spellings_gap (hgap _), spellings_gap (hgap _), hspellings]

/-- Behind a word layout may be put where it may be put in what follows. -/
theorem word {kind : TokenKind} {word literal : List Char}
    (hlayout : ∀ c ∈ layout, isLayout c = true) (hword : Word kind word literal)
    (hparts : Parts word rest) (h : Insertable layout (offset + word.length) rest place) :
    Insertable layout offset (word ++ rest) place := by
  obtain ⟨before, behind, rfl, rfl, hspellings⟩ := h
  refine ⟨word ++ before, behind, (List.append_assoc _ _ _).symm, ?_, ?_⟩
  · rw [List.length_append, Nat.add_assoc]
  · rw [List.append_assoc, spellings_word hword (hparts.insert hlayout), hspellings,
      spellings_word hword hparts]

end Insertable

/-- Layout can be put before every token and behind it. -/
theorem Pieces.insertable (hlayout : ∀ c ∈ layout, isLayout c = true) {offset : Nat}
    {chars : List Char} {tokens : List Token} (h : Pieces offset chars tokens) :
    ∀ token ∈ tokens, token.kind ≠ .eof →
      Insertable layout offset chars token.span.start ∧
        (token.unclosed = false → Insertable layout offset chars token.span.stop) := by
  induction h with
  | eof =>
    intro token hmem hkind
    obtain rfl := List.mem_singleton.mp hmem
    exact absurd rfl hkind
  | unclosed hgap =>
    have hgap := hgap.of_front (Cursor.front_quote _) (List.cons_ne_nil _ _)
    intro token hmem hkind
    rcases List.mem_cons.mp hmem with rfl | hmem
    · refine ⟨.gap (.front hlayout _ _) hgap, fun hclosed => ?_⟩
      simp [Token.unclosed, Token.ofWord, Nat.add_assoc] at hclosed
    · obtain rfl := List.mem_singleton.mp hmem
      exact absurd rfl hkind
  | word hgap hword hparts _ ih =>
    have hgap := hgap.of_front (hword.front hparts) hword.append_ne_nil
    intro token hmem hkind
    rcases List.mem_cons.mp hmem with rfl | hmem
    · exact ⟨.gap (.front hlayout _ _) hgap,
        fun _ => .gap (.word hlayout hword hparts (.front hlayout _ _)) hgap⟩
    · obtain ⟨hstart, hstop⟩ := ih token hmem hkind
      exact ⟨.gap (.word hlayout hword hparts hstart) hgap,
        fun hclosed => .gap (.word hlayout hword hparts (hstop hclosed)) hgap⟩

/-- Layout before a token, or behind one that is not a string without its closing quote, does not
change the kinds and literals of the tokens of a text. -/
theorem spellings_insertLayout {text layout : String}
    (hlayout : ∀ c ∈ layout.toList, isLayout c = true) {token : Token}
    (hmem : token ∈ tokenize text) (hkind : token.kind ≠ .eof) :
    (tokenize (insertLayout text token.span.start layout)).map Token.spelling =
        (tokenize text).map Token.spelling ∧
      (token.unclosed = false →
        (tokenize (insertLayout text token.span.stop layout)).map Token.spelling =
          (tokenize text).map Token.spelling) := by
  have hinsert {place : Nat} (h : Insertable layout.toList 0 text.toList place) :
      (tokenize (insertLayout text place layout)).map Token.spelling =
        (tokenize text).map Token.spelling := by
    obtain ⟨before, behind, hchars, rfl, hspellings⟩ := h
    have htext : (insertLayout text (0 + before.length) layout).toList =
        before ++ (layout.toList ++ behind) := by
      simp [insertLayout, hchars]
    have htokens (text : String) :
        (tokenize text).map Token.spelling = spellings text.toList := rfl
    rw [htokens, htokens, htext, hspellings]
  obtain ⟨hstart, hstop⟩ := (pieces_tokens 0 text.toList).insertable hlayout token hmem hkind
  exact ⟨hinsert hstart, fun hclosed => hinsert (hstop hclosed)⟩

end Scriptlet
