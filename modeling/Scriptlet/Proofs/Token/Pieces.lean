import Scriptlet.Proofs.Token.Spelling

set_option autoImplicit false

/-!
# Texts in pieces

Component: the scanner.  Specification: sections 4.1 and 10.2, here put together to one relation
between a text and its tokens.

`Pieces offset chars tokens` says what the tokens of some characters are without a lexer: the
characters are words with gaps between them, and the tokens are the words.  It holds of exactly the
tokens that the lexer reads (`Pieces.iff_tokens`), so that what is true of the tokens of every text
can be shown by induction on its pieces.

There are three constructors, because a text ends in one of two ways: in a gap, or in a string that
is never closed.  In the second the end token stands one place behind the text, as if the quote that
is missing had been there; that is the only token whose span says anything about characters that do
not exist.

The second half says what becomes of the tokens when texts are put together: they are shifted by
what stands before them (`Pieces.shift`), layout in front has none (`Pieces.layout_append`), and
behind a semicolon the tokens of the second text follow those of the first (`tokenize_append`).  A
semicolon does it because nothing makes it longer; the comment or the string that a text may end in
would swallow what is put behind it.
-/

namespace Scriptlet

/-- The token of a word at an offset. -/
def Token.ofWord (kind : TokenKind) (offset : Nat) (word literal : List Char) : Token :=
  ⟨kind, String.ofList literal, ⟨offset, offset + word.length⟩⟩

/-- Whether a token is a string that is never closed: it has one quote only. -/
def Token.unclosed (token : Token) : Bool :=
  token.kind == .string && token.span.stop == token.span.start + token.literal.length + 1

/-- The tokens of some characters, the first of which stands at an offset. -/
inductive Pieces : Nat → List Char → List Token → Prop where
  | eof {offset : Nat} {gap : List Char} (hgap : Gap gap []) :
      Pieces offset gap [Token.eof (offset + gap.length)]
  | unclosed {offset : Nat} {gap body : List Char} (hgap : Gap gap ('"' :: body))
      (hinside : ∀ c ∈ body, (c != '"') = true) :
      Pieces offset (gap ++ '"' :: body)
        [Token.ofWord .string (offset + gap.length) ('"' :: body) body,
          Token.eof (offset + gap.length + ('"' :: body).length + 1)]
  | word {offset : Nat} {gap word literal rest : List Char} {kind : TokenKind}
      {tokens : List Token} (hgap : Gap gap (word ++ rest)) (hword : Word kind word literal)
      (hparts : Parts word rest)
      (more : Pieces (offset + gap.length + word.length) rest tokens) :
      Pieces offset (gap ++ (word ++ rest))
        (Token.ofWord kind (offset + gap.length) word literal :: tokens)

/-- Where a word is read, neither layout nor a comment starts. -/
theorem Word.front {kind : TokenKind} {word literal rest : List Char}
    (h : Word kind word literal) (hparts : Parts word rest) : Cursor.Front (word ++ rest) := by
  have hskip := Cursor.front_skipLayoutFrom 0 (word ++ rest)
  have hword : Cursor.skipLayoutFrom 0 (word ++ rest) = ⟨0, word ++ rest⟩ :=
    Cursor.skipLayout_word h hparts 0
  rwa [hword] at hskip

/-- A text that starts with a word is not empty. -/
theorem Word.append_ne_nil {kind : TokenKind} {word literal rest : List Char}
    (h : Word kind word literal) : word ++ rest ≠ [] := by
  obtain ⟨c, chars, rfl⟩ := h.exists_cons
  exact List.cons_ne_nil c _

/-- A semicolon is written in one way only. -/
theorem Word.eq_semicolon {word literal : List Char} (h : Word .semicolon word literal) :
    word = [';'] := by
  generalize hkind : TokenKind.semicolon = kind at h
  cases h with
  | string | equal | notEqual | integer | illegal => cases hkind
  | symbol h =>
    subst hkind
    unfold TokenKind.ofChar? at h
    split at h <;> first | rfl | cases h
  | name =>
    unfold TokenKind.ofWord TokenKind.ofKeyword? at hkind
    split at hkind <;> cases hkind

/-- Behind a semicolon anything may stand. -/
theorem parts_semicolon (rest : List Char) : Parts [';'] rest :=
  parts_of_isWordChar (by decide) [] (fun _ => by decide) fun _ => by decide

/-- A quote is neither layout nor a comment. -/
theorem Cursor.front_quote (body : List Char) : Front ('"' :: body) := by
  rintro _ _ ⟨⟩
  exact ⟨rfl, fun h => absurd h (by decide)⟩

/-- The tokens that the lexer reads are pieces of the text. -/
theorem pieces_tokens (offset : Nat) (chars : List Char) :
    Pieces offset chars (Cursor.tokens ⟨offset, chars⟩) := by
  generalize hlength : chars.length = length
  -- by induction on the number of characters, of which every token but the end consumes some
  induction length using Nat.strong_induction_on generalizing offset chars with
  | _ length ih =>
    obtain ⟨gap, rest, rfl, hgap, -, hreads⟩ := Cursor.reads_next offset chars
    generalize hnext : Cursor.next ⟨offset, gap ++ rest⟩ = result at hreads
    cases hreads with
    | eof h =>
      subst h
      have heof : (Cursor.next ⟨offset, gap ++ []⟩).1.kind = .eof := by rw [hnext]; rfl
      rw [Cursor.tokens_of_eof heof, hnext, List.append_nil]
      exact .eof hgap
    | @unclosed body h inside =>
      subst h
      have hne : (Cursor.next ⟨offset, gap ++ '"' :: body⟩).1.kind ≠ .eof := by
        rw [hnext]
        exact TokenKind.noConfusion
      have heof : (Cursor.next ⟨offset + gap.length + body.length + 2, []⟩).1.kind = .eof := rfl
      rw [Cursor.tokens_of_ne_eof hne, hnext, Cursor.tokens_of_eof heof]
      exact .unclosed hgap inside
    | @word kind word literal rest' h hword hparts =>
      subst h
      have hne : (Cursor.next ⟨offset, gap ++ (word ++ rest')⟩).1.kind ≠ .eof := by
        rw [hnext]
        exact hword.ne_eof
      have hless := Cursor.next_length_lt hne
      rw [hnext] at hless
      rw [Cursor.tokens_of_ne_eof hne, hnext]
      exact .word hgap hword hparts (ih _ (hlength ▸ hless) _ rest' rfl)

/-- The tokens of a text are those that its pieces tell. -/
theorem Pieces.tokens_eq {offset : Nat} {chars : List Char} {tokens : List Token}
    (h : Pieces offset chars tokens) : Cursor.tokens ⟨offset, chars⟩ = tokens := by
  induction h with
  | @eof offset gap hgap =>
    have hnext := Cursor.next_gap hgap offset
    rw [List.append_nil] at hnext
    rw [Cursor.tokens_congr hnext]
    exact Cursor.tokens_of_eof rfl
  | @unclosed offset gap body hgap hinside =>
    have hread : Cursor.next ⟨offset + gap.length, '"' :: body⟩ =
        (Token.ofWord .string (offset + gap.length) ('"' :: body) body,
          ⟨offset + gap.length + body.length + 2, []⟩) := Cursor.read_unclosed hinside _
    rw [Cursor.tokens_congr (Cursor.next_gap hgap offset), Cursor.tokens_of_ne_eof, hread,
      Cursor.tokens_of_eof rfl]
    · rfl
    · rw [hread]
      exact TokenKind.noConfusion
  | @word offset gap word literal rest kind tokens hgap hword hparts _ ih =>
    have hread := Cursor.next_word hword hparts (offset + gap.length)
    rw [Cursor.tokens_congr (Cursor.next_gap hgap offset), Cursor.tokens_of_ne_eof, hread]
    · exact congrArg _ ih
    · rw [hread]
      exact hword.ne_eof

/-- The lexer reads the pieces of a text. -/
theorem Pieces.iff_tokens {offset : Nat} {chars : List Char} {tokens : List Token} :
    Pieces offset chars tokens ↔ Cursor.tokens ⟨offset, chars⟩ = tokens := by
  constructor
  · exact Pieces.tokens_eq
  · rintro rfl
    exact pieces_tokens offset chars

/-! ## Pieces of a text behind another one -/

/-- The end token of a text that stands elsewhere. -/
theorem Token.shift_eof (distance offset : Nat) :
    (Token.eof offset).shift distance = Token.eof (offset + distance) := rfl

/-- The token of a word that stands elsewhere. -/
theorem Token.shift_ofWord (distance : Nat) (kind : TokenKind) (offset : Nat)
    (word literal : List Char) : (Token.ofWord kind offset word literal).shift distance =
      Token.ofWord kind (offset + distance) word literal := by
  simp [Token.ofWord, Token.shift, Span.shift, Nat.add_right_comm]

namespace Pieces

variable {offset : Nat} {chars others : List Char} {tokens more : List Token}

/-- The tokens of characters that stand elsewhere. -/
theorem shift (h : Pieces offset chars tokens) (distance : Nat) :
    Pieces (offset + distance) chars (tokens.map (Token.shift distance)) := by
  have hstart (offset length : Nat) :
      offset + length + distance = offset + distance + length := Nat.add_right_comm _ _ _
  induction h with
  | eof hgap =>
    rw [List.map_singleton, Token.shift_eof, hstart]
    exact .eof hgap
  | unclosed hgap hinside =>
    rw [List.map_cons, List.map_singleton, Token.shift_eof, Token.shift_ofWord, hstart, hstart,
      hstart, hstart]
    exact .unclosed hgap hinside
  | word hgap hword hparts _ ih =>
    rw [hstart, hstart] at ih
    rw [List.map_cons, Token.shift_ofWord, hstart]
    exact .word hgap hword hparts ih

/-- Layout in front of a text has no tokens. -/
theorem layout_append {layout : List Char} (hlayout : ∀ c ∈ layout, isLayout c = true)
    (h : Pieces (offset + layout.length) chars tokens) :
    Pieces offset (layout ++ chars) tokens := by
  have hstart (gap : List Char) :
      offset + layout.length + gap.length = offset + (layout ++ gap).length := by
    rw [List.length_append, Nat.add_assoc]
  cases h with
  | eof hgap =>
    rw [hstart]
    exact .eof (hgap.layout_append hlayout)
  | unclosed hgap hinside =>
    rw [hstart, ← List.append_assoc]
    exact .unclosed (hgap.layout_append hlayout) hinside
  | word hgap hword hparts more =>
    rw [hstart] at more
    rw [hstart, ← List.append_assoc]
    exact .word (hgap.layout_append hlayout) hword hparts more

/-- No characters have the end token only. -/
theorem length_nil (h : Pieces offset [] tokens) : tokens.length = 1 := by
  generalize hchars : ([] : List Char) = chars at h
  cases h with
  | eof => rfl
  | unclosed => simp at hchars
  | word _ hword => exact absurd hchars.symm (by simp [hword.append_ne_nil])

/-- Behind a semicolon and layout the tokens of another text follow those of the first. -/
theorem append (h : Pieces offset chars tokens) (before : List Char) {front : List Token}
    {semicolon last : Token} (hbefore : before.length = offset)
    (htokens : tokens = front ++ [semicolon, last]) (hkind : semicolon.kind = .semicolon)
    (hlayout : ∀ c ∈ (before ++ chars).drop semicolon.span.stop, isLayout c = true)
    (hmore : Pieces (offset + chars.length) others more) :
    Pieces offset (chars ++ others) (front ++ semicolon :: more) := by
  induction h generalizing before front with
  | eof =>
    have hlength := congrArg List.length htokens
    simp at hlength
  | unclosed =>
    -- the only token before the end is a string
    cases front with
    | nil =>
      obtain ⟨rfl, -⟩ := List.cons.inj htokens
      cases hkind
    | cons token front =>
      have hlength := congrArg List.length htokens
      simp at hlength
  | @word offset gap word literal rest kind tokens hgap hword hparts hrest ih =>
    subst hbefore
    have hgap := hgap.of_front (hword.front hparts) hword.append_ne_nil
      (word ++ (rest ++ others))
    rw [List.length_append, List.length_append, ← Nat.add_assoc, ← Nat.add_assoc] at hmore
    rw [List.append_assoc, List.append_assoc]
    cases front with
    | nil =>
      obtain ⟨rfl, -⟩ := List.cons.inj htokens
      obtain rfl : kind = .semicolon := hkind
      obtain rfl := hword.eq_semicolon
      have hdrop : (before ++ (gap ++ ([';'] ++ rest))).drop (before.length + gap.length + 1) =
          rest := by
        rw [Nat.add_assoc]
        simp
      have hlayout : ∀ c ∈ rest, isLayout c = true := by
        rw [← hdrop]
        exact hlayout
      exact .word hgap hword (parts_semicolon _) (layout_append hlayout hmore)
    | cons token front =>
      obtain ⟨rfl, rfl⟩ := List.cons.inj htokens
      have hparts : Parts word (rest ++ others) := by
        cases rest with
        | nil =>
          have hlength := hrest.length_nil
          simp at hlength
        | cons => exact hparts
      refine .word hgap hword hparts (ih (before ++ gap ++ word) ?_ rfl ?_ hmore)
      · simp only [List.length_append]
      · rw [List.append_assoc, List.append_assoc]
        exact hlayout

end Pieces

/-- The tokens of a text behind one that ends with a semicolon and layout. -/
theorem tokenize_append {text other : String} {front : List Token} {semicolon last : Token}
    (htokens : tokenize text = front ++ [semicolon, last]) (hkind : semicolon.kind = .semicolon)
    (hlayout : ∀ c ∈ text.toList.drop semicolon.span.stop, isLayout c = true) :
    tokenize (text ++ other) =
      front ++ semicolon :: (tokenize other).map (Token.shift text.length) := by
  have hother := (pieces_tokens 0 other.toList).shift text.toList.length
  have hpieces := (pieces_tokens 0 text.toList).append [] rfl htokens hkind hlayout hother
  rw [← String.toList_append] at hpieces
  rw [← String.length_toList]
  exact hpieces.tokens_eq

end Scriptlet
