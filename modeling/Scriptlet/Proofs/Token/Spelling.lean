import Scriptlet.Proofs.Parser.Grammar
import Scriptlet.Proofs.Token.Gap

set_option autoImplicit false

/-!
# Spellings

Component: the scanner, with the token model.  Specification: section 3, by which a token is its
kind and its literal text, and section 4.1, by which scanning looks one character ahead and
remembers nothing else.

The *spelling* of a token is its kind and its literal.  Which spellings the tokens of a text have
depends on the characters that are read only, not on where they stand
(`Cursor.map_spelling_tokens`), so that it can be told from the characters, word by word
(`spellings_word`), where layout does not count (`spellings_layout`).

This is what lets a text be read in parts.  The lexer carries an offset along, which differs from
part to part; `read_offset` and `next_offset` say that nothing but the spans comes of it, and
`spellings` therefore starts at offset zero once and for all.

The last section goes the other way, from the tokens to what they are written with: of strings and
the end apart, a token of a text is written with its literal (`Cursor.spelled_tokens`), and an
operator or a delimiter with the name of its kind.
-/

namespace Scriptlet

/-- The kind and the literal of a token. -/
def Token.spelling (token : Token) : TokenKind × String := (token.kind, token.literal)

/-- The spellings of all tokens that some characters are read as. -/
def spellings (chars : List Char) : List (TokenKind × String) :=
  (Cursor.tokens ⟨0, chars⟩).map Token.spelling

namespace Cursor

/-! ## Layout -/

mutual

/-- What is skipped does not depend on where it stands. -/
theorem chars_skipLayoutFrom (offset other : Nat) (chars : List Char) :
    (skipLayoutFrom offset chars).chars = (skipLayoutFrom other chars).chars := by
  unfold skipLayoutFrom
  split
  · exact chars_skipCommentFrom _ _ _
  · split
    · exact chars_skipLayoutFrom _ _ _
    · rfl
  · rfl

/-- Nor does what is skipped from inside a comment. -/
theorem chars_skipCommentFrom (offset other : Nat) (chars : List Char) :
    (skipCommentFrom offset chars).chars = (skipCommentFrom other chars).chars := by
  unfold skipCommentFrom
  split
  · split
    · exact chars_skipLayoutFrom _ _ _
    · exact chars_skipCommentFrom _ _ _
  · rfl

end

/-! ## Reading -/

/-- What is read does not depend on where it stands. -/
theorem read_offset {chars : List Char} (h : Front chars) (offset other : Nat) :
    (Cursor.read ⟨offset, chars⟩).1.spelling = (Cursor.read ⟨other, chars⟩).1.spelling ∧
      (Cursor.read ⟨offset, chars⟩).2.chars = (Cursor.read ⟨other, chars⟩).2.chars := by
  have hreads := reads_read h offset
  generalize hresult : Cursor.read ⟨offset, chars⟩ = result at hreads ⊢
  cases hreads with
  | eof h =>
    subst h
    exact ⟨rfl, rfl⟩
  | unclosed h inside =>
    subst h
    rw [read_unclosed inside]
    exact ⟨rfl, rfl⟩
  | word h hword hrest =>
    subst h
    rw [read_word hword hrest]
    exact ⟨rfl, rfl⟩

/-- So neither the spelling of the next token nor what is left behind it depends on the place. -/
theorem next_offset (offset other : Nat) (chars : List Char) :
    (Cursor.next ⟨offset, chars⟩).1.spelling = (Cursor.next ⟨other, chars⟩).1.spelling ∧
      (Cursor.next ⟨offset, chars⟩).2.chars = (Cursor.next ⟨other, chars⟩).2.chars := by
  have hchars := chars_skipLayoutFrom offset other chars
  have hread := read_offset (front_skipLayoutFrom other chars) (skipLayoutFrom offset chars).offset
    (skipLayoutFrom other chars).offset
  have hcursor : skipLayoutFrom offset chars =
      ⟨(skipLayoutFrom offset chars).offset, (skipLayoutFrom other chars).chars⟩ := by
    rw [← hchars]
  rw [← hcursor] at hread
  exact hread

/-- Tokens of one spelling have one kind, and so stop a reader at the same time. -/
theorem kind_of_spelling_eq {token other : Token} (h : token.spelling = other.spelling) :
    token.kind = other.kind :=
  congrArg Prod.fst h

/-- Cursors with the same next token have the same tokens. -/
theorem tokens_congr {cursor other : Cursor} (h : cursor.next = other.next) :
    cursor.tokens = other.tokens := by
  by_cases heof : cursor.next.1.kind = .eof
  · rw [tokens_of_eof heof, h, tokens_of_eof (h ▸ heof)]
  · rw [tokens_of_ne_eof heof, h]
    exact (tokens_of_ne_eof (h ▸ heof)).symm

/-- The spellings of the tokens from a cursor on are those of its characters. -/
theorem map_spelling_tokens (cursor : Cursor) :
    cursor.tokens.map Token.spelling = spellings cursor.chars := by
  obtain ⟨offset, chars⟩ := cursor
  unfold spellings
  generalize hlength : chars.length = length
  generalize 0 = other
  -- by induction on the number of characters, at two places at once: a token consumes some
  induction length using Nat.strong_induction_on generalizing offset other chars with
  | _ length ih =>
    obtain ⟨hspelling, hchars⟩ := next_offset offset other chars
    have hkind := kind_of_spelling_eq hspelling
    by_cases heof : (Cursor.next ⟨offset, chars⟩).1.kind = .eof
    · rw [tokens_of_eof heof, tokens_of_eof (hkind.symm.trans heof)]
      exact congrArg (fun spelling => [spelling]) hspelling
    · have hless := next_length_lt heof
      rw [tokens_of_ne_eof heof, tokens_of_ne_eof fun h => heof (hkind.trans h), List.map_cons,
        List.map_cons, hspelling]
      refine congrArg _ ?_
      have hcursor : (Cursor.next ⟨other, chars⟩).2 =
          ⟨(Cursor.next ⟨other, chars⟩).2.offset, (Cursor.next ⟨offset, chars⟩).2.chars⟩ := by
        rw [hchars]
      rw [hcursor]
      exact ih _ (hlength ▸ hless) (Cursor.next ⟨offset, chars⟩).2.offset _ rfl
        (Cursor.next ⟨other, chars⟩).2.offset

/-- The tokens of a text end in the end token. -/
theorem ended_tokens (cursor : Cursor) : Ended cursor.tokens := by
  by_cases heof : cursor.next.1.kind = .eof
  · rw [tokens_of_eof heof]
    exact .eof heof
  · rw [tokens_of_ne_eof heof]
    exact .cons heof (ended_tokens _)
termination_by cursor.chars.length
decreasing_by exact next_length_lt heof

end Cursor

/-- The same for a whole text. -/
theorem ended_tokenize (text : String) : Ended (tokenize text) := Cursor.ended_tokens _

/-! ## Spellings of characters -/

/-- No characters have the end token only. -/
theorem spellings_nil : spellings [] = [(.eof, "")] := by
  have heof : (Cursor.next ⟨0, []⟩).1.kind = .eof := rfl
  rw [spellings, Cursor.tokens_of_eof heof]
  rfl

/-- The kinds whose name is how they are written. -/
def TokenKind.isSymbol : TokenKind → Bool
  | .illegal | .eof | .identifier | .integer | .string | .functionWord | .letWord | .trueWord
  | .falseWord | .ifWord | .elseWord | .returnWord => false
  | _ => true

/-- A word of letters is neither a symbol nor the end. -/
theorem TokenKind.ofWord_ne (word : List Char) :
    (ofWord word).isSymbol = false ∧ ofWord word ≠ .eof := by
  unfold ofWord ofKeyword?
  split <;> exact ⟨rfl, TokenKind.noConfusion⟩

/-- No word is the end token. -/
theorem Word.ne_eof {kind : TokenKind} {word literal : List Char} (h : Word kind word literal) :
    kind ≠ .eof := by
  cases h with
  | string | equal | notEqual | integer | illegal => exact TokenKind.noConfusion
  | symbol h => exact (not_special_of_ofChar? h).2.2
  | name => exact (TokenKind.ofWord_ne _).2

/-- A word is the first token where nothing makes it longer. -/
theorem spellings_word {kind : TokenKind} {word literal rest : List Char}
    (h : Word kind word literal) (hrest : Parts word rest) :
    spellings (word ++ rest) = (kind, String.ofList literal) :: spellings rest := by
  have hnext := Cursor.next_word h hrest 0
  have heof : (Cursor.next ⟨0, word ++ rest⟩).1.kind ≠ .eof := by
    rw [hnext]
    exact h.ne_eof
  rw [spellings, Cursor.tokens_of_ne_eof heof, List.map_cons, Cursor.map_spelling_tokens, hnext]
  rfl

/-- A gap has no tokens. -/
theorem spellings_gap {gap rest : List Char} (h : Gap gap rest) :
    spellings (gap ++ rest) = spellings rest := by
  rw [spellings, Cursor.tokens_congr (Cursor.next_gap h 0), Cursor.map_spelling_tokens]

/-- Layout has no tokens. -/
theorem spellings_layout {layout : List Char} (h : ∀ c ∈ layout, isLayout c = true)
    (rest : List Char) : spellings (layout ++ rest) = spellings rest :=
  spellings_gap (.of_layout h rest)

/-! ## The words of tokens -/

/-- Of the end and of strings apart, a token is written with its literal. -/
def Token.Spelled (token : Token) : Prop :=
  token.kind ≠ .eof → token.kind ≠ .string →
    Word token.kind token.literal.toList token.literal.toList

/-- A word is its own literal, but for a string. -/
theorem Word.eq_literal {kind : TokenKind} {word literal : List Char} (h : Word kind word literal)
    (hstring : kind ≠ .string) : word = literal := by
  cases h with
  | string => exact absurd rfl hstring
  | equal | notEqual | symbol | name | integer | illegal => rfl

/-- Whatever is read is spelled: the end and a string in its own way, all else as its literal. -/
theorem Cursor.Reads.spelled {offset : Nat} {chars : List Char} {result : Token × Cursor}
    (h : Cursor.Reads offset chars result) : result.1.Spelled := by
  cases h with
  | eof => exact fun heof => absurd rfl heof
  | unclosed => exact fun _ hstring => absurd rfl hstring
  | @word kind word literal rest _ hword _ =>
    intro _ hstring
    obtain rfl := hword.eq_literal hstring
    simpa using hword

/-- The tokens of a text are spelled. -/
theorem Cursor.spelled_tokens (cursor : Cursor) : ∀ token ∈ cursor.tokens, token.Spelled := by
  have hnext : cursor.next.1.Spelled :=
    (reads_read (front_skipLayoutFrom cursor.offset cursor.chars) _).spelled
  intro token hmem
  by_cases heof : cursor.next.1.kind = .eof
  · rw [tokens_of_eof heof] at hmem
    obtain rfl := List.mem_singleton.mp hmem
    exact hnext
  · rw [tokens_of_ne_eof heof] at hmem
    rcases List.mem_cons.mp hmem with rfl | hmem
    · exact hnext
    · exact spelled_tokens _ token hmem
termination_by cursor.chars.length
decreasing_by exact next_length_lt heof

/-- The tokens of one character are symbols. -/
theorem TokenKind.isSymbol_of_ofChar? {c : Char} {kind : TokenKind} (h : ofChar? c = some kind) :
    kind.isSymbol = true ∧ String.ofList [c] = kind.name := by
  unfold ofChar? at h
  split at h <;> cases h <;> exact ⟨rfl, rfl⟩

/-- A symbol is written with its name. -/
theorem Word.literal_eq_name {kind : TokenKind} {word literal : List Char}
    (h : Word kind word literal) (hsymbol : kind.isSymbol = true) :
    String.ofList literal = kind.name := by
  cases h with
  | string | integer | illegal => cases hsymbol
  | equal | notEqual => rfl
  | symbol h => exact (TokenKind.isSymbol_of_ofChar? h).2
  | name => exact absurd hsymbol (Bool.eq_false_iff.mp (TokenKind.ofWord_ne _).1)

/-- An operator or a delimiter of a text has the name of its kind for a literal. -/
theorem Token.Spelled.eq_name {token : Token} (h : token.Spelled)
    (hsymbol : token.kind.isSymbol = true) : token.literal = token.kind.name := by
  have hword := h (fun heq => by rw [heq] at hsymbol; cases hsymbol)
    (fun heq => by rw [heq] at hsymbol; cases hsymbol)
  have hname := hword.literal_eq_name hsymbol
  rwa [String.ofList_toList] at hname

end Scriptlet
