import Scriptlet.Proofs.Token.Pieces

set_option autoImplicit false

/-!
# Tokens tile their text

Component: the scanner.  Specification: sections 4.1 and 10.2: that every token carries a span into
the source, that there is one token for the end, that scanning never fails, and that a reader of
tokens stops behind the end token while the scanner itself repeats it.

Nothing of a text is lost between its tokens and nothing is read twice (`tokenize_tiles`): the spans
of the tokens are non-empty, disjoint and in order, each token is what the text has at its span, and
what the spans leave out is layout and comments.  Names, keywords and numbers are read as far as
they go, to both sides.  Each literal is cut from the text at a place that is inside of it
(`Token.StandsIn.literalSpan`), so that no slice is out of range.

`Tiles` says this of the tokens from an offset on, so that it can be shown by induction on the
pieces of a text; what is carried along is that no word runs across the place between what has been
read and what has not (`Severed`).  It holds at the start of the text, where nothing has been read,
behind a gap, which ends in layout, and behind a word, which is the longest.

The last part is about the ways to ask for tokens.  A stream gives them one by one or all at once,
and nothing after the end token; a cursor that is asked again stays at the end of its text and reads
the end token once more.
-/

namespace Scriptlet

/-! ## Parts of a text -/

/-- The characters of a text that a span covers. -/
def Span.cut (span : Span) (text : List Char) : List Char :=
  (text.drop span.start).take (span.stop - span.start)

/-- Whether a span covers a place. -/
def Span.Covers (span : Span) (place : Nat) : Prop := span.start ≤ place ∧ place < span.stop

/-- Whether a span is a run of some characters that goes on to neither side. -/
structure IsRun (p : Char → Bool) (text : List Char) (span : Span) : Prop where
  inside : ∀ c ∈ span.cut text, p c = true
  before : ∀ c ∈ (text.take span.start).getLast?, p c = false
  behind : ∀ c ∈ (text.drop span.stop).head?, p c = false

/-- Whether a span is a comment: two slashes, and what follows them to the end of the line or of
the text. -/
structure IsComment (text : List Char) (span : Span) : Prop where
  opens : ∃ inside, span.cut text = '/' :: '/' :: inside ∧ ∀ c ∈ inside, endsLine c = false
  closes : ∀ c ∈ (text.drop span.stop).head?, endsLine c = true
  stop_le : span.stop ≤ text.length

/-- The kinds of the words of letters: names and keywords. -/
def TokenKind.isLetters : TokenKind → Bool
  | .identifier | .functionWord | .letWord | .trueWord | .falseWord | .ifWord | .elseWord
  | .returnWord => true
  | _ => false

/-- Whether a token is what a text has at its span. -/
structure Token.StandsIn (text : List Char) (token : Token) : Prop where
  start_lt : token.span.start < token.span.stop
  stop_le : token.span.stop ≤ text.length
  literal : token.kind ≠ .string → token.span.cut text = token.literal.toList
  closed : token.kind = .string → token.unclosed = false →
    token.span.cut text = '"' :: (token.literal.toList ++ ['"'])
  unclosed : token.unclosed = true →
    token.span.cut text = '"' :: token.literal.toList ∧ token.span.stop = text.length
  quotes : token.kind = .string → '"' ∉ token.literal.toList
  letters : token.kind.isLetters = true → IsRun Text.isAlphabetic text token.span
  digits : token.kind = .integer → IsRun Char.isDigit text token.span

/-- Where the literal of a token is cut from its text: between the quotes of a string, of which one
that is never closed has no second, and at its own span for any other token. -/
def Token.literalSpan (token : Token) : Span :=
  if token.kind = .string then
    ⟨token.span.start + 1, if token.unclosed then token.span.stop else token.span.stop - 1⟩
  else token.span

/-- Whether a span can be cut from a text: it does not end before it starts or behind the text. -/
structure Span.InRange (span : Span) (text : List Char) : Prop where
  start_le : span.start ≤ span.stop
  stop_le : span.stop ≤ text.length

/-- Whether some tokens are all that a text has from an offset on, but for layout and comments. -/
structure Tiles (offset : Nat) (text : List Char) (tokens : List Token) : Prop where
  stands : ∀ token ∈ tokens, token.kind ≠ .eof ∧ offset ≤ token.span.start ∧ token.StandsIn text
  ordered : tokens.Pairwise fun token next => token.span.stop ≤ next.span.start
  gaps : ∀ place c, offset ≤ place → text[place]? = some c →
    (∀ token ∈ tokens, ¬ token.span.Covers place) →
      isLayout c = true ∨ ∃ comment : Span, IsComment text comment ∧ comment.Covers place ∧
        offset ≤ comment.start ∧
          ∀ token ∈ tokens, comment.stop ≤ token.span.start ∨ token.span.stop ≤ comment.start

/-- Where the end token stands behind some tokens: at the end of the text, or one place further if
the last of them is a string that is never closed. -/
def endOffset (text : List Char) (tokens : List Token) : Nat :=
  if tokens.getLast?.any Token.unclosed then text.length + 1 else text.length

/-! ## Places in a text -/

variable {before word rest : List Char}

/-- A word is what is cut from a text at its place. -/
theorem Span.cut_append (before word rest : List Char) :
    Span.cut ⟨before.length, before.length + word.length⟩ (before ++ (word ++ rest)) = word := by
  simp [Span.cut]

/-- What is behind a word in a text. -/
theorem drop_append_word (before word rest : List Char) :
    (before ++ (word ++ rest)).drop (before.length + word.length) = rest := by
  simp [List.drop_append]

/-- What a gap covers is layout or in a comment, and the comment does not reach beyond the gap. -/
theorem Gap.blank {gap : List Char} (h : Gap gap rest) (before : List Char) {place : Nat} {c : Char}
    (hstart : before.length ≤ place) (hstop : place < before.length + gap.length)
    (hc : (before ++ (gap ++ rest))[place]? = some c) :
    isLayout c = true ∨ ∃ comment : Span, IsComment (before ++ (gap ++ rest)) comment ∧
      comment.Covers place ∧ before.length ≤ comment.start ∧
        comment.stop ≤ before.length + gap.length := by
  induction h generalizing before with
  | nil =>
    rw [List.length_nil] at hstop
    omega
  | @layout first gap rest h more ih =>
    by_cases hplace : place = before.length
    · subst hplace
      obtain rfl : first = c := by simpa using hc
      exact .inl h
    · have hsplit : before ++ (first :: gap ++ rest) = before ++ [first] ++ (gap ++ rest) := by simp
      have hlength : (before ++ [first]).length = before.length + 1 := by simp
      rw [List.length_cons] at hstop
      rw [hsplit] at hc ⊢
      -- further behind, the first character counts as read
      have hfound := ih (before ++ [first]) (by omega) (by omega) hc
      refine hfound.imp_right ?_
      rintro ⟨comment, hcomment, hcovers, hfrom, hto⟩
      refine ⟨comment, hcomment, hcovers, by omega, ?_⟩
      rw [List.length_cons]
      omega
  | @comment inside gap rest hinside hcloses more ih =>
    -- a comment is all of its line, and may hold anything
    let line := '/' :: '/' :: inside
    have hsplit : before ++ ('/' :: '/' :: (inside ++ gap) ++ rest) =
        before ++ (line ++ (gap ++ rest)) := by simp [line]
    have hlength : ('/' :: '/' :: (inside ++ gap)).length = line.length + gap.length := by
      simp [line]
      omega
    rw [hlength] at hstop ⊢
    rw [hsplit] at hc ⊢
    by_cases hplace : place < before.length + line.length
    · refine .inr ⟨⟨before.length, before.length + line.length⟩, ⟨?_, ?_, ?_⟩, ⟨hstart, hplace⟩,
        Nat.le_refl _, ?_⟩
      · exact ⟨inside, Span.cut_append before line _, hinside⟩
      · rw [drop_append_word]
        exact hcloses
      · simp only [List.length_append]
        omega
      · dsimp only
        omega
    · rw [← List.append_assoc] at hc ⊢
      have hline : (before ++ line).length = before.length + line.length := List.length_append
      have hfound := ih (before ++ line) (by omega) (by omega) hc
      refine hfound.imp_right ?_
      rintro ⟨comment, hcomment, hcovers, hfrom, hto⟩
      exact ⟨comment, hcomment, hcovers, by omega, by omega⟩

/-! ## No word runs on -/

/-- Whether no name and no number runs from one text into the next. -/
def Severed (before behind : List Char) : Prop :=
  ∀ c ∈ before.getLast?, ∀ next ∈ behind.head?,
    (Text.isAlphabetic c && Text.isAlphabetic next) = false ∧ (c.isDigit && next.isDigit) = false

/-- What ends in neither a letter nor a digit is severed from anything. -/
theorem Severed.of_isWordChar {behind : List Char}
    (h : ∀ c ∈ before.getLast?, isWordChar c = false) : Severed before behind := by
  intro c hc next _
  obtain ⟨hletter, hdigit⟩ := Bool.or_eq_false_iff.mp (h c hc)
  rw [hletter, hdigit]
  exact ⟨rfl, rfl⟩

/-- Whether a word is severed from what follows does not depend on what stands before the word. -/
theorem Severed.append {behind : List Char} (h : Severed word behind) (hne : word ≠ [])
    (before : List Char) : Severed (before ++ word) behind := by
  intro c hc
  rw [List.getLast?_append, List.getLast?_eq_some_getLast hne, Option.some_or] at hc
  exact h c (by rwa [List.getLast?_eq_some_getLast hne])

/-- A gap before a token severs it from what was read before. -/
theorem Severed.gap {gap : List Char} (h : Severed before (gap ++ rest)) (hgap : Gap gap rest)
    (hfront : Cursor.Front rest) (hne : rest ≠ []) : Severed (before ++ gap) rest := by
  cases gap with
  | nil => rwa [List.append_nil]
  | cons first gap =>
    refine .append (.of_isWordChar fun c hc => ?_) (List.cons_ne_nil first gap) before
    have hlayout := hgap.getLast?_isLayout hfront hne c hc
    by_contra hword
    rw [Bool.not_eq_false] at hword
    rw [(not_special_of_isWordChar hword).2.2] at hlayout
    cases hlayout

/-- The longest name or number is followed by no letter or no digit, as the case may be. -/
theorem goesOn_eq_false {c next : Char} {word : List Char} (hword : isWordChar c = true)
    (hparts : Parts (c :: word) rest) (hnext : next ∈ rest.head?) :
    (Text.isAlphabetic c && Text.isAlphabetic next) = false ∧
      (c.isDigit && next.isDigit) = false := by
  have hgoes := hparts next hnext
  rwa [goesOn_cons hword, Bool.or_eq_false_iff] at hgoes

/-- The longest word is severed from what follows it. -/
theorem Word.severed {kind : TokenKind} {literal : List Char} (h : Word kind word literal)
    (hparts : Parts word rest) : Severed word rest := by
  cases h with
  | string =>
    refine .of_isWordChar fun c hc => ?_
    rw [← List.cons_append, List.getLast?_concat] at hc
    cases hc
    decide
  | equal | notEqual =>
    refine .of_isWordChar ?_
    rintro _ ⟨⟩
    decide
  | symbol hsymbol =>
    refine .of_isWordChar ?_
    rintro c ⟨⟩
    by_contra hword
    rw [(not_special_of_isWordChar (Bool.not_eq_false _ ▸ hword)).1] at hsymbol
    cases hsymbol
  | illegal _ _ _ letter digit =>
    refine .of_isWordChar ?_
    rintro c ⟨⟩
    simp [isWordChar, letter, digit]
  | @name c word hall =>
    have hc := hall c List.mem_cons_self
    intro last hlast next hnext
    have hlast := hall last (List.mem_of_getLast? hlast)
    have hgoes := (goesOn_eq_false (by rw [isWordChar, hc, Bool.true_or]) hparts hnext).1
    rw [hc] at hgoes
    refine ⟨by rwa [hlast], ?_⟩
    cases hdigit : last.isDigit with
    | false => rfl
    | true =>
      rw [isAlphabetic_of_isDigit hdigit] at hlast
      cases hlast
  | @integer c word hall =>
    have hc := hall c List.mem_cons_self
    intro last hlast next hnext
    have hlast := hall last (List.mem_of_getLast? hlast)
    have hgoes := (goesOn_eq_false (by rw [isWordChar, hc, Bool.or_true]) hparts hnext).2
    rw [hc] at hgoes
    rw [hlast, isAlphabetic_of_isDigit hlast]
    exact ⟨rfl, hgoes⟩

/-! ## One token -/

/-- A word whose characters are all alike is a run. -/
theorem IsRun.of_parts {p : Char → Bool} {c : Char} (hall : ∀ other ∈ c :: word, p other = true)
    (hbefore : ∀ last ∈ before.getLast?, (p last && p c) = false)
    (hbehind : ∀ next ∈ rest.head?, (p c && p next) = false) :
    IsRun p (before ++ (c :: word ++ rest))
      ⟨before.length, before.length + (c :: word).length⟩ := by
  have hc := hall c List.mem_cons_self
  refine ⟨?_, ?_, ?_⟩
  · rw [Span.cut_append]
    exact hall
  · rw [List.take_left]
    intro last hlast
    simpa [hc] using hbefore last hlast
  · rw [drop_append_word]
    intro next hnext
    simpa [hc] using hbehind next hnext

/-- Operators and delimiters are neither words of letters nor numbers nor strings. -/
theorem TokenKind.isLetters_of_ofChar? {c : Char} {kind : TokenKind} (h : ofChar? c = some kind) :
    kind.isLetters = false ∧ kind ≠ .integer ∧ kind ≠ .string := by
  unfold ofChar? at h
  split at h <;> cases h <;> decide

/-- The longest word of letters is a run of letters, and that of digits a run of digits. -/
theorem Word.isRun {kind : TokenKind} {literal : List Char} (h : Word kind word literal)
    (hbefore : Severed before (word ++ rest)) (hparts : Parts word rest) :
    (kind.isLetters = true → IsRun Text.isAlphabetic (before ++ (word ++ rest))
      ⟨before.length, before.length + word.length⟩) ∧
    (kind = .integer → IsRun Char.isDigit (before ++ (word ++ rest))
      ⟨before.length, before.length + word.length⟩) := by
  cases h with
  | string | equal | notEqual | illegal =>
    exact ⟨fun h => absurd h (by decide), fun h => absurd h (by decide)⟩
  | symbol h =>
    obtain ⟨hletters, hinteger, -⟩ := TokenKind.isLetters_of_ofChar? h
    rw [hletters]
    exact ⟨fun h => absurd h Bool.false_ne_true, fun h => absurd h hinteger⟩
  | @name c word hall =>
    have hword : isWordChar c = true := by rw [isWordChar, hall c List.mem_cons_self, Bool.true_or]
    refine ⟨fun _ => .of_parts hall ?_ ?_, fun h => ?_⟩
    · exact fun last hlast => (hbefore last hlast c rfl).1
    · exact fun next hnext => (goesOn_eq_false hword hparts hnext).1
    · unfold TokenKind.ofWord TokenKind.ofKeyword? at h
      split at h <;> cases h
  | @integer c word hall =>
    have hword : isWordChar c = true := by rw [isWordChar, hall c List.mem_cons_self, Bool.or_true]
    refine ⟨fun h => absurd h (by decide), fun _ => .of_parts hall ?_ ?_⟩
    · exact fun last hlast => (hbefore last hlast c rfl).2
    · exact fun next hnext => (goesOn_eq_false hword hparts hnext).2

/-- A string is written in quotes, and has none inside. -/
theorem Word.string_inv {literal : List Char} (h : Word .string word literal) :
    word = '"' :: (literal ++ ['"']) ∧ '"' ∉ literal := by
  generalize hkind : TokenKind.string = kind at h
  cases h with
  | string hinside => exact ⟨rfl, fun hmem => absurd (hinside _ hmem) (by decide)⟩
  | equal | notEqual | integer | illegal => cases hkind
  | symbol h => exact absurd hkind.symm (TokenKind.isLetters_of_ofChar? h).2.2
  | name =>
    unfold TokenKind.ofWord TokenKind.ofKeyword? at hkind
    split at hkind <;> cases hkind

/-- The token of a word is no string that is never closed: its span has room for both quotes. -/
theorem Word.unclosed_ofWord {kind : TokenKind} {literal : List Char} (h : Word kind word literal)
    (offset : Nat) : (Token.ofWord kind offset word literal).unclosed = false := by
  by_cases hstring : kind = .string
  · subst hstring
    rw [h.string_inv.1]
    simp [Token.unclosed, Token.ofWord, Nat.add_assoc]
  · simp [Token.unclosed, Token.ofWord, hstring]

/-- The longest word stands in the text. -/
theorem Word.standsIn {kind : TokenKind} {literal : List Char} (h : Word kind word literal)
    (hbefore : Severed before (word ++ rest)) (hparts : Parts word rest) :
    (Token.ofWord kind before.length word literal).StandsIn (before ++ (word ++ rest)) := by
  obtain ⟨hletters, hdigits⟩ := h.isRun hbefore hparts
  have hcut := Span.cut_append before word rest
  obtain ⟨c, chars, hchars⟩ := h.exists_cons
  constructor
  case start_lt => simp [Token.ofWord, hchars]
  case stop_le => simp [Token.ofWord]
  case literal =>
    intro hstring
    have hliteral := h.eq_literal hstring
    simpa [Token.ofWord, ← hliteral] using hcut
  case closed =>
    rintro ⟨⟩ -
    simpa [Token.ofWord, ← h.string_inv.1] using hcut
  case unclosed => simp [h.unclosed_ofWord]
  case quotes =>
    rintro ⟨⟩
    simpa [Token.ofWord] using h.string_inv.2
  case letters => exact hletters
  case digits => exact hdigits

/-- So does a string that is never closed. -/
theorem standsIn_unclosed (before : List Char) {body : List Char}
    (hinside : ∀ c ∈ body, (c != '"') = true) :
    (Token.ofWord .string before.length ('"' :: body) body).StandsIn
      (before ++ '"' :: body) := by
  have hcut := Span.cut_append before ('"' :: body) []
  rw [List.append_nil] at hcut
  constructor
  case start_lt => simp [Token.ofWord]
  case stop_le => simp [Token.ofWord]
  case literal => exact fun hstring => absurd rfl hstring
  case closed => simp [Token.unclosed, Token.ofWord, Nat.add_assoc]
  case unclosed => simpa [Token.ofWord] using fun _ => hcut
  case quotes =>
    intro _ hmem
    have hquote := hinside '"' (by simpa [Token.ofWord] using hmem)
    exact absurd hquote (by decide)
  case letters => exact fun h => absurd h Bool.false_ne_true
  case digits => exact fun h => TokenKind.noConfusion h

/-! ## Slices of the text -/

/-- What is cut from inside a text is as long as its span. -/
theorem Span.length_cut {span : Span} {text : List Char} (h : span.stop ≤ text.length) :
    (span.cut text).length = span.stop - span.start := by
  rw [cut, List.length_take, List.length_drop]
  omega

/-- What is cut from a part of a text is cut from the text. -/
theorem Span.cut_cut (text : List Char) (outer inner : Span)
    (h : outer.start + inner.stop ≤ outer.stop) :
    inner.cut (outer.cut text) = cut ⟨outer.start + inner.start, outer.start + inner.stop⟩ text := by
  have hlength : outer.start + inner.stop - (outer.start + inner.start) =
      inner.stop - inner.start := by omega
  have hmin : min (inner.stop - inner.start) (outer.stop - outer.start - inner.start) =
      inner.stop - inner.start := by omega
  rw [cut, cut, cut, hlength, List.drop_take, List.drop_drop, List.take_take, hmin]

/-- What follows the first character of a part of a text, but for what ends it. -/
theorem Span.cut_inside {span : Span} {text inside last : List Char} {first : Char}
    (h : span.cut text = first :: (inside ++ last)) (hstop : span.stop ≤ text.length) :
    span.start + 1 + inside.length + last.length = span.stop ∧
      cut ⟨span.start + 1, span.start + (inside.length + 1)⟩ text = inside := by
  have hlength := length_cut hstop
  rw [h, List.length_cons, List.length_append] at hlength
  refine ⟨by omega, ?_⟩
  have hinner := cut_cut text span ⟨1, inside.length + 1⟩ (by dsimp only; omega)
  rw [← hinner, h]
  simp [cut]

/-- The literal of a token is what its text has where it is cut, which is inside the text. -/
theorem Token.StandsIn.literalSpan {text : List Char} {token : Token} (h : token.StandsIn text) :
    token.literalSpan.InRange text ∧ token.literalSpan.cut text = token.literal.toList := by
  have hstart := h.start_lt
  have hstop := h.stop_le
  by_cases hstring : token.kind = .string
  · rw [Token.literalSpan, if_pos hstring]
    -- a string that is never closed has its first quote only
    cases hunclosed : token.unclosed with
    | true =>
      have hcut := (h.unclosed hunclosed).1
      rw [← List.append_nil token.literal.toList] at hcut
      obtain ⟨hend, hinside⟩ := Span.cut_inside hcut hstop
      have hlast : token.span.stop = token.span.start + (token.literal.toList.length + 1) := by
        rw [List.length_nil] at hend
        omega
      rw [if_pos rfl]
      exact ⟨⟨hstart, hstop⟩, by rwa [hlast]⟩
    | false =>
      obtain ⟨hend, hinside⟩ := Span.cut_inside (h.closed hstring hunclosed) hstop
      rw [List.length_singleton] at hend
      have hlast : token.span.stop - 1 =
          token.span.start + (token.literal.toList.length + 1) := by omega
      rw [if_neg Bool.false_ne_true, hlast]
      exact ⟨⟨by dsimp only; omega, by dsimp only; omega⟩, hinside⟩
  · rw [Token.literalSpan, if_neg hstring]
    exact ⟨⟨Nat.le_of_lt hstart, hstop⟩, h.literal hstring⟩

/-! ## All tokens -/

/-- The tokens of what is behind a word, and the word. -/
theorem Tiles.cons {offset : Nat} {text : List Char} {token : Token} {tokens : List Token}
    (h : Tiles token.span.stop text tokens) (hkind : token.kind ≠ .eof)
    (hstands : token.StandsIn text) (hoffset : offset ≤ token.span.start)
    (hgap : ∀ place c, offset ≤ place → place < token.span.start → text[place]? = some c →
      isLayout c = true ∨ ∃ comment : Span, IsComment text comment ∧ comment.Covers place ∧
        offset ≤ comment.start ∧ comment.stop ≤ token.span.start) :
    Tiles offset text (token :: tokens) := by
  have hlt := hstands.start_lt
  have hfrom : ∀ next ∈ tokens, token.span.stop ≤ next.span.start :=
    fun next hmem => (h.stands next hmem).2.1
  refine ⟨List.forall_mem_cons.mpr ⟨⟨hkind, hoffset, hstands⟩, fun next hmem => ?_⟩,
    List.pairwise_cons.mpr ⟨hfrom, h.ordered⟩, fun place c hplace hc hcovers => ?_⟩
  · obtain ⟨hkind, hstart, hstands⟩ := h.stands next hmem
    exact ⟨hkind, by omega, hstands⟩
  · obtain ⟨houtside, hothers⟩ := List.forall_mem_cons.mp hcovers
    by_cases hbefore : place < token.span.start
    · refine (hgap place c hplace hbefore hc).imp_right ?_
      rintro ⟨comment, hcomment, hcomcovers, hstart, hstop⟩
      refine ⟨comment, hcomment, hcomcovers, hstart, List.forall_mem_cons.mpr ⟨.inl hstop, ?_⟩⟩
      intro next hmem
      have hnext := hfrom next hmem
      exact .inl (by omega)
    · have hbehind : token.span.stop ≤ place := by
        by_contra hinside
        exact houtside ⟨by omega, by omega⟩
      refine (h.gaps place c hbehind hc hothers).imp_right ?_
      rintro ⟨comment, hcomment, hcomcovers, hstart, hothers⟩
      exact ⟨comment, hcomment, hcomcovers, by omega,
        List.forall_mem_cons.mpr ⟨.inr hstart, hothers⟩⟩

/-- Behind the last token there is a gap only. -/
theorem Tiles.nil {offset : Nat} {text : List Char}
    (hgap : ∀ place c, offset ≤ place → text[place]? = some c →
      isLayout c = true ∨ ∃ comment : Span, IsComment text comment ∧ comment.Covers place ∧
        offset ≤ comment.start) : Tiles offset text [] := by
  refine ⟨List.forall_mem_nil _, .nil, fun place c hplace hc _ => ?_⟩
  refine (hgap place c hplace hc).imp_right ?_
  rintro ⟨comment, hcomment, hcovers, hstart⟩
  exact ⟨comment, hcomment, hcovers, hstart, List.forall_mem_nil _⟩

/-- The tokens of a text tile it from where they start. -/
theorem Pieces.tiles {offset : Nat} {chars : List Char} {tokens : List Token}
    (h : Pieces offset chars tokens) (before : List Char) (hoffset : before.length = offset)
    (hsevered : Severed before chars) :
    ∃ front, tokens = front ++ [Token.eof (endOffset (before ++ chars) front)] ∧
      Tiles offset (before ++ chars) front := by
  -- on the pieces of the text, with what has been read of it growing word by word
  induction h generalizing before with
  | @eof offset gap hgap =>
    subst hoffset
    refine ⟨[], ?_, .nil fun place c hplace hc => ?_⟩
    · simp [endOffset]
    · have hlt := (List.getElem?_eq_some_iff.mp hc).1
      rw [List.length_append] at hlt
      rw [← List.append_nil gap] at hc
      have hblank := hgap.blank before hplace hlt hc
      rw [List.append_nil] at hblank
      refine hblank.imp_right ?_
      rintro ⟨comment, hcomment, hcovers, hstart, -⟩
      exact ⟨comment, hcomment, hcovers, hstart⟩
  | @unclosed offset gap body hgap hinside =>
    subst hoffset
    have hstands := standsIn_unclosed (before ++ gap) hinside
    rw [List.append_assoc, List.length_append] at hstands
    refine ⟨[_], ?_, .cons (.nil fun place c hplace hc => ?_) TokenKind.noConfusion hstands
      (Nat.le_add_right _ _) fun place c hplace hstop hc => hgap.blank before hplace hstop hc⟩
    · have hunclosed (offset : Nat) :
          (Token.ofWord .string offset ('"' :: body) body).unclosed = true := by
        simp [Token.unclosed, Token.ofWord, Nat.add_assoc]
      simp [endOffset, hunclosed, Nat.add_assoc]
    · -- nothing is behind the string
      have hlt := (List.getElem?_eq_some_iff.mp hc).1
      simp only [List.length_append, Token.ofWord] at hlt hplace
      omega
  | @word offset gap word literal rest kind tokens hgap hword hparts _ ih =>
    subst hoffset
    have hfront := hword.front hparts
    have hsevered := hsevered.gap hgap hfront hword.append_ne_nil
    have hstands := hword.standsIn hsevered hparts
    have htext : before ++ (gap ++ (word ++ rest)) = before ++ gap ++ word ++ rest := by simp
    rw [List.append_assoc, List.length_append] at hstands
    obtain ⟨c, chars, hchars⟩ := hword.exists_cons
    have hrest := (hword.severed hparts).append (by rw [hchars]; exact List.cons_ne_nil c chars)
      (before ++ gap)
    obtain ⟨front, htokens, htiles⟩ := ih (before ++ gap ++ word) (by simp [Nat.add_assoc]) hrest
    rw [← htext] at htokens htiles
    refine ⟨_ :: front, ?_, .cons htiles hword.ne_eof hstands (Nat.le_add_right _ _)
      fun place c hplace hstop hc => hgap.blank before hplace hstop hc⟩
    rw [List.cons_append, htokens]
    cases front with
    | nil => simp [endOffset, hword.unclosed_ofWord]
    | cons token front => simp [endOffset, List.getLast?_cons_cons]

/-! ## Reading token by token -/

namespace TokenStream

/-- The stream after `n` more tokens have been asked for. -/
def after : Nat → TokenStream → TokenStream
  | 0, stream => stream
  | n + 1, stream => after n stream.next.2

/-- A stream that has given the end token gives nothing. -/
theorem next_of_finished (cursor : Cursor) :
    TokenStream.next ⟨cursor, true⟩ = (none, ⟨cursor, true⟩) := rfl

/-- Until then it gives the next token of its cursor. -/
theorem next_of_unfinished (cursor : Cursor) :
    TokenStream.next ⟨cursor, false⟩ =
      (some cursor.next.1, ⟨cursor.next.2, cursor.next.1.kind == .eof⟩) := rfl

/-- A stream that is finished stays so. -/
theorem after_finished (n : Nat) (cursor : Cursor) : after n ⟨cursor, true⟩ = ⟨cursor, true⟩ := by
  induction n with
  | zero => rfl
  | succ n ih => exact ih

/-- Asked again and again, a stream yields the tokens of its text in order, and then nothing. -/
theorem next_after (n : Nat) (cursor : Cursor) :
    (after n ⟨cursor, false⟩).next.1 = cursor.tokens[n]? := by
  induction n generalizing cursor with
  | zero =>
    rw [after, next_of_unfinished]
    by_cases heof : cursor.next.1.kind = .eof
    · rw [Cursor.tokens_of_eof heof, List.getElem?_cons_zero]
    · rw [Cursor.tokens_of_ne_eof heof, List.getElem?_cons_zero]
  | succ n ih =>
    rw [after, next_of_unfinished]
    by_cases heof : cursor.next.1.kind = .eof
    · rw [Cursor.tokens_of_eof heof, beq_iff_eq.mpr heof, after_finished, next_of_finished]
      rfl
    · rw [Cursor.tokens_of_ne_eof heof, List.getElem?_cons_succ, beq_eq_false_iff_ne.mpr heof]
      exact ih cursor.next.2

/-- A stream drained at once yields the same. -/
theorem drain_eq_tokens (cursor : Cursor) : (drain ⟨cursor, false⟩).1 = cursor.tokens := by
  rw [drain, if_neg Bool.false_ne_true]
  by_cases heof : cursor.next.1.kind = .eof
  · rw [Cursor.tokens_of_eof heof]
    exact congrArg Prod.fst (dif_pos heof)
  · rw [Cursor.tokens_of_ne_eof heof, ← drain_eq_tokens]
    exact congrArg Prod.fst (dif_neg heof)
termination_by cursor.chars.length
decreasing_by exact Cursor.next_length_lt heof

end TokenStream

/-- At the end of its text a cursor stays where it is. -/
theorem Cursor.next_of_eof {cursor : Cursor} (h : cursor.next.1.kind = .eof) :
    cursor.next = (Token.eof cursor.next.1.span.stop, ⟨cursor.next.1.span.stop, []⟩) := by
  obtain ⟨offset, chars⟩ := cursor
  obtain ⟨gap, rest, rfl, -, -, hreads⟩ := Cursor.reads_next offset chars
  generalize Cursor.next ⟨offset, gap ++ rest⟩ = result at h hreads ⊢
  cases hreads with
  | eof => rfl
  | unclosed => cases h
  | word _ hword => exact absurd h hword.ne_eof

/-- Without characters left there is the end token, again and again. -/
theorem Cursor.nextTokens_nil (n offset : Nat) :
    Cursor.nextTokens n ⟨offset, []⟩ = List.replicate n (Token.eof offset) := by
  induction n with
  | zero => rfl
  | succ n ih =>
    rw [Cursor.nextTokens, List.replicate_succ, ← ih]
    rfl

/-- The last token of a cursor that goes on is that of where it goes. -/
theorem Cursor.getLast?_tokens {cursor : Cursor} (h : cursor.next.1.kind ≠ .eof) :
    cursor.tokens.getLast? = cursor.next.2.tokens.getLast? := by
  have hended := ended_tokens cursor.next.2
  rw [tokens_of_ne_eof h]
  generalize cursor.next.2.tokens = others at hended
  cases hended with
  | eof | cons => exact List.getLast?_cons_cons

/-- Read on and on, a text yields its tokens and then its end token for ever. -/
theorem Cursor.nextTokens_tokens {cursor : Cursor} {stop : Nat}
    (h : cursor.tokens.getLast? = some (Token.eof stop)) (n : Nat) :
    nextTokens (cursor.tokens.length + n) cursor =
      cursor.tokens ++ List.replicate n (Token.eof stop) := by
  by_cases heof : cursor.next.1.kind = .eof
  · have hnext := next_of_eof heof
    have hlast : cursor.next.1 = Token.eof stop := by
      rw [tokens_of_eof heof] at h
      exact Option.some.inj h
    rw [hlast] at hnext
    rw [tokens_of_eof heof, List.length_singleton, Nat.add_comm, nextTokens, hlast, hnext]
    exact congrArg _ (nextTokens_nil n stop)
  · rw [getLast?_tokens heof] at h
    rw [tokens_of_ne_eof heof, List.length_cons, Nat.add_right_comm, nextTokens,
      nextTokens_tokens h n]
    rfl
termination_by cursor.chars.length
decreasing_by exact next_length_lt heof

/-- The tokens of a text but the end token tile it. -/
theorem exists_tiles (text : String) :
    ∃ front, tokenize text = front ++ [Token.eof (endOffset text.toList front)] ∧
      Tiles 0 text.toList front := by
  have hsevered : Severed [] text.toList := fun _ hc => by cases hc
  obtain ⟨front, htokens, htiles⟩ := (pieces_tokens 0 text.toList).tiles [] rfl hsevered
  rw [List.nil_append] at htokens htiles
  exact ⟨front, htokens, htiles⟩

/-- The tokens of a text are in order and do not overlap, the end token included. -/
theorem ordered_tokenize (text : String) :
    (tokenize text).Pairwise fun token next => token.span.stop ≤ next.span.start := by
  obtain ⟨front, htokens, htiles⟩ := exists_tiles text
  rw [htokens, List.pairwise_append]
  refine ⟨htiles.ordered, List.pairwise_singleton _ _, fun token htoken next hnext => ?_⟩
  obtain rfl := List.mem_singleton.mp hnext
  refine (htiles.stands token htoken).2.2.stop_le.trans ?_
  change _ ≤ endOffset _ _
  unfold endOffset
  split
  · exact Nat.le_succ _
  · exact Nat.le_refl _

/-- No span ends before it starts. -/
theorem proper_tokenize (text : String) :
    ∀ token ∈ tokenize text, token.span.start ≤ token.span.stop := by
  obtain ⟨front, htokens, htiles⟩ := exists_tiles text
  rw [htokens]
  intro token htoken
  obtain htoken | htoken := List.mem_append.mp htoken
  · exact Nat.le_of_lt (htiles.stands token htoken).2.2.start_lt
  · rw [List.mem_singleton.mp htoken]
    exact Nat.le_refl _

/-- The tokens of a text tile it: in order and without overlap they are what the text has at their
spans, none of which reaches beyond it, and between them there is layout and comments only.  Every
literal is cut from the text in range, so that nothing is missing from it.  The end token is the
last and the only one of its kind; it stands behind the text, or one place further exactly if the
token before it is a string that is never closed.  A stream yields these tokens one
by one and then nothing, whether it is asked for each or drained, and a cursor yields the end token
again and again. -/
theorem tokenize_tiles (text : String) :
    ∃ front stop, tokenize text = front ++ [Token.eof stop] ∧
      Tiles 0 text.toList front ∧ stop = endOffset text.toList front ∧
      (∀ token ∈ front, token.literalSpan.InRange text.toList ∧
        token.literalSpan.cut text.toList = token.literal.toList) ∧
      (∀ n, ((TokenStream.ofString text).after n).next.1 = (tokenize text)[n]?) ∧
      (TokenStream.ofString text).drain.1 = tokenize text ∧
      ∀ n, Cursor.nextTokens ((tokenize text).length + n) (Cursor.ofString text) =
        tokenize text ++ List.replicate n (Token.eof stop) := by
  obtain ⟨front, htokens, htiles⟩ := exists_tiles text
  refine ⟨front, _, htokens, htiles, rfl, fun token htoken => ?_,
    fun n => TokenStream.next_after n _, TokenStream.drain_eq_tokens _,
    Cursor.nextTokens_tokens ?_⟩
  · exact (htiles.stands token htoken).2.2.literalSpan
  change (tokenize text).getLast? = _
  rw [htokens, List.getLast?_concat]

end Scriptlet
