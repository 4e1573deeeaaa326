import Mathlib.Data.List.TakeWhile
import Scriptlet.Token.Lexer

set_option autoImplicit false

/-!
# Words

Component: the scanner.  Specification: section 4.1, whose rules for operators of two characters,
names, keywords, numbers, strings and characters of no kind are the constructors of `Word`, and
section 10.2 on strings that are never closed.

A *word* is what a token is written with, told without a lexer: `Word kind chars literal` says that
some characters are a token of a kind with a literal.  The lexer reads the longest word, so that a
word is read where the next character does not make it longer (`Cursor.next_word`), and whatever it
reads is a word, but for the end and for strings that are never closed (`Cursor.reads_read`).

What can make a word longer is a matter of one character behind it (`goesOn`): an equals sign behind
an equals sign or an exclamation mark, a slash behind a slash, a letter behind a name, a digit
behind a number.  `Parts word rest` says that none of this is the case, and it is all that the
lemmas on reading ask about what is behind a word.  So they hold of whatever is put there, which is
what makes texts that are put together readable part by part.

The lemmas on reading are one for each rule of the lexer, in its order: strings, operators, names,
numbers, and what is none of these.
-/

namespace Scriptlet

/-! ## Words and what makes them longer -/

/-- Whether some characters are a token, of some kind and with some literal. -/
inductive Word : TokenKind → List Char → List Char → Prop where
  | string {body : List Char} (h : ∀ c ∈ body, (c != '"') = true) :
      Word .string ('"' :: (body ++ ['"'])) body
  | equal : Word .equal ['=', '='] ['=', '=']
  | notEqual : Word .notEqual ['!', '='] ['!', '=']
  | symbol {c : Char} {kind : TokenKind} (h : TokenKind.ofChar? c = some kind) : Word kind [c] [c]
  | name {c : Char} {rest : List Char} (h : ∀ other ∈ c :: rest, Text.isAlphabetic other = true) :
      Word (.ofWord (c :: rest)) (c :: rest) (c :: rest)
  | integer {c : Char} {rest : List Char} (h : ∀ other ∈ c :: rest, other.isDigit = true) :
      Word .integer (c :: rest) (c :: rest)
  | illegal {c : Char} (quote : c ≠ '"') (layout : isLayout c = false)
      (symbol : TokenKind.ofChar? c = none) (letter : Text.isAlphabetic c = false)
      (digit : c.isDigit = false) : Word .illegal [c] [c]

/-- Whether a word can go on with a character. -/
def goesOn : List Char → Char → Bool
  | ['='], '=' | ['!'], '=' | ['/'], '/' => true
  | c :: _, next => Text.isAlphabetic c && Text.isAlphabetic next || c.isDigit && next.isDigit
  | [], _ => false

/-- Whether nothing behind a word makes it longer. -/
def Parts (word rest : List Char) : Prop := ∀ next ∈ rest.head?, goesOn word next = false

/-! ## Characters -/

/-- A digit is no letter. -/
theorem isAlphabetic_of_isDigit {c : Char} (h : c.isDigit = true) :
    Text.isAlphabetic c = false := by
  simp only [Char.isDigit, Bool.and_eq_true, decide_eq_true_eq, ge_iff_le,
    UInt32.le_iff_toNat_le] at h
  have hlast : c.val.toNat ≤ 57 := h.2
  have hlt : c.toNat < 128 := Nat.lt_of_le_of_lt hlast (by decide)
  have halpha : c.isAlpha = (decide (c.val ≥ 'A'.val ∧ c.val ≤ 'Z'.val) ||
      (decide (c.val ≥ 'a'.val) && decide (c.val ≤ 'z'.val))) := rfl
  rw [Text.isAlphabetic_of_lt hlt, halpha]
  simp only [ge_iff_le, UInt32.le_iff_toNat_le, Bool.or_eq_false_iff, Bool.and_eq_false_iff,
    decide_eq_false_iff_not]
  have hupper : ¬ 'A'.val.toNat ≤ c.val.toNat := fun h => absurd (Nat.le_trans h hlast) (by decide)
  have hlower : ¬ 'a'.val.toNat ≤ c.val.toNat := fun h => absurd (Nat.le_trans h hlast) (by decide)
  exact ⟨fun h => hupper h.1, .inl hlower⟩

/-- The characters of names and numbers. -/
def isWordChar (c : Char) : Bool := Text.isAlphabetic c || c.isDigit

/-- They are neither symbols nor quotes nor layout. -/
theorem not_special_of_isWordChar {c : Char} (h : isWordChar c = true) :
    TokenKind.ofChar? c = none ∧ c ≠ '"' ∧ isLayout c = false := by
  refine ⟨?_, ?_, ?_⟩
  · unfold TokenKind.ofChar?
    split <;> first | rfl | exact absurd h (by decide)
  · rintro rfl
    exact absurd h (by decide)
  · by_contra hlayout
    simp only [isLayout, Bool.not_eq_false, Bool.or_eq_true, beq_iff_eq] at hlayout
    rcases hlayout with ((rfl | rfl) | rfl) | rfl <;> exact absurd h (by decide)

/-- An operator or a delimiter of one character is neither a quote nor layout, and its kind is not
the end. -/
theorem not_special_of_ofChar? {c : Char} {kind : TokenKind}
    (h : TokenKind.ofChar? c = some kind) : c ≠ '"' ∧ isLayout c = false ∧ kind ≠ .eof := by
  unfold TokenKind.ofChar? at h
  split at h <;> first | cases h; decide | cases h

/-- Names and numbers go on by letters and digits only. -/
theorem goesOn_cons {c : Char} (h : isWordChar c = true) (word : List Char) (next : Char) :
    goesOn (c :: word) next =
      (Text.isAlphabetic c && Text.isAlphabetic next || c.isDigit && next.isDigit) := by
  unfold goesOn
  split
  next heq =>
    cases heq
    exact absurd h (by decide)
  next heq =>
    cases heq
    exact absurd h (by decide)
  next heq =>
    cases heq
    exact absurd h (by decide)
  next heq _ _ _ =>
    cases heq
    rfl
  next heq => cases heq

/-- How a word can go on: as another operator or a comment, or as a longer name or number. -/
theorem goesOn_cases {word : List Char} {next : Char} (h : goesOn word next = true) :
    next = '=' ∧ (word = ['='] ∨ word = ['!']) ∨ next = '/' ∧ word = ['/'] ∨
      ∃ c rest, word = c :: rest ∧ isWordChar c = true ∧ isWordChar next = true := by
  unfold goesOn at h
  split at h
  · exact .inl ⟨rfl, .inl rfl⟩
  · exact .inl ⟨rfl, .inr rfl⟩
  · exact .inr (.inl ⟨rfl, rfl⟩)
  · refine .inr (.inr ⟨_, _, rfl, ?_⟩)
    simp only [Bool.or_eq_true, Bool.and_eq_true] at h
    rcases h with ⟨hc, hnext⟩ | ⟨hc, hnext⟩
    · simp [isWordChar, hc, hnext]
    · simp [isWordChar, hc, hnext]
  · cases h

/-- Layout makes no word longer. -/
theorem goesOn_of_isLayout {word : List Char} {c : Char} (h : isLayout c = true) :
    goesOn word c = false := by
  by_contra hgoes
  rw [Bool.not_eq_false] at hgoes
  rcases goesOn_cases hgoes with ⟨rfl, _⟩ | ⟨rfl, _⟩ | ⟨_, _, _, _, hword⟩
  · exact absurd h (by decide)
  · exact absurd h (by decide)
  · exact Bool.false_ne_true ((not_special_of_isWordChar hword).2.2.symm.trans h)

/-- What starts with neither a letter nor a digit is made longer only as an operator or a
comment. -/
theorem parts_of_isWordChar {c : Char} (h : isWordChar c = false) (word : List Char)
    {rest : List Char} (hequal : rest.head? = some '=' → c ≠ '=' ∧ c ≠ '!')
    (hslash : rest.head? = some '/' → c ≠ '/') : Parts (c :: word) rest := by
  intro next hnext
  by_contra hgoes
  rw [Bool.not_eq_false] at hgoes
  rcases goesOn_cases hgoes with ⟨rfl, heq | heq⟩ | ⟨rfl, heq⟩ | ⟨_, _, heq, hword, _⟩
  · exact (hequal hnext).1 (List.cons.inj heq).1
  · exact (hequal hnext).2 (List.cons.inj heq).1
  · exact hslash hnext (List.cons.inj heq).1
  · obtain rfl := (List.cons.inj heq).1
    rw [h] at hword
    cases hword

/-- Behind a string anything may stand. -/
theorem parts_quote (chars rest : List Char) : Parts ('"' :: chars) rest :=
  parts_of_isWordChar (by decide) chars (fun _ => by decide) fun _ => by decide

/-- A name is as long as it gets where no letter is behind it. -/
theorem parts_name {c : Char} (h : Text.isAlphabetic c = true) (word : List Char)
    {rest : List Char} (hrest : ∀ next ∈ rest.head?, Text.isAlphabetic next = false) :
    Parts (c :: word) rest := by
  have hdigit : c.isDigit = false := by
    by_contra hdigit
    rw [Bool.not_eq_false] at hdigit
    exact Bool.false_ne_true ((isAlphabetic_of_isDigit hdigit).symm.trans h)
  intro next hnext
  rw [goesOn_cons (by rw [isWordChar, h, Bool.true_or]), hrest next hnext, hdigit]
  simp

/-- A number is, where no digit is behind it. -/
theorem parts_integer {c : Char} (h : c.isDigit = true) (word : List Char) {rest : List Char}
    (hrest : ∀ next ∈ rest.head?, next.isDigit = false) : Parts (c :: word) rest := by
  intro next hnext
  rw [goesOn_cons (by rw [isWordChar, h, Bool.or_true]), hrest next hnext,
    isAlphabetic_of_isDigit h]
  simp

/-- A character of no kind is never made longer. -/
theorem parts_illegal {c : Char} (symbol : TokenKind.ofChar? c = none)
    (letter : Text.isAlphabetic c = false) (digit : c.isDigit = false) (rest : List Char) :
    Parts [c] rest := by
  have hne {other : Char} (h : TokenKind.ofChar? other ≠ none) : c ≠ other := by
    rintro rfl
    exact h symbol
  apply parts_of_isWordChar
  · rw [isWordChar, letter, digit]
    rfl
  · exact fun _ => ⟨hne (by decide), hne (by decide)⟩
  · exact fun _ => hne (by decide)

/-- A word has at least one character. -/
theorem Word.exists_cons {kind : TokenKind} {word literal : List Char}
    (h : Word kind word literal) : ∃ c rest, word = c :: rest := by
  cases h <;> exact ⟨_, _, rfl⟩

/-- No word starts with layout. -/
theorem Word.isLayout_eq_false {kind : TokenKind} {c : Char} {word literal : List Char}
    (h : Word kind (c :: word) literal) : isLayout c = false := by
  have hword : isWordChar c = true → isLayout c = false :=
    fun hword => (not_special_of_isWordChar hword).2.2
  cases h with
  | string | equal | notEqual => rfl
  | symbol h => exact (not_special_of_ofChar? h).2.1
  | name h => exact hword (by rw [isWordChar, h c List.mem_cons_self, Bool.true_or])
  | integer h => exact hword (by rw [isWordChar, h c List.mem_cons_self, Bool.or_true])
  | illegal _ layout => exact layout

/-! ## Reading words -/

namespace Cursor

/-- Of a word and what does not go on with it, a reader takes the word. -/
theorem takeWhile_append {p : Char → Bool} {word rest : List Char} (h : ∀ c ∈ word, p c = true)
    (hrest : ∀ c ∈ rest.head?, p c = false) : (word ++ rest).takeWhile p = word := by
  rw [List.takeWhile_append_of_pos h]
  cases rest with
  | nil => simp
  | cons c rest => simp [hrest c rfl]

/-- Of a word and what does not go on with it, a reader leaves the rest. -/
theorem dropWhile_append {p : Char → Bool} {word rest : List Char} (h : ∀ c ∈ word, p c = true)
    (hrest : ∀ c ∈ rest.head?, p c = false) : (word ++ rest).dropWhile p = rest := by
  rw [List.dropWhile_append_of_pos h]
  cases rest with
  | nil => rfl
  | cons c rest => simp [hrest c rfl]

/-- The token of a word at the front of what is to be read. -/
theorem take_word (kind : TokenKind) (offset : Nat) (word rest : List Char) :
    Cursor.take kind word.length ⟨offset, word ++ rest⟩ =
      (⟨kind, String.ofList word, ⟨offset, offset + word.length⟩⟩,
        ⟨offset + word.length, rest⟩) := by
  simp [Cursor.take, Cursor.drop]

/-- A string in quotes is read as what is between them, whatever is behind the second. -/
theorem read_string {body : List Char} (h : ∀ c ∈ body, (c != '"') = true) (offset : Nat)
    (rest : List Char) :
    Cursor.read ⟨offset, '"' :: (body ++ '"' :: rest)⟩ =
      (⟨.string, String.ofList body, ⟨offset, offset + (body.length + 2)⟩⟩,
        ⟨offset + body.length + 2, rest⟩) := by
  have hquote : ∀ c ∈ ('"' :: rest).head?, (c != '"') = false := by simp
  have htake := takeWhile_append h hquote
  have hdrop := dropWhile_append h hquote
  simp only [Cursor.read, takeString, htake, hdrop]

/-- A string that is never closed runs to the end. -/
theorem read_unclosed {body : List Char} (h : ∀ c ∈ body, (c != '"') = true) (offset : Nat) :
    Cursor.read ⟨offset, '"' :: body⟩ =
      (⟨.string, String.ofList body, ⟨offset, offset + (body.length + 1)⟩⟩,
        ⟨offset + body.length + 2, []⟩) := by
  have hhead : ∀ c ∈ ([] : List Char).head?, (c != '"') = false := fun c hc => by cases hc
  have htake := takeWhile_append h hhead
  have hdrop := dropWhile_append h hhead
  rw [List.append_nil] at htake hdrop
  simp only [Cursor.read, takeString, htake, hdrop]

/-- An operator or a delimiter of one character, unless it is the first of two. -/
theorem read_symbol {c : Char} {kind : TokenKind} (h : TokenKind.ofChar? c = some kind)
    (offset : Nat) {rest : List Char} (hrest : Parts [c] rest) :
    Cursor.read ⟨offset, c :: rest⟩ =
      (⟨kind, String.ofList [c], ⟨offset, offset + 1⟩⟩, ⟨offset + 1, rest⟩) := by
  unfold Cursor.read
  split
  next heq => cases heq
  next heq =>
    cases heq
    cases h
  next heq =>
    cases heq
    exact absurd (hrest '=' rfl) (by decide)
  next heq =>
    cases heq
    exact absurd (hrest '=' rfl) (by decide)
  next heq =>
    cases heq
    simp only [h]
    exact take_word kind offset [c] rest

/-- What reading does at a character that starts neither a string nor an operator. -/
theorem read_of_wordChar {c : Char} (h : isWordChar c = true) (offset : Nat) (rest : List Char) :
    Cursor.read ⟨offset, c :: rest⟩ =
      if Text.isAlphabetic c then
        let word := c :: rest.takeWhile Text.isAlphabetic
        Cursor.take (.ofWord word) word.length ⟨offset, c :: rest⟩
      else Cursor.take .integer ((rest.takeWhile Char.isDigit).length + 1) ⟨offset, c :: rest⟩ := by
  have hsymbol := (not_special_of_isWordChar h).1
  unfold Cursor.read
  split
  next heq => cases heq
  next heq =>
    cases heq
    exact absurd h (by decide)
  next heq =>
    cases heq
    cases hsymbol
  next heq =>
    cases heq
    cases hsymbol
  next heq =>
    cases heq
    simp only [hsymbol]
    split
    · rfl
    next hletter =>
      rw [isWordChar, Bool.or_eq_true] at h
      rw [if_pos (h.resolve_left hletter)]

/-- A run of letters is one name or keyword. -/
theorem read_name {c : Char} {word rest : List Char}
    (h : ∀ other ∈ c :: word, Text.isAlphabetic other = true) (offset : Nat)
    (hrest : ∀ next ∈ rest.head?, Text.isAlphabetic next = false) :
    Cursor.read ⟨offset, c :: word ++ rest⟩ =
      (⟨.ofWord (c :: word), String.ofList (c :: word), ⟨offset, offset + (c :: word).length⟩⟩,
        ⟨offset + (c :: word).length, rest⟩) := by
  have hletter := h c List.mem_cons_self
  have hword : isWordChar c = true := by rw [isWordChar, hletter, Bool.true_or]
  have htake := takeWhile_append (fun other hmem => h other (List.mem_cons_of_mem _ hmem)) hrest
  rw [List.cons_append, read_of_wordChar hword, if_pos hletter]
  simp only [htake]
  exact take_word _ offset (c :: word) rest

/-- A run of digits is one number. -/
theorem read_integer {c : Char} {word rest : List Char}
    (h : ∀ other ∈ c :: word, other.isDigit = true) (offset : Nat)
    (hrest : ∀ next ∈ rest.head?, next.isDigit = false) :
    Cursor.read ⟨offset, c :: word ++ rest⟩ =
      (⟨.integer, String.ofList (c :: word), ⟨offset, offset + (c :: word).length⟩⟩,
        ⟨offset + (c :: word).length, rest⟩) := by
  have hdigit := h c List.mem_cons_self
  have hword : isWordChar c = true := by rw [isWordChar, hdigit, Bool.or_true]
  have htake := takeWhile_append (fun other hmem => h other (List.mem_cons_of_mem _ hmem)) hrest
  rw [List.cons_append, read_of_wordChar hword, if_neg (by simp [isAlphabetic_of_isDigit hdigit])]
  simp only [htake]
  exact take_word _ offset (c :: word) rest

/-- A character that no rule names is a token of its own. -/
theorem read_illegal {c : Char} (quote : c ≠ '"') (symbol : TokenKind.ofChar? c = none)
    (letter : Text.isAlphabetic c = false) (digit : c.isDigit = false) (offset : Nat)
    (rest : List Char) :
    Cursor.read ⟨offset, c :: rest⟩ =
      (⟨.illegal, String.ofList [c], ⟨offset, offset + 1⟩⟩, ⟨offset + 1, rest⟩) := by
  unfold Cursor.read
  split
  next heq => cases heq
  next heq =>
    cases heq
    exact absurd rfl quote
  next heq =>
    cases heq
    cases symbol
  next heq =>
    cases heq
    cases symbol
  next heq =>
    cases heq
    simp only [symbol, letter, digit, Bool.false_eq_true, if_false]
    exact take_word _ offset [c] rest

/-- A word is read where nothing makes it longer. -/
theorem read_word {kind : TokenKind} {word literal rest : List Char} (h : Word kind word literal)
    (hrest : Parts word rest) (offset : Nat) :
    Cursor.read ⟨offset, word ++ rest⟩ =
      (⟨kind, String.ofList literal, ⟨offset, offset + word.length⟩⟩,
        ⟨offset + word.length, rest⟩) := by
  cases h with
  | string h =>
    have hread := read_string h offset rest
    simpa [Nat.add_assoc] using hread
  | equal | notEqual => rfl
  | symbol h => exact read_symbol h offset hrest
  | @name c word h =>
    have hletter := h c List.mem_cons_self
    refine read_name h offset fun next hnext => ?_
    have hgoes := hrest next hnext
    rw [goesOn_cons (by rw [isWordChar, hletter, Bool.true_or]), hletter] at hgoes
    simpa using (Bool.or_eq_false_iff.mp hgoes).1
  | @integer c word h =>
    have hdigit := h c List.mem_cons_self
    refine read_integer h offset fun next hnext => ?_
    have hgoes := hrest next hnext
    rw [goesOn_cons (by rw [isWordChar, hdigit, Bool.or_true]), hdigit] at hgoes
    simpa using (Bool.or_eq_false_iff.mp hgoes).2
  | illegal quote layout symbol letter digit =>
    exact read_illegal quote symbol letter digit offset rest

/-- No layout is skipped before a word. -/
theorem skipLayout_word {kind : TokenKind} {word literal rest : List Char}
    (h : Word kind word literal) (hrest : Parts word rest) (offset : Nat) :
    Cursor.skipLayout ⟨offset, word ++ rest⟩ = ⟨offset, word ++ rest⟩ := by
  obtain ⟨c, word, rfl⟩ := h.exists_cons
  have hlayout := h.isLayout_eq_false
  unfold Cursor.skipLayout skipLayoutFrom
  split
  next heq =>
    obtain ⟨rfl, htail⟩ := List.cons.inj heq
    cases word with
    | nil => exact absurd (hrest '/' (by simp_all)) (by decide)
    | cons other word =>
      obtain rfl : other = '/' := (List.cons.inj htail).1
      cases h with
      | name h => exact absurd (h '/' List.mem_cons_self) (by decide)
      | integer h => exact absurd (h '/' List.mem_cons_self) (by decide)
  next heq =>
    obtain ⟨rfl, rfl⟩ := List.cons.inj heq
    rw [if_neg (by rw [hlayout]; exact Bool.false_ne_true)]
    rfl
  next heq => cases heq

/-- A word is the next token where nothing makes it longer. -/
theorem next_word {kind : TokenKind} {word literal rest : List Char} (h : Word kind word literal)
    (hrest : Parts word rest) (offset : Nat) :
    Cursor.next ⟨offset, word ++ rest⟩ =
      (⟨kind, String.ofList literal, ⟨offset, offset + word.length⟩⟩,
        ⟨offset + word.length, rest⟩) := by
  rw [Cursor.next, skipLayout_word h hrest, read_word h hrest]

/-! ## What is read -/

/-- Whether characters start neither with layout nor with a comment. -/
def Front (chars : List Char) : Prop :=
  ∀ c rest, chars = c :: rest → isLayout c = false ∧ (c = '/' → rest.head? ≠ some '/')

/-- What reading can have for a result: the end, a string that is never closed, or a word. -/
inductive Reads (offset : Nat) (chars : List Char) : Token × Cursor → Prop where
  | eof (h : chars = []) : Reads offset chars (Token.eof offset, ⟨offset, []⟩)
  | unclosed {body : List Char} (h : chars = '"' :: body) (inside : ∀ c ∈ body, (c != '"') = true) :
      Reads offset chars (⟨.string, String.ofList body, ⟨offset, offset + (body.length + 1)⟩⟩,
        ⟨offset + body.length + 2, []⟩)
  | word {kind : TokenKind} {word literal rest : List Char} (h : chars = word ++ rest)
      (hword : Word kind word literal) (hrest : Parts word rest) :
      Reads offset chars (⟨kind, String.ofList literal, ⟨offset, offset + word.length⟩⟩,
        ⟨offset + word.length, rest⟩)

/-- A word in front, and nothing that makes it longer. -/
theorem Reads.of_word {kind : TokenKind} {word literal rest : List Char} (offset : Nat)
    (hword : Word kind word literal) (hrest : Parts word rest) :
    Reads offset (word ++ rest) (Cursor.read ⟨offset, word ++ rest⟩) := by
  rw [read_word hword hrest]
  exact .word rfl hword hrest

theorem head?_dropWhile (p : Char → Bool) (chars : List Char) :
    ∀ c ∈ (chars.dropWhile p).head?, p c = false := by
  intro c hc
  have hhead := List.head?_dropWhile_not p chars
  rw [Option.mem_def.mp hc] at hhead
  simpa using hhead

/-- Behind a quote: a string, or one that is never closed, by whether there is a second. -/
theorem reads_quote (offset : Nat) (body : List Char) :
    Reads offset ('"' :: body) (Cursor.read ⟨offset, '"' :: body⟩) := by
  have hinside : ∀ c ∈ body.takeWhile (· != '"'), (c != '"') = true := by
    intro c hmem
    have hc := List.mem_takeWhile_imp hmem
    exact hc
  cases hdrop : body.dropWhile (· != '"') with
  | nil =>
    have hbody : body.takeWhile (· != '"') = body := by
      rw [← List.append_nil (body.takeWhile _), ← hdrop, List.takeWhile_append_dropWhile]
    rw [hbody] at hinside
    rw [read_unclosed hinside]
    exact .unclosed rfl hinside
  | cons quote rest =>
    have hquote := head?_dropWhile (· != '"') body quote (by rw [hdrop]; rfl)
    obtain rfl : quote = '"' := by simpa using hquote
    have hbody : body = body.takeWhile (· != '"') ++ '"' :: rest := by
      rw [← hdrop, List.takeWhile_append_dropWhile]
    rw [hbody]
    have hreads := Reads.of_word offset (.string hinside) (parts_quote _ rest)
    simpa using hreads

/-- At an operator: the longer one if it goes on, else this one. -/
theorem reads_symbol {c : Char} {kind : TokenKind} (h : TokenKind.ofChar? c = some kind)
    (offset : Nat) (rest : List Char) (hcomment : c = '/' → rest.head? ≠ some '/') :
    Reads offset (c :: rest) (Cursor.read ⟨offset, c :: rest⟩) := by
  -- an operator that goes on is one of the three of two characters, or a comment
  by_cases hparts : Parts [c] rest
  · exact .of_word offset (.symbol h) hparts
  · simp only [Parts, not_forall, Bool.not_eq_false] at hparts
    obtain ⟨next, hnext, hgoes⟩ := hparts
    cases rest with
    | nil => cases hnext
    | cons other rest =>
      obtain rfl : other = next := Option.some.inj hnext
      rcases goesOn_cases hgoes with ⟨rfl, heq | heq⟩ | ⟨rfl, heq⟩ | ⟨_, _, heq, hword, _⟩
      · cases heq
        exact .of_word offset .equal fun _ _ => rfl
      · cases heq
        exact .of_word offset .notEqual fun _ _ => rfl
      · cases heq
        exact absurd rfl (hcomment rfl)
      · cases heq
        rw [(not_special_of_isWordChar hword).1] at h
        cases h

/-- What is read is one of the three. -/
theorem reads_read {chars : List Char} (h : Front chars) (offset : Nat) :
    Reads offset chars (Cursor.read ⟨offset, chars⟩) := by
  cases chars with
  | nil => exact .eof rfl
  | cons c rest =>
    obtain ⟨hlayout, hcomment⟩ := h c rest rfl
    have hsplit (p : Char → Bool) : c :: rest = c :: rest.takeWhile p ++ rest.dropWhile p := by
      rw [List.cons_append, List.takeWhile_append_dropWhile]
    by_cases hquote : c = '"'
    · subst hquote
      exact reads_quote offset rest
    cases hsymbol : TokenKind.ofChar? c with
    | some kind => exact reads_symbol hsymbol offset rest hcomment
    | none =>
      cases hletter : Text.isAlphabetic c with
      | true =>
        rw [hsplit Text.isAlphabetic]
        have hall : ∀ other ∈ c :: rest.takeWhile Text.isAlphabetic,
            Text.isAlphabetic other = true := by
          intro other hmem
          rcases List.mem_cons.mp hmem with rfl | hmem
          · exact hletter
          · exact List.mem_takeWhile_imp hmem
        exact .of_word offset (.name hall) (parts_name hletter _ (head?_dropWhile _ rest))
      | false =>
        cases hdigit : c.isDigit with
        | true =>
          rw [hsplit Char.isDigit]
          have hall : ∀ other ∈ c :: rest.takeWhile Char.isDigit, other.isDigit = true := by
            intro other hmem
            rcases List.mem_cons.mp hmem with rfl | hmem
            · exact hdigit
            · exact List.mem_takeWhile_imp hmem
          exact .of_word offset (.integer hall) (parts_integer hdigit _ (head?_dropWhile _ rest))
        | false =>
          exact .of_word offset (.illegal hquote hlayout hsymbol hletter hdigit)
            (parts_illegal hsymbol hletter hdigit rest)

end Cursor

end Scriptlet
