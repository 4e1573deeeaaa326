import Scriptlet.Proofs.Token.Tiling

set_option autoImplicit false

/-!
# Tokens with spaces between them

Component: the scanner.  Specification: sections 4.1 and 10.2, of which this is the converse: what
comes of a text that is put together from tokens.

Tokens can be written down again: each as its literal, a string in quotes, with one space between
two of them.  Such a text is read as these tokens (`spellings_spaced`), because a space ends every
word and starts none.  So the tokens of any text, put down this way, are read as themselves, also
those that no program has and a string that was never closed; and so are tokens that do not come
from a text (`Writable`).

What has to hold of one token alone is that what it is written with is a word of its kind and with
its literal (`Rewrites`).  That is shown once for the tokens that a lexer has read and once, kind by
kind, for those that can be written down.  Without the spaces none of this holds: two slashes would
open a comment, an exclamation mark and an equals sign would be one operator, and two names would be
one name.
-/

namespace Scriptlet

/-- What a token is written with, by its kind and literal. -/
def written : TokenKind × String → String
  | (.string, literal) => "\"" ++ literal ++ "\""
  | (_, literal) => literal

/-- Some tokens, one behind the other, with one space between two of them. -/
def spaced (words : List (TokenKind × String)) : String := " ".intercalate (words.map written)

/-- The tokens of a text, written down again. -/
def respaced (text : String) : String :=
  spaced (((tokenize text).filter (·.kind != .eof)).map Token.spelling)

/-- The tokens that can be written down anywhere: operators and delimiters, keywords, names,
numbers, and strings without a quote inside. -/
inductive Writable : TokenKind × String → Prop where
  | symbol {kind : TokenKind} (h : kind.isSymbol = true) : Writable (kind, kind.name)
  | keyword {kind : TokenKind} {word : List Char} (h : TokenKind.ofKeyword? word = some kind) :
      Writable (kind, String.ofList word)
  | name {word : List Char} (some_char : word ≠ [])
      (letters : ∀ c ∈ word, Text.isAlphabetic c = true) (free : TokenKind.ofKeyword? word = none) :
      Writable (.identifier, String.ofList word)
  | integer {word : List Char} (some_char : word ≠ []) (digits : ∀ c ∈ word, c.isDigit = true) :
      Writable (.integer, String.ofList word)
  | string {body : List Char} (inside : '"' ∉ body) : Writable (.string, String.ofList body)

/-! ## Words again -/

/-- Whether what a token is written with is a word of its kind and with its literal. -/
def Rewrites (word : TokenKind × String) : Prop :=
  Word word.1 (written word).toList word.2.toList

/-- Of strings apart, a token is written with its literal. -/
theorem written_of_ne {kind : TokenKind} (h : kind ≠ .string) (literal : String) :
    written (kind, literal) = literal := by
  unfold written
  split
  next heq =>
    cases heq
    exact absurd rfl h
  next heq =>
    cases heq
    rfl

/-- A word that is its own literal. -/
theorem Rewrites.of_word {kind : TokenKind} {literal : String}
    (h : Word kind literal.toList literal.toList) (hstring : kind ≠ .string) :
    Rewrites (kind, literal) := by
  rw [Rewrites, written_of_ne hstring]
  exact h

/-- A string without a quote inside is written in quotes. -/
theorem Rewrites.string {literal : String} (inside : '"' ∉ literal.toList) :
    Rewrites (.string, literal) := by
  have hbody : ∀ c ∈ literal.toList, (c != '"') = true := by
    intro c hmem
    rw [bne_iff_ne]
    rintro rfl
    exact inside hmem
  have hword := Word.string hbody
  have hchars : (written (.string, literal)).toList = '"' :: (literal.toList ++ ['"']) := by
    simp [written, String.toList_append]
  rw [Rewrites, hchars]
  exact hword

/-- Symbols are words. -/
theorem TokenKind.word_of_isSymbol {kind : TokenKind} (h : kind.isSymbol = true) :
    Word kind kind.name.toList kind.name.toList := by
  cases kind with
  | equal => exact .equal
  | notEqual => exact .notEqual
  | illegal | eof | identifier | integer | string | functionWord | letWord | trueWord | falseWord
  | ifWord | elseWord | returnWord => cases h
  | assign | plus | minus | bang | star | slash | less | greater | comma | semicolon | colon
  | leftParen | rightParen | leftBrace | rightBrace | leftBracket | rightBracket =>
    exact .symbol rfl

/-- Keywords are words. -/
theorem TokenKind.word_of_ofKeyword? {kind : TokenKind} {word : List Char}
    (h : ofKeyword? word = some kind) : Word kind word word := by
  obtain rfl : ofWord word = kind := by rw [ofWord, h, Option.getD_some]
  have hletters : word ≠ [] ∧ word.all Text.isAlphabetic = true := by
    unfold ofKeyword? at h
    split at h <;> first | decide | cases h
  obtain ⟨c, rest, rfl⟩ := List.exists_cons_of_ne_nil hletters.1
  exact .name (List.all_eq_true.mp hletters.2)

/-- Whatever can be written down is a word, kind by kind. -/
theorem Writable.rewrites {word : TokenKind × String} (h : Writable word) : Rewrites word := by
  cases h with
  | symbol h =>
    refine .of_word (TokenKind.word_of_isSymbol h) ?_
    rintro rfl
    cases h
  | @keyword kind word h =>
    have hword := TokenKind.word_of_ofKeyword? h
    refine .of_word (by simpa using hword) ?_
    rintro rfl
    unfold TokenKind.ofKeyword? at h
    split at h <;> cases h
  | @name word some_char letters free =>
    obtain ⟨c, rest, rfl⟩ := List.exists_cons_of_ne_nil some_char
    have hword := Word.name letters
    rw [TokenKind.ofWord, free, Option.getD_none] at hword
    exact .of_word (by simpa using hword) TokenKind.noConfusion
  | @integer word some_char digits =>
    obtain ⟨c, rest, rfl⟩ := List.exists_cons_of_ne_nil some_char
    have hword := Word.integer digits
    exact .of_word (by simpa using hword) TokenKind.noConfusion
  | string inside => exact .string (by simpa using inside)

/-- The tokens of a text are words once more, a string that was never closed among them. -/
theorem rewrites_tokenize {text : String} {token : Token} (hmem : token ∈ tokenize text)
    (hkind : token.kind ≠ .eof) : Rewrites token.spelling := by
  by_cases hstring : token.kind = .string
  · obtain ⟨front, htokens, htiles⟩ := exists_tiles text
    rw [htokens, List.mem_append, List.mem_singleton] at hmem
    rcases hmem with hmem | rfl
    · have hquotes := (htiles.stands token hmem).2.2.quotes hstring
      rw [Token.spelling, hstring]
      exact .string hquotes
    · exact absurd rfl hkind
  · exact .of_word (Cursor.spelled_tokens _ token hmem hkind hstring) hstring

/-! ## One behind the other -/

/-- The characters of several words: those of the first, a space, and those of the others. -/
theorem toList_spaced_cons (word next : TokenKind × String) (rest : List (TokenKind × String)) :
    (spaced (word :: next :: rest)).toList =
      (written word).toList ++ ' ' :: (spaced (next :: rest)).toList := by
  simp [spaced, String.toList_append]

/-- Words with spaces between them are read one by one. -/
theorem spellings_spaced {words : List (TokenKind × String)} (h : ∀ word ∈ words, Rewrites word) :
    spellings (spaced words).toList = words ++ [(.eof, "")] := by
  induction words with
  | nil => exact spellings_nil
  | cons word rest ih =>
    obtain ⟨hword, hrest⟩ := List.forall_mem_cons.mp h
    have hspelling : (word.1, String.ofList word.2.toList) = word := by
      rw [String.ofList_toList]
    cases rest with
    | nil =>
      have hparts : Parts (written word).toList [] := fun _ hnext => by cases hnext
      have hread := spellings_word hword hparts
      rw [List.append_nil, hspelling, spellings_nil] at hread
      simpa [spaced] using hread
    | cons next rest =>
      -- the space makes the word no longer, and has no tokens itself
      have hparts : Parts (written word).toList (' ' :: (spaced (next :: rest)).toList) := by
        rintro _ ⟨⟩
        exact goesOn_of_isLayout rfl
      have hspace : spellings (' ' :: (spaced (next :: rest)).toList) =
          spellings (spaced (next :: rest)).toList := spellings_gap (.layout rfl .nil)
      rw [toList_spaced_cons, spellings_word hword hparts, hspelling, hspace, ih hrest]
      rfl

/-- The tokens of a text are those that are not its end, and the end. -/
theorem map_spelling_filter (text : String) :
    ((tokenize text).filter (·.kind != .eof)).map Token.spelling ++ [(.eof, "")] =
      (tokenize text).map Token.spelling := by
  obtain ⟨front, htokens, htiles⟩ := exists_tiles text
  have hfront : front.filter (·.kind != .eof) = front :=
    List.filter_eq_self.mpr fun token hmem => bne_iff_ne.mpr (htiles.stands token hmem).1
  rw [htokens, List.filter_append, hfront, List.map_append]
  simp [Token.eof, Token.spelling]

/-- Tokens that are written down with a space between two of them are read as they were: those of
any text, and any others that can be written. -/
theorem tokenize_spaced :
    (∀ text : String,
      (tokenize (respaced text)).map Token.spelling = (tokenize text).map Token.spelling) ∧
    ∀ words : List (TokenKind × String), (∀ word ∈ words, Writable word) →
      (tokenize (spaced words)).map Token.spelling = words ++ [(.eof, "")] := by
  have hread (words : List (TokenKind × String)) (h : ∀ word ∈ words, Rewrites word) :
      (tokenize (spaced words)).map Token.spelling = words ++ [(.eof, "")] := spellings_spaced h
  refine ⟨fun text => ?_, fun words h => hread words fun word hmem => (h word hmem).rewrites⟩
  rw [respaced, hread, map_spelling_filter]
  intro word hmem
  obtain ⟨token, htoken, rfl⟩ := List.mem_map.mp hmem
  obtain ⟨htoken, hkind⟩ := List.mem_filter.mp htoken
  exact rewrites_tokenize htoken (bne_iff_ne.mp hkind)

/-- Tokens that would run into each other, or be read as a comment, without spaces. -/
def seams : List (TokenKind × String) :=
  [(.slash, "/"), (.slash, "/"), (.bang, "!"), (.assign, "="), (.equal, "=="), (.string, "// \n"),
    (.identifier, "lets"), (.letWord, "var"), (.integer, "007"), (.integer, "1"), (.slash, "/")]

/-- Slashes and operators that would join, a string that looks like a comment, words that would be
one name, and digits that would be one number. -/
theorem tokenize_spaced_seams :
    (∀ word ∈ seams, Writable word) ∧ spaced seams = "/ / ! = == \"// \n\" lets var 007 1 /" ∧
      (tokenize (spaced seams)).map Token.spelling = seams ++ [(.eof, "")] := by
  have hwritable : ∀ word ∈ seams, Writable word := by
    simp only [seams, List.forall_mem_cons]
    refine ⟨.symbol rfl, .symbol rfl, .symbol rfl, .symbol rfl, .symbol rfl,
      @Writable.string "// \n".toList ?_,
      @Writable.name "lets".toList ?_ (List.all_eq_true.mp ?_) ?_,
      @Writable.keyword _ "var".toList rfl,
      @Writable.integer "007".toList ?_ (List.all_eq_true.mp ?_),
      @Writable.integer "1".toList ?_ (List.all_eq_true.mp ?_), .symbol rfl, List.forall_mem_nil _⟩
    all_goals decide
  exact ⟨hwritable, by decide +kernel, tokenize_spaced.2 seams hwritable⟩

end Scriptlet
