import Scriptlet.Token
import Scriptlet.Text.Alphabetic

set_option autoImplicit false

/-!
# From a text to its tokens

A `Cursor` stands somewhere in a text: it holds the characters still to be read and the offset of
the first of them.  `Cursor.next` skips layout (spaces, tabs, line ends, comments) and reads one
token, the longest that starts there.  At the end of the text it reads the end token and stays
where it is, so the end token repeats for ever.

`Cursor.tokens` reads until the end token, which is its last element and the only one of its kind.
That reading stops is `Cursor.next_length_lt`: a token other than the end consumes characters.

A string that is never closed runs to the end of the text.  Its span ends there; the end token
that follows it stands one place further, behind the quote that is missing.
-/

namespace Scriptlet

/-! ## Characters -/

/-- The characters that separate tokens and belong to none. -/
def isLayout (c : Char) : Bool := c == ' ' || c == '\t' || c == '\n' || c == '\r'

/-- The characters that end a comment. -/
def endsLine (c : Char) : Bool := c == '\n' || c == '\r'

/-- The tokens of one character. -/
def TokenKind.ofChar? : Char → Option TokenKind
  | '=' => some .assign
  | '+' => some .plus
  | '-' => some .minus
  | '!' => some .bang
  | '*' => some .star
  | '/' => some .slash
  | '<' => some .less
  | '>' => some .greater
  | ',' => some .comma
  | ';' => some .semicolon
  | ':' => some .colon
  | '(' => some .leftParen
  | ')' => some .rightParen
  | '{' => some .leftBrace
  | '}' => some .rightBrace
  | '[' => some .leftBracket
  | ']' => some .rightBracket
  | _ => none

/-- The words that are not names. -/
def TokenKind.ofKeyword? : List Char → Option TokenKind
  | ['f', 'n'] => some .functionWord
  | ['l', 'e', 't'] => some .letWord
  | ['v', 'a', 'r'] => some .letWord
  | ['t', 'r', 'u', 'e'] => some .trueWord
  | ['f', 'a', 'l', 's', 'e'] => some .falseWord
  | ['i', 'f'] => some .ifWord
  | ['e', 'l', 's', 'e'] => some .elseWord
  | ['r', 'e', 't', 'u', 'r', 'n'] => some .returnWord
  | _ => none

/-- The kind of a word: a keyword, or else a name. -/
def TokenKind.ofWord (word : List Char) : TokenKind := (ofKeyword? word).getD .identifier

/-! ## Cursors -/

/-- A place in a text: what is still to be read, and the offset of its first character. -/
structure Cursor where
  offset : Nat
  chars : List Char
  deriving DecidableEq, Repr, Inhabited

namespace Cursor

/-- The cursor behind the next `n` characters. -/
def drop (n : Nat) (cursor : Cursor) : Cursor := ⟨cursor.offset + n, cursor.chars.drop n⟩

mutual

/-- The place of the next character that is neither layout nor in a comment. -/
def skipLayoutFrom (offset : Nat) : List Char → Cursor
  | '/' :: '/' :: rest => skipCommentFrom (offset + 2) rest
  | c :: rest => if isLayout c then skipLayoutFrom (offset + 1) rest else ⟨offset, c :: rest⟩
  | [] => ⟨offset, []⟩

/-- The same from inside a comment, which the next line end or the end of the text closes. -/
def skipCommentFrom (offset : Nat) : List Char → Cursor
  | c :: rest =>
    if endsLine c then skipLayoutFrom (offset + 1) rest else skipCommentFrom (offset + 1) rest
  | [] => ⟨offset, []⟩

end

/-- The cursor behind layout and comments. -/
def skipLayout (cursor : Cursor) : Cursor := skipLayoutFrom cursor.offset cursor.chars

/-- The token of the next `n` characters, and the cursor behind them. -/
def take (kind : TokenKind) (n : Nat) (cursor : Cursor) : Token × Cursor :=
  (⟨kind, String.ofList (cursor.chars.take n), ⟨cursor.offset, cursor.offset + n⟩⟩, cursor.drop n)

/-- The string whose opening quote the cursor stands on; `body` is what follows that quote. -/
def takeString (cursor : Cursor) (body : List Char) : Token × Cursor :=
  let inside := body.takeWhile (· != '"')
  let token (length : Nat) : Token :=
    ⟨.string, String.ofList inside, ⟨cursor.offset, cursor.offset + length⟩⟩
  match body.dropWhile (· != '"') with
  | _ :: rest => (token (inside.length + 2), ⟨cursor.offset + inside.length + 2, rest⟩)
  | [] => (token (inside.length + 1), ⟨cursor.offset + inside.length + 2, []⟩)

/-- The token that starts at the cursor, where no layout stands, and the cursor behind it. -/
def read (cursor : Cursor) : Token × Cursor :=
  match cursor.chars with
  | [] => (Token.eof cursor.offset, cursor)
  | '"' :: body => cursor.takeString body
  | '=' :: '=' :: _ => cursor.take .equal 2
  | '!' :: '=' :: _ => cursor.take .notEqual 2
  | c :: rest =>
    match TokenKind.ofChar? c with
    | some kind => cursor.take kind 1
    | none =>
      if Text.isAlphabetic c then
        let word := c :: rest.takeWhile Text.isAlphabetic
        cursor.take (.ofWord word) word.length
      else if c.isDigit then
        cursor.take .integer ((rest.takeWhile Char.isDigit).length + 1)
      else
        cursor.take .illegal 1

/-- The next token, and the cursor behind it. -/
def next (cursor : Cursor) : Token × Cursor := cursor.skipLayout.read

/-! ## Reading goes forward -/

mutual

theorem length_skipLayoutFrom_le (offset : Nat) (chars : List Char) :
    (skipLayoutFrom offset chars).chars.length ≤ chars.length := by
  unfold skipLayoutFrom
  split
  next rest =>
    have shorter := length_skipCommentFrom_le (offset + 2) rest
    simp only [List.length_cons]
    omega
  next c rest _ =>
    split
    · have shorter := length_skipLayoutFrom_le (offset + 1) rest
      simp only [List.length_cons]
      omega
    · exact Nat.le_refl _
  next => exact Nat.le_refl _

theorem length_skipCommentFrom_le (offset : Nat) (chars : List Char) :
    (skipCommentFrom offset chars).chars.length ≤ chars.length := by
  unfold skipCommentFrom
  split
  next c rest =>
    split
    · have shorter := length_skipLayoutFrom_le (offset + 1) rest
      simp only [List.length_cons]
      omega
    · have shorter := length_skipCommentFrom_le (offset + 1) rest
      simp only [List.length_cons]
      omega
  next => exact Nat.le_refl _

end

theorem length_skipLayout_le (cursor : Cursor) :
    cursor.skipLayout.chars.length ≤ cursor.chars.length :=
  length_skipLayoutFrom_le cursor.offset cursor.chars

theorem read_of_chars_nil {cursor : Cursor} (h : cursor.chars = []) :
    cursor.read = (Token.eof cursor.offset, cursor) := by
  simp [read, h]

theorem length_take_lt {cursor : Cursor} (h : cursor.chars ≠ []) (kind : TokenKind) (n : Nat) :
    (cursor.take kind (n + 1)).2.chars.length < cursor.chars.length := by
  have some_char := List.length_pos_iff.2 h
  simp only [take, drop, List.length_drop]
  omega

theorem length_takeString_le (cursor : Cursor) (body : List Char) :
    (cursor.takeString body).2.chars.length ≤ body.length := by
  have shorter := (List.dropWhile_sublist (l := body) (· != '"')).length_le
  simp only [takeString]
  split
  next rest eq =>
    rw [eq, List.length_cons] at shorter
    exact Nat.le_of_succ_le shorter
  next => exact Nat.zero_le _

/-- Reading where the text goes on consumes at least one character. -/
theorem length_read_lt {cursor : Cursor} (h : cursor.chars ≠ []) :
    cursor.read.2.chars.length < cursor.chars.length := by
  unfold read
  split
  next eq => exact absurd eq h
  next body eq =>
    have shorter := cursor.length_takeString_le body
    rw [eq, List.length_cons]
    omega
  next => exact length_take_lt h _ 1
  next => exact length_take_lt h _ 1
  next c rest _ _ _ _ =>
    split
    · exact length_take_lt h _ 0
    · split
      · exact length_take_lt h _ _
      · split
        · exact length_take_lt h _ _
        · exact length_take_lt h _ 0

/-- A token other than the end consumes at least one character. -/
theorem next_length_lt {cursor : Cursor} (h : cursor.next.1.kind ≠ .eof) :
    cursor.next.2.chars.length < cursor.chars.length := by
  by_cases nothing : cursor.skipLayout.chars = []
  · rw [next, read_of_chars_nil nothing] at h
    exact absurd rfl h
  · exact Nat.lt_of_lt_of_le (length_read_lt nothing) cursor.length_skipLayout_le

/-- The tokens from the cursor to the end of the text, the end token included. -/
def tokens (cursor : Cursor) : List Token :=
  let step := cursor.next
  if _ : step.1.kind = .eof then [step.1] else step.1 :: step.2.tokens
termination_by cursor.chars.length
decreasing_by exact next_length_lt ‹_›

theorem tokens_of_eof {cursor : Cursor} (h : cursor.next.1.kind = .eof) :
    cursor.tokens = [cursor.next.1] := by
  rw [tokens, dif_pos h]

theorem tokens_of_ne_eof {cursor : Cursor} (h : cursor.next.1.kind ≠ .eof) :
    cursor.tokens = cursor.next.1 :: cursor.next.2.tokens := by
  rw [tokens, dif_neg h]

end Cursor

/-! ## Reading a whole text -/

/-- The cursor before a text. -/
def Cursor.ofString (text : String) : Cursor := ⟨0, text.toList⟩

/-- All tokens of a text, the end token last. -/
def tokenize (text : String) : List Token := (Cursor.ofString text).tokens

/-- The first `n` tokens of a text, the end token repeating. -/
def Cursor.nextTokens : Nat → Cursor → List Token
  | 0, _ => []
  | n + 1, cursor => cursor.next.1 :: nextTokens n cursor.next.2

/-- A reader of the tokens of a text that yields the end token once and then nothing. -/
structure TokenStream where
  cursor : Cursor
  finished : Bool
  deriving DecidableEq, Repr, Inhabited

namespace TokenStream

/-- The stream before a text. -/
def ofString (text : String) : TokenStream := ⟨Cursor.ofString text, false⟩

/-- The next token, if the end token has not been yielded yet. -/
def next (stream : TokenStream) : Option Token × TokenStream :=
  if stream.finished then (none, stream)
  else
    match stream.cursor.next with
    | (token, rest) => (some token, ⟨rest, token.kind == .eof⟩)

/-- Everything the stream still yields, and the stream when it has run dry. -/
def drain (stream : TokenStream) : List Token × TokenStream :=
  if stream.finished then ([], stream)
  else
    let step := stream.cursor.next
    if _ : step.1.kind = .eof then ([step.1], ⟨step.2, true⟩)
    else
      let others := drain ⟨step.2, false⟩
      (step.1 :: others.1, others.2)
termination_by stream.cursor.chars.length
decreasing_by exact Cursor.next_length_lt ‹_›

end TokenStream

end Scriptlet
