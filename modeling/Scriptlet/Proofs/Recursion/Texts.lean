import Mathlib
import Scriptlet.Proofs.Layout.Irrelevant
import Scriptlet.Proofs.Parser.Complete
import Scriptlet.Proofs.Parser.Concatenate
import Scriptlet.Proofs.Recursion.ArrayHelpers

set_option autoImplicit false

/-!
# The texts of programs with functions on arrays

Component: the scanner and the parser, for programs of the language.  Specification: sections 4.1
and 4.2.

What trees a text is read as depends on its words only (`StandsFor.of_words`), and where a text ends
with a semicolon, what is behind it is read on its own (`StandsFor.append`).  So the text of `map`,
`reduce` and `sum` can be read once (`standsFor_helpersText`), in front of statements with any array
of integers in them (`standsFor_sumText`).

The array is arbitrary, so its text is not known as characters.  It is read as words, whatever it is
and whatever is behind it, and these words are a literal of the array: `Makes` says so of words for
any phrase, with anything behind them, so that it composes with the rest of the text.

The definitions of the functions are one fixed text of some hundred tokens.  It is read by
evaluating the lexer and the grammar on it, and never again for each program that starts with it.
-/

namespace Scriptlet

/-! ## Texts and trees without spans -/

/-- Whether a text is read without errors as some statements, but for spans. -/
structure StandsFor (text : String) (statements : List Statement) : Prop where
  errors : (parse text).errors = []
  statements : mapSpansOfStatements (fun _ => default) (parse text).program.statements = statements

/-- The tokens of some words, without spans. -/
def bare (words : List (TokenKind × String)) : List Token :=
  words.map fun word => ⟨word.1, word.2, default⟩

/-- Words in a row are tokens in a row. -/
theorem bare_append (words others : List (TokenKind × String)) (rest : List Token) :
    bare (words ++ others) ++ rest = bare words ++ (bare others ++ rest) := by
  rw [bare, List.map_append, List.append_assoc]
  rfl

/-- These tokens have these words. -/
theorem map_spelling_bare (words : List (TokenKind × String)) :
    (bare words).map Token.spelling = words := by
  rw [bare, List.map_map]
  exact List.map_id _

/-- Tokens with the same words are parsed as the same statements but for spans, and without errors
if the others are. -/
theorem parseTokens_of_spellings {tokens others : List Token}
    (h : tokens.map Token.spelling = others.map Token.spelling) :
    mapSpansOfStatements (fun _ => default) (parseTokens tokens).program.statements =
        mapSpansOfStatements (fun _ => default) (parseTokens others).program.statements ∧
      ((parseTokens others).errors = [] → (parseTokens tokens).errors = []) := by
  obtain ⟨hplain, herrors⟩ := parseTokens_corresponds (corresponds_of_spellings h)
  refine ⟨congrArg Program.statements hplain, fun hnone => ?_⟩
  rw [hnone] at herrors
  exact List.forall₂_nil_right_iff.mp herrors

namespace StandsFor

variable {text other : String} {statements others : List Statement}

/-- Only the words of a text count. -/
theorem of_words {words : List (TokenKind × String)} (hwords : spellings text.toList = words)
    {program : Program} (h : IsProgram (bare words) program)
    (hprogram : mapSpansOfStatements (fun _ => default) program.statements = statements) :
    StandsFor text statements := by
  obtain ⟨hplain, herrors⟩ :=
    parseTokens_of_spellings (hwords.trans (map_spelling_bare words).symm)
  rw [h.parseTokens_eq] at hplain herrors
  exact ⟨herrors rfl, hplain.trans hprogram⟩

/-- A text that ends with a semicolon is read as itself in front of any other, and that one as on
its own. -/
theorem append (h : StandsFor text statements) (hother : StandsFor other others)
    {front : List Token} {semicolon last : Token}
    (htokens : tokenize text = front ++ [semicolon, last]) (hkind : semicolon.kind = .semicolon)
    (hlayout : ∀ c ∈ text.toList.drop semicolon.span.stop, isLayout c = true)
    (hbraces : openings (front ++ [semicolon]) = closings (front ++ [semicolon])) :
    StandsFor (text ++ other) (statements ++ others) := by
  have hsplit : tokenize text = (front ++ [semicolon]) ++ [last] := by
    rw [htokens, List.append_assoc]
    rfl
  have happend : tokenize (text ++ other) =
      (front ++ [semicolon]) ++ (tokenize other).map (Token.shift text.length) := by
    rw [tokenize_append htokens hkind hlayout, List.append_assoc]
    rfl
  have hlast : ∀ token ∈ (front ++ [semicolon]).getLast?, token.kind = .semicolon := by
    rw [List.getLast?_concat]
    rintro _ ⟨⟩
    exact hkind
  have hparse := parseTokens_append (hsplit ▸ ended_tokenize text) (hsplit ▸ h.errors) hbraces hlast
    ((ended_tokenize other).map_shift text.length)
  rw [← hsplit, ← happend] at hparse
  -- What stands further on has the same words.
  have hspellings : ((tokenize other).map (Token.shift text.length)).map Token.spelling =
      (tokenize other).map Token.spelling := List.map_map
  obtain ⟨hplain, herrors⟩ := parseTokens_of_spellings hspellings
  constructor
  · rw [parse, hparse]
    exact herrors hother.errors
  · rw [parse, hparse, mapSpansOfStatements_eq_map, List.map_append, ← mapSpansOfStatements_eq_map,
      ← mapSpansOfStatements_eq_map, hplain]
    exact congrArg₂ (· ++ ·) h.statements hother.statements

end StandsFor

/-! ## Words and trees -/

/-- Whether some words are an expression or a list of expressions, whatever is behind them. -/
def Makes (phrase : Phrase) (words : List (TokenKind × String)) (tree : phrase.Tree) : Prop :=
  ∀ rest, ∃ last, Derives phrase (bare words ++ rest) tree last rest

/-- The words of a call. -/
def callWords (name : String) (words : List (TokenKind × String)) : List (TokenKind × String) :=
  (.identifier, name) :: TokenKind.leftParen.mark :: (words ++ [TokenKind.rightParen.mark])

section

variable {words others : List (TokenKind × String)} {tree : Expression} {trees : List Expression}
  {close : TokenKind}

/-- An operand is an expression. -/
theorem makes_ofOperand (h : Makes .operand words tree) : Makes .anyExpression words tree :=
  fun rest => (h rest).imp fun _ hderives => .ofOperand _ hderives

/-- The last argument is in front of what closes the list. -/
theorem makes_lastArgument (h : Makes .anyExpression words tree) :
    Makes (.moreArguments close) (words ++ [close.mark]) [tree] := by
  intro rest
  obtain ⟨last, htree⟩ := h (bare [close.mark] ++ rest)
  rw [bare_append]
  exact ⟨⟨close, close.name, default⟩, .lastArgument htree rfl⟩

/-- Others are in front of a comma. -/
theorem makes_moreArguments (h : Makes .anyExpression words tree)
    (hmore : Makes (.moreArguments close) others trees) :
    Makes (.moreArguments close) (words ++ TokenKind.comma.mark :: others) (tree :: trees) := by
  intro rest
  obtain ⟨last, htrees⟩ := hmore rest
  obtain ⟨middle, htree⟩ := h (bare (TokenKind.comma.mark :: others) ++ rest)
  rw [bare_append]
  exact ⟨last, .moreArguments htree rfl htrees⟩

/-- A name with arguments in parentheses is a call. -/
theorem makes_call {name : String}
    (h : Makes (.moreArguments .rightParen) (words ++ [TokenKind.rightParen.mark]) trees) :
    Makes .anyExpression (callWords name words)
      (Sketch.call (Sketch.identifier name) trees) := by
  intro rest
  obtain ⟨last, htrees⟩ := h rest
  exact ⟨last, .call (by decide) rfl (.ofOperand _ (.identifier _ rfl)) (.someArguments htrees)⟩

end

/-! ## Arrays of integers -/

/-- Digits are a number. -/
theorem makes_digits (n : Nat) (h : n < leastMagnitude) :
    Makes .operand [digitsWord n] (Sketch.digits n) := by
  intro rest
  have hvalue : decimalValue n.repr.toList = n := decimalValue_repr n
  have hfits : decimalValue n.repr.toList ≤ maxInteger := hvalue.symm ▸ Nat.lt_succ_iff.mp h
  have hderives := @Derives.integer (Sketch.token .integer n.repr) rest rfl hfits
  rw [Sketch.token, hvalue] at hderives
  exact ⟨_, hderives⟩

/-- The words of an integer are a literal of it, with a minus if it is below zero. -/
theorem makes_integer {n : Int64} (h : n ≠ Int64.minValue) :
    Makes .anyExpression (integerWords n) (Sketch.integer n) := by
  have hlt : n.toInt.natAbs < leastMagnitude :=
    lt_of_le_of_ne (natAbs_toInt_le n) fun heq => h (natAbs_toInt_eq_iff.mp heq)
  intro rest
  obtain ⟨last, hdigits⟩ := makes_digits n.toInt.natAbs hlt rest
  unfold Sketch.integer integerWords
  split
  · exact ⟨last, .unary .negate (by decide) rfl (.ofOperand _ hdigits)⟩
  · exact ⟨last, .ofOperand _ hdigits⟩

/-- Elements are written one by one. -/
theorem makes_elements {x : Int64} {xs : List Int64} (h : ∀ n ∈ x :: xs, n ≠ Int64.minValue) :
    Makes (.moreArguments .rightBracket)
      (joined (wordsOfValues ((x :: xs).map .integer)) ++ [TokenKind.rightBracket.mark])
      ((x :: xs).map Sketch.integer) := by
  induction xs generalizing x with
  | nil => exact makes_lastArgument (makes_integer (h x List.mem_cons_self))
  | cons y xs ih =>
    have hjoined : joined (wordsOfValues ((x :: y :: xs).map .integer)) =
        integerWords x ++ TokenKind.comma.mark :: joined (wordsOfValues ((y :: xs).map .integer)) :=
      rfl
    rw [hjoined, List.append_assoc]
    exact makes_moreArguments (makes_integer (h x List.mem_cons_self))
      (ih fun n hmem => h n (List.mem_cons_of_mem _ hmem))

/-- The words of an array of integers are a literal of it. -/
theorem makes_array {xs : List Int64} (h : ∀ n ∈ xs, n ≠ Int64.minValue) (id : ObjectId) :
    Makes .anyExpression (Value.array id (xs.map .integer)).words
      (Sketch.array (xs.map Sketch.integer)) := by
  refine makes_ofOperand fun rest => ?_
  cases xs with
  | nil => exact ⟨_, .array rfl (.noArgument _ rfl)⟩
  | cons x xs =>
    obtain ⟨last, hlist⟩ := makes_elements h rest
    exact ⟨last, .array rfl (.someArguments hlist)⟩

/-- The tree of an array of integers has no spans. -/
theorem plain_integers (xs : List Int64) :
    mapSpansOfExpressions (fun _ => default) (xs.map Sketch.integer) = xs.map Sketch.integer := by
  induction xs with
  | nil => rfl
  | cons x xs ih =>
    have hx : (Sketch.integer x).plain = Sketch.integer x := by
      unfold Sketch.integer
      split <;> rfl
    exact congrArg₂ List.cons hx ih

/-- An array of integers as it is written. -/
def arrayText (xs : List Int64) : String := (Value.array ⟨0⟩ (xs.map .integer)).inspect

/-- The text of an array is read as its words. -/
theorem spells_arrayText (xs : List Int64) :
    Spells (arrayText xs) (Value.array ⟨0⟩ (xs.map .integer)).words := by
  refine Value.Plain.spells (.array ⟨0⟩ fun element hmem => ?_)
  obtain ⟨n, _, rfl⟩ := List.mem_map.mp hmem
  exact .integer n

/-! ## Statements -/

namespace Sketch

/-- An array that is doubled. -/
def doubled (operand : Expression) : Expression :=
  call (identifier "map") [operand, .function doubling]

/-- The statements that define `map`, `reduce` and `sum`. -/
def helpers : List Statement :=
  [binding "map" (.function map), binding "reduce" (.function reduce),
    binding "sum" (.function sum)]

end Sketch

/-- The words of `fn(x) { x * 2 }`. -/
def doublingWords : List (TokenKind × String) :=
  [(.functionWord, "fn"), TokenKind.leftParen.mark, (.identifier, "x"),
    TokenKind.rightParen.mark, TokenKind.leftBrace.mark, (.identifier, "x"), TokenKind.star.mark,
    (.integer, "2"), TokenKind.rightBrace.mark]

/-- Its words are the function. -/
theorem makes_doubling : Makes .anyExpression doublingWords (.function Sketch.doubling) := by
  refine makes_ofOperand fun rest => ?_
  have hproduct : Derives .anyExpression
      (bare [(.identifier, "x"), TokenKind.star.mark, (.integer, "2"),
        TokenKind.rightBrace.mark] ++ rest)
      (Sketch.binary (Sketch.identifier "x") .multiply (Sketch.digits 2))
      (Sketch.token .integer "2") (bare [TokenKind.rightBrace.mark] ++ rest) := by
    refine .binary .multiply (by decide) rfl (.ofOperand _ (.identifier _ rfl))
      (.ofOperand _ (.integer _ rfl ?_))
    decide
  exact ⟨_, .function rfl rfl (.someParameters (.lastParameter _ rfl rfl))
    (.block rfl (.moreStatements (.expressionStatement hproduct (.implicit rfl))
      (.noStatement _ _)) (.brace rfl))⟩

/-- Words of an array, put into a call of `map`. -/
theorem makes_doubled {words : List (TokenKind × String)} {tree : Expression}
    (h : Makes .anyExpression words tree) :
    Makes .anyExpression (callWords "map" (words ++ TokenKind.comma.mark :: doublingWords))
      (Sketch.doubled tree) := by
  refine makes_call ?_
  rw [List.append_assoc]
  exact makes_moreArguments h (makes_lastArgument makes_doubling)

/-- What is behind the last expression of a program. -/
def endWords : List (TokenKind × String) := [TokenKind.semicolon.mark, (.eof, "")]

/-- A text that is one call. -/
theorem standsFor_expression {text : String} {name : String}
    {words : List (TokenKind × String)} {tree : Expression}
    (htext : spellings text.toList = callWords name words ++ endWords)
    (h : Makes .anyExpression (callWords name words) tree) (hplain : tree.plain = tree) :
    StandsFor text [Sketch.statement (Sketch.token .identifier name) tree] := by
  obtain ⟨last, htree⟩ := h (bare endWords)
  have hprogram : IsProgram (bare (callWords name words ++ endWords))
      ⟨[Sketch.statement (Sketch.token .identifier name) tree]⟩ := by
    refine ⟨⟨.eof, "", default⟩, rfl, ?_⟩
    rw [bare, List.map_append]
    exact .moreStatements (.expressionStatement htree (.semicolon rfl)) (.noStatement _ _)
  refine .of_words htext hprogram ?_
  exact congrArg (fun value => [Sketch.statement (Sketch.token .identifier name) value]) hplain

/-- A text that is one binding. -/
theorem standsFor_binding {text : String} {name : String}
    {words : List (TokenKind × String)} {tree : Expression}
    (htext : spellings text.toList = (.letWord, "let") :: (.identifier, name) ::
      TokenKind.assign.mark :: (words ++ endWords))
    (h : Makes .anyExpression words tree) (hplain : tree.plain = tree) :
    StandsFor text [Sketch.binding name tree] := by
  obtain ⟨last, htree⟩ := h (bare endWords)
  have hprogram : IsProgram (bare ((.letWord, "let") :: (.identifier, name) ::
      TokenKind.assign.mark :: (words ++ endWords))) ⟨[Sketch.binding name tree]⟩ := by
    have hbehind : bare (words ++ endWords) = bare words ++ bare endWords := List.map_append
    have hstatement : Derives .statement (⟨.letWord, "let", default⟩ ::
        ⟨.identifier, name, default⟩ :: ⟨.assign, "=", default⟩ :: (bare words ++ bare endWords))
        (Sketch.binding name tree) ⟨.semicolon, ";", default⟩ [⟨.eof, "", default⟩] :=
      .binding rfl rfl rfl htree (.semicolon rfl)
    rw [← hbehind] at hstatement
    exact ⟨⟨.eof, "", default⟩, rfl, .moreStatements hstatement (.noStatement _ _)⟩
  refine .of_words htext hprogram ?_
  exact congrArg (fun value => [Sketch.binding name value]) hplain

/-! ## Texts -/

/-- Definitions of `map`, `reduce` and `sum`. -/
def helpersText : String := "
let map = fn(arr, f) \x7b
  let iter = fn(arr, accumulated) \x7b
    if (len(arr) == 0) \x7b
      accumulated
    \x7d else \x7b
      iter(rest(arr), push(accumulated, f(first(arr))));
    \x7d
  \x7d;
  iter(arr, []);
\x7d;
let reduce = fn(arr, initial, f) \x7b
  let iter = fn(arr, result) \x7b
    if (len(arr) == 0) \x7b
      result
    \x7d else \x7b
      iter(rest(arr), f(result, first(arr)));
    \x7d
  \x7d;
  iter(arr, initial);
\x7d;
let sum = fn(arr) \x7b reduce(arr, 0, fn(initial, el) \x7b initial + el \x7d) \x7d;
"

/-- The sum of an array that is doubled. -/
def sumText (xs : List Int64) : String :=
  helpersText ++ ("sum(map(" ++ arrayText xs ++ ", fn(x) \x7b x * 2 \x7d));\n")

/-- An array that is doubled. -/
def mapText (xs : List Int64) : String :=
  helpersText ++ ("map(" ++ arrayText xs ++ ", fn(x) \x7b x * 2 \x7d);\n")

/-- A name for an array. -/
def originalText (xs : List Int64) : String :=
  helpersText ++ ("let original = " ++ arrayText xs ++ ";\n")

/-- The array of that name, doubled. -/
def doubleOriginalText : String := "map(original, fn(x) \x7b x * 2 \x7d);\n"

set_option maxRecDepth 20000 in
/-- The definitions are read as the three functions. -/
theorem standsFor_helpersText : StandsFor helpersText Sketch.helpers := by
  -- The characters are told first, as it is slow to find one after the other in a literal.
  have hchars : helpersText.toList = _ := String.toList_ofList
  constructor <;> rw [parse, tokenize, Cursor.ofString, hchars]
  · decide +kernel
  · cbv

set_option maxRecDepth 20000 in
/-- The definitions end with a semicolon and a line break. -/
theorem exists_tokenize_helpersText : ∃ front semicolon last,
    tokenize helpersText = front ++ [semicolon, last] ∧ semicolon.kind = .semicolon ∧
      (∀ c ∈ helpersText.toList.drop semicolon.span.stop, isLayout c = true) ∧
      openings (front ++ [semicolon]) = closings (front ++ [semicolon]) := by
  have hchars : helpersText.toList = _ := String.toList_ofList
  refine ⟨(tokenize helpersText).dropLast.dropLast, ⟨.semicolon, ";", ⟨473, 474⟩⟩, Token.eof 475,
    ?_, rfl, ?_, ?_⟩
  · rw [tokenize, Cursor.ofString, hchars]
    decide +kernel
  · rw [hchars]
    exact List.all_eq_true.mp (by decide +kernel)
  · rw [tokenize, Cursor.ofString, hchars]
    decide +kernel

/-- Programs behind the definitions. -/
theorem StandsFor.helpers {text : String} {statements : List Statement}
    (h : StandsFor text statements) :
    StandsFor (helpersText ++ text) (Sketch.helpers ++ statements) := by
  obtain ⟨front, semicolon, last, htokens, hkind, hlayout, hbraces⟩ := exists_tokenize_helpersText
  exact standsFor_helpersText.append h htokens hkind hlayout hbraces

/-- A name in front of an opening parenthesis. -/
theorem spellings_call {name : String} (h : Word .identifier name.toList name.toList)
    (rest : List Char) : spellings (name.toList ++ '(' :: rest) =
      (.identifier, name) :: TokenKind.leftParen.mark :: spellings rest := by
  have hname : Spells name [(.identifier, name)] :=
    @Token.spells_literal ⟨.identifier, name, default⟩ h rfl
  rw [hname _ (.cons rfl _), spellings_mark rfl (by decide)]
  rfl

/-- The words of `map(`. -/
theorem spellings_map (rest : List Char) : spellings ("map(".toList ++ rest) =
    (.identifier, "map") :: TokenKind.leftParen.mark :: spellings rest := by
  have hword : Word .identifier "map".toList "map".toList := @Word.of_isAlpha 'm' ['a', 'p'] rfl
  exact spellings_call hword rest

/-- The words of `sum(map(`. -/
theorem spellings_sum_map (rest : List Char) : spellings ("sum(map(".toList ++ rest) =
    (.identifier, "sum") :: TokenKind.leftParen.mark :: (.identifier, "map") ::
      TokenKind.leftParen.mark :: spellings rest := by
  have hword : Word .identifier "sum".toList "sum".toList := @Word.of_isAlpha 's' ['u', 'm'] rfl
  exact (spellings_call hword ("map(".toList ++ rest)).trans
    (congrArg (fun words => _ :: _ :: words) (spellings_map rest))

/-- The words of `let original =`. -/
theorem spellings_let_original (rest : List Char) :
    spellings ("let original = ".toList ++ rest) = (.letWord, "let") :: (.identifier, "original") ::
      TokenKind.assign.mark :: spellings rest := by
  have hlet : Spells "let" [(.letWord, "let")] :=
    @Token.spells_literal ⟨.letWord, "let", default⟩ (@Word.of_isAlpha 'l' ['e', 't'] rfl) rfl
  have hname : Spells "original" [(.identifier, "original")] :=
    @Token.spells_literal ⟨.identifier, "original", default⟩
      (@Word.of_isAlpha 'o' ['r', 'i', 'g', 'i', 'n', 'a', 'l'] rfl) rfl
  have hassign : spellings ('=' :: ' ' :: rest) = TokenKind.assign.mark :: spellings rest := by
    have hparts : Parts ['='] (' ' :: rest) := by
      rintro _ ⟨⟩
      exact goesOn_of_isLayout rfl
    exact (spellings_word (.symbol rfl) hparts).trans
      (congrArg (List.cons _) (spellings_space rest))
  have hbehind : spellings ("original".toList ++ ' ' :: '=' :: ' ' :: rest) =
      (.identifier, "original") :: TokenKind.assign.mark :: spellings rest := by
    rw [hname _ (.cons rfl _), spellings_space, hassign]
    rfl
  refine (hlet (' ' :: ("original".toList ++ ' ' :: '=' :: ' ' :: rest)) (.cons rfl _)).trans ?_
  rw [spellings_space, hbehind]
  rfl

/-- Doubling an array that has a name. -/
theorem standsFor_doubleOriginalText : StandsFor doubleOriginalText
    [Sketch.statement (Sketch.token .identifier "map")
      (Sketch.doubled (Sketch.identifier "original"))] := by
  have hwords : spellings doubleOriginalText.toList =
      callWords "map" ([(.identifier, "original")] ++ TokenKind.comma.mark :: doublingWords) ++
        endWords := by
    decide +kernel
  have horiginal : Makes .anyExpression [(.identifier, "original")]
      (Sketch.identifier "original") :=
    makes_ofOperand fun rest => ⟨_, .identifier _ rfl⟩
  exact standsFor_expression hwords (makes_doubled horiginal) rfl

/-- An array of integers among words. -/
theorem spellings_arrayText (xs : List Int64) {behind : String} {words : List (TokenKind × String)}
    (hbehind : spellings behind.toList = words) (hapart : Apart behind.toList) :
    spellings (arrayText xs ++ behind).toList =
      (Value.array ⟨0⟩ (xs.map .integer)).words ++ words := by
  rw [String.toList_append, spells_arrayText xs _ hapart, hbehind]

/-- The definitions, and an array that is doubled. -/
theorem standsFor_mapText {xs : List Int64} (h : ∀ n ∈ xs, n ≠ Int64.minValue) :
    StandsFor (mapText xs) (Sketch.helpers ++ [Sketch.statement (Sketch.token .identifier "map")
      (Sketch.doubled (Sketch.array (xs.map Sketch.integer)))]) := by
  have hbehind : spellings ", fn(x) \x7b x * 2 \x7d);\n".toList =
      TokenKind.comma.mark :: doublingWords ++ TokenKind.rightParen.mark :: endWords := by
    decide +kernel
  have harray := spellings_arrayText xs hbehind (@Apart.cons ',' rfl _)
  refine StandsFor.helpers (standsFor_expression ?_ (makes_doubled (makes_array h ⟨0⟩)) ?_)
  · rw [String.append_assoc, String.toList_append, spellings_map, harray]
    simp [callWords]
  · exact congrArg (fun elements => Sketch.doubled (Sketch.array elements)) (plain_integers xs)

/-- The definitions, and the sum of an array that is doubled. -/
theorem standsFor_sumText {xs : List Int64} (h : ∀ n ∈ xs, n ≠ Int64.minValue) :
    StandsFor (sumText xs) (Sketch.helpers ++ [Sketch.statement (Sketch.token .identifier "sum")
      (Sketch.call (Sketch.identifier "sum")
        [Sketch.doubled (Sketch.array (xs.map Sketch.integer))])]) := by
  have hbehind : spellings ", fn(x) \x7b x * 2 \x7d));\n".toList =
      TokenKind.comma.mark :: doublingWords ++
        TokenKind.rightParen.mark :: TokenKind.rightParen.mark :: endWords := by
    decide +kernel
  have harray := spellings_arrayText xs hbehind (@Apart.cons ',' rfl _)
  refine StandsFor.helpers
    (standsFor_expression ?_
      (makes_call (makes_lastArgument (makes_doubled (makes_array h ⟨0⟩)))) ?_)
  · rw [String.append_assoc, String.toList_append, spellings_sum_map, harray]
    simp [callWords]
  · exact congrArg (fun elements => Sketch.call (Sketch.identifier "sum")
      [Sketch.doubled (Sketch.array elements)]) (plain_integers xs)

/-- The definitions, and a name for an array. -/
theorem standsFor_originalText {xs : List Int64} (h : ∀ n ∈ xs, n ≠ Int64.minValue) :
    StandsFor (originalText xs) (Sketch.helpers ++
      [Sketch.binding "original" (Sketch.array (xs.map Sketch.integer))]) := by
  have hbehind : spellings ";\n".toList = endWords := by decide +kernel
  have harray := spellings_arrayText xs hbehind (@Apart.cons ';' rfl _)
  refine StandsFor.helpers (standsFor_binding ?_ (makes_array h ⟨0⟩) ?_)
  · rw [String.append_assoc, String.toList_append, spellings_let_original, harray]
  · exact congrArg Sketch.array (plain_integers xs)

end Scriptlet
