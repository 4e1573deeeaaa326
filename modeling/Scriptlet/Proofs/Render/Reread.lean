import Scriptlet.Proofs.Parser.Sound
import Scriptlet.Proofs.Render.Legible
import Scriptlet.Proofs.Token.Spelling

set_option autoImplicit false

/-!
# Reading expressions again

Component: the tree and the scanner.  Specification: section 10.4 for the texts, section 4.1 for
their tokens, section 4.2 for the grammar that derives the tokens again.

What a legible expression is written as is read as certain words, and these words are read as the
expression again, at the level of calls: whatever it is, it is either one token or has brackets
around it (`Rereads`).  Both halves hold whatever comes behind, so that they can be put together
along the tree; only a letter or a digit must not follow.

That words are read as an expression is told by the grammar.  The parser is not looked at.

What an expression is written as does not start with an equals sign, and is apart from what is
written behind it.  The first is asked for since an exclamation mark in front would take that sign,
the second since a name or a number would go on.  These are the only two places where what is next
to an expression matters.

There is one lemma for each kind of expression.  Those for operators, indexing and hash literals put
brackets around (`bracketed`); a call is the exception, whose text starts with that of the callee.
-/

namespace Scriptlet

/-! ## Texts and words -/

/-- Whether a text starts with neither a letter nor a digit. -/
def Apart (chars : List Char) : Prop := ∀ c ∈ chars.head?, isWordChar c = false

/-- Whether a text is read as some words where it ends apart from what follows. -/
def Spells (text : String) (words : List (TokenKind × String)) : Prop :=
  ∀ rest, Apart rest → spellings (text.toList ++ rest) = words ++ spellings rest

/-- The word of a symbol. -/
def TokenKind.mark (kind : TokenKind) : TokenKind × String := (kind, kind.name)

/-- What starts with neither a letter nor a digit is apart. -/
theorem Apart.cons {c : Char} (h : isWordChar c = false) (rest : List Char) :
    Apart (c :: rest) := by
  rintro _ ⟨⟩
  exact h

/-- The words that are not symbols start with characters that are not. -/
theorem Word.ofChar?_eq_none {kind : TokenKind} {c : Char} {word literal : List Char}
    (h : Word kind (c :: word) literal) (hsymbol : kind.isSymbol = false) :
    TokenKind.ofChar? c = none := by
  cases h with
  | string => rfl
  | equal | notEqual => cases hsymbol
  | symbol h =>
    rw [(TokenKind.isSymbol_of_ofChar? h).1] at hsymbol
    cases hsymbol
  | name h =>
    apply (not_special_of_isWordChar _).1
    rw [isWordChar, h c List.mem_cons_self, Bool.true_or]
  | integer h =>
    apply (not_special_of_isWordChar _).1
    rw [isWordChar, h c List.mem_cons_self, Bool.or_true]
  | illegal _ _ symbol => exact symbol

/-- Only a letter or a digit makes a word longer that is not a symbol. -/
theorem Word.parts_of_apart {kind : TokenKind} {word literal rest : List Char}
    (h : Word kind word literal) (hsymbol : kind.isSymbol = false) (hrest : Apart rest) :
    Parts word rest := by
  intro next hnext
  by_contra hgoes
  rw [Bool.not_eq_false] at hgoes
  rcases goesOn_cases hgoes with ⟨_, rfl | rfl⟩ | ⟨_, rfl⟩ | ⟨_, _, _, _, hword⟩
  · exact absurd (h.ofChar?_eq_none hsymbol) (by decide)
  · exact absurd (h.ofChar?_eq_none hsymbol) (by decide)
  · exact absurd (h.ofChar?_eq_none hsymbol) (by decide)
  · rw [hrest next hnext] at hword
    cases hword

/-- A token that is no symbol is read from its literal. -/
theorem Token.spells_literal {token : Token}
    (h : Word token.kind token.literal.toList token.literal.toList)
    (hsymbol : token.kind.isSymbol = false) : Spells token.literal [token.spelling] := by
  intro rest hrest
  rw [spellings_word h (h.parts_of_apart hsymbol hrest), String.ofList_toList]
  rfl

/-- The symbols that no character makes longer. -/
theorem spellings_mark {c : Char} {kind : TokenKind} (h : TokenKind.ofChar? c = some kind)
    (hc : c ≠ '=' ∧ c ≠ '!' ∧ c ≠ '/') (rest : List Char) :
    spellings (c :: rest) = kind.mark :: spellings rest := by
  have hword : Word kind [c] [c] := .symbol h
  have hletter : isWordChar c = false := by
    by_contra hletter
    rw [(not_special_of_isWordChar (Bool.not_eq_false _ ▸ hletter)).1] at h
    cases h
  have hparts : Parts [c] rest :=
    parts_of_isWordChar hletter [] (fun _ => ⟨hc.1, hc.2.1⟩) fun _ => hc.2.2
  have hspellings := spellings_word hword hparts
  rw [(TokenKind.isSymbol_of_ofChar? h).2] at hspellings
  exact hspellings

/-- A space has no token. -/
theorem spellings_space (rest : List Char) : spellings (' ' :: rest) = spellings rest :=
  spellings_gap (.layout rfl .nil)

/-- An operator is written as the name of its token. -/
theorem InfixOp.symbol_eq_name (operator : InfixOp) : operator.symbol = operator.kind.name := by
  cases operator <;> rfl

/-- And so is a prefix operator. -/
theorem PrefixOp.symbol_eq_name (operator : PrefixOp) : operator.symbol = operator.kind.name := by
  cases operator <;> rfl

theorem InfixOp.isSymbol_kind (operator : InfixOp) : operator.kind.isSymbol = true := by
  cases operator <;> rfl

theorem PrefixOp.isSymbol_kind (operator : PrefixOp) : operator.kind.isSymbol = true := by
  cases operator <;> rfl

/-- An infix operator is a word. -/
theorem InfixOp.word (operator : InfixOp) :
    Word operator.kind operator.symbol.toList operator.symbol.toList := by
  cases operator with
  | equal => exact .equal
  | notEqual => exact .notEqual
  | add | subtract | multiply | divide | less | greater => exact .symbol rfl

/-- A prefix operator is one of a single character. -/
theorem PrefixOp.word (operator : PrefixOp) :
    Word operator.kind operator.symbol.toList operator.symbol.toList := by
  cases operator <;> exact .symbol rfl

/-- An infix operator is read where a space stands behind it. -/
theorem InfixOp.spellings (operator : InfixOp) (rest : List Char) :
    spellings (operator.symbol.toList ++ ' ' :: rest) = operator.kind.mark :: spellings rest := by
  have hparts : Parts operator.symbol.toList (' ' :: rest) := by
    rintro _ ⟨⟩
    exact goesOn_of_isLayout rfl
  rw [spellings_word operator.word hparts, String.ofList_toList, operator.symbol_eq_name,
    spellings_space]
  rfl

/-- A prefix operator is read where no `=` stands behind it. -/
theorem PrefixOp.spellings (operator : PrefixOp) {rest : List Char} (h : rest.head? ≠ some '=') :
    spellings (operator.symbol.toList ++ rest) = operator.kind.mark :: spellings rest := by
  have hparts : Parts operator.symbol.toList rest := by
    cases operator <;>
      exact parts_of_isWordChar (by decide) [] (fun heq => absurd heq h) fun _ => by decide
  rw [spellings_word operator.word hparts, String.ofList_toList, operator.symbol_eq_name]
  rfl

/-- The comma between two parts, and the space behind it. -/
theorem Spells.comma {first second : String} {words others : List (TokenKind × String)}
    {rest : List String} (hfirst : Spells first words)
    (hrest : Spells (commaSeparated (second :: rest)) others) :
    Spells (commaSeparated (first :: second :: rest))
      (words ++ TokenKind.comma.mark :: others) := by
  intro behind hbehind
  have hchars : (commaSeparated (first :: second :: rest)).toList ++ behind =
      first.toList ++ (',' :: ' ' :: ((commaSeparated (second :: rest)).toList ++ behind)) := by
    simp [commaSeparated, String.toList_append]
  rw [hchars, hfirst _ (.cons rfl _), spellings_mark rfl (by decide), spellings_space,
    hrest behind hbehind, List.append_assoc, List.cons_append]

/-! ## Expressions -/

/-- Tokens with the same word are the same but for their spans. -/
theorem Token.mapSpan_const {token other : Token} (h : token.spelling = other.spelling)
    (span : Span) : token.mapSpan (fun _ => span) = other.mapSpan fun _ => span := by
  obtain ⟨hkind, hliteral⟩ := Prod.mk.inj h
  exact Token.mapSpan_congr hkind hliteral rfl

/-- A symbol among the tokens of a text. -/
theorem Token.Spelled.spelling_eq {token : Token} (h : token.Spelled) {kind : TokenKind}
    (hkind : token.kind = kind) (hsymbol : kind.isSymbol = true) : token.spelling = kind.mark := by
  subst hkind
  rw [Token.spelling, h.eq_name hsymbol]
  rfl

/-- A token with the word of a symbol has that kind. -/
theorem Token.kind_of_mark {token : Token} {kind : TokenKind} (h : token.spelling = kind.mark) :
    token.kind = kind :=
  congrArg Prod.fst h

/-- Whether an expression is written as some words, and these are read as the expression again. -/
structure Rereads (tree : Expression) (words : List (TokenKind × String)) : Prop where
  starts : ∀ rest, (tree.render.toList ++ rest).head? ≠ some '='
  spells : Spells tree.render words
  derives : ∀ (s rest : List Token), s.map Token.spelling = words →
    ∃ again last, Derives (.expression postfixLevel) (s ++ rest) again last rest ∧
      again.mapSpans (fun _ => default) = tree.mapSpans fun _ => default

/-- Whether an expression can be read again. -/
def Rereadable (tree : Expression) : Prop := ∃ words, Rereads tree words

/-- Tokens with the same word are the same operand but for its spans. -/
theorem Token.operand?_plain {token other : Token} (h : token.spelling = other.spelling) :
    token.operand?.map Expression.plain = other.operand?.map Expression.plain := by
  have hmap := Token.mapSpan_const h default
  obtain ⟨hkind, hliteral⟩ := Prod.mk.inj h
  unfold Token.operand?
  rw [hkind, hliteral]
  split
  case h_2 =>
    rw [Option.map_map, Option.map_map]
    congr 1
    funext value
    exact congrArg (Expression.integer · value) hmap
  case h_6 => rfl
  all_goals simp only [Option.map_some, Expression.mapSpans, Name.mapSpan, hmap]

/-- Words with a bracket among them and one at their end, as tokens. -/
theorem split_tokens {s : List Token} {first second : List (TokenKind × String)}
    {opening closing : TokenKind}
    (h : s.map Token.spelling = first ++ opening.mark :: (second ++ [closing.mark])) :
    ∃ front bracket inner close, s = front ++ bracket :: (inner ++ [close]) ∧
      front.map Token.spelling = first ∧ bracket.spelling = opening.mark ∧
      inner.map Token.spelling = second ∧ close.kind = closing := by
  obtain ⟨front, tail, rfl, hfront, htail⟩ := List.map_eq_append_iff.mp h
  obtain ⟨bracket, behind, rfl, hbracket, hbehind⟩ := List.map_eq_cons_iff.mp htail
  obtain ⟨inner, ending, rfl, hinner, hending⟩ := List.map_eq_append_iff.mp hbehind
  obtain ⟨close, nothing, rfl, hclose, hnil⟩ := List.map_eq_cons_iff.mp hending
  obtain rfl := List.map_eq_nil_iff.mp hnil
  exact ⟨front, bracket, inner, close, rfl, hfront, hbracket, hinner, Token.kind_of_mark hclose⟩

namespace Rereads

variable {tree : Expression} {words : List (TokenKind × String)}

/-- What is read again is read at any level. -/
theorem derives_at (h : Rereads tree words) {s : List Token} (hs : s.map Token.spelling = words)
    {level : Nat} (hlevel : level ≤ postfixLevel) (rest : List Token) :
    ∃ again last, Derives (.expression level) (s ++ rest) again last rest ∧
      again.mapSpans (fun _ => default) = tree.mapSpans fun _ => default := by
  obtain ⟨again, last, hderives, hplain⟩ := h.derives s rest hs
  exact ⟨again, last, hderives.mono hlevel, hplain⟩

/-- In particular at the loosest level. -/
theorem derives_any (h : Rereads tree words) {s : List Token} (hs : s.map Token.spelling = words)
    (rest : List Token) :
    ∃ again last, Derives Phrase.anyExpression (s ++ rest) again last rest ∧
      again.mapSpans (fun _ => default) = tree.mapSpans fun _ => default :=
  h.derives_at hs (by decide) rest

end Rereads

namespace Rereadable

/-- An operand of one token. -/
theorem single {token : Token} {tree : Expression} (hspelled : token.Spelled)
    (hoperand : token.operand? = some tree) (hstring : token.kind ≠ .string) : Rereadable tree := by
  have hrender : tree.render = token.literal := by
    unfold Token.operand? at hoperand
    split at hoperand
    case h_2 =>
      obtain ⟨value, _, rfl⟩ := Option.map_eq_some_iff.mp hoperand
      rfl
    case h_6 => cases hoperand
    all_goals
      cases hoperand
      rfl
  have hsymbol : token.kind.isSymbol = false ∧ token.kind ≠ .eof := by
    unfold Token.operand? at hoperand
    split at hoperand
    case h_6 => cases hoperand
    all_goals
      rename_i hkind
      rw [hkind]
      decide
  have hword := hspelled hsymbol.2 hstring
  refine ⟨[token.spelling], ?_, ?_, ?_⟩
  · intro rest
    obtain ⟨c, chars, hchars⟩ := hword.exists_cons
    rw [hrender, hchars]
    rw [hchars] at hword
    rintro ⟨⟩
    exact absurd (hword.ofChar?_eq_none hsymbol.1) (by decide)
  · rw [hrender]
    exact Token.spells_literal hword hsymbol.1
  · intro s rest hs
    obtain ⟨other, s, rfl, hother, hnil⟩ := List.map_eq_cons_iff.mp hs
    obtain rfl := List.map_eq_nil_iff.mp hnil
    have hsame := Token.operand?_plain hother
    rw [hoperand, Option.map_some, Option.map_eq_some_iff] at hsame
    obtain ⟨again, hagain, hplain⟩ := hsame
    exact ⟨again, other, .ofOperand _ (.ofToken rest hagain), hplain⟩

/-- What stands in brackets and is an operand with them. -/
theorem bracketed {tree : Expression} {opening closing : TokenKind} (first last : Char)
    (text : String) (words : List (TokenKind × String))
    (hopening : TokenKind.ofChar? first = some opening ∧ first ≠ '=' ∧ first ≠ '!' ∧ first ≠ '/')
    (hclosing : TokenKind.ofChar? last = some closing ∧ last ≠ '=' ∧ last ≠ '!' ∧ last ≠ '/')
    (hrender : tree.render.toList = first :: (text.toList ++ [last]))
    (hspells : ∀ rest, spellings (text.toList ++ last :: rest) = words ++ spellings (last :: rest))
    (hderives : ∀ (s rest : List Token) (bracket close : Token), s.map Token.spelling = words →
      bracket.spelling = opening.mark → close.kind = closing →
      ∃ again, Derives .operand (bracket :: (s ++ close :: rest)) again close rest ∧
        again.mapSpans (fun _ => default) = tree.mapSpans fun _ => default) : Rereadable tree := by
  refine ⟨opening.mark :: (words ++ [closing.mark]), ?_, ?_, ?_⟩
  · intro rest
    rw [hrender]
    rintro ⟨⟩
    exact hopening.2.1 rfl
  · intro rest _
    rw [hrender, List.cons_append, spellings_mark hopening.1 hopening.2, List.append_assoc,
      List.singleton_append, hspells, spellings_mark hclosing.1 hclosing.2, List.cons_append,
      List.append_assoc, List.singleton_append]
  · intro s rest hs
    have hs : s.map Token.spelling = [] ++ opening.mark :: (words ++ [closing.mark]) := hs
    obtain ⟨_, bracket, inner, close, rfl, hnil, hbracket, hinner, hclose⟩ := split_tokens hs
    obtain rfl := List.map_eq_nil_iff.mp hnil
    obtain ⟨again, hagain, hplain⟩ := hderives inner rest bracket close hinner hbracket hclose
    refine ⟨again, close, .ofOperand _ ?_, hplain⟩
    simpa only [List.append_assoc, List.cons_append, List.nil_append] using hagain

/-- An expression in parentheses. -/
theorem group {tree : Expression} (text : String) (words : List (TokenKind × String))
    (hrender : tree.render.toList = '(' :: (text.toList ++ [')']))
    (hspells : ∀ rest, spellings (text.toList ++ ')' :: rest) = words ++ spellings (')' :: rest))
    (hderives : ∀ (s rest : List Token), s.map Token.spelling = words →
      ∃ again last, Derives Phrase.anyExpression (s ++ rest) again last rest ∧
        again.mapSpans (fun _ => default) = tree.mapSpans fun _ => default) : Rereadable tree := by
  apply bracketed '(' ')' text words ⟨rfl, by decide⟩ ⟨rfl, by decide⟩ hrender hspells
  intro s rest bracket close hs hbracket hclose
  obtain ⟨again, last, hagain, hplain⟩ := hderives s (close :: rest) hs
  exact ⟨again, .group (Token.kind_of_mark hbracket) hagain hclose, hplain⟩

/-- A prefix operator and its operand in parentheses. -/
theorem unary {token : Token} {right : Expression} {operator : PrefixOp}
    (hspelled : token.Spelled) (htoken : token.kind = operator.kind) (hright : Rereadable right) :
    Rereadable (.unary token operator right) := by
  obtain ⟨words, hright⟩ := hright
  have hspelling := hspelled.spelling_eq htoken operator.isSymbol_kind
  apply group (operator.symbol ++ right.render) (operator.kind.mark :: words)
  · simp [Expression.render, String.toList_append]
  · intro rest
    rw [String.toList_append, List.append_assoc, operator.spellings (hright.starts _),
      hright.spells _ (.cons rfl _), List.cons_append]
  · intro s rest hs
    obtain ⟨sign, s, rfl, hsign, hs⟩ := List.map_eq_cons_iff.mp hs
    obtain ⟨again, last, hagain, hplain⟩ := hright.derives_at hs (Nat.le_succ prefixLevel) rest
    refine ⟨.unary sign operator again, last,
      .unary operator (by decide) (Token.kind_of_mark hsign) hagain, ?_⟩
    have hmap := Token.mapSpan_const (hsign.trans hspelling.symm) default
    simp only [Expression.mapSpans, hmap, hplain]

/-- Two operands in parentheses, the operator between them with spaces around it. -/
theorem binary {token : Token} {left right : Expression} {operator : InfixOp}
    (hspelled : token.Spelled) (htoken : token.kind = operator.kind) (hleft : Rereadable left)
    (hright : Rereadable right) : Rereadable (.binary token left operator right) := by
  obtain ⟨first, hleft⟩ := hleft
  obtain ⟨second, hright⟩ := hright
  have hspelling := hspelled.spelling_eq htoken operator.isSymbol_kind
  apply group (left.render ++ " " ++ operator.symbol ++ " " ++ right.render)
    (first ++ operator.kind.mark :: second)
  · simp [Expression.render, String.toList_append]
  · intro rest
    have hchars : (left.render ++ " " ++ operator.symbol ++ " " ++ right.render).toList ++
        ')' :: rest = left.render.toList ++ (' ' :: (operator.symbol.toList ++
          ' ' :: (right.render.toList ++ ')' :: rest))) := by
      simp [String.toList_append]
    rw [hchars, hleft.spells _ (.cons rfl _), spellings_space, operator.spellings,
      hright.spells _ (.cons rfl _), List.append_assoc, List.cons_append]
  · intro s rest hs
    obtain ⟨s, behind, rfl, hfirst, hbehind⟩ := List.map_eq_append_iff.mp hs
    obtain ⟨sign, t, rfl, hsign, hsecond⟩ := List.map_eq_cons_iff.mp hbehind
    have hlevel := Nat.le_of_lt operator.level_lt
    obtain ⟨again, middle, hagain, hplain⟩ :=
      hleft.derives_at hfirst (Nat.le_succ_of_le hlevel) (sign :: (t ++ rest))
    obtain ⟨other, last, hother, hplain'⟩ :=
      hright.derives_at hsecond (Nat.succ_le_succ hlevel) rest
    refine ⟨.binary sign again operator other, last, ?_, ?_⟩
    · rw [List.append_assoc, List.cons_append]
      have hone : 1 ≤ operator.level := by cases operator <;> decide
      exact .binary operator hone (Token.kind_of_mark hsign) hagain hother
    · have hmap := Token.mapSpan_const (hsign.trans hspelling.symm) default
      simp only [Expression.mapSpans, hmap, hplain, hplain']

/-- What is indexed and the index, in parentheses and brackets. -/
theorem index {token : Token} {left position : Expression} (hspelled : token.Spelled)
    (htoken : token.kind = .leftBracket) (hleft : Rereadable left)
    (hposition : Rereadable position) : Rereadable (.index token left position) := by
  obtain ⟨first, hleft⟩ := hleft
  obtain ⟨second, hposition⟩ := hposition
  have hspelling := hspelled.spelling_eq htoken rfl
  apply group (left.render ++ "[" ++ position.render ++ "]")
    (first ++ TokenKind.leftBracket.mark :: (second ++ [TokenKind.rightBracket.mark]))
  · simp [Expression.render, String.toList_append]
  · intro rest
    have hchars : (left.render ++ "[" ++ position.render ++ "]").toList ++ ')' :: rest =
        left.render.toList ++ ('[' :: (position.render.toList ++ ']' :: ')' :: rest)) := by
      simp [String.toList_append]
    rw [hchars, hleft.spells _ (.cons rfl _), spellings_mark rfl (by decide),
      hposition.spells _ (.cons rfl _), spellings_mark rfl (by decide)]
    simp only [List.append_assoc, List.cons_append, List.nil_append]
  · intro s rest hs
    obtain ⟨front, opening, t, close, rfl, hfirst, hopening, hsecond, hclose⟩ := split_tokens hs
    obtain ⟨again, middle, hagain, hplain⟩ :=
      hleft.derives _ (opening :: (t ++ close :: rest)) hfirst
    obtain ⟨other, last, hother, hplain'⟩ :=
      hposition.derives_any hsecond (close :: rest)
    refine ⟨.index opening again other, close, ?_, ?_⟩
    · have hindex : Derives Phrase.anyExpression (front ++ opening :: (t ++ close :: rest)) _ close
          rest := .index (by decide) (Token.kind_of_mark hopening) hagain hother hclose
      simpa only [List.append_assoc, List.cons_append, List.nil_append] using hindex
    · have hmap := Token.mapSpan_const (hopening.trans hspelling.symm) default
      simp only [Expression.mapSpans, hmap, hplain, hplain']

/-! ## Lists of expressions -/

/-- Expressions with commas between them, read again as arguments. -/
theorem moreArguments (first : Expression) (rest : List Expression)
    (h : ∀ tree ∈ first :: rest, Rereadable tree) :
    ∃ words, Spells (commaSeparated ((first :: rest).map Expression.render)) words ∧
      ∀ (s behind : List Token) (close : Token), s.map Token.spelling = words →
        ∃ again, Derives (.moreArguments close.kind) (s ++ close :: behind) again close behind ∧
          mapSpansOfExpressions (fun _ => default) again =
            mapSpansOfExpressions (fun _ => default) (first :: rest) := by
  obtain ⟨words, hfirst⟩ := h first List.mem_cons_self
  induction rest generalizing first words with
  | nil =>
    refine ⟨words, hfirst.spells, ?_⟩
    intro s behind close hs
    obtain ⟨again, last, hagain, hplain⟩ := hfirst.derives_any hs (close :: behind)
    refine ⟨[again], .lastArgument hagain rfl, ?_⟩
    simp only [mapSpansOfExpressions, hplain]
  | cons second rest ih =>
    have hothers : ∀ tree ∈ second :: rest, Rereadable tree :=
      fun tree hmem => h tree (List.mem_cons_of_mem first hmem)
    obtain ⟨words', hsecond⟩ := hothers second List.mem_cons_self
    obtain ⟨others, hspells, hderives⟩ := ih second hothers words' hsecond
    refine ⟨words ++ TokenKind.comma.mark :: others, hfirst.spells.comma hspells, ?_⟩
    intro s behind close hs
    obtain ⟨front, tail, rfl, hfront, htail⟩ := List.map_eq_append_iff.mp hs
    obtain ⟨comma, t, rfl, hcomma, ht⟩ := List.map_eq_cons_iff.mp htail
    obtain ⟨again, last, hagain, hplain⟩ :=
      hfirst.derives_any hfront (comma :: (t ++ close :: behind))
    obtain ⟨trees, htrees, hplains⟩ := hderives t behind close ht
    refine ⟨again :: trees, ?_, ?_⟩
    · rw [List.append_assoc, List.cons_append]
      exact .moreArguments hagain (Token.kind_of_mark hcomma) htrees
    · rw [mapSpansOfExpressions, hplain, hplains]
      rfl

/-- Expressions with commas between them, or none. -/
theorem arguments {trees : List Expression} (h : ∀ tree ∈ trees, Rereadable tree) :
    ∃ words, Spells (commaSeparated (trees.map Expression.render)) words ∧
      ∀ (s behind : List Token) (close : Token), s.map Token.spelling = words →
        ∃ again, Derives (.arguments close.kind) (s ++ close :: behind) again close behind ∧
          mapSpansOfExpressions (fun _ => default) again =
            mapSpansOfExpressions (fun _ => default) trees := by
  cases trees with
  | nil =>
    refine ⟨[], fun _ _ => rfl, ?_⟩
    intro s behind close hs
    obtain rfl := List.map_eq_nil_iff.mp hs
    exact ⟨[], .noArgument behind rfl, rfl⟩
  | cons first rest =>
    obtain ⟨words, hspells, hderives⟩ := moreArguments first rest h
    refine ⟨words, hspells, ?_⟩
    intro s behind close hs
    obtain ⟨again, hagain, hplain⟩ := hderives s behind close hs
    exact ⟨again, .someArguments hagain, hplain⟩

/-- The callee, and the arguments in parentheses behind it. -/
theorem call {token : Token} {callee : Expression} {arguments : List Expression}
    (hspelled : token.Spelled) (htoken : token.kind = .leftParen) (hcallee : Rereadable callee)
    (harguments : ∀ tree ∈ arguments, Rereadable tree) :
    Rereadable (.call token callee arguments) := by
  obtain ⟨first, hcallee⟩ := hcallee
  obtain ⟨words, hspells, hderives⟩ := Rereadable.arguments harguments
  have hspelling := hspelled.spelling_eq htoken rfl
  have hrender (rest : List Char) : (Expression.call token callee arguments).render.toList ++ rest =
      callee.render.toList ++ ('(' :: ((commaSeparated (arguments.map Expression.render)).toList ++
        ')' :: rest)) := by
    simp [Expression.render, renderExpressions_eq_map, String.toList_append]
  refine ⟨first ++ TokenKind.leftParen.mark :: (words ++ [TokenKind.rightParen.mark]), ?_, ?_, ?_⟩
  · intro rest
    rw [hrender]
    exact hcallee.starts _
  · intro rest _
    rw [hrender, hcallee.spells _ (.cons rfl _), spellings_mark rfl (by decide),
      hspells _ (.cons rfl _), spellings_mark rfl (by decide)]
    simp only [List.append_assoc, List.cons_append, List.nil_append]
  · intro s rest hs
    obtain ⟨front, opening, t, close, rfl, hfirst, hopening, hwords, hclose⟩ := split_tokens hs
    obtain ⟨again, middle, hagain, hplain⟩ :=
      hcallee.derives _ (opening :: (t ++ close :: rest)) hfirst
    obtain ⟨trees, htrees, hplains⟩ := hderives t rest close hwords
    rw [hclose] at htrees
    refine ⟨.call opening again trees, close, ?_, ?_⟩
    · have hcall : Derives (.expression postfixLevel) (front ++ opening :: (t ++ close :: rest)) _
          close rest := .call (Nat.le_refl _) (Token.kind_of_mark hopening) hagain htrees
      simpa only [List.append_assoc, List.cons_append, List.nil_append] using hcall
    · have hmap := Token.mapSpan_const (hopening.trans hspelling.symm) default
      simp only [Expression.mapSpans, hmap, hplain, hplains]

/-- The elements in brackets. -/
theorem array {token : Token} {elements : List Expression} (hspelled : token.Spelled)
    (htoken : token.kind = .leftBracket) (helements : ∀ tree ∈ elements, Rereadable tree) :
    Rereadable (.array token elements) := by
  obtain ⟨words, hspells, hderives⟩ := arguments helements
  have hspelling := hspelled.spelling_eq htoken rfl
  have hrender : (Expression.array token elements).render.toList =
      '[' :: ((commaSeparated (elements.map Expression.render)).toList ++ [']']) := by
    simp [Expression.render, renderExpressions_eq_map, String.toList_append]
  apply bracketed '[' ']' _ words ⟨rfl, by decide⟩ ⟨rfl, by decide⟩ hrender
    (fun rest => hspells _ (.cons rfl _))
  intro s rest first close hs hfirst hclose
  obtain ⟨trees, htrees, hplains⟩ := hderives s rest close hs
  rw [hclose] at htrees
  refine ⟨.array first trees, .array (Token.kind_of_mark hfirst) htrees, ?_⟩
  have hmap := Token.mapSpan_const (hfirst.trans hspelling.symm) default
  simp only [Expression.mapSpans, hmap, hplains]

/-! ## Hash literals -/

/-- Entries with commas between them, read again up to a closing brace. -/
theorem pairs {entries : List Pair}
    (h : ∀ pair ∈ entries, Rereadable pair.key ∧ Rereadable pair.value) :
    ∃ words, Spells (commaSeparated (entries.map Pair.render)) words ∧
      ∀ (s behind : List Token) (close : Token), s.map Token.spelling = words →
        close.kind = .rightBrace →
        ∃ again, Derives .pairs (s ++ close :: behind) again close behind ∧
          mapSpansOfPairs (fun _ => default) again =
            mapSpansOfPairs (fun _ => default) entries := by
  induction entries with
  | nil =>
    refine ⟨[], fun _ _ => rfl, ?_⟩
    intro s behind close hs hclose
    obtain rfl := List.map_eq_nil_iff.mp hs
    exact ⟨[], .noPair behind hclose, rfl⟩
  | cons pair rest ih =>
    obtain ⟨others, hspells, hderives⟩ := ih fun pair hmem => h pair (List.mem_cons_of_mem _ hmem)
    obtain ⟨⟨first, hkey⟩, ⟨second, hvalue⟩⟩ := h pair List.mem_cons_self
    obtain ⟨key, value⟩ := pair
    have hpair : Spells (Pair.render ⟨key, value⟩) (first ++ TokenKind.colon.mark :: second) := by
      intro behind hbehind
      have hchars : (Pair.render ⟨key, value⟩).toList ++ behind =
          key.render.toList ++ (':' :: (value.render.toList ++ behind)) := by
        simp [Pair.render, String.toList_append]
      rw [hchars, hkey.spells _ (.cons rfl _), spellings_mark rfl (by decide),
        hvalue.spells _ hbehind, List.append_assoc, List.cons_append]
    -- the tokens of the first entry, with what is behind them left open
    have hentry : ∀ (s behind : List Token),
        s.map Token.spelling = first ++ TokenKind.colon.mark :: second →
        ∃ again middle colon t other last,
          Derives Phrase.anyExpression (s ++ behind) again middle (colon :: t) ∧
          colon.kind = .colon ∧ Derives Phrase.anyExpression t other last behind ∧
          
          again.mapSpans (fun _ => default) = (key.mapSpans fun _ => default) ∧
          other.mapSpans (fun _ => default) = value.mapSpans fun _ => default := by
      intro s behind hs
      obtain ⟨front, tail, rfl, hfront, htail⟩ := List.map_eq_append_iff.mp hs
      obtain ⟨colon, t, rfl, hcolon, ht⟩ := List.map_eq_cons_iff.mp htail
      obtain ⟨again, middle, hagain, hplain⟩ := hkey.derives_any hfront (colon :: (t ++ behind))
      obtain ⟨other, last, hother, hplain'⟩ := hvalue.derives_any ht behind
      refine ⟨again, middle, colon, _, other, last, ?_, Token.kind_of_mark hcolon, hother, hplain,
        hplain'⟩
      rwa [List.append_assoc, List.cons_append]
    cases rest with
    | nil =>
      refine ⟨_, hpair, ?_⟩
      intro s behind close hs hclose
      obtain ⟨again, middle, colon, t, other, last, hagain, hcolon, hother, hplain, hplain'⟩ :=
        hentry s (close :: behind) hs
      refine ⟨[⟨again, other⟩], .lastPair hagain hcolon hother hclose, ?_⟩
      simp only [mapSpansOfPairs, Pair.mapSpans, hplain, hplain']
    | cons next rest =>
      refine ⟨_, hpair.comma hspells, ?_⟩
      intro s behind close hs hclose
      obtain ⟨front, tail, rfl, hfront, htail⟩ := List.map_eq_append_iff.mp hs
      obtain ⟨comma, t, rfl, hcomma, ht⟩ := List.map_eq_cons_iff.mp htail
      obtain ⟨trees, htrees, hplains⟩ := hderives t behind close ht hclose
      obtain ⟨again, middle, colon, u, other, last, hagain, hcolon, hother, hplain, hplain'⟩ :=
        hentry front (comma :: (t ++ close :: behind)) hfront
      refine ⟨⟨again, other⟩ :: trees, ?_, ?_⟩
      · rw [List.append_assoc, List.cons_append]
        exact .morePairs hagain hcolon hother (Token.kind_of_mark hcomma) htrees
      · rw [mapSpansOfPairs, hplains]
        simp only [mapSpansOfPairs, Pair.mapSpans, hplain, hplain']

/-- The pairs in braces. -/
theorem hash {token : Token} {entries : List Pair} (hspelled : token.Spelled)
    (htoken : token.kind = .leftBrace)
    (h : ∀ pair ∈ entries, Rereadable pair.key ∧ Rereadable pair.value) :
    Rereadable (.hash token entries) := by
  obtain ⟨words, hspells, hderives⟩ := pairs h
  have hspelling := hspelled.spelling_eq htoken rfl
  have hrender : (Expression.hash token entries).render.toList =
      '\x7b' :: ((commaSeparated (entries.map Pair.render)).toList ++ ['\x7d']) := by
    simp [Expression.render, renderPairs_eq_map, String.toList_append]
  apply bracketed '\x7b' '\x7d' _ words ⟨rfl, by decide⟩ ⟨rfl, by decide⟩ hrender
    (fun rest => hspells _ (.cons rfl _))
  intro s rest first close hs hfirst hclose
  obtain ⟨trees, htrees, hplains⟩ := hderives s rest close hs hclose
  refine ⟨.hash first trees, .hash (Token.kind_of_mark hfirst) htrees, ?_⟩
  have hmap := Token.mapSpan_const (hfirst.trans hspelling.symm) default
  simp only [Expression.mapSpans, hmap, hplains]

end Rereadable

end Scriptlet
