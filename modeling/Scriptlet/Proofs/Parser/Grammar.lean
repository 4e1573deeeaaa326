import Scriptlet.Tree.Parser

set_option autoImplicit false

/-!
# The grammar

Component: the parser.  Specification: section 4.2, put down as a relation: its statements, its
precedence table as levels, its prefix and infix tables as the constructors for operands and
operators, its blocks, parameters and lists, with the two places where the optional semicolon and
the end of the program may stand for a token.

What a program is, told without a parser.  `Derives` relates a phrase of the grammar, the tokens
from its first one on, its tree, its last token, and the tokens behind it.  It is stated of lists
that go on behind the phrase, as a statement without a semicolon and a block without a closing
brace depend on what follows.

Expressions come in levels: the operands of an operator bind at least as tightly as itself on its
left, and more tightly on its right.  From the loosest on, the levels are `==` and `!=`, `<` and
`>`, `+` and `-`, `*` and `/`, the prefix operators, and calls and indexing (`postfixLevel`).

Nothing here mentions how the parser looks ahead or decides.

Hash pairs are not one of the lists between commas.  Each pair is followed by a comma or by the
closing brace, so that a comma may stand behind the last one: `Derives.morePairs` before
`Derives.noPair`.  Behind the last argument, element or parameter no comma is accepted.

The spans of statements and blocks are part of the tree, so the relation says them as well: from the
first token to the last, a semicolon included.
-/

namespace Scriptlet

/-! ## Tokens -/

/-- A list of tokens that the end token ends, and no other does. -/
inductive Ended : List Token → Prop where
  | eof {token : Token} (h : token.kind = .eof) : Ended [token]
  | cons {token : Token} {rest : List Token} (h : token.kind ≠ .eof) (ended : Ended rest) :
      Ended (token :: rest)

/-- Told from the first token and the rest. -/
theorem Ended.cons_iff {token : Token} {rest : List Token} :
    Ended (token :: rest) ↔ token.kind = .eof ∧ rest = [] ∨ token.kind ≠ .eof ∧ Ended rest := by
  constructor
  · intro h
    cases h with
    | eof h => exact .inl ⟨h, rfl⟩
    | cons h ended => exact .inr ⟨h, ended⟩
  · rintro (⟨h, rfl⟩ | ⟨h, ended⟩)
    · exact .eof h
    · exact .cons h ended

instance decidableEnded : (tokens : List Token) → Decidable (Ended tokens)
  | [] => isFalse nofun
  | _ :: rest =>
    have := decidableEnded rest
    decidable_of_iff' _ Ended.cons_iff

/-- The token of an infix operator. -/
def InfixOp.kind : InfixOp → TokenKind
  | .add => .plus
  | .subtract => .minus
  | .multiply => .star
  | .divide => .slash
  | .less => .less
  | .greater => .greater
  | .equal => .equal
  | .notEqual => .notEqual

/-- The token of a prefix operator. -/
def PrefixOp.kind : PrefixOp → TokenKind
  | .not => .bang
  | .negate => .minus

/-- Whether a token can make the expression before it longer. -/
def TokenKind.continues : TokenKind → Bool
  | .plus | .minus | .star | .slash | .less | .greater | .equal | .notEqual | .leftParen
  | .leftBracket => true
  | _ => false

/-! ## Levels -/

/-- The level of an infix operator. -/
def InfixOp.level : InfixOp → Nat
  | .equal | .notEqual => 1
  | .less | .greater => 2
  | .add | .subtract => 3
  | .multiply | .divide => 4

/-- The level of the prefix operators. -/
def prefixLevel : Nat := 5

/-- The level of calls and indexing. -/
def postfixLevel : Nat := 6

/-! ## Phrases -/

/-- What a part of a program can be.  The lists between parentheses and brackets and the pairs of a
hash literal start behind the opening token and end with the closing one. -/
inductive Phrase where
  | statements
  | statement
  | block
  | expression (level : Nat)
  | operand
  | arguments (close : TokenKind)
  | moreArguments (close : TokenKind)
  | parameters
  | moreParameters
  | pairs

namespace Phrase

/-- What a phrase is in the tree. -/
@[reducible] def Tree : Phrase → Type
  | statements => List Statement
  | statement => Statement
  | block => Block
  | expression _ | operand => Expression
  | arguments _ | moreArguments _ => List Expression
  | parameters | moreParameters => List Name
  | pairs => List Pair

/-- An expression of any kind. -/
@[reducible] def anyExpression : Phrase := expression 1

end Phrase

/-- How a statement ends behind the last token of its expression: with a semicolon, or before a
token that does not continue the expression. -/
inductive Terminated (last : Token) : List Token → Token → List Token → Prop where
  | semicolon {token : Token} {rest : List Token} (h : token.kind = .semicolon) :
      Terminated last (token :: rest) token rest
  | implicit {token : Token} {rest : List Token} (h : token.kind.continues = false) :
      Terminated last (token :: rest) last (token :: rest)

/-- How the statements of a block end: before its closing brace, which is its last token, or at the
end of the program. -/
inductive Closed : Token → List Token → Token → List Token → Prop where
  | brace {token : Token} {rest : List Token} (h : token.kind = .rightBrace) :
      Closed token (token :: rest) token rest
  | eof {token : Token} (h : token.kind = .eof) : Closed token [token] token [token]

open Phrase in
/-- Whether a phrase with some tree can be read from the front of a list, to a last token, and
what is behind it. -/
inductive Derives :
    (phrase : Phrase) → List Token → phrase.Tree → Token → List Token → Prop where
  /-- the last token of some statements is the first one behind them -/
  | noStatement (token : Token) (rest : List Token) :
      Derives statements (token :: rest) [] token (token :: rest)
  | moreStatements {s t u : List Token} {first : Statement} {others : List Statement}
      {last close : Token} (head : Derives statement s first last t)
      (tail : Derives statements t others close u) :
      Derives statements s (first :: others) close u
  | binding {word name assign last semicolon : Token} {s t u : List Token} {value : Expression}
      (hword : word.kind = .letWord) (hname : name.kind = .identifier)
      (hassign : assign.kind = .assign) (body : Derives anyExpression s value last t)
      (ending : Terminated last t semicolon u) :
      Derives statement (word :: name :: assign :: s)
        (.binding word ⟨name⟩ value (word.span.cover semicolon.span)) semicolon u
  | returning {word last semicolon : Token} {s t u : List Token} {value : Expression}
      (hword : word.kind = .returnWord) (body : Derives anyExpression s value last t)
      (ending : Terminated last t semicolon u) :
      Derives statement (word :: s)
        (.returning word value (word.span.cover semicolon.span)) semicolon u
  | expressionStatement {first last semicolon : Token} {s t u : List Token} {value : Expression}
      (body : Derives anyExpression (first :: s) value last t)
      (ending : Terminated last t semicolon u) :
      Derives statement (first :: s)
        (.expression first value (first.span.cover semicolon.span)) semicolon u
  | block {opening close last : Token} {s t u : List Token} {inner : List Statement}
      (hopening : opening.kind = .leftBrace) (body : Derives statements s inner close t)
      (ending : Closed close t last u) :
      Derives block (opening :: s) ⟨opening, inner, opening.span.cover last.span⟩ last u
  | ofOperand (level : Nat) {s t : List Token} {tree : Expression} {last : Token}
      (inner : Derives operand s tree last t) : Derives (expression level) s tree last t
  | unary {level : Nat} {token last : Token} {s t : List Token} {tree : Expression}
      (operator : PrefixOp) (hlevel : level ≤ prefixLevel) (htoken : token.kind = operator.kind)
      (right : Derives (expression prefixLevel) s tree last t) :
      Derives (expression level) (token :: s) (.unary token operator tree) last t
  | binary {level : Nat} {token middle last : Token} {s t u : List Token}
      {first second : Expression} (operator : InfixOp) (hlevel : level ≤ operator.level)
      (htoken : token.kind = operator.kind)
      (left : Derives (expression operator.level) s first middle (token :: t))
      (right : Derives (expression (operator.level + 1)) t second last u) :
      Derives (expression level) s (.binary token first operator second) last u
  | call {level : Nat} {token middle close : Token} {s t u : List Token} {callee : Expression}
      {inner : List Expression} (hlevel : level ≤ postfixLevel) (htoken : token.kind = .leftParen)
      (left : Derives (expression postfixLevel) s callee middle (token :: t))
      (list : Derives (arguments .rightParen) t inner close u) :
      Derives (expression level) s (.call token callee inner) close u
  | index {level : Nat} {token middle last close : Token} {s t u : List Token}
      {whole position : Expression} (hlevel : level ≤ postfixLevel)
      (htoken : token.kind = .leftBracket)
      (left : Derives (expression postfixLevel) s whole middle (token :: t))
      (inner : Derives anyExpression t position last (close :: u))
      (hclose : close.kind = .rightBracket) :
      Derives (expression level) s (.index token whole position) close u
  | identifier {token : Token} (rest : List Token) (h : token.kind = .identifier) :
      Derives operand (token :: rest) (.identifier ⟨token⟩) token rest
  | integer {token : Token} (rest : List Token) (h : token.kind = .integer)
      (hvalue : decimalValue token.literal.toList ≤ maxInteger) :
      Derives operand (token :: rest)
        (.integer token (Int64.ofNat (decimalValue token.literal.toList))) token rest
  | string {token : Token} (rest : List Token) (h : token.kind = .string) :
      Derives operand (token :: rest) (.string token) token rest
  | trueWord {token : Token} (rest : List Token) (h : token.kind = .trueWord) :
      Derives operand (token :: rest) (.boolean token true) token rest
  | falseWord {token : Token} (rest : List Token) (h : token.kind = .falseWord) :
      Derives operand (token :: rest) (.boolean token false) token rest
  | group {opening last close : Token} {s t : List Token} {inner : Expression}
      (hopening : opening.kind = .leftParen)
      (body : Derives anyExpression s inner last (close :: t)) (hclose : close.kind = .rightParen) :
      Derives operand (opening :: s) inner close t
  | conditional {word opening last close brace : Token} {s t u : List Token}
      {condition : Expression} {consequence : Block} (hword : word.kind = .ifWord)
      (hopening : opening.kind = .leftParen)
      (inner : Derives anyExpression s condition last (close :: t))
      (hclose : close.kind = .rightParen) (first : Derives block t consequence brace u) :
      Derives operand (word :: opening :: s) (.conditional word condition consequence none) brace u
  | conditionalElse {word opening last close brace other end' : Token} {s t u v : List Token}
      {condition : Expression} {consequence alternative : Block} (hword : word.kind = .ifWord)
      (hopening : opening.kind = .leftParen)
      (inner : Derives anyExpression s condition last (close :: t))
      (hclose : close.kind = .rightParen)
      (first : Derives block t consequence brace (other :: u)) (hother : other.kind = .elseWord)
      (second : Derives block u alternative end' v) :
      Derives operand (word :: opening :: s)
        (.conditional word condition consequence (some alternative)) end' v
  | function {word opening close last : Token} {s t u : List Token} {names : List Name}
      {body : Block} (hword : word.kind = .functionWord) (hopening : opening.kind = .leftParen)
      (list : Derives parameters s names close t) (inner : Derives block t body last u) :
      Derives operand (word :: opening :: s) (.function ⟨word, names, body⟩) last u
  | array {opening close : Token} {s t : List Token} {inner : List Expression}
      (hopening : opening.kind = .leftBracket)
      (list : Derives (arguments .rightBracket) s inner close t) :
      Derives operand (opening :: s) (.array opening inner) close t
  | hash {opening close : Token} {s t : List Token} {inner : List Pair}
      (hopening : opening.kind = .leftBrace) (list : Derives pairs s inner close t) :
      Derives operand (opening :: s) (.hash opening inner) close t
  | noArgument {kind : TokenKind} {close : Token} (rest : List Token) (h : close.kind = kind) :
      Derives (arguments kind) (close :: rest) [] close rest
  | someArguments {kind : TokenKind} {close : Token} {s t : List Token} {inner : List Expression}
      (list : Derives (moreArguments kind) s inner close t) :
      Derives (arguments kind) s inner close t
  | lastArgument {kind : TokenKind} {last close : Token} {s t : List Token} {tree : Expression}
      (head : Derives anyExpression s tree last (close :: t)) (h : close.kind = kind) :
      Derives (moreArguments kind) s [tree] close t
  | moreArguments {kind : TokenKind} {last comma close : Token} {s t u : List Token}
      {tree : Expression} {others : List Expression}
      (head : Derives anyExpression s tree last (comma :: t)) (h : comma.kind = .comma)
      (tail : Derives (moreArguments kind) t others close u) :
      Derives (moreArguments kind) s (tree :: others) close u
  | noParameter {close : Token} (rest : List Token) (h : close.kind = .rightParen) :
      Derives parameters (close :: rest) [] close rest
  | someParameters {close : Token} {s t : List Token} {names : List Name}
      (list : Derives moreParameters s names close t) : Derives parameters s names close t
  | lastParameter {name close : Token} (rest : List Token) (h : name.kind = .identifier)
      (hclose : close.kind = .rightParen) :
      Derives moreParameters (name :: close :: rest) [⟨name⟩] close rest
  | moreParameters {name comma close : Token} {s t : List Token} {others : List Name}
      (h : name.kind = .identifier) (hcomma : comma.kind = .comma)
      (tail : Derives moreParameters s others close t) :
      Derives moreParameters (name :: comma :: s) (⟨name⟩ :: others) close t
  | noPair {close : Token} (rest : List Token) (h : close.kind = .rightBrace) :
      Derives pairs (close :: rest) [] close rest
  | lastPair {middle colon last close : Token} {s t u : List Token} {key value : Expression}
      (first : Derives anyExpression s key middle (colon :: t)) (hcolon : colon.kind = .colon)
      (second : Derives anyExpression t value last (close :: u))
      (hclose : close.kind = .rightBrace) : Derives pairs s [⟨key, value⟩] close u
  | morePairs {middle colon last comma close : Token} {s t u v : List Token}
      {key value : Expression} {others : List Pair}
      (first : Derives anyExpression s key middle (colon :: t)) (hcolon : colon.kind = .colon)
      (second : Derives anyExpression t value last (comma :: u)) (hcomma : comma.kind = .comma)
      (tail : Derives pairs u others close v) : Derives pairs s (⟨key, value⟩ :: others) close v

/-- Whether a list of tokens is a program: statements up to the end token. -/
def IsProgram (tokens : List Token) (program : Program) : Prop :=
  ∃ eof : Token, eof.kind = .eof ∧ Derives .statements tokens program.statements eof [eof]

/-! ## Where phrases start and end -/

/-- Whether an expression can start with a token. -/
def TokenKind.starts : TokenKind → Bool
  | .identifier | .integer | .string | .trueWord | .falseWord | .bang | .minus | .leftParen
  | .ifWord | .functionWord | .leftBracket | .leftBrace => true
  | _ => false

/-- Whether a phrase can start with a token. -/
def Phrase.opens : Phrase → TokenKind → Bool
  | .expression _, kind | .operand, kind | .moreArguments _, kind => kind.starts
  | .statement, kind => kind.starts || kind == .letWord || kind == .returnWord
  | .block, kind => kind == .leftBrace
  | .moreParameters, kind => kind == .identifier
  | .statements, _ | .arguments _, _ | .parameters, _ | .pairs, _ => true

/-- An expression can start with any prefix operator. -/
theorem PrefixOp.starts_kind (operator : PrefixOp) : operator.kind.starts = true := by
  cases operator <;> rfl

/-- The first token of a phrase is one that it can start with. -/
theorem Derives.opens {phrase : Phrase} {s t : List Token} {tree : phrase.Tree} {last : Token}
    (h : Derives phrase s tree last t) :
    ∃ token rest, s = token :: rest ∧ phrase.opens token.kind = true := by
  induction h with
  | noStatement token rest => exact ⟨token, rest, rfl, rfl⟩
  | moreStatements _ _ ih =>
    obtain ⟨token, rest, heq, _⟩ := ih
    exact ⟨token, rest, heq, rfl⟩
  | binding hword => exact ⟨_, _, rfl, by simp [Phrase.opens, hword]⟩
  | returning hword => exact ⟨_, _, rfl, by simp [Phrase.opens, hword]⟩
  | expressionStatement _ _ ih =>
    obtain ⟨token, rest, heq, hopens⟩ := ih
    obtain ⟨rfl, rfl⟩ := List.cons.inj heq
    simp only [Phrase.opens] at hopens
    exact ⟨_, _, rfl, by simp [Phrase.opens, hopens]⟩
  | block hopening => exact ⟨_, _, rfl, by simp [Phrase.opens, hopening]⟩
  | ofOperand _ _ ih | binary _ _ _ _ _ ih | call _ _ _ _ ih | index _ _ _ _ _ ih
  | someArguments _ ih | lastArgument _ _ ih | moreArguments _ _ _ ih | someParameters _ ih
  | lastPair _ _ _ _ ih | morePairs _ _ _ _ _ ih =>
    obtain ⟨token, rest, heq, hopens⟩ := ih
    exact ⟨token, rest, heq, by first | exact hopens | rfl⟩
  | unary operator _ htoken =>
    exact ⟨_, _, rfl, by rw [htoken]; exact operator.starts_kind⟩
  | identifier _ h | integer _ h | string _ h | trueWord _ h | falseWord _ h | group h
  | conditional h | conditionalElse h | function h | array h | hash h | lastParameter _ h | moreParameters h =>
    exact ⟨_, _, rfl, by simp [Phrase.opens, TokenKind.starts, h]⟩
  | noArgument | noParameter | noPair => exact ⟨_, _, rfl, rfl⟩

/-- The fewest tokens of a phrase. -/
def Phrase.least : Phrase → Nat
  | .statements => 0
  | _ => 1

/-- The end of a statement takes at most a semicolon away. -/
theorem Terminated.length_le {last close : Token} {s t : List Token}
    (h : Terminated last s close t) : t.length ≤ s.length := by
  cases h with
  | semicolon => exact Nat.le_succ _
  | implicit => exact Nat.le_refl _

/-- The end of a block takes at most a brace away. -/
theorem Closed.length_le {last close : Token} {s t : List Token} (h : Closed last s close t) :
    t.length ≤ s.length := by
  cases h with
  | brace => exact Nat.le_succ _
  | eof => exact Nat.le_refl _

/-- A phrase takes tokens away. -/
theorem Derives.length_le {phrase : Phrase} {s t : List Token} {tree : phrase.Tree} {last : Token}
    (h : Derives phrase s tree last t) : t.length + phrase.least ≤ s.length := by
  induction h with
  | binding _ _ _ _ ending ih | returning _ _ ending ih | expressionStatement _ ending ih =>
    have hle := ending.length_le
    simp only [Phrase.least, List.length_cons] at ih ⊢
    omega
  | block _ _ ending ih =>
    have hle := ending.length_le
    simp only [Phrase.least, List.length_cons] at ih ⊢
    omega
  | _ =>
    simp only [Phrase.least, List.length_cons] at *
    omega

/-- What is behind a statement is the rest of the tokens behind its expression. -/
theorem Terminated.suffix {last close : Token} {s t : List Token} (h : Terminated last s close t) :
    t <:+ s := by
  cases h with
  | semicolon => exact List.suffix_cons _ _
  | implicit => exact List.suffix_rfl

/-- What is behind a block is the rest of the tokens behind its statements. -/
theorem Closed.suffix {last close : Token} {s t : List Token} (h : Closed last s close t) :
    t <:+ s := by
  cases h with
  | brace => exact List.suffix_cons _ _
  | eof => exact List.suffix_rfl

/-- What is behind a phrase is the rest of the tokens from its first one on. -/
theorem Derives.suffix {phrase : Phrase} {s t : List Token} {tree : phrase.Tree} {last : Token}
    (h : Derives phrase s tree last t) : t <:+ s := by
  have hcons {token : Token} {a b : List Token} (h : token :: a <:+ b) : a <:+ b :=
    (List.suffix_cons token a).trans h
  induction h with
  | binding _ _ _ _ ending ih | returning _ _ ending ih | expressionStatement _ ending ih =>
    have hending := ending.suffix
    grind [List.IsSuffix.trans, List.suffix_cons_iff]
  | block _ _ ending ih =>
    have hending := ending.suffix
    grind [List.IsSuffix.trans, List.suffix_cons_iff]
  | _ => grind [List.IsSuffix.trans, List.suffix_cons_iff]

end Scriptlet
