import Scriptlet.Token.Lexer
import Scriptlet.Tree
import Scriptlet.Tree.SyntaxError

set_option autoImplicit false

/-!
# From tokens to a tree

The parser looks at one token, the current one, and decides by the one behind it.  A production
starts with its first token current and ends with its last token current.

A syntax error does not end the parse.  It is recorded, the production that met it fails, and the
statement around it is left out of the tree; then the next statement is tried.  Some productions
go on after a part has failed, so that its closing token is still checked: these `attempt` the
part and fail only at their end.

Expressions are read by operator precedence: an operand, then operators as long as they bind
tighter than the context does.

The functions are structurally recursive in a budget that every call and every turn of a loop
spends one unit of.  `parseBudget` is linear in the number of tokens.  A production whose budget
is spent fails without recording an error.
-/

namespace Scriptlet

/-! ## Precedence -/

/-- How tightly an operator binds, the loosest first. -/
inductive Precedence where
  | lowest
  | equality
  | comparison
  | sum
  | product
  | unary
  | call
  | index
  deriving DecidableEq, Repr, Inhabited

/-- The place of a precedence in the order. -/
def Precedence.rank : Precedence → Nat
  | .lowest => 0
  | .equality => 1
  | .comparison => 2
  | .sum => 3
  | .product => 4
  | .unary => 5
  | .call => 6
  | .index => 7

/-- How tightly an infix operator binds. -/
def InfixOp.precedence : InfixOp → Precedence
  | .equal | .notEqual => .equality
  | .less | .greater => .comparison
  | .add | .subtract => .sum
  | .multiply | .divide => .product

/-- What can follow an expression and make it longer. -/
inductive Continuation where
  | binary (operator : InfixOp)
  | call
  | index
  deriving DecidableEq, Repr, Inhabited

/-- How tightly a continuation binds. -/
def Continuation.precedence : Continuation → Precedence
  | .binary operator => operator.precedence
  | .call => .call
  | .index => .index

/-- The continuation that a token announces. -/
def TokenKind.continuation? : TokenKind → Option Continuation
  | .plus => some (.binary .add)
  | .minus => some (.binary .subtract)
  | .star => some (.binary .multiply)
  | .slash => some (.binary .divide)
  | .less => some (.binary .less)
  | .greater => some (.binary .greater)
  | .equal => some (.binary .equal)
  | .notEqual => some (.binary .notEqual)
  | .leftParen => some .call
  | .leftBracket => some .index
  | _ => none

/-! ## Integer literals -/

/-- The number that a list of decimal digits writes. -/
def decimalValue (digits : List Char) : Nat :=
  digits.foldl (fun value digit => 10 * value + (digit.toNat - '0'.toNat)) 0

/-- The largest integer. -/
def maxInteger : Nat := 9223372036854775807

/-- The value of an integer literal, which must not exceed the largest integer. -/
def integerLiteral? (literal : String) : Option Int64 :=
  let value := decimalValue literal.toList
  if value ≤ maxInteger then some (Int64.ofNat value) else none

/-! ## The state of a parse -/

/-- The current token, the tokens behind it, and the errors recorded so far.  The last token is
the end token; there the parser stays. -/
structure ParseState where
  current : Token
  rest : List Token
  errors : List SyntaxError
  deriving Repr, Inhabited

namespace ParseState

/-- The token behind the current one; behind the end token it is that token again. -/
def peek (state : ParseState) : Token := state.rest.headD state.current

/-- The state with the next token current. -/
def advance (state : ParseState) : ParseState :=
  match state.rest with
  | [] => state
  | token :: rest => { state with current := token, rest := rest }

/-- The state with one more error. -/
def record (error : SyntaxError) (state : ParseState) : ParseState :=
  { state with errors := state.errors ++ [error] }

end ParseState

/-- A step of the parser: it may fail, and what it read and recorded stays read and recorded. -/
abbrev Parse := OptionT (StateM ParseState)

namespace Parse

/-- The current token. -/
def current : Parse Token := return (← get).current

/-- The kind of the token behind the current one. -/
def peekKind : Parse TokenKind := return (← get).peek.kind

/-- Makes the next token current. -/
def advance : Parse Unit := modify ParseState.advance

/-- Records a fault of a token, and fails. -/
def fault {α : Type} (token : Token) (fault : SyntaxFault) : Parse α := do
  modify (ParseState.record ⟨token.span, fault⟩)
  failure

/-- Makes the next token current if it is of the wanted kind; otherwise that is its fault. -/
def expect (wanted : TokenKind) : Parse Unit := do
  let next := (← get).peek
  if next.kind = wanted then advance
  else fault next (.expected wanted next.kind)

/-- Makes a semicolon current if it is the next token. -/
def skipSemicolon : Parse Unit := do
  if (← peekKind) = .semicolon then advance

/-- Runs a step, and goes on also if it fails. -/
def attempt {α : Type} (step : Parse α) : Parse (Option α) := OptionT.lift step.run

/-- The value that an attempted step had; fails if it had none. -/
def require {α : Type} (result : Option α) : Parse α := OptionT.mk (pure result)

/-- The span from a token to the current one. -/
def spanFrom (first : Token) : Parse Span := return first.span.cover (← current).span

/-! ## Parameters -/

/-- The parameters from the next token on, which is a name, to the closing parenthesis. -/
def moreParameters : Nat → Parse (List Name)
  | 0 => failure
  | budget + 1 => do
    expect .identifier
    let name : Name := ⟨← current⟩
    if (← peekKind) = .comma then
      advance
      return name :: (← moreParameters budget)
    else
      expect .rightParen
      return [name]

/-- The parameters behind an opening parenthesis. -/
def parameters (budget : Nat) : Parse (List Name) := do
  if (← peekKind) = .rightParen then
    advance
    return []
  else
    moreParameters budget

/-! ## Expressions and statements -/

mutual

/-- An expression whose operators bind tighter than `floor`. -/
def expression : Nat → Precedence → Parse Expression
  | 0, _ => failure
  | budget + 1, floor => do
    let left ← operand budget
    extended budget floor left

/-- The longest expression that starts with `left` and goes on with operators that bind tighter
than `floor`. -/
def extended : Nat → Precedence → Expression → Parse Expression
  | 0, _, _ => failure
  | budget + 1, floor, left => do
    match (← peekKind).continuation? with
    | none => return left
    | some continuation =>
      if floor.rank < continuation.precedence.rank then
        advance
        let longer ← continued budget continuation left
        extended budget floor longer
      else
        return left

/-- The expression that `left` becomes by the continuation that the current token announces. -/
def continued : Nat → Continuation → Expression → Parse Expression
  | 0, _, _ => failure
  | budget + 1, .binary operator, left => do
    let token ← current
    advance
    let right ← expression budget operator.precedence
    return .binary token left operator right
  | budget + 1, .call, left => do
    let token ← current
    let arguments ← expressions budget .rightParen
    return .call token left arguments
  | budget + 1, .index, left => do
    let token ← current
    advance
    let position ← attempt (expression budget .lowest)
    expect .rightBracket
    return .index token left (← require position)

/-- An operand: what an expression can start with. -/
def operand : Nat → Parse Expression
  | 0 => failure
  | budget + 1 => do
    let token ← current
    match token.kind with
    | .identifier => return .identifier ⟨token⟩
    | .integer =>
      match integerLiteral? token.literal with
      | some value => return .integer token value
      | none => fault token (.integerRange token.literal)
    | .string => return .string token
    | .trueWord => return .boolean token true
    | .falseWord => return .boolean token false
    | .bang =>
      advance
      return .unary token .not (← expression budget .unary)
    | .minus =>
      advance
      return .unary token .negate (← expression budget .unary)
    | .leftParen =>
      advance
      let inner ← attempt (expression budget .lowest)
      expect .rightParen
      require inner
    | .ifWord =>
      expect .leftParen
      advance
      let condition ← attempt (expression budget .lowest)
      expect .rightParen
      expect .leftBrace
      let consequence ← block budget
      let alternative ← alternative budget
      return .conditional token (← require condition) consequence alternative
    | .functionWord =>
      expect .leftParen
      let parameters ← attempt (parameters budget)
      expect .leftBrace
      let body ← block budget
      return .function ⟨token, ← require parameters, body⟩
    | .leftBracket => return .array token (← expressions budget .rightBracket)
    | .leftBrace => return .hash token (← pairs budget)
    | kind => fault token (.noOperand kind)

/-- The block behind `else`, if the next token is that word. -/
def alternative : Nat → Parse (Option Block)
  | 0 => failure
  | budget + 1 => do
    if (← peekKind) = .elseWord then
      advance
      expect .leftBrace
      return some (← block budget)
    else
      return none

/-- The expressions behind an opening token, to the closing token `close`. -/
def expressions : Nat → TokenKind → Parse (List Expression)
  | 0, _ => failure
  | budget + 1, close => do
    advance
    if (← current).kind = close then return []
    else moreExpressions budget close

/-- The expressions from the current token on, to the closing token `close`. -/
def moreExpressions : Nat → TokenKind → Parse (List Expression)
  | 0, _ => failure
  | budget + 1, close => do
    let first ← attempt (expression budget .lowest)
    if (← peekKind) = .comma then
      advance
      advance
      let rest ← moreExpressions budget close
      return (← require first) :: rest
    else
      expect close
      return [← require first]

/-- The entries of a hash literal behind the current token, to the closing brace.  A comma may
stand behind the last one. -/
def pairs : Nat → Parse (List Pair)
  | 0 => failure
  | budget + 1 => do
    advance
    if (← current).kind = .rightBrace then return []
    else
      let key ← attempt (expression budget .lowest)
      expect .colon
      advance
      let value ← attempt (expression budget .lowest)
      if (← peekKind) ≠ .rightBrace then expect .comma
      let rest ← pairs budget
      return ⟨← require key, ← require value⟩ :: rest

/-- The block whose opening brace is current.  The end of the text may take the place of its
closing brace. -/
def block : Nat → Parse Block
  | 0 => failure
  | budget + 1 => do
    let token ← current
    advance
    let statements ← statements budget true
    return ⟨token, statements, ← spanFrom token⟩

/-- The statements from the current token to the end of the text, or in a block to the closing
brace.  A statement that fails is left out. -/
def statements : Nat → Bool → Parse (List Statement)
  | 0, _ => failure
  | budget + 1, inBlock => do
    let kind := (← current).kind
    if kind = .eof ∨ (inBlock ∧ kind = .rightBrace) then return []
    else
      let first ← attempt (statement budget)
      advance
      let rest ← statements budget inBlock
      return first.toList ++ rest

/-- The statement that starts at the current token, with the semicolon that may follow it. -/
def statement : Nat → Parse Statement
  | 0 => failure
  | budget + 1 => do
    let token ← current
    match token.kind with
    | .letWord =>
      expect .identifier
      let name : Name := ⟨← current⟩
      expect .assign
      advance
      let value ← attempt (expression budget .lowest)
      skipSemicolon
      let span ← spanFrom token
      return .binding token name (← require value) span
    | .returnWord =>
      advance
      let value ← attempt (expression budget .lowest)
      skipSemicolon
      let span ← spanFrom token
      return .returning token (← require value) span
    | _ =>
      let value ← attempt (expression budget .lowest)
      skipSemicolon
      let span ← spanFrom token
      return .expression token (← require value) span

end

end Parse

/-! ## Whole programs -/

/-- What a parse yields: the tree of all statements that could be read, and the errors met. -/
structure Parsed where
  program : Program
  errors : List SyntaxError

/-- A budget that suffices for a list of tokens. -/
def parseBudget (tokens : List Token) : Nat := 8 * (tokens.length + 2)

/-- The program that a list of tokens is, the end token last. -/
def parseTokens : List Token → Parsed
  | [] => ⟨⟨[]⟩, []⟩
  | token :: rest =>
    match Parse.statements (parseBudget (token :: rest)) false |>.run.run ⟨token, rest, []⟩ with
    | (statements, state) => ⟨⟨statements.getD []⟩, state.errors⟩

/-- The program that a text is. -/
def parse (text : String) : Parsed := parseTokens (tokenize text)

end Scriptlet
