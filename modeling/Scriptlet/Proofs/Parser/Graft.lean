import Scriptlet.Proofs.Parser.Grammar

set_option autoImplicit false

/-!
# Phrases before other tokens

Component: the parser.  Specification: section 4.2: one token behind a phrase is in view, and no
more.

A phrase does not depend on what is behind it but for the first token there: if another token than
the end follows it, the end token can be replaced by any tokens (`Derives.graft`).  Only a block
that is not closed reads the end token.  A phrase with one has more opening than closing braces
(`Derives.braces_le`), so that none is in a list of tokens that has as many of either.

The count of braces is an inequality that is kept by every constructor of the grammar.  It has two
corrections: a phrase that starts behind its opening brace has one closing brace more
(`Phrase.surplus`), and one that the end of the text closes has one less (`Phrase.lack`).  With as
many of either in the whole list, no correction is left for a block that is not closed.
-/

namespace Scriptlet

/-! ## The last token of a phrase -/

/-- The phrases of the grammar: lists of expressions end with a parenthesis or a bracket. -/
@[grind] def Phrase.Proper : Phrase → Prop
  | .arguments close | .moreArguments close => close = .rightParen ∨ close = .rightBracket
  | _ => True

/-- The phrases whose last token is one of them. -/
@[grind] def Phrase.isBounded : Phrase → Bool
  | .statements => false
  | _ => true

/-- The phrases that may end with a semicolon. -/
def Phrase.isStatement : Phrase → Bool
  | .statements | .statement => true
  | _ => false

/-- Only statements end with a semicolon. -/
theorem Derives.last_ne_semicolon {phrase : Phrase} {s t : List Token} {tree : phrase.Tree}
    {last : Token} (h : Derives phrase s tree last t) (hproper : phrase.Proper)
    (hphrase : phrase.isStatement = false) : last.kind ≠ .semicolon := by
  induction h with
  | noStatement | moreStatements | binding | returning | expressionStatement => cases hphrase
  | block _ _ ending =>
    cases ending with
    | brace h | eof h =>
      rw [h]
      exact TokenKind.noConfusion
  | ofOperand _ _ ih | unary _ _ _ _ ih | binary _ _ _ _ _ _ ih => exact ih trivial rfl
  | call _ _ _ _ _ ih => exact ih (.inl rfl) rfl
  | array _ _ ih => exact ih (.inr rfl) rfl
  | conditional _ _ _ _ _ _ ih | function _ _ _ _ _ ih | conditionalElse _ _ _ _ _ _ _ _ _ ih
  | hash _ _ ih | someParameters _ ih | moreParameters _ _ _ ih | morePairs _ _ _ _ _ _ _ ih =>
    exact ih trivial rfl
  | someArguments _ ih | moreArguments _ _ _ _ ih => exact ih hproper rfl
  | identifier _ h | integer _ h | string _ h | trueWord _ h | falseWord _ h | group _ _ h
  | index _ _ _ _ h | noParameter _ h | lastParameter _ _ h | noPair _ h | lastPair _ _ _ h =>
    rw [h]
    exact TokenKind.noConfusion
  | noArgument _ h | lastArgument _ h =>
    rw [h]
    rcases hproper with rfl | rfl <;> exact TokenKind.noConfusion

/-- The last token of a phrase stands before what is behind it, unless it is the end token. -/
theorem Derives.last_cons_suffix {phrase : Phrase} {s t : List Token} {tree : phrase.Tree}
    {last : Token} (h : Derives phrase s tree last t) (hphrase : phrase.isBounded = true) :
    last.kind = .eof ∨ last :: t <:+ s := by
  have hcons {token : Token} {a b : List Token} (h : token :: a <:+ b) : a <:+ b :=
    (List.suffix_cons token a).trans h
  induction h with
  | noStatement | moreStatements => cases hphrase
  | binding _ _ _ body ending ih | returning _ body ending ih
  | expressionStatement body ending ih =>
    have ih := ih rfl
    have hsuffix := body.suffix
    cases ending with
    | semicolon => grind [List.IsSuffix.trans, List.suffix_cons_iff]
    | implicit => grind [List.IsSuffix.trans, List.suffix_cons_iff]
  | block _ body ending =>
    have hsuffix := body.suffix
    cases ending with
    | eof h => exact .inl h
    | brace => grind [List.IsSuffix.trans, List.suffix_cons_iff]
  | _ => grind [List.IsSuffix.trans, List.suffix_cons_iff, Phrase.isBounded, Derives.suffix]

/-! ## Braces -/

/-- The number of opening braces. -/
def openings (tokens : List Token) : Nat := tokens.countP (·.kind == .leftBrace)

/-- The number of closing braces. -/
def closings (tokens : List Token) : Nat := tokens.countP (·.kind == .rightBrace)

/-- Opening braces are counted one by one. -/
@[grind =] theorem openings_cons (token : Token) (tokens : List Token) :
    openings (token :: tokens) = openings tokens + if token.kind = .leftBrace then 1 else 0 := by
  simp [openings, List.countP_cons]

/-- And so are closing ones. -/
@[grind =] theorem closings_cons (token : Token) (tokens : List Token) :
    closings (token :: tokens) = closings tokens + if token.kind = .rightBrace then 1 else 0 := by
  simp [closings, List.countP_cons]

/-- The closing braces of a phrase whose opening ones are not part of it. -/
@[grind] def Phrase.surplus : Phrase → Nat
  | .pairs => 1
  | _ => 0

/-- The closing braces that a phrase is known to lack by its last token. -/
@[grind] def Phrase.lack (phrase : Phrase) (kind : TokenKind) : Nat :=
  if phrase.isBounded = true ∧ kind = .eof then 1 else 0

/-- A prefix operator is no brace. -/
theorem PrefixOp.kind_ne_brace (operator : PrefixOp) :
    operator.kind ≠ .leftBrace ∧ operator.kind ≠ .rightBrace := by
  cases operator <;> decide

/-- Neither is an infix operator. -/
theorem InfixOp.kind_ne_brace (operator : InfixOp) :
    operator.kind ≠ .leftBrace ∧ operator.kind ≠ .rightBrace := by
  cases operator <;> decide

/-- A phrase has no more closing than opening braces, and less if it ends with the text. -/
theorem Derives.braces_le {phrase : Phrase} {s t : List Token} {tree : phrase.Tree} {last : Token}
    (h : Derives phrase s tree last t) (hproper : phrase.Proper) :
    openings t + closings s + phrase.lack last.kind ≤
      openings s + closings t + phrase.surplus := by
  induction h with
  | noStatement => exact Nat.le_refl _
  | binding _ _ _ _ ending | returning _ _ ending | expressionStatement _ ending =>
    cases ending with
    | semicolon | implicit => grind
  | block _ _ ending =>
    cases ending with
    | brace | eof => grind
  | unary operator =>
    have hbrace := operator.kind_ne_brace
    grind
  | binary operator =>
    have hbrace := operator.kind_ne_brace
    grind
  | _ => grind

/-! ## Other tokens behind a phrase -/

variable {others : List Token}

/-- The end of a statement looks at one token only. -/
theorem Terminated.graft {last close token : Token} {s t : List Token}
    (h : Terminated last s close (t ++ [token])) (ht : t ≠ []) (others : List Token) :
    ∃ front, front ≠ [] ∧ s = front ++ [token] ∧
      Terminated last (front ++ others) close (t ++ others) := by
  generalize hrest : t ++ [token] = rest at h
  cases h with
  | semicolon h =>
    subst hrest
    exact ⟨close :: t, List.cons_ne_nil _ _, rfl, .semicolon h⟩
  | @implicit head rest h =>
    obtain ⟨head, t, rfl⟩ := List.exists_cons_of_ne_nil ht
    obtain ⟨rfl, rfl⟩ := List.cons.inj hrest
    exact ⟨head :: t, ht, rfl, .implicit h⟩

/-- The end of a block with something behind it is a brace. -/
theorem Closed.graft {last close token : Token} {s t : List Token}
    (h : Closed last s close (t ++ [token])) (ht : t ≠ []) (others : List Token) :
    ∃ front, front ≠ [] ∧ s = front ++ [token] ∧
      Closed last (front ++ others) close (t ++ others) := by
  generalize hrest : t ++ [token] = rest at h
  cases h with
  | brace h =>
    subst hrest
    exact ⟨last :: t, List.cons_ne_nil _ _, rfl, .brace h⟩
  | eof h =>
    obtain ⟨head, t, rfl⟩ := List.exists_cons_of_ne_nil ht
    have htail := (List.cons.inj hrest).2
    exact absurd htail (by simp)

/-- If another token follows a phrase, what is behind that one does not count. -/
theorem Derives.graft {phrase : Phrase} {s rest : List Token} {tree : phrase.Tree} {last : Token}
    (h : Derives phrase s tree last rest) {t : List Token} {token : Token}
    (hrest : rest = t ++ [token]) (ht : t ≠ []) (others : List Token) :
    ∃ front, front ≠ [] ∧ s = front ++ [token] ∧
      Derives phrase (front ++ others) tree last (t ++ others) := by
  -- the last part of a phrase is grafted first: what it starts with is what the part before it ends
  -- on
  induction h generalizing t with
  | noStatement head rest =>
    obtain ⟨first, t, rfl⟩ := List.exists_cons_of_ne_nil ht
    obtain ⟨rfl, rfl⟩ := List.cons.inj hrest
    exact ⟨head :: t, ht, rfl, .noStatement head _⟩
  | moreStatements _ _ ih₁ ih₂ =>
    obtain ⟨middle, hmiddle, rfl, htail⟩ := ih₂ hrest ht
    obtain ⟨front, hfront, rfl, hhead⟩ := ih₁ rfl hmiddle
    exact ⟨front, hfront, rfl, .moreStatements hhead htail⟩
  | binding hword hname hassign _ ending ih =>
    subst hrest
    obtain ⟨middle, hmiddle, rfl, hending⟩ := ending.graft ht others
    obtain ⟨front, hfront, rfl, hbody⟩ := ih rfl hmiddle
    exact ⟨_ :: _ :: _ :: front, List.cons_ne_nil _ _, rfl,
      .binding hword hname hassign hbody hending⟩
  | returning hword _ ending ih =>
    subst hrest
    obtain ⟨middle, hmiddle, rfl, hending⟩ := ending.graft ht others
    obtain ⟨front, hfront, rfl, hbody⟩ := ih rfl hmiddle
    exact ⟨_ :: front, List.cons_ne_nil _ _, rfl, .returning hword hbody hending⟩
  | @expressionStatement first _ _ _ _ _ _ _ ending ih =>
    subst hrest
    obtain ⟨middle, hmiddle, rfl, hending⟩ := ending.graft ht others
    obtain ⟨front, hfront, heq, hbody⟩ := ih rfl hmiddle
    obtain ⟨head, front, rfl⟩ := List.exists_cons_of_ne_nil hfront
    obtain ⟨rfl, rfl⟩ := List.cons.inj heq
    exact ⟨first :: front, hfront, rfl, .expressionStatement hbody hending⟩
  | block hopening _ ending ih =>
    subst hrest
    obtain ⟨middle, hmiddle, rfl, hending⟩ := ending.graft ht others
    obtain ⟨front, hfront, rfl, hbody⟩ := ih rfl hmiddle
    exact ⟨_ :: front, List.cons_ne_nil _ _, rfl, .block hopening hbody hending⟩
  | ofOperand level _ ih =>
    obtain ⟨front, hfront, rfl, hinner⟩ := ih hrest ht
    exact ⟨front, hfront, rfl, .ofOperand level hinner⟩
  | unary operator hlevel htoken _ ih =>
    obtain ⟨front, hfront, rfl, hright⟩ := ih hrest ht
    exact ⟨_ :: front, List.cons_ne_nil _ _, rfl, .unary operator hlevel htoken hright⟩
  -- the operator stands behind the left operand, so that there is something behind it in any case
  | binary operator hlevel htoken _ _ ih₁ ih₂ =>
    obtain ⟨middle, hmiddle, rfl, hright⟩ := ih₂ hrest ht
    obtain ⟨front, hfront, rfl, hleft⟩ := ih₁ (t := _ :: middle) rfl (List.cons_ne_nil _ _)
    exact ⟨front, hfront, rfl, .binary operator hlevel htoken hleft hright⟩
  | call hlevel htoken _ _ ih₁ ih₂ =>
    obtain ⟨middle, hmiddle, rfl, hlist⟩ := ih₂ hrest ht
    obtain ⟨front, hfront, rfl, hleft⟩ := ih₁ (t := _ :: middle) rfl (List.cons_ne_nil _ _)
    exact ⟨front, hfront, rfl, .call hlevel htoken hleft hlist⟩
  | index hlevel htoken _ _ hclose ih₁ ih₂ =>
    subst hrest
    obtain ⟨middle, hmiddle, rfl, hinner⟩ := ih₂ (t := _ :: t) rfl (List.cons_ne_nil _ _)
    obtain ⟨front, hfront, rfl, hleft⟩ := ih₁ (t := _ :: middle) rfl (List.cons_ne_nil _ _)
    exact ⟨front, hfront, rfl, .index hlevel htoken hleft hinner hclose⟩
  | identifier _ h =>
    subst hrest
    exact ⟨_ :: t, List.cons_ne_nil _ _, rfl, .identifier _ h⟩
  | integer _ h hvalue =>
    subst hrest
    exact ⟨_ :: t, List.cons_ne_nil _ _, rfl, .integer _ h hvalue⟩
  | string _ h =>
    subst hrest
    exact ⟨_ :: t, List.cons_ne_nil _ _, rfl, .string _ h⟩
  | trueWord _ h =>
    subst hrest
    exact ⟨_ :: t, List.cons_ne_nil _ _, rfl, .trueWord _ h⟩
  | falseWord _ h =>
    subst hrest
    exact ⟨_ :: t, List.cons_ne_nil _ _, rfl, .falseWord _ h⟩
  -- nor is the list empty behind what is in brackets: it goes on with the closing token
  | group hopening _ hclose ih =>
    subst hrest
    obtain ⟨front, hfront, rfl, hbody⟩ := ih (t := _ :: t) rfl (List.cons_ne_nil _ _)
    exact ⟨_ :: front, List.cons_ne_nil _ _, rfl, .group hopening hbody hclose⟩
  | conditional hword hopening _ hclose _ ih₁ ih₂ =>
    obtain ⟨middle, hmiddle, rfl, hfirst⟩ := ih₂ hrest ht
    obtain ⟨front, hfront, rfl, hinner⟩ := ih₁ (t := _ :: middle) rfl (List.cons_ne_nil _ _)
    exact ⟨_ :: _ :: front, List.cons_ne_nil _ _, rfl,
      .conditional hword hopening hinner hclose hfirst⟩
  | conditionalElse hword hopening _ hclose _ hother _ ih₁ ih₂ ih₃ =>
    obtain ⟨behind, hbehind, rfl, hsecond⟩ := ih₃ hrest ht
    obtain ⟨middle, hmiddle, rfl, hfirst⟩ := ih₂ (t := _ :: behind) rfl (List.cons_ne_nil _ _)
    obtain ⟨front, hfront, rfl, hinner⟩ := ih₁ (t := _ :: middle) rfl (List.cons_ne_nil _ _)
    exact ⟨_ :: _ :: front, List.cons_ne_nil _ _, rfl,
      .conditionalElse hword hopening hinner hclose hfirst hother hsecond⟩
  | function hword hopening _ _ ih₁ ih₂ =>
    obtain ⟨middle, hmiddle, rfl, hinner⟩ := ih₂ hrest ht
    obtain ⟨front, hfront, rfl, hlist⟩ := ih₁ rfl hmiddle
    exact ⟨_ :: _ :: front, List.cons_ne_nil _ _, rfl, .function hword hopening hlist hinner⟩
  | array hopening _ ih =>
    obtain ⟨front, hfront, rfl, hlist⟩ := ih hrest ht
    exact ⟨_ :: front, List.cons_ne_nil _ _, rfl, .array hopening hlist⟩
  | hash hopening _ ih =>
    obtain ⟨front, hfront, rfl, hlist⟩ := ih hrest ht
    exact ⟨_ :: front, List.cons_ne_nil _ _, rfl, .hash hopening hlist⟩
  | noArgument _ h =>
    subst hrest
    exact ⟨_ :: t, List.cons_ne_nil _ _, rfl, .noArgument _ h⟩
  | someArguments _ ih =>
    obtain ⟨front, hfront, rfl, hlist⟩ := ih hrest ht
    exact ⟨front, hfront, rfl, .someArguments hlist⟩
  | lastArgument _ h ih =>
    subst hrest
    obtain ⟨front, hfront, rfl, hhead⟩ := ih (t := _ :: t) rfl (List.cons_ne_nil _ _)
    exact ⟨front, hfront, rfl, .lastArgument hhead h⟩
  | moreArguments _ h _ ih₁ ih₂ =>
    obtain ⟨middle, hmiddle, rfl, htail⟩ := ih₂ hrest ht
    obtain ⟨front, hfront, rfl, hhead⟩ := ih₁ (t := _ :: middle) rfl (List.cons_ne_nil _ _)
    exact ⟨front, hfront, rfl, .moreArguments hhead h htail⟩
  | noParameter _ h =>
    subst hrest
    exact ⟨_ :: t, List.cons_ne_nil _ _, rfl, .noParameter _ h⟩
  | someParameters _ ih =>
    obtain ⟨front, hfront, rfl, hlist⟩ := ih hrest ht
    exact ⟨front, hfront, rfl, .someParameters hlist⟩
  | lastParameter _ h hclose =>
    subst hrest
    exact ⟨_ :: _ :: t, List.cons_ne_nil _ _, rfl, .lastParameter _ h hclose⟩
  | moreParameters h hcomma _ ih =>
    obtain ⟨front, hfront, rfl, htail⟩ := ih hrest ht
    exact ⟨_ :: _ :: front, List.cons_ne_nil _ _, rfl, .moreParameters h hcomma htail⟩
  | noPair _ h =>
    subst hrest
    exact ⟨_ :: t, List.cons_ne_nil _ _, rfl, .noPair _ h⟩
  | lastPair _ hcolon _ hclose ih₁ ih₂ =>
    subst hrest
    obtain ⟨middle, hmiddle, rfl, hvalue⟩ := ih₂ (t := _ :: t) rfl (List.cons_ne_nil _ _)
    obtain ⟨front, hfront, rfl, hkey⟩ := ih₁ (t := _ :: middle) rfl (List.cons_ne_nil _ _)
    exact ⟨front, hfront, rfl, .lastPair hkey hcolon hvalue hclose⟩
  | morePairs _ hcolon _ hcomma _ ih₁ ih₂ ih₃ =>
    obtain ⟨behind, hbehind, rfl, htail⟩ := ih₃ hrest ht
    obtain ⟨middle, hmiddle, rfl, hvalue⟩ := ih₂ (t := _ :: behind) rfl (List.cons_ne_nil _ _)
    obtain ⟨front, hfront, rfl, hkey⟩ := ih₁ (t := _ :: middle) rfl (List.cons_ne_nil _ _)
    exact ⟨front, hfront, rfl, .morePairs hkey hcolon hvalue hcomma htail⟩

/-- Behind a statement that ends with a semicolon any tokens may stand. -/
theorem Derives.graft_semicolon {s : List Token} {tree : Statement} {last token : Token}
    (h : Derives .statement s tree last [token]) (hlast : last.kind = .semicolon)
    (others : List Token) :
    ∃ front, s = front ++ [token] ∧ Derives .statement (front ++ others) tree last others := by
  have hbody {s t : List Token} {value : Expression} {middle : Token}
      (body : Derives .anyExpression s value middle t) (ending : Terminated middle t last [token]) :
      ∃ front, s = front ++ [token] ∧
        Derives .anyExpression (front ++ others) value middle (last :: others) := by
    cases ending with
    | semicolon =>
      obtain ⟨front, -, heq, hgraft⟩ := body.graft (t := [last]) rfl (List.cons_ne_nil _ _) others
      exact ⟨front, heq, hgraft⟩
    | implicit => exact absurd hlast (body.last_ne_semicolon trivial rfl)
  cases h with
  | binding hword hname hassign body ending =>
    obtain ⟨front, rfl, hgraft⟩ := hbody body ending
    exact ⟨_ :: _ :: _ :: front, rfl, .binding hword hname hassign hgraft (.semicolon hlast)⟩
  | returning hword body ending =>
    obtain ⟨front, rfl, hgraft⟩ := hbody body ending
    exact ⟨_ :: front, rfl, .returning hword hgraft (.semicolon hlast)⟩
  | @expressionStatement first _ _ _ _ _ _ body ending =>
    obtain ⟨front, heq, hgraft⟩ := hbody body ending
    cases front with
    | nil =>
      -- an expression has a token before the semicolon
      have hlength := hgraft.suffix.length_le
      rw [List.nil_append, List.length_cons] at hlength
      omega
    | cons head front =>
      obtain ⟨rfl, rfl⟩ := List.cons.inj heq
      exact ⟨first :: front, rfl, .expressionStatement hgraft (.semicolon hlast)⟩

end Scriptlet
