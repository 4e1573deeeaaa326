import Scriptlet.Proofs.Parser.Ensures
import Scriptlet.Proofs.Parser.Progress
import Scriptlet.Proofs.Token.Tiling

set_option autoImplicit false

/-!
# Spans are well nested

Component: the parser.  Specification: sections 10.2 and 10.3, by which tokens carry spans and a
statement carries a span that covers its tokens, for the report of an error at run time.

Each statement and block of a tree covers the tokens from its first to its last, whatever errors
there are around it, and what is inside of it lies inside its span (`Statement.Placed`,
`Block.Placed`).  Behind each statement of a list the next one starts no earlier than it stops.

The induction carries two things along: the parts of what has been read so far lie between a place
before it and the current token (`Setting.Shows`), and where the parser stands at the end of the
text, the last of them is a block that the end closes (`Setting.Ending`).

A `Setting` is the tokens of a text and the calls of its parse.  Everything here is relative to one,
so that a part of a tree can be tied to the call that has read it: a statement is not only somewhere
in the text, it stands where a call of the parser has started and stopped.

The exception at the end of the text is real.  If a block is not closed, the end token closes it,
and that stands one place behind the text if a string was not closed either.  `Unclosed` keeps track
of it, so that the bound of every other span is the length of the text.
-/

namespace Scriptlet

/-- Whether a span lies within another. -/
def Span.Within (inner outer : Span) : Prop := outer.start ≤ inner.start ∧ inner.stop ≤ outer.stop

/-- Tokens in order, and the calls that happen in a parse of them. -/
structure Setting where
  tokens : List Token
  happening : Call → Prop
  ended : Ended tokens
  ordered : tokens.Pairwise fun token next => token.span.stop ≤ next.span.start
  proper : ∀ token ∈ tokens, token.span.start ≤ token.span.stop

namespace Setting

variable (setting : Setting)

/-- Whether a block has been read and stops at the end of the text. -/
def Unclosed (block : Block) : Prop :=
  ∃ start stop events, setting.happening ⟨.block, start, stop, some block, events⟩ ∧
    stop.current.kind = .eof

end Setting

/-- What is true of a statement that is read from one state to another. -/
structure Statement.Placed (setting : Setting) (tree : Statement) (start stop : ParseState) :
    Prop where
  token_eq : tree.token = start.current
  opens : start.current.kind ≠ .eof
  span_eq : tree.span = ⟨start.current.span.start, stop.current.span.stop⟩
  /-- a semicolon that is there is the last token -/
  semicolon : stop.peek.kind = .semicolon → stop.current.kind = .semicolon
  /-- the end of the text is the last token only behind a block that it closes -/
  eof : stop.current.kind = .eof → ∃ block, .block block ∈ tree.inner ∧ setting.Unclosed block
  inner : ∀ part ∈ tree.inner, part.span.Within tree.span

/-- What is true of a block that is read from one state to another. -/
structure Block.Placed (tree : Block) (start stop : ParseState) : Prop where
  token_eq : tree.token = start.current
  opens : start.current.kind = .leftBrace
  span_eq : tree.span = ⟨start.current.span.start, stop.current.span.stop⟩
  closes : stop.current.kind = .rightBrace ∨ stop.current.kind = .eof
  inner : ∀ part ∈ tree.inner, part.span.Within tree.span
  ordered : tree.statements.Pairwise fun statement next => statement.span.stop ≤ next.span.start

/-- Whether a part of a tree stands where it was read. -/
def Part.Placed (setting : Setting) : Part → Prop
  | .token word => word ∈ setting.tokens ∧ word.kind ≠ .eof
  | .statement tree => ∃ start stop events,
      setting.happening ⟨.statement, start, stop, some tree, events⟩ ∧
        tree.Placed setting start stop
  | .block tree => ∃ start stop events,
      setting.happening ⟨.block, start, stop, some tree, events⟩ ∧ tree.Placed start stop

namespace Setting

variable {setting : Setting} {state start stop : ParseState} {first : Nat} {parts more : List Part}

/-! ## Places in the tokens -/

variable (setting) in
/-- Whether a state stands in the tokens, not before a place in the text. -/
structure Stands (first : Nat) (state : ParseState) : Prop where
  suffix : state.current :: state.rest <:+ setting.tokens
  le_start : first ≤ state.current.span.start

/-- The current token is one of the setting. -/
theorem Stands.current_mem (h : setting.Stands first state) : state.current ∈ setting.tokens :=
  h.suffix.subset List.mem_cons_self

/-- It does not end before it starts. -/
theorem Stands.start_le_stop (h : setting.Stands first state) :
    state.current.span.start ≤ state.current.span.stop :=
  setting.proper _ h.current_mem

/-- Going forward does not lead back in the text. -/
theorem Stands.le_of_follows (h : setting.Stands first start) (hfollows : state.Follows start) :
    start.current.span.start ≤ state.current.span.start ∧
      start.current.span.stop ≤ state.current.span.stop := by
  obtain heq | hsuffix := List.suffix_cons_iff.mp hfollows
  · rw [(List.cons.inj heq).1]
    exact ⟨Nat.le_refl _, Nat.le_refl _⟩
  · have hordered := List.rel_of_pairwise_cons (setting.ordered.sublist h.suffix.sublist)
      (hsuffix.subset List.mem_cons_self)
    have hproper := h.start_le_stop
    have hinside : state.current :: state.rest <:+ setting.tokens :=
      List.IsSuffix.trans hfollows h.suffix
    have hproper' := setting.proper _ (hinside.subset List.mem_cons_self)
    omega

/-- Going forward, the parser still stands in the tokens. -/
theorem Stands.of_follows (h : setting.Stands first start) (hfollows : state.Follows start) :
    setting.Stands first state :=
  ⟨List.IsSuffix.trans hfollows h.suffix, h.le_start.trans (h.le_of_follows hfollows).1⟩

theorem Stands.advance (h : setting.Stands first state) : setting.Stands first state.advance :=
  h.of_follows state.follows_advance

/-- The current token can be the place to count from. -/
theorem Stands.from_current (h : setting.Stands first state) :
    setting.Stands state.current.span.start state :=
  ⟨h.suffix, Nat.le_refl _⟩

theorem Stands.ends (h : setting.Stands first state) : state.Ends :=
  setting.ended.of_suffix h.suffix

/-- The span from a token to a later one goes from the start of the first to the end of the second.
-/
theorem Stands.cover_eq (h : setting.Stands first start) (hfollows : state.Follows start) :
    start.current.span.cover state.current.span =
      ⟨start.current.span.start, state.current.span.stop⟩ := by
  obtain ⟨hstart, hstop⟩ := h.le_of_follows hfollows
  unfold Span.cover
  rw [Nat.min_eq_left hstart, Nat.max_eq_right hstop]

/-- The next token starts behind the current one. -/
theorem Stands.stop_le_start (h : setting.Stands first state) (hrest : state.rest ≠ []) :
    state.current.span.stop ≤ state.advance.current.span.start := by
  have hordered := setting.ordered.sublist h.suffix.sublist
  unfold ParseState.advance
  split
  next hnil => exact absurd hnil hrest
  next token rest heq =>
    rw [heq] at hordered
    exact List.rel_of_pairwise_cons hordered List.mem_cons_self

/-- A statement of a list is a part of it. -/
theorem mem_partsOfStatements {tree : Statement} {trees : List Statement} (h : tree ∈ trees) :
    .statement tree ∈ partsOfStatements trees := by
  induction trees with
  | nil => exact absurd h List.not_mem_nil
  | cons head rest ih =>
    obtain rfl | h := List.mem_cons.mp h
    · exact List.mem_cons_self
    · exact .tail _ (List.mem_append_right _ (ih h))

/-! ## What has been read -/

variable (setting) in
/-- Whether parts stand where they were read, from a place on and to where the parser is. -/
def Shows (first : Nat) (stop : ParseState) (parts : List Part) : Prop :=
  ∀ part ∈ parts, first ≤ part.span.start ∧ part.span.stop ≤ stop.current.span.stop ∧
    part.Placed setting

variable (setting) in
/-- Whether the last of some parts is a block that the end of the text closes, if that is where the
parser is. -/
def Ending (stop : ParseState) (parts : List Part) : Prop :=
  stop.current.kind = .eof → ∃ block, .block block ∈ parts ∧ setting.Unclosed block

/-- What has been read from a place on was read from every place before it. -/
theorem Shows.mono {place : Nat} (h : setting.Shows first state parts)
    (hstands : setting.Stands place state) (hfollows : stop.Follows state) :
    setting.Shows first stop parts := by
  intro part hpart
  obtain ⟨hfirst, hlast, hplaced⟩ := h part hpart
  exact ⟨hfirst, hlast.trans (hstands.le_of_follows hfollows).2, hplaced⟩

/-- A place further to the front does as well. -/
theorem Shows.of_le {other : Nat} (h : setting.Shows first stop parts) (hle : other ≤ first) :
    setting.Shows other stop parts := by
  intro part hpart
  obtain ⟨hfirst, hrest⟩ := h part hpart
  exact ⟨hle.trans hfirst, hrest⟩

theorem Shows.nil : setting.Shows first stop [] := fun _ hpart => absurd hpart List.not_mem_nil

/-- What has been read twice in a row. -/
theorem Shows.append (h : setting.Shows first stop parts) (hmore : setting.Shows first stop more) :
    setting.Shows first stop (parts ++ more) := by
  intro part hpart
  obtain hpart | hpart := List.mem_append.mp hpart
  · exact h part hpart
  · exact hmore part hpart

/-- The current token as a part. -/
theorem Shows.current (h : setting.Stands first state) (hkind : state.current.kind ≠ .eof) :
    setting.Shows first state [.token state.current] := by
  intro part hpart
  cases List.mem_singleton.mp hpart
  exact ⟨h.le_start, Nat.le_refl _, h.current_mem, hkind⟩

theorem Shows.current_of_kind {kind : TokenKind} (h : setting.Stands first state)
    (hkind : state.current.kind = kind) (hne : kind ≠ .eof) :
    setting.Shows first state [.token state.current] :=
  .current h fun heof => hne (hkind.symm.trans heof)

/-- A statement or a block, and what is inside of it. -/
theorem Shows.node {part : Part} (h : setting.Stands first start)
    (hspan : part.span = ⟨start.current.span.start, stop.current.span.stop⟩)
    (hplaced : part.Placed setting)
    (hinner : setting.Shows start.current.span.start stop parts) :
    setting.Shows first stop (part :: parts) := by
  refine List.forall_mem_cons.mpr ⟨⟨?_, ?_, hplaced⟩, hinner.of_le h.le_start⟩
  · rw [hspan]
    exact h.le_start
  · rw [hspan]

/-- What has been read lies within a span that goes from the place to here. -/
theorem Shows.within {span : Span} (h : setting.Shows first stop parts)
    (hspan : span = ⟨first, stop.current.span.stop⟩) : ∀ part ∈ parts, part.span.Within span := by
  intro part hpart
  obtain ⟨hfirst, hlast, -⟩ := h part hpart
  rw [hspan]
  exact ⟨hfirst, hlast⟩

/-- The last of some parts is the last of more of them, if they are behind it. -/
theorem Ending.mono (h : setting.Ending stop parts) (hsubset : parts ⊆ more) :
    setting.Ending stop more := by
  intro heof
  obtain ⟨block, hblock, hunclosed⟩ := h heof
  exact ⟨block, hsubset hblock, hunclosed⟩

/-- If the parser is not at the end of the text, there is nothing to show. -/
theorem Ending.of_kind {kind : TokenKind} (h : stop.current.kind = kind) (hne : kind ≠ .eof) :
    setting.Ending stop parts :=
  fun heof => absurd (h.symm.trans heof) hne

/-! ## The productions -/

variable (setting) in
/-- Whether a tree with some parts has been read where the parser is. -/
structure Reads (first : Nat) (stop : ParseState) (parts : List Part) : Prop where
  shows : setting.Shows first stop parts
  ending : setting.Ending stop parts

variable (setting) in
/-- What a step ensures that starts at the current token. -/
def EnsuresAt {α : Type} (traced : Traced α) (post : Nat → ParseState → α → ParseState → Prop) :
    Prop :=
  ∀ first state, setting.Stands first state →
    traced.Ensures setting.happening state (post first state)

variable (setting) in
/-- That all productions read what stands there, within a budget. -/
structure AllRead (budget : Nat) : Prop where
  expression : ∀ floor, setting.EnsuresAt (Traced.expression budget floor)
    fun first _ tree stop => setting.Reads first stop tree.parts
  extended : ∀ floor left first state, setting.Stands first state →
    setting.Reads first state left.parts →
      (Traced.extended budget floor left).Ensures setting.happening state fun tree stop =>
        setting.Reads first stop tree.parts
  continued : ∀ continuation left first state, setting.Stands first state →
    state.current.kind ≠ .eof → setting.Shows first state left.parts →
      (Traced.continued budget continuation left).Ensures setting.happening state fun tree stop =>
        setting.Reads first stop tree.parts
  operand : setting.EnsuresAt (Traced.operand budget)
    fun first _ tree stop => setting.Reads first stop tree.parts
  alternative : setting.EnsuresAt (Traced.alternative budget) fun first start tree stop =>
    setting.Shows first stop (partsOfAlternative tree) ∧
      (setting.Ending stop (partsOfAlternative tree) ∨ stop = start)
  expressions : ∀ close, setting.EnsuresAt (Traced.expressions budget close)
    fun first _ trees stop =>
      setting.Shows first stop (partsOfExpressions trees) ∧ stop.current.kind = close
  moreExpressions : ∀ close, setting.EnsuresAt (Traced.moreExpressions budget close)
    fun first _ trees stop =>
      setting.Shows first stop (partsOfExpressions trees) ∧ stop.current.kind = close
  pairs : setting.EnsuresAt (Traced.pairs budget) fun first _ trees stop =>
    setting.Shows first stop (partsOfPairs trees) ∧ stop.current.kind = .rightBrace
  block : ∀ first state, setting.Stands first state → state.current.kind = .leftBrace →
    (Traced.block budget).Ensures setting.happening state fun tree stop =>
      setting.Reads first stop tree.parts
  statements : ∀ inBlock, setting.EnsuresAt (Traced.statements budget inBlock)
    fun first start trees stop =>
      setting.Shows first stop (partsOfStatements trees) ∧
        (trees.Pairwise fun tree next => tree.span.stop ≤ next.span.start) ∧
        (start.current.kind = .eof → trees = [])
  statement : setting.EnsuresAt (Traced.statement budget) fun first _ tree stop =>
    setting.Shows first stop tree.parts

/-- Parameters are tokens only. -/
theorem ensuresAt_moreParameters (budget : Nat) :
    setting.EnsuresAt (Traced.moreParameters budget) fun first _ names stop =>
      setting.Shows first stop (partsOfNames names) := by
  induction budget with
  | zero => exact fun _ _ _ => .called .exhausted
  | succ budget ih =>
    intro first state h
    unfold Traced.moreParameters
    refine .called (.expect fun hname => .current ?_)
    have hname := Shows.current_of_kind h.advance (state.kind_advance hname) TokenKind.noConfusion
    refine .peekKind (.ite (fun _ => .advance ?_) fun _ => .expect fun _ => .pure ?_)
    · have hfollows := state.advance.follows_advance
      refine (ih first _ h.advance.advance).bind fun names stop hstop hnames => .pure ?_
      exact (hname.mono h.advance (hstop.trans hfollows)).append hnames
    · exact hname.mono h.advance state.advance.follows_advance

theorem ensuresAt_parameters (budget : Nat) :
    setting.EnsuresAt (Traced.parameters budget) fun first _ names stop =>
      setting.Shows first stop (partsOfNames names) := by
  intro first state h
  unfold Traced.parameters
  refine .called (.peekKind (.ite (fun _ => .advance (.pure .nil)) fun _ => ?_))
  exact ensuresAt_moreParameters budget first state h

namespace AllRead

variable {budget : Nat}

/-- An expression stands from its operand on. -/
theorem expression_succ (ih : setting.AllRead budget) (floor : Precedence) :
    setting.EnsuresAt (Traced.expression (budget + 1) floor) fun first _ tree stop =>
      setting.Reads first stop tree.parts := by
  intro first state h
  unfold Traced.expression
  refine .called ((ih.operand first state h).bind fun left middle hmiddle hleft => ?_)
  exact ih.extended floor left first middle (h.of_follows hmiddle) hleft

/-- The loop keeps what was read and shows what it reads. -/
theorem extended_succ (ih : setting.AllRead budget) (floor : Precedence) (left : Expression)
    {first : Nat} {state : ParseState} (h : setting.Stands first state)
    (hleft : setting.Reads first state left.parts) :
    (Traced.extended (budget + 1) floor left).Ensures setting.happening state fun tree stop =>
      setting.Reads first stop tree.parts := by
  unfold Traced.extended
  refine .called (.peekKind ?_)
  cases hkind : state.peek.kind.continuation? with
  | none => exact .pure hleft
  | some continuation =>
    refine .ite (fun _ => .advance ?_) fun _ => .pure hleft
    have hne : state.advance.current.kind ≠ .eof := by
      rw [ParseState.current_advance]
      intro heof
      rw [heof] at hkind
      cases hkind
    refine (ih.continued continuation left first _ h.advance hne
      (hleft.shows.mono h state.follows_advance)).bind fun longer middle hmiddle hlonger => ?_
    exact ih.extended floor longer first middle (h.advance.of_follows hmiddle) hlonger

/-- The token that continues an expression stands behind it. -/
theorem continued_succ (ih : setting.AllRead budget) (continuation : Continuation)
    (left : Expression) {first : Nat} {state : ParseState} (h : setting.Stands first state)
    (hne : state.current.kind ≠ .eof) (hleft : setting.Shows first state left.parts) :
    (Traced.continued (budget + 1) continuation left).Ensures setting.happening state
      fun tree stop => setting.Reads first stop tree.parts := by
  have hfront := hleft.append (.current h hne)
  have hfollows := state.follows_advance
  cases continuation with
  | binary operator =>
    dsimp only [Traced.continued]
    refine .called (.current (.advance ?_))
    refine (ih.expression _ first _ h.advance).bind fun right stop hstop hright => .pure ?_
    have hshows := (hfront.mono h (hstop.trans hfollows)).append hright.shows
    rw [List.append_assoc] at hshows
    exact ⟨hshows, hright.ending.mono (by simp [Expression.parts])⟩
  | call =>
    dsimp only [Traced.continued]
    refine .called (.current ?_)
    refine (ih.expressions _ first _ h).bind fun arguments stop hstop harguments => .pure ?_
    have hshows := (hfront.mono h hstop).append harguments.1
    rw [List.append_assoc] at hshows
    exact ⟨hshows, .of_kind harguments.2 TokenKind.noConfusion⟩
  | index =>
    dsimp only [Traced.continued]
    refine .called (.current (.advance ?_))
    refine (ih.expression _ first _ h.advance).attempt fun position middle hmiddle hposition => ?_
    refine .expect fun hclose => .require ?_
    rintro position rfl
    have hmiddle' := h.advance.of_follows hmiddle
    have hshows := ((hfront.mono h (hmiddle.trans hfollows)).append
      (hposition position rfl).shows).mono hmiddle' middle.follows_advance
    rw [List.append_assoc] at hshows
    exact .pure ⟨hshows, .of_kind (middle.kind_advance hclose) TokenKind.noConfusion⟩

/-- A conditional ends with the last of its blocks. -/
theorem operand_conditional (ih : setting.AllRead budget) (h : setting.Stands first state)
    (hkind : state.current.kind = .ifWord) :
    (Traced.operand (budget + 1)).Ensures setting.happening state fun tree stop =>
      setting.Reads first stop tree.parts := by
  have htoken := Shows.current_of_kind h hkind TokenKind.noConfusion
  unfold Traced.operand
  refine .called (.current ?_)
  simp only [hkind]
  refine .expect fun _ => .advance ?_
  refine (ih.expression _ first _ h.advance.advance).attempt
    fun condition middle hmiddle hcondition => .expect fun _ => .expect fun hopen => ?_
  have hmiddle' := hmiddle.trans (state.advance.follows_advance.trans state.follows_advance)
  have h' := h.of_follows hmiddle'
  have hbrace := middle.advance.follows_advance.trans middle.follows_advance
  refine (ih.block first _ h'.advance.advance (middle.advance.kind_advance hopen)).bind
    fun consequence last hlast hconsequence => ?_
  have hlast' := hlast.trans hbrace
  refine (ih.alternative first last (h'.of_follows hlast')).bind
    fun alternative stop hstop halternative => .require ?_
  rintro condition rfl
  have hstop' := hstop.trans hlast'
  refine .pure ⟨?_, ?_⟩
  · exact (htoken.mono h (hstop'.trans hmiddle')).append
      ((((hcondition condition rfl).shows.mono h' hstop').append
        (hconsequence.shows.mono (h'.of_follows hlast') hstop)).append halternative.1)
  · obtain hending | rfl := halternative.2
    · exact hending.mono fun _ hpart => .tail _ (List.mem_append_right _ hpart)
    · exact hconsequence.ending.mono fun _ hpart =>
        .tail _ (List.mem_append_left _ (List.mem_append_right _ hpart))

/-- A function ends with its block. -/
theorem operand_function (ih : setting.AllRead budget) (h : setting.Stands first state)
    (hkind : state.current.kind = .functionWord) :
    (Traced.operand (budget + 1)).Ensures setting.happening state fun tree stop =>
      setting.Reads first stop tree.parts := by
  have htoken := Shows.current_of_kind h hkind TokenKind.noConfusion
  unfold Traced.operand
  refine .called (.current ?_)
  simp only [hkind]
  refine .expect fun _ => ?_
  refine (ensuresAt_parameters budget first _ h.advance).attempt
    fun parameters middle hmiddle hparameters => .expect fun hopen => ?_
  have hmiddle' := hmiddle.trans state.follows_advance
  have h' := h.of_follows hmiddle'
  refine (ih.block first _ h'.advance (middle.kind_advance hopen)).bind
    fun body stop hstop hbody => .require ?_
  rintro parameters rfl
  have hstop' := hstop.trans middle.follows_advance
  refine .pure ⟨?_, hbody.ending.mono ?_⟩
  · exact (htoken.mono h (hstop'.trans hmiddle')).append
      (((hparameters parameters rfl).mono h' hstop').append hbody.shows)
  · exact fun _ hpart => .tail _ (List.mem_append_right _ hpart)

/-- The other operands end with a token of their own. -/
theorem operand_succ (ih : setting.AllRead budget) :
    setting.EnsuresAt (Traced.operand (budget + 1)) fun first _ tree stop =>
      setting.Reads first stop tree.parts := by
  intro first state h
  -- conditionals and functions are told apart, as they are read in several steps
  by_cases hconditional : state.current.kind = .ifWord
  · exact ih.operand_conditional h hconditional
  by_cases hfunction : state.current.kind = .functionWord
  · exact ih.operand_function h hfunction
  unfold Traced.operand
  refine .called (.current ?_)
  generalize hkind : state.current.kind = kind
  have htoken (hne : kind ≠ .eof) := Shows.current_of_kind h hkind hne
  have hending (hne : kind ≠ .eof) {parts : List Part} : setting.Ending state parts :=
    .of_kind hkind hne
  cases kind
  case identifier | string | trueWord | falseWord =>
    exact .pure ⟨htoken TokenKind.noConfusion, hending TokenKind.noConfusion⟩
  case integer =>
    dsimp only
    split
    · exact .pure ⟨htoken TokenKind.noConfusion, hending TokenKind.noConfusion⟩
    · exact .fault _ _
  case bang | minus =>
    refine .advance ((ih.expression _ first _ h.advance).bind fun right stop hstop hright =>
      .pure ⟨?_, hright.ending.mono (by simp [Expression.parts])⟩)
    exact ((htoken TokenKind.noConfusion).mono h (hstop.trans state.follows_advance)).append
      hright.shows
  -- parentheses are no part of the tree: its parts lie further inside
  case leftParen =>
    refine .advance ((ih.expression _ first _ h.advance).attempt fun inner middle hmiddle hinner =>
      .expect fun hclose => .required ?_)
    rintro inner rfl
    have hshows := (hinner inner rfl).shows.mono (h.advance.of_follows hmiddle)
      middle.follows_advance
    exact ⟨hshows, .of_kind (middle.kind_advance hclose) TokenKind.noConfusion⟩
  case leftBracket =>
    refine (ih.expressions _ first _ h).bind fun elements stop hstop helements => .pure ⟨?_, ?_⟩
    · exact ((htoken TokenKind.noConfusion).mono h hstop).append helements.1
    · exact .of_kind helements.2 TokenKind.noConfusion
  case leftBrace =>
    refine (ih.pairs first _ h).bind fun pairs stop hstop hpairs => .pure ⟨?_, ?_⟩
    · exact ((htoken TokenKind.noConfusion).mono h hstop).append hpairs.1
    · exact .of_kind hpairs.2 TokenKind.noConfusion
  case ifWord => exact absurd hkind hconditional
  case functionWord => exact absurd hkind hfunction
  all_goals exact .fault _ _

theorem alternative_succ (ih : setting.AllRead budget) :
    setting.EnsuresAt (Traced.alternative (budget + 1)) fun first start tree stop =>
      setting.Shows first stop (partsOfAlternative tree) ∧
        (setting.Ending stop (partsOfAlternative tree) ∨ stop = start) := by
  intro first state h
  unfold Traced.alternative
  refine .called (.peekKind (.ite (fun _ => .advance (.expect fun hopen => ?_)) fun _ =>
    .pure ⟨.nil, .inr rfl⟩))
  refine (ih.block first _ h.advance.advance (state.advance.kind_advance hopen)).bind
    fun block stop hstop hblock => .pure ⟨hblock.shows, .inl hblock.ending⟩

theorem expressions_succ (ih : setting.AllRead budget) (close : TokenKind) :
    setting.EnsuresAt (Traced.expressions (budget + 1) close) fun first _ trees stop =>
      setting.Shows first stop (partsOfExpressions trees) ∧ stop.current.kind = close := by
  intro first state h
  unfold Traced.expressions
  refine .called (.advance (.current (.ite (fun hclose => .pure ⟨.nil, hclose⟩) fun _ => ?_)))
  exact ih.moreExpressions close first _ h.advance

/-- One expression after another, and the closing token. -/
theorem moreExpressions_succ (ih : setting.AllRead budget) (close : TokenKind) :
    setting.EnsuresAt (Traced.moreExpressions (budget + 1) close) fun first _ trees stop =>
      setting.Shows first stop (partsOfExpressions trees) ∧ stop.current.kind = close := by
  intro first state h
  unfold Traced.moreExpressions
  refine .called ((ih.expression _ first _ h).attempt fun head middle hmiddle hhead => ?_)
  have h := h.of_follows hmiddle
  refine .peekKind (.ite (fun _ => .advance (.advance ?_)) fun _ => .expect fun hclose => ?_)
  · refine (ih.moreExpressions close first _ h.advance.advance).bind fun rest stop hstop hrest => ?_
    refine .require ?_
    rintro head rfl
    have hfollows := hstop.trans (middle.advance.follows_advance.trans middle.follows_advance)
    exact .pure ⟨((hhead head rfl).shows.mono h hfollows).append hrest.1, hrest.2⟩
  · refine .require ?_
    rintro head rfl
    have hshows := ((hhead head rfl).shows.mono h middle.follows_advance).append .nil
    exact .pure ⟨hshows, middle.kind_advance hclose⟩

/-- One pair after another, and the closing brace. -/
theorem pairs_succ (ih : setting.AllRead budget) :
    setting.EnsuresAt (Traced.pairs (budget + 1)) fun first _ trees stop =>
      setting.Shows first stop (partsOfPairs trees) ∧ stop.current.kind = .rightBrace := by
  intro first state h
  unfold Traced.pairs
  refine .called (.advance (.current (.ite (fun hclose => .pure ⟨.nil, hclose⟩) fun _ => ?_)))
  refine (ih.expression _ first _ h.advance).attempt fun key middle hmiddle hkey => ?_
  have h := h.advance.of_follows hmiddle
  refine .expect fun _ => .advance ?_
  refine (ih.expression _ first _ h.advance.advance).attempt fun value last hlast hvalue => ?_
  have h' := h.advance.advance.of_follows hlast
  have hfollows := hlast.trans (middle.advance.follows_advance.trans middle.follows_advance)
  have hrest {here : ParseState} (hhere : here.Follows last) :
      (do
        let rest ← Traced.pairs budget
        return ⟨← Parse.require key, ← Parse.require value⟩ :: rest : Traced (List Pair)).Ensures
      setting.happening here fun trees stop =>
        setting.Shows first stop (partsOfPairs trees) ∧ stop.current.kind = .rightBrace := by
    refine (ih.pairs first _ (h'.of_follows hhere)).bind fun rest stop hstop hrest => ?_
    refine .require ?_
    rintro key rfl
    refine .require ?_
    rintro value rfl
    have hfollows' := hstop.trans hhere
    have hentry := ((hkey key rfl).shows.mono h (hfollows'.trans hfollows)).append
      ((hvalue value rfl).shows.mono h' hfollows')
    exact .pure ⟨hentry.append hrest.1, hrest.2⟩
  exact .peekKind (.ite (fun _ => .expect fun _ => hrest last.follows_advance) fun _ =>
    hrest (.refl last))

/-- A block goes from its brace to the one that closes it, or to the end of the text. -/
theorem block_succ (ih : setting.AllRead budget) {first : Nat} {state : ParseState}
    (h : setting.Stands first state) (hopen : state.current.kind = .leftBrace) :
    (Traced.block (budget + 1)).Ensures setting.happening state fun tree stop =>
      setting.Reads first stop tree.parts := by
  unfold Traced.block
  have hbody : (do
      let token ← Parse.current
      Parse.advance
      let statements ← Traced.statements budget true
      return ⟨token, statements, ← Parse.spanFrom token⟩ : Traced Block).Ensures setting.happening
        state fun tree stop => tree.Placed state stop ∧
          setting.Shows state.current.span.start stop tree.inner := by
    refine .current (.advance ?_)
    have hcurrent := h.from_current
    refine ((ih.statements true _ _ hcurrent.advance).and
      (fun _ stop => stop.current.kind = .eof ∨ true = true ∧ stop.current.kind = .rightBrace)
      fun _ => Traced.stop_statements).bind fun trees stop hstop htrees => .spanFrom ?_
    obtain ⟨⟨hshows, hordered, -⟩, hstops⟩ := htrees
    have hfollows := hstop.trans state.follows_advance
    have htoken := Shows.current_of_kind hcurrent hopen TokenKind.noConfusion
    have hinner := (htoken.mono hcurrent hfollows).append hshows
    have hspan := h.cover_eq hfollows
    exact .pure ⟨⟨rfl, hopen, hspan, hstops.symm.imp_left And.right, hinner.within hspan, hordered⟩,
      hinner⟩
  refine hbody.call.mono fun tree stop hstop hpost => ?_
  obtain ⟨⟨hplaced, hinner⟩, events, hhappens⟩ := hpost
  refine ⟨.node h hplaced.span_eq ⟨state, stop, events, hhappens, hplaced⟩ hinner, fun heof => ?_⟩
  exact ⟨tree, List.mem_cons_self, state, stop, events, hhappens, heof⟩

/-- Each statement starts behind the one before it, as the parser has advanced. -/
theorem statements_succ (ih : setting.AllRead budget) (inBlock : Bool) :
    setting.EnsuresAt (Traced.statements (budget + 1) inBlock) fun first start trees stop =>
      setting.Shows first stop (partsOfStatements trees) ∧
        (trees.Pairwise fun tree next => tree.span.stop ≤ next.span.start) ∧
        (start.current.kind = .eof → trees = []) := by
  intro first state h
  unfold Traced.statements
  refine .called (.current (.ite (fun _ => .pure ⟨.nil, .nil, fun _ => rfl⟩) fun hgoes => ?_))
  refine (ih.statement first state h).attempt fun head middle hmiddle hhead => .advance ?_
  have h' := h.of_follows hmiddle
  have hafter : (Traced.statements budget inBlock).Ensures setting.happening middle.advance
      fun trees stop => setting.Shows middle.current.span.stop stop (partsOfStatements trees) ∧
        trees.Pairwise fun tree next => tree.span.stop ≤ next.span.start := by
    by_cases hrest : middle.rest = []
    · have heof := middle.kind_advance (h'.ends.peek_of_eof (h'.ends.kind_of_rest hrest))
      refine (ih.statements inBlock first _ h'.advance).mono fun trees stop _ htrees => ?_
      obtain ⟨-, -, hnil⟩ := htrees
      rw [hnil heof]
      exact ⟨.nil, .nil⟩
    · have hnext : setting.Stands middle.current.span.stop middle.advance :=
        ⟨h'.advance.suffix, h'.stop_le_start hrest⟩
      refine (ih.statements inBlock _ middle.advance hnext).mono fun trees stop _ htrees => ?_
      exact ⟨htrees.1, htrees.2.1⟩
  refine hafter.bind fun rest stop hstop hrest => .pure ?_
  obtain ⟨hshows, hordered⟩ := hrest
  have hle : first ≤ middle.current.span.stop := h'.le_start.trans h'.start_le_stop
  have hfollows := hstop.trans middle.follows_advance
  cases head with
  | none => exact ⟨hshows.of_le hle, hordered, fun heof => absurd (.inl heof) hgoes⟩
  | some tree =>
    have htree := hhead tree rfl
    refine ⟨(htree.mono h' hfollows).append (hshows.of_le hle), ?_,
      fun heof => absurd (.inl heof) hgoes⟩
    refine .cons (fun next hnext => ?_) hordered
    have hstop : tree.span.stop ≤ middle.current.span.stop := (htree _ List.mem_cons_self).2.1
    exact hstop.trans (hshows _ (mem_partsOfStatements hnext)).1

/-- The end of a statement: its expression, the semicolon behind it, and its span. -/
theorem ending (ih : setting.AllRead budget) {start here : ParseState} {front : List Part}
    (h : setting.Stands first start) (hhere : here.Follows start)
    (hfront : here.current.kind ≠ .eof →
      start.current.kind ≠ .eof ∧ setting.Shows start.current.span.start here front)
    (make : Expression → Span → Statement)
    (hmake : ∀ value span, (make value span).token = start.current ∧
      (make value span).span = span ∧ (make value span).inner = front ++ value.parts) :
    (do
      let value ← Traced.attempt (Traced.expression budget .lowest)
      Parse.skipSemicolon
      let span ← Parse.spanFrom start.current
      return make (← Parse.require value) span : Traced Statement).Ensures setting.happening here
        fun tree stop => tree.Placed setting start stop ∧
          setting.Shows start.current.span.start stop tree.inner := by
  have hstands := h.from_current.of_follows hhere
  -- an expression that was read did not begin at the end of the tokens
  have hne (tree : Expression)
      (htree : (Traced.expression budget .lowest here).result = some tree) :
      here.current.kind ≠ .eof := fun heof =>
    nomatch (Traced.result_expression_of_eof budget .lowest heof).symm.trans htree
  refine ((ih.expression .lowest _ here hstands).and (fun _ _ => _) hne).attempt
    fun value middle hmiddle hvalue => ?_
  -- a statement ends at its semicolon, if it has one, or with its expression
  have hfinish {stop : ParseState} (hstop : stop.Follows middle)
      (hsemicolon : stop.peek.kind = .semicolon → stop.current.kind = .semicolon)
      (heof : stop.current.kind = .eof → stop = middle) :
      (do
        let span ← Parse.spanFrom start.current
        return make (← Parse.require value) span : Traced Statement).Ensures setting.happening stop
          fun tree stop => tree.Placed setting start stop ∧
            setting.Shows start.current.span.start stop tree.inner := by
    refine .spanFrom (.require ?_)
    rw [h.cover_eq (hstop.trans (hmiddle.trans hhere))]
    rintro value rfl
    obtain ⟨htoken, hspan, hinner⟩ := hmake value
      ⟨start.current.span.start, stop.current.span.stop⟩
    obtain ⟨⟨hshows, hends⟩, hne⟩ := hvalue value rfl
    obtain ⟨hopens, hfront⟩ := hfront hne
    have hall := (hfront.mono hstands (hstop.trans hmiddle)).append
      (hshows.mono (hstands.of_follows hmiddle) hstop)
    rw [← hinner] at hall
    refine .pure ⟨⟨htoken, hopens, hspan, hsemicolon, fun hkind => ?_, hall.within hspan⟩, hall⟩
    obtain rfl := heof hkind
    rw [hinner]
    exact hends.mono (List.subset_append_right _ _) hkind
  -- of the two only the first moves on
  refine .skipSemicolon (fun hpeek => ?_) fun hpeek => ?_
  · have hkind := middle.kind_advance hpeek
    exact hfinish middle.follows_advance (fun _ => hkind)
      fun heof => TokenKind.noConfusion (hkind.symm.trans heof)
  · exact hfinish (.refl middle) (fun h => absurd h hpeek) fun _ => rfl

/-- A statement goes from its first token to the last that it has consumed. -/
theorem statement_succ (ih : setting.AllRead budget) :
    setting.EnsuresAt (Traced.statement (budget + 1)) fun first _ tree stop =>
      setting.Shows first stop tree.parts := by
  intro first state h
  have hcall {body : Traced Statement}
      (hbody : body.Ensures setting.happening state fun tree stop =>
        tree.Placed setting state stop ∧ setting.Shows state.current.span.start stop tree.inner) :
      (Traced.call .statement body).Ensures setting.happening state fun tree stop =>
        setting.Shows first stop tree.parts := by
    refine hbody.call.mono fun tree stop _ hpost => ?_
    obtain ⟨⟨hplaced, hinner⟩, events, hhappens⟩ := hpost
    exact .node h hplaced.span_eq ⟨state, stop, events, hhappens, hplaced⟩ hinner
  unfold Traced.statement
  refine hcall (.current ?_)
  have hcurrent := h.from_current
  split
  next hkind =>
    have hopens : state.current.kind ≠ .eof := fun heof =>
      TokenKind.noConfusion (hkind.symm.trans heof)
    have htoken := Shows.current hcurrent hopens
    refine .expect fun hname => .current (.expect fun _ => .advance ?_)
    have hname := Shows.current_of_kind hcurrent.advance (state.kind_advance hname)
      TokenKind.noConfusion
    have hfollows := state.advance.advance.follows_advance.trans
      state.advance.follows_advance
    have hfront := (htoken.mono hcurrent (hfollows.trans state.follows_advance)).append
      (hname.mono hcurrent.advance hfollows)
    exact ih.ending h (hfollows.trans state.follows_advance) (fun _ => ⟨hopens, hfront⟩) _
      fun value span => ⟨rfl, rfl, rfl⟩
  next hkind =>
    have hopens : state.current.kind ≠ .eof := fun heof =>
      TokenKind.noConfusion (hkind.symm.trans heof)
    have hfront := (Shows.current hcurrent hopens).mono hcurrent state.follows_advance
    exact .advance (ih.ending h state.follows_advance (fun _ => ⟨hopens, hfront⟩) _
      fun value span => ⟨rfl, rfl, rfl⟩)
  · exact ih.ending h (.refl state) (fun hne => ⟨hne, .current hcurrent hne⟩) _
      fun value span => ⟨rfl, rfl, rfl⟩

end AllRead

/-- By induction on the budget. -/
theorem allRead (budget : Nat) : setting.AllRead budget := by
  induction budget with
  | zero =>
    exact {
      expression := fun _ _ _ _ => .called .exhausted
      extended := fun _ _ _ _ _ _ => .called .exhausted
      continued := fun _ _ _ _ _ _ _ => .called .exhausted
      operand := fun _ _ _ => .called .exhausted
      alternative := fun _ _ _ => .called .exhausted
      expressions := fun _ _ _ _ => .called .exhausted
      moreExpressions := fun _ _ _ _ => .called .exhausted
      pairs := fun _ _ _ => .called .exhausted
      block := fun _ _ _ _ => .called .exhausted
      statements := fun _ _ _ _ => .called .exhausted
      statement := fun _ _ _ => .called .exhausted }
  | succ budget ih =>
    exact {
      expression := ih.expression_succ
      extended := fun floor left _ _ => ih.extended_succ floor left
      continued := fun continuation left _ _ => ih.continued_succ continuation left
      operand := ih.operand_succ
      alternative := ih.alternative_succ
      expressions := ih.expressions_succ
      moreExpressions := ih.moreExpressions_succ
      pairs := ih.pairs_succ
      block := fun _ _ => ih.block_succ
      statements := ih.statements_succ
      statement := ih.statement_succ }

end Setting

/-! ## Whole programs -/

/-- The tokens of a text, and the calls that happen in its parse. -/
def Setting.ofText (text : String) : Setting where
  tokens := tokenize text
  happening call := ∃ above, Happens (.called call) above (account text).events
  ended := ended_tokenize text
  ordered := ordered_tokenize text
  proper := proper_tokenize text

/-- Whether the last token of a text before its end is a string that is never closed. -/
def EndsInString (text : String) : Prop :=
  ∃ front last stop, tokenize text = front ++ [last, Token.eof stop] ∧ last.unclosed = true

section

variable {text : String}

/-- A call of the parse starts and stops at tokens of the text. -/
theorem mem_tokenize_of_happening {call : Call} (h : (Setting.ofText text).happening call) :
    call.start.current ∈ tokenize text ∧ call.stop.current ∈ tokenize text := by
  obtain ⟨above, happens⟩ := h
  exact mem_tokens_of_happens (ended_tokenize text) (leastBudget_le_parseBudget _) happens

/-- The parts of a program stand where they were read, and its statements do not overlap. -/
theorem shows_parts_parse (text : String) :
    ∃ stop, (Setting.ofText text).Shows 0 stop (parse text).program.parts ∧
      (parse text).program.statements.Pairwise fun tree next =>
        tree.span.stop ≤ next.span.start := by
  obtain ⟨statements, hresult⟩ := exists_result_accountWithin (ended_tokenize text)
    (leastBudget_le_parseBudget _)
  obtain ⟨token, rest, htokens⟩ := (ended_tokenize text).exists_cons
  have haccount : account text =
      Traced.statements (parseBudget (token :: rest)) false ⟨token, rest, []⟩ := by
    unfold account
    rw [htokens]
    rfl
  have hstands : (Setting.ofText text).Stands 0 ⟨token, rest, []⟩ :=
    ⟨htokens ▸ List.suffix_rfl, Nat.zero_le _⟩
  have hensures := (Setting.allRead (parseBudget (token :: rest))).statements false 0 _ hstands
  rw [parse_eq]
  change (account text).result = some statements at hresult
  rw [hresult]
  rw [haccount] at hresult
  obtain ⟨hshows, hordered, -⟩ :=
    (hensures fun above call happens => ⟨above, haccount ▸ happens⟩).2 statements hresult
  exact ⟨_, hshows, hordered⟩

/-- A token stands inside of the text, and the end token too unless it is behind a string that is
never closed. -/
theorem stop_le_of_mem_tokenize {token : Token} (h : token ∈ tokenize text) :
    token.span.stop ≤ text.length ∨
      token.span.stop = text.length + 1 ∧ token.kind = .eof ∧ EndsInString text := by
  obtain ⟨front, htokens, htiles⟩ := exists_tiles text
  rw [htokens] at h
  obtain h | h := List.mem_append.mp h
  · exact .inl ((htiles.stands token h).2.2.stop_le.trans (Nat.le_of_eq text.length_toList))
  · cases List.mem_singleton.mp h
    change endOffset _ _ ≤ _ ∨ endOffset _ _ = _ ∧ _
    unfold endOffset
    split
    next hunclosed =>
      cases hlast : front.getLast? with
      | none =>
        rw [hlast] at hunclosed
        cases hunclosed
      | some last =>
        rw [hlast] at hunclosed
        obtain ⟨before, rfl⟩ := List.getLast?_eq_some_iff.mp hlast
        rw [List.append_assoc] at htokens
        exact .inr ⟨congrArg (· + 1) text.length_toList, rfl, before, last, _, htokens, hunclosed⟩
    next => exact .inl (Nat.le_of_eq text.length_toList)

theorem stop_le_length {token : Token} (h : token ∈ tokenize text) (hne : token.kind ≠ .eof) :
    token.span.stop ≤ text.length :=
  (stop_le_of_mem_tokenize h).resolve_right fun hend => hne hend.2.1

/-- What is read from one state to another and holds its first token stands inside of the text, but
for an end that stands one place further. -/
theorem bounds_of_happening {call : Call} {span : Span}
    (h : (Setting.ofText text).happening call) (hopens : call.start.current.kind ≠ .eof)
    (hspan : span = ⟨call.start.current.span.start, call.stop.current.span.stop⟩)
    (hfirst : call.start.current.span.Within span) :
    span.start ≤ span.stop ∧ span.start ≤ text.length ∧
      (span.stop ≤ text.length ∨
        span.stop = text.length + 1 ∧ EndsInString text ∧ call.stop.current.kind = .eof) := by
  obtain ⟨hstart, hstop⟩ := mem_tokenize_of_happening h
  have hproper := (Setting.ofText text).proper _ hstart
  have hlength := stop_le_length hstart hopens
  obtain ⟨hle, hle'⟩ := hfirst
  refine ⟨by omega, by omega, ?_⟩
  rw [hspan]
  obtain hinside | ⟨houtside, heof, hstring⟩ := stop_le_of_mem_tokenize hstop
  · exact .inl hinside
  · exact .inr ⟨houtside, hstring, heof⟩

/-- So every part that has a place is inside of the text, with the one exception. -/
theorem bounds_of_placed {part : Part} (h : part.Placed (.ofText text)) :
    part.span.start ≤ part.span.stop ∧ part.span.start ≤ text.length ∧
      (part.span.stop ≤ text.length ∨ part.span.stop = text.length + 1 ∧ EndsInString text ∧
        ∃ block, .block block ∈ part.parts ∧ (Setting.ofText text).Unclosed block) := by
  cases part with
  | token word =>
    obtain ⟨hmem, hne⟩ := h
    have hproper := (Setting.ofText text).proper word hmem
    have hlength := stop_le_length hmem hne
    exact ⟨hproper, hproper.trans hlength, .inl hlength⟩
  | statement tree =>
    obtain ⟨start, stop, events, hhappens, hplaced⟩ := h
    have hfirst := hplaced.inner _ tree.token_mem_inner
    change tree.token.span.Within _ at hfirst
    rw [hplaced.token_eq] at hfirst
    obtain ⟨hproper, hstart, hstop⟩ :=
      bounds_of_happening hhappens hplaced.opens hplaced.span_eq hfirst
    refine ⟨hproper, hstart, hstop.imp_right fun ⟨houtside, hstring, heof⟩ => ?_⟩
    obtain ⟨block, hblock, hunclosed⟩ := hplaced.eof heof
    exact ⟨houtside, hstring, block, .tail _ hblock, hunclosed⟩
  | block tree =>
    obtain ⟨start, stop, events, hhappens, hplaced⟩ := h
    have hfirst := hplaced.inner _ tree.token_mem_inner
    change tree.token.span.Within _ at hfirst
    rw [hplaced.token_eq] at hfirst
    have hopens : start.current.kind ≠ .eof := fun heof =>
      TokenKind.noConfusion (hplaced.opens.symm.trans heof)
    obtain ⟨hproper, hstart, hstop⟩ := bounds_of_happening hhappens hopens hplaced.span_eq hfirst
    refine ⟨hproper, hstart, hstop.imp_right fun ⟨houtside, hstring, heof⟩ => ?_⟩
    exact ⟨houtside, hstring, tree, List.mem_cons_self, start, stop, events, hhappens, heof⟩

end

/-- In the tree of every text, statements that stand side by side have spans that are disjoint and
in order.  Each statement and each block has been read by a call that the parser makes, from its
first token to the last one that it has consumed, which is the semicolon behind a statement if there
is one; its span goes from the start of the one to the end of the other, and holds the spans of all
tokens, statements and blocks inside of it.  No span reaches beyond the text, except that the end of
one may stand one place further: only if the last token is a string that is never closed, and the
end of the text closes a block in it. -/
theorem spans_well_nested (text : String) :
    (∀ call, (Setting.ofText text).happening call → call.Truthful) ∧
      ((parse text).program.statements.Pairwise fun tree next =>
        tree.span.stop ≤ next.span.start) ∧
      (∀ part ∈ (parse text).program.parts, part.Placed (.ofText text)) ∧
      ∀ part ∈ (parse text).program.parts, part.span.start ≤ part.span.stop ∧
        part.span.start ≤ text.length ∧
        (part.span.stop ≤ text.length ∨ part.span.stop = text.length + 1 ∧ EndsInString text ∧
          ∃ block, .block block ∈ part.parts ∧ (Setting.ofText text).Unclosed block) := by
  obtain ⟨stop, hshows, hordered⟩ := shows_parts_parse text
  have hplaced (part : Part) (hpart : part ∈ (parse text).program.parts) :=
    (hshows part hpart).2.2
  have htruthful (call : Call) : (Setting.ofText text).happening call → call.Truthful := by
    rintro ⟨above, happens⟩
    exact truthful_of_happens happens
  exact ⟨htruthful, hordered, hplaced, fun part hpart => bounds_of_placed (hplaced part hpart)⟩

end Scriptlet
