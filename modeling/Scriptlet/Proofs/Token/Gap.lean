import Scriptlet.Proofs.Token.Word

set_option autoImplicit false

/-!
# Gaps

Component: the scanner.  Specification: section 4.1, of which this is the rule that spaces, tabs and
line ends are skipped and that a comment is not tokenized, with what section 10.2 adds to it, that a
comment may start anywhere on a line and runs to the end of it.

A *gap* is what stands between two tokens, or before the end of the text: layout and comments, told
without a lexer (`Gap`).  It is a relation between the gap and what is behind it, since only what is
behind it can say whether the last comment has come to its end.

What the lexer skips is a gap (`Cursor.skipsGap`), and it skips every gap
(`Cursor.skipLayoutFrom_gap`).  The two together make the relation and the function one thing: a
proof about the tokens of all texts takes the gap from the first, a proof about a text that is put
together from its parts uses the second.

The lexer skips by two functions that call each other, one outside of comments and one inside.  So
each statement about skipping comes twice, in one mutual recursion, and inside of a comment it
speaks of two parts: what is left of the comment and the gap behind it (`Cursor.SkipsComment`).
-/

namespace Scriptlet

/-- What may stand before `rest` and belong to no token: layout, and comments, each of which runs
to the next line end or to the end of the text. -/
inductive Gap : List Char → List Char → Prop where
  | nil {rest : List Char} : Gap [] rest
  | layout {c : Char} {gap rest : List Char} (h : isLayout c = true) (more : Gap gap rest) :
      Gap (c :: gap) rest
  | comment {inside gap rest : List Char} (hinside : ∀ c ∈ inside, endsLine c = false)
      (hcloses : ∀ c ∈ (gap ++ rest).head?, endsLine c = true) (more : Gap gap rest) :
      Gap ('/' :: '/' :: (inside ++ gap)) rest

/-- Layout in front of a gap makes a longer gap. -/
theorem Gap.layout_append {layout gap rest : List Char} (h : ∀ c ∈ layout, isLayout c = true)
    (hgap : Gap gap rest) : Gap (layout ++ gap) rest := by
  induction layout with
  | nil => exact hgap
  | cons c layout ih =>
    obtain ⟨hc, hlayout⟩ := List.forall_mem_cons.mp h
    exact .layout hc (ih hlayout)

/-- Layout alone is a gap, before anything. -/
theorem Gap.of_layout {layout : List Char} (h : ∀ c ∈ layout, isLayout c = true)
    (rest : List Char) : Gap layout rest := by
  have hgap := Gap.layout_append h (Gap.nil : Gap [] rest)
  rwa [List.append_nil] at hgap

/-- What ends a comment is layout, so that it belongs to the gap itself. -/
theorem isLayout_of_endsLine {c : Char} (h : endsLine c = true) : isLayout c = true := by
  simp only [endsLine, Bool.or_eq_true, beq_iff_eq] at h
  rcases h with rfl | rfl <;> rfl

namespace Cursor

variable {gap rest : List Char}

mutual

/-- Behind layout and comments neither starts. -/
theorem front_skipLayoutFrom (offset : Nat) (chars : List Char) :
    Front (skipLayoutFrom offset chars).chars := by
  unfold skipLayoutFrom
  split
  · exact front_skipCommentFrom _ _
  next c rest hcomment =>
    split
    · exact front_skipLayoutFrom _ _
    next hlayout =>
      intro c' rest' heq
      obtain ⟨rfl, rfl⟩ := List.cons.inj heq
      refine ⟨Bool.eq_false_iff.mpr hlayout, ?_⟩
      rintro rfl hhead
      cases rest with
      | nil => cases hhead
      | cons next rest =>
        cases hhead
        exact hcomment _ rfl rfl
  · exact fun _ _ heq => by cases heq

/-- The same from inside a comment, which is left before anything else is looked at. -/
theorem front_skipCommentFrom (offset : Nat) (chars : List Char) :
    Front (skipCommentFrom offset chars).chars := by
  unfold skipCommentFrom
  split
  · split
    · exact front_skipLayoutFrom _ _
    · exact front_skipCommentFrom _ _
  · exact fun _ _ heq => by cases heq

end

/-- What is skipped from an offset on, to a cursor, where no comment has been opened. -/
def SkipsGap (offset : Nat) (chars : List Char) (last : Cursor) : Prop :=
  ∃ gap, chars = gap ++ last.chars ∧ last.offset = offset + gap.length ∧ Gap gap last.chars

/-- The same from inside a comment: first what is left of it. -/
def SkipsComment (offset : Nat) (chars : List Char) (last : Cursor) : Prop :=
  ∃ inside gap, chars = inside ++ (gap ++ last.chars) ∧
    last.offset = offset + (inside.length + gap.length) ∧ (∀ c ∈ inside, endsLine c = false) ∧
    (∀ c ∈ (gap ++ last.chars).head?, endsLine c = true) ∧ Gap gap last.chars

/-- One more character of layout in front. -/
theorem SkipsGap.layout {offset : Nat} {c : Char} {chars : List Char} {last : Cursor}
    (hlayout : isLayout c = true) (h : SkipsGap (offset + 1) chars last) :
    SkipsGap offset (c :: chars) last := by
  obtain ⟨gap, rfl, hoffset, hgap⟩ := h
  refine ⟨c :: gap, rfl, ?_, .layout hlayout hgap⟩
  rw [hoffset, List.length_cons]
  omega

/-- A comment that is opened in front. -/
theorem SkipsGap.comment {offset : Nat} {chars : List Char} {last : Cursor}
    (h : SkipsComment (offset + 2) chars last) :
    SkipsGap offset ('/' :: '/' :: chars) last := by
  obtain ⟨inside, gap, rfl, hoffset, hinside, hcloses, hgap⟩ := h
  refine ⟨'/' :: '/' :: (inside ++ gap), ?_, ?_, .comment hinside hcloses hgap⟩
  · simp
  · simp only [hoffset, List.length_cons, List.length_append]
    omega

mutual

/-- Outside of a comment, what the lexer skips is a gap before what it stops at. -/
theorem skipsGap (offset : Nat) (chars : List Char) :
    SkipsGap offset chars (skipLayoutFrom offset chars) := by
  unfold skipLayoutFrom
  split
  next rest => exact .comment (skipsComment (offset + 2) rest)
  next c rest _ =>
    split
    next hlayout => exact .layout hlayout (skipsGap (offset + 1) rest)
    · exact ⟨[], rfl, rfl, .nil⟩
  · exact ⟨[], rfl, rfl, .nil⟩

/-- Inside of a comment it is the rest of that comment, and then a gap. -/
theorem skipsComment (offset : Nat) (chars : List Char) :
    SkipsComment offset chars (skipCommentFrom offset chars) := by
  unfold skipCommentFrom
  split
  next c rest =>
    split
    next hends =>
      -- the line end belongs to the gap behind the comment
      obtain ⟨gap, hchars, hoffset, hgap⟩ :=
        (skipsGap (offset + 1) rest).layout (isLayout_of_endsLine hends)
      refine ⟨[], gap, hchars, ?_, List.forall_mem_nil _, ?_, hgap⟩
      · rw [hoffset, List.length_nil, Nat.zero_add]
      · rw [← hchars]
        rintro _ ⟨⟩
        exact hends
    next hinside =>
      obtain ⟨inside, gap, hchars, hoffset, hall, hcloses, hgap⟩ := skipsComment (offset + 1) rest
      refine ⟨c :: inside, gap, congrArg (List.cons c) hchars, ?_, ?_, hcloses, hgap⟩
      · rw [hoffset, List.length_cons]
        omega
      · exact List.forall_mem_cons.mpr ⟨Bool.eq_false_iff.mpr hinside, hall⟩
  · exact ⟨[], [], rfl, rfl, List.forall_mem_nil _, fun _ hc => (by cases hc), .nil⟩

end

theorem skipLayoutFrom_layout {c : Char} (h : isLayout c = true) (offset : Nat)
    (rest : List Char) : skipLayoutFrom offset (c :: rest) = skipLayoutFrom (offset + 1) rest := by
  rw [skipLayoutFrom]
  · rw [if_pos h]
  · rintro _ rfl
    exact absurd h (by decide)

/-- Behind what closes it, a comment is skipped. -/
theorem skipCommentFrom_append {inside : List Char} (hinside : ∀ c ∈ inside, endsLine c = false)
    (hcloses : ∀ c ∈ rest.head?, endsLine c = true) (offset : Nat) :
    skipCommentFrom offset (inside ++ rest) = skipLayoutFrom (offset + inside.length) rest := by
  induction inside generalizing offset with
  | nil =>
    cases rest with
    | nil =>
      change skipCommentFrom offset [] = skipLayoutFrom offset []
      rw [skipCommentFrom, skipLayoutFrom]
    | cons c rest =>
      have hends := hcloses c rfl
      change skipCommentFrom offset (c :: rest) = skipLayoutFrom offset (c :: rest)
      rw [skipCommentFrom, if_pos hends, skipLayoutFrom_layout (isLayout_of_endsLine hends)]
  | cons c inside ih =>
    obtain ⟨hc, hinside⟩ := List.forall_mem_cons.mp hinside
    rw [List.cons_append, skipCommentFrom, hc, if_neg Bool.false_ne_true, ih hinside,
      List.length_cons, Nat.add_right_comm, Nat.add_assoc]

/-- A gap is skipped. -/
theorem skipLayoutFrom_gap (h : Gap gap rest) (offset : Nat) :
    skipLayoutFrom offset (gap ++ rest) = skipLayoutFrom (offset + gap.length) rest := by
  induction h generalizing offset with
  | nil => rfl
  | layout h _ ih =>
    rw [List.cons_append, skipLayoutFrom_layout h, ih, List.length_cons]
    congr 1
    omega
  | comment hinside hcloses _ ih =>
    rw [List.cons_append, List.cons_append, skipLayoutFrom, List.append_assoc,
      skipCommentFrom_append hinside hcloses, ih]
    congr 1
    simp only [List.length_cons, List.length_append]
    omega

/-- The gap before the next token, and the token. -/
theorem reads_next (offset : Nat) (chars : List Char) :
    ∃ gap rest, chars = gap ++ rest ∧ Gap gap rest ∧ Front rest ∧
      Reads (offset + gap.length) rest (Cursor.next ⟨offset, chars⟩) := by
  obtain ⟨gap, hchars, hoffset, hgap⟩ := skipsGap offset chars
  have hfront := front_skipLayoutFrom offset chars
  refine ⟨gap, _, hchars, hgap, hfront, ?_⟩
  rw [← hoffset]
  exact reads_read hfront _

/-- A gap makes no difference to the next token but for its place. -/
theorem next_gap (h : Gap gap rest) (offset : Nat) :
    Cursor.next ⟨offset, gap ++ rest⟩ = Cursor.next ⟨offset + gap.length, rest⟩ := by
  have hskip : Cursor.skipLayout ⟨offset, gap ++ rest⟩ =
      Cursor.skipLayout ⟨offset + gap.length, rest⟩ := skipLayoutFrom_gap h offset
  rw [Cursor.next, hskip, Cursor.next]

end Cursor

namespace Gap

variable {gap rest : List Char}

/-- Before a token a gap stays a gap whatever is put behind it. -/
theorem of_front (h : Gap gap rest) (hfront : Cursor.Front rest) (hne : rest ≠ [])
    (other : List Char) : Gap gap other := by
  induction h with
  | nil => exact .nil
  | layout h _ ih => exact .layout h (ih hfront hne)
  | @comment inside gap rest hinside hcloses _ ih =>
    refine .comment hinside ?_ (ih hfront hne)
    cases gap with
    | cons c gap => exact hcloses
    | nil =>
      -- a line end that closes a comment is skipped as well
      obtain ⟨c, rest, rfl⟩ := List.exists_cons_of_ne_nil hne
      have hlayout := isLayout_of_endsLine (hcloses c rfl)
      rw [(hfront c rest rfl).1] at hlayout
      cases hlayout

/-- The last character before a token, if it belongs to none, is layout. -/
theorem getLast?_isLayout (h : Gap gap rest) (hfront : Cursor.Front rest) (hne : rest ≠ []) :
    ∀ c ∈ gap.getLast?, isLayout c = true := by
  induction h with
  | nil => exact fun _ hc => by cases hc
  | @layout c gap rest h _ ih =>
    cases gap with
    | nil =>
      rintro _ ⟨⟩
      exact h
    | cons other gap =>
      rw [List.getLast?_cons_cons]
      exact ih hfront hne
  | @comment inside gap rest hinside hcloses _ ih =>
    cases gap with
    | cons c gap =>
      have hlast : ('/' :: '/' :: (inside ++ c :: gap)).getLast? = (c :: gap).getLast? := by
        simp [List.getLast?_cons]
      rw [hlast]
      exact ih hfront hne
    | nil =>
      obtain ⟨c, rest, rfl⟩ := List.exists_cons_of_ne_nil hne
      have hlayout := isLayout_of_endsLine (hcloses c rfl)
      rw [(hfront c rest rfl).1] at hlayout
      cases hlayout

end Gap

end Scriptlet
