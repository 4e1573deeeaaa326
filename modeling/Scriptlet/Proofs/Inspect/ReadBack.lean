import Scriptlet.Proofs.Inspect.Parse

set_option autoImplicit false

/-!
# Plain values are read back

Component: the object model, with the parser and the evaluator.  Specification: sections 6 and 10.5
for what values are printed as, section 10.3 for the error of an integer that is too large.

The text of a plain value is a program that makes the value again, unless the least integer is in
it.  That one is written with digits that write no integer, as a minus is no part of a literal, and
its text is rejected, with one error for each place where it stands.

The two texts of the language are different things: what a tree is written as and what a value is
printed as.  For values without strings and functions the printed text is a program all the same,
and this file says which.

The least integer cannot be avoided as a case.  Its digits without the minus are one more than the
largest integer, the minus is an operator and not a part of the number, and so the text that it is
printed as cannot be read.
-/

namespace Scriptlet

/-- The tokens of the text of a plain value are those of its words, and the end. -/
theorem Value.Plain.exists_tokenize_eq {value : Value} (h : value.Plain) :
    ∃ s eof, tokenize value.inspect = s ++ [eof] ∧ s.map Token.spelling = value.words ∧
      eof.spelling = (.eof, "") := by
  have hapart : Apart [] := fun c hc => by cases hc
  have hspellings : (tokenize value.inspect).map Token.spelling = value.words ++ [(.eof, "")] := by
    have hspells := h.spells [] hapart
    rwa [List.append_nil, spellings_nil] at hspells
  obtain ⟨s, tail, htokens, hs, htail⟩ := List.map_eq_append_iff.mp hspellings
  obtain ⟨eof, tail, rfl, heof, htail⟩ := List.map_eq_cons_iff.mp htail
  obtain rfl := List.map_eq_nil_iff.mp htail
  exact ⟨s, eof, htokens, hs, heof⟩

/-- What the text of a plain value is parsed as. -/
theorem Value.Plain.parse_inspect {value : Value} (h : value.Plain) :
    ∃ token span result,
      parse value.inspect =
        ⟨⟨(result.map fun tree => Statement.expression token tree span).toList⟩,
          rangeErrors (tokenize value.inspect)⟩ ∧
      Settled (rangeErrors (tokenize value.inspect)) (Denotes · value) result ∧
      (rangeErrors (tokenize value.inspect)).length = value.integers.count Int64.minValue := by
  obtain ⟨s, eof, htokens, hs, heof⟩ := h.exists_tokenize_eq
  obtain ⟨token, span, result, hparse, hfound⟩ :=
    parseTokens_of_plain h hs (congrArg Prod.fst heof)
  have hliteral : eof.literal ≠ leastDigits := by
    have hempty : eof.literal = "" := congrArg Prod.snd heof
    rw [hempty]
    decide
  have herrors : rangeErrors (tokenize value.inspect) = rangeErrors s := by
    rw [htokens, rangeErrors_append, rangeErrors_cons_of_ne hliteral]
    exact List.append_nil _
  rw [herrors]
  refine ⟨token, span, result, ?_, hfound, ?_⟩
  · rw [parse, htokens, hparse]
  · rw [length_rangeErrors, hs, leastCount_words]

/-- Running a statement that is an expression, when it denotes a value, gives an equal value, and
changes nothing but which identity is issued next. -/
theorem Denotes.execute {tree : Expression} {value : Value} (h : Denotes tree value) (token : Token)
    (span : Span) (setup : Setup) (frame : FrameId) (roots : Roots) (machine : Machine) :
    ∃ result next, result.equal value = true ∧
      Scriptlet.execute setup frame roots (.expression token tree span) machine =
        .ok (some result) (machine.issuing next) := by
  obtain ⟨result, next, heval, hshape⟩ :=
    h setup (invokeWithin setup setup.callDepth) frame roots machine
  refine ⟨result, next, (Value.equal_iff_shape _ _).mpr hshape, ?_⟩
  rw [Scriptlet.execute, evalStatement, Eval.bind_of_ok heval]
  rfl

/-- A program of one statement gives what that gives, and ends in a collection. -/
theorem runProgram_of_execute {setup : Setup} {frame : FrameId} {roots : Roots}
    {statement : Statement} {result : Value} {machine after : Machine}
    (h : execute setup frame roots statement machine = .ok (some result) after) :
    runProgram setup frame roots ⟨[statement]⟩ machine =
      (.finished (some result), (after.collect (roots.hold result)).2) := by
  have hrun : runStatements setup frame roots none [statement] machine =
      (.finished (some result), after) := by
    rw [runStatements, Option.elim_none, h]
    rfl
  rw [runProgram, hrun]
  rfl

/-- Texts of plain values are read back.

If the least integer is not in the value, its text is parsed without errors, as one statement that
is an expression.  Running the statement, in whatever frame of whatever machine, gives an equal
value and changes nothing but which identity is issued next; and so does the program, but that every
program ends in a collection.

If the least integer is in the value, the text is rejected.  There is one error for each place where
that integer stands, at its digits, and nothing runs. -/
theorem inspect_reads_back {value : Value} (h : value.Plain) :
    (Int64.minValue ∉ value.integers →
      ∃ token tree span, parse value.inspect = ⟨⟨[.expression token tree span]⟩, []⟩ ∧
        ∀ (setup : Setup) (frame : FrameId) (roots : Roots) (machine : Machine),
          ∃ result next, result.equal value = true ∧
            execute setup frame roots (.expression token tree span) machine =
              .ok (some result) (machine.issuing next) ∧
            runProgram setup frame roots (parse value.inspect).program machine =
              (.finished (some result), ((machine.issuing next).collect (roots.hold result)).2)) ∧
    (Int64.minValue ∈ value.integers →
      let parsed := parse value.inspect
      parsed.program = ⟨[]⟩ ∧ parsed.errors = rangeErrors (tokenize value.inspect) ∧
      parsed.errors.length = value.integers.count Int64.minValue ∧
      (∀ error ∈ parsed.errors,
        error.fault.message = "could not parse 9223372036854775808 as integer") ∧
      ∀ (setup : Setup) (frame : FrameId) (roots : Roots) (machine : Machine),
        runScript setup frame roots value.inspect machine =
          (.rejected parsed.errors, machine)) := by
  obtain ⟨token, span, result, hparse, hfound, hlength⟩ := h.parse_inspect
  constructor
  -- no number in the value is the least one, so that nothing of its text is out of range
  · intro hleast
    have hnone : rangeErrors (tokenize value.inspect) = [] := by
      rw [← List.length_eq_zero_iff, hlength]
      exact List.count_eq_zero_of_not_mem hleast
    obtain ⟨tree, rfl, hdenotes⟩ : ∃ tree, result = some tree ∧ Denotes tree value := by
      cases result with
      | none => exact absurd hnone hfound
      | some tree => exact ⟨tree, rfl, hfound.2⟩
    rw [hnone] at hparse
    refine ⟨token, tree, span, hparse, fun setup frame roots machine => ?_⟩
    obtain ⟨result, next, hequal, hexecute⟩ :=
      hdenotes.execute token span setup frame roots machine
    refine ⟨result, next, hequal, hexecute, ?_⟩
    rw [hparse]
    exact runProgram_of_execute hexecute
  -- each of them is written as a minus and a number too large to be read
  · intro hleast
    have hsome : rangeErrors (tokenize value.inspect) ≠ [] := by
      rw [← List.length_pos_iff, hlength]
      exact List.count_pos_iff.mpr hleast
    obtain rfl : result = none := by
      cases result with
      | none => rfl
      | some tree => exact absurd hfound.1 hsome
    have herrors : (parse value.inspect).errors = rangeErrors (tokenize value.inspect) := by
      rw [hparse]
    refine ⟨by rw [hparse]; rfl, herrors, herrors ▸ hlength, ?_, ?_⟩
    · intro error hmem
      rw [herrors] at hmem
      obtain ⟨token, _, rfl⟩ := List.mem_map.mp hmem
      rfl
    · intro setup frame roots machine
      rw [runScript, if_neg]
      rw [herrors, List.isEmpty_iff]
      exact hsome

/-- A hash with a negative name, an array and an empty hash in it. -/
def nestedValue : Value :=
  .hash ⟨0⟩ [⟨⟨.integer, -1⟩, .integer (-1), .array ⟨1⟩ [.integer 2, .boolean false]⟩,
    ⟨⟨.boolean, 1⟩, .boolean true, .hash ⟨2⟩ []⟩]

/-- It is plain: its names are an integer and a truth value, in the order of their keys. -/
theorem plain_nestedValue : nestedValue.Plain := by
  refine .hash ⟨0⟩ (fun digest => ⟨?_, ?_⟩) ?_ ?_
  · exact List.pairwise_pair.mpr (by decide)
  · exact List.forall_mem_cons.mpr ⟨rfl, List.forall_mem_singleton.mpr rfl⟩
  · exact List.forall_mem_cons.mpr ⟨.inl rfl, List.forall_mem_singleton.mpr (.inr rfl)⟩
  · refine List.forall_mem_cons.mpr ⟨.array ⟨1⟩ ?_,
      List.forall_mem_singleton.mpr (.hash ⟨2⟩ (fun _ => .nil) ?_ ?_)⟩
    · exact List.forall_mem_cons.mpr ⟨.integer 2, List.forall_mem_singleton.mpr (.boolean false)⟩
    · exact fun _ hmem => absurd hmem List.not_mem_nil
    · exact fun _ hmem => absurd hmem List.not_mem_nil

/-- An array with the least integer in two places. -/
def leastTwice : Value := .array ⟨0⟩ [.integer Int64.minValue, .integer 1, .integer Int64.minValue]

/-- So is this one. -/
theorem plain_leastTwice : leastTwice.Plain :=
  .array ⟨0⟩ (List.forall_mem_cons.mpr ⟨.integer _, List.forall_mem_cons.mpr ⟨.integer _,
    List.forall_mem_singleton.mpr (.integer _)⟩⟩)

/-- The one is read back, the other rejected with two errors. -/
theorem inspect_reads_back_nestedValue :
    nestedValue.inspect = "\x7b-1: [2, false], true: \x7b\x7d\x7d" ∧
    (∃ token tree span, parse nestedValue.inspect = ⟨⟨[.expression token tree span]⟩, []⟩ ∧
      ∃ result next, result.equal nestedValue = true ∧
        execute bareSetup ⟨0⟩ ⟨[], []⟩ (.expression token tree span) default =
          .ok (some result) (Machine.issuing next default)) ∧
    leastTwice.inspect = "[-9223372036854775808, 1, -9223372036854775808]" ∧
    (parse leastTwice.inspect).errors.length = 2 := by
  refine ⟨by decide, ?_, by decide, ?_⟩
  · obtain ⟨token, tree, span, hparse, hruns⟩ :=
      (inspect_reads_back plain_nestedValue).1 (by decide)
    obtain ⟨result, next, hequal, hexecute, _⟩ := hruns bareSetup ⟨0⟩ ⟨[], []⟩ default
    exact ⟨token, tree, span, hparse, result, next, hequal, hexecute⟩
  · exact ((inspect_reads_back plain_leastTwice).2 (by decide)).2.2.1

end Scriptlet
