import Scriptlet.Proofs.Parser.Kept
import Scriptlet.Proofs.Token.Spelling

set_option autoImplicit false

/-!
# Nothing is dropped in silence

Component: the parser.  Specification: sections 4.2, 7 and 10.3: every failure shows in the list of
diagnostics, which is authoritative, and the tree is what is left.

A statement is left out of a tree only with an error: it, or one around it, has recorded an error
that is in no statement further inside (`nothing_dropped_silently`).  The same holds of all
productions, so that a conditional or a function is kept as long as what is wrong inside of it is
wrong inside of its statements.

That a parse never spends its budget is what makes every fault an error.

This file reads what is shown of calls (`Call.Candid`) for the parse of a text, where no budget is
spent.  The list of all statements of a tree, at any depth, is compared with the calls that have
read one: a statement that was read is in the tree unless a statement around it has failed, and a
statement has failed exactly if an error is its own.
-/

namespace Scriptlet

/-! ## Faults that are errors -/

/-- Where no budget is spent, the faults are errors. -/
theorem ownFaults_ne_nil_iff {events : List ParseEvent}
    (h : ∀ above, ¬ Happens .exhausted above events) :
    ownFaults events ≠ [] ↔ ownErrors events ≠ [] := by
  constructor
  · intro hfaults
    obtain ⟨fault, hfault⟩ := List.exists_mem_of_ne_nil _ hfaults
    obtain ⟨event, above, happens, henters, hmem⟩ := mem_gather.mp hfault
    cases event with
    | recorded error =>
      have herror : error ∈ ownErrors events :=
        mem_gather_of_happens happens henters List.mem_cons_self
      exact List.ne_nil_of_mem herror
    | exhausted => exact absurd happens (h above)
    | called call => exact absurd hmem List.not_mem_nil
  · intro herrors
    obtain ⟨error, herror⟩ := List.exists_mem_of_ne_nil _ herrors
    obtain ⟨event, above, happens, henters, hmem⟩ := mem_gather.mp herror
    cases event with
    | recorded other =>
      have hfault : .recorded other ∈ ownFaults events :=
        mem_gather_of_happens happens henters List.mem_cons_self
      exact List.ne_nil_of_mem hfault
    | exhausted => exact absurd hmem List.not_mem_nil
    | called call => exact absurd hmem List.not_mem_nil

/-! ## Whole programs -/

section

variable {budget : Nat} {tokens : List Token} {above : List Call} {call : Call}

/-- The run of a program is candid, whatever its tokens are. -/
theorem candidRun_accountWithin (budget : Nat) (tokens : List Token) :
    Traced.CandidRun False [] (fun statements => nodesOf (partsOfStatements statements))
      (accountWithin budget tokens) := by
  cases tokens with
  | nil =>
    have hempty : Traced.Candid False [] (fun tree => nodesOf (partsOfStatements tree))
      (pure []) := .pure id rfl
    exact hempty default
  | cons token rest => exact (Traced.allOwn budget).statements false _

/-- So is every call in it. -/
theorem candid_of_happens (h : Happens (.called call) above (accountWithin budget tokens).events) :
    call.Candid := (candidRun_accountWithin budget tokens).inner above call h

/-- A call fails exactly if it has an error of its own. -/
theorem result_eq_none_iff (hended : Ended tokens) (hbudget : leastBudget tokens ≤ budget)
    (h : Happens (.called call) above (accountWithin budget tokens).events) :
    call.result = none ↔ ownErrors call.events ≠ [] := by
  rw [(candid_of_happens h).fails_iff]
  exact ownFaults_ne_nil_iff fun _ inner =>
    not_happens_exhausted hended hbudget (h.trans inner)

end

/-- The same for the parse of a text. -/
theorem result_eq_none_iff_of_happens {text : String} {above : List Call} {call : Call}
    (h : Happens (.called call) above (account text).events) :
    call.result = none ↔ ownErrors call.events ≠ [] :=
  result_eq_none_iff (ended_tokenize text) (leastBudget_le_parseBudget _) h

/-- A tree has the statements and blocks that are kept in the account of its parse. -/
theorem nodesOf_parts_parse (text : String) :
    nodesOf (parse text).program.parts = kept (account text).events := by
  obtain ⟨statements, hstatements⟩ := exists_result_accountWithin (ended_tokenize text)
    (leastBudget_le_parseBudget (tokenize text))
  have hkeeps := (candidRun_accountWithin _ (tokenize text)).keeps statements hstatements
  have hresult : (account text).result = some statements := hstatements
  rw [parse_eq, hresult]
  exact hkeeps

/-- The statements of a program are those among its nodes. -/
theorem Program.allStatements_eq (program : Program) :
    program.allStatements = (nodesOf program.parts).filterMap Part.statement? := by
  unfold allStatements nodesOf
  rw [List.filterMap_filter]
  congr 1
  funext part
  cases part <;> rfl

/-- To be one of them is to be such a node. -/
theorem Program.mem_allStatements {program : Program} {tree : Statement} :
    tree ∈ program.allStatements ↔ .statement tree ∈ nodesOf program.parts := by
  rw [allStatements_eq, List.mem_filterMap]
  constructor
  · rintro ⟨part, hpart, htree⟩
    cases part with
    | statement other =>
      cases htree
      exact hpart
    | token => cases htree
    | block => cases htree
  · exact fun hpart => ⟨_, hpart, rfl⟩

/-- A statement that was read is in the tree, unless it is inside of one that has failed. -/
theorem mem_allStatements_or {text : String} {above : List Call} {start stop : ParseState}
    {tree : Statement} {events : List ParseEvent}
    (h : Happens (.called ⟨.statement, start, stop, some tree, events⟩) above
      (account text).events) :
    tree ∈ (parse text).program.allStatements ∨
      ∃ outer ∈ above, outer.production = .statement ∧ outer.result = none := by
  by_cases hlost : ∃ outer ∈ above, outer.isLost = true
  · obtain ⟨outer, houter, hlost⟩ := hlost
    obtain ⟨hstatement, hresult⟩ := Bool.and_eq_true_iff.mp hlost
    exact .inr ⟨outer, houter, of_decide_eq_true hstatement, Option.isNone_iff_eq_none.mp hresult⟩
  · refine .inl (Program.mem_allStatements.mpr ?_)
    rw [nodesOf_parts_parse]
    refine mem_gather_of_happens h (fun outer houter => ?_) List.mem_cons_self
    simpa using fun hlost' => hlost ⟨outer, houter, hlost'⟩

/-- The errors of a call are among all errors. -/
theorem errors_ne_nil_of_ownErrors {above : List Call} {call : Call} {events : List ParseEvent}
    (h : Happens (.called call) above events) (herrors : ownErrors call.events ≠ []) :
    errorsIn events ≠ [] := by
  obtain ⟨error, herror⟩ := List.exists_mem_of_ne_nil _ herrors
  obtain ⟨event, inner, happens, -, hmem⟩ := mem_gather.mp herror
  have hall : error ∈ errorsIn events :=
    mem_gather_of_happens (h.trans happens) (fun _ _ => rfl) hmem
  exact List.ne_nil_of_mem hall

/-- The account of a parse is one of what the parser does, and it ends with the tree and the errors
that the parse yields.  Every call in it fails exactly if an error is recorded in it that is in no
statement inside of it; otherwise what it has read holds just what was read inside of it, without
the statements that have failed and what is inside of them.  So does the tree: a statement that was
read is in it unless one around it has failed.  Where no error is recorded, every statement was read
and is in the tree. -/
theorem nothing_dropped_silently (text : String) :
    parse text = ⟨⟨(account text).result.getD []⟩, errorsIn (account text).events⟩ ∧
      (∀ above call, Happens (.called call) above (account text).events →
        call.Truthful ∧ (call.result = none ↔ ownErrors call.events ≠ []) ∧
          ∀ tree, call.result = some tree → ∃ given,
            nodesOf (call.production.inner tree) = given ++ kept call.events ∧
              (given ≠ [] → call.production = .extended ∨ call.production = .continued)) ∧
      nodesOf (parse text).program.parts = kept (account text).events ∧
      (∀ above start stop tree events,
        Happens (.called ⟨.statement, start, stop, some tree, events⟩) above
          (account text).events →
        tree ∈ (parse text).program.allStatements ∨
          ∃ outer ∈ above, outer.production = .statement ∧ outer.result = none) ∧
      ((parse text).errors = [] → ∀ above start stop result events,
        Happens (.called ⟨.statement, start, stop, result, events⟩) above (account text).events →
          ∃ tree, result = some tree ∧ tree ∈ (parse text).program.allStatements) := by
  refine ⟨parse_eq text, ?_, nodesOf_parts_parse text, fun _ _ _ _ _ => mem_allStatements_or, ?_⟩
  · intro above call happens
    exact ⟨truthful_of_happens happens, result_eq_none_iff_of_happens happens,
      (candid_of_happens happens).keeps⟩
  · intro herrors above start stop result events happens
    have hnone (call : Call) (above : List Call)
        (happens : Happens (.called call) above (account text).events) : call.result ≠ none := by
      intro hresult
      have herrors' := errors_ne_nil_of_ownErrors happens
        ((result_eq_none_iff_of_happens happens).mp hresult)
      rw [parse_eq] at herrors
      exact herrors' herrors
    cases result with
    | none => exact absurd rfl (hnone _ above happens)
    | some tree =>
      refine ⟨tree, rfl, (mem_allStatements_or happens).resolve_right ?_⟩
      rintro ⟨outer, houter, -, hresult⟩
      obtain ⟨above, happens⟩ := happens.exists_of_mem_above houter
      exact hnone outer above happens hresult

/-- The conditional is kept, and so is what can be read behind the broken binding in it. -/
example :
    ((parse "if (x) \x7b let 1; y \x7d").program.allStatements.map Statement.span,
      (parse "if (x) \x7b let 1; y \x7d").errors.map SyntaxError.span) =
        ([⟨0, 19⟩, ⟨13, 15⟩, ⟨16, 17⟩], [⟨13, 14⟩]) := by cbv

end Scriptlet
