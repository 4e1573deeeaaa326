import Scriptlet.Proofs.Layout.Insert
import Scriptlet.Proofs.Layout.Parse
import Scriptlet.Proofs.Layout.Run

set_option autoImplicit false

/-!
# Layout never matters

Component: all, from the scanner to the evaluator.  Specification: section 8, by which what is
written of a tree is independent of the spacing of the source, and section 4.1, by which layout
separates tokens and belongs to none.

Texts that differ in layout and comments only have tokens with the same kinds and literals.  From
there on nothing but spans differs: neither the programs that they are parsed as, nor the wording
of their errors, nor what the programs do.  Where spans differ, they are those of tokens or of
statements with the same place in either text.

Three facts are put together here: tokens with the same spellings are parsed alike, programs that
are the same but for spans run alike, and layout around tokens does not change spellings.  Where an
error is shown is told by the place of its token or of its statement, by number, since the spans
differ.

A setup decides when collections are due.  It is asked to do so without looking at spans
(`Setup.BlindTo`), which the usual one does, as it looks at the number of frames.
-/

namespace Scriptlet

/-- The tokens at the same places of two lists, whose spans are forgotten. -/
def Correspondence.forget (tokens others : List Token) : Correspondence where
  tokens span span' := ∃ (place : Nat) (token other : Token), tokens[place]? = some token ∧
    others[place]? = some other ∧ span = token.span ∧ span' = other.span
  left _ := default
  right _ := default
  agree _ _ _ := rfl
  left_cover _ _ := (Span.cover_self _).symm
  right_cover _ _ := (Span.cover_self _).symm

/-- Tokens with the same spellings are at the same places. -/
theorem corresponds_of_spellings {tokens others : List Token}
    (h : tokens.map Token.spelling = others.map Token.spelling) :
    List.Forall₂ (Token.Corresponds (.forget tokens others)) tokens others := by
  apply List.forall₂_iff_get.mpr
  constructor
  · simpa using congrArg List.length h
  · intro place hplace hplace'
    have hspelling : (tokens.map Token.spelling)[place]? = (others.map Token.spelling)[place]? :=
      congrArg (·[place]?) h
    simp only [List.getElem?_map, List.getElem?_eq_getElem hplace,
      List.getElem?_eq_getElem hplace', Option.map_some, Option.some.injEq] at hspelling
    obtain ⟨hkind, hliteral⟩ := Prod.mk.inj hspelling
    exact ⟨hkind, hliteral, place, _, _, List.getElem?_eq_getElem hplace,
      List.getElem?_eq_getElem hplace', rfl, rfl⟩

/-- Whether two errors of two texts are shown in the same words, at tokens with the same place. -/
structure SyntaxError.AlikeIn (text other : String) (error error' : SyntaxError) : Prop where
  kind : error.diagnostic.kind = error'.diagnostic.kind
  message : error.diagnostic.message = error'.diagnostic.message
  help : error.diagnostic.help = error'.diagnostic.help
  place : ∃ (place : Nat) (token token' : Token), (tokenize text)[place]? = some token ∧
    (tokenize other)[place]? = some token' ∧ error.diagnostic.span = token.span ∧
    error'.diagnostic.span = token'.span

/-- What a program prints of how it ended: its value, if it has one, or its error. -/
def Outcome.printed : Outcome → Option String
  | .finished value => value.map Value.inspect
  | .failed error => some error.fault.message
  | .exhausted => none

/-- Whether two programs ended alike and left alike machines. -/
structure RunsAlike (program other : Program) (ending ending' : Outcome × Machine) : Prop where
  outcome : EndsAlike program.statements other.statements ending.1 ending'.1
  printed : ending.1.printed = ending'.1.printed
  console : ending.2.console = ending'.2.console
  bindings : ∀ id name, (ending.2.heap.lookup id name).map Value.inspect =
    (ending'.2.heap.lookup id name).map Value.inspect
  machine : ending.2.plain = ending'.2.plain

/-- Programs that ended alike print the same. -/
theorem EndsAlike.printed {statements others : List Statement} {outcome outcome' : Outcome}
    (h : EndsAlike statements others outcome outcome') : outcome.printed = outcome'.printed := by
  cases h with
  | @finished value value' h =>
    cases value with
    | none =>
      obtain rfl := Option.map_eq_none_iff.mp h.symm
      rfl
    | some value =>
      obtain ⟨value', rfl, hsame⟩ := Option.map_eq_some_iff.mp h.symm
      exact congrArg some (Value.inspect_eq_of_plain_eq hsame.symm)
  | failed | exhausted => rfl

/-- Bindings are printed alike in machines that are the same but for spans. -/
theorem Machine.inspect_lookup {machine other : Machine} (h : machine.plain = other.plain)
    (id : FrameId) (name : String) :
    (machine.heap.lookup id name).map Value.inspect =
      (other.heap.lookup id name).map Value.inspect := by
  have hprinted (machine : Machine) : (machine.plain.heap.lookup id name).map Value.inspect =
      (machine.heap.lookup id name).map Value.inspect := by
    have hlookup : machine.plain.heap.lookup id name =
        (machine.heap.lookup id name).map Value.plain := Heap.lookup_mapSpans _ _ _ _
    rw [hlookup, Option.map_map]
    congr 1
    funext value
    exact Value.inspect_mapSpans _ value
  rw [← hprinted, h, hprinted]

/-- Layout never matters.  Texts with the same kinds and literals of tokens are parsed as programs
that are the same but for spans, with errors in the same words at tokens with the same places; and
the programs do the same on the same machines.  Layout before a token, or behind one that is not a
string without its closing quote, does not change the kinds and literals of tokens. -/
theorem layout_never_matters :
    (∀ text other : String,
      (tokenize text).map Token.spelling = (tokenize other).map Token.spelling →
      (parse text).program.plain = (parse other).program.plain ∧
      (parse text).program.render = (parse other).program.render ∧
      List.Forall₂ (SyntaxError.AlikeIn text other) (parse text).errors (parse other).errors ∧
      ∀ setup : Setup, (setup.BlindTo fun _ => default) →
        ∀ (frame : FrameId) (roots roots' : Roots) (machine machine' : Machine),
          roots.plain = roots'.plain → machine.plain = machine'.plain →
          RunsAlike (parse text).program (parse other).program
            (runProgram setup frame roots (parse text).program machine)
            (runProgram setup frame roots' (parse other).program machine')) ∧
    ∀ (text layout : String) (token : Token), (∀ c ∈ layout.toList, isLayout c = true) →
      token ∈ tokenize text → token.kind ≠ .eof →
      (tokenize (insertLayout text token.span.start layout)).map Token.spelling =
          (tokenize text).map Token.spelling ∧
        (token.unclosed = false →
          (tokenize (insertLayout text token.span.stop layout)).map Token.spelling =
            (tokenize text).map Token.spelling) := by
  constructor
  · intro text other h
    obtain ⟨hplain, herrors⟩ := parseTokens_corresponds (corresponds_of_spellings h)
    have hprogram : (parse text).program.plain = (parse other).program.plain := hplain
    refine ⟨hprogram, Program.render_eq_of_plain_eq hprogram, ?_, ?_⟩
    · apply herrors.imp
      intro error error' halike
      obtain ⟨span, fault⟩ := error
      obtain ⟨span', fault'⟩ := error'
      obtain rfl : fault = fault' := halike.fault
      exact ⟨rfl, rfl, rfl, halike.span⟩
    · intro setup hblind frame roots roots' machine machine' hroots hmachine
      obtain ⟨hends, hmachines⟩ := runProgram_alike frame hblind hprogram hroots hmachine
      refine ⟨hends, hends.printed, ?_, Machine.inspect_lookup hmachines, hmachines⟩
      have hconsole := congrArg Machine.console hmachines
      exact hconsole
  · exact fun text layout token hlayout hmem hkind => spellings_insertLayout hlayout hmem hkind

/-- A text that makes a function, calls it and goes wrong, with an error at its end. -/
def tight : String := "let f=fn(x)\x7bputs(x);x/2\x7d;f(8)+f;let"

/-- The same with layout and comments. -/
def loose : String :=
  "// halves\nlet f = fn ( x )\t\x7b\r\n  puts ( x ) ; x / 2 // half of it\n\x7d ;\n\n" ++
    "f(8) + f;\nlet // what?"

/-- The usual setup without files. -/
def Setup.alone : Setup := .standard (FileTable.toFiles []) 100

/-- A machine with one frame. -/
def Machine.fresh : Machine := ⟨(Heap.empty.newFrame none).2, .ofInput [], []⟩

/-- The two texts run alike, and layout at either end of a name changes neither. -/
theorem layout_never_matters_tight :
    (tokenize tight).map Token.spelling = (tokenize loose).map Token.spelling ∧
    (Setup.alone.BlindTo fun _ => default) ∧
    RunsAlike (parse tight).program (parse loose).program
      (runProgram .alone ⟨0⟩ ⟨[⟨0⟩], []⟩ (parse tight).program .fresh)
      (runProgram .alone ⟨0⟩ ⟨[⟨0⟩], []⟩ (parse loose).program .fresh) ∧
    (tokenize (insertLayout tight 4 " \n")).map Token.spelling =
      (tokenize tight).map Token.spelling ∧
    (tokenize (insertLayout tight 5 " \n")).map Token.spelling =
      (tokenize tight).map Token.spelling := by
  have hspellings : (tokenize tight).map Token.spelling =
      (tokenize loose).map Token.spelling := by decide +kernel
  have hblind : Setup.alone.BlindTo fun _ => default := Setup.blindTo_standard _ _ _
  obtain ⟨_, _, _, hruns⟩ := layout_never_matters.1 tight loose hspellings
  have hname : (⟨.identifier, "f", ⟨4, 5⟩⟩ : Token) ∈ tokenize tight := by decide +kernel
  have hall : " \n".toList.all isLayout = true := by decide +kernel
  obtain ⟨hstart, hstop⟩ :=
    layout_never_matters.2 tight " \n" _ (List.all_eq_true.mp hall) hname TokenKind.noConfusion
  exact ⟨hspellings, hblind, hruns _ hblind ⟨0⟩ _ _ _ _ rfl rfl, hstart, hstop rfl⟩

end Scriptlet
