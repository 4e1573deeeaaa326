import Mathlib.Data.List.DropRight
import Scriptlet.Proofs.Console.Conserved

set_option autoImplicit false

/-!
# What `readline` makes of a line

Component: the native function `readline`.  Specification: section 10.6, by which it strips the
trailing line terminator, and returns the empty text at the end of the input.

Input that is a text is read line by line (`textLines`): the bytes that end a line are those of line
feeds, and no other character has one of them.

`readline` leaves out more of a line than what ends it.  A line ends with a line feed, or with a
carriage return and a line feed, or at the end of the input (`withoutEnding`); what is returned is
also without the carriage returns before that (`lineRead`).

The specification speaks of the terminator only.  Here it is said exactly for which lines that is
what happens (`trimmed_eq_iff`): just those that do not have a carriage return before their ending.
On the others some of the line is lost, so that different lines are read alike
(`readline_loses_carriageReturn`).

Bytes and characters are kept apart.  The console splits bytes, the theorem speaks of the lines of a
text, and in the encoding no part of another character is the byte of a line feed
(`lineFeed_not_mem_utf8EncodeChar`), so that both split at the same places (`splitLines_encode`).
-/

namespace Scriptlet

/-! ## Lines of a text -/

/-- The lines that characters are made of: a line ends behind each line feed, and at the end. -/
def textLines : List Char → List (List Char)
  | [] => []
  | c :: rest =>
    if c = '\n' then [c] :: textLines rest
    else
      match textLines rest with
      | [] => [[c]]
      | line :: lines => (c :: line) :: lines

/-- A line without what ends it, which is a line feed, with the carriage return before it if there
is one. -/
def withoutEnding (line : List Char) : List Char :=
  if line.getLast? = some '\n' then
    let front := line.dropLast
    if front.getLast? = some '\r' then front.dropLast else front
  else line

/-- A line without what ends it, and without the carriage returns before that. -/
def trimmed (line : List Char) : List Char := (withoutEnding line).rdropWhile (· == '\r')

/-- What the call of `readline` with a number returns; behind the last line there are empty ones. -/
def lineRead (text : String) (number : Nat) : String :=
  String.ofList (trimmed ((textLines text.toList).getD number []))

/-- A line that ends with three carriage returns, and one that does not end with a line feed. -/
example : (textLines ['a', '\r', '\r', '\n', 'b', '\r']).map withoutEnding =
    [['a', '\r'], ['b', '\r']] := by decide

/-- Splitting loses no character and adds none. -/
theorem flatten_textLines (text : List Char) : (textLines text).flatten = text := by
  induction text with
  | nil => rfl
  | cons c rest ih =>
    rw [textLines]
    split
    · rw [List.flatten_cons, ih]
      rfl
    · generalize textLines rest = lines at ih
      cases lines with
      | nil => rw [← ih]; rfl
      | cons line lines => rw [← ih]; rfl

/-- Line feeds are at the end of lines only. -/
theorem exists_content_of_mem_textLines {text line : List Char} (h : line ∈ textLines text) :
    ∃ content, '\n' ∉ content ∧ (line = content ∨ line = content ++ ['\n']) := by
  induction text generalizing line with
  | nil => cases h
  | cons c rest ih =>
    rw [textLines] at h
    split at h
    next hc =>
      rcases List.mem_cons.mp h with rfl | h
      · exact ⟨[], List.not_mem_nil, .inr (by rw [hc]; rfl)⟩
      · exact ih h
    next hc =>
      have hfirst : ∀ {content : List Char}, '\n' ∉ content → '\n' ∉ c :: content := by
        intro content hcontent hmem
        rcases List.mem_cons.mp hmem with heq | hmem
        · exact hc heq.symm
        · exact hcontent hmem
      generalize hlines : textLines rest = lines at h ih
      cases lines with
      | nil =>
        rw [List.mem_singleton.mp h]
        exact ⟨[c], hfirst List.not_mem_nil, .inl rfl⟩
      | cons first lines =>
        rcases List.mem_cons.mp h with rfl | h
        · obtain ⟨content, hcontent, hends⟩ := ih List.mem_cons_self
          refine ⟨c :: content, hfirst hcontent, hends.imp ?_ ?_⟩ <;> rintro rfl <;> rfl
        · exact ih (List.mem_cons_of_mem _ h)

/-! ## What is left of a line -/

/-- A line that no line feed ends is taken as it is. -/
theorem withoutEnding_of_not_mem {line : List Char} (h : '\n' ∉ line) : withoutEnding line = line :=
  if_neg fun hlast => h (List.mem_of_getLast? hlast)

/-- One that a line feed ends loses it, and one carriage return before it. -/
theorem withoutEnding_append_lineFeed (content : List Char) :
    withoutEnding (content ++ ['\n']) =
      if content.getLast? = some '\r' then content.dropLast else content := by
  simp [withoutEnding]

/-- Whether there is one more carriage return makes no difference. -/
theorem rdropWhile_dropLast {content : List Char} (h : content.getLast? = some '\r') :
    content.dropLast.rdropWhile (· == '\r') = content.rdropWhile (· == '\r') := by
  obtain ⟨front, rfl⟩ := List.getLast?_eq_some_iff.mp h
  rw [List.dropLast_concat, List.rdropWhile_concat_pos _ _ _ rfl]

/-- Where there are no line feeds, only carriage returns are dropped. -/
theorem rdropWhile_eq_of_not_mem {content : List Char} (h : '\n' ∉ content) :
    content.rdropWhile (fun c => c == '\n' || c == '\r') = content.rdropWhile (· == '\r') := by
  induction content using List.reverseRecOn with
  | nil => rfl
  | append_singleton front c ih =>
    have hc : c ≠ '\n' := by
      rintro rfl
      simp at h
    by_cases hreturn : c = '\r'
    · rw [List.rdropWhile_concat_pos _ _ _ (by simp [hreturn]),
        List.rdropWhile_concat_pos _ _ _ (by simp [hreturn]),
        ih fun hmem => h (List.mem_append_left _ hmem)]
    · rw [List.rdropWhile_concat_neg _ _ _ (by simp [hreturn, hc]),
        List.rdropWhile_concat_neg _ _ _ (by simp [hreturn])]

/-- Of a line there is left what `trimmed` says. -/
theorem dropLineEnd_of_mem_textLines {text line : List Char} (h : line ∈ textLines text) :
    dropLineEnd (String.ofList line) = String.ofList (trimmed line) := by
  have hdrop : dropLineEnd (String.ofList line) =
      String.ofList (line.rdropWhile fun c => c == '\n' || c == '\r') := by
    rw [dropLineEnd, String.toList_ofList]
    rfl
  rw [hdrop, trimmed]
  obtain ⟨content, hcontent, rfl | rfl⟩ := exists_content_of_mem_textLines h
  · rw [withoutEnding_of_not_mem hcontent, rdropWhile_eq_of_not_mem hcontent]
  · rw [withoutEnding_append_lineFeed, List.rdropWhile_concat_pos _ _ _ rfl,
      rdropWhile_eq_of_not_mem hcontent]
    split
    next hlast => rw [rdropWhile_dropLast hlast]
    · rfl

/-- A line is returned with everything but its ending just if no carriage return stands before
that. -/
theorem trimmed_eq_iff (line : List Char) :
    trimmed line = withoutEnding line ↔ (withoutEnding line).getLast? ≠ some '\r' := by
  rw [trimmed, List.rdropWhile_eq_self_iff]
  constructor
  · intro h hlast
    obtain ⟨front, hfront⟩ := List.getLast?_eq_some_iff.mp hlast
    have hne : withoutEnding line ≠ [] := by rw [hfront]; simp
    exact h hne (by simp [hfront])
  · intro h hne hreturn
    exact h (by rw [List.getLast?_eq_some_getLast hne, beq_iff_eq.mp hreturn])

/-! ## Bytes of a text -/

/-- A text is encoded character by character. -/
theorem Text.encode_ofList (text : List Char) :
    Text.encode (String.ofList text) = text.flatMap String.utf8EncodeChar := by
  rw [Text.encode, String.toUTF8_eq_toByteArray, String.toByteArray_ofList, List.utf8Encode,
    List.data_toByteArray]

/-- What is encoded can be decoded. -/
theorem Text.decode?_encode (text : String) : Text.decode? (Text.encode text) = some text := by
  have hbytes : (⟨(Text.encode text).toArray⟩ : ByteArray) = text.toByteArray := rfl
  rw [Text.decode?, hbytes, String.fromUTF8?, dif_pos text.isValidUTF8]
  rfl

/-- No byte of another character is taken for a line feed. -/
theorem lineFeed_not_mem_utf8EncodeChar {c : Char} (h : c ≠ '\n') :
    Console.lineFeed ∉ String.utf8EncodeChar c := by
  have hnot : c.val.toNat ≠ 10 := fun heq => h (Char.ext (UInt32.toNat_inj.mp heq))
  have hbyte : ∀ {n : Nat}, n % 256 ≠ 10 → Console.lineFeed ≠ UInt8.ofNat n := by
    intro n hn heq
    apply hn
    rw [← UInt8.toNat_ofNat', ← heq]
    rfl
  unfold String.utf8EncodeChar
  dsimp only
  split
  · exact fun hmem => hbyte (by omega) (List.mem_singleton.mp hmem)
  · split
    · simp only [List.mem_cons, List.not_mem_nil, or_false, not_or]
      exact ⟨hbyte (by omega), hbyte (by omega)⟩
    · split <;> simp only [List.mem_cons, List.not_mem_nil, or_false, not_or]
      · exact ⟨hbyte (by omega), hbyte (by omega), hbyte (by omega)⟩
      · exact ⟨hbyte (by omega), hbyte (by omega), hbyte (by omega), hbyte (by omega)⟩

/-- Bytes without a line feed are the front of the first line. -/
theorem splitLines_append {front : List UInt8} (hfront : front ≠ [])
    (free : Console.lineFeed ∉ front) (rest : List UInt8) :
    splitLines (front ++ rest) =
      match splitLines rest with
      | [] => [front]
      | line :: lines => (front ++ line) :: lines := by
  induction front with
  | nil => exact absurd rfl hfront
  | cons byte front ih =>
    have hbyte : byte ≠ Console.lineFeed := fun heq => free (heq ▸ List.mem_cons_self)
    rw [List.cons_append, splitLines, if_neg hbyte]
    by_cases hmore : front = []
    · subst hmore
      rfl
    · rw [ih hmore fun hmem => free (List.mem_cons_of_mem _ hmem)]
      cases splitLines rest <;> rfl

/-- The lines of the bytes of a text are the bytes of its lines. -/
theorem splitLines_encode (text : List Char) :
    splitLines (Text.encode (String.ofList text)) =
      (textLines text).map fun line => Text.encode (String.ofList line) := by
  simp only [Text.encode_ofList]
  induction text with
  | nil => rfl
  | cons c rest ih =>
    rw [List.flatMap_cons, textLines]
    split
    next hc =>
      subst hc
      exact congrArg (List.cons _) ih
    next hc =>
      rw [splitLines_append String.utf8EncodeChar_ne_nil (lineFeed_not_mem_utf8EncodeChar hc), ih]
      cases textLines rest with
      | nil => simp
      | cons line lines => simp

/-! ## Readings -/

/-- Whether some input is made of some lines of text. -/
def HasLines (input : List UInt8) (lines : List (List Char)) : Prop :=
  splitLines input = lines.map fun line => Text.encode (String.ofList line)

/-- The bytes of a text have its lines. -/
theorem HasLines.of_encode (text : String) :
    HasLines (Text.encode text) (textLines text.toList) := by
  have hlines := splitLines_encode text.toList
  rwa [String.ofList_toList] at hlines

/-- The next line is the first of them. -/
theorem HasLines.splitLine {input : List UInt8} {lines : List (List Char)}
    (h : HasLines input lines) :
    (Console.splitLine input).1 = Text.encode (String.ofList (lines.headD [])) ∧
      HasLines (Console.splitLine input).2 lines.tail := by
  by_cases hempty : input = []
  · subst hempty
    obtain rfl := List.map_eq_nil_iff.mp h.symm
    exact ⟨rfl, rfl⟩
  · rw [HasLines, splitLines_eq_cons hempty] at h
    cases lines with
    | nil => cases h
    | cons line lines => exact ⟨(List.cons.inj h).1, (List.cons.inj h).2⟩

/-- So the next line is read as a text. -/
theorem HasLines.readLine {console : Console} {lines : List (List Char)}
    (h : HasLines console.input lines) :
    console.readLine.1 = .ok (String.ofList (lines.headD [])) := by
  simp only [Console.readLine, h.splitLine.1, Text.decode?_encode]

/-- How a call of `readline` has ended that is not rejected for its arguments, if a request is
one: with a value, or without. -/
def reading? : (request : Request) → request.Reply → Option (Option Value)
  | .native _ .readline [] _, .ok value _ => some (some value)
  | .native _ .readline [] _, .error .. => some none
  | .native .., _ | .write _, _ | .flush, _ | .line, _ => none

/-- How the calls of `readline` end in the dialogue with a console, in order. -/
def Dialogue.readings {ρ : Type} : Dialogue ρ → Console → List (Option Value)
  | .ended _, _ => []
  | .ask request next, console =>
    match request.answer console with
    | (reply, console) => (reading? request reply).toList ++ (next reply).readings console

/-- A call of `readline` returns the next line, trimmed.  No other request takes a line, but for one
by the host. -/
theorem HasLines.answer {request : Request} {console : Console} {lines : List (List Char)}
    (h : HasLines console.input lines) (hrequest : request ≠ .line) :
    (reading? request (request.answer console).1 =
        some (some (.string (dropLineEnd (String.ofList (lines.headD []))))) ∧
      HasLines (request.answer console).2.input lines.tail) ∨
    (reading? request (request.answer console).1 = none ∧
      HasLines (request.answer console).2.input lines) := by
  have hinput := request.input_answer console
  cases request with
  | line => exact absurd rfl hrequest
  | write text => exact .inr ⟨rfl, h⟩
  | flush => exact .inr ⟨rfl, h⟩
  | native files operation arguments machine =>
    rcases Request.native_cases files operation arguments with rfl | ⟨rfl, rfl⟩ | ⟨_, hreads⟩
    · exact .inr ⟨rfl, hinput ▸ h⟩
    · refine .inl ⟨?_, (hinput.trans (if_pos rfl)) ▸ h.splitLine.2⟩
      rw [Request.answer_readline, h.readLine]
      rfl
    · rw [hreads machine] at hinput
      refine .inr ⟨?_, hinput ▸ h⟩
      cases operation with
      | readline =>
        cases arguments with
        | nil => cases hreads machine
        | cons => rfl
      | len | first | last | rest | push | puts | readfile => rfl

/-- The calls of `readline` in a dialogue return the lines, one after the other, and then empty
ones. -/
theorem Dialogue.readings_of_hasLines {ρ : Type} {dialogue : Dialogue ρ} {console : Console}
    {lines : List (List Char)} (h : HasLines console.input lines)
    (only : ∀ exchange ∈ dialogue.trace console, exchange.request ≠ .line) {number : Nat}
    {reading : Option Value} (hreading : (dialogue.readings console)[number]? = some reading) :
    reading = some (.string (dropLineEnd (String.ofList (lines.getD number [])))) := by
  induction dialogue generalizing console lines number with
  | ended result => cases hreading
  | ask request next ih =>
    obtain ⟨hrequest, honly⟩ := List.forall_mem_cons.mp only
    have hreadings : (Dialogue.ask request next).readings console =
        (reading? request (request.answer console).1).toList ++
          (next (request.answer console).1).readings (request.answer console).2 := rfl
    rw [hreadings] at hreading
    rcases h.answer hrequest with ⟨hfirst, hrest⟩ | ⟨hnone, hrest⟩
    · rw [hfirst] at hreading
      cases number with
      | zero =>
        rw [← Option.some.inj hreading]
        cases lines <;> rfl
      | succ number =>
        rw [ih _ hrest honly hreading]
        cases lines <;> rfl
    · rw [hnone] at hreading
      exact ih _ hrest honly hreading

/-- Of the lines of a text there is left what `lineRead` says. -/
theorem dropLineEnd_getD (text : String) (number : Nat) :
    dropLineEnd (String.ofList ((textLines text.toList).getD number [])) =
      lineRead text number := by
  rw [lineRead, List.getD_eq_getElem?_getD]
  cases hline : (textLines text.toList)[number]? with
  | none => rfl
  | some line => exact dropLineEnd_of_mem_textLines (List.mem_of_getElem? hline)

/-- Whether the calls of `readline` in a computation return the lines of a text, trimmed, if nobody
else asks for a line.  There is a dialogue that leads it, making allowed requests only, and whatever
dialogue leads it, all calls of `readline` in it return, the first of them the first line, and so
on, and after the last line nothing. -/
structure ReadsLines (allowed : Request → Prop) (bound : ℕ∞) {ε σ α : Type} [HasConsole σ]
    (run : EStateM ε σ α) : Prop where
  talks : Talks allowed bound run
  reads : ∀ (state : σ) (dialogue : Dialogue (EStateM.Result ε σ α)),
    dialogue.Leads bound run state → ∀ (console : Console) (text : String),
      console.input = Text.encode text → (console.input.length : ℕ∞) ≤ bound →
      (∀ exchange ∈ dialogue.trace console, exchange.request ≠ .line) →
      ∀ (number : Nat) (reading : Option Value),
        (dialogue.readings console)[number]? = some reading →
          reading = some (.string (lineRead text number))

/-- Every dialogue reads the lines in order. -/
theorem Talks.readsLines {allowed : Request → Prop} {bound : ℕ∞} {ε σ α : Type} [HasConsole σ]
    {run : EStateM ε σ α} (h : Talks allowed bound run) : ReadsLines allowed bound run where
  talks := h
  reads := fun state dialogue _ console text hinput _ only number reading hreading => by
    have hlines : HasLines console.input (textLines text.toList) := hinput ▸ .of_encode text
    rw [Dialogue.readings_of_hasLines hlines only hreading, dropLineEnd_getD]

/-- What `readline` returns, whatever is read by nothing else, and whatever text it is.  The call
with a number returns the line of the text with this number, without what ends it and without the
carriage returns before that; behind the last line it returns the empty string.  So it returns the
line without just what ends it if and only if no carriage return stands before that. -/
theorem readline_trims (setup : Setup) (frame : FrameId) (roots : Roots) (bytes : Nat)
    (text : String) :
    ((∀ expression, ReadsLines (fun request => request.isNative = true) ⊤
        (evalExpression setup (invokeWithin setup setup.callDepth) frame roots expression)) ∧
      (∀ statement, ReadsLines (fun request => request.isNative = true) ⊤
        (execute setup frame roots statement)) ∧
      (∀ program, ReadsLines (fun request => request.isNative = true) ⊤
        (modifyGet (runProgram setup frame roots program) : Eval Outcome)) ∧
      ∀ callee arguments, ReadsLines (fun request => request.isNative = true) ⊤
        (applyCallable setup roots callee arguments)) ∧
    (∀ commands : List Command, ReadsLines (fun _ => True) bytes
      (modifyGet (Session.performAll commands) : Step (List (Except Mistake Answer)))) ∧
    (textLines text.toList).flatten = text.toList ∧
      ∀ number : Nat,
        let kept := withoutEnding ((textLines text.toList).getD number [])
        lineRead text number = String.ofList (kept.rdropWhile (· == '\r')) ∧
        (lineRead text number = String.ofList kept ↔ kept.getLast? ≠ some '\r') := by
  refine ⟨⟨fun expression => ?_, fun statement => ?_, fun program => ?_,
    fun callee arguments => ?_⟩, fun commands => ?_, flatten_textLines text.toList,
    fun number => ⟨rfl, ?_⟩⟩
  · exact (talks_expression (onlyCalls_invokeWithin setup _) expression frame roots).readsLines
  · exact (talks_execute setup frame roots statement).readsLines
  · exact (talks_runProgram setup frame roots program).readsLines
  · exact (talks_applyCallable setup roots callee arguments).readsLines
  · exact (speaks_performAll bytes commands).readsLines
  · rw [lineRead, String.ofList_inj]
    exact trimmed_eq_iff _

/-- A setup without files. -/
def fileless : Setup := .standard ⟨fun _ => false, fun _ => .error .notFound⟩ 1

/-- A machine before anything has been evaluated. -/
def unused : Machine := .ofConsole (.ofInput [])

/-- The dialogue of a call of `readline` from the host. -/
def readsOnce : Dialogue (EStateM.Result Halt Machine Value) :=
  .ask (.native fileless.files .readline [] unused) .ended

/-- It is the dialogue of that call. -/
theorem leads_readsOnce : readsOnce.Leads ⊤
    (applyCallable fileless ⟨[], []⟩ (.builtin ⟨"readline", .readline⟩) []) unused := by
  intro console _
  simp only [readsOnce, Dialogue.run, Request.answer]
  change Intrinsic.readline.run fileless.files [] (HasConsole.put console unused) = _
  cases Intrinsic.readline.run fileless.files [] (HasConsole.put console unused) <;> rfl

/-- Of a line with two carriage returns before the line feed there is left what stands before
them. -/
theorem readline_trims_once :
    (readsOnce.readings (.ofInput (Text.encode "a\r\r\nb")))[0]? = some (some (.string "a")) ∧
    lineRead "a\r\r\nb" 0 = "a" ∧ lineRead "a\r\r\nb" 1 = "b" := by
  have hcall := (readline_trims fileless ⟨0⟩ ⟨[], []⟩ 0 "a\r\r\nb").1.2.2.2
    (.builtin ⟨"readline", .readline⟩) []
  have honly : ∀ exchange ∈ readsOnce.trace (.ofInput (Text.encode "a\r\r\nb")),
      exchange.request ≠ .line := by
    intro exchange hmem
    rw [List.mem_singleton.mp hmem]
    exact Request.noConfusion
  obtain ⟨reading, hreading⟩ : ∃ reading,
      (readsOnce.readings (.ofInput (Text.encode "a\r\r\nb")))[0]? = some reading := ⟨_, rfl⟩
  have hline := hcall.reads unused readsOnce leads_readsOnce (.ofInput (Text.encode "a\r\r\nb"))
    "a\r\r\nb" rfl le_top honly 0 reading hreading
  have hfirst : lineRead "a\r\r\nb" 0 = "a" := by decide
  exact ⟨by rw [hreading, hline, hfirst], hfirst, by decide⟩

/-- A carriage return that is part of what a line holds is lost, so that lines that are not the same
are read alike. -/
theorem readline_loses_carriageReturn :
    let call : Expression := .call default (.identifier ⟨⟨.identifier, "readline", default⟩⟩) []
    let read := fun text : String =>
      evalExpression fileless (invokeWithin fileless 1) ⟨0⟩ ⟨[], []⟩ call
        (.ofConsole (.ofInput (Text.encode text)))
    (∃ after, read "a\r\r\n" = .ok (.string "a") after) ∧
    (∃ after, read "a\r\n" = .ok (.string "a") after) ∧
    (textLines "a\r\r\n".toList).map withoutEnding = [['a', '\r']] ∧
    (textLines "a\r\n".toList).map withoutEnding = [['a']] := by
  refine ⟨⟨_, rfl⟩, ⟨_, rfl⟩, by decide, by decide⟩

end Scriptlet
