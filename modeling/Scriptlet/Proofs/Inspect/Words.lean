import Scriptlet.Proofs.Hash.Keyed
import Scriptlet.Proofs.Render.Reread
import Scriptlet.Value.Inspect

set_option autoImplicit false

/-!
# The words of plain values

Component: the object model and the scanner.  Specification: section 10.5 for the printed forms,
section 4.1 for their tokens.

A value is *plain* if it is made of integers, truth values, arrays, and hashes with integers and
truth values as names.  The text of a plain value is read as certain words, whatever comes behind
that neither a letter nor a digit starts (`Value.Plain.spells`).

A number below zero is written as two words, its digits behind a minus.  The digits of the least
integer are the only ones that write no integer (`integerLiteral?_repr`), and they are among the
words as often as that integer is in the value (`leastCount_words`).

Whether a hash is plain does not depend on the digest that keys strings, as its names are integers
and truth values; it is stated of every digest for that reason.

The words are told by recursion on the value, with brackets around arrays and hashes and commas
between their parts (`Value.words`), and so are its integers (`Value.integers`).  The count of the
least integer goes along both at once.
-/

namespace Scriptlet

/-! ## Plain values -/

/-- Whether a value is made of integers, truth values, arrays and hashes.  Hashes are indexed, by
integers and truth values, and so for every digest. -/
inductive Value.Plain : Value → Prop where
  | integer (n : Int64) : Plain (.integer n)
  | boolean (b : Bool) : Plain (.boolean b)
  | array (id : ObjectId) {elements : List Value} (plain : ∀ element ∈ elements, Plain element) :
      Plain (.array id elements)
  | hash (id : ObjectId) {entries : List Entry} (indexed : ∀ digest, Indexed digest entries)
      (names : ∀ entry ∈ entries, entry.name.type = .integer ∨ entry.name.type = .boolean)
      (plain : ∀ entry ∈ entries, Plain entry.value) : Plain (.hash id entries)

/-- Integers and truth values are plain. -/
theorem Value.Plain.of_type {value : Value} (h : value.type = .integer ∨ value.type = .boolean) :
    value.Plain := by
  cases value with
  | integer n => exact .integer n
  | boolean b => exact .boolean b
  | null | string | array | hash | function | builtin => rcases h with h | h <;> cases h

mutual

/-- The integers in a value, in the order in which they are written. -/
def Value.integers : Value → List Int64
  | .integer n => [n]
  | .array _ elements => integersOfValues elements
  | .hash _ entries => integersOfEntries entries
  | .null | .boolean _ | .string _ | .function _ _ _ | .builtin _ => []

/-- The integers in some values. -/
def integersOfValues : List Value → List Int64
  | [] => []
  | value :: rest => value.integers ++ integersOfValues rest

/-- The integers in some entries. -/
def integersOfEntries : List Entry → List Int64
  | [] => []
  | entry :: rest => entry.integers ++ integersOfEntries rest

/-- The integers in the name and the value of an entry. -/
def Entry.integers : Entry → List Int64
  | ⟨_, name, value⟩ => name.integers ++ value.integers

end

/-! ## Their words -/

/-- Some lists of words with a comma between them. -/
def joined : List (List (TokenKind × String)) → List (TokenKind × String)
  | [] => []
  | [words] => words
  | words :: rest => words ++ TokenKind.comma.mark :: joined rest

/-- The word of some digits. -/
def digitsWord (n : Nat) : TokenKind × String := (.integer, n.repr)

/-- The words of an integer. -/
def integerWords (n : Int64) : List (TokenKind × String) :=
  if n.toInt < 0 then [TokenKind.minus.mark, digitsWord n.toInt.natAbs]
  else [digitsWord n.toInt.natAbs]

/-- The word of a truth value. -/
def booleanWord : Bool → TokenKind × String
  | true => (.trueWord, "true")
  | false => (.falseWord, "false")

mutual

/-- The words of a value, if it is plain. -/
def Value.words : Value → List (TokenKind × String)
  | .integer n => integerWords n
  | .boolean b => [booleanWord b]
  | .array _ elements =>
    TokenKind.leftBracket.mark :: (joined (wordsOfValues elements) ++ [TokenKind.rightBracket.mark])
  | .hash _ entries =>
    TokenKind.leftBrace.mark :: (joined (wordsOfEntries entries) ++ [TokenKind.rightBrace.mark])
  | .null | .string _ | .function _ _ _ | .builtin _ => []

/-- The words of each of some values. -/
def wordsOfValues : List Value → List (List (TokenKind × String))
  | [] => []
  | value :: rest => value.words :: wordsOfValues rest

/-- The words of each of some entries. -/
def wordsOfEntries : List Entry → List (List (TokenKind × String))
  | [] => []
  | entry :: rest => entry.words :: wordsOfEntries rest

/-- The words of an entry. -/
def Entry.words : Entry → List (TokenKind × String)
  | ⟨_, name, value⟩ => name.words ++ TokenKind.colon.mark :: value.words

end

/-! ## Numbers -/

/-- How far from zero the least integer is, one more than the largest integer. -/
def leastMagnitude : Nat := 9223372036854775808

/-- The digits of the least integer. -/
def leastDigits : String := "9223372036854775808"

/-- Its digits are these. -/
theorem repr_leastMagnitude : leastMagnitude.repr = leastDigits := by decide

/-- Digits have the value that they are written for. -/
theorem decimalValue_repr (n : Nat) : decimalValue n.repr.toList = n := by
  rw [Nat.toList_repr]
  exact Nat.ofDigitChars_toDigits (by decide) (by decide)

/-- No other number has these digits. -/
theorem repr_eq_leastDigits_iff {n : Nat} : n.repr = leastDigits ↔ n = leastMagnitude := by
  constructor
  · intro h
    rw [← decimalValue_repr n, h, ← repr_leastMagnitude, decimalValue_repr]
  · rintro rfl
    exact repr_leastMagnitude

/-- Digits write an integer unless they are too many. -/
theorem integerLiteral?_repr (n : Nat) :
    integerLiteral? n.repr = if n < leastMagnitude then some (Int64.ofNat n) else none := by
  rw [integerLiteral?, decimalValue_repr]
  exact if_congr Nat.lt_succ_iff.symm rfl rfl

/-- No integer is further from zero. -/
theorem natAbs_toInt_le (n : Int64) : n.toInt.natAbs ≤ leastMagnitude := by
  have hlow := n.le_toInt
  have hhigh := n.toInt_lt
  unfold leastMagnitude
  omega

/-- Only the least integer is as far from zero as that. -/
theorem natAbs_toInt_eq_iff {n : Int64} :
    n.toInt.natAbs = leastMagnitude ↔ n = Int64.minValue := by
  have hhigh := n.toInt_lt
  have hleast : Int64.minValue.toInt = -9223372036854775808 := by decide
  constructor
  · intro h
    apply Int64.toInt_inj.mp
    unfold leastMagnitude at h
    omega
  · rintro rfl
    rw [hleast]
    rfl

/-- An integer is printed with a minus if it is below zero. -/
theorem integerText_eq (n : Int64) :
    integerText n =
      if n.toInt < 0 then "-" ++ n.toInt.natAbs.repr else n.toInt.natAbs.repr := by
  unfold integerText
  cases n.toInt with
  | ofNat m =>
    exact (if_neg (Int.not_lt.mpr (Int.natCast_nonneg m))).symm
  | negSucc m =>
    exact (if_pos (Int.negSucc_lt_zero m)).symm

/-! ## Texts and words -/

/-- Digits are one word. -/
theorem spells_digits (n : Nat) : Spells n.repr [digitsWord n] := by
  have hdigits : ∀ c ∈ n.repr.toList, c.isDigit = true := by
    intro c hmem
    rw [Nat.toList_repr] at hmem
    exact Nat.isDigit_of_mem_toDigits (by decide) (by decide) hmem
  have hword : Word .integer n.repr.toList n.repr.toList := by
    cases hchars : n.repr.toList with
    | nil =>
      rw [Nat.toList_repr] at hchars
      exact absurd hchars Nat.toDigits_ne_nil
    | cons c rest =>
      rw [hchars] at hdigits
      exact .integer hdigits
  exact @Token.spells_literal ⟨.integer, n.repr, default⟩ hword rfl

/-- An integer is printed as its words. -/
theorem spells_integer (n : Int64) : Spells (integerText n) (integerWords n) := by
  rw [integerText_eq, integerWords]
  split
  · intro rest hrest
    rw [String.toList_append]
    exact (spellings_mark rfl (by decide) _).trans
      (congrArg (List.cons _) (spells_digits n.toInt.natAbs rest hrest))
  · exact spells_digits n.toInt.natAbs

/-- Letters are a word. -/
theorem Word.of_isAlpha {c : Char} {rest : List Char} (h : (c :: rest).all Char.isAlpha = true) :
    Word (.ofWord (c :: rest)) (c :: rest) (c :: rest) :=
  .name fun other hmem => Text.isAlphabetic_of_isAlpha (List.all_eq_true.mp h other hmem)

/-- And so is a truth value. -/
theorem spells_boolean (b : Bool) : Spells (booleanText b) [booleanWord b] := by
  cases b with
  | true =>
    have hword : Word (.ofWord ['t', 'r', 'u', 'e']) ['t', 'r', 'u', 'e'] ['t', 'r', 'u', 'e'] :=
      .of_isAlpha rfl
    exact @Token.spells_literal ⟨.trueWord, "true", default⟩ hword rfl
  | false =>
    have hword : Word (.ofWord ['f', 'a', 'l', 's', 'e']) ['f', 'a', 'l', 's', 'e']
        ['f', 'a', 'l', 's', 'e'] := .of_isAlpha rfl
    exact @Token.spells_literal ⟨.falseWord, "false", default⟩ hword rfl

/-- A text with brackets around it. -/
theorem Spells.bracketed (first last : Char) {text whole : String}
    {words : List (TokenKind × String)} {opening closing : TokenKind} (h : Spells text words)
    (hwhole : whole.toList = first :: (text.toList ++ [last]))
    (hopening : TokenKind.ofChar? first = some opening ∧ first ≠ '=' ∧ first ≠ '!' ∧ first ≠ '/')
    (hclosing : TokenKind.ofChar? last = some closing ∧ last ≠ '=' ∧ last ≠ '!' ∧ last ≠ '/')
    (hlast : isWordChar last = false) :
    Spells whole (opening.mark :: (words ++ [closing.mark])) := by
  intro rest _
  rw [hwhole, List.cons_append, spellings_mark hopening.1 hopening.2, List.append_assoc,
    List.singleton_append, h _ (.cons hlast _), spellings_mark hclosing.1 hclosing.2]
  simp only [List.append_assoc, List.cons_append, List.nil_append]

/-- Texts with a comma and a space between them. -/
theorem spells_joined {texts : List String} {words : List (List (TokenKind × String))}
    (h : List.Forall₂ Spells texts words) : Spells (commaSeparated texts) (joined words) := by
  induction h with
  | nil => exact fun _ _ => rfl
  | cons hfirst hrest ih =>
    cases hrest with
    | nil => exact hfirst
    | cons => exact hfirst.comma ih

theorem wordsOfValues_eq_map (values : List Value) :
    wordsOfValues values = values.map Value.words := by
  induction values with
  | nil => rfl
  | cons value rest ih => rw [wordsOfValues, ih, List.map_cons]

theorem wordsOfEntries_eq_map (entries : List Entry) :
    wordsOfEntries entries = entries.map Entry.words := by
  induction entries with
  | nil => rfl
  | cons entry rest ih => rw [wordsOfEntries, ih, List.map_cons]

/-- So the name of an entry is printed as its words. -/
theorem Value.spells_of_type {value : Value} (h : value.type = .integer ∨ value.type = .boolean) :
    Spells value.inspect value.words := by
  cases value with
  | integer n => exact spells_integer n
  | boolean b => exact spells_boolean b
  | null | string | array | hash | function | builtin => rcases h with h | h <;> cases h

/-- An entry is its name, a colon and its value. -/
theorem Entry.spells {entry : Entry} (hname : Spells entry.name.inspect entry.name.words)
    (hvalue : Spells entry.value.inspect entry.value.words) : Spells entry.inspect entry.words := by
  obtain ⟨key, name, value⟩ := entry
  intro rest hrest
  have hchars : (Entry.inspect ⟨key, name, value⟩).toList ++ rest =
      name.inspect.toList ++ (':' :: ' ' :: (value.inspect.toList ++ rest)) := by
    simp [Entry.inspect, String.toList_append]
  rw [hchars, hname _ (.cons rfl _), spellings_mark rfl (by decide), spellings_space,
    hvalue _ hrest, Entry.words, List.append_assoc, List.cons_append]

/-- The text of a plain value is read as its words. -/
theorem Value.Plain.spells {value : Value} (h : value.Plain) :
    Spells value.inspect value.words := by
  induction h with
  | integer n =>
    rw [Value.inspect, Value.words]
    exact spells_integer n
  | boolean b =>
    rw [Value.inspect, Value.words]
    exact spells_boolean b
  | @array id elements _ ih =>
    have helements : List.Forall₂ Spells (inspectValues elements) (wordsOfValues elements) := by
      rw [inspectValues_eq_map, wordsOfValues_eq_map, List.forall₂_map_left_iff,
        List.forall₂_map_right_iff, List.forall₂_same]
      exact ih
    rw [Value.words]
    refine (spells_joined helements).bracketed '[' ']' ?_ ⟨rfl, by decide⟩ ⟨rfl, by decide⟩
      (by decide)
    simp [Value.inspect, String.toList_append]
  | @hash id entries _ names _ ih =>
    have hentries : List.Forall₂ Spells (inspectEntries entries) (wordsOfEntries entries) := by
      rw [inspectEntries_eq_map, wordsOfEntries_eq_map, List.forall₂_map_left_iff,
        List.forall₂_map_right_iff, List.forall₂_same]
      exact fun entry hmem => Entry.spells (Value.spells_of_type (names entry hmem)) (ih entry hmem)
    rw [Value.words]
    refine (spells_joined hentries).bracketed '\x7b' '\x7d' ?_ ⟨rfl, by decide⟩ ⟨rfl, by decide⟩
      (by decide)
    simp [Value.inspect, String.toList_append]

/-! ## How the words begin -/

/-- The kinds of words that the words of plain values begin with. -/
def TokenKind.opensPlain : TokenKind → Bool
  | .integer | .minus | .trueWord | .falseWord | .leftBracket | .leftBrace => true
  | _ => false

/-- A plain value has a first word: digits, a minus, a truth value or an opening bracket. -/
theorem Value.Plain.exists_words_eq_cons {value : Value} (h : value.Plain) :
    ∃ word rest, value.words = word :: rest ∧ word.1.opensPlain = true := by
  cases h with
  | integer n =>
    rw [Value.words, integerWords]
    split <;> exact ⟨_, _, rfl, rfl⟩
  | boolean b => cases b <;> exact ⟨_, _, rfl, rfl⟩
  | array => exact ⟨_, _, by rw [Value.words], rfl⟩
  | hash => exact ⟨_, _, by rw [Value.words], rfl⟩

/-! ## The least integer among the words -/

/-- How often the digits of the least integer are among some words. -/
def leastCount (words : List (TokenKind × String)) : Nat :=
  words.countP fun word => word.2 = leastDigits

/-- Words are counted one by one. -/
theorem leastCount_append (words others : List (TokenKind × String)) :
    leastCount (words ++ others) = leastCount words + leastCount others :=
  List.countP_append ..

/-- A symbol is none of them. -/
theorem leastCount_mark {kind : TokenKind} (h : kind.name ≠ leastDigits)
    (words : List (TokenKind × String)) :
    leastCount (kind.mark :: words) = leastCount words := by
  unfold leastCount
  exact List.countP_cons_of_neg (fun heq => h (of_decide_eq_true heq))

/-- Neither are the commas between words. -/
theorem leastCount_joined (words : List (TokenKind × String))
    (rest : List (List (TokenKind × String))) :
    leastCount (joined (words :: rest)) = leastCount words + leastCount (joined rest) := by
  cases rest with
  | nil => rfl
  | cons next rest =>
    have hjoined : joined (words :: next :: rest) =
        words ++ TokenKind.comma.mark :: joined (next :: rest) := rfl
    rw [hjoined, leastCount_append, leastCount_mark (by decide)]

/-- Nor the brackets around them. -/
theorem leastCount_bracketed {opening closing : TokenKind} (hopening : opening.name ≠ leastDigits)
    (hclosing : closing.name ≠ leastDigits) (words : List (TokenKind × String)) :
    leastCount (opening.mark :: (words ++ [closing.mark])) = leastCount words := by
  rw [leastCount_mark hopening, leastCount_append, leastCount_mark hclosing]
  rfl

/-- The words of an integer have these digits just if it is the least one. -/
theorem leastCount_integerWords (n : Int64) :
    leastCount (integerWords n) = [n].count Int64.minValue := by
  have hdigits : leastCount [digitsWord n.toInt.natAbs] = [n].count Int64.minValue := by
    simp only [leastCount, digitsWord, List.countP_singleton, List.count_singleton,
      decide_eq_true_eq, beq_iff_eq, repr_eq_leastDigits_iff, natAbs_toInt_eq_iff]
  rw [integerWords]
  split
  · rw [leastCount_mark (by decide), hdigits]
  · exact hdigits

mutual

/-- The digits of the least integer are among the words of a value as often as it is in the
value. -/
theorem leastCount_words : (value : Value) →
    leastCount value.words = value.integers.count Int64.minValue
  | .integer n => leastCount_integerWords n
  | .boolean b => by cases b <;> rfl
  | .array _ elements => by
    rw [Value.words, Value.integers, leastCount_bracketed (by decide) (by decide),
      leastCount_wordsOfValues elements]
  | .hash _ entries => by
    rw [Value.words, Value.integers, leastCount_bracketed (by decide) (by decide),
      leastCount_wordsOfEntries entries]
  | .null | .string _ | .function _ _ _ | .builtin _ => rfl

theorem leastCount_wordsOfValues : (values : List Value) →
    leastCount (joined (wordsOfValues values)) = (integersOfValues values).count Int64.minValue
  | [] => rfl
  | value :: rest => by
    rw [wordsOfValues, integersOfValues, leastCount_joined, List.count_append,
      leastCount_words value, leastCount_wordsOfValues rest]

theorem leastCount_wordsOfEntries : (entries : List Entry) →
    leastCount (joined (wordsOfEntries entries)) = (integersOfEntries entries).count Int64.minValue
  | [] => rfl
  | entry :: rest => by
    rw [wordsOfEntries, integersOfEntries, leastCount_joined, List.count_append,
      leastCount_entryWords entry, leastCount_wordsOfEntries rest]

theorem leastCount_entryWords : (entry : Entry) →
    leastCount entry.words = entry.integers.count Int64.minValue
  | ⟨_, name, value⟩ => by
    rw [Entry.words, Entry.integers, leastCount_append, leastCount_mark (by decide),
      List.count_append, leastCount_words name, leastCount_words value]

end

end Scriptlet
