import Mathlib.Data.List.Nodup
import Mathlib.Data.List.Perm.Subperm
import Scriptlet.Operator

set_option autoImplicit false

/-!
# The entries of a hash

Component: the object model.  Specification: section 3 on keys, of which the key of a string is the
sum of the twenty bytes of its digest, and section 10.5, by which entries are shown in the order of
their keys.

Entries are *ordered* if each stands before those behind it by its key, so that there is one for
each key.  Inserting keeps that, and what comes of inserting entries one after the other is told
by their list: of those with one key the last one stays (`mem_insertAll`).

A string is keyed by the sum of the twenty bytes of its digest, so there are no more than 5101 keys
of strings, and no more entries under such keys (`Ordered.length_stringEntries_le`).

Which digest it is does not matter to anything here.  That two strings may have one key does: with
5101 possible sums some strings must, and then the later entry takes the place of the earlier, name
and all.  This is the contract and not a defect of it, as section 9 of the specification says.

The order of keys is total and strict: by the kind, and within a kind by the number.  So ordered
entries are a list without repetition whose keys tell its entries (`Ordered.eq_of_key`), and a
search can stop at the first entry with the key.
-/

namespace Scriptlet

/-! ## The order of keys -/

namespace HashKey

variable {a b c : HashKey}

/-- By kind first, and by number within a kind. -/
theorem before_iff : a.before b = true ↔
    a.kind.rank < b.kind.rank ∨ a.kind.rank = b.kind.rank ∧ a.number.toInt < b.number.toInt := by
  simp [before, Int64.lt_iff_toInt_lt]

/-- No key stands before itself. -/
theorem before_irrefl (key : HashKey) : ¬ key.before key = true := by
  rw [before_iff]
  omega

/-- Standing before goes on. -/
theorem before_trans (hab : a.before b = true) (hbc : b.before c = true) : a.before c = true := by
  rw [before_iff] at hab hbc ⊢
  omega

/-- A kind is told by its rank. -/
theorem eq_of_rank_eq {k l : KeyKind} (h : k.rank = l.rank) : k = l := by
  cases k <;> cases l <;> first | rfl | cases h

/-- Of two different keys one stands before the other. -/
theorem before_of_not_before (different : a ≠ b) (h : ¬ a.before b = true) :
    b.before a = true := by
  rw [before_iff] at h ⊢
  by_contra hba
  have hrank : a.kind.rank = b.kind.rank := by omega
  have hnumber : a.number.toInt = b.number.toInt := by omega
  refine different ?_
  cases a
  cases b
  exact congr (congrArg mk (eq_of_rank_eq hrank)) (Int64.toInt.inj hnumber)

end HashKey

/-! ## Entries in order -/

/-- Whether entries stand in the order of their keys, one for each key. -/
def Ordered (entries : List Entry) : Prop :=
  entries.Pairwise fun a b => a.key.before b.key = true

variable {new entry other : Entry} {news entries : List Entry} {key : HashKey}

/-- No key occurs twice. -/
theorem Ordered.nodup (h : Ordered entries) : (entries.map Entry.key).Nodup := by
  refine List.pairwise_map.mpr (h.imp fun hbefore heq => ?_)
  rw [heq] at hbefore
  exact HashKey.before_irrefl _ hbefore

/-- So an entry is told by its key. -/
theorem Ordered.eq_of_key (h : Ordered entries) (hentry : entry ∈ entries)
    (hother : other ∈ entries) (hkey : entry.key = other.key) : entry = other :=
  List.inj_on_of_nodup_map h.nodup hentry hother hkey

/-- After an insertion there is what was inserted, and the rest but for the same key. -/
theorem mem_insertEntry_iff (h : Ordered entries) :
    other ∈ insertEntry new entries ↔ other = new ∨ other ∈ entries ∧ other.key ≠ new.key := by
  induction entries with
  | nil => simp [insertEntry]
  | cons first rest ih =>
    obtain ⟨hfirst, hrest⟩ := List.pairwise_cons.mp h
    rw [insertEntry]
    split
    next same =>
      have hother : other ∈ rest → other.key ≠ new.key := fun hmem heq =>
        HashKey.before_irrefl _ (same.trans heq.symm ▸ hfirst other hmem)
      simp only [List.mem_cons]
      grind
    next different =>
      split
      next before =>
        have hother : other ∈ first :: rest → other.key ≠ new.key := by
          intro hmem heq
          rcases List.mem_cons.mp hmem with rfl | hmem
          · exact different heq
          · exact HashKey.before_irrefl _
              (HashKey.before_trans before (heq ▸ hfirst other hmem))
        rw [List.mem_cons]
        exact or_congr_right ⟨fun hmem => ⟨hmem, hother hmem⟩, And.left⟩
      · simp only [List.mem_cons, ih hrest]
        grind

/-- The place where an entry is inserted is between those before it and those behind. -/
theorem Ordered.insertEntry (h : Ordered entries) (new : Entry) :
    Ordered (insertEntry new entries) := by
  induction entries with
  | nil => exact List.pairwise_singleton ..
  | cons first rest ih =>
    obtain ⟨hfirst, hrest⟩ := List.pairwise_cons.mp h
    rw [Scriptlet.insertEntry]
    split
    next same => exact List.pairwise_cons.mpr ⟨same ▸ hfirst, hrest⟩
    next different =>
      split
      next before =>
        refine List.pairwise_cons.mpr ⟨fun other hother => ?_, h⟩
        rcases List.mem_cons.mp hother with rfl | hother
        · exact before
        · exact HashKey.before_trans before (hfirst other hother)
      next behind =>
        refine List.pairwise_cons.mpr ⟨fun other hother => ?_, ih hrest⟩
        rcases (mem_insertEntry_iff hrest).mp hother with rfl | ⟨hother, _⟩
        · exact HashKey.before_of_not_before (Ne.symm different) behind
        · exact hfirst other hother

/-- What is found under a key is the entry with it. -/
theorem findEntry_eq_some_iff (h : Ordered entries) :
    findEntry key entries = some entry ↔ entry ∈ entries ∧ entry.key = key := by
  constructor
  · intro hfind
    exact ⟨List.mem_of_find?_eq_some hfind, by simpa using List.find?_some hfind⟩
  · rintro ⟨hentry, rfl⟩
    cases hfind : findEntry entry.key entries with
    | none => exact absurd (List.find?_eq_none.mp hfind entry hentry) (by simp)
    | some found =>
      have hkey : found.key = entry.key := by simpa using List.find?_some hfind
      rw [h.eq_of_key (List.mem_of_find?_eq_some hfind) hentry hkey]

/-- Nothing is found under a key that no entry has. -/
theorem findEntry_eq_none_iff :
    findEntry key entries = none ↔ ∀ entry ∈ entries, entry.key ≠ key := by
  simp [findEntry]

/-! ## Many insertions -/

/-- The entries with some more, inserted one after the other. -/
def insertAll (entries news : List Entry) : List Entry :=
  news.foldl (fun entries new => insertEntry new entries) entries

/-- Whether an entry is the last of some with its key. -/
def LastOf (entry : Entry) (news : List Entry) : Prop :=
  ∃ before after, news = before ++ entry :: after ∧ ∀ later ∈ after, later.key ≠ entry.key

/-- The last of some entries with a key is the last of those behind the first, or the first itself.
-/
theorem lastOf_cons :
    LastOf entry (new :: news) ↔
      LastOf entry news ∨ entry = new ∧ ∀ later ∈ news, later.key ≠ entry.key := by
  constructor
  · rintro ⟨before, after, hsplit, hafter⟩
    rcases List.cons_eq_append_iff.mp hsplit with ⟨rfl, hnews⟩ | ⟨others, rfl, hnews⟩
    · cases hnews
      exact .inr ⟨rfl, hafter⟩
    · exact .inl ⟨others, after, hnews, hafter⟩
  · rintro (⟨before, after, rfl, hafter⟩ | ⟨rfl, hnews⟩)
    · exact ⟨new :: before, after, rfl, hafter⟩
    · exact ⟨[], news, rfl, hnews⟩

/-- The last of some is one of them. -/
theorem LastOf.mem (h : LastOf entry news) : entry ∈ news := by
  obtain ⟨before, after, rfl, _⟩ := h
  exact List.mem_append_right _ List.mem_cons_self

/-- Under every key of some entries there is a last one. -/
theorem exists_lastOf (h : new ∈ news) : ∃ entry, LastOf entry news ∧ entry.key = new.key := by
  induction news generalizing new with
  | nil => exact absurd h List.not_mem_nil
  | cons first rest ih =>
    by_cases hlater : ∃ later ∈ rest, later.key = new.key
    · obtain ⟨later, hmem, hkey⟩ := hlater
      obtain ⟨entry, hlast, hentry⟩ := ih hmem
      exact ⟨entry, lastOf_cons.mpr (.inl hlast), hentry.trans hkey⟩
    · have hnone : ∀ later ∈ rest, later.key ≠ new.key := fun later hmem heq =>
        hlater ⟨later, hmem, heq⟩
      rcases List.mem_cons.mp h with rfl | hmem
      · exact ⟨new, lastOf_cons.mpr (.inr ⟨rfl, hnone⟩), rfl⟩
      · exact absurd rfl (hnone new hmem)

/-- However many are inserted, the entries stay in order. -/
theorem Ordered.insertAll (h : Ordered entries) (news : List Entry) :
    Ordered (insertAll entries news) := by
  induction news generalizing entries with
  | nil => exact h
  | cons new news ih => exact ih (h.insertEntry new)

/-- After some insertions there is the last that was inserted of each key, and what has been there
under other keys. -/
theorem mem_insertAll (h : Ordered entries) :
    entry ∈ insertAll entries news ↔
      LastOf entry news ∨ entry ∈ entries ∧ ∀ new ∈ news, new.key ≠ entry.key := by
  induction news generalizing entries with
  | nil =>
    have hnone : ¬ LastOf entry [] := fun hlast => absurd hlast.mem List.not_mem_nil
    simp [Scriptlet.insertAll, hnone]
  | cons new news ih =>
    have hrest := ih (h.insertEntry new)
    rw [Scriptlet.insertAll, List.foldl_cons, ← Scriptlet.insertAll, hrest, lastOf_cons,
      mem_insertEntry_iff h, List.forall_mem_cons]
    grind

/-! ## The keys of values -/

/-- The sum of some bytes. -/
def byteSum : List UInt8 → Nat
  | [] => 0
  | byte :: rest => byte.toNat + byteSum rest

/-- A sum that starts elsewhere. -/
theorem foldl_eq_byteSum (bytes : List UInt8) (total : Nat) :
    bytes.foldl (fun total byte => total + byte.toNat) total = total + byteSum bytes := by
  induction bytes generalizing total with
  | nil => rfl
  | cons byte rest ih => rw [List.foldl_cons, ih, byteSum, Nat.add_assoc]

/-- The number of a string is a sum of bytes. -/
theorem stringNumber_eq_byteSum (digest : Digest) (text : String) :
    stringNumber digest text = byteSum (digest.bytes (Text.encode text)) := by
  rw [stringNumber, foldl_eq_byteSum, Nat.zero_add]

/-- No byte is more than 255. -/
theorem byteSum_le (bytes : List UInt8) : byteSum bytes ≤ 255 * bytes.length := by
  induction bytes with
  | nil => exact Nat.le_refl 0
  | cons byte rest ih =>
    have hbyte : byte.toNat < 256 := byte.toNat_lt
    rw [byteSum, List.length_cons]
    omega

section

variable {digest : Digest}

/-- A digest has twenty bytes, so the number of a string is small, whichever digest it is. -/
theorem stringNumber_le (digest : Digest) (text : String) : stringNumber digest text ≤ 5100 := by
  have hsum := byteSum_le (digest.bytes (Text.encode text))
  rwa [digest.length_bytes, ← stringNumber_eq_byteSum] at hsum

/-- Sums are small enough to be told apart as integers. -/
theorem ofNat_stringNumber_inj {left right : String} :
    Int64.ofNat (stringNumber digest left) = Int64.ofNat (stringNumber digest right) ↔
      stringNumber digest left = stringNumber digest right := by
  constructor
  · intro h
    -- both numbers fit into a word, so the words tell them apart
    have hleft := stringNumber_le digest left
    have hright := stringNumber_le digest right
    have hint := congrArg Int64.toInt h
    rw [Int64.toInt_ofNat_of_lt (by omega), Int64.toInt_ofNat_of_lt (by omega)] at hint
    exact Int.ofNat.inj hint
  · exact congrArg Int64.ofNat

/-- Two values have one key if they are the same, or strings whose digests have the same sum. -/
theorem hashKey_eq_iff {left right : Value} {k l : HashKey} (hleft : left.hashKey digest = .ok k)
    (hright : right.hashKey digest = .ok l) :
    k = l ↔ left = right ∨ ∃ s t, left = .string s ∧ right = .string t ∧
      stringNumber digest s = stringNumber digest t := by
  cases left <;> cases hleft <;> cases right <;> cases hright
  case integer.refl.integer.refl m n => simp
  case boolean.refl.boolean.refl b c => cases b <;> cases c <;> simp
  case string.refl.string.refl s t =>
    have hsame : s = t → stringNumber digest s = stringNumber digest t :=
      congrArg (stringNumber digest)
    simpa [ofNat_stringNumber_inj] using hsame
  all_goals simp

/-- An entry whose key is that of its name. -/
def Entry.Fits (digest : Digest) (entry : Entry) : Prop :=
  entry.name.hashKey digest = .ok entry.key

/-- The keys that strings can have, whichever the digest. -/
def stringKeys : List HashKey := (List.range 5101).map fun n => ⟨.string, Int64.ofNat n⟩

/-- The key of an entry under a string is one of these. -/
theorem Entry.Fits.mem_stringKeys (h : entry.Fits digest) (hkind : entry.key.kind = .string) :
    entry.key ∈ stringKeys := by
  obtain ⟨key, name, value⟩ := entry
  cases name <;> cases h
  case string.refl text =>
    have hle := stringNumber_le digest text
    exact List.mem_map.mpr ⟨stringNumber digest text, List.mem_range.mpr (by omega), rfl⟩
  all_goals cases hkind

/-- The entries that are keyed by strings. -/
def stringEntries (entries : List Entry) : List Entry :=
  entries.filter fun entry => entry.key.kind == .string

/-- There are at most 5101 entries under strings. -/
theorem Ordered.length_stringEntries_le (h : Ordered entries)
    (fits : ∀ entry ∈ entries, entry.Fits digest) : (stringEntries entries).length ≤ 5101 := by
  have hnodup : ((stringEntries entries).map Entry.key).Nodup :=
    h.nodup.sublist (List.filter_sublist.map _)
  have hsub : (stringEntries entries).map Entry.key ⊆ stringKeys := by
    intro key hkey
    obtain ⟨entry, hentry, rfl⟩ := List.mem_map.mp hkey
    obtain ⟨hmem, hkind⟩ := List.mem_filter.mp hentry
    exact (fits entry hmem).mem_stringKeys (beq_iff_eq.mp hkind)
  have hle := (List.subperm_of_subset hnodup hsub).length_le
  rwa [List.length_map, stringKeys, List.length_map, List.length_range] at hle

end

end Scriptlet
