import Mp3Kernel.Filesys.Sequential

/-!
# Looking up a name

Of two names of which one begins with the other, `fopen` takes whichever comes
first in the directory.
-/

namespace Mp3Kernel

open Library

namespace Filesys

variable {fs : Filesys} {fname : List UInt8}

/-! ## Names -/

/-- The name of entry `i`; 32 characters have no NUL behind them. -/
def entryName (fs : Filesys) (i : UInt32) : List UInt8 := text (fs.dentryAt i).fname

structure DistinctNames (fs : Filesys) : Prop where
  entries : fs.dirEntries.toNat ≤ 63
  distinct : ∀ i < fs.dirEntries, ∀ j < fs.dirEntries, fs.entryName i = fs.entryName j → i = j

theorem prefix_text_iff {w str : List UInt8} (noNul : ∀ c ∈ w, c ≠ 0) :
    w <+: text str ↔ w <+: str := by
  constructor
  · intro start
    exact start.trans (List.takeWhile_prefix _)
  · rintro ⟨rest, rfl⟩
    rw [text, List.takeWhile_append_of_pos fun c member => by simpa using noNul c member]
    exact List.prefix_append _ _

theorem begins_iff_start (i : UInt32) (short : strlen fname ≤ 32) :
    fs.Begins (fs.dentryAddr i) fname ↔ text fname <+: fs.entryName i := by
  have byte {k : Nat} (inside : k < 32) :
      (fs.dentryAt i).fname[k]? = some (fs.bytes (fs.dentryAddr i + UInt32.ofNat k)) := by
    simp [dentryAt, inside]
  rw [entryName, prefix_text_iff text_ne_zero, List.prefix_iff_getElem?, Begins, strlen_eq]
  constructor
  · intro all k inside
    rw [byte (inside.trans_le short), ← all k inside, getD_text inside,
      List.getD_eq_getElem _ _ inside]
  · intro all k inside
    have same := all k inside
    rw [byte (inside.trans_le short), Option.some_inj] at same
    rw [same, getD_text inside, List.getD_eq_getElem _ _ inside]

/-! ## `fopen` -/

/-- `fopen` returns the entry with exactly this name, and -1 if there is none. -/
def FindsNamed (fs : Filesys) (fname : List UInt8) : Prop :=
  (∀ i < fs.dirEntries, (fs.fopen fname).1 = i.toInt32 ↔ fs.entryName i = text fname) ∧
  ((fs.fopen fname).1 = -1 ↔ ∀ i < fs.dirEntries, fs.entryName i ≠ text fname)

/-- No entry with a longer name comes before the one with this name. -/
def NotShadowed (fs : Filesys) (fname : List UInt8) : Prop :=
  ∀ i < fs.dirEntries, text fname <+: fs.entryName i → fs.entryName i ≠ text fname →
    ∃ j < i, fs.entryName j = text fname

section FindsNamed

variable {i k : UInt32}

theorem begins_of_entryName (short : strlen fname ≤ 32) (name : fs.entryName k = text fname) :
    fs.Begins (fs.dentryAddr k) fname := by
  rw [begins_iff_start k short, name]

/-- The search stops at an entry with the name or before it. -/
theorem FirstMatch.le_of_begins (first : FirstMatch fs.dirEntries (fs.nameDiffers fname) i)
    (begins : fs.Begins (fs.dentryAddr k) fname) : i ≤ k := by
  apply UInt32.not_lt.mp
  intro less
  exact (nameDiffers_iff fs fname k).mp (first.before k less) begins

theorem FirstMatch.begins (first : FirstMatch fs.dirEntries (fs.nameDiffers fname) i)
    (inside : i < fs.dirEntries) : fs.Begins (fs.dentryAddr i) fname := by
  have same := first.found inside
  rwa [nameDiffers_iff, not_not] at same

theorem FirstMatch.entryName (first : FirstMatch fs.dirEntries (fs.nameDiffers fname) i)
    (short : strlen fname ≤ 32) (notShadowed : fs.NotShadowed fname) (inside : i < fs.dirEntries) :
    fs.entryName i = text fname := by
  by_contra longer
  have start := (begins_iff_start i short).mp (first.begins inside)
  obtain ⟨j, earlier, name⟩ := notShadowed i inside start longer
  exact UInt32.not_le.mpr earlier (first.le_of_begins (begins_of_entryName short name))

end FindsNamed

/-- `fopen` finds exactly the named file if and only if no entry with a longer name that
begins with the same characters comes before it. -/
theorem fopen_finds_named_iff (fs : Filesys) (fname : List UInt8) (names : fs.DistinctNames)
    (short : strlen fname ≤ 32) : fs.FindsNamed fname ↔ fs.NotShadowed fname := by
  have few : fs.dirEntries.toNat ≤ 2 ^ 31 := names.entries.trans (by decide)
  have first := fs.findName_firstMatch fname
  have value := fs.fopen_value fname first
  generalize fs.findName fname fs.dirEntries.toNat 0 = i at first value
  constructor
  · rintro ⟨finds, _⟩ k entry start longer
    -- The search stops at `k` at the latest, and where it stops the name is the right one.
    have le := first.le_of_begins ((begins_iff_start k short).mpr start)
    have inside := UInt32.lt_of_le_of_lt le entry
    have name : fs.entryName i = text fname := (finds i inside).mp (by rw [value, if_pos inside])
    refine ⟨i, UInt32.lt_of_le_of_ne le ?_, name⟩
    rintro rfl
    exact longer name
  · intro notShadowed
    constructor
    · intro k entry
      rw [value, value_eq_index_iff few entry]
      constructor
      · rintro rfl
        exact first.entryName short notShadowed entry
      · intro name
        have inside := UInt32.lt_of_le_of_lt (first.le_of_begins (begins_of_entryName short name)) entry
        exact names.distinct k entry i inside
          (name.trans (first.entryName short notShadowed inside).symm)
    · rw [value, value_eq_neg_one_iff few]
      constructor
      · intro missing k entry name
        exact missing (UInt32.lt_of_le_of_lt (first.le_of_begins (begins_of_entryName short name)) entry)
      · intro none inside
        exact none i inside (first.entryName short notShadowed inside)

/-- A directory with the two names `ab` and `a`, of one empty file. -/
def twoNamesBytes (a : UInt32) : UInt8 :=
  if a = 0x10000 then 2
  else if a = 0x10004 then 1
  else if a = 0x10040 then 97
  else if a = 0x10041 then 98
  else if a = 0x10080 then 97
  else 0

def twoNames : Filesys := filesysInit 0x10000 (boot twoNamesBytes)

theorem twoNames_entry {k : UInt32} (entry : k < twoNames.dirEntries) : k = 0 ∨ k = 1 := by
  have two : k.toNat < 2 := entry
  rcases Nat.lt_or_eq_of_le (Nat.le_of_lt_succ two) with zero | one
  · exact .inl (UInt32.toNat_inj.mp (Nat.lt_one_iff.mp zero))
  · exact .inr (UInt32.toNat_inj.mp one)

theorem twoNames_distinct : twoNames.DistinctNames := by
  refine ⟨by decide, fun i entry j entry' => ?_⟩
  rcases twoNames_entry entry with rfl | rfl <;> rcases twoNames_entry entry' with rfl | rfl <;> decide

theorem twoNames_wellFormed : twoNames.WellFormed := by
  refine ⟨by decide, fun k entry => ?_⟩
  rcases twoNames_entry entry with rfl | rfl
  · exact ⟨by decide, by decide, fun i inside => absurd inside (Nat.not_lt_zero i)⟩
  · exact ⟨by decide, by decide, fun i inside => absurd inside (Nat.not_lt_zero i)⟩

/-- The longer name is found. -/
theorem fopen_finds_named_twoNames : twoNames.FindsNamed [97, 98] := by
  apply (fopen_finds_named_iff twoNames [97, 98] twoNames_distinct (by decide)).mpr
  intro i entry start longer
  rcases twoNames_entry entry with rfl | rfl
  · exact absurd rfl longer
  · exact absurd start (by decide)

/-- Asked for `a`, `fopen` returns the entry of `ab`. -/
theorem fopen_finds_longer :
    twoNames.DistinctNames ∧ strlen [97] ≤ 32 ∧ twoNames.entryName 1 = text [97] ∧
    (twoNames.fopen [97]).1 = (0 : UInt32).toInt32 ∧ ¬twoNames.FindsNamed [97] := by
  refine ⟨twoNames_distinct, by decide, by decide, by decide, fun finds => ?_⟩
  exact absurd ((finds.1 0 (by decide)).mp (by decide)) (by decide)

end Filesys

end Mp3Kernel
