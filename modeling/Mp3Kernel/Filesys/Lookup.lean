import Mathlib.Data.List.GetD
import Mathlib.Data.List.TakeWhile
import Mp3Kernel.Filesys.Basic
import Mp3Kernel.Format.Basic

/-!
# Searching the directory

The loops of `fopen` and of `read_dentry_by_name` stop at the first entry whose
name does not differ from the name they are given, or behind the last entry.
`fopen` compares as many bytes as that name has, so for it a name does not differ
from a longer one that begins with it.
-/

namespace Mp3Kernel

open Library

namespace Filesys

variable {fs : Filesys} {fname : List UInt8}

/-! ## Strings -/

/-- The characters before the NUL. -/
def text (str : List UInt8) : List UInt8 := str.takeWhile (· ≠ 0)

theorem strlen_eq (str : List UInt8) : strlen str = (text str).length := rfl

theorem text_ne_zero {str : List UInt8} : ∀ c ∈ text str, c ≠ 0 := by
  intro c member
  simpa using List.mem_takeWhile_imp member

theorem getD_text {k : Nat} (inside : k < strlen fname) : fname.getD k 0 = (text fname).getD k 0 := by
  have split := List.takeWhile_append_dropWhile (p := fun c : UInt8 => decide (c ≠ 0)) (l := fname)
  nth_rewrite 1 [← split]
  exact List.getD_append _ _ _ _ inside

theorem getD_ne_zero {k : Nat} (inside : k < strlen fname) : fname.getD k 0 ≠ 0 := by
  have inside' : k < (text fname).length := inside
  rw [getD_text inside, List.getD_eq_getElem _ _ inside']
  exact text_ne_zero _ (List.getElem_mem inside')

/-- The loop of `strlen`, for a string with a NUL behind it. -/
theorem strlen_loop {rounds : Nat} (enough : strlen fname < rounds) :
    Format.strlen rounds (fun k => fname.getD k 0) = some (strlen fname) := by
  have ended : fname.getD (strlen fname) 0 = 0 := by
    have split := List.takeWhile_append_dropWhile (p := fun c : UInt8 => decide (c ≠ 0)) (l := fname)
    nth_rewrite 1 [← split]
    rw [strlen, List.getD_append_right _ _ _ _ (Nat.le_refl _), Nat.sub_self]
    cases rest : fname.dropWhile fun c => decide (c ≠ 0) with
    | nil => rfl
    | cons c cs =>
      have stops := List.head?_dropWhile_not (fun c : UInt8 => decide (c ≠ 0)) fname
      rw [rest] at stops
      simpa using stops
  have whole : Text (fun k => fname.getD (0 + k) 0) (text fname) := by
    simp only [Nat.zero_add]
    refine text_iff.mpr ⟨fun k inside => ?_, text_ne_zero, ended⟩
    rw [getD_text inside, List.getD_eq_getElem _ _ inside]
  rw [Format.strlen, findNul_eq whole enough, Nat.zero_add]
  rfl

/-- As long as `s1` does not end, `strncmp` is 0 exactly when all the bytes are the same. -/
theorem strncmp_eq_zero_iff (s1 : List UInt8) (s2 : Nat → UInt8) (n i : Nat)
    (goesOn : ∀ k, i ≤ k → k < i + n → s1.getD k 0 ≠ 0) :
    strncmp s1 s2 n i = 0 ↔ ∀ k, i ≤ k → k < i + n → s1.getD k 0 = s2 k := by
  induction n generalizing i with
  | zero =>
    rw [strncmp]
    exact iff_of_true rfl fun k low high => absurd high (by omega)
  | succ n ih =>
    have later := ih (i + 1) fun k low high => goesOn k (by omega) (by omega)
    rw [strncmp]
    by_cases same : s1.getD i 0 = s2 i
    · have more : s1.getD i 0 ≠ 0 := goesOn i (le_refl i) (by omega)
      rw [if_neg (by simp only [not_or, not_not]; exact ⟨same, more⟩), later]
      constructor
      · intro rest k low high
        rcases Nat.eq_or_lt_of_le low with rfl | further
        · exact same
        · exact rest k further (by omega)
      · exact fun all k low high => all k (by omega) (by omega)
    · -- The difference of two different characters is not 0.
      rw [if_pos (.inl same)]
      refine iff_of_false (fun zero => same ?_) fun all => same (all i (le_refl i) (by omega))
      have signed : (s1.getD i 0).toInt8 = (s2 i).toInt8 := Int8.toInt_inj.mp (by omega)
      rw [← UInt8.toUInt8_toInt8 (s1.getD i 0), signed, UInt8.toUInt8_toInt8]

/-- The bytes at `addr` begin with the string `fname`. -/
def Begins (fs : Filesys) (addr : UInt32) (fname : List UInt8) : Prop :=
  ∀ k < strlen fname, fname.getD k 0 = fs.bytes (addr + UInt32.ofNat k)

instance (fs : Filesys) (addr : UInt32) (fname : List UInt8) : Decidable (fs.Begins addr fname) :=
  inferInstanceAs (Decidable (∀ k < _, _))

/-- A comparison over the length of the first string. -/
theorem strncmp_strlen_iff (fs : Filesys) (addr : UInt32) (fname : List UInt8) :
    strncmp fname (fun k => fs.bytes (addr + UInt32.ofNat k)) (strlen fname) 0 = 0 ↔
      fs.Begins addr fname := by
  rw [strncmp_eq_zero_iff _ _ _ _ fun k _ inside => getD_ne_zero (by omega)]
  constructor
  · exact fun all k inside => all k (Nat.zero_le k) (by omega)
  · exact fun all k _ inside => all k (by omega)

theorem nameDiffers_iff (fs : Filesys) (fname : List UInt8) (i : UInt32) :
    fs.nameDiffers fname i ↔ ¬fs.Begins (fs.dentryAddr i) fname := by
  rw [nameDiffers, Ne, strncmp_strlen_iff]

/-! ## The search loop -/

section Scan

variable {n i j : UInt32} {differs differs' : UInt32 → Prop} [DecidablePred differs]

/-- `while (i < n && differs(i)) i++`, with at most `rounds` rounds left. -/
def scan (n : UInt32) (differs : UInt32 → Prop) [DecidablePred differs] : Nat → UInt32 → UInt32
  | 0, i => i
  | rounds + 1, i => if i < n ∧ differs i then scan n differs rounds (i + 1) else i

/-- `i` is the first index below `n` that does not differ, or `n` if all do. -/
structure FirstMatch (n : UInt32) (differs : UInt32 → Prop) (i : UInt32) : Prop where
  bound : i ≤ n
  before : ∀ k < i, differs k
  found : i < n → ¬differs i

theorem scan_firstMatch (rounds : Nat) (start : i.toNat + rounds = n.toNat)
    (before : ∀ k < i, differs k) : FirstMatch n differs (scan n differs rounds i) := by
  have last := n.toNat_lt
  induction rounds generalizing i with
  | zero =>
    obtain rfl : i = n := UInt32.toNat_inj.mp start
    exact ⟨UInt32.le_refl i, before, fun inside => absurd inside (UInt32.lt_irrefl i)⟩
  | succ rounds ih =>
    have inside : i < n := UInt32.lt_iff_toNat_lt.mpr (by omega)
    have next : (i + 1).toNat = i.toNat + 1 := toNat_add_one (by omega)
    rw [scan]
    by_cases goesOn : differs i
    · rw [if_pos ⟨inside, goesOn⟩]
      apply ih (by omega)
      intro k earlier
      have earlier' : k.toNat < (i + 1).toNat := earlier
      rcases Nat.lt_or_eq_of_le (show k.toNat ≤ i.toNat by omega) with less | same
      · exact before k less
      · rw [UInt32.toNat_inj.mp same]
        exact goesOn
    · rw [if_neg (fun both => goesOn both.2)]
      exact ⟨UInt32.le_of_lt inside, before, fun _ => goesOn⟩

theorem scan_first (n : UInt32) (differs : UInt32 → Prop) [DecidablePred differs] :
    FirstMatch n differs (scan n differs n.toNat 0) :=
  scan_firstMatch _ (Nat.zero_add _) fun _ less => absurd less UInt32.not_lt_zero

omit [DecidablePred differs] in
theorem FirstMatch.not_lt (first : FirstMatch n differs i) (first' : FirstMatch n differs' j)
    (agree : ∀ k < n, (∀ m < k, differs m ∧ differs' m) → (differs k ↔ differs' k)) : ¬i < j := by
  intro less
  have inside : i < n := UInt32.lt_of_lt_of_le less first'.bound
  have both : ∀ m < i, differs m ∧ differs' m := fun m earlier =>
    ⟨first.before m earlier, first'.before m (UInt32.lt_trans earlier less)⟩
  exact first.found inside ((agree i inside both).mpr (first'.before i less))

omit [DecidablePred differs] in
/-- Two searches stop at the same index exactly if at the first index where one of them finds
a match the other does too. -/
theorem FirstMatch.same_iff (first : FirstMatch n differs i) (first' : FirstMatch n differs' j) :
    i = j ↔ ∀ k < n, (∀ m < k, differs m ∧ differs' m) → (differs k ↔ differs' k) := by
  constructor
  · rintro rfl k inside both
    -- No index behind the match has only differing ones before it.
    rcases UInt32.lt_or_eq_of_le (UInt32.not_lt.mp fun less : i < k =>
      first.found (UInt32.lt_trans less inside) (both i less).1) with earlier | rfl
    · exact iff_of_true (first.before k earlier) (first'.before k earlier)
    · exact iff_of_false (first.found inside) (first'.found inside)
  · intro agree
    have agree' : ∀ k < n, (∀ m < k, differs' m ∧ differs m) → (differs' k ↔ differs k) :=
      fun k inside both => (agree k inside fun m earlier => (both m earlier).symm).symm
    apply UInt32.le_antisymm
    · exact UInt32.not_lt.mp (first'.not_lt first agree')
    · exact UInt32.not_lt.mp (first.not_lt first' agree)

end Scan

/-! ## `fopen` -/

theorem findName_eq_scan (fs : Filesys) (fname : List UInt8) (rounds : Nat) (i : UInt32) :
    fs.findName fname rounds i = scan fs.dirEntries (fs.nameDiffers fname) rounds i := by
  induction rounds generalizing i with
  | zero => rfl
  | succ rounds ih => rw [findName, scan, ih]

theorem findName_firstMatch (fs : Filesys) (fname : List UInt8) :
    FirstMatch fs.dirEntries (fs.nameDiffers fname) (fs.findName fname fs.dirEntries.toNat 0) := by
  rw [findName_eq_scan]
  exact scan_first fs.dirEntries (fs.nameDiffers fname)

/-- What `fopen` returns when its loop stops at `i`. -/
theorem fopen_value (fs : Filesys) (fname : List UInt8) {i : UInt32}
    (first : FirstMatch fs.dirEntries (fs.nameDiffers fname) i) :
    (fs.fopen fname).1 = if i < fs.dirEntries then i.toInt32 else -1 := by
  have same : fs.findName fname fs.dirEntries.toNat 0 = i :=
    ((fs.findName_firstMatch fname).same_iff first).mpr fun _ _ _ => Iff.rfl
  rw [fopen, same]

section Value

variable {n i k : UInt32}

theorem toInt32_ne_neg_one (small : k.toNat < 2 ^ 31) : k.toInt32 ≠ -1 := by
  intro same
  have value := congrArg Int32.toInt same
  rw [toInt_toInt32_of_lt small] at value
  have negative : (-1 : Int32).toInt = -1 := by decide
  omega

theorem value_eq_neg_one_iff (few : n.toNat ≤ 2 ^ 31) :
    (if i < n then i.toInt32 else -1) = (-1 : Int32) ↔ ¬i < n := by
  split
  next inside =>
    have inside' : i.toNat < n.toNat := inside
    exact iff_of_false (toInt32_ne_neg_one (by omega)) (not_not.mpr inside)
  next outside => exact iff_of_true rfl outside

theorem value_eq_index_iff (few : n.toNat ≤ 2 ^ 31) (entry : k < n) :
    (if i < n then i.toInt32 else -1) = k.toInt32 ↔ k = i := by
  have entry' : k.toNat < n.toNat := entry
  split
  next =>
    constructor
    · intro same
      rw [← UInt32.toUInt32_toInt32 k, ← same, UInt32.toUInt32_toInt32]
    · rintro rfl
      rfl
  next missing =>
    constructor
    · exact fun same => absurd same.symm (toInt32_ne_neg_one (by omega))
    · rintro rfl
      exact absurd entry missing

end Value

end Filesys

end Mp3Kernel
