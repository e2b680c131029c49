import Mp3Kernel.Filesys.Names
import Mp3Kernel.Paging.Init

/-!
# `read_dentry_by_name`

`read_dentry_by_name` does not look at the names: it takes the word at every fourth
entry for the address of one. The characters of a name make such a word, and behind
the last entry it is mostly NULL. When the file system starts `paging_init` has run,
and most addresses are not mapped: a comparison there ends in a page fault.
-/

namespace Mp3Kernel

open Library

namespace Filesys

variable {fs : Filesys} {fname : List UInt8} {i j : UInt32}

/-! ## A search that can fault -/

/-- `while (i < n && differs(i)) i++`, with at most `rounds` rounds left; `none` for a test that
faults. -/
def scanFaulting (n : UInt32) (differs : UInt32 → Option Bool) : Nat → UInt32 → Option UInt32
  | 0, i => some i
  | rounds + 1, i =>
    if i < n then
      match differs i with
      | none => none
      | some true => scanFaulting n differs rounds (i + 1)
      | some false => some i
    else some i

/-- Every test from `i` up to `j` has an answer, and the one at `j` is the first that finds no difference. -/
structure Stops (n : UInt32) (differs : UInt32 → Option Bool) (i j : UInt32) : Prop where
  start : i ≤ j
  bound : j ≤ n
  before : ∀ k, i ≤ k → k < j → differs k = some true
  found : j < n → differs j = some false

section Search

variable {n : UInt32} {differs : UInt32 → Option Bool}

theorem stops_at_end : Stops n differs n j ↔ n = j := by
  constructor
  · exact fun stops => UInt32.le_antisymm stops.start stops.bound
  · rintro rfl
    exact ⟨UInt32.le_refl n, UInt32.le_refl n, fun k low high => absurd high (UInt32.not_lt.mpr low),
      fun inside => absurd inside (UInt32.lt_irrefl n)⟩

theorem stops_found (inside : i < n) (answer : differs i = some false) : Stops n differs i j ↔ i = j := by
  constructor
  · intro stops
    by_contra other
    have less := UInt32.lt_of_le_of_ne stops.start other
    exact absurd (answer.symm.trans (stops.before i (UInt32.le_refl i) less)) (by decide)
  · rintro rfl
    exact ⟨UInt32.le_refl i, UInt32.le_of_lt inside, fun k low high => absurd high (UInt32.not_lt.mpr low),
      fun _ => answer⟩

theorem toNat_next (inside : i < n) : (i + 1).toNat = i.toNat + 1 := by
  have below : i.toNat < n.toNat := inside
  have bound := n.toNat_lt
  exact toNat_add_one (by omega)

theorem stops_step (inside : i < n) (answer : differs i = some true) :
    Stops n differs i j ↔ Stops n differs (i + 1) j := by
  have next := toNat_next inside
  have later {k : UInt32} : i + 1 ≤ k ↔ i < k := by
    rw [UInt32.le_iff_toNat_le, UInt32.lt_iff_toNat_lt, next]
    rfl
  constructor
  · rintro ⟨start, bound, before, found⟩
    refine ⟨later.mpr (UInt32.lt_of_le_of_ne start ?_), bound,
      fun k low => before k (UInt32.le_of_lt (later.mp low)), found⟩
    rintro rfl
    exact absurd (answer.symm.trans (found inside)) (by decide)
  · rintro ⟨start, bound, before, found⟩
    refine ⟨UInt32.le_of_lt (later.mp start), bound, fun k low high => ?_, found⟩
    rcases UInt32.lt_or_eq_of_le low with less | rfl
    · exact before k (later.mpr less) high
    · exact answer

theorem not_stops (inside : i < n) (fault : differs i = none) : ¬Stops n differs i j := by
  rintro ⟨start, _, before, found⟩
  rcases UInt32.lt_or_eq_of_le start with less | rfl
  · exact Option.some_ne_none _ ((before i (UInt32.le_refl i) less).symm.trans fault)
  · exact Option.some_ne_none _ ((found inside).symm.trans fault)

theorem scanFaulting_eq_some_iff (rounds : Nat) (start : i.toNat + rounds = n.toNat) :
    scanFaulting n differs rounds i = some j ↔ Stops n differs i j := by
  induction rounds generalizing i with
  | zero =>
    obtain rfl : i = n := UInt32.toNat_inj.mp start
    rw [scanFaulting, Option.some_inj, stops_at_end]
  | succ rounds ih =>
    have inside : i < n := UInt32.lt_iff_toNat_lt.mpr (by omega)
    have next := toNat_next inside
    have rest := ih (i := i + 1) (by omega)
    rw [scanFaulting, if_pos inside]
    cases answer : differs i with
    | none => exact iff_of_false (Option.some_ne_none _).symm (not_stops inside answer)
    | some goesOn =>
      cases goesOn with
      | true => exact rest.trans (stops_step inside answer).symm
      | false => exact Option.some_inj.trans (stops_found inside answer).symm

end Search

/-! ## The code -/

section Reading

variable (readable : UInt32 → Prop) [DecidablePred readable]

/-- The word at `a`. -/
def readWord (fs : Filesys) (a : UInt32) : Option UInt32 :=
  if ∀ b < 4, readable (a + UInt32.ofNat b) then some (Memory.wordAt fs.bytes a) else none

/-- The rounds of `strncmp` from `i` on, for a second string at `s2`. -/
def strncmpAt (fs : Filesys) (s1 : List UInt8) (s2 : UInt32) : Nat → Nat → Option Int
  | 0, _ => some 0
  | n + 1, i =>
    if readable (s2 + UInt32.ofNat i) then
      let c := fs.bytes (s2 + UInt32.ofNat i)
      if s1.getD i 0 ≠ c ∨ s1.getD i 0 = 0 then some ((s1.getD i 0).toInt8.toInt - c.toInt8.toInt)
      else strncmpAt fs s1 s2 n (i + 1)
    else none

/-- The address of `compare[i*64]`. The subscript counts words. -/
def compareAddr (fs : Filesys) (i : UInt32) : UInt32 := fs.baseAddr + 64 + 4 * (i * 64)

/-- `strncmp(fname, (int8_t *)compare[i*64], strlen(fname)) != 0`. -/
def pointedDiffers (fs : Filesys) (fname : List UInt8) (i : UInt32) : Option Bool := do
  let compare ← fs.readWord readable (fs.compareAddr i)
  let difference ← fs.strncmpAt readable fname compare (strlen fname) 0
  some (difference ≠ 0)

/-- The return value and the caller's entry; `none` for a page fault, where `readable` says which
bytes are mapped. -/
def readDentryByName (fname : List UInt8) (dentry : Dentry) (fs : Filesys) : Option (Int32 × Dentry) := do
  let i ← scanFaulting fs.dirEntries (fs.pointedDiffers readable fname) fs.dirEntries.toNat 0
  if i < fs.dirEntries then
    if ∀ k < 40, readable (fs.dentryAddr i + UInt32.ofNat k) then some (0, fs.dentryAt i) else none
  else some (-1, dentry)

end Reading

/-! ## Comparisons -/

/-- The bytes at `s2` that a comparison with `s1` looks at are mapped: it goes on as long as the
characters are the same. -/
def Compares (readable : UInt32 → Prop) (fs : Filesys) (s1 : List UInt8) (s2 : UInt32) : Prop :=
  ∀ k < strlen s1, (∀ m < k, s1.getD m 0 = fs.bytes (s2 + UInt32.ofNat m)) → readable (s2 + UInt32.ofNat k)

/-- The word at every fourth entry, taken for the address of a name. -/
def comparePointer (fs : Filesys) (i : UInt32) : UInt32 := Memory.wordAt fs.bytes (fs.compareAddr i)

/-- The word for entry `i` is mapped, and what it points to, as far as it is compared. -/
structure Comparable (readable : UInt32 → Prop) (fs : Filesys) (fname : List UInt8) (i : UInt32) : Prop where
  word : ∀ b < 4, readable (fs.compareAddr i + UInt32.ofNat b)
  name : fs.Compares readable fname (fs.comparePointer i)

variable {readable : UInt32 → Prop} [DecidablePred readable]

theorem strncmpAt_eq_some_iff (s1 : List UInt8) (s2 : UInt32) (n : Nat) {k : Nat} (value : Int)
    (goesOn : ∀ m, k ≤ m → m < k + n → s1.getD m 0 ≠ 0) :
    fs.strncmpAt readable s1 s2 n k = some value ↔
      (∀ l, k ≤ l → l < k + n → (∀ m, k ≤ m → m < l → s1.getD m 0 = fs.bytes (s2 + UInt32.ofNat m)) →
        readable (s2 + UInt32.ofNat l)) ∧
      strncmp s1 (fun m => fs.bytes (s2 + UInt32.ofNat m)) n k = value := by
  induction n generalizing k with
  | zero =>
    rw [strncmpAt, strncmp, Option.some_inj]
    exact (and_iff_right fun l low high => absurd high (by omega)).symm
  | succ n ih =>
    have more : s1.getD k 0 ≠ 0 := goesOn k (le_refl k) (by omega)
    have rest := ih (k := k + 1) fun m low high => goesOn m (by omega) (by omega)
    rw [strncmpAt, strncmp]
    by_cases first : readable (s2 + UInt32.ofNat k)
    · rw [if_pos first]
      by_cases same : s1.getD k 0 = fs.bytes (s2 + UInt32.ofNat k)
      · -- The next character is looked at too.
        simp only [same, ne_eq, not_true_eq_false, false_or, same ▸ more, if_false]
        rw [rest]
        refine and_congr_left fun _ => ⟨fun all l low high before => ?_, fun all l low high before => ?_⟩
        · rcases Nat.eq_or_lt_of_le low with rfl | further
          · exact first
          · exact all l further (by omega) fun m low' high' => before m (by omega) high'
        · refine all l (by omega) (by omega) fun m low' high' => ?_
          rcases Nat.eq_or_lt_of_le low' with rfl | further
          · exact same
          · exact before m further high'
      · simp only [ne_eq, same, not_false_eq_true, true_or, if_true, Option.some_inj]
        refine (and_iff_right fun l low high before => ?_).symm
        rcases Nat.eq_or_lt_of_le low with rfl | further
        · exact first
        · exact absurd (before k (le_refl k) further) same
    · rw [if_neg first]
      refine iff_of_false (Option.some_ne_none _).symm fun both => first ?_
      exact both.1 k (le_refl k) (by omega) fun m low high => absurd high (by omega)

theorem pointedDiffers_eq_some_iff (fs : Filesys) (fname : List UInt8) (i : UInt32) (goesOn : Bool) :
    fs.pointedDiffers readable fname i = some goesOn ↔
      fs.Comparable readable fname i ∧ (goesOn = false ↔ fs.Begins (fs.comparePointer i) fname) := by
  rw [pointedDiffers, readWord]
  by_cases word : ∀ b < 4, readable (fs.compareAddr i + UInt32.ofNat b)
  · have compared := fun value => @strncmpAt_eq_some_iff fs readable _ fname (fs.comparePointer i) (strlen fname) 0
      value fun k _ inside => getD_ne_zero (by omega)
    simp only [Nat.zero_add, Nat.zero_le, true_imp_iff] at compared
    rw [if_pos word]
    simp only [Option.bind_eq_bind, Option.bind_some, Option.bind_eq_some_iff, Option.some_inj]
    constructor
    · rintro ⟨value, result, rfl⟩
      obtain ⟨name, rfl⟩ := (compared value).mp result
      exact ⟨⟨word, name⟩, by rw [decide_eq_false_iff_not, not_not, strncmp_strlen_iff]⟩
    · rintro ⟨comparable, begins⟩
      refine ⟨_, (compared _).mpr ⟨comparable.name, rfl⟩, ?_⟩
      rw [← strncmp_strlen_iff] at begins
      cases goesOn with
      | false => exact decide_eq_false (not_not.mpr (begins.mp rfl))
      | true => exact decide_eq_true fun zero => Bool.noConfusion (begins.mpr zero)
  · rw [if_neg word]
    exact iff_of_false (Option.some_ne_none _).symm fun both => word both.1.word

/-- The search ends at `j` exactly if that is the first pointer that leads to the name, and every
comparison up to there is possible. -/
theorem scan_pointers_iff (fs : Filesys) (fname : List UInt8) (j : UInt32) :
    scanFaulting fs.dirEntries (fs.pointedDiffers readable fname) fs.dirEntries.toNat 0 = some j ↔
      FirstMatch fs.dirEntries (fun k => ¬fs.Begins (fs.comparePointer k) fname) j ∧
      ∀ k ≤ j, k < fs.dirEntries → fs.Comparable readable fname k := by
  rw [scanFaulting_eq_some_iff _ (Nat.zero_add _)]
  constructor
  · intro stops
    have before k (less : k < j) :=
      (fs.pointedDiffers_eq_some_iff fname k true).mp (stops.before k (UInt32.zero_le) less)
    have found (inside : j < fs.dirEntries) :=
      (fs.pointedDiffers_eq_some_iff fname j false).mp (stops.found inside)
    refine ⟨⟨stops.bound, fun k less => ?_, fun inside => not_not.mpr ((found inside).2.mp rfl)⟩,
      fun k le inside => ?_⟩
    · exact fun begins => Bool.noConfusion ((before k less).2.mpr begins)
    · rcases UInt32.lt_or_eq_of_le le with less | rfl
      · exact (before k less).1
      · exact (found inside).1
  · rintro ⟨first, comparable⟩
    refine ⟨UInt32.zero_le, first.bound, fun k _ less => ?_, fun inside => ?_⟩
    · rw [pointedDiffers_eq_some_iff]
      refine ⟨comparable k (UInt32.le_of_lt less) (UInt32.lt_of_lt_of_le less first.bound), ?_⟩
      exact iff_of_false Bool.noConfusion (first.before k less)
    · rw [pointedDiffers_eq_some_iff]
      exact ⟨comparable j (UInt32.le_refl j) inside, iff_of_true rfl (not_not.mp (first.found inside))⟩

/-! ## What `fopen` reads -/

omit [DecidablePred readable] in
theorem Compares.mono {readable' : UInt32 → Prop} {s1 : List UInt8} {s2 : UInt32}
    (compares : fs.Compares readable s1 s2) (more : ∀ a, readable a → readable' a) : fs.Compares readable' s1 s2 :=
  fun k inside same => more _ (compares k inside same)

/-- The last byte of the length of a file. -/
theorem length_ends_with_nul {inode : UInt32} (sound : fs.SoundInode inode) :
    fs.bytes (fs.inodeBlock inode + UInt32.ofNat 3) = 0 := by
  have short := sound.length
  rw [← Memory.byteOf_wordAt fs.bytes (fs.inodeBlock inode) (show 3 < 4 by decide)]
  apply UInt8.toNat_inj.mp
  rw [fileLength] at short
  simp [Memory.byteOf, Nat.shiftRight_eq_div_pow]
  omega

/-- In a well-formed image a comparison with a name does not leave the image: there is a NUL in
the inode of the entry. -/
theorem compares_inImage (wellFormed : fs.WellFormed) (fname : List UInt8) (entry : i < fs.dirEntries) :
    fs.Compares fs.InImage fname (fs.dentryAddr i) := by
  intro k inside same
  have few := wellFormed.entries
  have below : i.toNat < fs.dirEntries.toNat := entry
  have sound := wellFormed.files i entry
  have number : (fs.inodeOf i).toNat < fs.numInodes.toNat := sound.number
  -- From the start of the entry to the NUL.
  let distance := 4096 + (fs.inodeOf i).toNat * 4096 + 3 - (64 + i.toNat * 64)
  have nul : fs.bytes (fs.dentryAddr i + UInt32.ofNat distance) = 0 := by
    rw [← length_ends_with_nul sound, fs.dentryAddr_add, fs.inodeBlock_add]
    congr 3
    omega
  have near : k ≤ distance := by
    by_contra further
    exact getD_ne_zero (by omega) ((same distance (by omega)).trans nul)
  refine inImage_of_distance ?_ (fs.dentryAddr_add i k)
  rw [imageSize]
  omega

/-! ## The two lookups -/

/-- `read_dentry_by_name` returns. It succeeds when `fopen` does, with the entry that `fopen`
returns, and otherwise fails and leaves the caller's entry alone. -/
def LookupsAgree (readable : UInt32 → Prop) [DecidablePred readable] (fs : Filesys) (fname : List UInt8) : Prop :=
  ∀ dentry, ∃ value stored, fs.readDentryByName readable fname dentry = some (value, stored) ∧
    (value = 0 ↔ (fs.fopen fname).1 ≠ -1) ∧
    (∀ i < fs.dirEntries, (fs.fopen fname).1 = i.toInt32 → fs.readDentryByIndex i = some stored) ∧
    ((fs.fopen fname).1 = -1 → value = -1 ∧ stored = dentry)

/-- Up to the first entry where the name begins with `fname`, or what its word points to does,
every word and what it points to is mapped; and there both begin with `fname`. -/
def PointersAgree (readable : UInt32 → Prop) (fs : Filesys) (fname : List UInt8) : Prop :=
  ∀ i < fs.dirEntries,
    (∀ k < i, ¬fs.Begins (fs.dentryAddr k) fname ∧ ¬fs.Begins (fs.comparePointer k) fname) →
    fs.Comparable readable fname i ∧
      (fs.Begins (fs.dentryAddr i) fname ↔ fs.Begins (fs.comparePointer i) fname)

theorem FirstMatch.eq_of_missing {n : UInt32} {differs differs' : UInt32 → Prop}
    (first : FirstMatch n differs i) (first' : FirstMatch n differs' j) (missing : ¬i < n)
    (missing' : ¬j < n) : i = j := by
  rw [UInt32.le_antisymm first.bound (UInt32.not_lt.mp missing),
    UInt32.le_antisymm first'.bound (UInt32.not_lt.mp missing')]

/-- What is returned when the search ends at `j`, in an image that is mapped. -/
theorem readDentryByName_eq (names : fs.DistinctNames) (image : ∀ a, fs.InImage a → readable a) (dentry : Dentry)
    (stops : scanFaulting fs.dirEntries (fs.pointedDiffers readable fname) fs.dirEntries.toNat 0 = some j) :
    fs.readDentryByName readable fname dentry =
      some (if j < fs.dirEntries then (0, fs.dentryAt j) else (-1, dentry)) := by
  simp only [readDentryByName, stops, Option.bind_eq_bind, Option.bind_some]
  by_cases inside : j < fs.dirEntries
  · have few := names.entries
    have below : j.toNat < fs.dirEntries.toNat := inside
    rw [if_pos inside, if_pos inside, if_pos fun k bound =>
      image _ (dentryAddr_inImage (by omega) (by omega))]
  · rw [if_neg inside, if_neg inside]

/-- The searches of lookups that agree stop at the same entry. -/
theorem LookupsAgree.same (agree : fs.LookupsAgree readable fname) (names : fs.DistinctNames)
    (image : ∀ a, fs.InImage a → readable a) (first : FirstMatch fs.dirEntries (fs.nameDiffers fname) i)
    (stops : scanFaulting fs.dirEntries (fs.pointedDiffers readable fname) fs.dirEntries.toNat 0 = some j) :
    i = j := by
  have few : fs.dirEntries.toNat ≤ 2 ^ 31 := names.entries.trans (by decide)
  have value := fs.fopen_value fname first
  have negative : (-1 : Int32) ≠ 0 := by decide
  have first' := ((scan_pointers_iff fs fname j).mp stops).1
  obtain ⟨result, stored, returned, succeeds, same, fails⟩ := agree (fs.dentryAt 0)
  rw [readDentryByName_eq names image _ stops, Option.some_inj] at returned
  by_cases inside : i < fs.dirEntries
  · have opened : (fs.fopen fname).1 = i.toInt32 := value.trans (if_pos inside)
    have found : (fs.fopen fname).1 ≠ -1 := by
      rw [value, Ne, value_eq_neg_one_iff few, not_not]
      exact inside
    have inside' : j < fs.dirEntries := by
      by_contra missing
      rw [if_neg missing, succeeds.mpr found, Prod.mk.injEq] at returned
      exact negative returned.1
    -- Both store an entry, and entries with the same name are the same.
    rw [if_pos inside', Prod.mk.injEq] at returned
    have entry := same i inside opened
    rw [readDentryByIndex, if_pos inside, Option.some_inj, ← returned.2] at entry
    have name : fs.entryName i = fs.entryName j := congrArg (fun d : Dentry => text d.fname) entry
    exact names.distinct i inside j inside' name
  · refine first.eq_of_missing first' inside fun inside' => ?_
    rw [if_pos inside', (fails (value.trans (if_neg inside))).1, Prod.mk.injEq] at returned
    exact negative returned.1.symm

theorem lookupsAgree_of_same (names : fs.DistinctNames) (image : ∀ a, fs.InImage a → readable a)
    (first : FirstMatch fs.dirEntries (fs.nameDiffers fname) i)
    (stops : scanFaulting fs.dirEntries (fs.pointedDiffers readable fname) fs.dirEntries.toNat 0 = some i) :
    fs.LookupsAgree readable fname := by
  have few : fs.dirEntries.toNat ≤ 2 ^ 31 := names.entries.trans (by decide)
  have negative : (-1 : Int32) ≠ 0 := by decide
  intro dentry
  rw [fs.fopen_value fname first, readDentryByName_eq names image dentry stops]
  by_cases inside : i < fs.dirEntries
  · refine ⟨0, fs.dentryAt i, by rw [if_pos inside], ?_, fun k entry opened => ?_, fun missing => ?_⟩
    · rw [Ne, value_eq_neg_one_iff few, not_not]
      exact iff_of_true rfl inside
    · obtain rfl := (value_eq_index_iff few entry).mp opened
      exact if_pos entry
    · exact absurd inside ((value_eq_neg_one_iff few).mp missing)
  · refine ⟨-1, dentry, by rw [if_neg inside], ?_, fun k entry opened => ?_, fun _ => ⟨rfl, rfl⟩⟩
    · rw [Ne, value_eq_neg_one_iff few, not_not]
      exact iff_of_false negative inside
    · obtain rfl := (value_eq_index_iff few entry).mp opened
      exact absurd entry inside

/-- In a well-formed image that is mapped, `fopen` looks at mapped bytes only, and the two name
lookups agree if and only if no pointer that is followed leads to unmapped memory and, where the
first of the searches stops, the other stops too. -/
theorem lookups_agree_iff (readable : UInt32 → Prop) [DecidablePred readable] (fs : Filesys) (fname : List UInt8)
    (wellFormed : fs.WellFormed) (names : fs.DistinctNames) (image : ∀ a, fs.InImage a → readable a) :
    (∀ i < fs.dirEntries, fs.Compares readable fname (fs.dentryAddr i)) ∧
    (fs.LookupsAgree readable fname ↔ fs.PointersAgree readable fname) := by
  refine ⟨fun i entry => (compares_inImage wellFormed fname entry).mono image, ?_⟩
  have first := fs.findName_firstMatch fname
  generalize fs.findName fname fs.dirEntries.toNat 0 = i at first
  constructor
  · intro agree
    obtain ⟨_, _, returned, _⟩ := agree (fs.dentryAt 0)
    rw [readDentryByName] at returned
    obtain ⟨j, stops, _⟩ := Option.bind_eq_some_iff.mp returned
    obtain ⟨first', comparable⟩ := (scan_pointers_iff fs fname j).mp stops
    have same := agree.same names image first stops
    have both := (first.same_iff first').mp same
    simp only [nameDiffers_iff, not_iff_not] at both
    intro k entry before
    refine ⟨comparable k (UInt32.not_lt.mp fun later => ?_) entry, both k entry before⟩
    -- The search does not go beyond the pointer that leads to the name.
    exact first'.found (UInt32.lt_trans later entry) (before j later).2
  · intro agree
    have first' := scan_first fs.dirEntries fun k => ¬fs.Begins (fs.comparePointer k) fname
    generalize scan fs.dirEntries (fun k => ¬fs.Begins (fs.comparePointer k) fname) fs.dirEntries.toNat 0 = j at first'
    have same : i = j := by
      refine (first.same_iff first').mpr fun k entry before => ?_
      simp only [nameDiffers_iff] at before ⊢
      exact not_congr (agree k entry before).2
    subst same
    refine lookupsAgree_of_same names image first ((scan_pointers_iff fs fname i).mpr ⟨first', ?_⟩)
    intro k le entry
    refine (agree k entry fun m earlier => ?_).1
    have less := UInt32.lt_of_lt_of_le earlier le
    exact ⟨(nameDiffers_iff fs fname m).mp (first.before m less), first'.before m less⟩

/-- A directory with the names `cat` and `ls`, of one empty file. The first four characters of its
first entry are the address 0x746163, and there the name `cat` stands once more. -/
def catLsBytes (a : UInt32) : UInt8 :=
  if a = 0x500000 then 2
  else if a = 0x500004 then 1
  else if a = 0x500040 ∨ a = 0x746163 then 99
  else if a = 0x500041 ∨ a = 0x746164 then 97
  else if a = 0x500042 ∨ a = 0x746165 then 116
  else if a = 0x500080 then 108
  else if a = 0x500081 then 115
  else 0

def catLs : Filesys := filesysInit 0x500000 (boot catLsBytes)

theorem catLs_entry {k : UInt32} (entry : k < catLs.dirEntries) : k = 0 ∨ k = 1 := by
  have two : k.toNat < 2 := entry
  rcases Nat.lt_or_eq_of_le (Nat.le_of_lt_succ two) with zero | one
  · exact .inl (UInt32.toNat_inj.mp (Nat.lt_one_iff.mp zero))
  · exact .inr (UInt32.toNat_inj.mp one)

theorem catLs_distinct : catLs.DistinctNames := by
  refine ⟨by decide, fun i entry j entry' => ?_⟩
  rcases catLs_entry entry with rfl | rfl <;> rcases catLs_entry entry' with rfl | rfl <;> decide

theorem catLs_wellFormed : catLs.WellFormed := by
  refine ⟨by decide, fun k entry => ?_⟩
  rcases catLs_entry entry with rfl | rfl
  · exact ⟨by decide, by decide, fun i inside => absurd inside (Nat.not_lt_zero i)⟩
  · exact ⟨by decide, by decide, fun i inside => absurd inside (Nat.not_lt_zero i)⟩

/-- The image lies in the 4 MB page of the kernel. -/
theorem catLs_mapped (a : UInt32) (inside : catLs.InImage a) : Paging.Mapped a := by
  have near : (a - 0x500000).toNat < 8192 := inside
  rw [UInt32.toNat_sub] at near
  have start : (0x500000 : UInt32).toNat = 0x500000 := rfl
  have bound := a.toNat_lt
  exact (Paging.mapped_iff a).mpr (by omega)

/-- With the pages of `paging_init`, both lookups find `cat`. -/
theorem lookups_agree_catLs : catLs.LookupsAgree Paging.Mapped [99, 97, 116] := by
  apply (lookups_agree_iff Paging.Mapped catLs [99, 97, 116] catLs_wellFormed catLs_distinct catLs_mapped).2.mpr
  intro i entry before
  rcases catLs_entry entry with rfl | rfl
  · exact ⟨⟨by decide, fun k inside _ => (show ∀ k < 3, Paging.Mapped (0x746163 + UInt32.ofNat k) by decide) k inside⟩,
      by decide⟩
  · exact absurd (show catLs.Begins (catLs.dentryAddr 0) [99, 97, 116] by decide) (before 0 (by decide)).1

/-- `fopen` finds `ls`. `read_dentry_by_name` goes on to the word behind the entries, which is
NULL, and faults. -/
theorem readDentryByName_faults :
    catLs.WellFormed ∧ catLs.DistinctNames ∧ (∀ a, catLs.InImage a → Paging.Mapped a) ∧
    (catLs.fopen [108, 115]).1 = (1 : UInt32).toInt32 ∧
    (∀ dentry, catLs.readDentryByName Paging.Mapped [108, 115] dentry = none) ∧
    ¬catLs.LookupsAgree Paging.Mapped [108, 115] := by
  have faults (dentry : Dentry) : catLs.readDentryByName Paging.Mapped [108, 115] dentry = none := by
    have scan : scanFaulting catLs.dirEntries (catLs.pointedDiffers Paging.Mapped [108, 115])
        catLs.dirEntries.toNat 0 = none := by decide
    rw [readDentryByName, scan]
    rfl
  refine ⟨catLs_wellFormed, catLs_distinct, catLs_mapped, by decide, faults, fun agree => ?_⟩
  obtain ⟨value, stored, returned, _⟩ := agree (catLs.dentryAt 0)
  rw [faults] at returned
  exact Option.some_ne_none _ returned.symm

end Filesys

end Mp3Kernel
