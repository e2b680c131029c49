import Mp3Kernel.Paging.Init

/-!
# What `palloc` maps

`palloc` takes a directory entry for free when it is zero. `paging_init` leaves no
entry zero, so after it `palloc` refuses every call. Where an entry is zero, a
4 MB page is mapped as asked; a page table gets one frame for all its pages, and
lies at the virtual address it is to map.
-/

namespace Mp3Kernel

open Library

/-- The arguments of a call of `palloc`. -/
structure PallocCall where
  virtualAddr : UInt32
  physicalAddr : UInt32
  type : UInt32
  privilege : UInt32
  deriving DecidableEq

namespace PallocCall

/-- The directory entry of the region that the call asks for. -/
def index (c : PallocCall) : Nat := (c.virtualAddr / 0x400000).toNat

/-- The call passes the input checking. -/
def Valid (c : PallocCall) : Prop :=
  c.type ≤ 1 ∧ c.physicalAddr ≤ 0xFFC00000 ∧ c.privilege ≤ 1 ∧ c.virtualAddr ≤ 0xFFC00000

instance (c : PallocCall) : Decidable c.Valid := inferInstanceAs (Decidable (_ ∧ _))

def exec (c : PallocCall) (s : Paging) : Int × Paging :=
  s.palloc c.virtualAddr c.physicalAddr c.type c.privilege

/-- The state that the call leaves. -/
def step (c : PallocCall) (s : Paging) : Paging := (c.exec s).2

/-- The directory entry of the call's region. -/
def entry (c : PallocCall) (s : Paging) : UInt32 := entryAt s.cr3 c.index s.bytes

theorem index_eq (c : PallocCall) : c.index = c.virtualAddr.toNat / 2 ^ 22 := by
  rw [index, UInt32.toNat_div]
  rfl

theorem index_lt (c : PallocCall) : c.index < 1024 := by
  rw [index_eq]
  have := c.virtualAddr.toNat_lt
  omega

end PallocCall

namespace Paging

variable {s : Paging} {c : PallocCall}

/-! ## After `paging_init` -/

/-- A call for an entry that is not zero changes nothing. -/
theorem palloc_refuses (used : c.entry s ≠ 0) : c.exec s = (-1, s) := by
  rw [PallocCall.exec, palloc]
  split
  · rfl
  · exact if_pos ⟨used, by decide⟩

theorem initDirectory_ne_zero {i : Nat} (inside : i < 1024) : initDirectory i ≠ 0 := by
  rw [initDirectory]
  split
  · decide
  · split
    · decide
    · intro zero
      have writable : ((0x400000 * UInt32.ofNat i) ||| 2) &&& 2 = 2 &&& 2 :=
        or_flags_and (large_frame inside) (by decide)
      rw [zero] at writable
      exact absurd writable (by decide)

theorem initDirectory_present {i : Nat} (inside : i < 1024) : initDirectory i &&& 1 ≠ 0 ↔ i < 2 := by
  rw [initDirectory]
  split
  · rename_i zero
    exact iff_of_true (by decide) (by omega)
  · split
    · rename_i one
      exact iff_of_true (by decide) (by omega)
    · rw [or_flags_and (large_frame inside) (by decide)]
      exact iff_of_false (by decide) (by omega)

theorem entry_pagingInit (s : Paging) (c : PallocCall) :
    c.entry (pagingInit s) = initDirectory c.index :=
  (pagingInit_holds s).directory c.index c.index_lt

theorem exec_pagingInit (s : Paging) (c : PallocCall) :
    c.exec (pagingInit s) = (-1, pagingInit s) := by
  apply palloc_refuses
  rw [entry_pagingInit]
  exact initDirectory_ne_zero c.index_lt

theorem run_pagingInit (s : Paging) (calls : List PallocCall) :
    run PallocCall.step calls (pagingInit s) = pagingInit s := by
  induction calls with
  | nil => rfl
  | cons c calls ih => rw [run_cons, PallocCall.step, exec_pagingInit, ih]

/-- A valid call gets its region if that is free, and a present one is refused with no change. -/
def Serves (s : Paging) (c : PallocCall) : Prop :=
  (c.Valid → c.entry s &&& 1 = 0 → (c.exec s).1 = 0) ∧ (c.entry s &&& 1 ≠ 0 → c.exec s = (-1, s))

/-- After `paging_init` and any calls, `palloc` does what is asked of it only for the two
regions that are present: it never gives a region to a call. -/
theorem palloc_serves_iff (s : Paging) (calls : List PallocCall) (c : PallocCall) :
    Serves (run PallocCall.step calls (pagingInit s)) c ↔ (c.Valid → c.virtualAddr < 0x800000) := by
  rw [run_pagingInit, Serves, exec_pagingInit, entry_pagingInit]
  have present := initDirectory_present c.index_lt
  have place : c.index < 2 ↔ c.virtualAddr < 0x800000 := by
    rw [c.index_eq, UInt32.lt_iff_toNat_lt]
    exact Nat.div_lt_iff_lt_mul (by decide)
  rw [← place, ← present]
  constructor
  · rintro ⟨free, _⟩ valid
    intro absent
    have given : (-1 : Int) = 0 := free valid absent
    exact absurd given (by decide)
  · intro present
    exact ⟨fun valid absent => absurd absent (present valid), fun _ => rfl⟩

/-- A call for the third region, which is free. -/
def thirdRegion : PallocCall := ⟨0x800000, 0x800000, 1, 0⟩

def blank : Paging := ⟨fun _ => 0, 0, 0, 0⟩

theorem palloc_refuses_free :
    thirdRegion.Valid ∧ thirdRegion.entry (pagingInit blank) &&& 1 = 0 ∧
      ¬Serves (run PallocCall.step [] (pagingInit blank)) thirdRegion := by
  have free : thirdRegion.entry (pagingInit blank) &&& 1 = 0 := by
    rw [entry_pagingInit]
    decide
  refine ⟨by decide, free, fun serves => ?_⟩
  have given := serves.1 (by decide) free
  rw [run_nil, exec_pagingInit] at given
  cases given

/-! ## A call that succeeds -/

/-- A successful call maps its region as asked, and leaves the entries of the others alone. -/
def MapsRegion (s : Paging) (c : PallocCall) : Prop :=
  (c.exec s).1 = 0 →
    (∀ o : UInt32, o < 0x400000 →
      (c.step s).translate ((c.virtualAddr &&& 0xFFC00000) + o) =
        some ⟨(c.physicalAddr &&& 0xFFC00000) + o, true, c.privilege = 1⟩) ∧
    ∀ i < 1024, i ≠ c.index → entryAt s.cr3 i (c.step s).bytes = entryAt s.cr3 i s.bytes

/-- The flags of a 4 MB page. -/
def largeFlags (c : PallocCall) : UInt32 := if c.privilege = 0 then 0x83 else 0x87

/-- The flags of the entries of a page table. -/
def smallFlags (c : PallocCall) : UInt32 := if c.privilege = 0 then 3 else 7

/-- Entry `i` of the page table of a call: the mask clears what tells the pages apart. -/
def tableEntry (c : PallocCall) (i : Nat) : UInt32 :=
  ((c.physicalAddr + 0x1000 * UInt32.ofNat i) &&& 0xFFC00000) ||| smallFlags c

/-- Byte `n` of the page table of a call. -/
def tableByte (c : PallocCall) (n : Nat) : UInt8 := Memory.byteOf (tableEntry c (n / 4)) (n % 4)

/-- The directory entry of a page table is read as a 4 MB page: bit 7 of the virtual address
is the size bit. The map is right when the virtual address lies in the physical region and its
bit 2 agrees with the privilege; and the table must not alter the directory. This is the map of
`pageWalk`, which ignores bits 13 to 21 of the entry, here those of the virtual address: a CPU
that does not also needs them to be 0. -/
structure TakenForLarge (s : Paging) (c : PallocCall) : Prop where
  large : c.virtualAddr &&& 0x80 ≠ 0
  region : c.virtualAddr &&& 0xFFC00000 = c.physicalAddr &&& 0xFFC00000
  user : c.virtualAddr &&& 4 ≠ 0 ↔ c.privilege = 1
  kept : ∀ i < 1024, i ≠ c.index → ∀ k < 4,
    (s.cr3 + 4 * UInt32.ofNat i + UInt32.ofNat k - c.virtualAddr).toNat < 4096 →
      s.bytes (s.cr3 + 4 * UInt32.ofNat i + UInt32.ofNat k) =
        tableByte c (s.cr3 + 4 * UInt32.ofNat i + UInt32.ofNat k - c.virtualAddr).toNat

theorem fillTable_apply (table physicalAddr flags : UInt32) (bytes : UInt32 → UInt8) (a : UInt32) :
    fillTable table physicalAddr flags bytes a =
      if (a - table).toNat < 4096 then
        Memory.byteOf (((physicalAddr + 0x1000 * UInt32.ofNat ((a - table).toNat / 4)) &&&
          0xFFC00000) ||| flags) ((a - table).toNat % 4)
      else bytes a := by
  have rounds (n : Nat) : forLoop (fun i (round : UInt32 × (UInt32 → UInt8)) =>
        (round.1 + 0x1000, setEntry table i ((round.1 &&& 0xFFC00000) ||| flags) round.2))
        n (physicalAddr, bytes) =
      (physicalAddr + 0x1000 * UInt32.ofNat n,
        forLoop (fun i b => Memory.setWord (table + 4 * UInt32.ofNat i)
          (((physicalAddr + 0x1000 * UInt32.ofNat i) &&& 0xFFC00000) ||| flags) b) n bytes) := by
    induction n with
    | zero => simp
    | succ n ih =>
      rw [forLoop_succ, ih, forLoop_succ, UInt32.ofNat_add, UInt32.mul_add, UInt32.ofNat_one,
        UInt32.mul_one, UInt32.add_assoc]
      rfl
  rw [fillTable, rounds]
  exact Memory.forLoop_setWord_apply table _ (by decide) bytes a

theorem exec_invalid (invalid : ¬c.Valid) : c.exec s = (-1, s) := by
  rw [PallocCall.exec, palloc, if_pos]
  simp only [PallocCall.Valid, not_and_or, UInt32.not_le] at invalid
  exact invalid

/-- The memory after a call that has found its region free. -/
def mappedBytes (s : Paging) (c : PallocCall) : UInt32 → UInt8 :=
  if c.type = 1 then
    setEntry s.cr3 c.index ((c.physicalAddr &&& 0xFFC00000) ||| largeFlags c) s.bytes
  else
    setEntry s.cr3 c.index (c.virtualAddr ||| 3)
      (fillTable c.virtualAddr c.physicalAddr (smallFlags c) s.bytes)

theorem exec_free (valid : c.Valid) (free : c.entry s = 0) :
    c.exec s = (0, { s with bytes := mappedBytes s c }) := by
  have passed : ¬(c.type > 1 ∨ c.physicalAddr > 0xFFC00000 ∨ c.privilege > 1 ∨
      c.virtualAddr > 0xFFC00000) := by
    simp only [not_or, gt_iff_lt, UInt32.not_lt]
    exact valid
  have unused : ¬(entryAt s.cr3 (c.virtualAddr / 0x400000).toNat s.bytes ≠ 0 ∧ (1 : Int) ≠ 0) :=
    fun used => used.1 free
  rw [PallocCall.exec, palloc, if_neg passed]
  dsimp only
  rw [if_neg unused, mappedBytes]
  by_cases large : c.type = 1
  · rw [if_pos large, if_pos large, largeFlags]
    split <;> rfl
  · rw [if_neg large, if_neg large, smallFlags]
    split <;> rfl

/-- The translation of the region of a call, in the memory that the call leaves. -/
def Translates (s : Paging) (c : PallocCall) : Prop :=
  ∀ o : UInt32, o < 0x400000 →
    pageWalk s.cr3 (mappedBytes s c) ((c.virtualAddr &&& 0xFFC00000) + o) =
      some ⟨(c.physicalAddr &&& 0xFFC00000) + o, true, c.privilege = 1⟩

def KeepsOthers (s : Paging) (c : PallocCall) : Prop :=
  ∀ i < 1024, i ≠ c.index → entryAt s.cr3 i (mappedBytes s c) = entryAt s.cr3 i s.bytes

theorem mapsRegion_free (aligned : s.cr3.toNat % 4096 = 0) (valid : c.Valid) (free : c.entry s = 0) :
    MapsRegion s c ↔ Translates s c ∧ KeepsOthers s c := by
  have directory : s.cr3 &&& 0xFFFFF000 = s.cr3 := and_page_of_dvd aligned
  rw [MapsRegion, PallocCall.step, exec_free valid free]
  simp only [translate, directory, forall_const]
  exact Iff.rfl

/-- The directory entry that the call writes. -/
theorem entryAt_mappedBytes (aligned : s.cr3.toNat % 4096 = 0) :
    entryAt s.cr3 c.index (mappedBytes s c) =
      if c.type = 1 then (c.physicalAddr &&& 0xFFC00000) ||| largeFlags c
      else c.virtualAddr ||| 3 := by
  rw [mappedBytes]
  split <;> rw [entryAt_same aligned c.index_lt c.index_lt, if_pos rfl]

theorem directoryIndex_call {o : UInt32} (inside : o < 0x400000) :
    directoryIndex ((c.virtualAddr &&& 0xFFC00000) + o) = c.index := by
  rw [directoryIndex_region c.virtualAddr inside, c.index_eq]

theorem privilege_cases (valid : c.Valid) : c.privilege = 0 ∨ c.privilege = 1 := by
  have small : c.privilege.toNat ≤ 1 := valid.2.2.1
  have value : c.privilege.toNat = 0 ∨ c.privilege.toNat = 1 := by omega
  rcases value with zero | one
  · exact .inl (UInt32.toNat_inj.mp zero)
  · exact .inr (UInt32.toNat_inj.mp one)

/-! ### A 4 MB page -/

theorem large_translates (aligned : s.cr3.toNat % 4096 = 0) (valid : c.Valid) (large : c.type = 1) :
    Translates s c := by
  intro o inside
  have pde := entryAt_mappedBytes (s := s) (c := c) aligned
  rw [if_pos large, ← directoryIndex_call inside] at pde
  have region : (c.physicalAddr &&& 0xFFC00000) &&& 0xFFC00000 = c.physicalAddr &&& 0xFFC00000 := by
    rw [UInt32.and_assoc, UInt32.and_self]
  have flag (mask : UInt32) (low : 0xFFFFF000 &&& mask = 0) :
      ((c.physicalAddr &&& 0xFFC00000) ||| largeFlags c) &&& mask = largeFlags c &&& mask :=
    or_flags_and (page_of_region region) low
  have flags : largeFlags c &&& 0xFFC00000 = 0 ∧ largeFlags c &&& 1 ≠ 0 ∧ largeFlags c &&& 0x80 ≠ 0 ∧
      largeFlags c &&& 2 ≠ 0 ∧ (largeFlags c &&& 4 ≠ 0 ↔ c.privilege = 1) := by
    rw [largeFlags]
    rcases privilege_cases valid with user | user <;> rw [user] <;> decide
  obtain ⟨low, present, size, writable, user⟩ := flags
  have walked := pageWalk_large pde (by rw [flag 1 (by decide)]; exact present)
    (by rw [flag 0x80 (by decide)]; exact size)
  rw [walked, or_flags_frame region low, offset_region c.virtualAddr inside, flag 2 (by decide),
    flag 4 (by decide), decide_eq_true writable, decide_eq_decide.mpr user]

theorem large_keepsOthers (aligned : s.cr3.toNat % 4096 = 0) (large : c.type = 1) :
    KeepsOthers s c := by
  intro i inside other
  rw [mappedBytes, if_pos large, entryAt_same aligned inside c.index_lt, if_neg other]

/-! ### A page table -/

theorem fill_apply (c : PallocCall) (bytes : UInt32 → UInt8) (a : UInt32) :
    fillTable c.virtualAddr c.physicalAddr (smallFlags c) bytes a =
      if (a - c.virtualAddr).toNat < 4096 then tableByte c (a - c.virtualAddr).toNat else bytes a :=
  fillTable_apply c.virtualAddr c.physicalAddr (smallFlags c) bytes a

theorem small_keepsOthers_iff (aligned : s.cr3.toNat % 4096 = 0) (small : c.type ≠ 1) :
    KeepsOthers s c ↔ ∀ i < 1024, i ≠ c.index → ∀ k < 4,
      (s.cr3 + 4 * UInt32.ofNat i + UInt32.ofNat k - c.virtualAddr).toNat < 4096 →
        s.bytes (s.cr3 + 4 * UInt32.ofNat i + UInt32.ofNat k) =
          tableByte c (s.cr3 + 4 * UInt32.ofNat i + UInt32.ofNat k - c.virtualAddr).toNat := by
  apply forall_congr'; intro i
  apply forall_congr'; intro inside
  apply forall_congr'; intro other
  rw [mappedBytes, if_neg small, entryAt_same aligned inside c.index_lt, if_neg other, entryAt, entryAt,
    Memory.wordAt_eq_iff]
  apply forall_congr'; intro k
  apply forall_congr'; intro _
  rw [fill_apply]
  split
  · rename_i covered
    exact ⟨fun same _ => same.symm, fun same => (same covered).symm⟩
  · rename_i free
    exact iff_of_true rfl fun covered => absurd covered free

/-- The flags that the directory entry of a page table gets besides the virtual address. -/
theorem or_three_and (v : UInt32) {mask : UInt32} (clear : 3 &&& mask = 0) :
    (v ||| 3) &&& mask = v &&& mask := by
  rw [or_and_distrib, clear, UInt32.or_zero]

theorem or_three_set (v : UInt32) {mask : UInt32} (set : 3 &&& mask ≠ 0) : (v ||| 3) &&& mask ≠ 0 := by
  rw [or_and_distrib]
  intro zero
  exact set (UInt32.or_eq_zero_iff.mp zero).2

/-- The size bit of the directory entry comes from the virtual address. -/
theorem small_translates_iff_of_size (aligned : s.cr3.toNat % 4096 = 0) (small : c.type ≠ 1)
    (size : c.virtualAddr &&& 0x80 ≠ 0) :
    Translates s c ↔ c.virtualAddr &&& 0xFFC00000 = c.physicalAddr &&& 0xFFC00000 ∧
      (c.virtualAddr &&& 4 ≠ 0 ↔ c.privilege = 1) := by
  have size' : (c.virtualAddr ||| 3) &&& 0x80 ≠ 0 := by
    rw [or_three_and _ (by decide)]
    exact size
  have present : (c.virtualAddr ||| 3) &&& 1 ≠ 0 := or_three_set _ (by decide)
  have writable : (c.virtualAddr ||| 3) &&& 2 ≠ 0 := or_three_set _ (by decide)
  have frame : (c.virtualAddr ||| 3) &&& 0xFFC00000 = c.virtualAddr &&& 0xFFC00000 :=
    or_three_and _ (by decide)
  have user : (c.virtualAddr ||| 3) &&& 4 = c.virtualAddr &&& 4 := or_three_and _ (by decide)
  have walked (o : UInt32) (inside : o < 0x400000) :
      pageWalk s.cr3 (mappedBytes s c) ((c.virtualAddr &&& 0xFFC00000) + o) =
        some ⟨(c.virtualAddr &&& 0xFFC00000) + o, true, c.virtualAddr &&& 4 ≠ 0⟩ := by
    have pde := entryAt_mappedBytes (s := s) (c := c) aligned
    rw [if_neg small, ← directoryIndex_call inside] at pde
    rw [pageWalk_large pde present size', frame, offset_region c.virtualAddr inside, user,
      decide_eq_true writable]
  constructor
  · intro translates
    have first := translates 0 (by decide)
    rw [walked 0 (by decide), Option.some.injEq, Mapping.mk.injEq, UInt32.add_zero, UInt32.add_zero,
      decide_eq_decide] at first
    exact ⟨first.1, first.2.2⟩
  · rintro ⟨region, privilege⟩ o inside
    rw [walked o inside, region, decide_eq_decide.mpr privilege]

theorem tableEntry_bit (c : PallocCall) (j : Nat) {i : Nat} (low : 3 ≤ i) (high : i < 22) :
    (tableEntry c j).toBitVec.getLsbD i = false := by
  have masked : ∀ i < 22, (0xFFC00000 : UInt32).toBitVec.getLsbD i = false := by decide
  have flags : ∀ i < 22, 3 ≤ i → (smallFlags c).toBitVec.getLsbD i = false := by
    rw [smallFlags]
    split <;> decide
  rw [tableEntry, UInt32.toBitVec_or, BitVec.getLsbD_or, UInt32.toBitVec_and, BitVec.getLsbD_and,
    masked i high, flags i high low, Bool.and_false, Bool.or_false]

/-- No entry of the page table names the page `e`, wherever in the table it is read: bit 0 and
bit 13 are never both set. -/
theorem tableByte_bits (c : PallocCall) (n : Nat) (present : (tableByte c n).toBitVec.getLsbD 0 = true) :
    (tableByte c (n + 1)).toBitVec.getLsbD 5 = false := by
  rw [tableByte, Memory.getLsbD_byteOf _ (Nat.mod_lt n (by decide)) (by decide)] at present
  rw [tableByte, Memory.getLsbD_byteOf _ (Nat.mod_lt (n + 1) (by decide)) (by decide)]
  have place : n % 4 = 0 ∨ n % 4 = 1 ∨ n % 4 = 2 ∨ n % 4 = 3 := by omega
  rcases place with place | place | place | place
  · exact tableEntry_bit c _ (by omega) (by omega)
  · rw [place, tableEntry_bit c _ (by omega) (by omega)] at present
    cases present
  · rw [place, tableEntry_bit c _ (by omega) (by omega)] at present
    cases present
  · exact tableEntry_bit c _ (by omega) (by omega)

/-- The entry that the CPU reads for page `e` of the region: the table starts at the virtual
address, and the CPU takes it to start at the page of that address. -/
def readEntry (s : Paging) (c : PallocCall) (e : Nat) : UInt32 :=
  entryAt (c.virtualAddr &&& 0xFFFFF000) e
    (fillTable c.virtualAddr c.physicalAddr (smallFlags c) s.bytes)

theorem readEntry_bits (s : Paging) (size : c.virtualAddr &&& 0x80 = 0) {e : Nat} (low : 1022 ≤ e)
    (high : e < 1024) (present : (readEntry s c e).toBitVec.getLsbD 0 = true) :
    (readEntry s c e).toBitVec.getLsbD 13 = false := by
  have sizeBit : c.virtualAddr.toNat / 2 ^ 7 % 2 ≠ 1 := by
    rwa [and_mask_eq_zero_iff (i := 7) _ (by decide) (by decide), getLsbD_eq_decide,
      decide_eq_false_iff_not] at size
  have place := toNat_entry (page_aligned c.virtualAddr) high
  rw [toNat_and_page] at place
  -- The first two bytes of the entry lie in the table that was filled.
  have byte (k : Nat) (first : k < 2) :
      fillTable c.virtualAddr c.physicalAddr (smallFlags c) s.bytes
        ((c.virtualAddr &&& 0xFFFFF000) + 4 * UInt32.ofNat e + UInt32.ofNat k) =
      tableByte c (4 * e - c.virtualAddr.toNat % 4096 + k) := by
    have bound := c.virtualAddr.toNat_lt
    have step : (UInt32.ofNat k).toNat = k := UInt32.toNat_ofNat_of_lt' (show k < 2 ^ 32 by omega)
    have address := toNat_add_of_lt
      (a := (c.virtualAddr &&& 0xFFFFF000) + 4 * UInt32.ofNat e) (b := UInt32.ofNat k) (by omega)
    have distance := toNat_sub_of_le
      (a := (c.virtualAddr &&& 0xFFFFF000) + 4 * UInt32.ofNat e + UInt32.ofNat k)
      (b := c.virtualAddr) (by omega)
    have same : ((c.virtualAddr &&& 0xFFFFF000) + 4 * UInt32.ofNat e + UInt32.ofNat k -
        c.virtualAddr).toNat = 4 * e - c.virtualAddr.toNat % 4096 + k := by omega
    rw [fill_apply, same, if_pos (by omega)]
  rw [readEntry, entryAt, Memory.getLsbD_wordAt _ _ (by decide)] at present ⊢
  rw [byte 0 (by decide)] at present
  rw [byte 1 (by decide)]
  exact tableByte_bits c _ present

/-- With the size bit clear the last pages are not mapped as asked. -/
theorem small_not_translates (aligned : s.cr3.toNat % 4096 = 0) (small : c.type ≠ 1)
    (size : c.virtualAddr &&& 0x80 = 0) : ¬Translates s c := by
  intro translates
  -- A page near the end whose entry the directory entry of the call does not overwrite.
  obtain ⟨e, last, other⟩ : ∃ e, (e = 1022 ∨ e = 1023) ∧ e ≠ c.index := by
    by_cases index : c.index = 1023
    · exact ⟨1022, .inl rfl, by omega⟩
    · exact ⟨1023, .inr rfl, by omega⟩
  have offset : (0x1000 * UInt32.ofNat e).toNat = 0x1000 * e := toNat_mul_ofNat (by simp; omega)
  have inside : 0x1000 * UInt32.ofNat e < 0x400000 := by
    rw [UInt32.lt_iff_toNat_lt, offset]
    simp
    omega
  have pde := entryAt_mappedBytes (s := s) (c := c) aligned
  rw [if_neg small, ← directoryIndex_call inside] at pde
  have page := tableIndex_region c.virtualAddr inside
  rw [offset] at page
  have index : tableIndex ((c.virtualAddr &&& 0xFFC00000) + 0x1000 * UInt32.ofNat e) = e := by omega
  have mapped := translates (0x1000 * UInt32.ofNat e) inside
  rw [pageWalk_small pde (or_three_set _ (by decide)) (by rw [or_three_and _ (by decide)]; exact size) rfl,
    index, or_three_and _ (by decide)] at mapped
  -- The entry of the page comes from the table.
  have entry : entryAt (c.virtualAddr &&& 0xFFFFF000) e (mappedBytes s c) = readEntry s c e := by
    rw [mappedBytes, if_neg small,
      entryAt_setEntry (page_aligned c.virtualAddr) aligned (by omega) c.index_lt,
      if_neg fun same => other same.2, readEntry]
  rw [entry] at mapped
  split at mapped
  · cases mapped
  · rename_i present
    simp only [Option.some.injEq, Mapping.mk.injEq] at mapped
    -- A present entry would have to hold the number `e`, whose bit 1 is set.
    have number := page_number c.virtualAddr (show e < 1024 by omega) mapped.1
    have bit : (readEntry s c e).toBitVec.getLsbD 0 = true := by
      rwa [and_mask_eq_zero_iff (i := 0) _ (by decide) (by decide), Bool.not_eq_false] at present
    have clear := readEntry_bits s size (by omega) (by omega) bit
    rw [getLsbD_eq_decide, decide_eq_false_iff_not] at clear
    omega

/-- A call of `palloc` keeps its promise exactly when it is refused, asks for a 4 MB page, or has
its page table taken for a 4 MB page that happens to be the right one. -/
theorem palloc_maps_iff (s : Paging) (c : PallocCall) (aligned : s.cr3.toNat % 4096 = 0) :
    MapsRegion s c ↔ ¬c.Valid ∨ c.entry s ≠ 0 ∨ c.type = 1 ∨ TakenForLarge s c := by
  by_cases valid : c.Valid
  · by_cases free : c.entry s = 0
    · rw [mapsRegion_free aligned valid free]
      by_cases large : c.type = 1
      · exact iff_of_true ⟨large_translates aligned valid large, large_keepsOthers aligned large⟩
          (.inr (.inr (.inl large)))
      · have remaining : ¬c.Valid ∨ c.entry s ≠ 0 ∨ c.type = 1 ∨ TakenForLarge s c ↔ TakenForLarge s c := by
          simp [valid, free, large]
        rw [remaining]
        by_cases size : c.virtualAddr &&& 0x80 = 0
        · exact iff_of_false (fun both => small_not_translates aligned large size both.1)
            fun taken => taken.large size
        · rw [small_translates_iff_of_size aligned large size, small_keepsOthers_iff aligned large]
          constructor
          · rintro ⟨⟨region, user⟩, kept⟩
            exact ⟨size, region, user, kept⟩
          · rintro ⟨_, region, user, kept⟩
            exact ⟨⟨region, user⟩, kept⟩
    · refine iff_of_true (fun given => ?_) (.inr (.inl free))
      rw [palloc_refuses free] at given
      cases given
  · refine iff_of_true (fun given => ?_) (.inl valid)
    rw [exec_invalid valid] at given
    cases given

/-- A directory in which every entry is free. -/
def emptyDirectory : Paging := { blank with cr3 := pdbrAddr }

theorem palloc_maps_thirdRegion : MapsRegion emptyDirectory thirdRegion :=
  (palloc_maps_iff emptyDirectory thirdRegion (by decide)).mpr (.inr (.inr (.inl rfl)))

/-- The same region through a page table. -/
def thirdRegionTable : PallocCall := { thirdRegion with type := 0 }

theorem palloc_table_wrong : ¬MapsRegion emptyDirectory thirdRegionTable := by
  rw [mapsRegion_free (by decide) (by decide) (by decide)]
  intro both
  exact small_not_translates (by decide) (by decide) (by decide) both.1

end Paging

end Mp3Kernel
