import Mp3Kernel.Paging.Basic

/-!
# The map that `paging_init` builds

The directory and the page table are built by one loop and then patched. Each
patch is a store to one entry of one of the two tables, so the tables are
followed entry by entry.
-/

namespace Mp3Kernel

open Library

namespace Paging

variable {s : Paging} {i : Nat}

/-- The contents of the directory and of the page table. -/
structure Holds (directory table : Nat → UInt32) (bytes : UInt32 → UInt8) : Prop where
  directory : ∀ i < 1024, entryAt pdbrAddr i bytes = directory i
  table : ∀ i < 1024, entryAt tableAddr i bytes = table i

theorem entryAt_pdbr_setEntry_table {j : Nat} (inside : i < 1024) (inside' : j < 1024) (value : UInt32)
    (bytes : UInt32 → UInt8) :
    entryAt pdbrAddr i (setEntry tableAddr j value bytes) = entryAt pdbrAddr i bytes := by
  rw [entryAt_setEntry (by decide) (by decide) inside inside', if_neg (by simp [pdbrAddr, tableAddr])]

theorem entryAt_table_setEntry_pdbr {j : Nat} (inside : i < 1024) (inside' : j < 1024) (value : UInt32)
    (bytes : UInt32 → UInt8) :
    entryAt tableAddr i (setEntry pdbrAddr j value bytes) = entryAt tableAddr i bytes := by
  rw [entryAt_setEntry (by decide) (by decide) inside inside', if_neg (by simp [pdbrAddr, tableAddr])]

theorem entryAt_same {base : UInt32} (aligned : base.toNat % 4096 = 0) {j : Nat} (inside : i < 1024)
    (inside' : j < 1024) (value : UInt32) (bytes : UInt32 → UInt8) :
    entryAt base i (setEntry base j value bytes) =
      if i = j then value else entryAt base i bytes := by
  rw [entryAt_setEntry aligned aligned inside inside']
  simp only [true_and]

variable {directory table : Nat → UInt32} {bytes : UInt32 → UInt8}

theorem Holds.setTable (holds : Holds directory table bytes) {j : Nat} (inside : j < 1024)
    (value : UInt32) :
    Holds directory (Function.update table j value) (setEntry tableAddr j value bytes) := by
  constructor
  · intro i small
    rw [entryAt_pdbr_setEntry_table small inside, holds.directory i small]
  · intro i small
    rw [entryAt_same (by decide) small inside, holds.table i small, Function.update_apply]

theorem Holds.setDirectory (holds : Holds directory table bytes) {j : Nat} (inside : j < 1024)
    (value : UInt32) :
    Holds (Function.update directory j value) table (setEntry pdbrAddr j value bytes) := by
  constructor
  · intro i small
    rw [entryAt_same (by decide) small inside, holds.directory i small, Function.update_apply]
  · intro i small
    rw [entryAt_table_setEntry_pdbr small inside, holds.table i small]

theorem Holds.orTable (holds : Holds directory table bytes) {j : Nat} (inside : j < 1024)
    (flags : UInt32) :
    Holds directory (Function.update table j (table j ||| flags)) (orEntry tableAddr j flags bytes) := by
  rw [orEntry, holds.table j inside]
  exact holds.setTable inside _

/-- The first loop has filled the entries below `n`. -/
structure Filled (n : Nat) (a : Accumulators) : Prop where
  address : a.address = 0x400000 * UInt32.ofNat n
  tableAddress : a.tableAddress = 0x1000 * UInt32.ofNat n
  directory : ∀ i < n, entryAt pdbrAddr i a.bytes = (0x400000 * UInt32.ofNat i) ||| 2
  table : ∀ i < n, entryAt tableAddr i a.bytes = (0x1000 * UInt32.ofNat i) ||| 2

theorem initRound_filled {n : Nat} {a : Accumulators} (inside : n < 1024) (filled : Filled n a) :
    Filled (n + 1) (initRound n a) := by
  have next (step : UInt32) : step * UInt32.ofNat (n + 1) = step * UInt32.ofNat n + step := by
    rw [UInt32.ofNat_add, UInt32.mul_add, UInt32.ofNat_one, UInt32.mul_one]
  constructor
  · rw [initRound, filled.address, next]
  · rw [initRound, filled.tableAddress, next]
  · intro i below
    have small : i < 1024 := by omega
    simp only [initRound]
    rw [entryAt_pdbr_setEntry_table small inside, entryAt_same (by decide) small inside]
    split
    · rename_i last
      rw [last, filled.address]
    · exact filled.directory i (by omega)
  · intro i below
    have small : i < 1024 := by omega
    simp only [initRound]
    rw [entryAt_same (by decide) small inside, entryAt_table_setEntry_pdbr small inside]
    split
    · rename_i last
      rw [last, filled.tableAddress]
    · exact filled.table i (by omega)

theorem firstLoop_holds (bytes : UInt32 → UInt8) :
    Holds (fun i => (0x400000 * UInt32.ofNat i) ||| 2) (fun i => (0x1000 * UInt32.ofNat i) ||| 2)
      (forLoop initRound 1024 ⟨bytes, 0, 0⟩).bytes := by
  have filled : Filled 1024 (forLoop initRound 1024 ⟨bytes, 0, 0⟩) := by
    apply forLoop_invariant initRound Filled
    · exact ⟨rfl, rfl, fun i below => absurd below (Nat.not_lt_zero i),
        fun i below => absurd below (Nat.not_lt_zero i)⟩
    · intro i a inside filled
      exact initRound_filled inside filled
  exact ⟨filled.directory, filled.table⟩

/-- The loop over the entries of the second to fourth megabyte. -/
theorem lastLoop_holds (holds : Holds directory table bytes) {n : Nat} (inside : n ≤ 0x300) :
    Holds directory (fun i => if 0x100 ≤ i ∧ i < 0x100 + n then table i ||| 3 else table i)
      (forLoop (fun k => orEntry tableAddr (0x100 + k) 3) n bytes) := by
  induction n with
  | zero =>
    have none (i : Nat) : ¬(0x100 ≤ i ∧ i < 0x100 + 0) := by omega
    simp only [none, if_false]
    exact holds
  | succ n ih =>
    have before := ih (by omega)
    have now := before.orTable (show 0x100 + n < 1024 by omega) 3
    refine ⟨now.directory, fun i small => ?_⟩
    rw [forLoop_succ, now.table i small, Function.update_apply]
    split
    · rename_i last
      rw [last, if_neg (by omega), if_pos (by omega)]
    · rename_i other
      by_cases already : 0x100 ≤ i ∧ i < 0x100 + n
      · rw [if_pos already, if_pos (by omega)]
      · rw [if_neg already, if_neg (by omega)]

/-! ## The finished tables -/

def initDirectory (i : Nat) : UInt32 :=
  if i = 0 then 0x2003 else if i = 1 then 0x400181 else (0x400000 * UInt32.ofNat i) ||| 2

def initTable (i : Nat) : UInt32 :=
  if i = 0 then 0
  else if i = 1 ∨ i = 2 ∨ i = 0xB8 ∨ 0x100 ≤ i then (0x1000 * UInt32.ofNat i) ||| 3
  else (0x1000 * UInt32.ofNat i) ||| 2

theorem or_two_or_three (x : UInt32) : (x ||| 2) ||| 3 = x ||| 3 := by
  rw [UInt32.or_assoc]
  rfl

theorem pagingInit_holds (s : Paging) : Holds initDirectory initTable (pagingInit s).bytes := by
  -- The stores of `paging_init` in their order.
  have first := firstLoop_holds s.bytes
  have null := first.setTable (j := 0) (by decide) 0
  have present := (null.orTable (j := 1) (by decide) 3).orTable (j := 2) (by decide) 3
  have video := present.orTable (j := 0xB8) (by decide) 3
  have patched := lastLoop_holds video (n := 0x300) (by decide)
  have done := (patched.setDirectory (j := 0) (by decide) (tableAddr ||| 3)).setDirectory (j := 1)
    (by decide) (0x400000 ||| 0x181)
  constructor
  · intro i small
    rw [pagingInit, done.directory i small, initDirectory]
    simp only [Function.update_apply]
    by_cases zero : i = 0
    · subst zero
      rfl
    · by_cases one : i = 1
      · subst one
        rfl
      · simp [zero, one]
  · intro i small
    rw [pagingInit, done.table i small, initTable]
    simp only [Function.update_apply]
    by_cases zero : i = 0
    · subst zero
      rfl
    · by_cases high : 0x100 ≤ i
      · rw [if_pos ⟨high, by omega⟩, if_neg (by omega), if_neg (by omega), if_neg (by omega), if_neg zero,
          if_neg zero, if_pos (by omega), or_two_or_three]
      · rw [if_neg (by omega), if_neg zero]
        split
        · rename_i video
          subst video
          rfl
        · split
          · rename_i two
            subst two
            rfl
          · split
            · rename_i one
              subst one
              rfl
            · rw [if_neg (by omega)]

/-! ## The map -/

/-- The two tables, the page of the screen, the kernel's low memory and its 4 MB page. -/
def Mapped (a : UInt32) : Prop :=
  (0x1000 ≤ a ∧ a < 0x3000) ∨ (0xB8000 ≤ a ∧ a < 0xB9000) ∨ (0x100000 ≤ a ∧ a < 0x400000) ∨
    (0x400000 ≤ a ∧ a < 0x800000)

instance (a : UInt32) : Decidable (Mapped a) := inferInstanceAs (Decidable (_ ∨ _))

theorem mapped_iff (a : UInt32) :
    Mapped a ↔ (0x1000 ≤ a.toNat ∧ a.toNat < 0x3000) ∨ (0xB8000 ≤ a.toNat ∧ a.toNat < 0xB9000) ∨
      (0x100000 ≤ a.toNat ∧ a.toNat < 0x800000) := by
  simp only [Mapped, UInt32.le_iff_toNat_le, UInt32.lt_iff_toNat_lt, UInt32.reduceToNat]
  omega

/-- The frames of the 4 KB pages of the first 4 MB. -/
theorem small_frame {i : Nat} (small : i < 1024) :
    (0x1000 * UInt32.ofNat i).toNat = 0x1000 * i ∧
    (0x1000 * UInt32.ofNat i) &&& 0xFFFFF000 = 0x1000 * UInt32.ofNat i :=
  page_frame (by decide) (by simp; omega)

/-- The frames of the 4 MB pages. -/
theorem large_frame {i : Nat} (small : i < 1024) :
    (0x400000 * UInt32.ofNat i) &&& 0xFFFFF000 = 0x400000 * UInt32.ofNat i :=
  (page_frame (by decide) (by simp; omega)).2

theorem initTable_present {i : Nat} (small : i < 1024) :
    initTable i &&& 1 ≠ 0 ↔ i = 1 ∨ i = 2 ∨ i = 0xB8 ∨ 0x100 ≤ i := by
  have page := (small_frame small).2
  rw [initTable]
  split
  · rename_i zero
    subst zero
    simp
  · split
    · rename_i listed
      rw [or_flags_and page (by decide)]
      exact iff_of_true (by decide) listed
    · rename_i unlisted
      rw [or_flags_and page (by decide)]
      exact iff_of_false (by decide) unlisted

theorem initTable_frame {i : Nat} (small : i < 1024)
    (listed : i = 1 ∨ i = 2 ∨ i = 0xB8 ∨ 0x100 ≤ i) :
    initTable i &&& 0xFFFFF000 = 0x1000 * UInt32.ofNat i := by
  rw [initTable, if_neg (by omega), if_pos listed]
  exact or_flags_frame (small_frame small).2 (by decide)

@[simp] theorem pagingInit_cr3 (s : Paging) : (pagingInit s).cr3 = pdbrAddr := rfl

theorem translate_pagingInit (s : Paging) (a : UInt32) :
    (pagingInit s).translate a = pageWalk pdbrAddr (pagingInit s).bytes a := by
  have directory : pdbrAddr &&& 0xFFFFF000 = pdbrAddr := by decide
  rw [translate, pagingInit_cr3, directory]

/-- The first 4 MB go through the page table. -/
theorem translate_low (s : Paging) {a : UInt32} (low : a.toNat < 0x400000) :
    ((pagingInit s).translate a).map Mapping.physical = if Mapped a then some a else none := by
  have holds := pagingInit_holds s
  have first : directoryIndex a = 0 := by rw [directoryIndex_eq]; omega
  have page : tableIndex a = a.toNat / 0x1000 := by rw [tableIndex_eq]; omega
  have small : a.toNat / 0x1000 < 1024 := by omega
  have pde : entryAt pdbrAddr (directoryIndex a) (pagingInit s).bytes = 0x2003 := by
    rw [first, holds.directory 0 (by decide)]
    rfl
  have pte : entryAt ((0x2003 : UInt32) &&& 0xFFFFF000) (tableIndex a) (pagingInit s).bytes =
      initTable (a.toNat / 0x1000) := by
    rw [page, ← holds.table _ small]
    rfl
  rw [translate_pagingInit, pageWalk_small pde (by decide) (by decide) pte]
  have present := initTable_present small
  by_cases listed : a.toNat / 0x1000 = 1 ∨ a.toNat / 0x1000 = 2 ∨ a.toNat / 0x1000 = 0xB8 ∨
      0x100 ≤ a.toNat / 0x1000
  · rw [if_neg (present.mpr listed), if_pos ((mapped_iff a).mpr (by omega)), Option.map_some]
    apply congrArg some
    apply UInt32.toNat_inj.mp
    dsimp only
    rw [initTable_frame small listed, UInt32.toNat_add, (small_frame small).1, toNat_and_offset]
    omega
  · rw [if_pos (not_not.mp (mt present.mp listed)), if_neg (mt (mapped_iff a).mp (by omega))]
    rfl

/-- The kernel's own 4 MB page. -/
theorem translate_kernel (s : Paging) {a : UInt32} (start : 0x400000 ≤ a.toNat) (stop : a.toNat < 0x800000) :
    ((pagingInit s).translate a).map Mapping.physical = some a := by
  have second : directoryIndex a = 1 := by rw [directoryIndex_eq]; omega
  have pde : entryAt pdbrAddr (directoryIndex a) (pagingInit s).bytes = 0x400181 := by
    rw [second, (pagingInit_holds s).directory 1 (by decide)]
    rfl
  have frame : ((0x400181 : UInt32) &&& 0xFFC00000).toNat = 0x400000 := by decide
  rw [translate_pagingInit, pageWalk_large pde (by decide) (by decide), Option.map_some]
  refine congrArg some (UInt32.toNat_inj.mp ?_)
  rw [UInt32.toNat_add, frame, toNat_and_large_offset]
  omega

/-- Behind it no directory entry is present. -/
theorem translate_beyond (s : Paging) {a : UInt32} (beyond : 0x800000 ≤ a.toNat) :
    (pagingInit s).translate a = none := by
  have bound := a.toNat_lt
  have later : 2 ≤ directoryIndex a := by rw [directoryIndex_eq]; omega
  have pde : entryAt pdbrAddr (directoryIndex a) (pagingInit s).bytes =
      (0x400000 * UInt32.ofNat (directoryIndex a)) ||| 2 := by
    rw [(pagingInit_holds s).directory _ (directoryIndex_lt a), initDirectory, if_neg (by omega),
      if_neg (by omega)]
  have absent : ((0x400000 * UInt32.ofNat (directoryIndex a)) ||| 2) &&& 1 = 0 := by
    rw [or_flags_and (large_frame (directoryIndex_lt a)) (by decide)]
    rfl
  rw [translate_pagingInit, pageWalk_absent pde absent]

theorem translate_mapped (s : Paging) (a : UInt32) :
    ((pagingInit s).translate a).map Mapping.physical = if Mapped a then some a else none := by
  rcases Nat.lt_or_ge a.toNat 0x400000 with low | high
  · exact translate_low s low
  · rcases Nat.lt_or_ge a.toNat 0x800000 with kernel | beyond
    · rw [translate_kernel s high kernel, if_pos ((mapped_iff a).mpr (by omega))]
    · rw [translate_beyond s beyond, if_neg (mt (mapped_iff a).mp (by omega))]
      rfl

/-- The same control registers over memory that has gone on. -/
def inMemory (bytes : UInt32 → UInt8) (s : Paging) : Paging := { s with bytes := bytes }

/-- The control registers do not depend on memory. -/
theorem pagingInit_inMemory (bytes bytes' : UInt32 → UInt8) (s : Paging) :
    (pagingInit (s.inMemory bytes)).inMemory bytes' = (pagingInit s).inMemory bytes' := by
  simp only [inMemory, pagingInit]

/-- The map lasts as long as nobody stores into the two tables. -/
theorem translate_inMemory (s : Paging) {bytes : UInt32 → UInt8}
    (kept : ∀ a : UInt32, 0x1000 ≤ a.toNat → a.toNat < 0x3000 → bytes a = (pagingInit s).bytes a) (a : UInt32) :
    ((pagingInit s).inMemory bytes).translate a = (pagingInit s).translate a := by
  have holds := pagingInit_holds s
  have directory : entryAt pdbrAddr (directoryIndex a) bytes = entryAt pdbrAddr (directoryIndex a) (pagingInit s).bytes :=
    entryAt_congr (by decide) (directoryIndex_lt a) fun b low high =>
      kept b low (Nat.lt_trans high (by decide))
  have table : entryAt tableAddr (tableIndex a) bytes = entryAt tableAddr (tableIndex a) (pagingInit s).bytes := by
    refine entryAt_congr (by decide) ?_ fun b low high => kept b (Nat.le_trans (by decide) low) high
    rw [tableIndex_eq]
    omega
  have page : pdbrAddr &&& 0xFFFFF000 = pdbrAddr := by decide
  rw [translate_pagingInit, translate, inMemory, pagingInit_cr3, page]
  refine pageWalk_congr directory rfl fun present small => ?_
  -- The only directory entry that leads to a page table is the first.
  rw [holds.directory _ (directoryIndex_lt a), initDirectory] at present small ⊢
  split at present
  next first =>
    rw [if_pos first]
    exact table
  next later =>
    split at present
    next second =>
      rw [if_neg later, if_pos second] at small
      exact absurd small (by decide)
    next =>
      rw [or_flags_and (large_frame (directoryIndex_lt a)) (by decide)] at present
      exact absurd rfl present

/-- After `paging_init` exactly the addresses of `Mapped` are translated, each to itself. -/
theorem paging_init_identity (s : Paging) (a : UInt32) :
    (pagingInit s).cr3 = pdbrAddr ∧
    ((pagingInit s).translate a).map Mapping.physical = if Mapped a then some a else none := by
  refine ⟨rfl, ?_⟩
  have holds := pagingInit_holds s
  have bound := a.toNat_lt
  by_cases low : a.toNat < 0x400000
  · exact translate_low s low
  · by_cases kernel : a.toNat < 0x800000
    · -- The kernel's own 4 MB page.
      have second : directoryIndex a = 1 := by rw [directoryIndex_eq]; omega
      have pde : entryAt pdbrAddr (directoryIndex a) (pagingInit s).bytes = 0x400181 := by
        rw [second, holds.directory 1 (by decide)]
        rfl
      rw [translate_pagingInit, pageWalk_large pde (by decide) (by decide),
        if_pos ((mapped_iff a).mpr (by omega)), Option.map_some]
      apply congrArg some
      apply UInt32.toNat_inj.mp
      have frame : ((0x400181 : UInt32) &&& 0xFFC00000).toNat = 0x400000 := by decide
      dsimp only
      rw [UInt32.toNat_add, frame, toNat_and_large_offset]
      omega
    · -- No other directory entry is present.
      have later : 2 ≤ directoryIndex a := by rw [directoryIndex_eq]; omega
      have pde : entryAt pdbrAddr (directoryIndex a) (pagingInit s).bytes =
          (0x400000 * UInt32.ofNat (directoryIndex a)) ||| 2 := by
        rw [holds.directory _ (directoryIndex_lt a), initDirectory, if_neg (by omega), if_neg (by omega)]
      have absent : ((0x400000 * UInt32.ofNat (directoryIndex a)) ||| 2) &&& 1 = 0 := by
        rw [or_flags_and (large_frame (directoryIndex_lt a)) (by decide)]
        rfl
      rw [translate_pagingInit, pageWalk_absent pde absent, if_neg (mt (mapped_iff a).mp (by omega))]
      rfl

end Paging

end Mp3Kernel
