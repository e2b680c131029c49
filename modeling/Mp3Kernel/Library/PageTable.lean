import Mathlib.Tactic.IntervalCases
import Mp3Kernel.Library.Machine

/-!
# Page tables of a 32-bit x86

Words in byte-addressed memory, tables of words, and the translation the CPU
makes with a page directory, its 4 KB page tables and its 4 MB pages. Bit 0 of an
entry says that it is present, bit 1 that it is writable, bit 2 that user code
may use it, and bit 7 of a directory entry that it maps 4 MB by itself.
-/

namespace Mp3Kernel.Library

theorem toNat_mul_ofNat {a : UInt32} {k : Nat} (small : a.toNat * k < 2 ^ 32) :
    (a * UInt32.ofNat k).toNat = a.toNat * k := by
  rw [UInt32.toNat_mul, UInt32.toNat_ofNat', Nat.mul_mod_mod, Nat.mod_eq_of_lt small]

namespace Memory

variable {bytes : UInt32 → UInt8} {addr other value : UInt32}

/-! ## Words -/

/-- Byte `k` of a word, the lowest first. -/
def byteOf (value : UInt32) (k : Nat) : UInt8 := (value >>> UInt32.ofNat (8 * k)).toUInt8

/-- The bytes after the word `value` was stored at `addr`. -/
def setWord (addr value : UInt32) (bytes : UInt32 → UInt8) : UInt32 → UInt8 := fun a =>
  if (a - addr).toNat < 4 then byteOf value (a - addr).toNat else bytes a

theorem getLsbD_byteOf (value : UInt32) {k : Nat} (inside : k < 4) {i : Nat} (small : i < 8) :
    (byteOf value k).toBitVec.getLsbD i = value.toBitVec.getLsbD (8 * k + i) := by
  interval_cases k <;> simp [byteOf, UInt32.toBitVec_shiftRight, small]

/-- Bit `i` of a word is a bit of its byte `i / 8`. -/
theorem getLsbD_wordAt (bytes : UInt32 → UInt8) (addr : UInt32) {i : Nat} (small : i < 32) :
    (wordAt bytes addr).toBitVec.getLsbD i =
      (bytes (addr + UInt32.ofNat (i / 8))).toBitVec.getLsbD (i % 8) := by
  simp only [wordAt, UInt32.toBitVec_or, UInt32.toBitVec_shiftLeft, UInt8.toBitVec_toUInt32,
    BitVec.getLsbD_or, BitVec.getLsbD_setWidth]
  interval_cases i <;> simp

theorem setWord_inside {k : Nat} (inside : k < 4) :
    setWord addr value bytes (addr + UInt32.ofNat k) = byteOf value k := by
  rw [setWord, toNat_offset (by omega), if_pos inside]

theorem wordAt_setWord (addr value : UInt32) (bytes : UInt32 → UInt8) :
    wordAt (setWord addr value bytes) addr = value := by
  apply UInt32.toBitVec_inj.mp
  apply BitVec.eq_of_getLsbD_eq
  intro i small
  have whole : 8 * (i / 8) + i % 8 = i := Nat.div_add_mod i 8
  rw [getLsbD_wordAt _ _ small, setWord_inside (by omega),
    getLsbD_byteOf value (by omega) (by omega), whole]

theorem byteOf_wordAt (bytes : UInt32 → UInt8) (addr : UInt32) {k : Nat} (inside : k < 4) :
    byteOf (wordAt bytes addr) k = bytes (addr + UInt32.ofNat k) := by
  apply UInt8.toBitVec_inj.mp
  apply BitVec.eq_of_getLsbD_eq
  intro i small
  have byte : (8 * k + i) / 8 = k := by omega
  have bit : (8 * k + i) % 8 = i := by omega
  rw [getLsbD_byteOf _ inside small, getLsbD_wordAt _ _ (by omega), byte, bit]

theorem wordAt_eq_iff {bytes' : UInt32 → UInt8} :
    wordAt bytes addr = wordAt bytes' addr ↔
      ∀ k < 4, bytes (addr + UInt32.ofNat k) = bytes' (addr + UInt32.ofNat k) := by
  constructor
  · intro same k inside
    rw [← byteOf_wordAt bytes addr inside, same, byteOf_wordAt bytes' addr inside]
  · exact wordAt_congr

/-- Words that are four bytes apart do not share a byte. -/
theorem wordAt_setWord_of_apart (above : 4 ≤ (other - addr).toNat) (below : 4 ≤ (addr - other).toNat) :
    wordAt (setWord addr value bytes) other = wordAt bytes other := by
  apply wordAt_congr
  intro k small
  have around : (addr - other).toNat + (other - addr).toNat = 2 ^ 32 := by
    rw [UInt32.toNat_sub, UInt32.toNat_sub] at *
    have := addr.toNat_lt
    have := other.toNat_lt
    omega
  have size : (UInt32.ofNat k).toNat = k :=
    UInt32.toNat_ofNat_of_lt' (show k < 2 ^ 32 by omega)
  have shift : other + UInt32.ofNat k - addr = (other - addr) + UInt32.ofNat k := by grind
  have distance : (other + UInt32.ofNat k - addr).toNat = (other - addr).toNat + k := by
    rw [shift, toNat_add_of_lt (by omega), size]
  rw [setWord, distance, if_neg (by omega)]

/-- A loop that stores the words of a table, byte by byte. -/
theorem forLoop_setWord_apply (base : UInt32) (value : Nat → UInt32) {n : Nat} (small : n ≤ 2 ^ 30)
    (bytes : UInt32 → UInt8) (a : UInt32) :
    forLoop (fun i b => setWord (base + 4 * UInt32.ofNat i) (value i) b) n bytes a =
      if (a - base).toNat < 4 * n then byteOf (value ((a - base).toNat / 4)) ((a - base).toNat % 4)
      else bytes a := by
  induction n with
  | zero => simp
  | succ n ih =>
    rw [forLoop_succ, setWord, ih (by omega)]
    have start : (4 * UInt32.ofNat n).toNat = 4 * n := toNat_mul_ofNat (by simp; omega)
    have shift : a - (base + 4 * UInt32.ofNat n) = (a - base) - 4 * UInt32.ofNat n := by grind
    have reached := (a - base).toNat_lt
    -- Stored by an earlier round, by the last one, or not at all.
    by_cases before : (a - base).toNat < 4 * n
    · have far : ¬((a - base) - 4 * UInt32.ofNat n).toNat < 4 := by
        rw [UInt32.toNat_sub, start]
        omega
      rw [shift, if_neg far, if_pos before, if_pos (by omega)]
    · have distance : ((a - base) - 4 * UInt32.ofNat n).toNat = (a - base).toNat - 4 * n := by
        rw [toNat_sub_of_le (by omega), start]
      rw [shift, distance, if_neg before]
      by_cases last : (a - base).toNat < 4 * (n + 1)
      · have place : (a - base).toNat / 4 = n := by omega
        rw [if_pos (by omega), if_pos last, place]
        congr 1
        omega
      · rw [if_neg (by omega), if_neg last]

end Memory

/-! ## Tables -/

/-- A table of words that starts at `base`. -/
def entryAt (base : UInt32) (i : Nat) (bytes : UInt32 → UInt8) : UInt32 :=
  Memory.wordAt bytes (base + 4 * UInt32.ofNat i)

/-- `base[i] = value` for a table of words. -/
def setEntry (base : UInt32) (i : Nat) (value : UInt32) (bytes : UInt32 → UInt8) :
    UInt32 → UInt8 :=
  Memory.setWord (base + 4 * UInt32.ofNat i) value bytes

theorem toNat_entry {base : UInt32} (aligned : base.toNat % 4096 = 0) {i : Nat} (inside : i < 1024) :
    (base + 4 * UInt32.ofNat i).toNat = base.toNat + 4 * i := by
  have bound := base.toNat_lt
  have offset : (4 * UInt32.ofNat i).toNat = 4 * i := toNat_mul_ofNat (by simp; omega)
  rw [toNat_add_of_lt (by omega), offset]

/-- Two tables that fill a page each share no entry. -/
theorem entryAt_setEntry {base base' : UInt32} (aligned : base.toNat % 4096 = 0)
    (aligned' : base'.toNat % 4096 = 0) {i j : Nat} (inside : i < 1024) (inside' : j < 1024)
    (value : UInt32) (bytes : UInt32 → UInt8) :
    entryAt base i (setEntry base' j value bytes) =
      if base = base' ∧ i = j then value else entryAt base i bytes := by
  rw [entryAt, setEntry]
  split
  · rename_i same
    rw [same.1, same.2]
    exact Memory.wordAt_setWord _ value bytes
  · rename_i different
    have place := toNat_entry aligned inside
    have place' := toNat_entry aligned' inside'
    have apart : base.toNat = base'.toNat → i ≠ j := fun h e =>
      different ⟨UInt32.toNat_inj.mp h, e⟩
    apply Memory.wordAt_setWord_of_apart
    · rw [UInt32.toNat_sub, place, place']
      have := base.toNat_lt
      have := base'.toNat_lt
      omega
    · rw [UInt32.toNat_sub, place, place']
      have := base.toNat_lt
      have := base'.toNat_lt
      omega

/-- An entry depends only on the page of its table. -/
theorem entryAt_congr {base : UInt32} (aligned : base.toNat % 4096 = 0) {i : Nat} (inside : i < 1024)
    {bytes bytes' : UInt32 → UInt8}
    (same : ∀ a : UInt32, base.toNat ≤ a.toNat → a.toNat < base.toNat + 4096 → bytes a = bytes' a) :
    entryAt base i bytes = entryAt base i bytes' := by
  have place := toNat_entry aligned inside
  have bound := base.toNat_lt
  apply Memory.wordAt_congr
  intro k small
  have index : (UInt32.ofNat k).toNat = k := UInt32.toNat_ofNat_of_lt' (by simp only [UInt32.size]; omega)
  have next : (base + 4 * UInt32.ofNat i + UInt32.ofNat k).toNat = base.toNat + 4 * i + k := by
    rw [toNat_add_of_lt (by omega), place, index]
  exact same _ (by omega) (by omega)

/-! ## Masks -/

/-- A mask of the bits from `n` on clears the remainder modulo `2^n`. -/
theorem toNat_and_mask (x : UInt32) {mask : UInt32} {n : Nat}
    (high : ∀ i < 32, mask.toNat.testBit i = decide (n ≤ i)) :
    (x &&& mask).toNat = x.toNat / 2 ^ n * 2 ^ n := by
  apply Nat.eq_of_testBit_eq
  intro i
  rw [UInt32.toNat_and, Nat.testBit_and, Nat.testBit_mul_two_pow, Nat.testBit_div_two_pow]
  by_cases inside : i < 32
  · rw [high i inside]
    by_cases kept : n ≤ i
    · simp [kept]
    · simp [kept]
  · have above : x.toNat.testBit i = false :=
      Nat.testBit_lt_two_pow (lt_of_lt_of_le x.toNat_lt
        (Nat.pow_le_pow_right (by decide) (Nat.le_of_not_lt inside)))
    by_cases kept : n ≤ i
    · simp [kept, above]
    · simp [kept, above]

theorem toNat_and_region (x : UInt32) : (x &&& 0xFFC00000).toNat = x.toNat / 2 ^ 22 * 2 ^ 22 :=
  toNat_and_mask x (by decide)

theorem toNat_and_page (x : UInt32) : (x &&& 0xFFFFF000).toNat = x.toNat / 2 ^ 12 * 2 ^ 12 :=
  toNat_and_mask x (by decide)

theorem page_aligned (x : UInt32) : (x &&& 0xFFFFF000).toNat % 4096 = 0 := by
  rw [toNat_and_page]
  exact Nat.mul_mod_left _ _

theorem and_page_of_dvd {x : UInt32} (whole : x.toNat % 2 ^ 12 = 0) : x &&& 0xFFFFF000 = x := by
  apply UInt32.toNat_inj.mp
  rw [toNat_and_page]
  omega

/-- The addresses of pages, one `size` apart. -/
theorem page_frame {size : UInt32} (whole : size.toNat % 2 ^ 12 = 0) {i : Nat}
    (small : size.toNat * i < 2 ^ 32) :
    (size * UInt32.ofNat i).toNat = size.toNat * i ∧
    (size * UInt32.ofNat i) &&& 0xFFFFF000 = size * UInt32.ofNat i := by
  have value : (size * UInt32.ofNat i).toNat = size.toNat * i := toNat_mul_ofNat small
  refine ⟨value, and_page_of_dvd ?_⟩
  rw [value, Nat.mul_mod, whole, Nat.zero_mul, Nat.zero_mod]

theorem toNat_and_offset (a : UInt32) : (a &&& 0xFFF).toNat = a.toNat % 2 ^ 12 := by
  rw [UInt32.toNat_and]
  exact Nat.and_two_pow_sub_one_eq_mod a.toNat 12

theorem toNat_and_large_offset (a : UInt32) : (a &&& 0x3FFFFF).toNat = a.toNat % 2 ^ 22 := by
  rw [UInt32.toNat_and]
  exact Nat.and_two_pow_sub_one_eq_mod a.toNat 22

theorem or_and_distrib (x y z : UInt32) : (x ||| y) &&& z = (x &&& z) ||| (y &&& z) :=
  UInt32.toBitVec_inj.mp BitVec.and_or_distrib_right

/-- A mask with one bit tests that bit. -/
theorem and_mask_eq_zero_iff (x : UInt32) {mask : UInt32} {i : Nat}
    (one : ∀ j < 32, mask.toBitVec.getLsbD j = decide (j = i)) (inside : i < 32) :
    x &&& mask = 0 ↔ x.toBitVec.getLsbD i = false := by
  have bit (j : Nat) (small : j < 32) :
      (x &&& mask).toBitVec.getLsbD j = (x.toBitVec.getLsbD j && decide (j = i)) := by
    rw [UInt32.toBitVec_and, BitVec.getLsbD_and, one j small]
  constructor
  · intro zero
    have clear := bit i inside
    rw [zero] at clear
    simpa using clear.symm
  · intro clear
    apply UInt32.toBitVec_inj.mp
    apply BitVec.eq_of_getLsbD_eq
    intro j small
    rw [bit j small]
    by_cases same : j = i
    · simp [same, clear]
    · simp [same]

theorem getLsbD_eq_decide (x : UInt32) (i : Nat) :
    x.toBitVec.getLsbD i = decide (x.toNat / 2 ^ i % 2 = 1) := Nat.testBit_eq_decide_div_mod_eq

section Flags

variable {frame flags mask : UInt32}

/-- A flag of an entry is read from its flags. -/
theorem or_flags_and (page : frame &&& 0xFFFFF000 = frame) (low : 0xFFFFF000 &&& mask = 0) :
    (frame ||| flags) &&& mask = flags &&& mask := by
  have clear : frame &&& mask = 0 := by rw [← page, UInt32.and_assoc, low, UInt32.and_zero]
  rw [or_and_distrib, clear, UInt32.zero_or]

/-- The frame of an entry is read from its frame. -/
theorem or_flags_frame (kept : frame &&& mask = frame) (low : flags &&& mask = 0) :
    (frame ||| flags) &&& mask = frame := by
  rw [or_and_distrib, kept, low, UInt32.or_zero]

theorem page_of_region (region : frame &&& 0xFFC00000 = frame) : frame &&& 0xFFFFF000 = frame := by
  rw [← region, UInt32.and_assoc]
  rfl

end Flags

/-! ## The walk -/

/-- What a linear address is translated to. -/
@[ext]
structure Mapping where
  physical : UInt32
  writable : Bool
  user : Bool
  deriving DecidableEq

def directoryIndex (linear : UInt32) : Nat := (linear >>> 22).toNat

def tableIndex (linear : UInt32) : Nat := ((linear >>> 12) &&& 0x3FF).toNat

/-- The translation of a linear address through the page directory at `directory`, or a page
fault. Of an entry for 4 MB, bits 13 to 21 are not looked at: a CPU can fault on them, or take
them for the bits of an address above 4 GB. -/
def pageWalk (directory : UInt32) (bytes : UInt32 → UInt8) (linear : UInt32) : Option Mapping :=
  let pde := entryAt directory (directoryIndex linear) bytes
  if pde &&& 1 = 0 then none
  else if pde &&& 0x80 ≠ 0 then
    some {
      physical := (pde &&& 0xFFC00000) + (linear &&& 0x3FFFFF)
      writable := pde &&& 2 ≠ 0
      user := pde &&& 4 ≠ 0 }
  else
    let pte := entryAt (pde &&& 0xFFFFF000) (tableIndex linear) bytes
    if pte &&& 1 = 0 then none
    else
      some {
        physical := (pte &&& 0xFFFFF000) + (linear &&& 0xFFF)
        writable := pde &&& 2 ≠ 0 ∧ pte &&& 2 ≠ 0
        user := pde &&& 4 ≠ 0 ∧ pte &&& 4 ≠ 0 }

theorem directoryIndex_eq (linear : UInt32) : directoryIndex linear = linear.toNat / 2 ^ 22 := by
  simp [directoryIndex, Nat.shiftRight_eq_div_pow]

theorem tableIndex_eq (linear : UInt32) : tableIndex linear = linear.toNat / 2 ^ 12 % 2 ^ 10 := by
  rw [tableIndex, UInt32.toNat_and, UInt32.toNat_shiftRight]
  exact (Nat.and_two_pow_sub_one_eq_mod _ 10).trans (by simp [Nat.shiftRight_eq_div_pow])

theorem directoryIndex_lt (linear : UInt32) : directoryIndex linear < 1024 := by
  rw [directoryIndex_eq]
  have := linear.toNat_lt
  omega

/-! ### The addresses of a 4 MB region -/

section Region

variable {o : UInt32} (v : UInt32)

theorem toNat_region_add (inside : o < 0x400000) :
    ((v &&& 0xFFC00000) + o).toNat = v.toNat / 2 ^ 22 * 2 ^ 22 + o.toNat := by
  have bound := v.toNat_lt
  have small : o.toNat < 0x400000 := inside
  rw [toNat_add_of_lt] <;> rw [toNat_and_region]
  omega

theorem directoryIndex_region (inside : o < 0x400000) :
    directoryIndex ((v &&& 0xFFC00000) + o) = v.toNat / 2 ^ 22 := by
  have small : o.toNat < 0x400000 := inside
  rw [directoryIndex_eq, toNat_region_add v inside]
  omega

theorem tableIndex_region (inside : o < 0x400000) :
    tableIndex ((v &&& 0xFFC00000) + o) = o.toNat / 2 ^ 12 := by
  have small : o.toNat < 0x400000 := inside
  rw [tableIndex_eq, toNat_region_add v inside]
  omega

theorem offset_region (inside : o < 0x400000) : ((v &&& 0xFFC00000) + o) &&& 0x3FFFFF = o := by
  have small : o.toNat < 0x400000 := inside
  apply UInt32.toNat_inj.mp
  rw [toNat_and_large_offset, toNat_region_add v inside]
  omega

/-- An entry that sends page `e` of one region to page `e` of another holds the number `e`. -/
theorem page_number {pte target : UInt32} {e : Nat} (small : e < 1024)
    (sent : (pte &&& 0xFFFFF000) + (((v &&& 0xFFC00000) + 0x1000 * UInt32.ofNat e) &&& 0xFFF) =
      (target &&& 0xFFC00000) + 0x1000 * UInt32.ofNat e) : pte.toNat / 2 ^ 12 % 2 ^ 10 = e := by
  have offset : (0x1000 * UInt32.ofNat e).toNat = 0x1000 * e := toNat_mul_ofNat (by simp; omega)
  have inside : 0x1000 * UInt32.ofNat e < 0x400000 := by
    rw [UInt32.lt_iff_toNat_lt, offset]
    simp
    omega
  have bound := pte.toNat_lt
  have same := congrArg UInt32.toNat sent
  rw [toNat_region_add target inside, UInt32.toNat_add, toNat_and_page, toNat_and_offset,
    toNat_region_add v inside, offset] at same
  omega

end Region

section Walk

variable {directory linear pde pte : UInt32} {bytes : UInt32 → UInt8}

theorem pageWalk_absent (entry : entryAt directory (directoryIndex linear) bytes = pde)
    (absent : pde &&& 1 = 0) : pageWalk directory bytes linear = none := by
  simp only [pageWalk, entry, absent, if_true]

theorem pageWalk_large (entry : entryAt directory (directoryIndex linear) bytes = pde)
    (present : pde &&& 1 ≠ 0) (large : pde &&& 0x80 ≠ 0) :
    pageWalk directory bytes linear =
      some ⟨(pde &&& 0xFFC00000) + (linear &&& 0x3FFFFF), pde &&& 2 ≠ 0, pde &&& 4 ≠ 0⟩ := by
  simp only [pageWalk, entry]
  rw [if_neg present, if_pos large]

theorem pageWalk_small (entry : entryAt directory (directoryIndex linear) bytes = pde)
    (present : pde &&& 1 ≠ 0) (small : pde &&& 0x80 = 0)
    (page : entryAt (pde &&& 0xFFFFF000) (tableIndex linear) bytes = pte) :
    pageWalk directory bytes linear =
      if pte &&& 1 = 0 then none
      else some ⟨(pte &&& 0xFFFFF000) + (linear &&& 0xFFF),
        decide (pde &&& 2 ≠ 0 ∧ pte &&& 2 ≠ 0), decide (pde &&& 4 ≠ 0 ∧ pte &&& 4 ≠ 0)⟩ := by
  simp only [pageWalk, entry, page]
  rw [if_neg present, if_neg (by simp [small])]

/-- A walk depends only on the entries that it reads. -/
theorem pageWalk_congr {bytes' : UInt32 → UInt8} (entry : entryAt directory (directoryIndex linear) bytes = pde)
    (entry' : entryAt directory (directoryIndex linear) bytes' = pde)
    (page : pde &&& 1 ≠ 0 → pde &&& 0x80 = 0 →
      entryAt (pde &&& 0xFFFFF000) (tableIndex linear) bytes =
        entryAt (pde &&& 0xFFFFF000) (tableIndex linear) bytes') :
    pageWalk directory bytes linear = pageWalk directory bytes' linear := by
  by_cases absent : pde &&& 1 = 0
  · rw [pageWalk_absent entry absent, pageWalk_absent entry' absent]
  · by_cases small : pde &&& 0x80 = 0
    · rw [pageWalk_small entry absent small rfl, pageWalk_small entry' absent small (page absent small).symm]
    · rw [pageWalk_large entry absent small, pageWalk_large entry' absent small]

end Walk

end Mp3Kernel.Library
