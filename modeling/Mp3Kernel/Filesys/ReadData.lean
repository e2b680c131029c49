import Mp3Kernel.Filesys.Image

/-!
# `read_data`

How many bytes it copies, and which parts of the image it reads to do so, on any
image and for any arguments. The loop counts with a signed `i`, checks neither
the word index `i/4096+1` nor the block number it finds there, and lets the
inode number be one too large.
-/

namespace Mp3Kernel

open Library

namespace Filesys

variable {fs : Filesys} {inode offset buf nbytes : UInt32}

/-! ## The loop -/

/-- The length in the inode block. -/
def fileLength (fs : Filesys) (inode : UInt32) : UInt32 :=
  Memory.wordAt fs.bytes (fs.inodeBlock inode)

/-- The number of the data block with byte `i` of the file. -/
def blockNumber (fs : Filesys) (inode : UInt32) (i : Nat) : UInt32 :=
  Memory.wordAt fs.bytes (fs.inodeBlock inode + 4 * UInt32.ofNat (i / 4096 + 1))

/-- The number of bytes to copy. -/
def readCount (fs : Filesys) (inode offset nbytes : UInt32) : Nat :=
  min nbytes.toNat ((fs.fileLength inode).toNat - offset.toNat)

theorem readCount_le (fs : Filesys) (inode offset nbytes : UInt32) :
    fs.readCount inode offset nbytes ≤ nbytes.toNat := min_le_left _ _

/-- Round `k` of the loop. -/
def readRound (fs : Filesys) (inode offset buf : UInt32) (k : Nat) (t : Transfer) : Transfer :=
  fs.readByte inode offset buf (offset + UInt32.ofNat k).toInt32 t

/-- The transfer after `n` rounds. -/
def transfer (fs : Filesys) (inode offset buf : UInt32) (n : Nat) : Transfer :=
  forLoop (fs.readRound inode offset buf) n ⟨fs.bytes, [.inodeWord inode 0]⟩

theorem readLoop_from {length : UInt32} (inside : offset < length) (t : Transfer) :
    ∀ rounds k, k + rounds = nbytes.toNat → k ≤ min nbytes.toNat (length.toNat - offset.toNat) →
    fs.readLoop inode length offset buf nbytes rounds (offset + UInt32.ofNat k).toInt32
      (forLoop (fs.readRound inode offset buf) k t) =
    ((offset + UInt32.ofNat (min nbytes.toNat (length.toNat - offset.toNat))).toInt32,
      forLoop (fs.readRound inode offset buf) (min nbytes.toNat (length.toNat - offset.toNat)) t) := by
  intro rounds
  have inside' : offset.toNat < length.toNat := inside
  have room := length.toNat_lt
  -- The `k` rounds done and the `rounds` left always make `nbytes`.
  induction rounds with
  | zero =>
    intro k total bound
    have last : k = min nbytes.toNat (length.toNat - offset.toNat) := by omega
    rw [readLoop, ← last]
  | succ rounds ih =>
    intro k total bound
    have count : (UInt32.ofNat k).toNat = k := UInt32.toNat_ofNat_of_lt' (show k < 2 ^ 32 by omega)
    have position : (offset + UInt32.ofNat k).toNat = offset.toNat + k := by
      rw [toNat_add_of_lt (by omega), count]
    -- The two tests of the loop compare `k` with the two bounds.
    have test : ((offset + UInt32.ofNat k) - offset < nbytes ∧ offset + UInt32.ofNat k < length) ↔
        k < min nbytes.toNat (length.toNat - offset.toNat) := by
      rw [UInt32.lt_iff_toNat_lt, UInt32.lt_iff_toNat_lt, position,
        toNat_sub_of_le (by omega), position]
      omega
    rw [readLoop]
    simp only [UInt32.toUInt32_toInt32, test]
    split
    next more =>
      have next : (offset + UInt32.ofNat k).toInt32 + 1 = (offset + UInt32.ofNat (k + 1)).toInt32 := by
        rw [UInt32.ofNat_add, ← UInt32.add_assoc]
        rfl
      rw [next]
      exact ih (k + 1) (by omega) (by omega)
    next done =>
      have last : k = min nbytes.toNat (length.toNat - offset.toNat) := by omega
      rw [← last]

/-- The three ways through `read_data`. -/
theorem readData_refused (refused : inode > fs.numInodes ∨ buf = 0) :
    fs.readData inode offset buf nbytes = (-1, ⟨fs.bytes, []⟩) := by
  rw [readData, if_pos refused]

theorem addr_length (fs : Filesys) (inode : UInt32) :
    fs.addr (.inodeWord inode 0) = fs.inodeBlock inode := by
  have zero : (4 : UInt32) * Int32.toUInt32 0 = 0 := by decide
  rw [addr, zero, UInt32.add_zero]

theorem readData_past_end (accepted : ¬(inode > fs.numInodes ∨ buf = 0))
    (past : offset ≥ fs.fileLength inode) :
    fs.readData inode offset buf nbytes =
      (0, ⟨forLoop (fun i bytes => Function.update bytes (buf + UInt32.ofNat i) 0) nbytes.toNat
        fs.bytes, [.inodeWord inode 0]⟩) := by
  rw [readData, if_neg accepted]
  simp only [addr_length]
  exact if_pos past

theorem readData_inside (accepted : ¬(inode > fs.numInodes ∨ buf = 0))
    (inside : offset < fs.fileLength inode) :
    fs.readData inode offset buf nbytes =
      ((UInt32.ofNat (fs.readCount inode offset nbytes)).toInt32,
        fs.transfer inode offset buf (fs.readCount inode offset nbytes)) := by
  rw [readData, if_neg accepted]
  simp only [addr_length]
  rw [if_neg (by rw [ge_iff_le, UInt32.not_le]; exact inside)]
  have loop := @readLoop_from fs inode offset buf nbytes _ inside
    ⟨fs.bytes, [.inodeWord inode 0]⟩ nbytes.toNat 0 (by omega) (by omega)
  have start : offset + UInt32.ofNat 0 = offset := UInt32.add_zero offset
  rw [forLoop_zero, start, fileLength] at loop
  simp only [loop, UInt32.toUInt32_toInt32]
  rw [UInt32.add_comm, UInt32.add_sub_cancel]
  rfl

/-! ## The signed counter -/

theorem toInt_wordIndex {i : UInt32} (small : i.toNat < 2 ^ 31) :
    (i.toInt32 / 4096 + 1).toInt = (i.toNat / 4096 + 1 : Nat) := by
  have quotient : (i.toInt32 / 4096).toInt = i.toNat / 4096 :=
    toInt_div_of_small small (by decide)
  have one : (1 : Int32).toInt = 1 := by decide
  rw [Int32.toInt_add, quotient, one, Int.bmod_def]
  omega

theorem toInt_bytePosition {i : UInt32} (small : i.toNat < 2 ^ 31) :
    (i.toInt32 % 4096).toInt = (i.toNat % 4096 : Nat) := by
  have remainder : (i.toInt32 % 4096).toInt = i.toNat % 4096 := toInt_mod_of_small small
  rw [remainder]
  omega

/-- What is left of a negative counter when its word index and its position in a block are
not negative. -/
theorem counter_negative {i : UInt32} (large : 2 ^ 31 ≤ i.toNat)
    (index : 0 ≤ (i.toInt32 / 4096 + 1).toInt) (position : 0 ≤ (i.toInt32 % 4096).toInt) :
    i.toNat = 2 ^ 32 - 4096 ∧ i.toInt32 / 4096 + 1 = 0 := by
  have bound := i.toNat_lt
  have value : i.toInt32.toInt = i.toNat - 2 ^ 32 := by
    rw [toInt_toInt32, Int.bmod_def]
    omega
  -- C rounds to zero, so quotient and remainder are both not positive here.
  have divisor : (4096 : Int32).toInt = 4096 := by decide
  have one : (1 : Int32).toInt = 1 := by decide
  have quotient : (i.toInt32 / 4096).toInt = i.toInt32.toInt.tdiv 4096 :=
    Int32.toInt_div_of_ne_right _ _ (by decide)
  have remainder : (i.toInt32 % 4096).toInt = i.toInt32.toInt.tmod 4096 := Int32.toInt_mod _ _
  have split := Int.mul_tdiv_add_tmod i.toInt32.toInt 4096
  have low := Int.lt_tmod_of_pos i.toInt32.toInt (show (0 : Int) < 4096 by decide)
  have sign := Int.tmod_nonneg 4096 (show 0 ≤ -i.toInt32.toInt by omega)
  rw [Int.neg_tmod] at sign
  rw [remainder] at position
  rw [Int32.toInt_add, quotient, one, Int.bmod_def] at index
  have last : i.toInt32.toInt.tdiv 4096 = -1 := by omega
  refine ⟨by omega, Int32.toInt_inj.mp ?_⟩
  rw [Int32.toInt_add, quotient, last, one]
  decide

/-! ## What is read, and what is left alone -/

def wordRead (inode offset : UInt32) (k : Nat) : ImageRead :=
  .inodeWord inode ((offset + UInt32.ofNat k).toInt32 / 4096 + 1)

def byteRead (fs : Filesys) (inode offset buf : UInt32) (k : Nat) : ImageRead :=
  .dataByte (Memory.wordAt (fs.transfer inode offset buf k).bytes (fs.addr (wordRead inode offset k)))
    ((offset + UInt32.ofNat k).toInt32 % 4096)

theorem transfer_succ (fs : Filesys) (inode offset buf : UInt32) (k : Nat) :
    fs.transfer inode offset buf (k + 1) =
      { bytes := Function.update (fs.transfer inode offset buf k).bytes (buf + UInt32.ofNat k)
          ((fs.transfer inode offset buf k).bytes (fs.addr (fs.byteRead inode offset buf k)))
        reads := fs.byteRead inode offset buf k :: wordRead inode offset k ::
          (fs.transfer inode offset buf k).reads } := by
  rw [transfer, forLoop_succ, readRound, readByte, UInt32.toUInt32_toInt32,
    UInt32.add_comm offset, UInt32.add_sub_cancel, UInt32.add_comm _ offset]
  rfl

theorem mem_transfer_reads (fs : Filesys) (inode offset buf : UInt32) (n : Nat) (r : ImageRead) :
    r ∈ (fs.transfer inode offset buf n).reads ↔
      (∃ k < n, r = fs.byteRead inode offset buf k ∨ r = wordRead inode offset k) ∨
        r = .inodeWord inode 0 := by
  induction n with
  | zero => simp [transfer]
  | succ n ih =>
    rw [transfer_succ, List.mem_cons, List.mem_cons, ih, Nat.exists_lt_succ_right, ← or_assoc,
      ← or_assoc, or_comm (a := r = _ ∨ r = _)]

/-- Only the buffer is written. -/
theorem transfer_frame {n : Nat} (small : n ≤ 2 ^ 32) {a : UInt32} (outside : n ≤ (a - buf).toNat) :
    (fs.transfer inode offset buf n).bytes a = fs.bytes a := by
  induction n with
  | zero => rfl
  | succ n ih =>
    have other : a ≠ buf + UInt32.ofNat n := by
      rw [Ne, eq_add_ofNat_iff (by omega)]
      omega
    rw [transfer_succ]
    exact (Function.update_of_ne other _ _).trans (ih (by omega) (by omega))

/-- The first `n` bytes of the buffer lie outside the `size` bytes from `base` on. -/
def Apart (base : UInt32) (size : Nat) (buf : UInt32) (n : Nat) : Prop :=
  ∀ j < n, size ≤ (buf + UInt32.ofNat j - base).toNat

theorem Apart.not_reached {base a : UInt32} {size n : Nat} (apart : Apart base size buf n)
    (inside : (a - base).toNat < size) : n ≤ (a - buf).toNat := by
  by_contra reached
  have bound := (a - buf).toNat_lt
  have away := apart (a - buf).toNat (by omega)
  rw [← (eq_add_ofNat_iff bound).mpr (Eq.refl (a - buf).toNat)] at away
  omega

theorem Apart.frame {base a : UInt32} {size n : Nat} (apart : Apart base size buf n)
    (small : n ≤ 2 ^ 32) (inside : (a - base).toNat < size) :
    (fs.transfer inode offset buf n).bytes a = fs.bytes a :=
  transfer_frame small (apart.not_reached inside)

theorem Apart.mono {base : UInt32} {size n k : Nat} (apart : Apart base size buf n) (le : k ≤ n) :
    Apart base size buf k := fun j bound => apart j (by omega)

/-- A word of the inode block is not disturbed by a buffer outside the block. -/
theorem wordAt_transfer {n w : Nat} (apart : Apart (fs.inodeBlock inode) 4096 buf n)
    (small : n ≤ 2 ^ 32) (inside : w ≤ 1023) :
    Memory.wordAt (fs.transfer inode offset buf n).bytes (fs.inodeBlock inode + 4 * UInt32.ofNat w) =
      Memory.wordAt fs.bytes (fs.inodeBlock inode + 4 * UInt32.ofNat w) := by
  refine Memory.wordAt_congr fun b bound => apart.frame small ?_
  rw [inodeWord_byte, (eq_add_ofNat_iff (by omega)).mp rfl]
  omega

end Filesys

end Mp3Kernel
