import Mp3Kernel.Filesys.ReadData

/-!
# Where `read_data` reads

On a corrupt image `read_data` can leave the image in four ways: through the
inode number, the length, the word index and the block number. `SafeCall` is
what a call and the image must satisfy, and it is all they must satisfy.
-/

namespace Mp3Kernel

open Library

/-- The number of bytes read. -/
def ImageRead.width : ImageRead → Nat
  | .inodeWord _ _ => 4
  | .dataByte _ _ => 1

namespace Filesys

variable {fs : Filesys} {inode offset buf nbytes : UInt32}

/-- A word of the inode block of `inode`, or a byte of a data block that exists. The block number
and the word index decide, not the address that comes of them: one that is too large can wrap
around to a byte of the image, and is outside all the same. -/
def InsideImage (fs : Filesys) (inode : UInt32) : ImageRead → Prop
  | .inodeWord n index => n = inode ∧ 0 ≤ index.toInt ∧ index.toInt ≤ 1023
  | .dataByte block position => block < fs.dataBlocks ∧ 0 ≤ position.toInt ∧ position.toInt < 4096

instance (fs : Filesys) (inode : UInt32) : (r : ImageRead) → Decidable (fs.InsideImage inode r)
  | .inodeWord _ _ | .dataByte _ _ => inferInstanceAs (Decidable (_ ∧ _))

/-- The call returns -1, or the inode exists and everything read is inside the image. -/
def Contained (fs : Filesys) (inode offset buf nbytes : UInt32) : Prop :=
  (fs.readData inode offset buf nbytes).1 = -1 ∨
    (inode < fs.numInodes ∧
      ∀ r ∈ (fs.readData inode offset buf nbytes).2.reads, fs.InsideImage inode r)

instance (fs : Filesys) (inode offset buf nbytes : UInt32) :
    Decidable (fs.Contained inode offset buf nbytes) := inferInstanceAs (Decidable (_ ∨ _))

/-- The call is refused, or it returns -1 for having copied 2^32-1 bytes; or the inode
exists, and what is to be copied lies in the first 1023 blocks, in data blocks that exist, and
does not go over the inode block itself. That is asked of the whole block: copying over words
of it that no later round reads would do no harm. -/
def SafeCall (fs : Filesys) (inode offset buf nbytes : UInt32) : Prop :=
  buf = 0 ∨ inode > fs.numInodes ∨ fs.readCount inode offset nbytes = 2 ^ 32 - 1 ∨
    (inode < fs.numInodes ∧
      (fs.readCount inode offset nbytes = 0 ∨
        (Apart (fs.inodeBlock inode) 4096 buf (fs.readCount inode offset nbytes) ∧
          ∀ i, offset.toNat ≤ i → i < offset.toNat + fs.readCount inode offset nbytes →
            i < 1023 * 4096 ∧ fs.blockNumber inode i < fs.dataBlocks)))

/-! ## One round -/

theorem first_inside (fs : Filesys) (inode : UInt32) : fs.InsideImage inode (.inodeWord inode 0) :=
  ⟨rfl, by decide, by decide⟩

theorem readCount_add_le (inside : offset < fs.fileLength inode) :
    offset.toNat + fs.readCount inode offset nbytes ≤ (fs.fileLength inode).toNat := by
  have inside' : offset.toNat < (fs.fileLength inode).toNat := inside
  have count := min_le_right nbytes.toNat ((fs.fileLength inode).toNat - offset.toNat)
  rw [readCount]
  omega

theorem toNat_counter {k : Nat} (inside : offset < fs.fileLength inode)
    (round : k < fs.readCount inode offset nbytes) :
    (offset + UInt32.ofNat k).toNat = offset.toNat + k := by
  have room := @readCount_add_le fs inode offset nbytes inside
  have bound := (fs.fileLength inode).toNat_lt
  have count : (UInt32.ofNat k).toNat = k := UInt32.toNat_ofNat_of_lt' (show k < 2 ^ 32 by omega)
  rw [toNat_add_of_lt (by omega), count]

/-- While the counter is not negative, a round reads the word and the byte it should. -/
theorem addr_wordRead {k : Nat} (small : (offset + UInt32.ofNat k).toNat < 2 ^ 31) :
    fs.addr (wordRead inode offset k) =
      fs.inodeBlock inode + 4 * UInt32.ofNat ((offset + UInt32.ofNat k).toNat / 4096 + 1) := by
  rw [wordRead, addr, toUInt32_eq_ofNat (toInt_wordIndex small)]

theorem byteRead_eq {k : Nat} (apart : Apart (fs.inodeBlock inode) 4096 buf k)
    (short : k ≤ 2 ^ 32) (low : (offset + UInt32.ofNat k).toNat < 1023 * 4096) :
    fs.byteRead inode offset buf k =
      .dataByte (fs.blockNumber inode (offset + UInt32.ofNat k).toNat)
        ((offset + UInt32.ofNat k).toInt32 % 4096) := by
  rw [byteRead, addr_wordRead (by omega), wordAt_transfer apart short (by omega)]
  rfl

/-! ## A safe call is contained -/

theorem transfer_inside {n : Nat} (inside : offset < fs.fileLength inode)
    (rounds : n = fs.readCount inode offset nbytes)
    (apart : Apart (fs.inodeBlock inode) 4096 buf n)
    (blocks : ∀ i, offset.toNat ≤ i → i < offset.toNat + n →
      i < 1023 * 4096 ∧ fs.blockNumber inode i < fs.dataBlocks)
    {r : ImageRead} (member : r ∈ (fs.transfer inode offset buf n).reads) :
    fs.InsideImage inode r := by
  rw [mem_transfer_reads] at member
  rcases member with ⟨k, round, read⟩ | rfl
  · have counter := toNat_counter inside (rounds ▸ round)
    have count := fs.readCount_le inode offset nbytes
    have bound := nbytes.toNat_lt
    obtain ⟨low, exists'⟩ := blocks (offset.toNat + k) (by omega) (by omega)
    rw [← counter] at low exists'
    -- The byte of round `k`, or the word with its block number.
    rcases read with rfl | rfl
    · rw [byteRead_eq (apart.mono round.le) (by omega) low]
      have position := toInt_bytePosition (show (offset + UInt32.ofNat k).toNat < 2 ^ 31 by omega)
      exact ⟨exists', by omega, by omega⟩
    · have index := toInt_wordIndex (show (offset + UInt32.ofNat k).toNat < 2 ^ 31 by omega)
      exact ⟨rfl, by omega, by omega⟩
  · exact first_inside fs inode

theorem SafeCall.contained (safe : fs.SafeCall inode offset buf nbytes) :
    fs.Contained inode offset buf nbytes := by
  by_cases refused : inode > fs.numInodes ∨ buf = 0
  · exact .inl (by rw [readData_refused refused])
  · rw [Contained]
    by_cases inside : offset < fs.fileLength inode
    · rw [readData_inside refused inside]
      rcases safe with h | h | all | ⟨exists', rest⟩
      · exact absurd (.inr h) refused
      · exact absurd (.inl h) refused
      · rw [all]
        exact .inl (show (UInt32.ofNat (2 ^ 32 - 1)).toInt32 = -1 by decide)
      · refine .inr ⟨exists', fun r member => ?_⟩
        rcases rest with none | ⟨apart, blocks⟩
        · rw [none, mem_transfer_reads] at member
          obtain ⟨k, bound, _⟩ | rfl := member
          · exact absurd bound (Nat.not_lt_zero k)
          · exact first_inside fs inode
        · exact transfer_inside inside rfl apart blocks member
    · have past : offset ≥ fs.fileLength inode := UInt32.not_lt.mp inside
      have none : fs.readCount inode offset nbytes = 0 := by
        have past' : (fs.fileLength inode).toNat ≤ offset.toNat := past
        rw [readCount]
        omega
      rw [readData_past_end refused past]
      rcases safe with h | h | all | ⟨exists', _⟩
      · exact absurd (.inr h) refused
      · exact absurd (.inl h) refused
      · omega
      · refine .inr ⟨exists', fun r member => ?_⟩
        rw [List.mem_singleton] at member
        exact member ▸ first_inside fs inode

/-! ## A contained call is safe -/

/-- What a round that stays inside the image says about the file. -/
theorem round_safe {k : Nat} (fits : fs.Fits) (inside : offset < fs.fileLength inode)
    (round : k < fs.readCount inode offset nbytes)
    (apart : Apart (fs.inodeBlock inode) 4096 buf k)
    (word : fs.InsideImage inode (wordRead inode offset k))
    (byte : fs.InsideImage inode (fs.byteRead inode offset buf k)) :
    offset.toNat + k < 1023 * 4096 ∧ fs.blockNumber inode (offset.toNat + k) < fs.dataBlocks := by
  have counter := toNat_counter inside round
  have room := @readCount_add_le fs inode offset nbytes inside
  have bound := (fs.fileLength inode).toNat_lt
  obtain ⟨_, low, high⟩ := word
  by_cases small : (offset + UInt32.ofNat k).toNat < 2 ^ 31
  · have index := toInt_wordIndex small
    have inFile : (offset + UInt32.ofNat k).toNat < 1023 * 4096 := by omega
    rw [byteRead_eq apart (by omega) inFile] at byte
    rw [← counter]
    exact ⟨inFile, byte.1⟩
  · -- The counter is negative: the length itself would have to be a block number.
    obtain ⟨block, position, _⟩ := byte
    obtain ⟨last, zero⟩ := counter_negative (by omega) low position
    have length : Memory.wordAt (fs.transfer inode offset buf k).bytes
        (fs.addr (wordRead inode offset k)) = fs.fileLength inode := by
      have first : fs.inodeBlock inode + 4 * UInt32.ofNat 0 = fs.inodeBlock inode :=
        UInt32.add_zero _
      rw [wordRead, zero, addr_length, fileLength, ← first]
      exact wordAt_transfer apart (by omega) (by omega)
    rw [length] at block
    have block' : (fs.fileLength inode).toNat < fs.dataBlocks.toNat := block
    rw [Fits, imageSize] at fits
    omega

theorem Contained.safeCall (fits : fs.Fits)
    (apart : Apart (fs.inodeBlock inode) 4096 buf (fs.readCount inode offset nbytes))
    (contained : fs.Contained inode offset buf nbytes) : fs.SafeCall inode offset buf nbytes := by
  by_cases refused : inode > fs.numInodes ∨ buf = 0
  · exact refused.elim (fun h => .inr (.inl h)) .inl
  · rw [Contained] at contained
    by_cases inside : offset < fs.fileLength inode
    · rw [readData_inside refused inside] at contained
      rcases contained with all | ⟨exists', reads⟩
      · -- A count of -1 is a count of 2^32-1 bytes.
        have count := fs.readCount_le inode offset nbytes
        have bound := nbytes.toNat_lt
        have value : UInt32.ofNat (fs.readCount inode offset nbytes) = (-1 : Int32).toUInt32 := by
          rw [← all, UInt32.toUInt32_toInt32]
        have number := congrArg UInt32.toNat value
        rw [UInt32.toNat_ofNat_of_lt' (show _ < 2 ^ 32 by omega)] at number
        exact .inr (.inr (.inl number))
      · refine .inr (.inr (.inr ⟨exists', .inr ⟨apart, fun i low high => ?_⟩⟩))
        obtain ⟨k, rfl⟩ := Nat.exists_eq_add_of_le low
        have round : k < fs.readCount inode offset nbytes := by omega
        have member (r : ImageRead)
            (read : r = fs.byteRead inode offset buf k ∨ r = wordRead inode offset k) :=
          reads r ((mem_transfer_reads fs inode offset buf _ r).mpr (.inl ⟨k, round, read⟩))
        exact round_safe fits inside round (apart.mono round.le) (member _ (.inr rfl))
          (member _ (.inl rfl))
    · have past : (fs.fileLength inode).toNat ≤ offset.toNat := UInt32.not_lt.mp inside
      rw [readData_past_end refused (UInt32.not_lt.mp inside)] at contained
      rcases contained with h | ⟨exists', _⟩
      · exact absurd (show (0 : Int32) = -1 from h) (by decide)
      · refine .inr (.inr (.inr ⟨exists', .inl ?_⟩))
        rw [readCount]
        omega

/-- The bytes of a read that is inside the image lie inside the image. -/
theorem InsideImage.inImage (exists' : inode < fs.numInodes) {r : ImageRead}
    (inside : fs.InsideImage inode r) {b : Nat} (bound : b < r.width) :
    fs.InImage (fs.addr r + UInt32.ofNat b) := by
  cases r with
  | inodeWord n index =>
    obtain ⟨rfl, low, high⟩ := inside
    have four : b < 4 := bound
    have same : index.toInt = (index.toInt.toNat : Nat) := (Int.toNat_of_nonneg low).symm
    rw [addr, toUInt32_eq_ofNat same, inodeWord_byte]
    exact inodeBlock_inImage exists' (by omega)
  | dataByte block position =>
    obtain ⟨exists', low, high⟩ := inside
    have one : b < 1 := bound
    have same : position.toInt = (position.toInt.toNat : Nat) := (Int.toNat_of_nonneg low).symm
    rw [addr, toUInt32_eq_ofNat same, UInt32.add_assoc, ← UInt32.ofNat_add]
    exact dataBlock_inImage exists' (by omega)

/-- `read_data` stays inside the image on every safe call; and on an image that fits the
address space, with a buffer that does not go over the inode block, on no other. Staying inside
the image means that every byte read is one of its `(1 + num_inodes + data_blocks)*4096`. -/
theorem readData_contained_iff (fs : Filesys) (inode offset buf nbytes : UInt32) :
    (fs.SafeCall inode offset buf nbytes → fs.Contained inode offset buf nbytes) ∧
    (fs.Fits → Apart (fs.inodeBlock inode) 4096 buf (fs.readCount inode offset nbytes) →
      (fs.Contained inode offset buf nbytes ↔ fs.SafeCall inode offset buf nbytes)) ∧
    (fs.Contained inode offset buf nbytes →
      (fs.readData inode offset buf nbytes).1 ≠ -1 →
      ∀ r ∈ (fs.readData inode offset buf nbytes).2.reads, ∀ b < r.width,
        fs.InImage (fs.addr r + UInt32.ofNat b)) := by
  refine ⟨SafeCall.contained,
    fun fits apart => ⟨Contained.safeCall fits apart, SafeCall.contained⟩, ?_⟩
  intro contained returned r member b bound
  obtain ⟨exists', inside⟩ := contained.resolve_left returned
  exact InsideImage.inImage exists' (inside r member) bound

/-- An image at 0x10000 with one directory entry, one inode and one data block. The file is
the two bytes 72, 105, and its block number is `block`. -/
def oneFileBytes (block : UInt8) (a : UInt32) : UInt8 :=
  if a = 0x10000 ∨ a = 0x10004 ∨ a = 0x10008 then 1
  else if a = 0x11000 then 2
  else if a = 0x11004 then block
  else if a = 0x12000 then 72
  else if a = 0x12001 then 105
  else 0

def oneFile (block : UInt8) : Filesys := filesysInit 0x10000 (boot (oneFileBytes block))

theorem readData_contained_oneFile : (oneFile 0).Contained 0 0 0x500000 4 := by
  refine (readData_contained_iff (oneFile 0) 0 0 0x500000 4).1
    (.inr (.inr (.inr ⟨by decide, .inr ⟨?_, ?_⟩⟩)))
  · intro j bound
    have two : j < 2 := bound
    interval_cases j <;> decide
  · intro i _ bound
    have two : i < 2 := bound
    interval_cases i <;> decide

/-- Inode 1 of a file system with one inode is not refused; and a block number of 7 is
followed out of the one data block there is. -/
theorem readData_escapes :
    ¬(oneFile 0).Contained 1 0 0x500000 4 ∧ ¬(oneFile 7).Contained 0 0 0x500000 4 := by
  decide

end Filesys

end Mp3Kernel
