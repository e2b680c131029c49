import Mp3Kernel.Filesys.Containment
import Mp3Kernel.Filesys.Lookup

/-!
# Reading a file piece by piece

On a well-formed image every file is a list of bytes, and `fread` hands it out
from where the last `fread` of that file stopped. All files share one table of
positions, and a failed `fopen` writes into it too, but behind the last entry:
no call disturbs the position of another file.
-/

namespace Mp3Kernel

open Library

namespace Filesys

variable {fs fs' : Filesys} {buf nbytes : UInt32}

/-! ## Files as lists of bytes -/

def inodeOf (fs : Filesys) (k : UInt32) : UInt32 := (fs.dentryAt k).inodeNum

/-- Byte `i` of the file with this inode. -/
def fileByte (fs : Filesys) (inode : UInt32) (i : Nat) : UInt8 :=
  fs.bytes (fs.dataBlock (fs.blockNumber inode i) + UInt32.ofNat (i % 4096))

/-- The file of directory entry `k`. -/
def fileBytes (fs : Filesys) (k : UInt32) : List UInt8 :=
  (List.range (fs.fileLength (fs.inodeOf k)).toNat).map (fs.fileByte (fs.inodeOf k))

/-- An inode whose file lies in data blocks that exist. -/
structure SoundInode (fs : Filesys) (inode : UInt32) : Prop where
  number : inode < fs.numInodes
  length : (fs.fileLength inode).toNat ≤ 1023 * 4096
  blocks : ∀ i < (fs.fileLength inode).toNat, fs.blockNumber inode i < fs.dataBlocks

theorem SoundInode.accepted {inode : UInt32} (sound : fs.SoundInode inode) (notNull : buf ≠ 0) :
    ¬(inode > fs.numInodes ∨ buf = 0) := by
  rintro (beyond | null)
  · exact absurd sound.number (UInt32.lt_asymm beyond)
  · exact notNull null

structure WellFormed (fs : Filesys) : Prop where
  entries : fs.dirEntries.toNat ≤ 63
  files : ∀ k < fs.dirEntries, fs.SoundInode (fs.inodeOf k)

/-- The buffer lies outside the image. -/
def Outside (fs : Filesys) (buf : UInt32) (n : Nat) : Prop :=
  Apart fs.baseAddr fs.imageSize buf n

theorem Outside.apart_inodeBlock {n : Nat} (outside : fs.Outside buf n)
    {inode : UInt32} (number : inode < fs.numInodes) : Apart (fs.inodeBlock inode) 4096 buf n := by
  intro j bound
  by_contra near
  have bound' := (buf + UInt32.ofNat j - fs.inodeBlock inode).toNat_lt
  have inside := inodeBlock_inImage number (Nat.lt_of_not_le near)
  rw [← (eq_add_ofNat_iff bound').mpr (Eq.refl (buf + UInt32.ofNat j - fs.inodeBlock inode).toNat)]
    at inside
  exact absurd (outside j bound) (Nat.not_le.mpr inside)

/-! ## `read_data` on a sound inode -/

theorem fileByte_inImage {inode : UInt32} (sound : fs.SoundInode inode) {i : Nat}
    (inside : i < (fs.fileLength inode).toNat) :
    fs.InImage (fs.dataBlock (fs.blockNumber inode i) + UInt32.ofNat (i % 4096)) :=
  dataBlock_inImage (sound.blocks i inside) (Nat.mod_lt i (by decide))

/-- The buffer gets the file's bytes from `offset` on, and nothing else changes. -/
theorem transfer_bytes {inode offset : UInt32} {n : Nat}
    (sound : fs.SoundInode inode) (outside : fs.Outside buf n)
    (inside : offset.toNat + n ≤ (fs.fileLength inode).toNat) (a : UInt32) :
    (fs.transfer inode offset buf n).bytes a =
      if (a - buf).toNat < n then fs.fileByte inode (offset.toNat + (a - buf).toNat)
      else fs.bytes a := by
  have length := sound.length
  induction n with
  | zero => rfl
  | succ n ih =>
    have before : fs.Outside buf n := outside.mono (Nat.le_succ n)
    have counter : (offset + UInt32.ofNat n).toNat = offset.toNat + n := by
      have count : (UInt32.ofNat n).toNat = n := UInt32.toNat_ofNat_of_lt' (show n < 2 ^ 32 by omega)
      rw [toNat_add_of_lt (by omega), count]
    have position := toInt_bytePosition (show (offset + UInt32.ofNat n).toNat < 2 ^ 31 by omega)
    have inFile := fileByte_inImage sound (show offset.toNat + n < _ by omega)
    -- The byte that this round copies is still as it was: the buffer is not in the image.
    have copied : (fs.transfer inode offset buf n).bytes
        (fs.addr (fs.byteRead inode offset buf n)) = fs.fileByte inode (offset.toNat + n) := by
      rw [byteRead_eq (before.apart_inodeBlock sound.number) (by omega) (by omega), addr,
        toUInt32_eq_ofNat position, counter]
      exact before.frame (by omega) inFile
    rw [transfer_succ, copied]
    simp only [Function.update_apply, eq_add_ofNat_iff (show n < 2 ^ 32 by omega)]
    rw [ih before (by omega)]
    -- Copied by an earlier round, by this one, or not part of the buffer.
    rcases Nat.lt_trichotomy (a - buf).toNat n with earlier | last | later
    · rw [if_neg (by omega), if_pos earlier, if_pos (by omega)]
    · rw [if_pos last, if_pos (by omega), last]
    · rw [if_neg (by omega), if_neg (by omega), if_neg (by omega)]

/-- `read_data` on a sound inode and a buffer outside the image: the bytes of the file from
`offset` on, or zeros at its end, and nothing else is written. The sum of `offset` and `nbytes`
may pass 2^32. -/
theorem readData_copies_file (fs : Filesys) (inode offset buf nbytes : UInt32)
    (sound : fs.SoundInode inode) (notNull : buf ≠ 0) (short : nbytes.toNat < 2 ^ 31)
    (outside : fs.Outside buf nbytes.toNat) :
    let length := (fs.fileLength inode).toNat
    let r := min nbytes.toNat (length - offset.toNat)
    let value := (fs.readData inode offset buf nbytes).1
    let after := (fs.readData inode offset buf nbytes).2.bytes
    (offset.toNat < length → value.toInt = r ∧
      (∀ k < r, after (buf + UInt32.ofNat k) = fs.fileByte inode (offset.toNat + k)) ∧
      ∀ a, r ≤ (a - buf).toNat → after a = fs.bytes a) ∧
    (length ≤ offset.toNat → value.toInt = 0 ∧
      (∀ k < nbytes.toNat, after (buf + UInt32.ofNat k) = 0) ∧
      ∀ a, nbytes.toNat ≤ (a - buf).toNat → after a = fs.bytes a) := by
  intro length r value after
  have accepted := sound.accepted notNull
  constructor
  · intro inside
    have result : fs.readData inode offset buf nbytes =
        ((UInt32.ofNat r).toInt32, fs.transfer inode offset buf r) :=
      readData_inside accepted inside
    have bytes := transfer_bytes sound (outside.mono (min_le_left _ _))
      (show offset.toNat + r ≤ length by omega)
    have number : (UInt32.ofNat r).toNat = r := UInt32.toNat_ofNat_of_lt' (show r < 2 ^ 32 by omega)
    simp only [value, after, result]
    refine ⟨?_, fun k bound => ?_, fun a far => ?_⟩
    · exact (toInt_toInt32_of_lt (by omega)).trans (by rw [number])
    · exact (bytes _).trans (by rw [toNat_offset (by omega), if_pos bound])
    · exact (bytes a).trans (if_neg (by omega))
  · intro past
    have result := @readData_past_end fs inode offset buf nbytes accepted past
    have bytes := forLoop_update_apply buf (fun _ => 0) (show nbytes.toNat ≤ 2 ^ 32 by omega) fs.bytes
    simp only [value, after, result]
    refine ⟨rfl, fun k bound => ?_, fun a far => ?_⟩
    · exact (bytes _).trans (by rw [toNat_offset (by omega), if_pos bound])
    · exact (bytes a).trans (if_neg (by omega))

theorem oneFile_soundInode : (oneFile 0).SoundInode 0 := by
  refine ⟨by decide, by decide, fun i inside => ?_⟩
  have two : i < 2 := inside
  interval_cases i <;> decide

/-- Four bytes are asked for where one is left. -/
theorem readData_copies_file_oneFile :
    ((oneFile 0).readData 0 1 0x500000 4).1.toInt =
      (min (4 : UInt32).toNat (((oneFile 0).fileLength 0).toNat - (1 : UInt32).toNat) : Nat) := by
  refine ((readData_copies_file (oneFile 0) 0 1 0x500000 4 oneFile_soundInode (by decide)
    (by decide) ?_).1 (by decide)).1
  intro j bound
  have four : j < 4 := bound
  interval_cases j <;> decide

/-! ## The image does not change -/

/-- The same header and the same bytes in the image. -/
structure SameImage (fs fs' : Filesys) : Prop where
  baseAddr : fs'.baseAddr = fs.baseAddr
  dirEntries : fs'.dirEntries = fs.dirEntries
  numInodes : fs'.numInodes = fs.numInodes
  dataBlocks : fs'.dataBlocks = fs.dataBlocks
  bytes : ∀ a, fs.InImage a → fs'.bytes a = fs.bytes a

theorem SameImage.refl (fs : Filesys) : fs.SameImage fs := ⟨rfl, rfl, rfl, rfl, fun _ _ => rfl⟩

theorem SameImage.inImage (same : fs.SameImage fs') (a : UInt32) : fs'.InImage a ↔ fs.InImage a := by
  rw [InImage, InImage, imageSize, imageSize, same.baseAddr, same.numInodes, same.dataBlocks]

theorem SameImage.trans {fs'' : Filesys} (same : fs.SameImage fs') (same' : fs'.SameImage fs'') :
    fs.SameImage fs'' where
  baseAddr := same'.baseAddr.trans same.baseAddr
  dirEntries := same'.dirEntries.trans same.dirEntries
  numInodes := same'.numInodes.trans same.numInodes
  dataBlocks := same'.dataBlocks.trans same.dataBlocks
  bytes := fun a inside => (same'.bytes a ((same.inImage a).mpr inside)).trans (same.bytes a inside)

theorem SameImage.outside (same : fs.SameImage fs') {n : Nat} :
    fs'.Outside buf n ↔ fs.Outside buf n := by
  rw [Outside, Outside, imageSize, imageSize, same.baseAddr, same.numInodes, same.dataBlocks]

theorem SameImage.inodeBlock (same : fs.SameImage fs') (inode : UInt32) :
    fs'.inodeBlock inode = fs.inodeBlock inode := by
  rw [Filesys.inodeBlock, Filesys.inodeBlock, same.baseAddr]

/-- Words of an inode block are words of the image. -/
theorem SameImage.inodeWord (same : fs.SameImage fs') {inode : UInt32}
    (number : inode < fs.numInodes) {w : Nat} (inside : w ≤ 1023) :
    Memory.wordAt fs'.bytes (fs.inodeBlock inode + 4 * UInt32.ofNat w) =
      Memory.wordAt fs.bytes (fs.inodeBlock inode + 4 * UInt32.ofNat w) := by
  refine Memory.wordAt_congr fun b bound => same.bytes _ ?_
  rw [inodeWord_byte]
  exact inodeBlock_inImage number (by omega)

theorem SameImage.fileLength (same : fs.SameImage fs') {inode : UInt32}
    (number : inode < fs.numInodes) : fs'.fileLength inode = fs.fileLength inode := by
  have first : fs.inodeBlock inode = fs.inodeBlock inode + 4 * UInt32.ofNat 0 :=
    (UInt32.add_zero _).symm
  rw [Filesys.fileLength, Filesys.fileLength, same.inodeBlock, first]
  exact same.inodeWord number (by omega)

theorem SameImage.blockNumber (same : fs.SameImage fs') {inode : UInt32}
    (number : inode < fs.numInodes) {i : Nat} (low : i < 1023 * 4096) :
    fs'.blockNumber inode i = fs.blockNumber inode i := by
  rw [Filesys.blockNumber, Filesys.blockNumber, same.inodeBlock]
  exact same.inodeWord number (by omega)

theorem SameImage.inodeOf (same : fs.SameImage fs') (wellFormed : fs.WellFormed) {k : UInt32}
    (entry : k < fs.dirEntries) : fs'.inodeOf k = fs.inodeOf k := by
  have few := wellFormed.entries
  have entry' : k.toNat < fs.dirEntries.toNat := entry
  rw [Filesys.inodeOf, Filesys.inodeOf, dentryAt, dentryAt, dentryAddr, dentryAddr, same.baseAddr]
  refine Memory.wordAt_congr fun b bound => same.bytes _ ?_
  have distance : fs.baseAddr + 64 + k * 64 + 36 + UInt32.ofNat b =
      fs.dentryAddr k + UInt32.ofNat (36 + b) := by
    rw [UInt32.ofNat_add, ← UInt32.add_assoc]
    rfl
  rw [distance]
  exact dentryAddr_inImage (by omega) (by omega)

theorem SameImage.soundInode (same : fs.SameImage fs') {inode : UInt32}
    (sound : fs.SoundInode inode) : fs'.SoundInode inode := by
  have length := same.fileLength sound.number
  refine ⟨same.numInodes ▸ sound.number, length ▸ sound.length, fun i inside => ?_⟩
  rw [length] at inside
  have low := sound.length
  rw [same.blockNumber sound.number (by omega), same.dataBlocks]
  exact sound.blocks i inside

/-- The file of an entry is a matter of the image. -/
theorem SameImage.fileBytes (same : fs.SameImage fs') (wellFormed : fs.WellFormed) {k : UInt32}
    (entry : k < fs.dirEntries) : fs'.fileBytes k = fs.fileBytes k := by
  have sound := wellFormed.files k entry
  have length := sound.length
  rw [Filesys.fileBytes, Filesys.fileBytes, same.inodeOf wellFormed entry,
    same.fileLength sound.number]
  refine List.map_congr_left fun i member => ?_
  have inside := List.mem_range.mp member
  rw [fileByte, fileByte, same.blockNumber sound.number (by omega), dataBlock,
    same.baseAddr, same.numInodes]
  exact same.bytes _ (fileByte_inImage sound inside)

/-! ## Calls -/

/-- A call into the file system. -/
inductive Call where
  | fopen (fname : List UInt8)
  | fread (index buf nbytes : UInt32)
  | dirRead (fd buf nbytes : UInt32)

/-- The buffer is not NULL, lies outside the image and has fewer than 2^31 bytes. -/
def GoodBuffer (fs : Filesys) (buf nbytes : UInt32) : Prop :=
  buf ≠ 0 ∧ nbytes.toNat < 2 ^ 31 ∧ fs.Outside buf nbytes.toNat

def GoodCall (fs : Filesys) : Call → Prop
  | .fopen _ => True
  | .fread _ buf nbytes | .dirRead _ buf nbytes => fs.GoodBuffer buf nbytes

/-- `read_data` writes into its buffer only. -/
theorem readData_frame (fs : Filesys) (inode offset : UInt32) {a : UInt32}
    (outside : nbytes.toNat ≤ (a - buf).toNat) :
    (fs.readData inode offset buf nbytes).2.bytes a = fs.bytes a := by
  by_cases refused : inode > fs.numInodes ∨ buf = 0
  · rw [readData_refused refused]
  · by_cases inside : offset < fs.fileLength inode
    · have count := fs.readCount_le inode offset nbytes
      have bound := nbytes.toNat_lt
      rw [readData_inside refused inside]
      exact transfer_frame (by omega) (by omega)
    · rw [readData_past_end refused (UInt32.not_lt.mp inside)]
      have bound := nbytes.toNat_lt
      exact (forLoop_update_apply buf (fun _ => 0) (by omega) fs.bytes a).trans
        (if_neg (by omega))

/-- A read of one file leaves the image and the positions of all other files alone. -/
theorem fread_frame (index : UInt32) (outside : fs.Outside buf nbytes.toNat) :
    fs.SameImage (fs.fread index buf nbytes).2 ∧
    ∀ k ≠ index, (fs.fread index buf nbytes).2.position k = fs.position k := by
  rw [fread]
  cases fs.readDentryByIndex index with
  | none => exact ⟨SameImage.refl fs, fun _ _ => rfl⟩
  | some curDentry =>
    refine ⟨⟨rfl, rfl, rfl, rfl, fun a inside => ?_⟩, fun k other => ?_⟩
    · exact fs.readData_frame _ _ (outside.not_reached inside)
    · exact position_setPosition_of_ne other _ _

theorem dirRead_frame (fd : UInt32) (outside : fs.Outside buf nbytes.toNat) :
    fs.SameImage (fs.dirRead fd buf nbytes).2 ∧
    ∀ k, (fs.dirRead fd buf nbytes).2.position k = fs.position k := by
  rw [dirRead]
  split
  · exact ⟨SameImage.refl fs, fun _ => rfl⟩
  · split
    · exact ⟨SameImage.refl fs, fun _ => rfl⟩
    · refine ⟨⟨rfl, rfl, rfl, rfl, fun a inside => ?_⟩, fun _ => rfl⟩
      have far := outside.not_reached inside
      have shorter : (if nbytes > 32 then 32 else nbytes).toNat ≤ nbytes.toNat := by
        split
        next long => exact Nat.le_of_lt long
        next => exact Nat.le_refl _
      have bound := nbytes.toNat_lt
      exact (forLoop_update_apply buf _ (by omega) fs.bytes a).trans (if_neg (by omega))

/-- `fopen` resets the position of the file it returns and of no other. -/
theorem fopen_effect (fname : List UInt8) (wellFormed : fs.WellFormed) {k : UInt32}
    (entry : k < fs.dirEntries) :
    fs.SameImage (fs.fopen fname).2 ∧
    (fs.fopen fname).2.position k =
      if (fs.fopen fname).1 = k.toInt32 then 0 else fs.position k := by
  have few := wellFormed.entries
  have value := fs.fopen_value fname (fs.findName_firstMatch fname)
  refine ⟨⟨rfl, rfl, rfl, rfl, fun _ _ => rfl⟩, ?_⟩
  -- The slot that is reset is the one returned; when nothing is found it is behind all entries.
  simp only [value, value_eq_index_iff (show fs.dirEntries.toNat ≤ 2 ^ 31 by omega) entry]
  have entry' : k.toNat < fs.dirEntries.toNat := entry
  by_cases reset : k = fs.findName fname fs.dirEntries.toNat 0
  · rw [if_pos reset, fopen, ← reset]
    exact position_setPosition (by omega) 0 fs
  · rw [if_neg reset]
    exact position_setPosition_of_ne reset 0 fs

/-! ## One read -/

/-- The first `n` bytes of a buffer. -/
def contents (bytes : UInt32 → UInt8) (buf : UInt32) (n : Nat) : List UInt8 :=
  (List.range n).map fun j => bytes (buf + UInt32.ofNat j)

theorem length_fileBytes (fs : Filesys) (k : UInt32) :
    (fs.fileBytes k).length = (fs.fileLength (fs.inodeOf k)).toNat := by
  simp [fileBytes]

/-- What a transfer leaves in the buffer is a piece of the file. -/
theorem contents_transfer {k offset : UInt32} {n : Nat}
    (sound : fs.SoundInode (fs.inodeOf k)) (outside : fs.Outside buf n)
    (count : n = min nbytes.toNat ((fs.fileBytes k).length - offset.toNat))
    (inside : offset.toNat ≤ (fs.fileBytes k).length) :
    contents (fs.transfer (fs.inodeOf k) offset buf n).bytes buf n =
      ((fs.fileBytes k).drop offset.toNat).take nbytes.toNat := by
  have length := sound.length
  rw [length_fileBytes] at count inside
  apply List.ext_getElem
  · rw [contents, List.length_map, List.length_range, List.length_take, List.length_drop,
      length_fileBytes, count]
  · intro j bound _
    rw [contents, List.length_map, List.length_range] at bound
    have distance : (buf + UInt32.ofNat j - buf).toNat = j := toNat_offset (by omega)
    simp only [contents, List.getElem_map, List.getElem_range, List.getElem_take, List.getElem_drop,
      fileBytes]
    rw [transfer_bytes sound outside (by omega), distance, if_pos bound]

/-- `fread` passes on what `read_data` returns, and moves the position by it. -/
theorem fread_counted {k : UInt32} (entry : k < fs.dirEntries) (slot : k.toNat < 64) {n : Nat} {t : Transfer}
    (read : fs.readData (fs.inodeOf k) (fs.position k) buf nbytes = ((UInt32.ofNat n).toInt32, t))
    (small : (fs.position k).toNat + n < 2 ^ 31) :
    (fs.fread k buf nbytes).1.toInt = n ∧
    ((fs.fread k buf nbytes).2.position k).toNat = (fs.position k).toNat + n ∧
    (fs.fread k buf nbytes).2.bytes = t.bytes := by
  have dentry : fs.readDentryByIndex k = some (fs.dentryAt k) := if_pos entry
  have number : (UInt32.ofNat n).toNat = n := UInt32.toNat_ofNat_of_lt' (show n < 2 ^ 32 by omega)
  have result : fs.fread k buf nbytes = ((UInt32.ofNat n).toInt32,
      { fs with bytes := t.bytes }.setPosition k (fs.position k + UInt32.ofNat n)) := by
    rw [inodeOf] at read
    simp only [fread, dentry, read, UInt32.toUInt32_toInt32]
    rw [UInt32.add_comm, UInt32.add_sub_cancel]
  rw [result]
  refine ⟨?_, ?_, rfl⟩
  · rw [toInt_toInt32_of_lt (by omega), number]
  · rw [position_setPosition slot, toNat_add_of_lt (by omega), number]

/-- `fread` of entry `k` returns the number of bytes left, or `nbytes` if that is less; it
delivers that many bytes of the file from its position on, and moves the position past them. -/
theorem fread_entry (wellFormed : fs.WellFormed) {k : UInt32} (entry : k < fs.dirEntries)
    (good : fs.GoodBuffer buf nbytes)
    (inside : (fs.position k).toNat ≤ (fs.fileBytes k).length) :
    let n := min nbytes.toNat ((fs.fileBytes k).length - (fs.position k).toNat)
    (fs.fread k buf nbytes).1.toInt = n ∧
    ((fs.fread k buf nbytes).2.position k).toNat = (fs.position k).toNat + n ∧
    contents (fs.fread k buf nbytes).2.bytes buf n =
      ((fs.fileBytes k).drop (fs.position k).toNat).take nbytes.toNat := by
  intro n
  obtain ⟨notNull, short, outside⟩ := good
  have sound := wellFormed.files k entry
  have length := sound.length
  have size := fs.length_fileBytes k
  have accepted := sound.accepted notNull
  have few := wellFormed.entries
  have entry' : k.toNat < fs.dirEntries.toNat := entry
  have slot : k.toNat < 64 := by omega
  -- Both ways through `read_data` return `n`, which is 0 at the end of the file.
  by_cases more : fs.position k < fs.fileLength (fs.inodeOf k)
  · have same : fs.readCount (fs.inodeOf k) (fs.position k) nbytes = n := by
      rw [readCount, ← size]
    have read := @readData_inside fs (fs.inodeOf k) (fs.position k) buf nbytes accepted more
    rw [same] at read
    obtain ⟨value, position, bytes⟩ := fread_counted entry slot read (by omega)
    refine ⟨value, position, ?_⟩
    rw [bytes]
    exact contents_transfer sound (outside.mono (by omega)) rfl inside
  · have past : fs.fileLength (fs.inodeOf k) ≤ fs.position k := UInt32.not_lt.mp more
    have past' : (fs.fileLength (fs.inodeOf k)).toNat ≤ (fs.position k).toNat := past
    have none : n = 0 := by omega
    obtain ⟨value, position, _⟩ :=
      fread_counted (n := 0) entry slot (readData_past_end accepted past) (by omega)
    rw [none]
    refine ⟨value, position, ?_⟩
    rw [List.drop_eq_nil_of_le (by omega), List.take_nil]
    rfl

/-! ## Histories -/

/-- A file system, and what `fread` has delivered of one file since it was last opened: the
bytes, and how many were asked for. -/
structure Watch where
  fs : Filesys
  delivered : List UInt8
  requested : Nat

/-- Make a call, with an eye on entry `k`. -/
def watch (k : UInt32) : Call → Watch → Watch
  | .fopen fname, w =>
    let (value, fs) := w.fs.fopen fname
    if value = k.toInt32 then ⟨fs, [], 0⟩ else { w with fs := fs }
  | .fread index buf nbytes, w =>
    let (value, fs) := w.fs.fread index buf nbytes
    if index = k then
      ⟨fs, w.delivered ++ contents fs.bytes buf value.toInt.toNat, w.requested + nbytes.toNat⟩
    else { w with fs := fs }
  | .dirRead fd buf nbytes, w => { w with fs := (w.fs.dirRead fd buf nbytes).2 }

/-- The watched file has delivered its beginning, as much as was asked for. -/
structure Tracks (origin : Filesys) (k : UInt32) (w : Watch) : Prop where
  image : origin.SameImage w.fs
  delivered : w.delivered = (origin.fileBytes k).take w.requested
  position : (w.fs.position k).toNat = w.delivered.length

theorem take_append_next (file : List UInt8) (requested n : Nat) :
    file.take requested ++ (file.drop (file.take requested).length).take n =
      file.take (requested + n) := by
  rw [List.take_add, List.length_take]
  rcases Nat.le_total requested file.length with short | long
  · rw [Nat.min_eq_left short]
  · rw [Nat.min_eq_right long, List.drop_length, List.drop_eq_nil_of_le long]

theorem SameImage.wellFormed (same : fs.SameImage fs') (wellFormed : fs.WellFormed) :
    fs'.WellFormed where
  entries := same.dirEntries ▸ wellFormed.entries
  files := by
    intro k entry
    rw [same.dirEntries] at entry
    rw [same.inodeOf wellFormed entry]
    exact same.soundInode (wellFormed.files k entry)

/-- The next read of the watched file, wherever its history has led. -/
theorem Tracks.next {origin : Filesys} {k : UInt32} {w : Watch} (tracks : Tracks origin k w)
    (wellFormed : origin.WellFormed) (entry : k < origin.dirEntries)
    (good : origin.GoodBuffer buf nbytes) :
    (w.fs.fread k buf nbytes).1.toInt =
      (((origin.fileBytes k).drop w.delivered.length).take nbytes.toNat).length ∧
    ((w.fs.fread k buf nbytes).2.position k).toNat = w.delivered.length +
      (((origin.fileBytes k).drop w.delivered.length).take nbytes.toNat).length ∧
    contents (w.fs.fread k buf nbytes).2.bytes buf (w.fs.fread k buf nbytes).1.toInt.toNat =
      ((origin.fileBytes k).drop w.delivered.length).take nbytes.toNat := by
  obtain ⟨image, delivered, position⟩ := tracks
  have file := image.fileBytes wellFormed entry
  have inside : w.delivered.length ≤ (origin.fileBytes k).length := by
    rw [delivered, List.length_take]
    exact min_le_right _ _
  have entry' : k < w.fs.dirEntries := image.dirEntries ▸ entry
  have good' : w.fs.GoodBuffer buf nbytes := ⟨good.1, good.2.1, image.outside.mpr good.2.2⟩
  have read := fread_entry (image.wellFormed wellFormed) entry' good'
    (by rw [file, position]; exact inside)
  rw [file, position] at read
  obtain ⟨value, moved, bytes⟩ := read
  rw [List.length_take, List.length_drop, value]
  exact ⟨rfl, moved, bytes⟩

theorem watch_tracks {origin : Filesys} {k : UInt32} (wellFormed : origin.WellFormed)
    (entry : k < origin.dirEntries) (call : Call) (w : Watch) (good : origin.GoodCall call)
    (tracks : Tracks origin k w) : Tracks origin k (watch k call w) := by
  have ⟨image, delivered, position⟩ := tracks
  cases call with
  | fopen fname =>
    obtain ⟨same, reset⟩ := fopen_effect fname (image.wellFormed wellFormed)
      (show k < w.fs.dirEntries from image.dirEntries ▸ entry)
    simp only [watch]
    -- Opened again, or another file, or none.
    by_cases opened : (w.fs.fopen fname).1 = k.toInt32
    · rw [if_pos opened] at reset ⊢
      exact ⟨image.trans same, rfl, by rw [reset]; rfl⟩
    · rw [if_neg opened] at reset ⊢
      exact ⟨image.trans same, delivered, by rw [reset]; exact position⟩
  | fread index buf nbytes =>
    obtain ⟨same, others⟩ := fread_frame index (image.outside.mpr good.2.2)
    simp only [watch]
    by_cases watched : index = k
    · -- The next piece of the file, behind what was delivered so far.
      subst watched
      obtain ⟨_, moved, bytes⟩ := tracks.next wellFormed entry good
      rw [if_pos rfl]
      refine ⟨image.trans same, ?_, ?_⟩
      · rw [bytes, delivered]
        exact take_append_next _ _ _
      · rw [moved, bytes, List.length_append]
    · rw [if_neg watched]
      refine ⟨image.trans same, delivered, ?_⟩
      rw [others k (Ne.symm watched)]
      exact position
  | dirRead fd buf nbytes =>
    obtain ⟨same, positions⟩ := dirRead_frame fd (image.outside.mpr good.2.2)
    refine ⟨image.trans same, delivered, ?_⟩
    simp only [watch, positions]
    exact position

/-- Whatever calls were made since the image was loaded, the bytes that `fread` of entry `k`
has delivered since that file was last opened are the beginning of the file, as many as were
asked for; the next `fread` returns and delivers what is left, up to `nbytes`, and 0 at the end. -/
theorem fread_sequential (bytes : UInt32 → UInt8) (location k : UInt32) (calls : List Call)
    (wellFormed : (filesysInit location (boot bytes)).WellFormed)
    (entry : k < (filesysInit location (boot bytes)).dirEntries)
    (good : ∀ call ∈ calls, (filesysInit location (boot bytes)).GoodCall call) :
    let origin := filesysInit location (boot bytes)
    let w := run (watch k) calls ⟨origin, [], 0⟩
    w.delivered = (origin.fileBytes k).take w.requested ∧
    ∀ buf nbytes, origin.GoodBuffer buf nbytes →
      (w.fs.fread k buf nbytes).1.toInt =
        (min nbytes.toNat ((origin.fileBytes k).length - w.delivered.length) : Nat) ∧
      contents (w.fs.fread k buf nbytes).2.bytes buf (w.fs.fread k buf nbytes).1.toInt.toNat =
        ((origin.fileBytes k).drop w.delivered.length).take nbytes.toNat ∧
      ((origin.fileBytes k).length ≤ w.requested → (w.fs.fread k buf nbytes).1 = 0) := by
  intro origin w
  have initial : Tracks origin k ⟨origin, [], 0⟩ :=
    ⟨SameImage.refl origin, rfl, congrArg UInt32.toNat (position_filesysInit location bytes k)⟩
  have tracks : Tracks origin k w := by
    have allowed : Along (watch k) (fun call _ => origin.GoodCall call) calls ⟨origin, [], 0⟩ :=
      along_of_mem calls good _
    exact allowed.invariant (Tracks origin k)
      (fun call w ok h => watch_tracks wellFormed entry call w ok h) initial
  refine ⟨tracks.delivered, fun buf nbytes fine => ?_⟩
  obtain ⟨value, _, delivered⟩ := tracks.next wellFormed entry fine
  rw [List.length_take, List.length_drop] at value
  refine ⟨value, delivered, fun all => Int32.toInt_inj.mp ?_⟩
  have length : w.delivered.length = (origin.fileBytes k).length := by
    rw [tracks.delivered, List.length_take, Nat.min_eq_right all]
  rw [value, length, Nat.sub_self, Nat.min_zero]
  rfl

theorem oneFile_wellFormed : (oneFile 0).WellFormed := by
  refine ⟨by decide, fun k entry => ?_⟩
  have first : k.toNat < 1 := entry
  obtain rfl : k = 0 := UInt32.toNat_inj.mp (by simp only [UInt32.reduceToNat]; omega)
  exact oneFile_soundInode

/-- A byte read from the one file, a failed `fopen` and a directory read. -/
def sampleCalls : List Call :=
  [.fread 0 0x500000 1, .fopen [120], .dirRead 0 0x500000 1, .fread 7 0x500000 1]

theorem fread_sequential_sample :
    (run (watch 0) sampleCalls ⟨oneFile 0, [], 0⟩).delivered =
      ((oneFile 0).fileBytes 0).take (run (watch 0) sampleCalls ⟨oneFile 0, [], 0⟩).requested := by
  have buffer : (oneFile 0).GoodBuffer 0x500000 1 := by
    refine ⟨by decide, by decide, fun j bound => ?_⟩
    have one : j < 1 := bound
    interval_cases j
    decide
  refine (fread_sequential (oneFileBytes 0) 0x10000 0 sampleCalls oneFile_wellFormed (by decide)
    ?_).1
  intro call member
  simp only [sampleCalls, List.mem_cons, List.not_mem_nil, or_false] at member
  rcases member with rfl | rfl | rfl | rfl
  · exact buffer
  · trivial
  · exact buffer
  · exact buffer

end Filesys

end Mp3Kernel
