import Mp3Kernel.Filesys.Sequential

/-!
# Loading a program

`load` reads 4 MB from the start of a file. The largest file is shorter than that,
so one read takes all of it. A file of length 0 is at its end from the start: for
it `read_data` blanks all 4 MB.
-/

namespace Mp3Kernel

open Library

namespace Filesys

variable {fs : Filesys} {inode address : UInt32}

/-- `load` returns the length, puts the file at `address` and writes nothing else. -/
def LoadsExactly (fs : Filesys) (inode address : UInt32) : Prop :=
  (fs.load inode address).1.toInt = (fs.fileLength inode).toNat ∧
  contents (fs.load inode address).2.bytes address (fs.fileLength inode).toNat =
    (List.range (fs.fileLength inode).toNat).map (fs.fileByte inode) ∧
  ∀ a, (fs.fileLength inode).toNat ≤ (a - address).toNat →
    (fs.load inode address).2.bytes a = fs.bytes a

theorem load_empty (sound : fs.SoundInode inode) (notNull : address ≠ 0)
    (empty : fs.fileLength inode = 0) (a : UInt32) :
    (fs.load inode address).2.bytes a =
      if (a - address).toNat < 0x400000 then 0 else fs.bytes a := by
  have past : (0 : UInt32) ≥ fs.fileLength inode := by
    rw [empty]
    exact UInt32.le_refl 0
  rw [load, readData_past_end (sound.accepted notNull) past]
  exact forLoop_update_apply address (fun _ => 0) (by decide) fs.bytes a

theorem load_whole (sound : fs.SoundInode inode) (notNull : address ≠ 0)
    (outside : fs.Outside address 0x400000) (some' : fs.fileLength inode ≠ 0) :
    fs.LoadsExactly inode address := by
  have length := sound.length
  have positive : (0 : UInt32) < fs.fileLength inode := by
    rw [UInt32.lt_iff_toNat_lt]
    have nonzero : (fs.fileLength inode).toNat ≠ 0 := fun zero => some' (UInt32.toNat_inj.mp zero)
    simp
    omega
  have whole : fs.readCount inode 0 0x400000 = (fs.fileLength inode).toNat := by
    simp [readCount]
    omega
  have result : fs.load inode address = ((UInt32.ofNat (fs.fileLength inode).toNat).toInt32,
      fs.transfer inode 0 address (fs.fileLength inode).toNat) := by
    rw [load, readData_inside (sound.accepted notNull) positive, whole]
  have bytes := @transfer_bytes fs address inode 0 (fs.fileLength inode).toNat sound
    (outside.mono (show (fs.fileLength inode).toNat ≤ 0x400000 by omega)) (by simp)
  rw [LoadsExactly, result]
  refine ⟨?_, ?_, ?_⟩
  · rw [UInt32.ofNat_toNat]
    exact toInt_toInt32_of_lt (by omega)
  · apply List.map_congr_left
    intro j member
    have below := List.mem_range.mp member
    rw [bytes, toNat_offset (by omega), if_pos below]
    simp
  · intro a far
    exact (bytes a).trans (if_neg (by omega))

/-- On a well-formed image `load` places the file and nothing else exactly when the file is not
empty, or the 4 MB that it blanks are zero already. -/
theorem load_exact_iff (fs : Filesys) (inode address : UInt32) (sound : fs.SoundInode inode)
    (notNull : address ≠ 0) (outside : fs.Outside address 0x400000) :
    fs.LoadsExactly inode address ↔
      fs.fileLength inode ≠ 0 ∨ ∀ k < 0x400000, fs.bytes (address + UInt32.ofNat k) = 0 := by
  by_cases empty : fs.fileLength inode = 0
  · have bytes := load_empty sound notNull empty
    have none : (fs.fileLength inode).toNat = 0 := by rw [empty]; rfl
    constructor
    · rintro ⟨_, _, kept⟩
      refine .inr fun k below => ?_
      rw [← kept _ (by omega), bytes, toNat_offset (by omega), if_pos below]
    · rintro (some' | blank)
      · exact absurd empty some'
      · have result : (fs.load inode address).1 = 0 := by
          rw [load, readData_past_end (sound.accepted notNull) (by rw [empty]; exact UInt32.le_refl 0)]
        refine ⟨?_, ?_, fun a _ => ?_⟩
        · rw [result, none]
          rfl
        · rw [none]
          rfl
        · rw [bytes]
          split
          · rename_i below
            have place := (eq_add_ofNat_iff (a := a) (b := address) (by omega)).mpr rfl
            rw [place]
            exact (blank _ below).symm
          · rfl
  · exact iff_of_true (load_whole sound notNull outside empty) (.inl empty)

/-- A buffer behind the image that does not wrap. -/
theorem outside_above {n : Nat} (above : fs.baseAddr.toNat + fs.imageSize ≤ address.toNat)
    (noWrap : address.toNat + n ≤ 2 ^ 32) : fs.Outside address n := by
  intro j below
  have count : (UInt32.ofNat j).toNat = j := UInt32.toNat_ofNat_of_lt' (show j < 2 ^ 32 by omega)
  have place : (address + UInt32.ofNat j).toNat = address.toNat + j := by
    rw [toNat_add_of_lt (by omega), count]
  rw [toNat_sub_of_le (by omega), place]
  omega

/-- The one file of two bytes is loaded. -/
theorem load_exact_oneFile : (oneFile 0).LoadsExactly 0 0x500000 := by
  refine (load_exact_iff (oneFile 0) 0 0x500000 oneFile_soundInode (by decide) ?_).mpr
    (.inl (by decide))
  exact outside_above (by decide) (by decide)

/-- One inode, of an empty file, and a byte in use at 0x500000. -/
def emptyFileBytes (a : UInt32) : UInt8 :=
  if a = 0x10004 then 1 else if a = 0x500000 then 7 else 0

def emptyFile : Filesys := filesysInit 0x10000 (boot emptyFileBytes)

/-- `load` of the empty file returns 0 and clears the byte. -/
theorem load_blanks_memory :
    emptyFile.SoundInode 0 ∧ emptyFile.fileLength 0 = 0 ∧ ¬emptyFile.LoadsExactly 0 0x500000 := by
  have sound : emptyFile.SoundInode 0 := by
    refine ⟨by decide, by decide, fun i inside => ?_⟩
    have none : (emptyFile.fileLength 0).toNat = 0 := by decide
    omega
  have empty : emptyFile.fileLength 0 = 0 := by decide
  refine ⟨sound, empty, fun ⟨_, _, kept⟩ => ?_⟩
  have same := kept 0x500000 (by decide)
  rw [load_empty sound (by decide) empty] at same
  exact absurd same (by decide)

end Filesys

end Mp3Kernel
