import Mp3Kernel.Filesys.Basic

/-!
# The image in memory

Where the parts of the image lie: every byte of the directory, of an inode block
and of a data block is at a distance from `base_addr` below the size of the
image. Distances are taken modulo 2^32, so an image may also lie across the end
of the address space.
-/

namespace Mp3Kernel

open Library

namespace Filesys

variable {fs : Filesys}

/-- The boot block, the inode blocks and the data blocks. -/
def imageSize (fs : Filesys) : Nat := 4096 * (1 + fs.numInodes.toNat + fs.dataBlocks.toNat)

def InImage (fs : Filesys) (a : UInt32) : Prop := (a - fs.baseAddr).toNat < fs.imageSize

/-- The image fits the address space. -/
def Fits (fs : Filesys) : Prop := fs.imageSize ≤ 2 ^ 32

-- An image that does not fit is all of memory.
theorem inImage_of_distance {a : UInt32} {x : Nat} (inside : x < fs.imageSize)
    (distance : a = fs.baseAddr + UInt32.ofNat x) : fs.InImage a := by
  by_cases small : x < 2 ^ 32
  · rw [InImage, (eq_add_ofNat_iff small).mp distance]
    exact inside
  · have bound := (a - fs.baseAddr).toNat_lt
    rw [InImage]
    omega

theorem inodeBlock_add (fs : Filesys) (inode : UInt32) (x : Nat) :
    fs.inodeBlock inode + UInt32.ofNat x =
      fs.baseAddr + UInt32.ofNat (4096 + inode.toNat * 4096 + x) := by
  rw [UInt32.ofNat_add, UInt32.ofNat_add, UInt32.ofNat_mul, UInt32.ofNat_toNat, ← UInt32.add_assoc,
    ← UInt32.add_assoc]
  rfl

theorem dataBlock_add (fs : Filesys) (block : UInt32) (x : Nat) :
    fs.dataBlock block + UInt32.ofNat x =
      fs.baseAddr + UInt32.ofNat (4096 + (fs.numInodes.toNat + block.toNat) * 4096 + x) := by
  rw [UInt32.ofNat_add, UInt32.ofNat_add, UInt32.ofNat_mul, UInt32.ofNat_add, UInt32.ofNat_toNat,
    UInt32.ofNat_toNat, ← UInt32.add_assoc, ← UInt32.add_assoc]
  rfl

theorem dentryAddr_add (fs : Filesys) (index : UInt32) (x : Nat) :
    fs.dentryAddr index + UInt32.ofNat x =
      fs.baseAddr + UInt32.ofNat (64 + index.toNat * 64 + x) := by
  rw [UInt32.ofNat_add, UInt32.ofNat_add, UInt32.ofNat_mul, UInt32.ofNat_toNat, ← UInt32.add_assoc,
    ← UInt32.add_assoc]
  rfl

theorem inodeBlock_inImage {inode : UInt32} (exists' : inode < fs.numInodes)
    {x : Nat} (inside : x < 4096) : fs.InImage (fs.inodeBlock inode + UInt32.ofNat x) := by
  have number : inode.toNat < fs.numInodes.toNat := exists'
  refine inImage_of_distance ?_ (fs.inodeBlock_add inode x)
  rw [imageSize]
  omega

theorem dataBlock_inImage {block : UInt32} (exists' : block < fs.dataBlocks)
    {x : Nat} (inside : x < 4096) : fs.InImage (fs.dataBlock block + UInt32.ofNat x) := by
  have number : block.toNat < fs.dataBlocks.toNat := exists'
  refine inImage_of_distance ?_ (fs.dataBlock_add block x)
  rw [imageSize]
  omega

/-- The boot block has room for 63 entries. -/
theorem dentryAddr_inImage {index : UInt32} (entry : index.toNat < 63) {x : Nat}
    (inside : x < 64) : fs.InImage (fs.dentryAddr index + UInt32.ofNat x) := by
  refine inImage_of_distance ?_ (fs.dentryAddr_add index x)
  rw [imageSize]
  omega

/-- Byte `b` of word `w` of an inode block. -/
theorem inodeWord_byte (fs : Filesys) (inode : UInt32) (w b : Nat) :
    fs.inodeBlock inode + 4 * UInt32.ofNat w + UInt32.ofNat b =
      fs.inodeBlock inode + UInt32.ofNat (4 * w + b) := by
  rw [UInt32.add_assoc, UInt32.ofNat_add, UInt32.ofNat_mul]
  rfl

end Filesys

end Mp3Kernel
