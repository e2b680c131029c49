import Mp3Kernel.Library.Machine

/-!
# The read-only file system of `filesys.c`

The image is a boot block with the directory, then inode blocks, then data
blocks, 4096 bytes each, somewhere in memory. An inode block is the length of
the file and the numbers of its data blocks.

The functions that read the image by block record what they read; no result
depends on the record.
-/

namespace Mp3Kernel

open Library

/-- The static variables of `filesys.c`, and memory. No buffer is laid over the variables. -/
structure Filesys where
  bytes : UInt32 → UInt8
  /-- `bytes_read[64]`. -/
  bytesRead : Fin 64 → UInt32
  dirPosition : UInt32
  baseAddr : UInt32
  dirEntries : UInt32
  numInodes : UInt32
  dataBlocks : UInt32
  /-- A subscript of `bytes_read` was not below 64. What was read and overwritten then is for the
  linker to say, `dir_position` or `num_inodes` perhaps: this state is not the kernel's any more. -/
  strayed : Bool

/-- A directory entry, `dentry_t`. -/
structure Dentry where
  fname : List UInt8
  type : UInt32
  inodeNum : UInt32

/-- A read of the image: a word through `inode_block`, or a byte through `data_block`. -/
inductive ImageRead where
  | inodeWord (inode : UInt32) (index : Int32)
  | dataByte (block : UInt32) (position : Int32)
  deriving DecidableEq, Repr

/-- Memory, and what was read of the image, the latest first. -/
structure Transfer where
  bytes : UInt32 → UInt8
  reads : List ImageRead

namespace Filesys

/-! ## Addresses -/

def dentryAddr (fs : Filesys) (index : UInt32) : UInt32 := fs.baseAddr + 64 + index * 64

def inodeBlock (fs : Filesys) (inode : UInt32) : UInt32 := fs.baseAddr + 4096 + inode * 4096

def dataBlock (fs : Filesys) (dataBlockNum : UInt32) : UInt32 :=
  fs.baseAddr + 4096 + (fs.numInodes + dataBlockNum) * 4096

/-- The address of the byte, or of the first byte of the word. -/
def addr (fs : Filesys) : ImageRead → UInt32
  | .inodeWord inode index => fs.inodeBlock inode + 4 * index.toUInt32
  | .dataByte block position => fs.dataBlock block + position.toUInt32

/-! ## Start -/

/-- The static variables at boot. -/
def boot (bytes : UInt32 → UInt8) : Filesys := ⟨bytes, fun _ => 0, 0, 0, 0, 0, 0, false⟩

def filesysInit (location : UInt32) (fs : Filesys) : Filesys :=
  { fs with
    -- The first entry is the directory itself.
    dirPosition := 1
    baseAddr := location
    dirEntries := Memory.wordAt fs.bytes location
    numInodes := Memory.wordAt fs.bytes (location + 4)
    dataBlocks := Memory.wordAt fs.bytes (location + 8) }

/-! ## Directory entries -/

/-- The 40 bytes of entry `index`. -/
def dentryAt (fs : Filesys) (index : UInt32) : Dentry where
  fname := (List.range 32).map fun k => fs.bytes (fs.dentryAddr index + UInt32.ofNat k)
  type := Memory.wordAt fs.bytes (fs.dentryAddr index + 32)
  inodeNum := Memory.wordAt fs.bytes (fs.dentryAddr index + 36)

-- Every caller passes a local, so `dentry` is not NULL.
def readDentryByIndex (fs : Filesys) (index : UInt32) : Option Dentry :=
  if index < fs.dirEntries then some (fs.dentryAt index) else none

def strlen (str : List UInt8) : Nat := (str.takeWhile (· ≠ 0)).length

/-- The rounds of `strncmp` from `i` on, `n` of them left; `s1` ends with a NUL. -/
def strncmp (s1 : List UInt8) (s2 : Nat → UInt8) : Nat → Nat → Int
  | 0, _ => 0
  | n + 1, i =>
    if s1.getD i 0 ≠ s2 i ∨ s1.getD i 0 = 0 then (s1.getD i 0).toInt8.toInt - (s2 i).toInt8.toInt
    else strncmp s1 s2 n (i + 1)

def nameDiffers (fs : Filesys) (fname : List UInt8) (i : UInt32) : Prop :=
  strncmp fname (fun k => fs.bytes (fs.dentryAddr i + UInt32.ofNat k)) (strlen fname) 0 ≠ 0

instance (fs : Filesys) (fname : List UInt8) (i : UInt32) : Decidable (fs.nameDiffers fname i) :=
  inferInstanceAs (Decidable (¬_))

/-- The search loop of `fopen`; at most `dir_entries` rounds. -/
def findName (fs : Filesys) (fname : List UInt8) : Nat → UInt32 → UInt32
  | 0, i => i
  | rounds + 1, i =>
    if i < fs.dirEntries ∧ fs.nameDiffers fname i then fs.findName fname rounds (i + 1) else i

/-! ## Positions -/

/-- `bytes_read[index]`. -/
def position (fs : Filesys) (index : UInt32) : UInt32 :=
  if inside : index.toNat < 64 then fs.bytesRead ⟨index.toNat, inside⟩ else 0

/-- `bytes_read[index] = value`. Behind the 64 slots lie other variables, which the store hits. -/
def setPosition (index value : UInt32) (fs : Filesys) : Filesys :=
  { fs with
    bytesRead := fun slot => if slot.val = index.toNat then value else fs.bytesRead slot
    strayed := fs.strayed || decide (64 ≤ index.toNat) }

theorem position_setPosition {index : UInt32} (inside : index.toNat < 64) (value : UInt32)
    (fs : Filesys) : (fs.setPosition index value).position index = value := by
  rw [position, dif_pos inside]
  exact if_pos rfl

theorem position_setPosition_of_ne {index k : UInt32} (other : k ≠ index) (value : UInt32)
    (fs : Filesys) : (fs.setPosition index value).position k = fs.position k := by
  have slot : k.toNat ≠ index.toNat := fun same => other (UInt32.toNat_inj.mp same)
  rw [position, position]
  split
  · exact if_neg slot
  · rfl

theorem position_filesysInit (location : UInt32) (bytes : UInt32 → UInt8) (k : UInt32) :
    (filesysInit location (boot bytes)).position k = 0 := by
  rw [position]
  split <;> rfl

/-! ## Files -/

def fopen (fname : List UInt8) (fs : Filesys) : Int32 × Filesys :=
  let i := fs.findName fname fs.dirEntries.toNat 0
  -- The position is reset before the test, for a name that was not found too.
  (if i < fs.dirEntries then i.toInt32 else -1, fs.setPosition i 0)

/-- The body of the loop of `read_data`. -/
def readByte (fs : Filesys) (inode offset buf : UInt32) (i : Int32) (t : Transfer) : Transfer :=
  -- `inode_block[i/4096+1]`, with the signed division of C.
  let word := ImageRead.inodeWord inode (i / 4096 + 1)
  let dataBlockNum := Memory.wordAt t.bytes (fs.addr word)
  let byte := ImageRead.dataByte dataBlockNum (i % 4096)
  { bytes := Function.update t.bytes (buf + (i.toUInt32 - offset)) (t.bytes (fs.addr byte))
    reads := byte :: word :: t.reads }

/-- The loop of `read_data`, with at most `rounds` rounds left. -/
def readLoop (fs : Filesys) (inode length offset buf nbytes : UInt32) :
    Nat → Int32 → Transfer → Int32 × Transfer
  | 0, i, t => (i, t)
  | rounds + 1, i, t =>
    if i.toUInt32 - offset < nbytes ∧ i.toUInt32 < length then
      fs.readLoop inode length offset buf nbytes rounds (i + 1) (fs.readByte inode offset buf i t)
    else (i, t)

-- The loop stops after `nbytes` rounds at the latest: `i - offset` counts them.
def readData (fs : Filesys) (inode offset buf nbytes : UInt32) : Int32 × Transfer :=
  -- The test lets `inode = num_inodes` through.
  if inode > fs.numInodes ∨ buf = 0 then (-1, ⟨fs.bytes, []⟩)
  else
    let first := ImageRead.inodeWord inode 0
    let length := Memory.wordAt fs.bytes (fs.addr first)
    -- If the file has been completely read, the buffer is blanked.
    if offset ≥ length then
      (0, ⟨forLoop (fun i bytes => Function.update bytes (buf + UInt32.ofNat i) 0) nbytes.toNat
        fs.bytes, [first]⟩)
    else
      let (i, t) := fs.readLoop inode length offset buf nbytes nbytes.toNat offset.toInt32
        ⟨fs.bytes, [first]⟩
      ((i.toUInt32 - offset).toInt32, t)

def fread (index buf nbytes : UInt32) (fs : Filesys) : Int32 × Filesys :=
  match fs.readDentryByIndex index with
  | none => (-1, fs)
  | some curDentry =>
    let retBytesRead := fs.position index
    let (count, t) := fs.readData curDentry.inodeNum (fs.position index) buf nbytes
    -- A result of -1 is added like any other.
    let position := fs.position index + count.toUInt32
    ((position - retBytesRead).toInt32, { fs with bytes := t.bytes }.setPosition index position)

def load (fs : Filesys) (inode address : UInt32) : Int32 × Transfer :=
  fs.readData inode 0 address 0x400000

/-! ## The directory -/

def dirRead (_fd buf nbytes : UInt32) (fs : Filesys) : Int32 × Filesys :=
  if buf = 0 then (-1, fs)
  else if fs.dirPosition ≥ fs.dirEntries then (0, fs)
  else
    let curDentry := fs.dentryAt fs.dirPosition
    let nbytes := if nbytes > 32 then 32 else nbytes
    (0, { fs with
      bytes := forLoop (fun k bytes =>
        Function.update bytes (buf + UInt32.ofNat k) (curDentry.fname.getD k 0)) nbytes.toNat
        fs.bytes
      dirPosition := fs.dirPosition + 1 })

end Filesys

end Mp3Kernel
