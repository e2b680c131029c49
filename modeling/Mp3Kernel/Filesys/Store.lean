import Mp3Kernel.Filesys.Enumerate

/-!
# The file system as a store of files

What `filesys.c` is for, without memory and machine numbers: a list of names, each
with a file, and for each file a position up to which it has been read. On a sound
image, with buffers outside of it, the code answers every sequence of requests as
this store does.
-/

namespace Mp3Kernel

open Library

/-! ## The store -/

/-- The calls into the file system, with their buffers. -/
inductive Request where
  | fopen (fname : List UInt8)
  | fread (index buf nbytes : UInt32)
  | readData (inode offset buf nbytes : UInt32)
  | load (inode address : UInt32)
  | dirRead (fd buf nbytes : UInt32)
  | fwrite (index buf nbytes : UInt32)
  | fclose (index : Int32)
  | dirOpen (dirName : List UInt8)
  | dirWrite (inode buf nbytes : UInt32)
  | dirClose (ignore : Int32)

def Request.buffer : Request → UInt32
  | .fread _ buf _ | .readData _ _ buf _ | .load _ buf | .dirRead _ buf _ => buf
  | .fwrite _ _ _ | .fclose _ | .dirOpen _ | .dirWrite _ _ _ | .dirClose _ | .fopen _ => 0

/-- What a request returns, and the bytes that it puts into its buffer. -/
structure Reply where
  value : Int
  data : List UInt8
  deriving DecidableEq

/-- The names of the entries and the numbers of their inodes, the files by the number of their inode, and the
positions of `fread` and of `dir_read`. -/
structure Store where
  names : List (List UInt8)
  owners : List Nat
  inodes : List (List UInt8)
  positions : Nat → Nat
  dirPosition : Nat

namespace Store

/-- The bytes from `offset` on, as many as there are, or zeros at the end of the file. -/
def piece (file : List UInt8) (offset nbytes : Nat) : Reply :=
  if offset < file.length then
    { value := ((file.drop offset).take nbytes).length, data := (file.drop offset).take nbytes }
  else { value := 0, data := List.replicate nbytes 0 }

/-- The first entry with a name that begins with this one; the number of entries if there is none. -/
def find (fname : List UInt8) (st : Store) : Nat :=
  st.names.findIdx fun name => decide (Filesys.text fname <+: Filesys.text name)

/-- A piece of a file; there is none without the file. -/
def read (inode offset nbytes : Nat) (st : Store) : Reply :=
  match st.inodes[inode]? with
  | none => { value := -1, data := [] }
  | some file => piece file offset nbytes

def serve : Request → Store → Reply × Store
  | .fopen fname, st =>
    ({ value := if st.find fname < st.names.length then st.find fname else -1, data := [] },
      { st with positions := Function.update st.positions (st.find fname) 0 })
  | .fread index _ nbytes, st =>
    match st.owners[index.toNat]?.bind (st.inodes[·]?) with
    | none => ({ value := -1, data := [] }, st)
    | some file =>
      let reply := piece file (st.positions index.toNat) nbytes.toNat
      -- The position moves by what was returned, which at the end is less than what was stored.
      (reply, { st with
        positions := Function.update st.positions index.toNat (st.positions index.toNat + reply.value.toNat) })
  | .readData inode offset _ nbytes, st => (st.read inode.toNat offset.toNat nbytes.toNat, st)
  | .load inode _, st => (st.read inode.toNat 0 0x400000, st)
  | .dirRead _ _ nbytes, st =>
    match st.names[st.dirPosition]? with
    | none => ({ value := 0, data := [] }, st)
    | some name =>
      ({ value := 0, data := name.take nbytes.toNat }, { st with dirPosition := st.dirPosition + 1 })
  | .dirOpen _, st => ({ value := 0, data := [] }, st)
  | .fwrite _ _ _, st | .fclose _, st | .dirWrite _ _ _, st | .dirClose _, st => ({ value := -1, data := [] }, st)

theorem piece_value_nonneg (file : List UInt8) (offset nbytes : Nat) : 0 ≤ (piece file offset nbytes).value := by
  unfold piece
  split
  · exact Int.natCast_nonneg _
  · exact Int.le_refl 0

/-- A piece ends where its file does. -/
theorem piece_bound (file : List UInt8) (offset nbytes : Nat) (inside : offset ≤ file.length) :
    offset + (piece file offset nbytes).value.toNat ≤ file.length := by
  unfold piece
  split
  · simp only [Int.toNat_natCast, List.length_take, List.length_drop]
    omega
  · exact inside

end Store

namespace Filesys

variable {origin fs fs' : Filesys} {inode offset buf nbytes : UInt32} {st : Store}

/-! ## The code -/

/-- The return value, and the file system afterwards. -/
def serve : Request → Filesys → Int32 × Filesys
  | .fopen fname, fs => fs.fopen fname
  | .fread index buf nbytes, fs => fs.fread index buf nbytes
  | .readData inode offset buf nbytes, fs =>
    let (value, t) := fs.readData inode offset buf nbytes
    (value, { fs with bytes := t.bytes })
  | .load inode address, fs =>
    let (value, t) := fs.load inode address
    (value, { fs with bytes := t.bytes })
  | .dirRead fd buf nbytes, fs => fs.dirRead fd buf nbytes
  | .fwrite index buf nbytes, fs => fs.fwrite index buf nbytes
  | .fclose index, fs => fs.fclose index
  | .dirOpen dirName, fs => fs.dirOpen dirName
  | .dirWrite inode buf nbytes, fs => fs.dirWrite inode buf nbytes
  | .dirClose ignore, fs => fs.dirClose ignore

/-- Every inode holds a file of the image, and every entry names an inode. -/
structure SoundImage (fs : Filesys) : Prop where
  entries : fs.dirEntries.toNat ≤ 63
  owners : ∀ k < fs.dirEntries, fs.inodeOf k < fs.numInodes
  inodes : ∀ inode < fs.numInodes, fs.SoundInode inode

theorem SoundImage.wellFormed (sound : fs.SoundImage) : fs.WellFormed :=
  ⟨sound.entries, fun k entry => sound.inodes _ (sound.owners k entry)⟩

/-- A name is at most as long as its field, and a buffer lies outside the image. The number of an inode may be too
large, but not by one: `read_data` does not refuse `num_inodes`. -/
def GoodRequest (fs : Filesys) : Request → Prop
  | .fopen fname => strlen fname ≤ 32
  | .fread _ buf nbytes | .dirRead _ buf nbytes => fs.GoodBuffer buf nbytes
  | .readData inode _ buf nbytes => inode ≠ fs.numInodes ∧ fs.GoodBuffer buf nbytes
  | .load inode address => inode ≠ fs.numInodes ∧ fs.GoodBuffer address 0x400000
  | .fwrite _ _ _ | .fclose _ | .dirOpen _ | .dirWrite _ _ _ | .dirClose _ => True

def inodeBytes (fs : Filesys) (inode : UInt32) : List UInt8 :=
  (List.range (fs.fileLength inode).toNat).map (fs.fileByte inode)

/-- The store that an image holds. -/
def store (fs : Filesys) : Store where
  names := (List.range fs.dirEntries.toNat).map fun k => (fs.dentryAt (UInt32.ofNat k)).fname
  owners := (List.range fs.dirEntries.toNat).map fun k => (fs.inodeOf (UInt32.ofNat k)).toNat
  inodes := (List.range fs.numInodes.toNat).map fun n => fs.inodeBytes (UInt32.ofNat n)
  positions k := (fs.position (UInt32.ofNat k)).toNat
  dirPosition := fs.dirPosition.toNat

/-- Memory with `data` from `buf` on. -/
def deliver (data : List UInt8) (buf : UInt32) (bytes : UInt32 → UInt8) (a : UInt32) : UInt8 :=
  data[(a - buf).toNat]?.getD (bytes a)

@[simp] theorem deliver_nil (buf : UInt32) (bytes : UInt32 → UInt8) : deliver [] buf bytes = bytes := rfl

theorem length_inodeBytes (fs : Filesys) (inode : UInt32) :
    (fs.inodeBytes inode).length = (fs.fileLength inode).toNat := by
  simp [inodeBytes]

theorem getElem?_inodeBytes {i : Nat} (inside : i < (fs.fileLength inode).toNat) :
    (fs.inodeBytes inode)[i]? = some (fs.fileByte inode i) := by
  simp [inodeBytes, inside]

/-! ## One request -/

theorem readData_piece_inside (sound : fs.SoundInode inode) (good : fs.GoodBuffer buf nbytes) {offset : UInt32}
    (inside : offset < fs.fileLength inode) :
    (fs.readData inode offset buf nbytes).1.toInt =
      (((fs.inodeBytes inode).drop offset.toNat).take nbytes.toNat).length ∧
    (fs.readData inode offset buf nbytes).2.bytes =
      deliver (((fs.inodeBytes inode).drop offset.toNat).take nbytes.toNat) buf fs.bytes := by
  obtain ⟨notNull, short, outside⟩ := good
  have accepted : ¬(inode > fs.numInodes ∨ buf = 0) := sound.accepted notNull
  have size := fs.length_inodeBytes inode
  have bound := sound.length
  have inside' : offset.toNat < (fs.fileLength inode).toNat := inside
  have count : fs.readCount inode offset nbytes =
      (((fs.inodeBytes inode).drop offset.toNat).take nbytes.toNat).length := by
    rw [List.length_take, List.length_drop, size, readCount]
  have fewer := fs.readCount_le inode offset nbytes
  have least : fs.readCount inode offset nbytes ≤ (fs.fileLength inode).toNat - offset.toNat := min_le_right _ _
  have number : (UInt32.ofNat (fs.readCount inode offset nbytes)).toNat = fs.readCount inode offset nbytes :=
    UInt32.toNat_ofNat_of_lt' (show _ < 2 ^ 32 by omega)
  rw [readData_inside accepted inside]
  refine ⟨?_, funext fun a => ?_⟩
  · rw [toInt_toInt32_of_lt (by omega), number, count]
  · have room : offset.toNat + fs.readCount inode offset nbytes ≤ (fs.fileLength inode).toNat := by omega
    rw [transfer_bytes sound (outside.mono fewer) room a, deliver]
    split
    next below =>
      have short : (a - buf).toNat < nbytes.toNat := by omega
      rw [List.getElem?_take_of_lt short, List.getElem?_drop, getElem?_inodeBytes (by omega)]
      rfl
    next beyond =>
      rw [List.getElem?_eq_none (Nat.le_of_not_lt (count ▸ beyond))]
      rfl

/-- Behind its end a file is read as NULs, which are not counted. -/
theorem readData_piece_past (sound : fs.SoundInode inode) (good : fs.GoodBuffer buf nbytes) {offset : UInt32}
    (past : fs.fileLength inode ≤ offset) :
    (fs.readData inode offset buf nbytes).1.toInt = 0 ∧
    (fs.readData inode offset buf nbytes).2.bytes = deliver (List.replicate nbytes.toNat 0) buf fs.bytes := by
  obtain ⟨notNull, short, _⟩ := good
  rw [readData_past_end (sound.accepted notNull) past]
  refine ⟨rfl, funext fun a => ?_⟩
  refine (forLoop_update_apply buf (fun _ => 0) (by omega) fs.bytes a).trans ?_
  rw [deliver, List.getElem?_replicate]
  split
  · rfl
  · rfl

theorem readData_piece (sound : fs.SoundInode inode) (good : fs.GoodBuffer buf nbytes) (offset : UInt32) :
    let reply := Store.piece (fs.inodeBytes inode) offset.toNat nbytes.toNat
    (fs.readData inode offset buf nbytes).1.toInt = reply.value ∧
    (fs.readData inode offset buf nbytes).2.bytes = deliver reply.data buf fs.bytes := by
  intro reply
  have size := fs.length_inodeBytes inode
  by_cases inside : offset < fs.fileLength inode
  · have inside' : offset.toNat < (fs.fileLength inode).toNat := inside
    have piece : reply = ⟨(((fs.inodeBytes inode).drop offset.toNat).take nbytes.toNat).length,
        ((fs.inodeBytes inode).drop offset.toNat).take nbytes.toNat⟩ := if_pos (by omega)
    rw [piece]
    exact readData_piece_inside sound good inside
  · have past : fs.fileLength inode ≤ offset := UInt32.not_lt.mp inside
    have past' : (fs.fileLength inode).toNat ≤ offset.toNat := past
    have piece : reply = ⟨0, List.replicate nbytes.toNat 0⟩ := if_neg (by omega)
    rw [piece]
    exact readData_piece_past sound good past

theorem SameImage.inodeBytes (same : fs.SameImage fs') (sound : fs.SoundInode inode) :
    fs'.inodeBytes inode = fs.inodeBytes inode := by
  have length := sound.length
  rw [Filesys.inodeBytes, Filesys.inodeBytes, same.fileLength sound.number]
  refine List.map_congr_left fun i member => ?_
  have inside := List.mem_range.mp member
  rw [fileByte, fileByte, same.blockNumber sound.number (by omega), dataBlock, dataBlock,
    same.baseAddr, same.numInodes]
  exact same.bytes _ (fileByte_inImage sound inside)

/-- `fopen` searches the names as the store does. -/
theorem find_store {fname : List UInt8} (short : strlen fname ≤ 32) (names : st.names = fs.store.names) :
    st.find fname = (fs.findName fname fs.dirEntries.toNat 0).toNat := by
  have first := fs.findName_firstMatch fname
  generalize fs.findName fname fs.dirEntries.toNat 0 = i at first
  have size : fs.store.names.length = fs.dirEntries.toNat := by simp [store]
  have bound : i.toNat ≤ fs.dirEntries.toNat := first.bound
  have entry (k : Nat) (below : k < fs.store.names.length) :
      decide (text fname <+: text fs.store.names[k]) = !decide (fs.nameDiffers fname (UInt32.ofNat k)) := by
    have name : text fs.store.names[k] = fs.entryName (UInt32.ofNat k) := by simp [store, entryName]
    rw [name, ← decide_not, decide_eq_decide, nameDiffers_iff, not_not, begins_iff_start _ short]
  have earlier (k : Nat) (less : k < i.toNat) : fs.nameDiffers fname (UInt32.ofNat k) := by
    refine first.before _ ?_
    rw [UInt32.lt_iff_toNat_lt, UInt32.toNat_ofNat_of_lt' (Nat.lt_trans less i.toNat_lt)]
    exact less
  rw [Store.find, names]
  rcases Nat.lt_or_eq_of_le bound with inside | missing
  · refine (List.findIdx_eq (by omega)).mpr ⟨?_, fun k less => ?_⟩
    · rw [entry _ (by omega), UInt32.ofNat_toNat, decide_eq_false (first.found inside)]
      rfl
    · rw [entry _ (by omega), decide_eq_true (earlier k less)]
      rfl
  · rw [missing, ← size]
    refine List.findIdx_eq_length_of_false fun name member => ?_
    obtain ⟨k, below, rfl⟩ := List.mem_iff_getElem.mp member
    rw [entry k below, decide_eq_true (earlier k (by omega))]
    rfl

/-- The file system stands where the store does. -/
structure Represents (origin fs : Filesys) (st : Store) : Prop where
  image : origin.SameImage fs
  names : st.names = origin.store.names
  owners : st.owners = origin.store.owners
  inodes : st.inodes = origin.store.inodes
  positions : ∀ k < origin.dirEntries, st.positions k.toNat = (fs.position k).toNat
  inside : ∀ k < origin.dirEntries, (fs.position k).toNat ≤ (origin.inodeBytes (origin.inodeOf k)).length
  dirPosition : st.dirPosition = fs.dirPosition.toNat

/-- The answers agree, and so does what is there afterwards. -/
structure Answers (origin fs : Filesys) (st : Store) (request : Request) : Prop where
  value : (serve request fs).1.toInt = (st.serve request).1.value
  bytes : (serve request fs).2.bytes = deliver (st.serve request).1.data request.buffer fs.bytes
  next : Represents origin (serve request fs).2 (st.serve request).2

/-- A transfer that stays out of the image changes nothing else that counts. -/
theorem Represents.transferred (represents : Represents origin fs st) {bytes : UInt32 → UInt8}
    (kept : ∀ a, origin.InImage a → bytes a = fs.bytes a) : Represents origin { fs with bytes := bytes } st :=
  { represents with
    image := represents.image.trans ⟨rfl, rfl, rfl, rfl,
      fun a inside => kept a ((represents.image.inImage a).mp inside)⟩ }

/-- The file of `index` is now read up to `n`. -/
theorem Represents.setPosition (represents : Represents origin fs st) (sound : origin.SoundImage)
    {index value : UInt32} {n : Nat} (number : value.toNat = n)
    (inside : index < origin.dirEntries → n ≤ (origin.inodeBytes (origin.inodeOf index)).length) :
    Represents origin (fs.setPosition index value)
      { st with positions := Function.update st.positions index.toNat n } := by
  have place (k : UInt32) (entry : k < origin.dirEntries) :
      Function.update st.positions index.toNat n k.toNat = ((fs.setPosition index value).position k).toNat ∧
      ((fs.setPosition index value).position k).toNat ≤ (origin.inodeBytes (origin.inodeOf k)).length := by
    by_cases own : k = index
    · have few := sound.entries
      have below : k.toNat < origin.dirEntries.toNat := entry
      subst own
      rw [position_setPosition (by omega), number, Function.update_self]
      exact ⟨rfl, inside entry⟩
    · rw [position_setPosition_of_ne own, Function.update_of_ne (mt UInt32.toNat_inj.mp own)]
      exact ⟨represents.positions k entry, represents.inside k entry⟩
  exact { represents with
    image := represents.image.trans ⟨rfl, rfl, rfl, rfl, fun _ _ => rfl⟩
    positions := fun k entry => (place k entry).1
    inside := fun k entry => (place k entry).2 }

theorem Represents.file (represents : Represents origin fs st) (exists' : inode < origin.numInodes) :
    st.inodes[inode.toNat]? = some (origin.inodeBytes inode) := by
  have below : inode.toNat < origin.numInodes.toNat := exists'
  rw [represents.inodes]
  simp [store, below]

/-- A piece of a file read through any memory that still has the image. -/
theorem Represents.piece (represents : Represents origin fs st) (sound : origin.SoundInode inode)
    (good : origin.GoodBuffer buf nbytes) (offset : UInt32) :
    let reply := Store.piece (origin.inodeBytes inode) offset.toNat nbytes.toNat
    (fs.readData inode offset buf nbytes).1.toInt = reply.value ∧
    (fs.readData inode offset buf nbytes).2.bytes = deliver reply.data buf fs.bytes ∧
    ∀ a, origin.InImage a → (fs.readData inode offset buf nbytes).2.bytes a = fs.bytes a := by
  have image := represents.image
  have outside := image.outside.mpr good.2.2
  obtain ⟨value, bytes⟩ := readData_piece (image.soundInode sound) ⟨good.1, good.2.1, outside⟩ offset
  rw [image.inodeBytes sound] at value bytes
  exact ⟨value, bytes, fun a inside =>
    fs.readData_frame inode offset (outside.not_reached ((image.inImage a).mpr inside))⟩

/-- A read through the number of an inode is refused where the store has no file. -/
theorem Represents.read (represents : Represents origin fs st) (sound : origin.SoundImage)
    (number : inode ≠ origin.numInodes) (good : origin.GoodBuffer buf nbytes) (offset : UInt32) :
    let reply := st.read inode.toNat offset.toNat nbytes.toNat
    (fs.readData inode offset buf nbytes).1.toInt = reply.value ∧
    (fs.readData inode offset buf nbytes).2.bytes = deliver reply.data buf fs.bytes ∧
    ∀ a, origin.InImage a → (fs.readData inode offset buf nbytes).2.bytes a = fs.bytes a := by
  by_cases exists' : inode < origin.numInodes
  · simp only [Store.read, represents.file exists']
    exact represents.piece (sound.inodes inode exists') good offset
  · have beyond : origin.numInodes < inode :=
      UInt32.lt_of_le_of_ne (UInt32.not_lt.mp exists') number.symm
    have refused : inode > fs.numInodes ∨ buf = 0 := .inl (represents.image.numInodes ▸ beyond)
    have missing : st.inodes[inode.toNat]? = none := by
      rw [represents.inodes]
      refine List.getElem?_eq_none ?_
      simpa [store] using UInt32.le_iff_toNat_le.mp (UInt32.not_lt.mp exists')
    rw [Store.read, missing, readData_refused refused]
    exact ⟨rfl, rfl, fun _ _ => rfl⟩

theorem fopen_answers (sound : origin.SoundImage) (represents : Represents origin fs st) {fname : List UInt8}
    (short : strlen fname ≤ 32) : Answers origin fs st (.fopen fname) := by
  have image := represents.image
  have entries : fs.dirEntries = origin.dirEntries := image.dirEntries
  have few : fs.dirEntries.toNat ≤ 63 := entries ▸ sound.entries
  have same : fs.store.names = origin.store.names := by
    simp only [store, entries]
    refine List.map_congr_left fun k member => image.fname ?_
    have below := List.mem_range.mp member
    rw [UInt32.toNat_ofNat_of_lt' (Nat.lt_trans below origin.dirEntries.toNat_lt)]
    have bound := sound.entries
    omega
  have found : st.find fname = (fs.findName fname fs.dirEntries.toNat 0).toNat :=
    find_store short (represents.names.trans same.symm)
  have size : st.names.length = fs.dirEntries.toNat := by
    rw [represents.names, entries]
    simp [store]
  have first := fs.findName_firstMatch fname
  have value := fs.fopen_value fname first
  refine ⟨?_, rfl, ?_⟩
  · simp only [serve, Store.serve, found, size]
    rw [value]
    by_cases inside : fs.findName fname fs.dirEntries.toNat 0 < fs.dirEntries
    · have inside' := UInt32.lt_iff_toNat_lt.mp inside
      rw [if_pos inside, if_pos inside', toInt_toInt32_of_lt (by omega)]
    · rw [if_neg inside, if_neg (mt UInt32.lt_iff_toNat_lt.mpr inside)]
      rfl
  · simp only [serve, Store.serve, fopen, found]
    exact represents.setPosition sound rfl fun _ => Nat.zero_le _

/-- What a read of an entry leaves. -/
theorem fread_state (buf nbytes : UInt32) {index : UInt32} (entry : index < fs.dirEntries) :
    (fs.fread index buf nbytes).2 =
      { fs with bytes := (fs.readData (fs.inodeOf index) (fs.position index) buf nbytes).2.bytes }.setPosition index
        (fs.position index + (fs.readData (fs.inodeOf index) (fs.position index) buf nbytes).1.toUInt32) := by
  have dentry : fs.readDentryByIndex index = some (fs.dentryAt index) := if_pos entry
  simp only [fread, dentry, inodeOf]

theorem Represents.fread_refused (represents : Represents origin fs st) {index : UInt32}
    (entry : ¬index < origin.dirEntries) : Answers origin fs st (.fread index buf nbytes) := by
  have entries : fs.dirEntries = origin.dirEntries := represents.image.dirEntries
  have missing : st.owners[index.toNat]?.bind (st.inodes[·]?) = none := by
    rw [represents.owners, List.getElem?_eq_none, Option.bind_none]
    simpa [store] using UInt32.le_iff_toNat_le.mp (UInt32.not_lt.mp entry)
  have refused : fs.fread index buf nbytes = (-1, fs) := fread_no_entry (entries ▸ entry)
  refine ⟨?_, ?_, ?_⟩
  · simp only [serve, Store.serve, missing, refused]
    rfl
  · simp only [serve, Store.serve, missing, refused, deliver_nil]
  · simp only [serve, Store.serve, missing, refused]
    exact represents

theorem fread_answers (sound : origin.SoundImage) (represents : Represents origin fs st) {index : UInt32}
    (good : origin.GoodBuffer buf nbytes) : Answers origin fs st (.fread index buf nbytes) := by
  have image := represents.image
  have entries : fs.dirEntries = origin.dirEntries := image.dirEntries
  by_cases entry : index < origin.dirEntries
  · have entry' : index.toNat < origin.dirEntries.toNat := entry
    have few := sound.entries
    have slot : index.toNat < 64 := by omega
    have exists' := sound.owners index entry
    have owner : st.owners[index.toNat]?.bind (st.inodes[·]?) = some (origin.inodeBytes (origin.inodeOf index)) := by
      rw [represents.owners]
      simpa [store, entry'] using represents.file exists'
    have place := represents.positions index entry
    have small := (sound.inodes _ exists').length
    -- The code adds what `read_data` returns to the position, the store the length of the piece.
    obtain ⟨value, bytes, kept⟩ := represents.piece (sound.inodes _ exists') good (fs.position index)
    have state := fread_state buf nbytes (entries ▸ entry)
    have returned : (fs.fread index buf nbytes).1 = _ := (fread_of_entry (entries ▸ entry) slot).1
    rw [image.inodeOf sound.wellFormed entry] at state returned
    rw [← place] at value bytes
    have nonneg := Store.piece_value_nonneg (origin.inodeBytes (origin.inodeOf index)) (st.positions index.toNat)
      nbytes.toNat
    have bound := Store.piece_bound (origin.inodeBytes (origin.inodeOf index)) (st.positions index.toNat) nbytes.toNat
      (by rw [place]; exact represents.inside index entry)
    generalize same : Store.piece (origin.inodeBytes (origin.inodeOf index)) (st.positions index.toNat) nbytes.toNat =
      reply at value bytes nonneg bound
    have size := origin.length_inodeBytes (origin.inodeOf index)
    have count : (fs.readData (origin.inodeOf index) (fs.position index) buf nbytes).1.toUInt32 =
        UInt32.ofNat reply.value.toNat := toUInt32_eq_ofNat (value.trans (Int.toNat_of_nonneg nonneg).symm)
    have number : (UInt32.ofNat reply.value.toNat).toNat = reply.value.toNat :=
      UInt32.toNat_ofNat_of_lt' (show _ < 2 ^ 32 by omega)
    have moved : (fs.position index +
        (fs.readData (origin.inodeOf index) (fs.position index) buf nbytes).1.toUInt32).toNat =
          st.positions index.toNat + reply.value.toNat := by
      rw [count, toNat_add_of_lt (by omega), number, place]
    refine ⟨?_, ?_, ?_⟩
    · simp only [serve, Store.serve, owner, returned, same]
      exact value
    · simp only [serve, Store.serve, owner, state, same]
      exact bytes
    · simp only [serve, Store.serve, owner, state, same]
      exact (represents.transferred kept).setPosition sound moved fun _ => bound
  · exact represents.fread_refused entry

theorem Represents.dirRead_at_end (represents : Represents origin fs st) (notNull : buf ≠ 0) (fd : UInt32)
    (more : ¬fs.dirPosition < fs.dirEntries) : Answers origin fs st (.dirRead fd buf nbytes) := by
  have entries : fs.dirEntries = origin.dirEntries := represents.image.dirEntries
  have ended : fs.dirRead fd buf nbytes = (0, fs) := dirRead_ended notNull (UInt32.not_lt.mp more)
  have missing : st.names[st.dirPosition]? = none := by
    rw [represents.names, represents.dirPosition]
    refine List.getElem?_eq_none ?_
    simpa [store] using UInt32.le_iff_toNat_le.mp (entries ▸ UInt32.not_lt.mp more)
  refine ⟨?_, ?_, ?_⟩
  · simp only [serve, Store.serve, missing, ended]
    rfl
  · simp only [serve, Store.serve, missing, ended, deliver_nil]
  · simp only [serve, Store.serve, missing, ended]
    exact represents

theorem dirRead_answers (sound : origin.SoundImage) (represents : Represents origin fs st) (fd : UInt32)
    (good : origin.GoodBuffer buf nbytes) : Answers origin fs st (.dirRead fd buf nbytes) := by
  have image := represents.image
  have entries : fs.dirEntries = origin.dirEntries := image.dirEntries
  have few := sound.entries
  have frame := dirRead_frame fd (image.outside.mpr good.2.2)
  by_cases more : fs.dirPosition < fs.dirEntries
  · have more' : fs.dirPosition.toNat < origin.dirEntries.toNat := entries ▸ more
    have name : st.names[st.dirPosition]? = some (fs.dentryAt fs.dirPosition).fname := by
      rw [represents.names, represents.dirPosition, image.fname (by omega)]
      simp [store, more']
    have size := fs.length_fname fs.dirPosition
    have moved : (fs.dirRead fd buf nbytes).2.dirPosition = fs.dirPosition + 1 := by
      rw [dirRead, if_neg good.1, if_neg (UInt32.not_le.mpr more)]
    refine ⟨?_, funext fun a => ?_, ?_⟩
    · simp only [serve, Store.serve, name]
      rw [dirRead_value good.1]
      rfl
    · simp only [serve, Store.serve, name, Request.buffer]
      rw [deliver]
      -- The code copies 32 bytes at most, and a name has 32.
      refine (dirRead_delivers good.1 more a).trans ?_
      split
      next below =>
        have inside : (a - buf).toNat < (fs.dentryAt fs.dirPosition).fname.length := by omega
        rw [List.getElem?_take_of_lt (by omega), List.getElem?_eq_getElem inside, List.getD_eq_getElem _ _ inside]
        rfl
      next beyond =>
        rw [List.getElem?_eq_none (by rw [List.length_take]; omega)]
        rfl
    · simp only [serve, Store.serve, name]
      refine ⟨image.trans frame.1, represents.names, represents.owners, represents.inodes, ?_, ?_, ?_⟩
      · exact fun k entry => (frame.2 k).symm ▸ represents.positions k entry
      · exact fun k entry => (frame.2 k).symm ▸ represents.inside k entry
      · rw [moved, toNat_add_one (by omega), represents.dirPosition]
  · exact represents.dirRead_at_end good.1 fd more

theorem serve_answers (sound : origin.SoundImage) (represents : Represents origin fs st) {request : Request}
    (good : origin.GoodRequest request) : Answers origin fs st request := by
  cases request with
  | fopen fname => exact fopen_answers sound represents good
  | fread index buf nbytes => exact fread_answers sound represents good
  | readData inode offset buf nbytes =>
    obtain ⟨value, bytes, kept⟩ := represents.read sound good.1 good.2 offset
    exact ⟨value, bytes, represents.transferred kept⟩
  | load inode address =>
    obtain ⟨value, bytes, kept⟩ := represents.read sound good.1 good.2 0
    exact ⟨value, bytes, represents.transferred kept⟩
  | dirRead fd buf nbytes => exact dirRead_answers sound represents fd good
  | fwrite index buf nbytes | fclose index | dirWrite inode buf nbytes | dirClose ignore => exact ⟨rfl, rfl, represents⟩
  | dirOpen dirName => exact ⟨rfl, rfl, represents⟩

/-! ## Runs -/

theorem filesysInit_represents (bytes : UInt32 → UInt8) (location : UInt32) :
    Represents (filesysInit location (boot bytes)) (filesysInit location (boot bytes))
      (filesysInit location (boot bytes)).store where
  image := .refl _
  names := rfl
  owners := rfl
  inodes := rfl
  positions k _ := by simp only [store, UInt32.ofNat_toNat]
  inside k _ := by
    rw [position_filesysInit]
    exact Nat.zero_le _
  dirPosition := rfl

/-- On a sound image the code answers as the store that the image holds, whatever was asked before and in whatever
order: with the same value, and with the same bytes in the buffer and no other byte of memory changed. The image is
never written. -/
theorem filesys_refines_store (bytes : UInt32 → UInt8) (location : UInt32) (requests : List Request) (request : Request)
    (sound : (filesysInit location (boot bytes)).SoundImage)
    (good : ∀ r ∈ requests, (filesysInit location (boot bytes)).GoodRequest r)
    (fine : (filesysInit location (boot bytes)).GoodRequest request) :
    let origin := filesysInit location (boot bytes)
    let fs := run (fun r fs => (serve r fs).2) requests origin
    let reply := ((run (fun r st => (st.serve r).2) requests origin.store).serve request).1
    (serve request fs).1.toInt = reply.value ∧
    (serve request fs).2.bytes = deliver reply.data request.buffer fs.bytes ∧
    ∀ a, origin.InImage a → (serve request fs).2.bytes a = bytes a := by
  intro origin fs reply
  have allowed : Along (fun r fs => (serve r fs).2) (fun r _ => origin.GoodRequest r) requests origin :=
    along_of_mem requests good origin
  have represents : Represents origin fs (run (fun r st => (st.serve r).2) requests origin.store) :=
    allowed.simulation (fun r st => (st.serve r).2) (Represents origin)
      (fun r fs st ok represents => (serve_answers sound represents ok).next) (filesysInit_represents bytes location)
  have answers := serve_answers sound represents fine
  exact ⟨answers.value, answers.bytes, answers.next.image.bytes⟩

theorem oneFile_soundImage : (oneFile 0).SoundImage := by
  refine ⟨by decide, fun k entry => ?_, fun inode number => ?_⟩
  · have first : k.toNat < 1 := entry
    obtain rfl : k = 0 := UInt32.toNat_inj.mp (by simp only [UInt32.reduceToNat]; omega)
    decide
  · have first : inode.toNat < 1 := number
    obtain rfl : inode = 0 := UInt32.toNat_inj.mp (by simp only [UInt32.reduceToNat]; omega)
    exact oneFile_soundInode

/-- The second byte of the one file, after a read of the first and one of an inode that does not exist. -/
theorem filesys_refines_store_sample :
    (serve (.fread 0 0x500000 4) (run (fun r fs => (serve r fs).2)
      [.fopen [], .fread 0 0x500000 1, .readData 5 0 0x500000 4] (oneFile 0))).1.toInt = 1 := by
  have buffer {n : UInt32} (few : n.toNat ≤ 4) : (oneFile 0).GoodBuffer 0x500000 n := by
    refine ⟨by decide, by omega, fun j bound => ?_⟩
    have four : j < 4 := by omega
    interval_cases j <;> decide
  refine (filesys_refines_store (oneFileBytes 0) 0x10000 [.fopen [], .fread 0 0x500000 1, .readData 5 0 0x500000 4]
    (.fread 0 0x500000 4) oneFile_soundImage ?_ (buffer (by decide))).1.trans (by decide)
  intro r member
  simp only [List.mem_cons, List.not_mem_nil, or_false] at member
  rcases member with rfl | rfl | rfl
  · exact Nat.zero_le _
  · exact buffer (by decide)
  · exact ⟨by decide, buffer (by decide)⟩

end Filesys

end Mp3Kernel
