import Mp3Kernel.Filesys.Sequential

/-!
# Reads that fail

`fread` adds what `read_data` returns to the position of the file, the error code
as well. A read that is refused for its index leaves everything as it was; one
that `read_data` refuses moves the position back by one, and at the start of the
file that is behind every end.

There are 64 positions and as many entries as the image says. A directory that
fits in the boot block has at most 63; with one that has more, a call can go past
the positions, `fopen` already when there is no such name.
-/

namespace Mp3Kernel

open Library

namespace Filesys

variable {fs : Filesys} {index buf nbytes : UInt32}

/-- Make a call. -/
def exec : Call → Filesys → Filesys
  | .fopen fname, fs => (fs.fopen fname).2
  | .fread index buf nbytes, fs => (fs.fread index buf nbytes).2
  | .dirRead fd buf nbytes, fs => (fs.dirRead fd buf nbytes).2

/-! ## The slots of `bytes_read` -/

/-- The slot of `bytes_read` that the call uses, if any, is one of the 64. -/
def InSlots : Call → Filesys → Prop
  -- A name that is not found resets the slot behind the last entry.
  | .fopen fname, fs =>
    fs.dirEntries < 64 ∨ ∃ i < 64, i < fs.dirEntries ∧ fs.Begins (fs.dentryAddr i) fname
  | .fread index _ _, fs => index < fs.dirEntries → index < 64
  | .dirRead _ _ _, _ => True

theorem findName_lt_iff (fs : Filesys) (fname : List UInt8) (n : UInt32) :
    fs.findName fname fs.dirEntries.toNat 0 < n ↔
      fs.dirEntries < n ∨ ∃ i < n, i < fs.dirEntries ∧ fs.Begins (fs.dentryAddr i) fname := by
  have first := fs.findName_firstMatch fname
  generalize fs.findName fname fs.dirEntries.toNat 0 = i at first
  constructor
  · intro below
    rcases UInt32.lt_or_eq_of_le first.bound with inside | rfl
    · have same := first.found inside
      rw [nameDiffers_iff, not_not] at same
      exact .inr ⟨i, below, inside, same⟩
    · exact .inl below
  · rintro (few | ⟨k, below, inside, begins⟩)
    · exact UInt32.lt_of_le_of_lt first.bound few
    · refine UInt32.lt_of_le_of_lt (UInt32.not_lt.mp fun later => ?_) below
      exact (nameDiffers_iff fs fname k).mp (first.before k later) begins

theorem setPosition_strayed (value : UInt32) :
    (fs.setPosition index value).strayed = false ↔ fs.strayed = false ∧ index < 64 := by
  rw [setPosition, Bool.or_eq_false_iff, decide_eq_false_iff_not, Nat.not_le]
  exact Iff.rfl

theorem exec_strayed (call : Call) (fs : Filesys) :
    (exec call fs).strayed = false ↔ fs.strayed = false ∧ InSlots call fs := by
  cases call with
  | fopen fname => rw [exec, fopen, setPosition_strayed, findName_lt_iff, InSlots]
  | fread index buf nbytes =>
    by_cases entry : index < fs.dirEntries
    · have dentry : fs.readDentryByIndex index = some (fs.dentryAt index) := if_pos entry
      simp only [exec, fread, dentry, setPosition_strayed, InSlots, entry, true_imp_iff]
    · have dentry : fs.readDentryByIndex index = none := if_neg entry
      simp only [exec, fread, dentry, InSlots, entry, false_imp_iff, and_true]
  | dirRead fd buf nbytes =>
    rw [exec, dirRead, InSlots, and_true]
    split
    · exact Iff.rfl
    · split <;> exact Iff.rfl

/-- A run has not strayed exactly if each of its calls kept to the slots. -/
theorem run_strayed (calls : List Call) (fs : Filesys) :
    (run exec calls fs).strayed = false ↔ fs.strayed = false ∧ Along exec InSlots calls fs := by
  induction calls generalizing fs with
  | nil => exact (and_iff_left trivial).symm
  | cons call calls ih => rw [run_cons, ih, exec_strayed, along_cons, and_assoc]

/-- The slots suffice for a directory that fits in the boot block. -/
theorem inSlots_of_few (few : fs.dirEntries.toNat ≤ 63) (call : Call) : InSlots call fs := by
  have bound : fs.dirEntries < 64 := Nat.lt_succ_of_le few
  cases call with
  | fopen fname => exact .inl bound
  | fread index buf nbytes => exact fun entry => UInt32.lt_trans entry bound
  | dirRead fd buf nbytes => trivial

/-! ## When `fread` fails -/

theorem toInt32_eq_neg_one_iff {a : UInt32} : a.toInt32 = -1 ↔ a.toNat = 2 ^ 32 - 1 := by
  have ones : (-1 : Int32).toUInt32 = 0xFFFFFFFF := by decide
  constructor
  · intro same
    rw [← UInt32.toUInt32_toInt32 a, same, ones]
    rfl
  · intro same
    have all : a = 0xFFFFFFFF := UInt32.toNat_inj.mp same
    rw [all]
    decide

/-- `read_data` returns -1 also for a count of 2^32 - 1 bytes. -/
theorem readData_failed_iff (fs : Filesys) (inode offset buf nbytes : UInt32) :
    (fs.readData inode offset buf nbytes).1 = -1 ↔
      (inode > fs.numInodes ∨ buf = 0) ∨ fs.readCount inode offset nbytes = 2 ^ 32 - 1 := by
  by_cases refused : inode > fs.numInodes ∨ buf = 0
  · rw [readData_refused refused]
    exact iff_of_true rfl (.inl refused)
  · by_cases inside : offset < fs.fileLength inode
    · have count := fs.readCount_le inode offset nbytes
      have bound := nbytes.toNat_lt
      rw [readData_inside refused inside, toInt32_eq_neg_one_iff,
        UInt32.toNat_ofNat_of_lt' (show fs.readCount inode offset nbytes < 2 ^ 32 by omega)]
      exact (or_iff_right refused).symm
    · have past : fs.fileLength inode ≤ offset := UInt32.not_lt.mp inside
      have past' : (fs.fileLength inode).toNat ≤ offset.toNat := past
      rw [readData_past_end refused past]
      refine iff_of_false (show (0 : Int32) ≠ -1 by decide) ?_
      rw [readCount]
      rintro (refused' | count)
      · exact refused refused'
      · omega

/-- `fread` of an entry returns what `read_data` returns, and adds it to the position. -/
theorem fread_of_entry (entry : index < fs.dirEntries) (slot : index < 64) :
    (fs.fread index buf nbytes).1 =
      (fs.readData (fs.inodeOf index) (fs.position index) buf nbytes).1 ∧
    (fs.fread index buf nbytes).2.position index = fs.position index +
      (fs.readData (fs.inodeOf index) (fs.position index) buf nbytes).1.toUInt32 := by
  have dentry : fs.readDentryByIndex index = some (fs.dentryAt index) := if_pos entry
  simp only [fread, dentry, inodeOf, position_setPosition slot, and_true]
  rw [UInt32.add_comm, UInt32.add_sub_cancel, Int32.toInt32_toUInt32]

theorem fread_no_entry (missing : ¬index < fs.dirEntries) :
    fs.fread index buf nbytes = (-1, fs) := by
  have dentry : fs.readDentryByIndex index = none := if_neg missing
  simp only [fread, dentry]

/-! ## What a failed read leaves -/

/-- If this read fails, no position changes, and any read of the file that comes next does what
it would have done without this one. -/
def KeepsPosition (fs : Filesys) (index buf nbytes : UInt32) : Prop :=
  (fs.fread index buf nbytes).1 = -1 →
    (fs.fread index buf nbytes).2.bytesRead = fs.bytesRead ∧
    ∀ buf' nbytes', (fs.fread index buf nbytes).2.fread index buf' nbytes' =
      fs.fread index buf' nbytes'

/-- The index is refused, or `read_data` accepts the call and its count is not -1. -/
def SafeFread (fs : Filesys) (index buf nbytes : UInt32) : Prop :=
  index < fs.dirEntries → buf ≠ 0 ∧ fs.inodeOf index ≤ fs.numInodes ∧
    fs.readCount (fs.inodeOf index) (fs.position index) nbytes ≠ 2 ^ 32 - 1

theorem safeFread_iff (entry : index < fs.dirEntries) (slot : index < 64) :
    fs.SafeFread index buf nbytes ↔ (fs.fread index buf nbytes).1 ≠ -1 := by
  rw [(fread_of_entry entry slot).1, Ne, readData_failed_iff, SafeFread, not_or, not_or, gt_iff_lt,
    UInt32.not_lt]
  constructor
  · intro safe
    exact ⟨⟨(safe entry).2.1, (safe entry).1⟩, (safe entry).2.2⟩
  · rintro ⟨⟨number, notNull⟩, count⟩ _
    exact ⟨notNull, number, count⟩

theorem keepsPosition_iff (inSlots : InSlots (.fread index buf nbytes) fs) :
    fs.KeepsPosition index buf nbytes ↔ fs.SafeFread index buf nbytes := by
  by_cases entry : index < fs.dirEntries
  · have slot : index < 64 := inSlots entry
    rw [safeFread_iff entry slot]
    constructor
    · intro keeps failed
      -- The position is one less, or the last possible one.
      have moved := (@fread_of_entry fs index buf nbytes entry slot).2
      rw [← (fread_of_entry entry slot).1, failed, position, (keeps failed).1] at moved
      have value : (fs.position index).toNat = (fs.position index + (-1 : Int32).toUInt32).toNat :=
        congrArg UInt32.toNat moved
      rw [UInt32.toNat_add, show (-1 : Int32).toUInt32.toNat = 2 ^ 32 - 1 by decide] at value
      have bound := (fs.position index).toNat_lt
      omega
    · intro succeeds failed
      exact absurd failed succeeds
  · refine iff_of_true (fun _ => ?_) fun entry' => absurd entry' entry
    rw [fread_no_entry entry]
    exact ⟨rfl, fun _ _ => rfl⟩

/-- The condition of `p` on the reads among the calls. -/
def OnFread (p : Filesys → UInt32 → UInt32 → UInt32 → Prop) : Call → Filesys → Prop
  | .fread index buf nbytes, fs => p fs index buf nbytes
  | _, _ => True

/-- Over every history of an image whose calls keep to the 64 slots of `bytes_read`, the failed
reads leave the positions alone if and only if each of them failed for its index; and this is so
for whatever read comes next. -/
theorem failed_fread_keeps_position_iff (bytes : UInt32 → UInt8) (location : UInt32)
    (calls : List Call) (slots : Along exec InSlots calls (filesysInit location (boot bytes))) :
    let origin := filesysInit location (boot bytes)
    let fs := run exec calls origin
    fs.strayed = false ∧
    (Along exec (OnFread KeepsPosition) calls origin ↔
      Along exec (OnFread SafeFread) calls origin) ∧
    ∀ index buf nbytes, InSlots (.fread index buf nbytes) fs →
      (fs.KeepsPosition index buf nbytes ↔ fs.SafeFread index buf nbytes) := by
  intro origin fs
  refine ⟨(run_strayed calls origin).mpr ⟨rfl, slots⟩, ?_, fun index buf nbytes inSlots =>
    keepsPosition_iff inSlots⟩
  -- The calls still to come keep to the slots too.
  apply along_congr_pending (Along exec InSlots)
  · intro call rest fs later
    cases call with
    | fread index buf nbytes => exact keepsPosition_iff later.1
    | fopen fname => exact Iff.rfl
    | dirRead fd buf nbytes => exact Iff.rfl
  · exact fun _ _ _ later _ => later.2
  · exact slots

/-- A read behind the last entry fails, after a byte has been read and a name was not found. -/
theorem failed_fread_keeps_position_sample :
    (run exec [.fread 0 0x500000 1, .fopen [120], .fread 7 0 4] (oneFile 0)).KeepsPosition 9 0 4 := by
  have slots : Along exec InSlots [.fread 0 0x500000 1, .fopen [120], .fread 7 0 4] (oneFile 0) :=
    ⟨inSlots_of_few (by decide) _, inSlots_of_few (by decide) _, inSlots_of_few (by decide) _, trivial⟩
  refine ((failed_fread_keeps_position_iff (oneFileBytes 0) 0x10000 _ slots).2.2 9 0 4
    (inSlots_of_few (by decide) _)).mpr fun entry => ?_
  exact absurd entry (by decide)

/-- A read into NULL right after the start: it fails, and then the file seems to be at its
end. -/
theorem failed_fread_loses_position :
    ((oneFile 0).fread 0 0 4).1 = -1 ∧
    ((oneFile 0).fread 0 0 4).2.position 0 = 0xFFFFFFFF ∧
    (((oneFile 0).fread 0 0 4).2.fread 0 0x500000 4).1 = 0 ∧
    ((oneFile 0).fread 0 0x500000 4).1 = 2 ∧
    ¬(oneFile 0).KeepsPosition 0 0 4 := by
  refine ⟨by decide, by decide, by decide, by decide, fun keeps => ?_⟩
  have same := congrFun (keeps (by decide)).1 0
  exact absurd same (by decide)

end Filesys

end Mp3Kernel
