import Mp3Kernel.Filesys.Names
import Mp3Kernel.Filesys.Failure

/-!
# Listing the directory

`ls` and `grep` open the directory and read names until `dir_read` returns 0.
But `dir_read` returns 0 for every name it delivers, as well as behind the last
one, so the first name already ends the loop. Nor does `dir_open` go back to the
start: there is one position in the directory, and only `dir_read` moves it.
-/

namespace Mp3Kernel

open Library

namespace Filesys

variable {fs : Filesys} {fd buf : UInt32}

/-! ## The other operations -/

def fwrite (_index _buf _nbytes : UInt32) (fs : Filesys) : Int32 × Filesys := (-1, fs)

def fclose (_index : Int32) (fs : Filesys) : Int32 × Filesys := (-1, fs)

def dirOpen (_dirName : List UInt8) (fs : Filesys) : Int32 × Filesys := (0, fs)

def dirWrite (_inode _buf _nbytes : UInt32) (fs : Filesys) : Int32 × Filesys := (-1, fs)

def dirClose (_ignore : Int32) (fs : Filesys) : Int32 × Filesys := (-1, fs)

/-- A file or a directory operation. -/
inductive Operation where
  | call (call : Call)
  | fwrite (index buf nbytes : UInt32)
  | fclose (index : Int32)
  | dirOpen (dirName : List UInt8)
  | dirWrite (inode buf nbytes : UInt32)
  | dirClose (ignore : Int32)

def operate : Operation → Filesys → Filesys
  | .call call, fs => exec call fs
  | .fwrite index buf nbytes, fs => (fs.fwrite index buf nbytes).2
  | .fclose index, fs => (fs.fclose index).2
  | .dirOpen dirName, fs => (fs.dirOpen dirName).2
  | .dirWrite inode buf nbytes, fs => (fs.dirWrite inode buf nbytes).2
  | .dirClose ignore, fs => (fs.dirClose ignore).2

/-! ## The client -/

/-- `while (0 != (cnt = dir_read(fd, buf, 32)))` with at most `rounds` reads, for a client that
does `body` with what it read. For each run of the body, `cnt` and what `buf` held; `none` if the
loop goes on. -/
def listLoop (body : Int32 → Filesys → Filesys) (fd buf : UInt32) :
    Nat → Filesys → Option (List (Int32 × List UInt8))
  | 0, _ => none
  | rounds + 1, fs =>
    let (cnt, fs) := fs.dirRead fd buf 32
    if cnt = 0 then some []
    else (listLoop body fd buf rounds (body cnt fs)).map ((cnt, contents fs.bytes buf 32) :: ·)

/-- The names of all entries but the first, which is the directory itself. -/
def listing (fs : Filesys) : List (List UInt8) :=
  (List.range (fs.dirEntries.toNat - 1)).map fun k => (fs.dentryAt (UInt32.ofNat (k + 1))).fname

/-- After `dir_open` the loop stops, and its body has run once for each name, in order. -/
def Lists (body : Int32 → Filesys → Filesys) (dirName : List UInt8) (fd buf : UInt32)
    (fs : Filesys) : Prop :=
  ∃ rounds seen, listLoop body fd buf rounds (fs.dirOpen dirName).2 = some seen ∧
    seen.map Prod.snd = fs.listing ∧ ∀ x ∈ seen, 0 < x.1.toInt

/-- A name and the end of the directory return the same. -/
theorem dirRead_value (notNull : buf ≠ 0) (nbytes : UInt32) : (fs.dirRead fd buf nbytes).1 = 0 := by
  rw [dirRead, if_neg notNull]
  split
  · rfl
  · rfl

theorem listLoop_stops (body : Int32 → Filesys → Filesys) (notNull : buf ≠ 0) (rounds : Nat) :
    listLoop body fd buf (rounds + 1) fs = some [] := by
  simp only [listLoop, dirRead_value notNull, if_true]

theorem lists_iff (body : Int32 → Filesys → Filesys) (dirName : List UInt8) (notNull : buf ≠ 0) :
    fs.Lists body dirName fd buf ↔ fs.dirEntries ≤ 1 := by
  have empty : fs.listing = [] ↔ fs.dirEntries ≤ 1 := by
    rw [listing, List.map_eq_nil_iff, List.range_eq_nil, UInt32.le_iff_toNat_le, Nat.sub_eq_zero_iff_le]
    rfl
  rw [← empty]
  constructor
  · rintro ⟨rounds, seen, stops, names, _⟩
    cases rounds with
    | zero => exact absurd stops (by simp [listLoop])
    | succ rounds =>
      rw [listLoop_stops body notNull, Option.some_inj] at stops
      rw [← names, ← stops, List.map_nil]
  · intro names
    exact ⟨1, [], listLoop_stops body notNull 0, names.symm, fun x member => absurd member (by simp)⟩

/-! ## Histories -/

/-- No operation changes the header of the image that was read at the start, as long as none
has strayed. -/
theorem operate_dirEntries (operation : Operation) (fs : Filesys) :
    (operate operation fs).dirEntries = fs.dirEntries := by
  cases operation with
  | call call =>
    cases call with
    | fopen fname => rfl
    | fread index buf nbytes =>
      simp only [operate, exec, fread]
      split
      · rfl
      · rfl
    | dirRead fd buf nbytes =>
      simp only [operate, exec, dirRead]
      split
      · rfl
      · split
        · rfl
        · rfl
  | fwrite index buf nbytes => rfl
  | fclose index => rfl
  | dirOpen dirName => rfl
  | dirWrite inode buf nbytes => rfl
  | dirClose ignore => rfl

theorem run_dirEntries (history : List Operation) (fs : Filesys) :
    (run operate history fs).dirEntries = fs.dirEntries := by
  apply run_invariant (fun fs' : Filesys => fs'.dirEntries = fs.dirEntries)
  · intro operation fs' same
    rw [operate_dirEntries, same]
  · rfl

/-- Whatever was done before, the loop of `ls` and `grep` lists the directory if and only if
there is nothing to list. -/
theorem directory_listed_iff (bytes : UInt32 → UInt8) (location : UInt32)
    (history : List Operation) (body : Int32 → Filesys → Filesys) (dirName : List UInt8)
    (fd buf : UInt32) (notNull : buf ≠ 0) :
    (run operate history (filesysInit location (boot bytes))).Lists body dirName fd buf ↔
      (filesysInit location (boot bytes)).dirEntries ≤ 1 := by
  rw [lists_iff body dirName notNull, run_dirEntries]

/-- A directory of one entry, listed a second time. -/
theorem directory_listed_oneFile :
    (run operate [.dirOpen [46], .call (.dirRead 0 0x500000 32), .dirClose 0]
      (oneFile 0)).Lists (fun _ fs => fs) [46] 0 0x500000 :=
  (directory_listed_iff (oneFileBytes 0) 0x10000 _ (fun _ fs => fs) [46] 0 0x500000
    (by decide)).mpr (by decide)

/-- The second of two names is not listed: the first read returns 0, with the name in the
buffer. -/
theorem directory_not_listed :
    twoNames.WellFormed ∧ twoNames.listing.map text = [[97]] ∧
    (twoNames.dirRead 0 0x500000 32).1 = 0 ∧
    text (contents (twoNames.dirRead 0 0x500000 32).2.bytes 0x500000 32) = [97] ∧
    ¬twoNames.Lists (fun _ fs => fs) [46] 0 0x500000 := by
  refine ⟨twoNames_wellFormed, by decide, by decide, by decide, ?_⟩
  rw [lists_iff _ _ (by decide)]
  decide

end Filesys

end Mp3Kernel
