import Mp3Kernel.Filesys.Directory

/-!
# The names that `dir_read` delivers

There is one position in the directory. It starts behind the entry of the
directory itself, every call with a buffer moves it by one, and it stops behind
the last entry: the `j`-th call with a buffer delivers entry `j`.
-/

namespace Mp3Kernel

open Library

namespace Filesys

variable {fs : Filesys} {fd buf nbytes : UInt32}

/-- A call of `dir_read` with a buffer. -/
def asksName : Call → Bool
  | .dirRead _ buf _ => buf ≠ 0
  | _ => false

/-- How many calls of `dir_read` with a buffer are among these. -/
def namesAsked (calls : List Call) : Nat := calls.countP asksName

/-- The position after `asked` calls with a buffer. An empty directory has none to give. -/
def positionAfter (dirEntries asked : Nat) : Nat := min (asked + 1) (max dirEntries 1)

/-! ## The position -/

theorem exec_dirEntries (call : Call) (fs : Filesys) : (exec call fs).dirEntries = fs.dirEntries :=
  operate_dirEntries (.call call) fs

/-- Only `dir_read` with a buffer moves the position, and not beyond the last entry. -/
theorem exec_dirPosition (call : Call) (fs : Filesys) :
    (exec call fs).dirPosition =
      if asksName call = true ∧ fs.dirPosition < fs.dirEntries then fs.dirPosition + 1
      else fs.dirPosition := by
  cases call with
  | fopen fname => rfl
  | fread index buf nbytes =>
    simp only [exec, fread, asksName]
    split <;> rfl
  | dirRead fd buf nbytes =>
    simp only [exec, dirRead, asksName]
    by_cases null : buf = 0
    · simp [null]
    · by_cases more : fs.dirPosition < fs.dirEntries
      · have open' : ¬fs.dirPosition ≥ fs.dirEntries := UInt32.not_le.mpr more
        simp [null, more, open']
      · have ended : fs.dirPosition ≥ fs.dirEntries := UInt32.not_lt.mp more
        simp [null, more, ended]

theorem run_dirPosition (bytes : UInt32 → UInt8) (location : UInt32) (calls : List Call) :
    (run exec calls (filesysInit location (boot bytes))).dirEntries =
      (filesysInit location (boot bytes)).dirEntries ∧
    (run exec calls (filesysInit location (boot bytes))).dirPosition.toNat =
      positionAfter (filesysInit location (boot bytes)).dirEntries.toNat (namesAsked calls) := by
  apply run_history fun calls (fs : Filesys) =>
    fs.dirEntries = (filesysInit location (boot bytes)).dirEntries ∧
    fs.dirPosition.toNat =
      positionAfter (filesysInit location (boot bytes)).dirEntries.toNat (namesAsked calls)
  · refine ⟨rfl, ?_⟩
    have start : (filesysInit location (boot bytes)).dirPosition.toNat = 1 := rfl
    rw [start, positionAfter, namesAsked, List.countP_nil]
    omega
  · rintro calls call ⟨entries, position⟩
    generalize run exec calls (filesysInit location (boot bytes)) = fs at *
    have counted : namesAsked (calls ++ [call]) = namesAsked calls + if asksName call then 1 else 0 := by
      rw [namesAsked, List.countP_append, List.countP_singleton]
      rfl
    have bound := fs.dirEntries.toNat_lt
    refine ⟨(exec_dirEntries call fs).trans entries, ?_⟩
    rw [← entries, positionAfter] at position
    rw [exec_dirPosition, counted, ← entries, positionAfter]
    split
    · rename_i moves
      have below : fs.dirPosition.toNat < fs.dirEntries.toNat := moves.2
      rw [toNat_add_one (by omega), if_pos moves.1]
      omega
    · rename_i stays
      cases asks : asksName call with
      | false => simpa using position
      | true =>
        have ended : ¬fs.dirPosition.toNat < fs.dirEntries.toNat := fun below => stays ⟨asks, below⟩
        rw [if_pos rfl]
        omega

/-! ## One call -/

/-- A call before the last entry delivers the name at the position. -/
theorem dirRead_delivers (notNull : buf ≠ 0) (more : fs.dirPosition < fs.dirEntries) (a : UInt32) :
    (fs.dirRead fd buf nbytes).2.bytes a =
      if (a - buf).toNat < min nbytes.toNat 32 then
        (fs.dentryAt fs.dirPosition).fname.getD (a - buf).toNat 0
      else fs.bytes a := by
  have count : (if nbytes > 32 then 32 else nbytes).toNat = min nbytes.toNat 32 := by
    split
    · rename_i long
      have long : 32 < nbytes.toNat := long
      simp
      omega
    · rename_i short
      have short : ¬32 < nbytes.toNat := short
      omega
  rw [dirRead, if_neg notNull, if_neg (UInt32.not_le.mpr more)]
  dsimp only
  rw [count]
  exact forLoop_update_apply buf _ (by omega) fs.bytes a

theorem dirRead_ended (notNull : buf ≠ 0) (ended : fs.dirEntries ≤ fs.dirPosition) :
    fs.dirRead fd buf nbytes = (0, fs) := by
  rw [dirRead, if_neg notNull, if_pos ended]

theorem length_fname (fs : Filesys) (index : UInt32) : (fs.dentryAt index).fname.length = 32 := by
  simp [dentryAt]

/-! ## Names of the image -/

/-- A call whose buffer, if it has one, lies outside the image. -/
def ClearCall (fs : Filesys) : Call → Prop
  | .fopen _ => True
  | .fread _ buf nbytes | .dirRead _ buf nbytes => buf ≠ 0 → fs.Outside buf nbytes.toNat

theorem exec_sameImage (call : Call) (clear : fs.ClearCall call) : fs.SameImage (exec call fs) := by
  cases call with
  | fopen fname => exact ⟨rfl, rfl, rfl, rfl, fun _ _ => rfl⟩
  | fread index buf nbytes =>
    by_cases null : buf = 0
    · -- A read into NULL moves a position and writes nothing.
      subst null
      simp only [exec, fread]
      cases fs.readDentryByIndex index with
      | none => exact SameImage.refl fs
      | some curDentry =>
        refine ⟨rfl, rfl, rfl, rfl, fun a _ => ?_⟩
        simp [readData_refused, setPosition]
    · exact (fread_frame index (clear null)).1
  | dirRead fd buf nbytes =>
    by_cases null : buf = 0
    · simp only [exec, dirRead, null, if_true]
      exact SameImage.refl fs
    · exact (dirRead_frame fd (clear null)).1

theorem run_sameImage (calls : List Call) (clear : ∀ call ∈ calls, fs.ClearCall call) :
    fs.SameImage (run exec calls fs) := by
  have good : Along exec (fun call _ => fs.ClearCall call) calls fs := along_of_mem calls clear fs
  apply good.invariant fs.SameImage
  · intro call fs' clear same
    refine same.trans (exec_sameImage call ?_)
    cases call with
    | fopen fname => trivial
    | fread index buf nbytes => exact fun notNull => same.outside.mpr (clear notNull)
    | dirRead fd buf nbytes => exact fun notNull => same.outside.mpr (clear notNull)
  · exact SameImage.refl fs

theorem SameImage.fname {fs' : Filesys} (same : fs.SameImage fs') {index : UInt32}
    (entry : index.toNat < 63) : (fs'.dentryAt index).fname = (fs.dentryAt index).fname := by
  simp only [dentryAt]
  apply List.map_congr_left
  intro k member
  have below := List.mem_range.mp member
  have place : fs'.dentryAddr index = fs.dentryAddr index := by
    rw [dentryAddr, dentryAddr, same.baseAddr]
  rw [place]
  exact same.bytes _ (dentryAddr_inImage entry (by omega))

/-- The call of `dir_read` that comes as the `j`-th with a buffer, whatever was called before:
while there is an entry `j` it delivers the name of that entry, as much as fits, and writes
nothing else; afterwards it returns 0 and changes nothing. The name is the one of the image as it
was loaded when no buffer was laid over the image. -/
theorem dir_read_enumerates (bytes : UInt32 → UInt8) (location : UInt32) (calls : List Call)
    (fd buf nbytes : UInt32) (notNull : buf ≠ 0) :
    let origin := filesysInit location (boot bytes)
    let fs := run exec calls origin
    let j := namesAsked calls + 1
    let name := (fs.dentryAt (UInt32.ofNat j)).fname
    (j < origin.dirEntries.toNat →
      contents (fs.dirRead fd buf nbytes).2.bytes buf (min nbytes.toNat 32) =
        name.take (min nbytes.toNat 32) ∧
      (∀ a, min nbytes.toNat 32 ≤ (a - buf).toNat →
        (fs.dirRead fd buf nbytes).2.bytes a = fs.bytes a) ∧
      (origin.dirEntries.toNat ≤ 63 → (∀ call ∈ calls, origin.ClearCall call) →
        name = (origin.dentryAt (UInt32.ofNat j)).fname)) ∧
    (origin.dirEntries.toNat ≤ j → fs.dirRead fd buf nbytes = (0, fs)) := by
  intro origin fs j name
  obtain ⟨entries, position⟩ := run_dirPosition bytes location calls
  have entries : fs.dirEntries = origin.dirEntries := entries
  have position : fs.dirPosition.toNat = positionAfter origin.dirEntries.toNat (namesAsked calls) :=
    position
  rw [positionAfter] at position
  have bound := origin.dirEntries.toNat_lt
  constructor
  · intro more
    -- As many names have been delivered as were asked for.
    have atName : fs.dirPosition = UInt32.ofNat j := by
      apply UInt32.toNat_inj.mp
      rw [UInt32.toNat_ofNat_of_lt' (show j < 2 ^ 32 by omega)]
      omega
    have open' : fs.dirPosition < fs.dirEntries := by
      rw [UInt32.lt_iff_toNat_lt, entries]
      omega
    have delivered := @dirRead_delivers fs fd buf nbytes notNull open'
    rw [atName] at delivered
    refine ⟨?_, fun a far => (delivered a).trans (if_neg (by omega)), fun few clear => ?_⟩
    · apply List.ext_getElem
      · simp [contents, name, length_fname]
      · intro k below _
        rw [contents, List.length_map, List.length_range] at below
        simp only [contents, List.getElem_map, List.getElem_range, List.getElem_take]
        rw [delivered, toNat_offset (by omega), if_pos below]
        exact List.getD_eq_getElem _ _ (by rw [length_fname]; omega)
    · refine (run_sameImage calls clear).fname ?_
      rw [UInt32.toNat_ofNat_of_lt' (show j < 2 ^ 32 by omega)]
      omega
  · intro ended
    apply dirRead_ended notNull
    rw [UInt32.le_iff_toNat_le, entries]
    omega

/-- A failed call and an `fopen` come before the one name, which is cut to one byte. -/
theorem dir_read_enumerates_twoNames :
    contents ((run exec [.dirRead 0 0 32, .fopen [97]] twoNames).dirRead 0 0x500000 1).2.bytes
      0x500000 1 = [97] ∧
    ((run exec [.dirRead 0 0x500000 1] twoNames).dirRead 0 0x600000 32).1 = 0 :=
  ⟨((dir_read_enumerates twoNamesBytes 0x10000 [.dirRead 0 0 32, .fopen [97]] 0 0x500000 1
      (by decide)).1 (by decide)).1,
    congrArg Prod.fst ((dir_read_enumerates twoNamesBytes 0x10000 [.dirRead 0 0x500000 1] 0 0x600000
      32 (by decide)).2 (by decide))⟩

end Filesys

end Mp3Kernel
