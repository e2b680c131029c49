import Mp3Kernel.Console.Basic

/-!
# What each console operation does to the cells

The rows that the console may use end 25 rows before the kernel image. Below
that bound no address leaves its array, and every operation is described by the
cells it changes and by the window it leaves on screen.
-/

namespace Mp3Kernel

open Library

def displayArray : CellArray := ⟨videoMem, screenCells, by decide⟩

def savedArray : CellArray := ⟨savedVideoMem, savedCells, by decide⟩

theorem display_saved_disjoint : displayArray.Disjoint savedArray := .inl (by decide)

/-- The bound on the cursor row under which every row on screen is a saved row. -/
def lastRow : Nat := 19634

namespace Console

variable {s : Console}

/-! ## Cell indices -/

theorem lastRow_small : lastRow + 25 < 2 ^ 20 := by decide

/-- The windows that begin on these rows are all of saved rows. -/
theorem window_room {row : Nat} (rows : row ≤ lastRow + 1) : 80 * row + screenCells ≤ savedCells := by
  unfold lastRow at rows
  unfold screenCells savedCells
  omega

theorem window_inside {i : Nat} (rows : s.screenOffset.toNat ≤ lastRow + 1)
    (bound : i < screenCells) : 80 * s.screenOffset.toNat + i < savedCells := by
  have room := window_room rows
  omega

theorem toNat_windowStart {row : UInt32} (small : row.toNat ≤ 2 ^ 20) :
    (80 * row).toNat = 80 * row.toNat := by
  rw [UInt32.toNat_mul]
  exact Nat.mod_eq_of_lt (by simp only [UInt32.reduceToNat]; omega)

theorem toNat_windowIndex {row : UInt32} {i : Nat} (small : row.toNat ≤ 2 ^ 20)
    (bound : i < screenCells) : (80 * row + UInt32.ofNat i).toNat = 80 * row.toNat + i := by
  have index : (UInt32.ofNat i).toNat = i := displayArray.toNat_index bound
  have start := toNat_windowStart small
  unfold screenCells at bound
  rw [toNat_add_of_lt (by omega), index, start]

theorem windowIndex_inside {row : UInt32} {i : Nat} (rows : row.toNat ≤ lastRow + 1)
    (bound : i < screenCells) : (80 * row + UInt32.ofNat i).toNat < savedCells := by
  have small := lastRow_small
  have room := window_room rows
  rw [toNat_windowIndex (by omega) bound]
  omega

theorem toNat_cursorIndex {y : UInt32} {x : UInt8} (rows : y.toNat ≤ lastRow + 25) :
    (80 * y + x.toUInt32).toNat = 80 * y.toNat + x.toNat := by
  have small := lastRow_small
  have bound := x.toNat_lt
  simp only [UInt32.toNat_add, UInt32.toNat_mul, UInt8.toNat_toUInt32, UInt32.reduceToNat]
  omega

/-- The cursor is in the window. -/
def Visible (s : Console) : Prop :=
  s.screenOffset.toNat ≤ s.cursorY.toNat ∧ s.cursorY.toNat < s.screenOffset.toNat + 25

instance : Decidable s.Visible := inferInstanceAs (Decidable (_ ∧ _))

/-- The displayed cell under a visible cursor. -/
def screenPos (s : Console) : Nat :=
  80 * (s.cursorY.toNat - s.screenOffset.toNat) + s.cursorX.toNat

theorem screenY_lt_iff (row : s.cursorY.toNat < 2 ^ 31) (rows : s.screenOffset.toNat < 2 ^ 31) :
    s.screenY < 25 ↔ s.Visible := by
  rw [UInt32.lt_iff_toNat_lt, screenY, UInt32.toNat_sub, Visible]
  simp only [UInt32.reduceToNat]
  omega

theorem toNat_screenPos (visible : s.Visible) :
    (80 * s.screenY + s.screenX.toUInt32).toNat = s.screenPos := by
  obtain ⟨above, below⟩ := visible
  have y : s.screenY.toNat = s.cursorY.toNat - s.screenOffset.toNat := toNat_sub_of_le above
  rw [toNat_cursorIndex (by omega), y]
  rfl

theorem screenPos_lt (column : s.cursorX.toNat < 80) (visible : s.Visible) :
    s.screenPos < screenCells := by
  obtain ⟨above, below⟩ := visible
  unfold screenPos screenCells
  omega

theorem pos_lt_savedCells (column : s.cursorX.toNat < 80) (row : s.cursorY.toNat ≤ lastRow + 25) :
    s.pos < savedCells := by
  unfold lastRow at row
  unfold pos savedCells
  omega

/-! ## Stores into the two arrays -/

section Stores

variable (m : Memory) (j : UInt32) (c attr : UInt8) {i : Nat}

theorem savedCell_storeSaved (bound : i < savedCells) (inside : j.toNat < savedCells) :
    (m.storeCell savedVideoMem j c attr).cell savedVideoMem i =
      if i = j.toNat then ⟨c, attr⟩ else m.cell savedVideoMem i :=
  Memory.cell_storeCell savedArray j c attr m bound inside

theorem displayCell_storeDisplay (bound : i < screenCells) (inside : j.toNat < screenCells) :
    (m.storeCell videoMem j c attr).cell videoMem i =
      if i = j.toNat then ⟨c, attr⟩ else m.cell videoMem i :=
  Memory.cell_storeCell displayArray j c attr m bound inside

theorem savedCell_storeDisplay (bound : i < savedCells) (inside : j.toNat < screenCells) :
    (m.storeCell videoMem j c attr).cell savedVideoMem i = m.cell savedVideoMem i :=
  Memory.cell_storeCell_of_disjoint (A := savedArray) (B := displayArray)
    display_saved_disjoint.symm j c attr m bound inside

theorem displayCell_storeSaved (bound : i < screenCells) (inside : j.toNat < savedCells) :
    (m.storeCell savedVideoMem j c attr).cell videoMem i = m.cell videoMem i :=
  Memory.cell_storeCell_of_disjoint (A := displayArray) (B := savedArray)
    display_saved_disjoint j c attr m bound inside

end Stores

/-! ## Writing at the cursor -/

section PutAtCursor

variable (c : UInt8) (column : s.cursorX.toNat < 80) (row : s.cursorY.toNat ≤ lastRow)
  (rows : s.screenOffset.toNat ≤ lastRow + 1) {i : Nat}
include column row rows

theorem putAtCursor_saved (bound : i < savedCells) :
    (s.putAtCursor c).saved i = if i = s.pos then ⟨c, s.attrib⟩ else s.saved i := by
  have index : (80 * s.cursorY + s.cursorX.toUInt32).toNat = s.pos := toNat_cursorIndex (by omega)
  have inside := pos_lt_savedCells column (by omega)
  have small := lastRow_small
  have visibility : s.screenY < 25 ↔ s.Visible := screenY_lt_iff (by omega) (by omega)
  simp only [saved, putAtCursor]
  rw [savedCell_storeSaved _ _ _ _ bound (by omega), index]
  split
  · rfl
  · -- The store into the window, if there is one, is to the other array.
    split
    next visible =>
      have onScreen := visibility.mp visible
      exact savedCell_storeDisplay _ _ _ _ bound
        (by rw [toNat_screenPos onScreen]; exact screenPos_lt column onScreen)
    next => rfl

theorem putAtCursor_display (bound : i < screenCells) :
    (s.putAtCursor c).display i =
      if s.Visible ∧ i = s.screenPos then ⟨c, s.attrib⟩ else s.display i := by
  have index : (80 * s.cursorY + s.cursorX.toUInt32).toNat = s.pos := toNat_cursorIndex (by omega)
  have inside := pos_lt_savedCells column (by omega)
  have small := lastRow_small
  have visibility : s.screenY < 25 ↔ s.Visible := screenY_lt_iff (by omega) (by omega)
  simp only [display, putAtCursor]
  rw [displayCell_storeSaved _ _ _ _ bound (by omega)]
  split
  next shown =>
    have onScreen := visibility.mp shown
    have inside := screenPos_lt column onScreen
    rw [displayCell_storeDisplay _ _ _ _ bound (by rw [toNat_screenPos onScreen]; exact inside),
      toNat_screenPos onScreen]
    simp only [onScreen, true_and]
  next hidden =>
    have offScreen : ¬s.Visible := fun h => hidden (visibility.mpr h)
    simp only [offScreen, false_and, if_false]

end PutAtCursor

/-! ## Moving the window -/

theorem toNat_windowStart_of_le {row : UInt32} (rows : row.toNat ≤ lastRow + 1) :
    (80 * row).toNat = 80 * row.toNat := by
  have small := lastRow_small
  exact toNat_windowStart (by omega)

theorem windowStart_room {row : UInt32} (rows : row.toNat ≤ lastRow + 1) :
    (80 * row).toNat + screenCells ≤ savedCells := by
  rw [toNat_windowStart_of_le rows]
  exact window_room rows

theorem moveWindow_saved (offset : Int32) (s : Console) {i : Nat} (bound : i < savedCells) :
    (s.moveWindow offset).saved i = s.saved i := by
  simp only [saved, moveWindow, updateCursor_mem]
  exact Memory.cell_copyLoop_of_disjoint (A := displayArray) (B := savedArray) s.mem
    display_saved_disjoint savedVideoMem _ le_rfl bound

/-- After a move the window shows the saved rows from the new offset on. -/
theorem moveWindow_display (offset : Int32) (s : Console)
    (rows : (s.moveWindow offset).screenOffset.toNat ≤ lastRow + 1) {i : Nat}
    (bound : i < screenCells) :
    (s.moveWindow offset).display i =
      s.saved (80 * (s.moveWindow offset).screenOffset.toNat + i) := by
  rw [moveWindow_screenOffset] at rows ⊢
  simp only [display, saved, moveWindow, updateCursor_mem]
  have copied := Memory.cell_copyLoop (A := displayArray) (B := savedArray) s.mem
    display_saved_disjoint (80 * (s.screenOffset + offset.toUInt32)) le_rfl
    (windowStart_room rows) bound
  exact (copied.trans (if_pos bound)).trans (by rw [toNat_windowStart_of_le rows]; rfl)

theorem scroll_saved (offset : Int32) (s : Console) {i : Nat} (bound : i < savedCells) :
    (s.scroll offset).saved i = s.saved i := by
  rcases scroll_cases offset s with h | ⟨_, h⟩
  · rw [h]
  · rw [h, moveWindow_saved _ _ bound]

/-- The row `scroll` is asked to put at the top of the screen, as an `int`. -/
def requestedRow (offset : Int32) (s : Console) : Int :=
  (offset + s.screenOffset.toInt32).toInt

/-- The window moves by a signed number of rows, modulo `2^32`. -/
theorem toNat_moveWindow (offset : Int32) (s : Console) :
    ((s.moveWindow offset).screenOffset.toNat : Int) =
      (s.screenOffset.toNat + offset.toInt) % 2 ^ 32 := by
  have unsigned := toNat_toUInt32 offset
  rw [moveWindow_screenOffset, UInt32.toNat_add]
  omega

/-- `scroll` clamps the requested row between the top and the cursor row. Its early
returns agree with the formula, because they leave the offset at one of the ends. -/
theorem scroll_screenOffset (offset : Int32) (s : Console)
    (row : s.cursorY.toNat < 2 ^ 31) (rows : s.screenOffset.toNat < 2 ^ 31) :
    ((s.scroll offset).screenOffset.toNat : Int) =
      max 0 (min (s.requestedRow offset) s.cursorY.toNat) := by
  have signed := toInt_toInt32_of_lt rows
  have sum : s.requestedRow offset = (offset.toInt + s.screenOffset.toNat).bmod (2 ^ 32) := by
    rw [requestedRow, Int32.toInt_add, signed]
  rw [Int.bmod_def] at sum
  unfold scroll
  split
  next negative =>
    -- Clamped to row 0: either already there, or moved by the whole offset.
    rw [Int32.lt_iff_toInt_lt, Int32.toInt_zero] at negative
    change s.requestedRow offset < 0 at negative
    split
    next top =>
      rw [top, UInt32.toNat_zero]
      omega
    next =>
      rw [toNat_moveWindow, Int32.toInt_sub, Int32.toInt_zero, signed, Int.bmod_def]
      omega
  next nonnegative =>
    rw [Int32.lt_iff_toInt_lt, Int32.toInt_zero] at nonnegative
    change ¬s.requestedRow offset < 0 at nonnegative
    -- The comparison with `cursor_y` is unsigned, which does not matter for a sum that is
    -- not negative.
    have unsigned : ((s.screenOffset.toInt32 + offset).toUInt32.toNat : Int) =
        s.requestedRow offset := by
      rw [toNat_toUInt32, Int32.add_comm]
      change s.requestedRow offset % 2 ^ 32 = s.requestedRow offset
      omega
    split
    next past =>
      -- Clamped to the cursor row.
      rw [gt_iff_lt, UInt32.lt_iff_toNat_lt] at past
      split
      next bottom =>
        rw [bottom]
        omega
      next =>
        rw [toNat_moveWindow, toInt_toInt32, UInt32.toNat_sub, Int.bmod_def]
        omega
    next within =>
      rw [gt_iff_lt, UInt32.lt_iff_toNat_lt] at within
      rw [toNat_moveWindow]
      omega

/-- With the window above the cursor, `scroll(0)` always redraws. -/
theorem scroll_zero (row : s.cursorY.toNat < 2 ^ 31)
    (above : s.screenOffset.toNat ≤ s.cursorY.toNat) : s.scroll 0 = s.moveWindow 0 := by
  have signed := toInt_toInt32_of_lt (a := s.screenOffset) (by omega)
  unfold scroll
  rw [if_neg, if_neg]
  · rw [gt_iff_lt, UInt32.lt_iff_toNat_lt, Int32.add_zero]
    exact not_lt.mpr above
  · rw [Int32.zero_add, Int32.lt_iff_toInt_lt, signed, Int32.toInt_zero]
    omega

/-- `putc` ends by asking for the window whose last row is the cursor row, whether the
cursor has left the window below or, by a backspace, above. -/
theorem follow_requestedRow (row : s.cursorY.toNat < 2 ^ 31) :
    s.requestedRow (s.screenY - 25 + 1).toInt32 = (s.cursorY.toNat : Int) - 24 := by
  have bound := s.screenOffset.toNat_lt
  simp only [requestedRow, Int32.toInt_add, toInt_toInt32, UInt32.toNat_add, UInt32.toNat_sub,
    screenY, UInt32.reduceToNat, Int.bmod_def]
  omega

theorem follow_screenOffset (row : s.cursorY.toNat < 2 ^ 31) (rows : s.screenOffset.toNat < 2 ^ 31) :
    s.follow.screenOffset.toNat =
      if s.Visible then s.screenOffset.toNat else s.cursorY.toNat - 24 := by
  have visibility := screenY_lt_iff row rows
  unfold follow
  split
  next hidden =>
    have offScreen : ¬s.Visible := fun h => (UInt32.not_lt.mpr hidden) (visibility.mpr h)
    -- `scroll` gets the row it is asked for, or row 0 if that is negative.
    have clamped := scroll_screenOffset (s.screenY - 25 + 1).toInt32 s row rows
    rw [follow_requestedRow row] at clamped
    rw [if_neg offScreen]
    omega
  next shown =>
    have onScreen : s.Visible := visibility.mp (UInt32.not_le.mp shown)
    rw [if_pos onScreen, updateCursor_screenOffset]

theorem follow_saved (s : Console) {i : Nat} (bound : i < savedCells) :
    s.follow.saved i = s.saved i := by
  unfold follow
  split
  · exact scroll_saved _ s bound
  · simp [saved]

/-! ## Cursor moves -/

theorem stepForward_pos (column : s.cursorX.toNat < 80) (row : s.cursorY.toNat < 2 ^ 31) :
    s.stepForward.pos = s.pos + 1 ∧ s.stepForward.cursorX.toNat < 80 := by
  simp only [stepForward, pos, UInt32.toNat_add, UInt8.toNat_add, UInt8.toNat_mod, UInt8.toNat_div,
    UInt8.toNat_toUInt32, UInt8.reduceToNat]
  omega

theorem stepBack_pos (column : s.cursorX.toNat < 80) (notOrigin : 0 < s.pos) :
    s.stepBack.pos = s.pos - 1 ∧ s.stepBack.cursorX.toNat < 80 := by
  have bound := s.cursorY.toNat_lt
  unfold stepBack
  unfold pos at notOrigin
  split
  next start =>
    -- Column 0: there is a previous row, because this is not the origin.
    rw [start] at notOrigin
    simp only [pos, start, UInt32.toNat_sub, UInt8.reduceToNat, UInt32.reduceToNat,
      UInt8.reduceSub] at *
    omega
  next inside =>
    rw [← UInt8.toNat_inj] at inside
    simp only [pos, UInt8.toNat_sub, UInt8.reduceToNat] at *
    omega

/-! ## Clearing, recolouring and initialisation -/

@[simp] theorem clear_attrib (s : Console) : s.clear.attrib = s.attrib := by simp [clear]

@[simp] theorem clear_cursorX (s : Console) : s.clear.cursorX = 0 := by simp [clear]

@[simp] theorem clear_cursorY (s : Console) : s.clear.cursorY = s.cursorY + 1 := by simp [clear]

@[simp] theorem clear_screenOffset (s : Console) : s.clear.screenOffset = s.cursorY + 1 := by
  simp [clear]

theorem clear_display (s : Console) (rows : (s.cursorY + 1).toNat ≤ lastRow + 1) {i : Nat}
    (bound : i < screenCells) : s.clear.display i = ⟨space, s.attrib⟩ := by
  simp only [display, clear, updateCursor_mem, updateCursor_attrib, updateCursor_screenOffset]
  have filled := Memory.cell_fillBothLoop (A := displayArray) (B := savedArray) s.mem
    display_saved_disjoint (80 * (s.cursorY + 1)) space s.attrib le_rfl (windowStart_room rows) bound
  exact filled.trans (if_pos bound)

theorem clear_saved (s : Console) (rows : (s.cursorY + 1).toNat ≤ lastRow + 1) {i : Nat}
    (bound : i < savedCells) :
    s.clear.saved i =
      if 80 * (s.cursorY + 1).toNat ≤ i ∧ i < 80 * (s.cursorY + 1).toNat + screenCells
      then ⟨space, s.attrib⟩ else s.saved i := by
  simp only [saved, clear, updateCursor_mem, updateCursor_attrib, updateCursor_screenOffset]
  have filled := Memory.cell_fillBothLoop_right (A := displayArray) (B := savedArray) s.mem
    display_saved_disjoint (80 * (s.cursorY + 1)) space s.attrib le_rfl (windowStart_room rows) bound
  rw [toNat_windowStart_of_le rows] at filled
  exact filled

@[simp] theorem updateColor_attrib (s : Console) : s.updateColor.attrib = s.attrib := by
  simp [updateColor]

@[simp] theorem updateColor_cursorX (s : Console) : s.updateColor.cursorX = s.cursorX := by
  simp [updateColor]

@[simp] theorem updateColor_cursorY (s : Console) : s.updateColor.cursorY = s.cursorY := by
  simp [updateColor]

theorem updateColor_saved (s : Console) {i : Nat} (bound : i < savedCells) :
    s.updateColor.saved i = ⟨(s.saved i).char, s.attrib⟩ := by
  rw [updateColor, scroll_saved _ _ bound]
  have recoloured := Memory.cell_recolourLoop (A := savedArray) s.mem s.attrib le_rfl bound
  exact recoloured.trans (if_pos bound)

theorem updateColor_screenOffset (row : s.cursorY.toNat < 2 ^ 31)
    (above : s.screenOffset.toNat ≤ s.cursorY.toNat) :
    s.updateColor.screenOffset = s.screenOffset := by
  rw [updateColor, scroll_zero (by exact row) (by exact above), moveWindow_screenOffset]
  exact UInt32.add_zero _

/-- Recolouring redraws the window, so the new colour shows at once. -/
theorem updateColor_display (row : s.cursorY.toNat ≤ lastRow)
    (above : s.screenOffset.toNat ≤ s.cursorY.toNat) {i : Nat} (bound : i < screenCells) :
    s.updateColor.display i = s.updateColor.saved (80 * s.screenOffset.toNat + i) := by
  have small : s.cursorY.toNat < 2 ^ 31 := by have := lastRow_small; omega
  have offset := updateColor_screenOffset small above
  have rows : s.updateColor.screenOffset.toNat ≤ lastRow + 1 := by rw [offset]; omega
  have inside : 80 * s.screenOffset.toNat + i < savedCells := window_inside (by omega) bound
  rw [← offset]
  -- `scroll(0)` takes none of its early returns, so it copies the recoloured rows.
  rw [updateColor, scroll_zero (by exact small) (by exact above)] at rows offset ⊢
  rw [moveWindow_display 0 _ rows bound, moveWindow_saved 0 _ (by rw [offset]; exact inside)]

@[simp] theorem screenInit_attrib (s : Console) : s.screenInit.attrib = 0x2 := by simp [screenInit]

@[simp] theorem screenInit_cursorX (s : Console) : s.screenInit.cursorX = 0 := by simp [screenInit]

@[simp] theorem screenInit_cursorY (s : Console) : s.screenInit.cursorY = 0 := by simp [screenInit]

@[simp] theorem screenInit_screenOffset (s : Console) : s.screenInit.screenOffset = 0 := by
  simp [screenInit]

theorem screenInit_saved (s : Console) {i : Nat} (bound : i < savedCells) :
    s.screenInit.saved i = ⟨space, 0x2⟩ := by
  have filled := Memory.cell_fillLoop (A := savedArray)
    (forLoop (fun k (m : Memory) => m.storeCell videoMem (UInt32.ofNat k) space 0x2) screenCells s.mem)
    space 0x2 le_rfl bound
  simp only [saved, screenInit, updateCursor_mem]
  exact filled.trans (if_pos bound)

theorem screenInit_display (s : Console) {i : Nat} (bound : i < screenCells) :
    s.screenInit.display i = ⟨space, 0x2⟩ := by
  have filled := Memory.cell_fillLoop (A := displayArray) s.mem space 0x2 le_rfl bound
  have kept := Memory.cell_fillLoop_of_disjoint (A := savedArray) (B := displayArray)
    (forLoop (fun k (m : Memory) => m.storeCell videoMem (UInt32.ofNat k) space 0x2) screenCells s.mem)
    display_saved_disjoint.symm space 0x2 le_rfl bound
  simp only [display, screenInit, updateCursor_mem]
  exact kept.trans (filled.trans (if_pos bound))

end Console

end Mp3Kernel
