import Mp3Kernel.Console.Effects

/-!
# The screen mirrors the saved rows

Every writer keeps displayed and saved video memory in step by hand. `Pending`
is what holds in the middle of a `putc`, when the cursor may have left the
window; `follow` turns it back into `InStep`.
-/

namespace Mp3Kernel

open Library

namespace Console

variable {s : Console}

/-- The column is a column, the window does not start below the cursor, and the
cursor row leaves room for a whole window of saved rows. -/
structure Sound (s : Console) : Prop where
  column : s.cursorX.toNat < 80
  above : s.screenOffset.toNat ≤ s.cursorY.toNat
  row : s.cursorY.toNat ≤ lastRow

/-- The displayed cells are the saved cells of the window. -/
def Mirrors (s : Console) : Prop :=
  ∀ i < screenCells, s.display i = s.saved (80 * s.screenOffset.toNat + i)

/-- Every saved cell has the current colours. -/
def Coloured (s : Console) : Prop :=
  ∀ i < savedCells, (s.saved i).attr = s.attrib

structure InStep (s : Console) : Prop extends Sound s where
  mirrors : s.Mirrors
  coloured : s.Coloured

/-- A console in the middle of `putc`: a backspace may have left the window one row
below the cursor. -/
structure Pending (s : Console) : Prop where
  column : s.cursorX.toNat < 80
  near : s.screenOffset.toNat ≤ s.cursorY.toNat + 1
  row : s.cursorY.toNat ≤ lastRow
  mirrors : s.Mirrors
  coloured : s.Coloured

theorem Sound.row_small (sound : s.Sound) : s.cursorY.toNat < 2 ^ 31 := by
  have row := sound.row
  have small := lastRow_small
  omega

/-! ## Runs the console is specified for -/

/-- No backspace at the origin, and the cursor row stays in range. -/
def PutcAllowed (c : UInt8) (s : Console) : Prop :=
  ¬(c = backspace ∧ s.cursorX = 0 ∧ s.cursorY = 0) ∧ (s.putc c).cursorY.toNat ≤ lastRow

def Allowed : Op → Console → Prop
  | .putc c, s => PutcAllowed c s
  | .puts str, s => Along putc PutcAllowed (str.takeWhile (· ≠ 0)) s
  | op, s => (exec op s).cursorY.toNat ≤ lastRow

theorem pos_pos_of_allowed (allowed : PutcAllowed backspace s) : 0 < s.pos := by
  rw [Nat.pos_iff_ne_zero]
  intro zero
  have origin : s.cursorX.toNat = 0 ∧ s.cursorY.toNat = 0 := by unfold pos at zero; omega
  exact allowed.1 ⟨rfl, UInt8.toNat_inj.mp origin.1, UInt32.toNat_inj.mp origin.2⟩

instance (c : UInt8) (s : Console) : Decidable (PutcAllowed c s) :=
  inferInstanceAs (Decidable (_ ∧ _))

instance : (op : Op) → (s : Console) → Decidable (Allowed op s)
  | .putc c, s => inferInstanceAs (Decidable (PutcAllowed c s))
  | .puts _, _ => inferInstanceAs (Decidable (Along _ _ _ _))
  | .clear, _ | .scroll _, _ | .fontColor, _ | .backgroundColor, _ =>
    inferInstanceAs (Decidable (_ ≤ _))

theorem puts_eq_run (str : List UInt8) (s : Console) :
    (s.puts str).2 = run putc (str.takeWhile (· ≠ 0)) s := by
  induction str generalizing s with
  | nil => rfl
  | cons c cs ih =>
    by_cases h : c = 0
    · simp [puts, h]
    · simp [puts, h, ih]

/-! ## Steps -/

theorem scroll_mirrors (offset : Int32) (mirrors : s.Mirrors)
    (rows : (s.scroll offset).screenOffset.toNat ≤ lastRow + 1) : (s.scroll offset).Mirrors := by
  rcases scroll_cases offset s with h | ⟨by', h⟩
  · rwa [h]
  · rw [h] at rows ⊢
    intro i bound
    rw [moveWindow_display by' s rows bound, moveWindow_saved by' s (window_inside rows bound)]

theorem scroll_coloured (offset : Int32) (coloured : s.Coloured) : (s.scroll offset).Coloured := by
  intro i bound
  rw [scroll_saved _ _ bound, scroll_attrib, coloured i bound]

theorem scroll_inStep (offset : Int32) (inStep : s.InStep) : (s.scroll offset).InStep := by
  have row := inStep.row
  have above := inStep.above
  -- The window is clamped to the cursor row.
  have clamped := scroll_screenOffset offset s inStep.row_small
    (lt_of_le_of_lt above inStep.row_small)
  have below : (s.scroll offset).screenOffset.toNat ≤ s.cursorY.toNat := by omega
  exact {
    column := by rw [scroll_cursorX]; exact inStep.column
    above := by rw [scroll_cursorY]; exact below
    row := by rw [scroll_cursorY]; exact row
    mirrors := scroll_mirrors offset inStep.mirrors (by omega)
    coloured := scroll_coloured offset inStep.coloured }

theorem follow_mirrors (mirrors : s.Mirrors) (rows : s.follow.screenOffset.toNat ≤ lastRow + 1) :
    s.follow.Mirrors := by
  by_cases hidden : s.screenY ≥ 25
  · rw [follow, if_pos hidden] at rows ⊢
    exact scroll_mirrors _ mirrors rows
  · rw [follow, if_neg hidden]
    simpa [Mirrors, display, saved] using mirrors

/-- Whatever happened to the cursor, the end of `putc` puts it back on screen. -/
theorem follow_inStep (pending : s.Pending) : s.follow.InStep ∧ s.follow.Visible := by
  obtain ⟨column, near, row, mirrors, coloured⟩ := pending
  have small := lastRow_small
  have target := @follow_screenOffset s (by omega) (by omega)
  -- The window stays, or is moved so that the cursor is on its last row, or on top of it if
  -- there are not 24 rows above.
  have visible : s.follow.Visible := by
    rw [Visible, follow_cursorY, target]
    split
    next h => exact h
    next h => omega
  refine ⟨⟨⟨by simpa using column, visible.1, by simpa using row⟩, ?_, ?_⟩, visible⟩
  · have rows : s.follow.screenOffset.toNat ≤ lastRow + 1 := by
      have := visible.1
      rw [follow_cursorY] at this
      omega
    exact follow_mirrors mirrors rows
  · intro i bound
    rw [follow_saved s bound, follow_attrib, coloured i bound]

/-- A write at the cursor reaches the window and the saved rows together, or only the
saved rows when the cursor is out of the window. -/
theorem putAtCursor_mirrors (c : UInt8) (column : s.cursorX.toNat < 80)
    (row : s.cursorY.toNat ≤ lastRow) (rows : s.screenOffset.toNat ≤ lastRow + 1)
    (mirrors : s.Mirrors) : (s.putAtCursor c).Mirrors := by
  intro i bound
  rw [putAtCursor_display c column row rows bound, putAtCursor_screenOffset,
    putAtCursor_saved c column row rows (window_inside rows bound), mirrors i bound]
  -- Displayed cell `i` is under the cursor exactly when its saved cell is.
  have same : (s.Visible ∧ i = s.screenPos) ↔ 80 * s.screenOffset.toNat + i = s.pos := by
    unfold Visible screenPos pos
    unfold screenCells at bound
    omega
  simp only [same]

theorem putAtCursor_coloured (c : UInt8) (column : s.cursorX.toNat < 80)
    (row : s.cursorY.toNat ≤ lastRow) (rows : s.screenOffset.toNat ≤ lastRow + 1)
    (coloured : s.Coloured) : (s.putAtCursor c).Coloured := by
  intro i bound
  rw [putAtCursor_saved c column row rows bound, putAtCursor_attrib]
  split
  · rfl
  · exact coloured i bound

theorem newRow_pending (inStep : s.InStep) (row' : (s.cursorY + 1).toNat ≤ lastRow) :
    Pending { s with cursorY := s.cursorY + 1, cursorX := 0 } := by
  have above := inStep.above
  have small := inStep.row_small
  have next : (s.cursorY + 1).toNat = s.cursorY.toNat + 1 := toNat_add_one (by omega)
  exact ⟨by simp, by simp only [next]; omega, row', inStep.mirrors, inStep.coloured⟩

/-- The one case in which the cursor can end up above the window. -/
theorem erase_pending (inStep : s.InStep) (notOrigin : 0 < s.pos)
    (row' : s.stepBack.cursorY.toNat ≤ lastRow) : (s.stepBack.putAtCursor space).Pending := by
  have ⟨⟨column, above, row⟩, mirrors, coloured⟩ := inStep
  obtain ⟨moved, column'⟩ := stepBack_pos column notOrigin
  have near : s.screenOffset.toNat ≤ s.stepBack.cursorY.toNat + 1 := by
    unfold pos at moved
    omega
  have rows : s.stepBack.screenOffset.toNat ≤ lastRow + 1 := by
    rw [stepBack_screenOffset]
    omega
  -- Stepping back touches no cell.
  have mirrors' : s.stepBack.Mirrors := by simpa [Mirrors, display, saved] using mirrors
  have coloured' : s.stepBack.Coloured := by simpa [Coloured, saved] using coloured
  exact ⟨column', by simpa using near, row',
    putAtCursor_mirrors space column' row' rows mirrors',
    putAtCursor_coloured space column' row' rows coloured'⟩

theorem write_pending (c : UInt8) (inStep : s.InStep)
    (row' : (s.putAtCursor c).stepForward.cursorY.toNat ≤ lastRow) :
    (s.putAtCursor c).stepForward.Pending := by
  have ⟨⟨column, above, row⟩, mirrors, coloured⟩ := inStep
  obtain ⟨moved, column'⟩ := stepForward_pos (s := s.putAtCursor c) column inStep.row_small
  rw [putAtCursor_pos] at moved
  have near : s.screenOffset.toNat ≤ (s.putAtCursor c).stepForward.cursorY.toNat + 1 := by
    unfold pos at moved
    omega
  exact ⟨column', near, row', putAtCursor_mirrors c column row (by omega) mirrors,
    putAtCursor_coloured c column row (by omega) coloured⟩

theorem putc_inStep (c : UInt8) (inStep : s.InStep) (allowed : PutcAllowed c s) :
    (s.putc c).InStep ∧ (s.putc c).Visible := by
  have row' := allowed.2
  by_cases line : c = newline ∨ c = carriageReturn
  · rw [putc_newline s line] at row' ⊢
    rw [follow_cursorY] at row'
    exact follow_inStep (newRow_pending inStep row')
  · by_cases back : c = backspace
    · subst back
      rw [putc_backspace] at row' ⊢
      rw [follow_cursorY, putAtCursor_cursorY] at row'
      exact follow_inStep (erase_pending inStep (pos_pos_of_allowed allowed) row')
    · rw [putc_char s line back] at row' ⊢
      rw [follow_cursorY] at row'
      exact follow_inStep (write_pending c inStep row')

theorem clear_inStep (inStep : s.InStep) (row' : s.clear.cursorY.toNat ≤ lastRow) :
    s.clear.InStep := by
  rw [clear_cursorY] at row'
  have rows : (s.cursorY + 1).toNat ≤ lastRow + 1 := by omega
  refine ⟨⟨by simp, by simp, by simpa using row'⟩, ?_, ?_⟩
  · intro i bound
    have inside : 80 * (s.cursorY + 1).toNat + i < savedCells := by
      have := window_inside (s := s.clear) (by simpa using rows) bound
      simpa using this
    rw [clear_display s rows bound, clear_screenOffset, clear_saved s rows inside,
      if_pos ⟨by omega, by omega⟩]
  · -- Outside the new window the saved cells have their colours from before.
    intro i bound
    rw [clear_saved s rows bound, clear_attrib]
    split
    · rfl
    · exact inStep.coloured i bound

theorem updateColor_inStep (sound : s.Sound) : s.updateColor.InStep := by
  have offset := updateColor_screenOffset sound.row_small sound.above
  refine ⟨⟨by simpa using sound.column, ?_, by simpa using sound.row⟩, ?_, ?_⟩
  · rw [offset, updateColor_cursorY]
    exact sound.above
  · intro i bound
    rw [updateColor_display sound.row sound.above bound, offset]
  · intro i bound
    rw [updateColor_saved s bound, updateColor_attrib]

theorem screenInit_inStep (s : Console) : s.screenInit.InStep := by
  refine ⟨⟨by simp, by simp, by simp [lastRow]⟩, ?_, ?_⟩
  · intro i bound
    have inside := window_inside (s := s.screenInit) (by simp) bound
    rw [screenInit_display s bound, screenInit_saved s inside]
  · intro i bound
    rw [screenInit_saved s bound, screenInit_attrib]

theorem exec_inStep (op : Op) (s : Console) (allowed : Allowed op s) (inStep : s.InStep) :
    (exec op s).InStep := by
  cases op with
  | putc c => exact (putc_inStep c inStep allowed).1
  | puts str =>
    -- `puts` is a run of `putc`, so the invariant rule applies once more.
    change (s.puts str).2.InStep
    rw [puts_eq_run]
    exact Along.invariant InStep (fun c s ok h => (putc_inStep c h ok).1) allowed inStep
  | clear => exact clear_inStep inStep allowed
  | scroll offset => exact scroll_inStep offset inStep
  | fontColor => exact updateColor_inStep ⟨inStep.column, inStep.above, inStep.row⟩
  | backgroundColor => exact updateColor_inStep ⟨inStep.column, inStep.above, inStep.row⟩

/-- After every operation of every allowed run, displayed cell `i` is saved cell
`80*screen_offset + i`, and the whole saved area has the colours of `ATTRIB`. -/
theorem screen_mirrors_saved (s : Console) (ops : List Op)
    (allowed : Along exec Allowed ops s.screenInit) :
    (run exec ops s.screenInit).Mirrors ∧ (run exec ops s.screenInit).Coloured := by
  have inStep := allowed.invariant InStep exec_inStep s.screenInit_inStep
  exact ⟨inStep.mirrors, inStep.coloured⟩

/-- A run that writes, crosses a row backwards, clears, scrolls and recolours. -/
theorem screen_mirrors_saved_session :
    (run exec [.puts [72, 105], .putc newline, .putc backspace, .clear, .putc 65, .scroll (-12),
      .fontColor, .scroll 12, .backgroundColor] powerOn.screenInit).Mirrors ∧
    (run exec [.puts [72, 105], .putc newline, .putc backspace, .clear, .putc 65, .scroll (-12),
      .fontColor, .scroll 12, .backgroundColor] powerOn.screenInit).Coloured :=
  screen_mirrors_saved powerOn _ (by decide)

end Console

end Mp3Kernel
