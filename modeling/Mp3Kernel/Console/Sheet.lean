import Mp3Kernel.Console.Mirror
import Mp3Kernel.Library.Sheet

/-!
# The console refines an endless sheet

The saved rows, with the cursor, implement a sheet 80 columns wide: rows are
never recycled, and neither clearing nor a new line loses text, because nothing
is ever written past the cursor.
-/

namespace Mp3Kernel

open Library

namespace Console

variable {s : Console} {t : Sheet UInt8}

/-! ## The sheet's meaning of the operations -/

def sheetPutc (c : UInt8) (t : Sheet UInt8) : Sheet UInt8 :=
  if c = newline ∨ c = carriageReturn then t.nextRow 80
  else if c = backspace then t.eraseBack space
  else t.write c

def sheetExec : Op → Sheet UInt8 → Sheet UInt8
  | .putc c, t => sheetPutc c t
  | .puts str, t => run sheetPutc (str.takeWhile (· ≠ 0)) t
  | .clear, t => t.nextRow 80
  | .scroll _, t => t
  | .fontColor, t => t
  | .backgroundColor, t => t

theorem sheetPutc_blankAhead (c : UInt8) (ahead : t.BlankAhead space) :
    (sheetPutc c t).BlankAhead space := by
  unfold sheetPutc
  split
  · exact ahead.nextRow (by decide)
  · split
    · exact ahead.eraseBack
    · exact ahead.write c

theorem sheetExec_blankAhead (op : Op) (ahead : t.BlankAhead space) :
    (sheetExec op t).BlankAhead space := by
  cases op with
  | putc c => exact sheetPutc_blankAhead c ahead
  | puts str => exact run_invariant _ (fun c _ h => sheetPutc_blankAhead c h) _ ahead
  | clear => exact ahead.nextRow (by decide)
  | scroll _ | fontColor | backgroundColor => exact ahead

/-! ## Refinement -/

/-- The cursor is the caret, and the saved characters are the sheet's text. -/
structure Refines (s : Console) (t : Sheet UInt8) : Prop where
  caret : s.pos = t.caret
  text : ∀ i < savedCells, (s.saved i).char = t.text i

theorem pos_div_row (column : s.cursorX.toNat < 80) : s.pos / 80 = s.cursorY.toNat := by
  unfold pos
  omega

theorem newRow_refines (inStep : s.InStep) (refines : s.Refines t) :
    Refines { s with cursorY := s.cursorY + 1, cursorX := 0 } (t.nextRow 80) := by
  have small := inStep.row_small
  have next : (s.cursorY + 1).toNat = s.cursorY.toNat + 1 := toNat_add_one (by omega)
  refine ⟨?_, refines.text⟩
  rw [Sheet.nextRow, ← refines.caret, pos_div_row inStep.column, pos, next]
  rfl

theorem erase_refines (inStep : s.InStep) (notOrigin : 0 < s.pos) (refines : s.Refines t) :
    (s.stepBack.putAtCursor space).Refines (t.eraseBack space) := by
  obtain ⟨caret, text⟩ := refines
  have ⟨column, above, row⟩ := inStep.toSound
  obtain ⟨moved, column'⟩ := stepBack_pos column notOrigin
  have row' : s.stepBack.cursorY.toNat ≤ lastRow := by unfold pos at moved; omega
  refine ⟨by rw [putAtCursor_pos, moved, caret]; rfl, ?_⟩
  intro i bound
  rw [putAtCursor_saved space column' row' (by rw [stepBack_screenOffset]; omega) bound, moved,
    caret]
  simp only [Sheet.eraseBack, Function.update_apply]
  split
  · rfl
  · rw [saved, stepBack_mem]
    exact text i bound

theorem write_refines (c : UInt8) (inStep : s.InStep) (refines : s.Refines t) :
    (s.putAtCursor c).stepForward.Refines (t.write c) := by
  obtain ⟨caret, text⟩ := refines
  have ⟨column, above, row⟩ := inStep.toSound
  obtain ⟨moved, -⟩ := stepForward_pos (s := s.putAtCursor c) column inStep.row_small
  refine ⟨by rw [moved, putAtCursor_pos, caret]; rfl, ?_⟩
  intro i bound
  rw [saved, stepForward_mem, ← saved, putAtCursor_saved c column row (by omega) bound, caret]
  simp only [Sheet.write, Function.update_apply]
  split
  · rfl
  · exact text i bound

/-- Moving the window is not visible on the sheet. -/
theorem follow_refines (refines : s.Refines t) : s.follow.Refines t := by
  refine ⟨by rw [follow_pos]; exact refines.caret, ?_⟩
  intro i bound
  rw [follow_saved _ bound]
  exact refines.text i bound

theorem putc_refines (c : UInt8) (inStep : s.InStep) (allowed : PutcAllowed c s)
    (refines : s.Refines t) : (s.putc c).Refines (sheetPutc c t) := by
  by_cases line : c = newline ∨ c = carriageReturn
  · rw [putc_newline s line, sheetPutc, if_pos line]
    exact follow_refines (newRow_refines inStep refines)
  · by_cases back : c = backspace
    · subst back
      rw [putc_backspace, sheetPutc, if_neg line, if_pos rfl]
      exact follow_refines (erase_refines inStep (pos_pos_of_allowed allowed) refines)
    · rw [putc_char s line back, sheetPutc, if_neg line, if_neg back]
      exact follow_refines (write_refines c inStep refines)

/-- The cells `clear` blanks were blank: they are all past the cursor. -/
theorem clear_refines (inStep : s.InStep) (allowed : s.clear.cursorY.toNat ≤ lastRow)
    (refines : s.Refines t) (ahead : t.BlankAhead space) : s.clear.Refines (t.nextRow 80) := by
  obtain ⟨caret, text⟩ := refines
  rw [clear_cursorY] at allowed
  have small := inStep.row_small
  have next : (s.cursorY + 1).toNat = s.cursorY.toNat + 1 := toNat_add_one (by omega)
  refine ⟨?_, ?_⟩
  · rw [Sheet.nextRow, ← caret, pos_div_row inStep.column, pos, clear_cursorY, clear_cursorX, next]
    rfl
  · intro i bound
    rw [clear_saved s (by omega) bound, next]
    split
    next inWindow =>
      -- The new window begins on the row after the cursor.
      have past : t.caret ≤ i := by
        have column := inStep.column
        rw [← caret]
        unfold pos
        omega
      exact (ahead i past).symm
    next => exact text i bound

theorem updateColor_refines (refines : s.Refines t) : s.updateColor.Refines t := by
  refine ⟨by simpa [pos] using refines.caret, ?_⟩
  intro i bound
  rw [updateColor_saved s bound]
  exact refines.text i bound

theorem exec_refines (op : Op) (allowed : Allowed op s) (inStep : s.InStep) (refines : s.Refines t)
    (ahead : t.BlankAhead space) : (exec op s).Refines (sheetExec op t) := by
  cases op with
  | putc c => exact putc_refines c inStep allowed refines
  | puts str =>
    change (s.puts str).2.Refines _
    rw [puts_eq_run]
    -- The invariant has to be carried along: `putc_refines` needs it before every character.
    refine (Along.simulation sheetPutc (fun s t => s.InStep ∧ s.Refines t)
      ?_ allowed ⟨inStep, refines⟩).2
    rintro c s t ok ⟨inStep, refines⟩
    exact ⟨(putc_inStep c inStep ok).1, putc_refines c inStep ok refines⟩
  | clear => exact clear_refines inStep allowed refines ahead
  | scroll offset =>
    refine ⟨by rw [exec, scroll_pos]; exact refines.caret, ?_⟩
    intro i bound
    rw [exec, scroll_saved _ _ bound]
    exact refines.text i bound
  | fontColor | backgroundColor =>
    apply updateColor_refines
    exact ⟨refines.caret, refines.text⟩

theorem screenInit_refines (s : Console) : s.screenInit.Refines (Sheet.fresh space) := by
  refine ⟨by simp [pos, Sheet.fresh], ?_⟩
  intro i bound
  rw [screenInit_saved s bound]
  rfl

/-- Along every allowed run the console and the sheet stay related. -/
theorem run_refines (s : Console) (ops : List Op) (allowed : Along exec Allowed ops s.screenInit) :
    (run exec ops s.screenInit).InStep ∧
    (run exec ops s.screenInit).Refines (run sheetExec ops (Sheet.fresh space)) ∧
    (run sheetExec ops (Sheet.fresh space)).BlankAhead space := by
  refine Along.simulation sheetExec
    (fun s t => s.InStep ∧ s.Refines t ∧ t.BlankAhead space) ?_ allowed
    ⟨s.screenInit_inStep, s.screenInit_refines, Sheet.blankAhead_fresh space⟩
  rintro op s t ok ⟨inStep, refines, ahead⟩
  exact ⟨exec_inStep op s ok inStep, exec_refines op ok inStep refines ahead,
    sheetExec_blankAhead op ahead⟩

/-- The console refines the endless sheet: same text, same position, and every saved
cell from the cursor on is a space. -/
theorem console_refines_sheet (s : Console) (ops : List Op)
    (allowed : Along exec Allowed ops s.screenInit) :
    (run exec ops s.screenInit).Refines (run sheetExec ops (Sheet.fresh space)) ∧
    ∀ i < savedCells, (run exec ops s.screenInit).pos ≤ i →
      ((run exec ops s.screenInit).saved i).char = space := by
  obtain ⟨-, refines, ahead⟩ := run_refines s ops allowed
  refine ⟨refines, ?_⟩
  intro i bound past
  rw [refines.text i bound]
  exact ahead i (refines.caret ▸ past)

/-- Two characters, a backspace over one of them, a new row and a cleared screen. -/
theorem console_refines_sheet_session :
    (run exec [.putc 72, .putc 105, .putc backspace, .putc newline, .clear, .scroll (-1)]
      powerOn.screenInit).Refines
      (run sheetExec [.putc 72, .putc 105, .putc backspace, .putc newline, .clear, .scroll (-1)]
        (Sheet.fresh space)) :=
  (console_refines_sheet powerOn _ (by decide)).1

end Console

end Mp3Kernel
