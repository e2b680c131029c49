import Mp3Kernel.Console.Mirror

/-!
# What the console never touches

The kernel image, the loader's data and everything else outside the two arrays of
the screen is left alone by every operation of an allowed run.
-/

namespace Mp3Kernel

open Library

namespace Console

variable {s : Console} {a : UInt32}

/-- An address outside displayed and saved video memory. -/
def OffScreen (a : UInt32) : Prop := ¬displayArray.Contains a ∧ ¬savedArray.Contains a

instance (a : UInt32) : Decidable (OffScreen a) := inferInstanceAs (Decidable (_ ∧ _))

theorem displayIndex_inside {i : Nat} (bound : i < screenCells) : (UInt32.ofNat i).toNat < displayArray.size := by
  rw [displayArray.toNat_index bound]
  exact bound

/-- The store on screen is guarded, and the other one is to a saved row. -/
theorem putAtCursor_outside (c : UInt8) (column : s.cursorX.toNat < 80) (row : s.cursorY.toNat ≤ lastRow + 25)
    (off : OffScreen a) : (s.putAtCursor c).mem.bytes a = s.mem.bytes a := by
  have index : (80 * s.cursorY + s.cursorX.toUInt32).toNat = s.pos := toNat_cursorIndex row
  have inside := pos_lt_savedCells column row
  have stored := Memory.storeCell_outside (A := savedArray)
    (if s.screenY < 25 then s.mem.storeCell videoMem (80 * s.screenY + s.screenX.toUInt32) c s.attrib else s.mem)
    off.2 (i := 80 * s.cursorY + s.cursorX.toUInt32) (by rw [index]; exact inside) c s.attrib
  refine stored.trans ?_
  split
  next shown =>
    have y : s.screenY.toNat < 25 := shown
    refine Memory.storeCell_outside (A := displayArray) s.mem off.1 ?_ c s.attrib
    rw [toNat_cursorIndex (by omega)]
    change 80 * s.screenY.toNat + s.cursorX.toNat < 25 * 80
    omega
  next => rfl

theorem moveWindow_outside (offset : Int32) (off : OffScreen a) :
    (s.moveWindow offset).mem.bytes a = s.mem.bytes a := by
  simp only [moveWindow, updateCursor_mem]
  exact Memory.forLoop_outside s.mem fun k bound m =>
    Memory.copyCell_outside (A := displayArray) m off.1 (displayIndex_inside bound) _ _

theorem scroll_outside (offset : Int32) (off : OffScreen a) : (s.scroll offset).mem.bytes a = s.mem.bytes a := by
  rcases scroll_cases offset s with h | ⟨by', h⟩
  · rw [h]
  · rw [h, moveWindow_outside by' off]

theorem follow_outside (off : OffScreen a) : s.follow.mem.bytes a = s.mem.bytes a := by
  unfold follow
  split
  · exact scroll_outside _ off
  · rw [updateCursor_mem]

theorem putc_outside (c : UInt8) (inStep : s.InStep) (allowed : PutcAllowed c s) (off : OffScreen a) :
    (s.putc c).mem.bytes a = s.mem.bytes a := by
  have row := inStep.row
  by_cases line : c = newline ∨ c = carriageReturn
  · rw [putc_newline s line, follow_outside off]
  · by_cases back : c = backspace
    · subst back
      have row' := allowed.2
      obtain ⟨_, column'⟩ := stepBack_pos inStep.column (pos_pos_of_allowed allowed)
      rw [putc_backspace] at row' ⊢
      rw [follow_cursorY, putAtCursor_cursorY] at row'
      rw [follow_outside off, putAtCursor_outside space column' (by omega) off, stepBack_mem]
    · rw [putc_char s line back, follow_outside off, stepForward_mem,
        putAtCursor_outside c inStep.column (by omega) off]

/-- A run of output keeps its invariant and every byte outside the screen. -/
theorem run_putc_outside {text : List UInt8} (inStep : s.InStep) (allowed : Along putc PutcAllowed text s) :
    (run putc text s).InStep ∧ ∀ a, OffScreen a → (run putc text s).mem.bytes a = s.mem.bytes a :=
  allowed.invariant (fun t => t.InStep ∧ ∀ a, OffScreen a → t.mem.bytes a = s.mem.bytes a)
    (fun c _ ok state => ⟨(putc_inStep c state.1 ok).1, fun a off =>
      (putc_outside c state.1 ok off).trans (state.2 a off)⟩)
    ⟨inStep, fun _ _ => rfl⟩

end Console

end Mp3Kernel
