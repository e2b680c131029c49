import Mathlib.Data.List.TakeWhile
import Mp3Kernel.Exceptions.Basic

/-!
# What an exception leaves on the screen

The blue screen is drawn with `puts` and a cursor that is set by hand, so its
picture rests on no text leaving its row. `Placed` says where the cursor is in the
window, and `Drawn` which labels are on the screen and in the saved rows; each
statement of `BSOD` moves one or the other. An exception may come in the middle of
any console operation: nothing but the place of the window is asked of the state
that it finds.
-/

namespace Mp3Kernel

open Library

namespace Console

variable {s before : Console} {offset row column : Nat} {attr : UInt8} {text : List UInt8} {labels : List Label}

/-- No control characters. -/
def graphic (text : List UInt8) : Bool := text.all fun c => decide (0x20 ≤ c.toNat)

theorem ne_of_graphic {c d : UInt8} (shown : 0x20 ≤ c.toNat) (control : d.toNat < 0x20) : c ≠ d := by
  rintro rfl
  omega

/-! ## Text in one row -/

/-- The window begins at the saved row `offset`, and the cursor is in it. -/
structure Placed (offset row column : Nat) (attr : UInt8) (s : Console) : Prop where
  window : s.screenOffset.toNat = offset
  rows : offset ≤ lastRow + 1
  y : s.cursorY.toNat = offset + row
  onScreen : row < 25
  x : s.cursorX.toNat = column
  inRow : column < 80
  attrib : s.attrib = attr

theorem Placed.visible (placed : s.Placed offset row column attr) : s.Visible := by
  have window := placed.window
  have row := placed.y
  have onScreen := placed.onScreen
  exact ⟨by omega, by omega⟩

theorem Placed.pos (placed : s.Placed offset row column attr) : s.pos = 80 * offset + (80 * row + column) := by
  rw [Console.pos, placed.y, placed.x]
  omega

theorem Placed.screenPos (placed : s.Placed offset row column attr) : s.screenPos = 80 * row + column := by
  rw [Console.screenPos, placed.y, placed.window, placed.x, Nat.add_sub_cancel_left]

theorem Placed.screenY (placed : s.Placed offset row column attr) : s.screenY < 25 := by
  have window := placed.window
  have row := placed.y
  have rows := placed.rows
  have onScreen := placed.onScreen
  have small := lastRow_small
  exact (screenY_lt_iff (by omega) (by omega)).mpr placed.visible

/-- The two cells that a character is stored to. -/
theorem Placed.putAtCursor (placed : s.Placed offset row column attr) (c : UInt8) :
    (∀ i < screenCells, (s.putAtCursor c).display i =
      Function.update s.display (80 * row + column) ⟨c, attr⟩ i) ∧
    ∀ i < savedCells, (s.putAtCursor c).saved i =
      Function.update s.saved (80 * offset + (80 * row + column)) ⟨c, attr⟩ i := by
  have rows := placed.rows
  have row := placed.y
  have onScreen := placed.onScreen
  have column : s.cursorX.toNat < 80 := placed.x ▸ placed.inRow
  have index : (80 * s.cursorY + s.cursorX.toUInt32).toNat = s.pos := toNat_cursorIndex (by omega)
  have inside := pos_lt_savedCells column (by omega)
  have place := toNat_screenPos placed.visible
  have inside' := screenPos_lt column placed.visible
  refine ⟨fun i bound => ?_, fun i bound => ?_⟩
  · simp only [display, Console.putAtCursor, if_pos placed.screenY]
    rw [displayCell_storeSaved _ _ _ _ bound (by omega),
      displayCell_storeDisplay _ _ _ _ bound (by omega), place, placed.screenPos, placed.attrib,
      Function.update_apply]
    rfl
  · simp only [saved, Console.putAtCursor, if_pos placed.screenY]
    rw [savedCell_storeSaved _ _ _ _ bound (by omega),
      savedCell_storeDisplay _ _ _ _ bound (by omega), index, placed.pos, placed.attrib,
      Function.update_apply]
    rfl

theorem Placed.stepForward (placed : s.Placed offset row column attr) (room : column + 1 < 80) :
    s.stepForward.Placed offset row (column + 1) attr := by
  have x := placed.x
  have step : (s.cursorX + 1).toNat = column + 1 := by
    rw [UInt8.toNat_add, x]
    exact Nat.mod_eq_of_lt (by simp only [UInt8.reduceToNat]; omega)
  refine ⟨placed.window, placed.rows, ?_, placed.onScreen, ?_, room, placed.attrib⟩
  · simp only [Console.stepForward, UInt32.toNat_add, UInt8.toNat_toUInt32, UInt8.toNat_div, step,
      UInt8.reduceToNat, placed.y]
    have rows := placed.rows
    have onScreen := placed.onScreen
    have small := lastRow_small
    omega
  · simp only [Console.stepForward, UInt8.toNat_mod, step, UInt8.reduceToNat]
    omega

/-- What `update_cursor` leaves alone. -/
theorem Placed.updateCursor (placed : s.Placed offset row column attr) :
    s.updateCursor.Placed offset row column attr := by
  refine ⟨?_, placed.rows, ?_, placed.onScreen, ?_, placed.inRow, ?_⟩
  · rw [updateCursor_screenOffset, placed.window]
  · rw [updateCursor_cursorY, placed.y]
  · rw [updateCursor_cursorX, placed.x]
  · rw [updateCursor_attrib, placed.attrib]

/-- `t` is `s` with `text` printed at its cursor. The hardware cursor goes along with the last character. -/
structure Prints (offset row column : Nat) (attr : UInt8) (text : List UInt8) (s t : Console) : Prop where
  placed : t.Placed offset row (column + text.length) attr
  display : ∀ i < screenCells, t.display i = paint attr (80 * row + column) text s.display i
  saved : ∀ i < savedCells, t.saved i = paint attr (80 * offset + (80 * row + column)) text s.saved i
  toggled : ∀ boot, s.Toggled boot → t.Toggled boot
  shown : text ≠ [] → ∀ boot, s.Toggled boot → t.Shown boot

theorem Placed.putc (placed : s.Placed offset row column attr) {c : UInt8} (shown : 0x20 ≤ c.toNat)
    (room : column + 1 < 80) : Prints offset row column attr [c] s (s.putc c) := by
  have line : ¬(c = newline ∨ c = carriageReturn) := by
    rintro (same | same)
    · exact ne_of_graphic shown (by decide) same
    · exact ne_of_graphic shown (by decide) same
  have back : c ≠ backspace := ne_of_graphic shown (by decide)
  obtain ⟨display, saved⟩ := placed.putAtCursor c
  have moved : ((s.putAtCursor c).stepForward).Placed offset row (column + 1) attr :=
    Placed.stepForward ⟨placed.window, placed.rows, placed.y, placed.onScreen, placed.x, placed.inRow,
      placed.attrib⟩ room
  -- The cursor is still in the window, so `putc` ends with `update_cursor`.
  have same : s.putc c = ((s.putAtCursor c).stepForward).updateCursor := by
    rw [putc_char s line back, follow, if_neg (UInt32.not_le.mpr moved.screenY)]
  have hardware (boot : UInt8) (toggled : s.Toggled boot) : (s.putc c).Shown boot := by
    rw [same]
    exact updateCursor_shown ⟨toggled.flag, toggled.register⟩ (by rw [moved.x]; exact room)
  refine ⟨?_, ?_, ?_, fun boot toggled => (hardware boot toggled).toToggled, fun _ => hardware⟩
  · rw [same]
    exact moved.updateCursor
  · intro i bound
    rw [same, Console.display, updateCursor_mem]
    exact display i bound
  · intro i bound
    rw [same, Console.saved, updateCursor_mem]
    exact saved i bound

theorem Placed.print (placed : s.Placed offset row column attr) (readable : graphic text = true)
    (room : column + text.length < 80) : Prints offset row column attr text s (run Console.putc text s) := by
  induction text generalizing s column with
  | nil => exact ⟨placed, fun _ _ => rfl, fun _ _ => rfl, fun _ toggled => toggled, fun empty => absurd rfl empty⟩
  | cons c cs ih =>
    rw [graphic, List.all_cons, Bool.and_eq_true, decide_eq_true_eq] at readable
    rw [List.length_cons] at room
    have first := placed.putc readable.1 (by omega)
    have rest := ih first.placed readable.2 (by simp only [List.length_singleton]; omega)
    have length : column + 1 + cs.length = column + (c :: cs).length := by rw [List.length_cons]; omega
    refine ⟨?_, ?_, ?_, ?_, fun _ boot toggled => ?_⟩
    · rw [← length]
      exact rest.placed
    · intro i bound
      rw [run_cons, rest.display i bound]
      exact paint_congr (first.display i bound)
    · intro i bound
      rw [run_cons, rest.saved i bound]
      exact paint_congr (first.saved i bound)
    · exact fun boot toggled => rest.toggled boot (first.toggled boot toggled)
    · -- The last character brings the hardware up to date.
      cases cs with
      | nil => exact first.shown (List.cons_ne_nil _ _) boot toggled
      | cons d ds => exact rest.shown (List.cons_ne_nil _ _) boot (first.toggled boot toggled)

/-! ## The blue screen -/

/-- `labels` over blue cells on the screen, and over what was there in the saved rows. -/
structure Drawn (before : Console) (labels : List Label) (s : Console) : Prop where
  display : ∀ i < screenCells, s.display i = draw 0 labels (fun _ => ⟨space, 0x10⟩) i
  saved : ∀ i < savedCells, s.saved i = draw (80 * before.screenOffset.toNat) labels before.saved i
  toggled : ∀ boot, before.Toggled boot → s.Toggled boot

/-- In the middle of the blue screen: the labels so far, and the cursor in the window of before. -/
structure Drawing (before : Console) (labels : List Label) (row column : Nat) (attr : UInt8) (s : Console) :
    Prop extends Drawn before labels s where
  placed : s.Placed before.screenOffset.toNat row column attr

theorem Drawing.prints {t : Console} (drawing : Drawing before labels row column attr s)
    (prints : Prints before.screenOffset.toNat row column attr text s t) :
    Drawing before (labels ++ [⟨80 * row + column, attr, text⟩]) row (column + text.length) attr t := by
  refine ⟨⟨fun i bound => ?_, fun i bound => ?_, fun boot toggled => ?_⟩, prints.placed⟩
  · rw [prints.display i bound, draw_snoc, Nat.zero_add]
    exact paint_congr (drawing.display i bound)
  · rw [prints.saved i bound, draw_snoc]
    exact paint_congr (drawing.saved i bound)
  · exact prints.toggled boot (drawing.toggled boot toggled)

/-- The text is readable and ends in front of `next`, in its row. -/
def fits (column next : Nat) (text : List UInt8) : Bool :=
  graphic text && decide (column + text.length = next) && decide (next < 80)

theorem takeWhile_graphic (readable : graphic text = true) : text.takeWhile (· ≠ 0) = text := by
  rw [List.takeWhile_eq_self_iff]
  intro c member
  have shown := List.all_eq_true.mp readable c member
  rw [decide_eq_true_eq] at shown ⊢
  exact ne_of_graphic shown (by decide)

theorem Drawing.puts (drawing : Drawing before labels row column attr s) (text : List UInt8) (next : Nat)
    (fit : fits column next text = true) :
    Drawing before (labels ++ [⟨80 * row + column, attr, text⟩]) row next attr (s.puts text).2 := by
  rw [fits, Bool.and_eq_true, Bool.and_eq_true, decide_eq_true_eq, decide_eq_true_eq] at fit
  obtain ⟨⟨readable, rfl⟩, room⟩ := fit
  rw [puts_eq_run, takeWhile_graphic readable]
  exact drawing.prints (drawing.placed.print readable room)

theorem Drawing.moveDown (drawing : Drawing before labels row column attr s) (rows : UInt32) (x : UInt8)
    (onScreen : row + rows.toNat < 25) (inRow : x.toNat < 80) :
    Drawing before labels (row + rows.toNat) x.toNat attr (s.moveDown rows x) := by
  obtain ⟨drawn, ⟨window, few, y, _, _, _, attrib⟩⟩ := drawing
  have small := lastRow_small
  have down : (s.cursorY + rows).toNat = before.screenOffset.toNat + (row + rows.toNat) := by
    rw [toNat_add_of_lt (by omega), y, Nat.add_assoc]
  exact ⟨⟨drawn.display, drawn.saved, fun boot toggled =>
    ⟨(drawn.toggled boot toggled).flag, (drawn.toggled boot toggled).register⟩⟩,
    ⟨window, few, down, onScreen, rfl, inRow, attrib⟩⟩

/-- Taking the cursor off the screen is not done twice. -/
theorem disableCursor_toggled {boot : UInt8} (toggled : s.Toggled boot) : s.disableCursor.Toggled boot := by
  obtain ⟨flag, register⟩ := toggled
  rw [disableCursor]
  rcases flag with off | on
  · rw [if_neg (by simp [off])]
    exact ⟨.inl off, register⟩
  · rw [if_pos (by simp [on])]
    exact ⟨.inl rfl, by simp [RegisterFile.read, register, on]⟩

theorem Drawing.disableCursor (drawing : Drawing before labels row column attr s) :
    Drawing before labels row column attr s.disableCursor := by
  have hidden (boot : UInt8) (toggled : before.Toggled boot) : s.disableCursor.Toggled boot :=
    disableCursor_toggled (drawing.toggled boot toggled)
  have placed := drawing.placed
  rw [Console.disableCursor] at hidden ⊢
  split
  next enabled =>
    rw [if_pos enabled] at hidden
    exact ⟨⟨drawing.display, drawing.saved, hidden⟩,
      ⟨placed.window, placed.rows, placed.y, placed.onScreen, placed.x, placed.inRow, placed.attrib⟩⟩
  next => exact drawing

/-- The labels of `BSOD`. -/
def bsodLabels : List Label := [
  ⟨80 * 10 + 10, 0x17, quoted "A total FU exception has occured at your location. All system"⟩,
  ⟨80 * 11 + 10, 0x17, quoted "functionality will be terminated."⟩,
  ⟨80 * 13 + 10, 0x17, quoted "- "⟩,
  ⟨80 * 13 + 12, 0x17, quoted "Press any key to power cycle the system. If system does not"⟩,
  ⟨80 * 14 + 12, 0x17, quoted "restart, scream at top of lungs and pound on keyboard."⟩,
  ⟨80 * 15 + 10, 0x17, quoted "- "⟩,
  ⟨80 * 15 + 12, 0x17, quoted "If you need to talk to a programmer press any other key."⟩,
  ⟨80 * 17 + 26, 0x17, quoted "Press any key to continue.."⟩]

end Console

end Mp3Kernel
