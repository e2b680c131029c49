import Mp3Kernel.Console.Mirror

/-!
# The window and the two cursors

`cursor_x`, `cursor_y` and `screen_offset` are the software's idea of where the
cursor is; the CRT controller has its own, in three registers. `update_cursor`
hides and shows the hardware cursor by adding 0x20 to register 0x0A and taking
it away again, so a second addition would carry into the next bit: `Toggled`
says that this has not happened.
-/

namespace Mp3Kernel

open Library

namespace Console

variable {s : Console} {boot : UInt8}

/-! ## The window -/

theorem requestedRow_of_small (offset : Int32) (s : Console) (rows : s.screenOffset.toNat < 2 ^ 30)
    (lower : -2 ^ 30 ≤ offset.toInt) (upper : offset.toInt ≤ 2 ^ 30) :
    s.requestedRow offset = s.screenOffset.toNat + offset.toInt := by
  rw [requestedRow, Int32.toInt_add, toInt_toInt32_of_lt (by omega), Int.bmod_def]
  omega

/-- In every state of an allowed run the column is a column and the window does not start
below the cursor; whatever window the user has scrolled to, a `putc` brings the cursor back
into it; and `scroll` moves the window as far as the top and the cursor allow. -/
theorem cursor_in_window (s : Console) (ops : List Op)
    (allowed : Along exec Allowed ops s.screenInit) :
    let now := run exec ops s.screenInit
    now.cursorX.toNat < 80 ∧ now.screenOffset.toNat ≤ now.cursorY.toNat ∧
    (∀ c, PutcAllowed c now → (now.putc c).Visible) ∧
    ∀ d : Int32, -12 ≤ d.toInt → d.toInt ≤ 12 →
      ((now.scroll d).screenOffset.toNat : Int) =
        max 0 (min (now.screenOffset.toNat + d.toInt) now.cursorY.toNat) ∧
      (now.scroll d).cursorX = now.cursorX ∧ (now.scroll d).cursorY = now.cursorY := by
  intro now
  have inStep : now.InStep := allowed.invariant InStep exec_inStep s.screenInit_inStep
  have small := inStep.row_small
  have above := inStep.above
  refine ⟨inStep.column, above, fun c ok => (putc_inStep c inStep ok).2, fun d lower upper => ?_⟩
  have row := inStep.row
  have few := lastRow_small
  have requested := requestedRow_of_small d now (by omega) (by omega) (by omega)
  have clamped := scroll_screenOffset d now small (by omega)
  rw [requested] at clamped
  exact ⟨clamped, scroll_cursorX d now, scroll_cursorY d now⟩

/-- Scrolled up by a page, then a character is printed. -/
theorem cursor_in_window_session :
    ((run exec [.putc newline, .clear, .scroll (-12)] powerOn.screenInit).putc 65).Visible :=
  (cursor_in_window powerOn [.putc newline, .clear, .scroll (-12)] (by decide)).2.2.1 65
    (by decide)

/-! ## The hardware cursor -/

/-- The two bytes of a cursor position, put together again. -/
theorem position_bytes (p : UInt16) :
    256 * ((p >>> 8) &&& 0xFF).toUInt8.toNat + (p &&& 0xFF).toUInt8.toNat = p.toNat := by
  have bound := p.toNat_lt
  have mask (n : Nat) : n &&& 255 = n % 256 := Nat.and_two_pow_sub_one_eq_mod n 8
  simp only [UInt16.toNat_toUInt8, UInt16.toNat_and, UInt16.toNat_shiftRight, UInt16.reduceToNat,
    Nat.reduceMod, Nat.shiftRight_eq_div_pow, mask]
  omega

/-- 0x20 is in register 0x0A, on top of what was there at boot, exactly while the cursor is
disabled. -/
structure Toggled (boot : UInt8) (s : Console) : Prop where
  flag : s.cursorEnabled = 0 ∨ s.cursorEnabled = 1
  register : s.crtc.regs 0x0A = boot + (if s.cursorEnabled = 0 then 0x20 else 0)

/-- The hardware cursor is on exactly when the cursor is on screen, and then where it is. -/
structure Shown (boot : UInt8) (s : Console) : Prop extends Toggled boot s where
  enabled : s.cursorEnabled = 1 ↔ s.screenY < 25
  position : s.screenY < 25 → 256 * (s.crtc.regs 0x0E).toNat + (s.crtc.regs 0x0F).toNat =
    80 * s.screenY.toNat + s.cursorX.toNat

@[simp] theorem updateCursor_screenY (s : Console) : s.updateCursor.screenY = s.screenY := by
  simp [screenY]

theorem updateCursor_enabled (flag : s.cursorEnabled = 0 ∨ s.cursorEnabled = 1) :
    s.updateCursor.cursorEnabled = if s.screenY < 25 then 1 else 0 := by
  by_cases hidden : s.screenY ≥ 25
  · have off : ¬s.screenY < 25 := UInt32.not_lt.mpr hidden
    rcases flag with h | h <;> simp [updateCursor, hidden, off, h]
  · have on : s.screenY < 25 := UInt32.not_le.mp hidden
    rcases flag with h | h <;> simp [updateCursor, hidden, on, h]

/-- The flag decides whether 0x20 is added or taken away, so that neither happens twice. -/
theorem updateCursor_register (toggled : s.Toggled boot) :
    s.updateCursor.crtc.regs 0x0A = boot + (if s.screenY < 25 then 0 else 0x20) := by
  obtain ⟨flag, register⟩ := toggled
  by_cases hidden : s.screenY ≥ 25
  · have off : ¬s.screenY < 25 := UInt32.not_lt.mpr hidden
    rcases flag with h | h
    · simpa [updateCursor, hidden, off, h] using register
    · simpa [updateCursor, RegisterFile.read, hidden, off, h] using register
  · have on : s.screenY < 25 := UInt32.not_le.mp hidden
    rcases flag with h | h
    · simp [updateCursor, RegisterFile.read, hidden, on, h, register]
    · simpa [updateCursor, hidden, on, h] using register

/-- What is written into 0x0E and 0x0F. Showing the cursor again comes before it. -/
theorem updateCursor_bytes (visible : s.screenY < 25) :
    s.updateCursor.crtc.regs 0x0E =
      (((s.screenY * 80 + s.screenX.toUInt32).toUInt16 >>> 8) &&& 0xFF).toUInt8 ∧
    s.updateCursor.crtc.regs 0x0F =
      ((s.screenY * 80 + s.screenX.toUInt32).toUInt16 &&& 0xFF).toUInt8 := by
  have shown : ¬s.screenY ≥ 25 := UInt32.not_le.mpr visible
  rw [updateCursor, if_neg shown]
  by_cases enabled : s.cursorEnabled = 0
  · rw [if_pos enabled]
    exact ⟨rfl, rfl⟩
  · rw [if_neg enabled]
    exact ⟨rfl, rfl⟩

theorem updateCursor_position (column : s.cursorX.toNat < 80) (visible : s.screenY < 25) :
    256 * (s.updateCursor.crtc.regs 0x0E).toNat + (s.updateCursor.crtc.regs 0x0F).toNat =
      80 * s.screenY.toNat + s.cursorX.toNat := by
  obtain ⟨high, low⟩ := updateCursor_bytes visible
  have row : s.screenY.toNat < 25 := visible
  have index : (s.screenY * 80 + s.screenX.toUInt32).toNat =
      80 * s.screenY.toNat + s.cursorX.toNat := by
    rw [UInt32.mul_comm]
    exact toNat_cursorIndex (by omega)
  rw [high, low, position_bytes, UInt32.toNat_toUInt16, index]
  omega

/-- `update_cursor` brings the hardware up to date, whatever it showed before. -/
theorem updateCursor_shown (toggled : s.Toggled boot) (column : s.cursorX.toNat < 80) :
    s.updateCursor.Shown boot := by
  have enabled := updateCursor_enabled toggled.flag
  have register := updateCursor_register toggled
  have position := updateCursor_position (s := s) column
  by_cases visible : s.screenY < 25
  · rw [if_pos visible] at enabled register
    refine ⟨⟨.inr enabled, ?_⟩, ?_, ?_⟩
    · rw [register, enabled]
      rfl
    · simp [enabled, visible]
    · simpa using position
  · rw [if_neg visible] at enabled register
    refine ⟨⟨.inl enabled, ?_⟩, ?_, ?_⟩
    · rw [register, enabled]
      rfl
    · simp [enabled, visible]
    · simpa using position

/-! ## Operations -/

/-- Only the registers, the flag and the place of the cursor matter. -/
theorem Shown.congr {t : Console} (shown : s.Shown boot) (crtc : t.crtc = s.crtc)
    (flag : t.cursorEnabled = s.cursorEnabled) (x : t.cursorX = s.cursorX)
    (y : t.screenY = s.screenY) : t.Shown boot := by
  obtain ⟨⟨either, register⟩, enabled, position⟩ := shown
  refine ⟨⟨by rwa [flag], by rwa [crtc, flag]⟩, by rwa [flag, y], ?_⟩
  rwa [crtc, x, y]

theorem moveWindow_shown (offset : Int32) (toggled : s.Toggled boot)
    (column : s.cursorX.toNat < 80) : (s.moveWindow offset).Shown boot :=
  updateCursor_shown ⟨toggled.flag, toggled.register⟩ column

/-- The early returns of `scroll` skip `update_cursor`, but they have moved nothing. -/
theorem scroll_shown (offset : Int32) (shown : s.Shown boot) (column : s.cursorX.toNat < 80) :
    (s.scroll offset).Shown boot := by
  rcases scroll_cases offset s with h | ⟨by', h⟩
  · rwa [h]
  · rw [h]
    exact moveWindow_shown by' shown.toToggled column

/-- At the end of `putc` the cursor has moved already. When it is out of the window the
`scroll` there takes none of its early returns. -/
theorem follow_shown (toggled : s.Toggled boot) (column : s.cursorX.toNat < 80)
    (row : s.cursorY.toNat < 2 ^ 31) (rows : s.screenOffset.toNat < 2 ^ 31) :
    s.follow.Shown boot := by
  have visibility := screenY_lt_iff row rows
  have target := follow_screenOffset row rows
  by_cases hidden : s.screenY ≥ 25
  · have offScreen : ¬s.Visible := fun h => UInt32.not_lt.mpr hidden (visibility.mpr h)
    rw [if_neg offScreen] at target
    rw [follow, if_pos hidden] at target ⊢
    rcases scroll_cases (s.screenY - 25 + 1).toInt32 s with h | ⟨by', h⟩
    · -- An early return would leave the window where the cursor is not in it.
      rw [h] at target
      have onScreen : s.Visible := by
        rw [Visible]
        omega
      exact absurd onScreen offScreen
    · rw [h]
      exact moveWindow_shown by' toggled column
  · rw [follow, if_neg hidden]
    exact updateCursor_shown toggled column

theorem Pending.follow_shown (pending : s.Pending) (toggled : s.Toggled boot) :
    s.follow.Shown boot := by
  have row := pending.row
  have near := pending.near
  have small := lastRow_small
  exact Console.follow_shown toggled pending.column (by omega) (by omega)

theorem stepBack_toggled (toggled : s.Toggled boot) : s.stepBack.Toggled boot := by
  obtain ⟨flag, register⟩ := toggled
  unfold stepBack
  split <;> exact ⟨flag, register⟩

theorem putc_shown (c : UInt8) (inStep : s.InStep) (allowed : PutcAllowed c s)
    (shown : s.Shown boot) : (s.putc c).Shown boot := by
  have row' := allowed.2
  have toggled := shown.toToggled
  by_cases line : c = newline ∨ c = carriageReturn
  · rw [putc_newline s line] at row' ⊢
    rw [follow_cursorY] at row'
    exact (newRow_pending inStep row').follow_shown ⟨toggled.flag, toggled.register⟩
  · by_cases back : c = backspace
    · subst back
      rw [putc_backspace] at row' ⊢
      rw [follow_cursorY, putAtCursor_cursorY] at row'
      have stepped := stepBack_toggled toggled
      exact (erase_pending inStep (pos_pos_of_allowed allowed) row').follow_shown
        ⟨stepped.flag, stepped.register⟩
    · rw [putc_char s line back] at row' ⊢
      rw [follow_cursorY] at row'
      exact (write_pending c inStep row').follow_shown ⟨toggled.flag, toggled.register⟩

theorem clear_shown (toggled : s.Toggled boot) : s.clear.Shown boot := by
  have home : Shown boot
      (updateCursor { s with cursorX := 0, cursorY := s.cursorY + 1, screenOffset := s.cursorY + 1 }) :=
    updateCursor_shown ⟨toggled.flag, toggled.register⟩ (by simp)
  exact home.congr rfl rfl rfl rfl

theorem updateColor_shown (shown : s.Shown boot) (column : s.cursorX.toNat < 80) :
    s.updateColor.Shown boot :=
  scroll_shown 0 (shown.congr rfl rfl rfl rfl) column

/-- `screen_init` takes the cursor to be enabled, which is right when bit 5 was clear. -/
theorem screenInit_shown (s : Console) : s.screenInit.Shown (s.crtc.regs 0x0A) := by
  have home : Shown (s.crtc.regs 0x0A) (updateCursor
      { s with cursorX := 0, cursorY := 0, screenOffset := 0, cursorEnabled := 1 }) :=
    updateCursor_shown ⟨.inr rfl, by simp⟩ (by simp)
  exact home.congr rfl rfl rfl rfl

theorem exec_shown (op : Op) (s : Console) (allowed : Allowed op s)
    (state : s.InStep ∧ s.Shown boot) : (exec op s).InStep ∧ (exec op s).Shown boot := by
  obtain ⟨inStep, shown⟩ := state
  refine ⟨exec_inStep op s allowed inStep, ?_⟩
  cases op with
  | putc c => exact putc_shown c inStep allowed shown
  | puts str =>
    change (s.puts str).2.Shown boot
    rw [puts_eq_run]
    refine (allowed.invariant (fun s => s.InStep ∧ s.Shown boot) ?_ ⟨inStep, shown⟩).2
    rintro c s ok ⟨inStep, shown⟩
    exact ⟨(putc_inStep c inStep ok).1, putc_shown c inStep ok shown⟩
  | clear => exact clear_shown shown.toToggled
  | scroll offset => exact scroll_shown offset shown inStep.column
  | fontColor => exact updateColor_shown (shown.congr rfl rfl rfl rfl) inStep.column
  | backgroundColor => exact updateColor_shown (shown.congr rfl rfl rfl rfl) inStep.column

/-- Adding 0x20 to a byte whose bit 5 is clear sets that bit and no other. -/
theorem add_bit5 {a : UInt8} (clear : a &&& 0x20 = 0) :
    (a + 0x20) &&& 0x20 ≠ 0 ∧ (a + 0x20) &&& 0xDF = a &&& 0xDF := by
  have table : ∀ n < 256, UInt8.ofNat n &&& 0x20 = 0 → (UInt8.ofNat n + 0x20) &&& 0x20 ≠ 0 ∧
      (UInt8.ofNat n + 0x20) &&& 0xDF = UInt8.ofNat n &&& 0xDF := by decide +kernel
  have entry := table a.toNat a.toNat_lt
  rw [UInt8.ofNat_toNat] at entry
  exact entry clear

/-- After every operation of an allowed run the hardware cursor is enabled exactly when the
cursor is on screen, bit 5 of register 0x0A says so and its other bits are those of boot, and
a cursor on screen is shown where it is. -/
theorem hardware_cursor_agrees (s : Console) (ops : List Op) (clear : s.crtc.regs 0x0A &&& 0x20 = 0)
    (allowed : Along exec Allowed ops s.screenInit) :
    let now := run exec ops s.screenInit
    (now.cursorEnabled = 1 ↔ now.cursorY - now.screenOffset < 25) ∧
    (now.crtc.regs 0x0A &&& 0x20 ≠ 0 ↔ now.cursorEnabled = 0) ∧
    now.crtc.regs 0x0A &&& 0xDF = s.crtc.regs 0x0A &&& 0xDF ∧
    (now.cursorY - now.screenOffset < 25 →
      256 * (now.crtc.regs 0x0E).toNat + (now.crtc.regs 0x0F).toNat =
        80 * (now.cursorY - now.screenOffset).toNat + now.cursorX.toNat ∧
      80 * (now.cursorY - now.screenOffset).toNat + now.cursorX.toNat < 2000) := by
  intro now
  obtain ⟨inStep, ⟨flag, register⟩, enabled, position⟩ :
      now.InStep ∧ now.Shown (s.crtc.regs 0x0A) :=
    allowed.invariant _ exec_shown ⟨s.screenInit_inStep, s.screenInit_shown⟩
  obtain ⟨set, others⟩ := add_bit5 clear
  refine ⟨enabled, ?_, ?_, fun visible => ⟨position visible, ?_⟩⟩
  · rcases flag with off | on
    · simpa [register, off] using set
    · simp [register, on, clear]
  · rcases flag with off | on
    · simpa [register, off] using others
    · simp [register, on]
  · have column := inStep.column
    have row : (now.cursorY - now.screenOffset).toNat < 25 := visible
    omega

/-- Off screen by a page key, back by a character, cleared and recoloured. -/
theorem hardware_cursor_agrees_session :
    let now := run exec [.putc newline, .clear, .scroll (-12), .putc 65, .clear, .fontColor]
      powerOn.screenInit
    now.cursorEnabled = 1 ↔ now.cursorY - now.screenOffset < 25 :=
  (hardware_cursor_agrees powerOn [.putc newline, .clear, .scroll (-12), .putc 65, .clear,
    .fontColor] (by decide) (by decide)).1

end Console

end Mp3Kernel
