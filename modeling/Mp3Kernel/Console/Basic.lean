import Mp3Kernel.Library.Cells
import Mp3Kernel.Library.Text

/-!
# The console of `lib.c`

The file-scope variables of `lib.c` are the fields of `Console`; displayed video
memory (at `VIDEO`) and saved video memory (from `SAVED_VIDEO` up to the kernel
image at 0x400000) are two ranges of one flat memory. Every function below
follows the C function of the same name, with the widths of its variables.
-/

namespace Mp3Kernel

open Library

/-! ## Constants -/

/-- `VIDEO`, the value of `video_mem`. -/
def videoMem : UInt32 := 0xB8000

/-- `SAVED_VIDEO`, the value of `saved_video_mem`. -/
def savedVideoMem : UInt32 := 0x100000

/-- `NUM_ROWS*NUM_COLS`. -/
def screenCells : Nat := 25 * 80

/-- `(0x400000-SAVED_VIDEO)/2`. -/
def savedCells : Nat := (0x400000 - 0x100000) / 2

def carriageReturn : UInt8 := 0x0D

def backspace : UInt8 := 0x08

/-- The static variables of `lib.c`, the VGA CRT controller behind ports 0x3D4 and
0x3D5, and memory. -/
structure Console where
  attrib : UInt8
  cursorX : UInt8
  cursorY : UInt32
  screenOffset : UInt32
  cursorEnabled : UInt8
  crtc : RegisterFile UInt8
  mem : Memory

namespace Console

/-- Zeroed variables, registers and memory, as before `screen_init`. -/
def powerOn : Console where
  attrib := 0
  cursorX := 0
  cursorY := 0
  screenOffset := 0
  cursorEnabled := 0
  crtc := ⟨0, fun _ => 0⟩
  mem := ⟨fun _ => 0, []⟩

/-! ## Cursor -/

def screenX (s : Console) : UInt8 := s.cursorX

/-- Wraps around when the cursor is above the window. -/
def screenY (s : Console) : UInt32 := s.cursorY - s.screenOffset

def updateCursor (s : Console) : Console :=
  -- Checks if cursor is offscreen.
  if s.screenY ≥ 25 then
    -- Bit 5 of register 0x0A hides the cursor; the code adds it instead of setting it.
    if s.cursorEnabled ≠ 0 then
      let crtc := s.crtc.select 0x0A
      let curCSR := crtc.read
      { s with crtc := crtc.write (curCSR + 0x20), cursorEnabled := 0 }
    else s
  else
    -- Cursor is on screen, check if it needs to be turned on.
    let s :=
      if s.cursorEnabled = 0 then
        let crtc := s.crtc.select 0x0A
        let curCSR := crtc.read
        { s with crtc := crtc.write (curCSR - 0x20), cursorEnabled := 1 }
      else s
    -- The position is an `unsigned short`, its low byte behind 0x0F and its high byte behind 0x0E.
    let position : UInt16 := (s.screenY * 80 + s.screenX.toUInt32).toUInt16
    let low := (s.crtc.select 0x0F).write (position &&& 0xFF).toUInt8
    { s with crtc := (low.select 0x0E).write ((position >>> 8) &&& 0xFF).toUInt8 }

/-! ## Initialisation, clearing and scrolling -/

def screenInit (s : Console) : Console :=
  let s := { s with cursorX := 0, cursorY := 0, screenOffset := 0, cursorEnabled := 1 }
  let s := s.updateCursor
  -- Green on black.
  let s := { s with attrib := 0x2 }
  let blank (base : UInt32) (i : Nat) (m : Memory) : Memory :=
    m.storeCell base (UInt32.ofNat i) space s.attrib
  let mem := forLoop (blank videoMem) screenCells s.mem
  { s with mem := forLoop (blank savedVideoMem) savedCells mem }

def clear (s : Console) : Console :=
  let s := { s with cursorX := 0, cursorY := s.cursorY + 1 }
  -- Moves all saved video memory off screen.
  let s := { s with screenOffset := s.cursorY }
  let s := s.updateCursor
  -- Clears video memory and reflects this in saved video memory.
  let blank (i : Nat) (m : Memory) : Memory :=
    (m.storeCell videoMem (UInt32.ofNat i) space s.attrib).storeCell savedVideoMem
      (80 * s.screenOffset + UInt32.ofNat i) space s.attrib
  { s with mem := forLoop blank screenCells s.mem }

/-- The part of `scroll` after its guards: move the window and redraw it from the
saved rows. -/
def moveWindow (offset : Int32) (s : Console) : Console :=
  let s := { s with screenOffset := s.screenOffset + offset.toUInt32 }
  let redraw (i : Nat) (m : Memory) : Memory :=
    m.copyCell videoMem (UInt32.ofNat i) savedVideoMem (80 * s.screenOffset + UInt32.ofNat i)
  let s := { s with mem := forLoop redraw screenCells s.mem }
  s.updateCursor

def scroll (offset : Int32) (s : Console) : Console :=
  -- Prevents scrolling above saved video memory.
  if offset + s.screenOffset.toInt32 < 0 then
    -- At an end already, the code returns without a redraw.
    if s.screenOffset = 0 then s
    else s.moveWindow (0 - s.screenOffset.toInt32)
  -- Prevents scrolling below cursor. The sum is converted to unsigned for the comparison.
  else if (s.screenOffset.toInt32 + offset).toUInt32 > s.cursorY then
    if s.screenOffset = s.cursorY then s
    else s.moveWindow (s.cursorY - s.screenOffset).toInt32
  else s.moveWindow offset

/-! ## Colours -/

def updateColor (s : Console) : Console :=
  let recolour (i : Nat) (m : Memory) : Memory :=
    m.storeAttr savedVideoMem (UInt32.ofNat i) s.attrib
  let s := { s with mem := forLoop recolour savedCells s.mem }
  -- Displayed video memory gets the new colours from the saved rows.
  s.scroll 0

def fontColor (s : Console) : Console :=
  let color : UInt8 := s.attrib &&& 0x7
  let color := (color + 1) % 0x8
  let s := { s with attrib := s.attrib &&& 0xF8 }
  updateColor { s with attrib := s.attrib + color }

def backgroundColor (s : Console) : Console :=
  let color : UInt8 := (s.attrib &&& 0x70) >>> 4
  let color := (color + 1) % 0x8
  let s := { s with attrib := s.attrib &&& 0x8F }
  updateColor { s with attrib := s.attrib + color <<< 4 }

/-! ## Output -/

/-- The stores that `putc` makes at the cursor, for a character and for the space of
a backspace: on screen when the cursor is in the window, and in the saved rows. -/
def putAtCursor (c : UInt8) (s : Console) : Console :=
  let mem :=
    if s.screenY < 25 then
      s.mem.storeCell videoMem (80 * s.screenY + s.screenX.toUInt32) c s.attrib
    else s.mem
  { s with mem := mem.storeCell savedVideoMem (80 * s.cursorY + s.cursorX.toUInt32) c s.attrib }

def stepBack (s : Console) : Console :=
  -- From column 0 to the end of the previous row, also from row 0.
  if s.cursorX = 0 then { s with cursorY := s.cursorY - 1, cursorX := 80 - 1 }
  else { s with cursorX := s.cursorX - 1 }

def stepForward (s : Console) : Console :=
  let s := { s with cursorX := s.cursorX + 1 }
  let s := { s with cursorY := s.cursorY + (s.cursorX / 80).toUInt32 }
  { s with cursorX := s.cursorX % 80 }

/-- The end of `putc`: bring the cursor back on screen. -/
def follow (s : Console) : Console :=
  -- The sum is unsigned, and becomes negative when the cursor is above the window.
  if s.screenY ≥ 25 then s.scroll (s.screenY - 25 + 1).toInt32
  else s.updateCursor

def putc (c : UInt8) (s : Console) : Console :=
  if c = newline ∨ c = carriageReturn then
    follow { s with cursorY := s.cursorY + 1, cursorX := 0 }
  else if c = backspace then
    (s.stepBack.putAtCursor space).follow
  else
    (s.putAtCursor c).stepForward.follow

/-- The bytes of `str` up to its terminating NUL, and their number. -/
def puts : List UInt8 → Console → Nat × Console
  | [], s => (0, s)
  | c :: cs, s =>
    if c = 0 then (0, s)
    else
      let (index, s) := puts cs (s.putc c)
      (index + 1, s)

/-! ## Operations as data -/

/-- The calls other modules make into the console. -/
inductive Op where
  | putc (c : UInt8)
  | puts (str : List UInt8)
  | clear
  | scroll (offset : Int32)
  | fontColor
  | backgroundColor
  deriving DecidableEq, Repr

def exec : Op → Console → Console
  | .putc c, s => s.putc c
  | .puts str, s => (s.puts str).2
  | .clear, s => s.clear
  | .scroll offset, s => s.scroll offset
  | .fontColor, s => s.fontColor
  | .backgroundColor, s => s.backgroundColor

/-- The linear cursor position `80*cursor_y + cursor_x`. -/
def pos (s : Console) : Nat := 80 * s.cursorY.toNat + s.cursorX.toNat

/-- Cell `i` of displayed video memory. -/
def display (s : Console) (i : Nat) : Cell := s.mem.cell videoMem i

/-- Cell `i` of saved video memory. -/
def saved (s : Console) (i : Nat) : Cell := s.mem.cell savedVideoMem i

/-! ## Frame facts -/

/-- `update_cursor` reaches the CRT controller and `cursor_enabled` only. -/
theorem updateCursor_eq (s : Console) :
    ∃ enabled crtc, s.updateCursor = { s with cursorEnabled := enabled, crtc := crtc } := by
  unfold updateCursor
  split <;> split <;> exact ⟨_, _, rfl⟩

@[simp] theorem updateCursor_attrib (s : Console) : s.updateCursor.attrib = s.attrib := by
  obtain ⟨_, _, h⟩ := s.updateCursor_eq
  rw [h]

@[simp] theorem updateCursor_cursorX (s : Console) : s.updateCursor.cursorX = s.cursorX := by
  obtain ⟨_, _, h⟩ := s.updateCursor_eq
  rw [h]

@[simp] theorem updateCursor_cursorY (s : Console) : s.updateCursor.cursorY = s.cursorY := by
  obtain ⟨_, _, h⟩ := s.updateCursor_eq
  rw [h]

@[simp] theorem updateCursor_screenOffset (s : Console) :
    s.updateCursor.screenOffset = s.screenOffset := by
  obtain ⟨_, _, h⟩ := s.updateCursor_eq
  rw [h]

@[simp] theorem updateCursor_mem (s : Console) : s.updateCursor.mem = s.mem := by
  obtain ⟨_, _, h⟩ := s.updateCursor_eq
  rw [h]

@[simp] theorem moveWindow_attrib (offset : Int32) (s : Console) :
    (s.moveWindow offset).attrib = s.attrib := by simp [moveWindow]

@[simp] theorem moveWindow_cursorX (offset : Int32) (s : Console) :
    (s.moveWindow offset).cursorX = s.cursorX := by simp [moveWindow]

@[simp] theorem moveWindow_cursorY (offset : Int32) (s : Console) :
    (s.moveWindow offset).cursorY = s.cursorY := by simp [moveWindow]

@[simp] theorem moveWindow_screenOffset (offset : Int32) (s : Console) :
    (s.moveWindow offset).screenOffset = s.screenOffset + offset.toUInt32 := by simp [moveWindow]

/-- Every path through `scroll` leaves the console alone or moves the window. -/
theorem scroll_cases (offset : Int32) (s : Console) :
    s.scroll offset = s ∨ ∃ by', s.scroll offset = s.moveWindow by' := by
  unfold scroll
  split
  · -- above the first saved row
    split
    · exact .inl rfl
    · exact .inr ⟨_, rfl⟩
  · split
    · -- below the cursor
      split
      · exact .inl rfl
      · exact .inr ⟨_, rfl⟩
    · exact .inr ⟨_, rfl⟩

@[simp] theorem scroll_attrib (offset : Int32) (s : Console) :
    (s.scroll offset).attrib = s.attrib := by
  rcases scroll_cases offset s with h | ⟨_, h⟩ <;> simp [h]

@[simp] theorem scroll_cursorX (offset : Int32) (s : Console) :
    (s.scroll offset).cursorX = s.cursorX := by
  rcases scroll_cases offset s with h | ⟨_, h⟩ <;> simp [h]

@[simp] theorem scroll_cursorY (offset : Int32) (s : Console) :
    (s.scroll offset).cursorY = s.cursorY := by
  rcases scroll_cases offset s with h | ⟨_, h⟩ <;> simp [h]

@[simp] theorem follow_attrib (s : Console) : s.follow.attrib = s.attrib := by
  unfold follow; split <;> simp

@[simp] theorem follow_cursorX (s : Console) : s.follow.cursorX = s.cursorX := by
  unfold follow; split <;> simp

@[simp] theorem follow_cursorY (s : Console) : s.follow.cursorY = s.cursorY := by
  unfold follow; split <;> simp

@[simp] theorem putAtCursor_attrib (c : UInt8) (s : Console) :
    (s.putAtCursor c).attrib = s.attrib := rfl

@[simp] theorem putAtCursor_cursorY (c : UInt8) (s : Console) :
    (s.putAtCursor c).cursorY = s.cursorY := rfl

@[simp] theorem putAtCursor_screenOffset (c : UInt8) (s : Console) :
    (s.putAtCursor c).screenOffset = s.screenOffset := rfl

@[simp] theorem putAtCursor_pos (c : UInt8) (s : Console) : (s.putAtCursor c).pos = s.pos := rfl

@[simp] theorem stepForward_mem (s : Console) : s.stepForward.mem = s.mem := rfl

@[simp] theorem stepBack_attrib (s : Console) : s.stepBack.attrib = s.attrib := by
  unfold stepBack; split <;> rfl

@[simp] theorem stepBack_screenOffset (s : Console) : s.stepBack.screenOffset = s.screenOffset := by
  unfold stepBack; split <;> rfl

@[simp] theorem stepBack_mem (s : Console) : s.stepBack.mem = s.mem := by
  unfold stepBack; split <;> rfl

@[simp] theorem follow_pos (s : Console) : s.follow.pos = s.pos := by simp [pos]

@[simp] theorem scroll_pos (offset : Int32) (s : Console) : (s.scroll offset).pos = s.pos := by
  simp [pos]

/-! ## The cases of `putc` -/

theorem putc_newline {c : UInt8} (s : Console) (h : c = newline ∨ c = carriageReturn) :
    s.putc c = follow { s with cursorY := s.cursorY + 1, cursorX := 0 } := by
  rw [putc, if_pos h]

theorem putc_backspace (s : Console) :
    s.putc backspace = (s.stepBack.putAtCursor space).follow := by
  rw [putc, if_neg (by decide), if_pos rfl]

theorem putc_char {c : UInt8} (s : Console) (h : ¬(c = newline ∨ c = carriageReturn))
    (h' : c ≠ backspace) : s.putc c = (s.putAtCursor c).stepForward.follow := by
  rw [putc, if_neg h, if_neg h']

end Console

end Mp3Kernel
