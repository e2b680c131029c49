import Mp3Kernel.Console.Basic

/-!
# The keyboard handler

`keyboard_input` and the file-scope variables of `terminal.c`. The scancode is
any byte, but `chars` and `shift_chars` have 128 entries: what the handler reads
for a larger scancode is whatever lies behind the tables, so it is an argument
of the step. `Handled` says once what a scancode can do; every invariant of the
terminal is a case analysis over it.
-/

namespace Mp3Kernel

open Library

/-- The file-scope variables of `terminal.c`, and the console it prints on. -/
structure Terminal where
  console : Console
  typed : Int → UInt8
  linePos : Int
  enterPressed : Bool
  shift : Bool
  capsLock : Bool
  ctrl : Bool
  reading : Bool

namespace Terminal

/-! ## Keyboard layout -/

def ascii (row : List Char) : List UInt8 := row.map Char.toUInt8

-- 39, 92 and 96 are the quote, the backslash and the backtick.
def chars : List UInt8 :=
  [0, 0] ++ ascii ['1', '2', '3', '4', '5', '6', '7', '8', '9', '0', '-', '='] ++
  [backspace, 0] ++
  ascii ['q', 'w', 'e', 'r', 't', 'y', 'u', 'i', 'o', 'p', '[', ']'] ++ [newline, 0] ++
  ascii ['a', 's', 'd', 'f', 'g', 'h', 'j', 'k', 'l', ';'] ++ [39, 96, 0, 92] ++
  ascii ['z', 'x', 'c', 'v', 'b', 'n', 'm', ',', '.', '/'] ++ [0] ++ ascii ['*'] ++ [0] ++
  ascii [' '] ++ List.replicate 16 0 ++ ascii ['-'] ++ [0, 0, 0] ++ ascii ['+'] ++
  List.replicate 49 0

-- 34, 123, 125 and 126 are the double quote, the braces and the tilde.
def shiftChars : List UInt8 :=
  [0, 0] ++ ascii ['!', '@', '#', '$', '%', '^', '&', '*', '(', ')', '_', '+'] ++
  [backspace, 0] ++
  ascii ['Q', 'W', 'E', 'R', 'T', 'Y', 'U', 'I', 'O', 'P'] ++ [123, 125, newline, 0] ++
  ascii ['A', 'S', 'D', 'F', 'G', 'H', 'J', 'K', 'L', ':'] ++ [34, 126, 0] ++
  ascii ['|', 'Z', 'X', 'C', 'V', 'B', 'N', 'M', '<', '>', '?'] ++ [0] ++ ascii ['*'] ++ [0] ++
  ascii [' '] ++ List.replicate 16 0 ++ ascii ['-'] ++ [0, 0, 0] ++ ascii ['+'] ++
  List.replicate 49 0

example : chars.length = 128 ∧ shiftChars.length = 128 := by decide +kernel

def letterL : UInt8 := 108
def enterKey : UInt8 := 0x1C
def backspaceKey : UInt8 := 0x0E

/-- What the handler reads at index `key`; `beyond` is the memory behind the tables. -/
def kbdData (beyond : UInt8 → UInt8) (key : UInt8) (t : Terminal) : UInt8 :=
  if t.shift || t.capsLock then shiftChars.getD key.toNat (beyond key)
  else chars.getD key.toNat (beyond key)

/-! ## Operations -/

/-- The static variables before `terminal_open`. -/
def powerOn : Terminal where
  console := Console.powerOn
  typed := fun _ => 0
  linePos := 0
  enterPressed := false
  shift := false
  capsLock := false
  ctrl := false
  reading := false

def terminalOpen (t : Terminal) : Terminal :=
  { t with
    console := t.console.screenInit
    linePos := 0
    shift := false
    capsLock := false
    ctrl := false
    reading := false }

/-- The part of `keyboard_input` behind the switch: keys that stand for a character. -/
def characterKey (beyond : UInt8 → UInt8) (key : UInt8) (t : Terminal) : Terminal :=
  let data := kbdData beyond key t
  -- Clear screen on <Ctrl + l>; with Ctrl held nothing else is typed, Enter included.
  if t.ctrl then
    if data = letterL then { t with console := t.console.clear, linePos := 0 } else t
  -- Return if scancode is for key release.
  else if 0x80 &&& key ≠ 0 then t
  else if data = 0 then t
  else if data = backspace then
    -- Don't allow backspacing farther than beginning of typed buffer.
    if t.linePos = 0 then t
    else { t with linePos := t.linePos - 1, console := t.console.putc data }
  else if data = newline then
    { t with
      reading := false
      typed := Function.update t.typed t.linePos newline
      enterPressed := true
      console := t.console.putc data }
  -- The comment here speaks of 1024 characters; the bound is 10.
  else if t.linePos ≥ 10 then t
  else
    { t with
      typed := Function.update t.typed t.linePos data
      linePos := t.linePos + 1
      console := t.console.putc data }

def keyboardInput (beyond : UInt8 → UInt8) (key : UInt8) (t : Terminal) : Terminal :=
  -- Only process keyboard input if read fn. is executing
  if !t.reading then t
  -- Ctrl
  else if key = 0x1D then { t with ctrl := true }
  else if key = 0x9D then { t with ctrl := false }
  -- Up and down arrow, Page Up and Page Down
  else if key = 0x48 then { t with console := t.console.scroll (-1) }
  else if key = 0x50 then { t with console := t.console.scroll 1 }
  else if key = 0x49 then { t with console := t.console.scroll (-12) }
  else if key = 0x51 then { t with console := t.console.scroll 12 }
  else if key = 0x3A then { t with capsLock := !t.capsLock }
  -- Left shift, then right shift: one flag for both
  else if key = 0x2A then { t with shift := true }
  else if key = 0xAA then { t with shift := false }
  else if key = 0x36 then { t with shift := true }
  else if key = 0xB6 then { t with shift := false }
  -- F7 and F8
  else if key = 0x41 then { t with console := t.console.fontColor }
  else if key = 0x42 then { t with console := t.console.backgroundColor }
  else characterKey beyond key t

/-- The console call that `keyboard_input` makes for a scancode, if any. -/
def consoleCall (beyond : UInt8 → UInt8) (key : UInt8) (t : Terminal) : Option Console.Op :=
  let data := kbdData beyond key t
  if !t.reading then none
  else if key ∈ [0x1D, 0x9D, 0x3A, 0x2A, 0xAA, 0x36, 0xB6] then none
  else if key = 0x48 then some (.scroll (-1))
  else if key = 0x50 then some (.scroll 1)
  else if key = 0x49 then some (.scroll (-12))
  else if key = 0x51 then some (.scroll 12)
  else if key = 0x41 then some .fontColor
  else if key = 0x42 then some .backgroundColor
  else if t.ctrl then if data = letterL then some .clear else none
  else if 0x80 &&& key ≠ 0 ∨ data = 0 then none
  else if data = backspace then if t.linePos = 0 then none else some (.putc data)
  else if data ≠ newline ∧ t.linePos ≥ 10 then none
  else some (.putc data)

/-! ## What a scancode can do -/

/-- The scancodes that the switch of `keyboard_input` handles. -/
def switchCodes : List UInt8 :=
  [0x1D, 0x9D, 0x48, 0x50, 0x49, 0x51, 0x3A, 0x2A, 0xAA, 0x36, 0xB6, 0x41, 0x42]

/-- The scancode is an Enter that ends the read. -/
def AcceptsEnter (key : UInt8) (t : Terminal) : Prop :=
  key = enterKey ∧ t.reading = true ∧ t.ctrl = false

instance (key : UInt8) (t : Terminal) : Decidable (AcceptsEnter key t) :=
  inferInstanceAs (Decidable (_ ∧ _))

/-- The console calls of the arrow, page and function keys. -/
def viewCalls : List Console.Op :=
  [.scroll (-1), .scroll 1, .scroll (-12), .scroll 12, .fontColor, .backgroundColor]

/-- `Handled beyond key t call t'`: handling `key` in `t` makes the console call `call`
and leads to `t'`. -/
inductive Handled (beyond : UInt8 → UInt8) (key : UInt8) (t : Terminal) :
    Option Console.Op → Terminal → Prop
  | discarded (idle : t.reading = false) : Handled beyond key t none t
  | control (reading : t.reading = true) (press : Bool)
      (code : key = if press then 0x1D else 0x9D) :
      Handled beyond key t none { t with ctrl := press }
  | shifting (reading : t.reading = true) (press : Bool)
      (code : key ∈ if press then [0x2A, 0x36] else [0xAA, 0xB6]) :
      Handled beyond key t none { t with shift := press }
  | caps (reading : t.reading = true) (code : key = 0x3A) :
      Handled beyond key t none { t with capsLock := !t.capsLock }
  | view (reading : t.reading = true) (call : Console.Op) (member : call ∈ viewCalls)
      (code : key ∈ [0x48, 0x50, 0x49, 0x51, 0x41, 0x42]) :
      Handled beyond key t (some call) { t with console := Console.exec call t.console }
  | clearing (reading : t.reading = true) (ctrl : t.ctrl = true) (character : key ∉ switchCodes)
      (data : kbdData beyond key t = letterL) :
      Handled beyond key t (some .clear) { t with console := t.console.clear, linePos := 0 }
  | inert (reading : t.reading = true) (character : key ∉ switchCodes)
      (refused : key = enterKey → t.ctrl = true) : Handled beyond key t none t
  | erasing (reading : t.reading = true) (ctrl : t.ctrl = false) (code : key = backspaceKey)
      (nonempty : t.linePos ≠ 0) :
      Handled beyond key t (some (.putc backspace))
        { t with linePos := t.linePos - 1, console := t.console.putc backspace }
  | entering (reading : t.reading = true) (ctrl : t.ctrl = false) (code : key = enterKey) :
      Handled beyond key t (some (.putc newline))
        { t with
          reading := false
          typed := Function.update t.typed t.linePos newline
          enterPressed := true
          console := t.console.putc newline }
  | typing (reading : t.reading = true) (ctrl : t.ctrl = false) (character : key ∉ switchCodes)
      (data : UInt8) (translated : kbdData beyond key t = data) (code : key ≠ enterKey)
      (printable : data ≠ newline ∧ data ≠ backspace ∧ data ≠ carriageReturn)
      (room : t.linePos < 10) :
      Handled beyond key t (some (.putc data))
        { t with
          typed := Function.update t.typed t.linePos data
          linePos := t.linePos + 1
          console := t.console.putc data }

/-- Both tables have Enter and Backspace at one place each and no carriage return. -/
def Layout (table : List UInt8) : Prop :=
  table.length = 128 ∧ ∀ i < 128, (table.getD i 0 = newline ↔ i = 0x1C) ∧
    (table.getD i 0 = backspace ↔ i = 0x0E) ∧ table.getD i 0 ≠ carriageReturn

instance (table : List UInt8) : Decidable (Layout table) := inferInstanceAs (Decidable (_ ∧ _))

theorem chars_layout : Layout chars := by decide +kernel

theorem shiftChars_layout : Layout shiftChars := by decide +kernel

theorem release_bit (key : UInt8) : 0x80 &&& key = 0 ↔ key.toNat < 128 := by
  have table : ∀ n < 256, 0x80 &&& UInt8.ofNat n = 0 ↔ n < 128 := by decide +kernel
  have h := table key.toNat key.toNat_lt
  rwa [UInt8.ofNat_toNat] at h

/-- Inside a table the default does not matter. -/
theorem Layout.getD_inside {table : List UInt8} (layout : Layout table) {i : Nat} (inside : i < 128)
    (d d' : UInt8) : table.getD i d = table.getD i d' := by
  have place : i < table.length := by rw [layout.1]; exact inside
  simp only [List.getD_eq_getElem?_getD, List.getElem?_eq_getElem place, Option.getD_some]

theorem Layout.lookup {table : List UInt8} (layout : Layout table) {key : UInt8} (d : UInt8)
    (make : 0x80 &&& key = 0) :
    (table.getD key.toNat d = newline ↔ key = enterKey) ∧
    (table.getD key.toNat d = backspace ↔ key = backspaceKey) ∧
    table.getD key.toNat d ≠ carriageReturn := by
  have bound := (release_bit key).mp make
  rw [layout.getD_inside bound d 0, ← UInt8.toNat_inj (b := enterKey), ← UInt8.toNat_inj (b := backspaceKey)]
  exact layout.2 key.toNat bound

/-- For a key that is pressed, the translation is Enter or Backspace exactly for those keys. -/
theorem kbdData_make (beyond : UInt8 → UInt8) {key : UInt8} (t : Terminal)
    (make : 0x80 &&& key = 0) :
    (kbdData beyond key t = newline ↔ key = enterKey) ∧
    (kbdData beyond key t = backspace ↔ key = backspaceKey) ∧
    kbdData beyond key t ≠ carriageReturn := by
  unfold kbdData
  split
  · exact shiftChars_layout.lookup (beyond key) make
  · exact chars_layout.lookup (beyond key) make

theorem keyboardInput_character (beyond : UInt8 → UInt8) {key : UInt8} {t : Terminal}
    (reading : t.reading = true) (character : key ∉ switchCodes) :
    keyboardInput beyond key t = characterKey beyond key t := by
  simp only [switchCodes, List.mem_cons, List.not_mem_nil, or_false, not_or] at character
  simp only [keyboardInput, reading, character, Bool.not_true, Bool.false_eq_true, if_false]

theorem characterKey_handled (beyond : UInt8 → UInt8) {key : UInt8} {t : Terminal}
    (reading : t.reading = true) (character : key ∉ switchCodes) :
    Handled beyond key t (consoleCall beyond key t) (characterKey beyond key t) := by
  have call : consoleCall beyond key t =
      if t.ctrl then if kbdData beyond key t = letterL then some .clear else none
      else if 0x80 &&& key ≠ 0 ∨ kbdData beyond key t = 0 then none
      else if kbdData beyond key t = backspace then
        if t.linePos = 0 then none else some (.putc (kbdData beyond key t))
      else if kbdData beyond key t ≠ newline ∧ t.linePos ≥ 10 then none
      else some (.putc (kbdData beyond key t)) := by
    simp only [switchCodes, List.mem_cons, List.not_mem_nil, or_false, not_or] at character
    simp [consoleCall, reading, character]
  -- `call` and `characterKey` now test the same conditions, one after the other.
  rw [call, characterKey]
  cases ctrl : t.ctrl with
  | true =>
    by_cases data : kbdData beyond key t = letterL
    · simpa [data, ctrl] using Handled.clearing reading ctrl character data
    · simpa [data] using Handled.inert reading character fun _ => ctrl
  | false =>
    by_cases make : 0x80 &&& key = 0
    · obtain ⟨isEnter, isBack, noReturn⟩ := kbdData_make beyond t make
      have positive : newline ≠ 0 ∧ newline ≠ backspace ∧ backspace ≠ 0 := by decide
      by_cases enter : kbdData beyond key t = newline
      · simpa [enter, make, positive, ctrl] using
          Handled.entering reading ctrl (isEnter.mp enter)
      · have other : key ≠ enterKey := mt isEnter.mpr enter
        by_cases void : kbdData beyond key t = 0
        · simpa [void] using Handled.inert reading character fun h => absurd h other
        · by_cases back : kbdData beyond key t = backspace
          · by_cases empty : t.linePos = 0
            · simpa [back, empty, make] using Handled.inert reading character fun h => absurd h other
            · simpa [back, empty, make, positive, ctrl] using
                Handled.erasing reading ctrl (isBack.mp back) empty
          · by_cases full : t.linePos ≥ 10
            · simpa [void, back, enter, full, make] using
                Handled.inert reading character fun h => absurd h other
            · simpa [void, back, enter, full, make, ctrl] using
                Handled.typing reading ctrl character _ rfl other ⟨enter, back, noReturn⟩ (by omega)
    · -- A release code; whatever the handler read behind the tables is dropped.
      have other : key ≠ enterKey := fun h => make (by subst h; decide)
      simpa [make] using Handled.inert reading character fun h => absurd h other

/-- Every scancode is handled in one of the ways of `Handled`. -/
theorem keyboardInput_handled (beyond : UInt8 → UInt8) (key : UInt8) (t : Terminal) :
    Handled beyond key t (consoleCall beyond key t) (keyboardInput beyond key t) := by
  cases reading : t.reading with
  | false => simpa [keyboardInput, consoleCall, reading] using Handled.discarded reading
  | true =>
    by_cases character : key ∉ switchCodes
    · rw [keyboardInput_character beyond reading character]
      exact characterKey_handled beyond reading character
    · simp only [switchCodes, List.mem_cons, List.not_mem_nil, or_false, not_not] at character
      -- One case for each label of the switch, in its order.
      rcases character with rfl | rfl | rfl | rfl | rfl | rfl | rfl | rfl | rfl | rfl | rfl | rfl | rfl
      · simpa [keyboardInput, consoleCall, reading] using Handled.control reading true rfl
      · simpa [keyboardInput, consoleCall, reading] using Handled.control reading false rfl
      · simpa [keyboardInput, consoleCall, Console.exec, reading] using
          Handled.view reading (.scroll (-1)) (by decide) (by decide)
      · simpa [keyboardInput, consoleCall, Console.exec, reading] using
          Handled.view reading (.scroll 1) (by decide) (by decide)
      · simpa [keyboardInput, consoleCall, Console.exec, reading] using
          Handled.view reading (.scroll (-12)) (by decide) (by decide)
      · simpa [keyboardInput, consoleCall, Console.exec, reading] using
          Handled.view reading (.scroll 12) (by decide) (by decide)
      · simpa [keyboardInput, consoleCall, reading] using Handled.caps reading rfl
      · simpa [keyboardInput, consoleCall, reading] using Handled.shifting reading true (by decide)
      · simpa [keyboardInput, consoleCall, reading] using Handled.shifting reading false (by decide)
      · simpa [keyboardInput, consoleCall, reading] using Handled.shifting reading true (by decide)
      · simpa [keyboardInput, consoleCall, reading] using Handled.shifting reading false (by decide)
      · simpa [keyboardInput, consoleCall, Console.exec, reading] using
          Handled.view reading .fontColor (by decide) (by decide)
      · simpa [keyboardInput, consoleCall, Console.exec, reading] using
          Handled.view reading .backgroundColor (by decide) (by decide)

/-- An accepted Enter ends the read; no other scancode touches the two flags of the
handshake. -/
theorem keyboardInput_flags (beyond : UInt8 → UInt8) (key : UInt8) (t : Terminal) :
    (AcceptsEnter key t ∧ (keyboardInput beyond key t).reading = false ∧
      (keyboardInput beyond key t).enterPressed = true) ∨
    (¬AcceptsEnter key t ∧ (keyboardInput beyond key t).reading = t.reading ∧
      (keyboardInput beyond key t).enterPressed = t.enterPressed) := by
  have handled := keyboardInput_handled beyond key t
  generalize consoleCall beyond key t = call at handled
  generalize keyboardInput beyond key t = t' at handled
  cases handled with
  | entering reading ctrl code => exact .inl ⟨⟨code, reading, ctrl⟩, rfl, rfl⟩
  | discarded idle => exact .inr ⟨fun h => by simp [h.2.1] at idle, rfl, rfl⟩
  | clearing _ ctrl => exact .inr ⟨fun h => by simp [h.2.2] at ctrl, rfl, rfl⟩
  | inert _ _ refused => exact .inr ⟨fun h => by simp [h.2.2] at refused; exact refused h.1, rfl, rfl⟩
  | typing _ _ _ _ _ code => exact .inr ⟨fun h => code h.1, rfl, rfl⟩
  | control _ press code =>
    refine .inr ⟨fun h => ?_, rfl, rfl⟩
    cases press <;> simp [h.1, enterKey] at code
  | shifting _ press code =>
    refine .inr ⟨fun h => ?_, rfl, rfl⟩
    cases press <;> simp [h.1, enterKey] at code
  | caps _ code | erasing _ _ code | view _ _ _ code =>
    exact .inr ⟨fun h => by simp [h.1, enterKey, backspaceKey] at code, rfl, rfl⟩

end Terminal

end Mp3Kernel
