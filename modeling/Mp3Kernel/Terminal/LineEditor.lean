import Mp3Kernel.Terminal.Modifiers
import Mp3Kernel.Terminal.Editing

/-!
# The line editor

`Editor` says what editing a line means, with no buffer and no interrupts: a list
of characters and the flags of the modifier keys. The handler keeps a position in
`typed`, which still holds what was erased and what earlier reads left; it agrees
with the editor as long as the codes are those of keys being pressed, and of Ctrl
and Shift being released.
-/

namespace Mp3Kernel

open Library

/-! ## The reference -/

/-- A line under edit. -/
structure Editor where
  line : List UInt8
  shift : Bool
  capsLock : Bool
  ctrl : Bool
  finished : Bool
  deriving DecidableEq, Repr

namespace Editor

open Terminal (letterL chars shiftChars)

/-- The character of a key. -/
def translate (key : UInt8) (e : Editor) : UInt8 :=
  if e.shift || e.capsLock then shiftChars.getD key.toNat 0 else chars.getD key.toNat 0

/-- A key that stands for a character, or for none. -/
def character (c : UInt8) (e : Editor) : Editor :=
  if e.ctrl then if c = letterL then { e with line := [] } else e
  else if c = 0 then e
  else if c = backspace then { e with line := e.line.dropLast }
  else if c = newline then { e with finished := true }
  else if e.line.length < 10 then { e with line := e.line ++ [c] }
  else e

/-- One scancode; the editor takes none after the Enter that finishes the line. -/
def press (key : UInt8) (e : Editor) : Editor :=
  if e.finished then e
  else if key = 0x1D then { e with ctrl := true }
  else if key = 0x9D then { e with ctrl := false }
  else if key ∈ [0x2A, 0x36] then { e with shift := true }
  else if key ∈ [0xAA, 0xB6] then { e with shift := false }
  else if key = 0x3A then { e with capsLock := !e.capsLock }
  -- Arrows, page keys, F7 and F8
  else if key ∈ [0x48, 0x50, 0x49, 0x51, 0x41, 0x42] then e
  else e.character (e.translate key)

/-- The empty line, with the flags of the terminal. -/
def started (t : Terminal) : Editor := ⟨[], t.shift, t.capsLock, t.ctrl, false⟩

end Editor

namespace Terminal

variable {beyond : UInt8 → UInt8} {key : UInt8} {t : Terminal} {e : Editor}

/-- A key that is pressed, or Ctrl or Shift that is released. -/
def EditCode (key : UInt8) : Prop := key < 0x80 ∨ key ∈ [0x9D, 0xAA, 0xB6]

instance (key : UInt8) : Decidable (EditCode key) := inferInstanceAs (Decidable (_ ∨ _))

/-- The terminal shows the editor's line to its reader. -/
structure Mirrors (t : Terminal) (e : Editor) : Prop where
  sound : t.LineSound
  line : t.line = e.line
  shift : t.shift = e.shift
  capsLock : t.capsLock = e.capsLock
  ctrl : t.ctrl = e.ctrl
  reading : t.reading = !e.finished
  enter : t.enterPressed = e.finished
  ended : e.finished = true → t.typed t.linePos = newline

theorem Mirrors.length (mirrors : t.Mirrors e) : (e.line.length : Int) = t.linePos := by
  have nonneg := mirrors.sound.nonneg
  rw [← mirrors.line, length_line]
  omega

theorem Mirrors.kbdData_eq (mirrors : t.Mirrors e) (make : 0x80 &&& key = 0) :
    kbdData beyond key t = e.translate key := by
  have inside := (release_bit key).mp make
  rw [kbdData, Editor.translate, mirrors.shift, mirrors.capsLock,
    shiftChars_layout.getD_inside inside (beyond key) 0, chars_layout.getD_inside inside (beyond key) 0]

/-! ## One scancode -/

theorem Mirrors.unfinished (mirrors : t.Mirrors e) (reading : t.reading = true) : e.finished = false := by
  rw [mirrors.reading] at reading
  simpa using reading

theorem Mirrors.setCtrl (mirrors : t.Mirrors e) (held : Bool) :
    Mirrors { t with ctrl := held } { e with ctrl := held } :=
  ⟨⟨mirrors.sound.nonneg, mirrors.sound.room, mirrors.sound.noNewline⟩, mirrors.line, mirrors.shift,
    mirrors.capsLock, rfl, mirrors.reading, mirrors.enter, mirrors.ended⟩

theorem Mirrors.setShift (mirrors : t.Mirrors e) (held : Bool) :
    Mirrors { t with shift := held } { e with shift := held } :=
  ⟨⟨mirrors.sound.nonneg, mirrors.sound.room, mirrors.sound.noNewline⟩, mirrors.line, rfl,
    mirrors.capsLock, mirrors.ctrl, mirrors.reading, mirrors.enter, mirrors.ended⟩

theorem Mirrors.toggleCapsLock (mirrors : t.Mirrors e) :
    Mirrors { t with capsLock := !t.capsLock } { e with capsLock := !e.capsLock } :=
  ⟨⟨mirrors.sound.nonneg, mirrors.sound.room, mirrors.sound.noNewline⟩, mirrors.line, mirrors.shift,
    congrArg not mirrors.capsLock, mirrors.ctrl, mirrors.reading, mirrors.enter, mirrors.ended⟩

theorem Mirrors.view (mirrors : t.Mirrors e) (console : Console) :
    Mirrors { t with console := console } e :=
  ⟨⟨mirrors.sound.nonneg, mirrors.sound.room, mirrors.sound.noNewline⟩, mirrors.line, mirrors.shift,
    mirrors.capsLock, mirrors.ctrl, mirrors.reading, mirrors.enter, mirrors.ended⟩

theorem Mirrors.clear (mirrors : t.Mirrors e) (unfinished : e.finished = false) (console : Console)
    (sound : LineSound { t with console := console, linePos := 0 }) :
    Mirrors { t with console := console, linePos := 0 } { e with line := [] } :=
  ⟨sound, rfl, mirrors.shift, mirrors.capsLock, mirrors.ctrl, mirrors.reading, mirrors.enter,
    fun done => absurd done (by simp [unfinished])⟩

theorem Mirrors.erase (mirrors : t.Mirrors e) (unfinished : e.finished = false)
    (nonempty : t.linePos ≠ 0) (console : Console)
    (sound : LineSound { t with linePos := t.linePos - 1, console := console }) :
    Mirrors { t with linePos := t.linePos - 1, console := console }
      { e with line := e.line.dropLast } := by
  refine ⟨sound, ?_, mirrors.shift, mirrors.capsLock, mirrors.ctrl, mirrors.reading, mirrors.enter,
    fun done => absurd done (by simp [unfinished])⟩
  rw [← mirrors.line]
  exact line_erasing mirrors.sound nonempty

/-- The newline is stored behind the line, over whatever was there. -/
theorem Mirrors.finish (mirrors : t.Mirrors e) (console : Console)
    (sound : LineSound { t with
      reading := false
      typed := Function.update t.typed t.linePos newline
      enterPressed := true
      console := console }) :
    Mirrors { t with
      reading := false
      typed := Function.update t.typed t.linePos newline
      enterPressed := true
      console := console } { e with finished := true } := by
  refine ⟨sound, ?_, mirrors.shift, mirrors.capsLock, mirrors.ctrl, rfl, rfl,
    fun _ => Function.update_self _ _ _⟩
  rw [← mirrors.line]
  apply List.map_congr_left
  intro k member
  have below := List.mem_range.mp member
  have nonneg := mirrors.sound.nonneg
  exact Function.update_of_ne (by simp only at below; omega) _ _

theorem Mirrors.type (mirrors : t.Mirrors e) (unfinished : e.finished = false) (c : UInt8)
    (console : Console)
    (sound : LineSound { t with
      typed := Function.update t.typed t.linePos c
      linePos := t.linePos + 1
      console := console }) :
    Mirrors { t with
      typed := Function.update t.typed t.linePos c
      linePos := t.linePos + 1
      console := console } { e with line := e.line ++ [c] } := by
  refine ⟨sound, ?_, mirrors.shift, mirrors.capsLock, mirrors.ctrl, mirrors.reading, mirrors.enter,
    fun done => absurd done (by simp [unfinished])⟩
  rw [← mirrors.line]
  exact line_typing mirrors.sound c

/-- With Ctrl held a key empties the line or does nothing. -/
theorem Mirrors.ctrlKey (mirrors : t.Mirrors e) (unfinished : e.finished = false)
    (sound : (characterKey beyond key t).LineSound) (make : 0x80 &&& key = 0) (held : t.ctrl = true) :
    (characterKey beyond key t).Mirrors (e.character (e.translate key)) := by
  have data := @Mirrors.kbdData_eq beyond key t e mirrors make
  have held' : e.ctrl = true := mirrors.ctrl ▸ held
  simp only [characterKey, data, if_pos held] at sound ⊢
  simp only [Editor.character, if_pos held']
  by_cases clears : e.translate key = letterL
  · simp only [if_pos clears] at sound ⊢
    exact mirrors.clear unfinished _ sound
  · simp only [if_neg clears]
    exact mirrors

/-- Without Ctrl both sides test the character in the same order. -/
theorem Mirrors.plainKey (mirrors : t.Mirrors e) (unfinished : e.finished = false)
    (sound : (characterKey beyond key t).LineSound) (make : 0x80 &&& key = 0) (free : ¬t.ctrl = true) :
    (characterKey beyond key t).Mirrors (e.character (e.translate key)) := by
  have data := @Mirrors.kbdData_eq beyond key t e mirrors make
  have length := mirrors.length
  have free' : ¬e.ctrl = true := mirrors.ctrl ▸ free
  simp only [characterKey, data, if_neg free, if_neg (not_not.mpr make)] at sound ⊢
  simp only [Editor.character, if_neg free']
  by_cases void : e.translate key = 0
  · simp only [if_pos void]
    exact mirrors
  simp only [if_neg void] at sound ⊢
  by_cases back : e.translate key = backspace
  · simp only [if_pos back] at sound ⊢
    by_cases empty : t.linePos = 0
    · have nothing : e.line.dropLast = e.line := by
        have none : e.line = [] := List.length_eq_zero_iff.mp (by omega)
        rw [none, List.dropLast_nil]
      simp only [if_pos empty, nothing]
      exact mirrors
    · simp only [if_neg empty] at sound ⊢
      exact mirrors.erase unfinished empty _ sound
  simp only [if_neg back] at sound ⊢
  by_cases enter : e.translate key = newline
  · simp only [if_pos enter] at sound ⊢
    exact mirrors.finish _ sound
  simp only [if_neg enter] at sound ⊢
  -- The editor counts its characters where the handler looks at `line_pos`.
  by_cases full : t.linePos ≥ 10
  · have long : ¬e.line.length < 10 := by omega
    simp only [if_pos full, if_neg long]
    exact mirrors
  · have short : e.line.length < 10 := by omega
    simp only [if_neg full, if_pos short] at sound ⊢
    exact mirrors.type unfinished _ _ sound

/-- A key behind the switch does to the terminal what its character does to the editor. -/
theorem Mirrors.characterKey (mirrors : t.Mirrors e) (reading : t.reading = true)
    (character : key ∉ switchCodes) (make : 0x80 &&& key = 0) :
    (characterKey beyond key t).Mirrors (e.character (e.translate key)) := by
  have sound : (Terminal.characterKey beyond key t).LineSound :=
    (characterKey_handled beyond reading character).lineSound mirrors.sound
  have unfinished := mirrors.unfinished reading
  by_cases held : t.ctrl = true
  · exact mirrors.ctrlKey unfinished sound make held
  · exact mirrors.plainKey unfinished sound make held

/-- Every code of the domain does to the terminal what it does to the editor. -/
theorem Mirrors.press (mirrors : t.Mirrors e) (code : EditCode key) :
    (keyboardInput beyond key t).Mirrors (e.press key) := by
  cases reading : t.reading with
  | false =>
    have finished : e.finished = true := by
      have listening := mirrors.reading
      rw [reading] at listening
      simpa using listening
    simpa [keyboardInput, Editor.press, reading, finished] using mirrors
  | true =>
    have unfinished := mirrors.unfinished reading
    by_cases character : key ∉ switchCodes
    · have make : 0x80 &&& key = 0 := by
        rw [release_bit]
        rcases code with low | release
        · exact low
        · refine absurd ?_ character
          simp only [List.mem_cons, List.not_mem_nil, or_false] at release
          rcases release with rfl | rfl | rfl <;> decide
      have edit : e.press key = e.character (e.translate key) := by
        simp only [switchCodes, List.mem_cons, List.not_mem_nil, or_false, not_or] at character
        simp [Editor.press, unfinished, character]
      rw [keyboardInput_character beyond reading character, edit]
      exact mirrors.characterKey reading character make
    · simp only [switchCodes, List.mem_cons, List.not_mem_nil, or_false, not_not] at character
      -- One case for each label of the switch, in its order.
      rcases character with rfl | rfl | rfl | rfl | rfl | rfl | rfl | rfl | rfl | rfl | rfl | rfl | rfl
      · simpa [keyboardInput, Editor.press, reading, unfinished] using mirrors.setCtrl true
      · simpa [keyboardInput, Editor.press, reading, unfinished] using mirrors.setCtrl false
      · simpa [keyboardInput, Editor.press, reading, unfinished] using mirrors.view (t.console.scroll (-1))
      · simpa [keyboardInput, Editor.press, reading, unfinished] using mirrors.view (t.console.scroll 1)
      · simpa [keyboardInput, Editor.press, reading, unfinished] using mirrors.view (t.console.scroll (-12))
      · simpa [keyboardInput, Editor.press, reading, unfinished] using mirrors.view (t.console.scroll 12)
      · simpa [keyboardInput, Editor.press, reading, unfinished] using mirrors.toggleCapsLock
      · simpa [keyboardInput, Editor.press, reading, unfinished] using mirrors.setShift true
      · simpa [keyboardInput, Editor.press, reading, unfinished] using mirrors.setShift false
      · simpa [keyboardInput, Editor.press, reading, unfinished] using mirrors.setShift true
      · simpa [keyboardInput, Editor.press, reading, unfinished] using mirrors.setShift false
      · simpa [keyboardInput, Editor.press, reading, unfinished] using mirrors.view t.console.fontColor
      · simpa [keyboardInput, Editor.press, reading, unfinished] using
          mirrors.view t.console.backgroundColor

end Terminal

namespace Session

open Terminal

variable {s : Session} {line : List UInt8} {cnt : Int}

/-! ## From the Enter to the return -/

/-- The events while a read is under way: scancodes of this kind, and steps of the thread. -/
def KeysOnly (code : UInt8 → Prop) : Event → Prop
  | .key _ key => code key
  | .advance => True
  | .print _ | .call _ _ => False

instance (code : UInt8 → Prop) [DecidablePred code] : (e : Event) → Decidable (KeysOnly code e)
  | .key _ key => inferInstanceAs (Decidable (code key))
  | .advance => inferInstanceAs (Decidable True)
  | .print _ | .call _ _ => inferInstanceAs (Decidable False)

def isAdvance : Event → Bool
  | .advance => true
  | _ => false

theorem run_beginRead_waits (cnt : Int) (buf : Int → UInt8) (outside : s.pc = .outside) :
    (run exec (beginRead cnt buf) s).pc = .wait ∧ (run exec (beginRead cnt buf) s).cnt = cnt := by
  simp [beginRead, exec, call, advance, outside]

/-- A read of `cnt` characters whose Enter ended `line`: it copies the line out, or it has
returned the beginning of it. -/
structure Serving (line : List UInt8) (cnt : Int) (s : Session) : Prop where
  sound : s.terminal.LineSound
  line_eq : s.terminal.line = line
  cnt_eq : s.cnt = cnt
  idle : s.terminal.reading = false
  finishing : s.pc ≠ .outside → s.Finishing
  copying : s.pc ≠ .outside → s.Copying
  returned : s.pc = .outside →
    s.delivered = line.take cnt.toNat ∧ s.rtnCnt = s.delivered.length

/-- The statements up to the return, if the line is copied out whole. -/
def stepsLeft (s : Session) : Nat :=
  match s.pc with
  | .wait => 3 * s.terminal.line.length + 3
  | .initCount => 3 * s.terminal.line.length + 2
  | .copyTest => 3 * (s.terminal.line.length - s.rtnCnt.toNat) + 1
  | .copyByte => 3 * (s.terminal.line.length - s.rtnCnt.toNat)
  | .copyNext => 3 * (s.terminal.line.length - s.rtnCnt.toNat) - 1
  | .outside | .setReading | .setLinePos | .clearEnter => 0

theorem Serving.key (serving : s.Serving line cnt) (beyond : UInt8 → UInt8) (code : UInt8) :
    s.key beyond code = s := by
  rw [Session.key, keyboardInput_idle serving.idle]

/-- Past the Enter the thread goes on to the copy loop, or returns from it. -/
theorem Finishing.advance (finishing : s.Finishing) (inside : s.advance.pc ≠ .outside) :
    s.advance.Finishing := by
  rcases finishing.advance_cases with ⟨_, next⟩ | ⟨_, next⟩ | ⟨_, _, next⟩ | ⟨_, _, next⟩ |
    ⟨_, next⟩ | ⟨_, next⟩ <;> rw [next] at inside ⊢
  · exact .inr (by simp)
  · exact .inr (by simp)
  · exact .inr (by simp)
  · exact absurd rfl inside
  · exact .inr (by simp)
  · exact .inr (by simp)

theorem Serving.advance (serving : s.Serving line cnt) : s.advance.Serving line cnt := by
  by_cases outside : s.pc = .outside
  · have stays : s.advance = s := by simp [Session.advance, outside]
    rw [stays]
    exact serving
  · have finishing := serving.finishing outside
    have copying := serving.copying outside
    have terminal := advance_terminal finishing
    constructor
    · rw [terminal]
      exact serving.sound
    · rw [terminal]
      exact serving.line_eq
    · rw [advance_cnt]
      exact serving.cnt_eq
    · rw [terminal]
      exact serving.idle
    · exact finishing.advance
    · exact fun _ => advance_copying serving.sound finishing copying
    · -- Only the test of the copy loop returns, and there the beginning of the line is copied.
      intro returns
      rcases finishing.advance_cases with ⟨_, next⟩ | ⟨_, next⟩ | ⟨_, _, next⟩ |
        ⟨place, stops, next⟩ | ⟨_, next⟩ | ⟨_, next⟩ <;> rw [next] at returns ⊢
      · cases returns
      · cases returns
      · cases returns
      · have result := copying.delivered_eq serving.sound place stops
        rw [serving.line_eq, serving.cnt_eq] at result
        exact result
      · cases returns
      · cases returns

theorem Serving.stepsLeft_advance (serving : s.Serving line cnt) :
    s.advance.stepsLeft ≤ s.stepsLeft - 1 := by
  by_cases outside : s.pc = .outside
  · simp [Session.advance, stepsLeft, outside]
  · have copying := serving.copying outside
    have length := length_line s.terminal
    rcases (serving.finishing outside).advance_cases with ⟨h, next⟩ | ⟨h, next⟩ | ⟨h, test, next⟩ |
      ⟨_, _, next⟩ | ⟨h, next⟩ | ⟨h, next⟩ <;> rw [next]
    · simp [stepsLeft, h]
    · simp [stepsLeft, h]
    · simp [stepsLeft, h]
    · simp [stepsLeft]
    · simp [stepsLeft, h]
    · -- One more character is copied, and the line had it.
      have low := (copying.count (by simp [h])).1
      have more := (copying.more (by simp [h])).1
      simp only [stepsLeft, h]
      omega

theorem exec_serving (e : Event) (s : Session) (keys : KeysOnly (fun _ => True) e)
    (serving : s.Serving line cnt) : (exec e s).Serving line cnt := by
  cases e with
  | key beyond code =>
    rw [exec, serving.key]
    exact serving
  | advance => exact serving.advance
  | print c => exact keys.elim
  | call cnt buf => exact keys.elim

theorem exec_stepsLeft (e : Event) (s : Session) (keys : KeysOnly (fun _ => True) e)
    (serving : s.Serving line cnt) :
    (exec e s).stepsLeft ≤ s.stepsLeft - (if isAdvance e then 1 else 0) := by
  cases e with
  | key beyond code =>
    rw [exec, serving.key]
    exact Nat.le_refl _
  | advance => exact serving.stepsLeft_advance
  | print c => exact keys.elim
  | call cnt buf => exact keys.elim

/-- A read that has not returned has statements left. -/
theorem Serving.outside (serving : s.Serving line cnt) (done : s.stepsLeft = 0) : s.pc = .outside := by
  by_contra inside
  have copying := serving.copying inside
  have length := length_line s.terminal
  rcases (serving.finishing inside).advance_cases with ⟨h, _⟩ | ⟨h, _⟩ | ⟨h, _⟩ | ⟨h, _⟩ |
    ⟨h, _⟩ | ⟨h, _⟩ <;> simp only [stepsLeft, h] at done
  · cases done
  · cases done
  · cases done
  · cases done
  · have low := (copying.count (by simp [h])).1
    have more := (copying.more (by simp [h])).1
    omega
  · have low := (copying.count (by simp [h])).1
    have more := (copying.more (by simp [h])).1
    omega

theorem Serving.stepsLeft_le (serving : s.Serving line cnt) : s.stepsLeft ≤ 3 * line.length + 3 := by
  have same := congrArg List.length serving.line_eq
  rw [stepsLeft]
  split <;> omega

/-- From the Enter on, whatever else is typed, the read returns after so many statements. -/
theorem Serving.returns (serving : s.Serving line cnt) {es : List Event}
    (keys : ∀ e ∈ es, KeysOnly (fun _ => True) e)
    (enough : 3 * line.length + 3 ≤ es.countP isAdvance) :
    (run exec es s).pc = .outside ∧ (run exec es s).Serving line cnt := by
  have along : Along exec (fun e _ => KeysOnly (fun _ => True) e) es s := along_of_mem es keys s
  have after : (run exec es s).Serving line cnt :=
    along.invariant (fun s => s.Serving line cnt) exec_serving serving
  refine ⟨after.outside ?_, after⟩
  have countdown : (run exec es s).stepsLeft ≤ s.stepsLeft - es.countP isAdvance :=
    along.countdown (fun s => s.Serving line cnt) stepsLeft isAdvance exec_serving exec_stepsLeft serving
  have most := serving.stepsLeft_le
  omega

/-! ## The whole read -/

/-- The editor takes the scancodes among the events. -/
def hear : Event → Editor → Editor
  | .key _ code, e => e.press code
  | _, e => e

theorem run_hear (es : List Event) (e : Editor) :
    run hear es e = run Editor.press (arrived es) e := by
  induction es generalizing e with
  | nil => rfl
  | cons f es ih => cases f <;> exact ih _

/-- The read is the editor's: it waits and shows the line, or it has taken the Enter that the
editor has taken. -/
inductive Tracks (cnt : Int) (s : Session) (e : Editor) : Prop where
  | editing (unfinished : e.finished = false) (place : s.pc = .wait) (cnt_eq : s.cnt = cnt)
      (mirrors : s.terminal.Mirrors e)
  | serving (finished : e.finished = true) (serving : s.Serving e.line cnt)

/-- At the Enter the wait loop has everything it needs to return the line. -/
theorem serving_of_mirrors {e : Editor} (place : s.pc = .wait) (cnt_eq : s.cnt = cnt)
    (mirrors : s.terminal.Mirrors e) (finished : e.finished = true) : s.Serving e.line cnt where
  sound := mirrors.sound
  line_eq := mirrors.line
  cnt_eq := cnt_eq
  idle := by rw [mirrors.reading, finished]; rfl
  finishing := fun _ => .inl ⟨place, mirrors.enter.trans finished⟩
  copying := fun _ =>
    ⟨mirrors.ended finished, by simp [place], by simp [place], by simp [place], by simp [place]⟩
  returned := by simp [place]

theorem exec_tracks (f : Event) (s : Session) (e : Editor) (keys : KeysOnly EditCode f)
    (tracks : s.Tracks cnt e) : (exec f s).Tracks cnt (hear f e) := by
  cases f with
  | print c => exact keys.elim
  | call cnt buf => exact keys.elim
  | key beyond code =>
    rw [exec, hear]
    cases tracks with
    | editing unfinished place cnt_eq mirrors =>
      have mirrors' : (s.key beyond code).terminal.Mirrors (e.press code) := mirrors.press keys
      cases finished : (e.press code).finished with
      | false => exact .editing finished place cnt_eq mirrors'
      | true => exact .serving finished (serving_of_mirrors place cnt_eq mirrors' finished)
    | serving finished serving =>
      have deaf : e.press code = e := by simp [Editor.press, finished]
      rw [deaf, serving.key]
      exact .serving finished serving
  | advance =>
    change s.advance.Tracks cnt e
    cases tracks with
    | editing unfinished place cnt_eq mirrors =>
      have waits : s.advance = s := by
        simp [advance, place, mirrors.enter, unfinished]
      rw [waits]
      exact .editing unfinished place cnt_eq mirrors
    | serving finished serving => exact .serving finished serving.advance

/-- The initialisation of `terminal_read` starts the editor. -/
theorem beginRead_tracks (cnt : Int) (buf : Int → UInt8) (outside : s.pc = .outside) :
    (run exec (beginRead cnt buf) s).Tracks cnt (Editor.started s.terminal) := by
  obtain ⟨place, cnt_eq⟩ := run_beginRead_waits cnt buf outside
  refine .editing rfl place cnt_eq ?_
  rw [run_beginRead cnt buf outside]
  exact ⟨⟨le_refl _, by simp, fun k low high => absurd high (not_lt.mpr low)⟩, rfl, rfl, rfl, rfl,
    rfl, rfl, by simp [Editor.started]⟩

/-- However the scancodes fall between the statements of a read: from the Enter that finishes the
editor's line on, the read returns after at most three statements and three for each character,
with `min(n, cnt)` and the beginning of the line in `buf`. -/
theorem terminal_read_edits (t : Terminal) (es : List Event) (cnt : Int) (buf : Int → UInt8)
    (fs rest : List Event) (outside : (run exec es (opened t)).pc = .outside) (nonneg : 0 ≤ cnt)
    (codes : ∀ f ∈ fs, KeysOnly EditCode f) (later : ∀ f ∈ rest, KeysOnly (fun _ => True) f)
    (finished : (run Editor.press (arrived fs)
      (Editor.started (run exec es (opened t)).terminal)).finished = true)
    (enough : 3 * (run Editor.press (arrived fs)
      (Editor.started (run exec es (opened t)).terminal)).line.length + 3 ≤ rest.countP isAdvance) :
    let edited := (run Editor.press (arrived fs)
      (Editor.started (run exec es (opened t)).terminal)).line
    let s := run exec (es ++ beginRead cnt buf ++ fs ++ rest) (opened t)
    s.pc = .outside ∧ s.rtnCnt = min (edited.length : Int) cnt ∧
      ∀ k : Nat, k < s.rtnCnt → edited[k]? = some (s.buf k) := by
  intro edited s
  have started := beginRead_tracks cnt buf outside
  have along : Along exec (fun f _ => KeysOnly EditCode f) fs
      (run exec (beginRead cnt buf) (run exec es (opened t))) := along_of_mem fs codes _
  have tracks := along.simulation hear (fun s e => s.Tracks cnt e) exec_tracks started
  rw [run_hear] at tracks
  cases tracks with
  | editing unfinished => simp [unfinished] at finished
  | serving _ serving =>
    obtain ⟨returned, served⟩ := serving.returns later enough
    simp only [← run_append] at returned served
    obtain ⟨result, count⟩ := served.returned returned
    change s.delivered = edited.take cnt.toNat at result
    have amount : s.rtnCnt = min (edited.length : Int) cnt := by
      rw [count, result, List.length_take]
      omega
    refine ⟨returned, amount, fun k bound => ?_⟩
    have inside : k < s.rtnCnt.toNat := by omega
    have character : s.delivered[k]? = some (s.buf k) := by
      rw [delivered, List.getElem?_map, List.getElem?_range inside]
      rfl
    rw [result, List.getElem?_take_of_lt (by omega)] at character
    exact character

/-- An `a` and a `b`, Caps Lock, a `c`, a backspace and a `d`, with the thread at the wait loop in
between; a key typed after the Enter is not heard. -/
def sampleTyping : List Event :=
  [.key (fun _ => 0) 0x1E, .advance, .key (fun _ => 0) 0x30, .key (fun _ => 0) 0x3A,
    .key (fun _ => 0) 0x2E, .key (fun _ => 0) backspaceKey, .advance, .key (fun _ => 0) 0x20,
    .key (fun _ => 0) enterKey]

theorem terminal_read_edits_sample :
    let s := run exec ([] ++ beginRead 2 (fun _ => 0) ++ sampleTyping ++
      (.key (fun _ => 0) 0x1E :: List.replicate 12 .advance)) (opened powerOn)
    s.pc = .outside ∧ s.rtnCnt = 2 ∧ s.delivered = ascii ['a', 'b'] := by
  have result := terminal_read_edits powerOn [] 2 (fun _ => 0) sampleTyping
    (.key (fun _ => 0) 0x1E :: List.replicate 12 .advance) rfl (by decide) (by decide) (by decide)
    (by decide) (by decide)
  exact ⟨result.1, result.2.1, by decide⟩

end Session

end Mp3Kernel
