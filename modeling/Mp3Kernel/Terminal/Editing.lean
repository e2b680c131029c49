import Mp3Kernel.Console.Sheet
import Mp3Kernel.Terminal.Read

/-!
# What is on screen is what will be returned

`terminal.c` counts the characters of a line and `lib.c` counts the columns of
the cursor, each for itself. Over the sheet that the console refines, both are
one statement: the line under edit stands on the sheet from where it was begun
up to the caret.
-/

namespace Mp3Kernel

open Library

namespace Terminal

open Console (Op Allowed PutcAllowed sheetExec sheetPutc)

variable {t t' : Terminal} {sheet : Sheet UInt8}

/-- The console shows the sheet, and the line is no longer than what was printed. -/
structure OnSheet (t : Terminal) (sheet : Sheet UInt8) : Prop where
  inStep : t.console.InStep
  refines : t.console.Refines sheet
  ahead : sheet.BlankAhead space
  sound : t.LineSound
  behind : t.linePos ≤ sheet.caret

/-- The sheet after a console call, if there was one. -/
def afterCall : Option Op → Sheet UInt8 → Sheet UInt8
  | none, sheet => sheet
  | some op, sheet => sheetExec op sheet

/-- A console call that is allowed keeps everything but the length of the line. -/
theorem OnSheet.call (on : OnSheet t sheet) (op : Op) (allowed : Allowed op t.console)
    (console : t'.console = Console.exec op t.console) (sound : t'.LineSound)
    (behind : t'.linePos ≤ (sheetExec op sheet).caret) : OnSheet t' (sheetExec op sheet) where
  inStep := console ▸ Console.exec_inStep op _ allowed on.inStep
  refines := console ▸ Console.exec_refines op allowed on.inStep on.refines on.ahead
  ahead := Console.sheetExec_blankAhead op on.ahead
  sound := sound
  behind := behind

theorem viewCalls_quiet (t : Terminal) (sheet : Sheet UInt8) {op : Op} (member : op ∈ viewCalls) :
    sheetExec op sheet = sheet ∧ op ≠ .clear ∧
    (Allowed op t.console ↔ (Console.exec op t.console).cursorY.toNat ≤ lastRow) := by
  simp only [viewCalls, List.mem_cons, List.not_mem_nil, or_false] at member
  rcases member with rfl | rfl | rfl | rfl | rfl | rfl <;> exact ⟨rfl, by simp, Iff.rfl⟩

theorem sheetPutc_newline : sheetPutc newline sheet = sheet.nextRow 80 := by
  rw [sheetPutc, if_pos (.inl rfl)]

theorem sheetPutc_backspace : sheetPutc backspace sheet = sheet.eraseBack space := by
  rw [sheetPutc, if_neg (by decide), if_pos rfl]

theorem sheetPutc_write {c : UInt8}
    (printable : c ≠ newline ∧ c ≠ backspace ∧ c ≠ carriageReturn) :
    sheetPutc c sheet = sheet.write c := by
  rw [sheetPutc, if_neg (by simp [printable]), if_neg printable.2.1]

/-- A cursor behind a printed character is not at the origin. -/
theorem putcAllowed_of_pos {c : UInt8} {s : Console} (positive : c = backspace → 0 < s.pos)
    (row : (s.putc c).cursorY.toNat ≤ lastRow) : PutcAllowed c s := by
  refine ⟨fun ⟨back, column, origin⟩ => ?_, row⟩
  have := positive back
  simp [Console.pos, column, origin] at this

/-- A scancode keeps the terminal on the sheet, as long as the rows last. -/
theorem Handled.onSheet {beyond : UInt8 → UInt8} {key : UInt8} {call : Option Op}
    (handled : Handled beyond key t call t') (on : OnSheet t sheet)
    (row : t'.console.cursorY.toNat ≤ lastRow) : OnSheet t' (afterCall call sheet) := by
  have sound := handled.lineSound on.sound
  have ⟨nonneg, _, _⟩ := on.sound
  have behind := on.behind
  have caret := on.refines.caret
  cases handled with
  | discarded | control | shifting | caps | inert =>
    exact ⟨on.inStep, on.refines, on.ahead, sound, behind⟩
  | view _ op member =>
    obtain ⟨same, _, allowed⟩ := viewCalls_quiet t sheet member
    exact on.call op (allowed.mpr row) rfl sound (by rw [same]; exact behind)
  | clearing =>
    exact on.call .clear row rfl sound (Int.natCast_nonneg _)
  -- `behind` puts the cursor past a character of the line, so this is not the origin.
  | erasing _ _ _ nonempty =>
    have allowed : PutcAllowed backspace t.console :=
      putcAllowed_of_pos (fun _ => by omega) row
    refine on.call (.putc backspace) allowed rfl sound ?_
    rw [sheetExec, sheetPutc_backspace]
    simp only [Sheet.eraseBack]
    omega
  | entering =>
    have allowed : PutcAllowed newline t.console :=
      putcAllowed_of_pos (fun h => absurd h (by decide)) row
    refine on.call (.putc newline) allowed rfl sound ?_
    have further := sheet.caret_lt_nextRow (show 0 < 80 by decide)
    rw [sheetExec, sheetPutc_newline]
    simp only
    omega
  | typing _ _ _ data _ _ printable =>
    have allowed : PutcAllowed data t.console :=
      putcAllowed_of_pos (fun h => absurd h printable.2.1) row
    refine on.call (.putc data) allowed rfl sound ?_
    rw [sheetExec, sheetPutc_write printable]
    simp only [Sheet.write]
    omega

/-! ## The line on the sheet -/

theorem length_line (t : Terminal) : t.line.length = t.linePos.toNat := by simp [line]

theorem line_typing (sound : t.LineSound) (data : UInt8) :
    line { t with typed := Function.update t.typed t.linePos data, linePos := t.linePos + 1 } =
      t.line ++ [data] := by
  have nonneg := sound.nonneg
  have next : (t.linePos + 1).toNat = t.linePos.toNat + 1 := by omega
  simp only [line, next, List.range_succ, List.map_append, List.map_cons, List.map_nil]
  congr 1
  · refine List.map_congr_left fun k member => ?_
    have := List.mem_range.mp member
    exact Function.update_of_ne (by omega) _ _
  · simp [Int.toNat_of_nonneg nonneg]

theorem line_erasing (sound : t.LineSound) (nonempty : t.linePos ≠ 0) :
    line { t with linePos := t.linePos - 1 } = t.line.dropLast := by
  have nonneg := sound.nonneg
  obtain ⟨n, length⟩ : ∃ n : Nat, t.linePos = n + 1 := ⟨(t.linePos - 1).toNat, by omega⟩
  have same : (t.linePos - 1).toNat = n ∧ t.linePos.toNat = n + 1 := by omega
  simp [line, same, List.range_succ]

/-- Until Enter, the line stays on the sheet between `start` and the caret; clearing the
screen empties the line and begins it anew at the caret. -/
theorem Handled.holds {beyond : UInt8 → UInt8} {key : UInt8} {call : Option Op}
    (handled : Handled beyond key t call t') (on : OnSheet t sheet) {start : Nat}
    (holds : sheet.Holds start t.line) (reading : t.reading = true) (still : t'.reading = true) :
    (afterCall call sheet).Holds
      (if call = some .clear then (afterCall call sheet).caret else start) t'.line := by
  cases handled with
  | discarded idle => simp [idle] at reading
  | control | shifting | caps | inert => exact holds
  | view _ op member =>
    obtain ⟨same, other, _⟩ := viewCalls_quiet t sheet member
    rw [if_neg (by simpa using other), afterCall, same]
    exact holds
  -- Ctrl-L sets `line_pos` to 0, and the line begins again at the cursor.
  | clearing => exact Sheet.holds_nil _
  | erasing _ _ _ nonempty =>
    have some_typed : t.line ≠ [] := by
      have nonneg := on.sound.nonneg
      rw [← List.length_pos_iff, length_line]
      omega
    have shorter : (sheet.eraseBack space).Holds start t.line.dropLast :=
      holds.eraseBack some_typed
    rw [← line_erasing on.sound nonempty] at shorter
    rw [if_neg (by simp), afterCall, sheetExec, sheetPutc_backspace]
    exact shorter
  -- Enter ends the read, so the line is not under edit any more.
  | entering => cases still
  | typing _ _ _ data _ _ printable =>
    have longer := holds.write data
    rw [← line_typing on.sound data] at longer
    rw [if_neg (by simp), afterCall, sheetExec, sheetPutc_write printable]
    exact longer

/-! ## Scancodes of one read -/

/-- A scancode, with what lies behind the tables when it is handled. -/
structure Scancode where
  beyond : UInt8 → UInt8
  code : UInt8

def strike (k : Scancode) (t : Terminal) : Terminal := keyboardInput k.beyond k.code t

/-- Where the line begins: at `start`, or where the cursor was put by the last clear. -/
def lineStart (start : Nat) : List Scancode → Terminal → Nat
  | [], _ => start
  | k :: ks, t =>
    lineStart (if consoleCall k.beyond k.code t = some .clear then (strike k t).console.pos
      else start) ks (strike k t)

def RowsLast (k : Scancode) (t : Terminal) : Prop := (strike k t).console.cursorY.toNat ≤ lastRow

instance (k : Scancode) (t : Terminal) : Decidable (RowsLast k t) :=
  inferInstanceAs (Decidable (_ ≤ _))

/-- Only `terminal_read` begins to listen. -/
theorem run_strike_reading (ks : List Scancode) (t : Terminal)
    (still : (run strike ks t).reading = true) : t.reading = true := by
  induction ks generalizing t with
  | nil => exact still
  | cons k ks ih =>
    have after : (strike k t).reading = true := ih _ still
    rcases keyboardInput_flags k.beyond k.code t with ⟨_, reading, _⟩ | ⟨_, reading, _⟩
    · rw [strike, reading] at after
      cases after
    · rw [← reading]
      exact after

/-- The line under edit through any number of scancodes before Enter. -/
theorem run_strike_holds (ks : List Scancode) {start : Nat} (on : OnSheet t sheet)
    (holds : sheet.Holds start t.line) (rows : Along strike RowsLast ks t)
    (still : (run strike ks t).reading = true) :
    ∃ sheet', OnSheet (run strike ks t) sheet' ∧
      sheet'.Holds (lineStart start ks t) (run strike ks t).line := by
  -- The sheet and the beginning of the line change with every scancode.
  induction ks generalizing t sheet start with
  | nil => exact ⟨sheet, on, holds⟩
  | cons k ks ih =>
    have handled := keyboardInput_handled k.beyond k.code t
    have on' := handled.onSheet on rows.1
    have next := handled.holds on holds (run_strike_reading (k :: ks) t still)
      (run_strike_reading ks (strike k t) still)
    rw [← on'.refines.caret] at next
    exact ih on' next rows.2 still

/-- A backspace is echoed only behind the beginning of the line. -/
theorem Handled.putc_backspace {beyond : UInt8 → UInt8} {key : UInt8} {call : Option Op}
    (handled : Handled beyond key t call t') (echo : call = some (.putc backspace)) :
    t.linePos ≠ 0 := by
  cases handled with
  | erasing _ _ _ nonempty => exact nonempty
  | typing _ _ _ data _ _ printable => simp [printable.2.1] at echo
  | entering => simp [newline, backspace] at echo
  | view _ op member =>
    simp only [viewCalls, List.mem_cons, List.not_mem_nil, or_false] at member
    rcases member with rfl | rfl | rfl | rfl | rfl | rfl <;> simp at echo
  | _ => cases echo

end Terminal

namespace Session

open Terminal

variable {s : Session}

/-! ## Sessions on the sheet -/

def PrintsBackspace : Event → Prop
  | .print c => c = backspace
  | _ => False

instance : (e : Event) → Decidable (PrintsBackspace e)
  | .print _ => inferInstanceAs (Decidable (_ = _))
  | .key _ _ | .call _ _ | .advance => inferInstanceAs (Decidable False)

/-- The thread prints no backspace, and the rows last. -/
def Printing (e : Event) (s : Session) : Prop :=
  ¬PrintsBackspace e ∧ (exec e s).terminal.console.cursorY.toNat ≤ lastRow

instance (e : Event) (s : Session) : Decidable (Printing e s) := inferInstanceAs (Decidable (_ ∧ _))

/-- The statements of `terminal_read` leave the console alone and at most empty the line. -/
theorem advance_onSheet {sheet : Sheet UInt8} (on : OnSheet s.terminal sheet) :
    OnSheet s.advance.terminal sheet := by
  have ⟨inStep, refines, ahead, sound, behind⟩ := on
  have sound' : s.advance.terminal.LineSound := exec_lineSound .advance s sound
  rcases s.advance_terminal_cases with h | h | h | h <;> rw [h] at sound' ⊢
  · exact on
  · exact ⟨inStep, refines, ahead, sound', behind⟩
  · exact ⟨inStep, refines, ahead, sound', Int.natCast_nonneg _⟩
  · exact ⟨inStep, refines, ahead, sound', behind⟩

theorem exec_onSheet (e : Event) (s : Session) (printing : Printing e s)
    (on : ∃ sheet, OnSheet s.terminal sheet) : ∃ sheet, OnSheet (exec e s).terminal sheet := by
  obtain ⟨sheet, on⟩ := on
  obtain ⟨notBack, row⟩ := printing
  cases e with
  | key beyond code =>
    exact ⟨_, (keyboardInput_handled beyond code s.terminal).onSheet on row⟩
  | print c =>
    simp only [exec, print] at row ⊢
    split at row
    next place =>
      rw [if_pos place]
      have allowed : Console.PutcAllowed c s.terminal.console :=
        putcAllowed_of_pos (fun back => (notBack back).elim) row
      refine ⟨Console.sheetExec (.putc c) sheet, on.call (.putc c) allowed rfl ?_ ?_⟩
      · exact ⟨on.sound.nonneg, on.sound.room, on.sound.noNewline⟩
      · have behind := on.behind
        have further := sheet.caret_lt_nextRow (show 0 < 80 by decide)
        -- Printed output moves the caret forward, since it has no backspace.
        simp only [Console.sheetExec, Console.sheetPutc]
        split
        · omega
        · rw [if_neg (show ¬c = backspace from notBack)]
          simp only [Sheet.write]
          omega
    next place =>
      rw [if_neg place]
      exact ⟨sheet, on⟩
  | call cnt buf =>
    rw [exec, call]
    split <;> exact ⟨sheet, on⟩
  | advance => exact ⟨sheet, advance_onSheet on⟩

theorem opened_onSheet (t : Terminal) : OnSheet (opened t).terminal (Sheet.fresh space) where
  inStep := t.console.screenInit_inStep
  refines := t.console.screenInit_refines
  ahead := Sheet.blankAhead_fresh space
  sound := run_lineSound t []
  behind := le_refl _

/-- A call of `terminal_read` and its three initialisation statements. -/
def beginRead (cnt : Int) (buf : Int → UInt8) : List Event :=
  [.call cnt buf, .advance, .advance, .advance]

theorem run_beginRead (cnt : Int) (buf : Int → UInt8) (outside : s.pc = .outside) :
    (run exec (beginRead cnt buf) s).terminal =
      { s.terminal with reading := true, linePos := 0, enterPressed := false } := by
  simp [beginRead, exec, call, advance, outside]

/-- During a read, until Enter: the cursor stands `line_pos` characters behind the beginning
of the line, the saved cells between hold what is in `typed`, and no backspace is echoed at or
before the beginning of the line. -/
theorem line_on_screen (t : Terminal) (es : List Event) (cnt : Int) (buf : Int → UInt8)
    (ks : List Scancode) (printing : Along exec Printing es (opened t))
    (outside : (run exec es (opened t)).pc = .outside)
    (rows : Along strike RowsLast ks (run exec (es ++ beginRead cnt buf) (opened t)).terminal)
    (still : (run strike ks (run exec (es ++ beginRead cnt buf) (opened t)).terminal).reading =
      true) :
    let begun := (run exec (es ++ beginRead cnt buf) (opened t)).terminal
    let now := run strike ks begun
    let start := lineStart (run exec es (opened t)).terminal.console.pos ks begun
    0 ≤ now.linePos ∧ now.linePos ≤ 10 ∧ now.console.pos = start + now.linePos ∧
    (∀ k : Nat, k < now.linePos → (now.console.saved (start + k)).char = now.typed k) ∧
    ∀ beyond code, consoleCall beyond code now = some (.putc backspace) →
      start < now.console.pos := by
  intro begun now start
  obtain ⟨sheet, on⟩ := printing.invariant (fun s : Session => ∃ sheet, OnSheet s.terminal sheet)
    exec_onSheet ⟨_, opened_onSheet t⟩
  have init : begun = { (run exec es (opened t)).terminal with
      reading := true, linePos := 0, enterPressed := false } := by
    simp only [begun, run_append]
    exact run_beginRead cnt buf outside
  have onBegun : OnSheet begun sheet := by
    rw [init]
    exact ⟨on.inStep, on.refines, on.ahead,
      ⟨le_refl _, by simp, fun k low high => absurd high (not_lt.mpr low)⟩, Int.natCast_nonneg _⟩
  have holds : sheet.Holds (run exec es (opened t)).terminal.console.pos begun.line := by
    rw [on.refines.caret, init]
    exact sheet.holds_nil
  obtain ⟨sheet', on', holds'⟩ : ∃ sheet', OnSheet now sheet' ∧ sheet'.Holds start now.line :=
    run_strike_holds ks onBegun holds rows still
  have ⟨nonneg, room, _⟩ := on'.sound
  have caret : now.console.pos = start + now.linePos.toNat := by
    rw [on'.refines.caret, holds'.caret, length_line]
  refine ⟨nonneg, room, by omega, ?_, ?_⟩
  · -- From `typed` over the sheet to the saved cells.
    intro k bound
    have inside : start + k < savedCells := by
      have ⟨column, _, row⟩ := on'.inStep.toSound
      have before := Console.pos_lt_savedCells column (by omega)
      omega
    rw [on'.refines.text _ inside]
    apply holds'.text
    rw [line, List.getElem?_map, List.getElem?_range (by omega)]
    rfl
  · intro beyond code echo
    have nonempty := (keyboardInput_handled beyond code now).putc_backspace echo
    omega

/-- A letter, a backspace, Ctrl-L and another letter, typed behind a printed prompt. -/
def sampleStrokes : List Scancode :=
  [⟨fun _ => 0, 0x1E⟩, ⟨fun _ => 0, 0x30⟩, ⟨fun _ => 0, backspaceKey⟩, ⟨fun _ => 0, 0x1D⟩,
    ⟨fun _ => 0, 0x26⟩, ⟨fun _ => 0, 0x9D⟩, ⟨fun _ => 0, 0x1E⟩]

theorem line_on_screen_sample :
    let prompted := run exec [.print 62] (opened powerOn)
    let begun := (run exec ([.print 62] ++ beginRead 8 fun _ => 0) (opened powerOn)).terminal
    (run strike sampleStrokes begun).console.pos =
      lineStart prompted.terminal.console.pos sampleStrokes begun +
        (run strike sampleStrokes begun).linePos :=
  (line_on_screen powerOn [.print 62] 8 (fun _ => 0) sampleStrokes (by decide) (by decide)
    (by decide) (by decide)).2.2.1

end Session

end Mp3Kernel
