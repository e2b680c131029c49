import Mp3Kernel.Console.Mirror

/-!
# Which runs keep the console inside saved video memory

Nothing recycles rows, so a long enough run reaches the kernel image at
0x400000. This module finds the exact condition, step by step, under which all
saved-video accesses of a run stay in [0x100000, 0x400000).
-/

namespace Mp3Kernel

open Library

namespace Console

variable {s : Console}

/-! ## Accesses -/

def unlogged (s : Console) : Console := { s with mem := s.mem.unlogged }

/-- The memory accesses that an operation makes. -/
def accesses (op : Op) (s : Console) : List Access := (exec op s.unlogged).mem.log

/-- An access through `saved_video_mem` falls in the area that `screen_init` blanks. -/
def InArea (a : Access) : Prop :=
  a.base = savedVideoMem → 0x100000 ≤ a.addr.toNat ∧ a.addr.toNat < 0x400000

def StepInArea (op : Op) (s : Console) : Prop := ∀ a ∈ accesses op s, InArea a

def LogInArea (s : Console) : Prop := ∀ a ∈ s.mem.log, InArea a

/-- Saved video memory without its upper bound. -/
private def rowsArray : CellArray := ⟨savedVideoMem, 2 ^ 30, by decide⟩

theorem inArea_cell_iff (kind : AccessKind) {j : UInt32} (small : j.toNat < 2 ^ 30) :
    (InArea ⟨kind, savedVideoMem, charAddr savedVideoMem j⟩ ↔ j.toNat < savedCells) ∧
    (InArea ⟨kind, savedVideoMem, attrAddr savedVideoMem j⟩ ↔ j.toNat < savedCells) := by
  have char : (charAddr savedVideoMem j).toNat = 0x100000 + 2 * j.toNat :=
    rowsArray.toNat_charAddr j small
  have attr : (attrAddr savedVideoMem j).toNat = 0x100000 + 2 * j.toNat + 1 :=
    rowsArray.toNat_attrAddr j small
  simp only [InArea, char, attr, savedCells, forall_const]
  omega

theorem inArea_video (kind : AccessKind) (addr : UInt32) : InArea ⟨kind, videoMem, addr⟩ :=
  fun h => absurd h (by show ¬videoMem = savedVideoMem; decide)

/-- A whole window of saved rows is in the area exactly when it starts early enough. -/
theorem window_inArea_iff {row : UInt32} (small : row.toNat ≤ 2 ^ 20) :
    (∀ i < screenCells, (80 * row + UInt32.ofNat i).toNat < savedCells) ↔
      row.toNat ≤ lastRow + 1 := by
  constructor
  · -- The last cell of the window decides.
    intro inside
    have last := inside (screenCells - 1) (by decide)
    rw [toNat_windowIndex small (by decide)] at last
    unfold screenCells savedCells at last
    unfold lastRow
    omega
  · exact fun rows i bound => windowIndex_inside rows bound

theorem windowIndex_small {row : UInt32} (small : row.toNat ≤ 2 ^ 20) {i : Nat}
    (bound : i < screenCells) : (80 * row + UInt32.ofNat i).toNat < 2 ^ 30 := by
  rw [toNat_windowIndex small bound]
  unfold screenCells at bound
  omega

/-! ## What each primitive accesses -/

/-- The accesses for cell `i` of a window that is redrawn or blanked: the displayed cell is
written, and saved cell `80*row + i` is read or written. -/
def WindowAccess (kind : AccessKind) (row : UInt32) (i : Nat) (a : Access) : Prop :=
  (a = ⟨.write, videoMem, charAddr videoMem (UInt32.ofNat i)⟩ ∨
    a = ⟨.write, videoMem, attrAddr videoMem (UInt32.ofNat i)⟩) ∨
  (a = ⟨kind, savedVideoMem, charAddr savedVideoMem (80 * row + UInt32.ofNat i)⟩ ∨
    a = ⟨kind, savedVideoMem, attrAddr savedVideoMem (80 * row + UInt32.ofNat i)⟩)

/-- Going through a window keeps the log in the area exactly when the window is. -/
theorem windowAccesses_inArea_iff (kind : AccessKind) {row : UInt32} (small : row.toNat ≤ 2 ^ 20)
    {log log' : List Access}
    (made : ∀ a, a ∈ log' ↔ (∃ i < screenCells, WindowAccess kind row i a) ∨ a ∈ log) :
    (∀ a ∈ log', InArea a) ↔ row.toNat ≤ lastRow + 1 ∧ ∀ a ∈ log, InArea a := by
  rw [← window_inArea_iff small]
  constructor
  · intro safe
    refine ⟨fun i bound => ?_, fun a member => safe a ((made a).mpr (.inr member))⟩
    have access := (made _).mpr (.inl ⟨i, bound, .inr (.inl rfl)⟩)
    exact (inArea_cell_iff kind (windowIndex_small small bound)).1.mp (safe _ access)
  · rintro ⟨inside, before⟩ a member
    rcases (made a).mp member with ⟨i, bound, (rfl | rfl) | (rfl | rfl)⟩ | earlier
    · exact inArea_video _ _
    · exact inArea_video _ _
    · exact (inArea_cell_iff kind (windowIndex_small small bound)).1.mpr (inside i bound)
    · exact (inArea_cell_iff kind (windowIndex_small small bound)).2.mpr (inside i bound)
    · exact before a earlier

theorem mem_moveWindow_log (offset : Int32) (s : Console) (a : Access) :
    a ∈ (s.moveWindow offset).mem.log ↔
      (∃ i < screenCells, WindowAccess .read (s.moveWindow offset).screenOffset i a) ∨
        a ∈ s.mem.log := by
  have log := Memory.mem_log_forLoop (fun i (m : Memory) => m.copyCell videoMem (UInt32.ofNat i)
    savedVideoMem (80 * (s.screenOffset + offset.toUInt32) + UInt32.ofNat i)) screenCells s.mem a _
    (fun i m => Memory.mem_copyCell_log _ _ _ _ m a)
  rw [moveWindow_screenOffset]
  simp only [moveWindow, updateCursor_mem, log, WindowAccess]

theorem moveWindow_logInArea (offset : Int32)
    (small : (s.moveWindow offset).screenOffset.toNat ≤ 2 ^ 20) :
    (s.moveWindow offset).LogInArea ↔
      (s.moveWindow offset).screenOffset.toNat ≤ lastRow + 1 ∧ s.LogInArea :=
  windowAccesses_inArea_iff .read small (mem_moveWindow_log offset s)

/-- The early returns of `scroll` access nothing and keep the window where it was. -/
theorem scroll_logInArea (offset : Int32) (rows : s.screenOffset.toNat ≤ lastRow + 1)
    (row : s.cursorY.toNat ≤ 2 ^ 20) :
    (s.scroll offset).LogInArea ↔
      (s.scroll offset).screenOffset.toNat ≤ lastRow + 1 ∧ s.LogInArea := by
  have small := lastRow_small
  have clamped := scroll_screenOffset offset s (by omega) (by omega)
  rcases scroll_cases offset s with h | ⟨by', h⟩
  · -- `rows` is about the window that is left as it was.
    rw [h]
    simp only [rows, true_and]
  · rw [h] at clamped ⊢
    exact moveWindow_logInArea by' (by omega)

theorem follow_logInArea (rows : s.screenOffset.toNat ≤ lastRow + 1)
    (row : s.cursorY.toNat ≤ 2 ^ 20) :
    s.follow.LogInArea ↔ s.follow.screenOffset.toNat ≤ lastRow + 1 ∧ s.LogInArea := by
  unfold follow
  split
  · exact scroll_logInArea _ rows row
  · simp only [LogInArea, updateCursor_mem, updateCursor_screenOffset, rows, true_and]

theorem mem_putAtCursor_log (c : UInt8) (s : Console) (a : Access) (base : a.base = savedVideoMem) :
    a ∈ (s.putAtCursor c).mem.log ↔
      (a = ⟨.write, savedVideoMem, charAddr savedVideoMem (80 * s.cursorY + s.cursorX.toUInt32)⟩ ∨
        a = ⟨.write, savedVideoMem, attrAddr savedVideoMem (80 * s.cursorY + s.cursorX.toUInt32)⟩) ∨
      a ∈ s.mem.log := by
  -- Only accesses through `saved_video_mem` matter, and the store on screen is not one.
  have notVideo (addr : UInt32) : a ≠ ⟨.write, videoMem, addr⟩ := by
    rintro rfl
    exact absurd base (by show ¬videoMem = savedVideoMem; decide)
  simp only [putAtCursor, Memory.mem_storeCell_log]
  split
  · simp only [Memory.mem_storeCell_log, notVideo, or_self, false_or]
  · exact Iff.rfl

theorem putAtCursor_logInArea (c : UInt8) (column : s.cursorX.toNat < 80)
    (row : s.cursorY.toNat ≤ lastRow + 25) : (s.putAtCursor c).LogInArea ↔ s.LogInArea := by
  have index : (80 * s.cursorY + s.cursorX.toUInt32).toNat = s.pos := toNat_cursorIndex row
  have inside := pos_lt_savedCells column row
  have cell := inArea_cell_iff .write (j := 80 * s.cursorY + s.cursorX.toUInt32)
    (by rw [index]; unfold savedCells at inside; omega)
  rw [index] at cell
  constructor
  · intro safe a member base
    exact safe a ((mem_putAtCursor_log c s a base).mpr (.inr member)) base
  · intro before a member base
    rcases (mem_putAtCursor_log c s a base).mp member with (rfl | rfl) | earlier
    · exact cell.1.mpr inside base
    · exact cell.2.mpr inside base
    · exact before a earlier base

theorem mem_clear_log (s : Console) (a : Access) :
    a ∈ s.clear.mem.log ↔
      (∃ i < screenCells, WindowAccess .write (s.cursorY + 1) i a) ∨ a ∈ s.mem.log := by
  have log := Memory.mem_log_forLoop (fun i (m : Memory) =>
    (m.storeCell videoMem (UInt32.ofNat i) space s.attrib).storeCell savedVideoMem
      (80 * (s.cursorY + 1) + UInt32.ofNat i) space s.attrib) screenCells s.mem a
    (fun i => WindowAccess .write (s.cursorY + 1) i a) (fun i m => by
      rw [Memory.mem_storeCell_log, Memory.mem_storeCell_log, WindowAccess]
      tauto)
  simp only [clear, updateCursor_mem, updateCursor_attrib, updateCursor_screenOffset, log]

theorem clear_logInArea (row : (s.cursorY + 1).toNat ≤ 2 ^ 20) :
    s.clear.LogInArea ↔ (s.cursorY + 1).toNat ≤ lastRow + 1 ∧ s.LogInArea :=
  windowAccesses_inArea_iff .write row (mem_clear_log s)

/-- Recolouring the whole area stays in it, and redraws the window where it is. -/
theorem updateColor_logInArea (above : s.screenOffset.toNat ≤ s.cursorY.toNat)
    (rows : s.screenOffset.toNat ≤ lastRow + 1) (row : s.cursorY.toNat ≤ 2 ^ 20) :
    s.updateColor.LogInArea ↔ s.LogInArea := by
  have offset := updateColor_screenOffset (by omega) above
  have log (a : Access) := Memory.mem_log_forLoop
    (fun i (m : Memory) => m.storeAttr savedVideoMem (UInt32.ofNat i) s.attrib) savedCells s.mem a _
    (fun i m => Memory.mem_storeAttr_log _ _ _ m a)
  unfold updateColor at offset ⊢
  rw [scroll_logInArea 0 (by exact rows) (by exact row), offset]
  simp only [rows, true_and, LogInArea, log]
  constructor
  · exact fun safe a member => safe a (.inr member)
  · rintro before a (⟨i, bound, rfl⟩ | member)
    · have index : (UInt32.ofNat i).toNat = i := savedArray.toNat_index bound
      refine (inArea_cell_iff .write ?_).2.mpr (by rw [index]; exact bound)
      rw [index]
      unfold savedCells at bound
      omega
    · exact before a member

/-! ## The condition -/

/-- Output without backspaces, and the operations of the keyboard. -/
def Forward : Op → Prop
  | .putc c => c ≠ backspace
  | .puts _ => False
  | _ => True

/-- `putc` goes on to the next row. -/
def StartsRow (c : UInt8) (s : Console) : Prop :=
  c = newline ∨ c = carriageReturn ∨ s.cursorX.toNat = 79

instance (c : UInt8) (s : Console) : Decidable (StartsRow c s) :=
  inferInstanceAs (Decidable (_ ∨ _))

instance : (op : Op) → Decidable (Forward op)
  | .putc _ => inferInstanceAs (Decidable (_ ≠ _))
  | .puts _ => inferInstanceAs (Decidable False)
  | .clear | .scroll _ | .fontColor | .backgroundColor => inferInstanceAs (Decidable True)

/-- The rows that an operation brings on screen are all saved rows. -/
def KeepsRoom : Op → Console → Prop
  -- A new row scrolls the window only when the cursor leaves it, so it may go 24 rows further.
  | .putc c, s => StartsRow c s → s.cursorY.toNat < lastRow + 25
  | .clear, s => s.cursorY.toNat ≤ lastRow
  | .scroll offset, s => min (s.requestedRow offset) s.cursorY.toNat ≤ lastRow + 1
  | _, _ => True

instance : (op : Op) → (s : Console) → Decidable (KeepsRoom op s)
  | .putc c, s => inferInstanceAs (Decidable (StartsRow c s → _))
  | .clear, _ => inferInstanceAs (Decidable (_ ≤ _))
  | .scroll _, _ => inferInstanceAs (Decidable (_ ≤ _))
  | .puts _, _ | .fontColor, _ | .backgroundColor, _ => inferInstanceAs (Decidable True)

/-- The window, and with it every row the cursor can reach in it, is in the area. -/
structure Roomy (s : Console) : Prop where
  column : s.cursorX.toNat < 80
  above : s.screenOffset.toNat ≤ s.cursorY.toNat
  rows : s.screenOffset.toNat ≤ lastRow + 1
  row : s.cursorY.toNat ≤ lastRow + 25

theorem Roomy.row_small (roomy : s.Roomy) : s.cursorY.toNat < 2 ^ 20 := by
  have row := roomy.row
  have small := lastRow_small
  omega

/-- Before `follow`, a `putc` other than a backspace has moved the cursor forward, has
not moved the window, and has stored inside the area. -/
theorem putc_forward {c : UInt8} (notBack : c ≠ backspace) (roomy : s.Roomy) :
    ∃ t : Console, s.putc c = t.follow ∧ t.screenOffset = s.screenOffset ∧ t.cursorX.toNat < 80 ∧
      t.cursorY.toNat = s.cursorY.toNat + (if StartsRow c s then 1 else 0) ∧
      (t.LogInArea ↔ s.LogInArea) := by
  have small := roomy.row_small
  by_cases newRow : c = newline ∨ c = carriageReturn
  · have starts : StartsRow c s := newRow.elim .inl (fun h => .inr (.inl h))
    refine ⟨_, putc_newline s newRow, rfl, by simp, ?_, Iff.rfl⟩
    rw [if_pos starts]
    exact toNat_add_one (by omega)
  · -- A character that is not a line break starts a row from the last column.
    have starts : StartsRow c s ↔ s.cursorX.toNat = 79 :=
      ⟨fun h => h.elim (fun h => absurd (.inl h) newRow)
        (fun h => h.elim (fun h => absurd (.inr h) newRow) id), fun h => .inr (.inr h)⟩
    obtain ⟨moved, column⟩ := stepForward_pos (s := s.putAtCursor c) roomy.column
      (by rw [putAtCursor_cursorY]; omega)
    rw [putAtCursor_pos] at moved
    refine ⟨_, putc_char s newRow notBack, rfl, column, ?_,
      putAtCursor_logInArea c roomy.column roomy.row⟩
    have before := roomy.column
    unfold pos at moved
    simp only [starts]
    split <;> omega

theorem putc_screenOffset {c : UInt8} (notBack : c ≠ backspace) (roomy : s.Roomy) :
    (s.putc c).screenOffset.toNat ≤ lastRow + 1 ↔ (StartsRow c s → s.cursorY.toNat < lastRow + 25) := by
  obtain ⟨t, same, offset, -, row', -⟩ := putc_forward notBack roomy
  have small := roomy.row_small
  have target := follow_screenOffset (s := t) (by split at row' <;> omega)
    (by rw [offset]; have := roomy.above; omega)
  have ⟨_, above, rows, row⟩ := roomy
  have visible : t.Visible ↔ s.screenOffset.toNat ≤ t.cursorY.toNat ∧
      t.cursorY.toNat < s.screenOffset.toNat + 25 := by rw [Visible, offset]
  rw [same, target, offset]
  simp only [visible]
  -- Without a new row the cursor stays in the window; with one it may push it by a row.
  by_cases starts : StartsRow c s
  · rw [if_pos starts] at row'
    simp only [starts, forall_const]
    split <;> omega
  · rw [if_neg starts] at row'
    simp only [starts, false_imp_iff, iff_true]
    split <;> omega

theorem unlogged_logInArea (s : Console) : s.unlogged.LogInArea := by
  intro a member
  cases member

theorem keepsRoom_unlogged (op : Op) (s : Console) : KeepsRoom op s.unlogged ↔ KeepsRoom op s := by
  cases op <;> rfl

/-- From a log that is in the area, an operation leaves it in the area exactly when it
keeps room. -/
theorem exec_logInArea_iff {op : Op} (forward : Forward op) (roomy : s.Roomy)
    (fresh : s.LogInArea) : (exec op s).LogInArea ↔ KeepsRoom op s := by
  have ⟨column, above, rows, row⟩ := roomy
  have small := roomy.row_small
  cases op with
  | putc c =>
    obtain ⟨t, same, offset, -, row', log⟩ := putc_forward forward roomy
    have window := putc_screenOffset forward roomy
    rw [exec, same] at *
    have row'' : t.cursorY.toNat ≤ 2 ^ 20 := by split at row' <;> omega
    rw [follow_logInArea (by rw [offset]; exact rows) row'', log, and_iff_left fresh]
    exact window
  | puts str => exact absurd forward id
  | clear =>
    have next : (s.cursorY + 1).toNat = s.cursorY.toNat + 1 := toNat_add_one (by omega)
    change s.clear.LogInArea ↔ s.cursorY.toNat ≤ lastRow
    rw [clear_logInArea (by rw [next]; omega), and_iff_left fresh]
    omega
  | scroll offset =>
    have clamped := scroll_screenOffset offset s (by omega) (by omega)
    change (s.scroll offset).LogInArea ↔ min (s.requestedRow offset) s.cursorY.toNat ≤ lastRow + 1
    rw [scroll_logInArea offset rows (by omega), and_iff_left fresh]
    omega
  | fontColor | backgroundColor =>
    refine iff_of_true ?_ trivial
    exact (updateColor_logInArea (by exact above) (by exact rows) (by exact small.le)).mpr fresh

/-- One step: its accesses are in the area exactly when it keeps room. -/
theorem stepInArea_iff {op : Op} (forward : Forward op) (roomy : s.Roomy) :
    StepInArea op s ↔ KeepsRoom op s := by
  have roomy' : s.unlogged.Roomy := ⟨roomy.column, roomy.above, roomy.rows, roomy.row⟩
  rw [← keepsRoom_unlogged]
  exact exec_logInArea_iff forward roomy' s.unlogged_logInArea

theorem exec_roomy {op : Op} (forward : Forward op) (roomy : s.Roomy) (keeps : KeepsRoom op s) :
    (exec op s).Roomy := by
  have ⟨column, above, rows, row⟩ := roomy
  have small := roomy.row_small
  cases op with
  | putc c =>
    -- The cursor moves first, and then the window follows it.
    obtain ⟨t, same, offset, column', row', -⟩ := putc_forward forward roomy
    have window := (putc_screenOffset forward roomy).mpr keeps
    have target := follow_screenOffset (s := t) (by split at row' <;> omega)
      (by rw [offset]; omega)
    change (s.putc c).Roomy
    rw [same] at window ⊢
    refine ⟨by rw [follow_cursorX]; exact column', ?_, window, ?_⟩
    · rw [target, follow_cursorY, offset]
      split <;> split at row' <;> omega
    · rw [follow_cursorY, row']
      split
      next starts => exact keeps starts
      next => exact row
  | puts str => exact absurd forward id
  | clear =>
    have keeps : s.cursorY.toNat ≤ lastRow := keeps
    have next : (s.cursorY + 1).toNat = s.cursorY.toNat + 1 := toNat_add_one (by omega)
    exact ⟨by simp [exec], by simp [exec], by simp only [exec, clear_screenOffset, next]; omega,
      by simp only [exec, clear_cursorY, next]; omega⟩
  | scroll offset =>
    have keeps : min (s.requestedRow offset) s.cursorY.toNat ≤ lastRow + 1 := keeps
    have clamped := scroll_screenOffset offset s (by omega) (by omega)
    refine ⟨by simpa [exec] using column, ?_, ?_, by simpa [exec] using row⟩
    · rw [exec, scroll_cursorY]
      omega
    · rw [exec]
      omega
  | fontColor | backgroundColor =>
    have kept (t : Console) (above : t.screenOffset.toNat ≤ t.cursorY.toNat)
        (small : t.cursorY.toNat < 2 ^ 20) : t.updateColor.screenOffset = t.screenOffset :=
      updateColor_screenOffset (by omega) above
    refine ⟨by simpa [exec, fontColor, backgroundColor] using column, ?_, ?_,
      by simpa [exec, fontColor, backgroundColor] using row⟩
    · simp only [exec, fontColor, backgroundColor, updateColor_cursorY]
      rw [kept _ (by exact above) (by exact small)]
      exact above
    · simp only [exec, fontColor, backgroundColor]
      rw [kept _ (by exact above) (by exact small)]
      exact rows

theorem screenInit_roomy (s : Console) : s.screenInit.Roomy := by
  refine ⟨?_, ?_, ?_, ?_⟩ <;> simp

/-- Along a run of output, scrolling, clearing and recolouring, every saved-video access
is in the area exactly when every operation keeps room. -/
theorem console_inArea_iff (s : Console) (ops : List Op) (forward : ∀ op ∈ ops, Forward op) :
    Along exec StepInArea ops s.screenInit ↔ Along exec KeepsRoom ops s.screenInit :=
  along_congr Roomy ops (fun op member _ roomy => stepInArea_iff (forward op member) roomy)
    (fun op member _ roomy keeps => exec_roomy (forward op member) roomy keeps) s.screenInit_roomy

/-- A screen of text, a newline and a page key. -/
theorem console_inArea_iff_session :
    Along exec StepInArea [.putc 65, .putc newline, .clear, .scroll 12, .fontColor]
      powerOn.screenInit :=
  (console_inArea_iff powerOn _ (by decide)).mpr (by decide)

/-! ## The run that leaves the area -/

theorem newlines_cursor (n : Nat) (small : n < 2 ^ 20) (s : Console) :
    (run exec (List.replicate n (.putc newline)) s.screenInit).cursorY.toNat = n ∧
    (run exec (List.replicate n (.putc newline)) s.screenInit).cursorX = 0 := by
  induction n with
  | zero => simp
  | succ n ih =>
    obtain ⟨row, column⟩ := ih (by omega)
    rw [List.replicate_succ', run_append, run_cons, run_nil, exec, putc_newline _ (.inl rfl),
      follow_cursorY, follow_cursorX]
    refine ⟨?_, rfl⟩
    exact (toNat_add_one (by omega)).trans (by rw [row])

theorem follow_log {a : Access} (member : a ∈ s.mem.log) : a ∈ s.follow.mem.log := by
  have moved (offset : Int32) : a ∈ (s.moveWindow offset).mem.log := by
    rw [mem_moveWindow_log]
    exact .inr member
  unfold follow
  split
  · rcases scroll_cases (s.screenY - 25 + 1).toInt32 s with h | ⟨offset, h⟩ <;> rw [h]
    · exact member
    · exact moved offset
  · rwa [updateCursor_mem]

theorem putc_store_past_area (s : Console) (row : s.cursorY = 19661) (column : s.cursorX = 0) :
    ⟨.write, savedVideoMem, 0x400020⟩ ∈ accesses (.putc 65) s := by
  rw [accesses, exec, putc_char _ (by decide) (by decide)]
  apply follow_log
  rw [stepForward_mem, mem_putAtCursor_log _ _ _ rfl]
  refine .inl (.inl ?_)
  simp only [unlogged, row, column]
  rfl

/-- After 19661 newlines, printing `A` stores into the kernel image, at 0x400020. -/
theorem console_overruns_kernel_image :
    ⟨.write, savedVideoMem, 0x400020⟩ ∈ accesses (.putc 65)
      (run exec (List.replicate 19661 (.putc newline)) powerOn.screenInit) ∧
    ¬Along exec StepInArea (List.replicate 19661 (.putc newline) ++ [.putc 65])
      powerOn.screenInit := by
  obtain ⟨row, column⟩ := newlines_cursor 19661 (by decide) powerOn
  have store := putc_store_past_area _ (UInt32.toNat_inj.mp row) column
  refine ⟨store, ?_⟩
  intro safe
  -- The last step of the run makes that store.
  rw [along_append, along_cons] at safe
  have inside := safe.2.1 _ store rfl
  exact absurd inside.2 (by decide)

end Console

end Mp3Kernel
