import Mp3Kernel.Console.Bounds
import Mp3Kernel.Paging.Init

/-!
# The console under paging

Nothing recycles the rows of saved video memory, and the kernel image begins where
they end. `paging_init` maps both, each to itself, so no operation of the console
faults, not even the first that goes too far. What it does there depends on its
kind: `clear` stores, and everything else only reads.
-/

namespace Mp3Kernel

open Library

namespace Console

variable {s t : Console} {limit : AccessKind → Nat}

/-! ## What is stored is recorded -/

theorem moveWindow_recorded (offset : Int32) (s : Console) : Memory.Recorded s.mem (s.moveWindow offset).mem := by
  simp only [moveWindow, updateCursor_mem]
  exact Memory.recorded_forLoop (fun k m => Memory.recorded_copyCell _ _ _ _ m) _ _

theorem scroll_recorded (offset : Int32) (s : Console) : Memory.Recorded s.mem (s.scroll offset).mem := by
  rcases scroll_cases offset s with h | ⟨by', h⟩
  · rw [h]
    exact .refl _
  · rw [h]
    exact moveWindow_recorded by' s

theorem follow_recorded (s : Console) : Memory.Recorded s.mem s.follow.mem := by
  unfold follow
  split
  · exact scroll_recorded _ s
  · rw [updateCursor_mem]
    exact .refl _

theorem putAtCursor_recorded (c : UInt8) (s : Console) : Memory.Recorded s.mem (s.putAtCursor c).mem := by
  simp only [putAtCursor]
  split
  · exact (Memory.recorded_storeCell _ _ _ _ _).trans (Memory.recorded_storeCell _ _ _ _ _)
  · exact Memory.recorded_storeCell _ _ _ _ _

theorem putc_recorded (c : UInt8) (s : Console) : Memory.Recorded s.mem (s.putc c).mem := by
  by_cases line : c = newline ∨ c = carriageReturn
  · rw [putc_newline s line]
    exact follow_recorded { s with cursorY := s.cursorY + 1, cursorX := 0 }
  · by_cases back : c = backspace
    · subst back
      have erased := putAtCursor_recorded space s.stepBack
      rw [stepBack_mem] at erased
      rw [putc_backspace]
      exact erased.trans (follow_recorded _)
    · rw [putc_char s line back]
      exact (putAtCursor_recorded c s).trans (follow_recorded (s.putAtCursor c).stepForward)

theorem clear_recorded (s : Console) : Memory.Recorded s.mem s.clear.mem := by
  have round (k : Nat) (m : Memory) : Memory.Recorded m ((m.storeCell videoMem (UInt32.ofNat k) space s.attrib).storeCell
      savedVideoMem (80 * (s.cursorY + 1) + UInt32.ofNat k) space s.attrib) :=
    (Memory.recorded_storeCell _ _ _ _ m).trans (Memory.recorded_storeCell _ _ _ _ _)
  simp only [clear, updateCursor_mem, updateCursor_attrib, updateCursor_screenOffset]
  exact Memory.recorded_forLoop round _ _

theorem redraw_recorded {m : Memory} (recorded : Memory.Recorded s.mem m) :
    Memory.Recorded s.mem (scroll 0 { s with mem := m }).mem :=
  recorded.trans (scroll_recorded 0 { s with mem := m })

theorem updateColor_recorded (s : Console) : Memory.Recorded s.mem s.updateColor.mem :=
  redraw_recorded (Memory.recorded_forLoop
    (fun k m => Memory.recorded_storeAttr savedVideoMem (UInt32.ofNat k) s.attrib m) savedCells s.mem)

/-! ## Where the accesses land -/

/-- An access on screen, or in saved video memory below the limit for its kind. -/
def Lands (limit : AccessKind → Nat) (a : Access) : Prop :=
  (a.base = videoMem ∧ displayArray.Contains a.addr) ∨
    (a.base = savedVideoMem ∧ 0x100000 ≤ a.addr.toNat ∧ a.addr.toNat < limit a.kind)

def LogLands (limit : AccessKind → Nat) (s : Console) : Prop := ∀ a ∈ s.mem.log, Lands limit a

/-- A window that begins with this row ends below the limit. -/
def WindowFits (limit row : Nat) : Prop := row ≤ 2 ^ 20 ∧ 0x100000 + 160 * (row + 25) ≤ limit

theorem display_lands (kind : AccessKind) {j : UInt32} (inside : j.toNat < screenCells) :
    Lands limit ⟨kind, videoMem, charAddr videoMem j⟩ ∧ Lands limit ⟨kind, videoMem, attrAddr videoMem j⟩ := by
  have char : (charAddr videoMem j).toNat = videoMem.toNat + 2 * j.toNat := displayArray.toNat_charAddr j inside
  have attr : (attrAddr videoMem j).toNat = videoMem.toNat + 2 * j.toNat + 1 := displayArray.toNat_attrAddr j inside
  refine ⟨.inl ⟨rfl, ?_⟩, .inl ⟨rfl, ?_⟩⟩
  all_goals
    change videoMem.toNat ≤ _ ∧ _ < videoMem.toNat + 2 * screenCells
    dsimp only
    omega

theorem saved_lands (kind : AccessKind) {j : UInt32} (small : j.toNat < 2 ^ 30)
    (below : 0x100000 + 2 * j.toNat + 2 ≤ limit kind) :
    Lands limit ⟨kind, savedVideoMem, charAddr savedVideoMem j⟩ ∧
      Lands limit ⟨kind, savedVideoMem, attrAddr savedVideoMem j⟩ := by
  let deep : CellArray := ⟨savedVideoMem, 2 ^ 30, by decide⟩
  have char : (charAddr savedVideoMem j).toNat = 0x100000 + 2 * j.toNat := deep.toNat_charAddr j small
  have attr : (attrAddr savedVideoMem j).toNat = 0x100000 + 2 * j.toNat + 1 := deep.toNat_attrAddr j small
  refine ⟨.inr ⟨rfl, ?_, ?_⟩, .inr ⟨rfl, ?_, ?_⟩⟩
  all_goals
    dsimp only
    omega

theorem windowAccess_lands {kind : AccessKind} {row : UInt32} (fits : WindowFits (limit kind) row.toNat) {i : Nat}
    (bound : i < screenCells) {a : Access} (access : WindowAccess kind row i a) : Lands limit a := by
  have index := toNat_windowIndex fits.1 bound
  have shown : (UInt32.ofNat i).toNat < screenCells := by
    rw [displayArray.toNat_index bound]
    exact bound
  have last := fits.2
  have size : screenCells = 2000 := rfl
  have row' := fits.1
  have deep : Lands limit ⟨kind, savedVideoMem, charAddr savedVideoMem (80 * row + UInt32.ofNat i)⟩ ∧
      Lands limit ⟨kind, savedVideoMem, attrAddr savedVideoMem (80 * row + UInt32.ofNat i)⟩ :=
    saved_lands kind (by omega) (by omega)
  rcases access with (rfl | rfl) | (rfl | rfl)
  · exact (display_lands .write shown).1
  · exact (display_lands .write shown).2
  · exact deep.1
  · exact deep.2

theorem moveWindow_lands (offset : Int32) (fits : WindowFits (limit .read) (s.moveWindow offset).screenOffset.toNat)
    (lands : s.LogLands limit) : (s.moveWindow offset).LogLands limit := by
  intro a member
  rcases (mem_moveWindow_log offset s a).mp member with ⟨i, bound, access⟩ | before
  · exact windowAccess_lands fits bound access
  · exact lands a before

theorem scroll_lands (offset : Int32) (fits : WindowFits (limit .read) (s.scroll offset).screenOffset.toNat)
    (lands : s.LogLands limit) : (s.scroll offset).LogLands limit := by
  rcases scroll_cases offset s with h | ⟨by', h⟩
  · rw [h]
    exact lands
  · rw [h] at fits ⊢
    exact moveWindow_lands by' fits lands

theorem follow_lands (fits : WindowFits (limit .read) s.follow.screenOffset.toNat) (lands : s.LogLands limit) :
    s.follow.LogLands limit := by
  unfold follow at fits ⊢
  split at fits
  next hidden =>
    rw [if_pos hidden]
    exact scroll_lands _ fits lands
  next shown =>
    rw [if_neg shown, LogLands, updateCursor_mem]
    exact lands

theorem putAtCursor_lands (c : UInt8) (column : s.cursorX.toNat < 80) (row : s.cursorY.toNat ≤ lastRow + 25)
    (below : 0x400000 ≤ limit .write) (lands : s.LogLands limit) : (s.putAtCursor c).LogLands limit := by
  have index : (80 * s.cursorY + s.cursorX.toUInt32).toNat = s.pos := toNat_cursorIndex row
  have inside := pos_lt_savedCells column row
  unfold savedCells at inside
  have deep : Lands limit ⟨.write, savedVideoMem, charAddr savedVideoMem (80 * s.cursorY + s.cursorX.toUInt32)⟩ ∧
      Lands limit ⟨.write, savedVideoMem, attrAddr savedVideoMem (80 * s.cursorY + s.cursorX.toUInt32)⟩ :=
    saved_lands .write (by omega) (by omega)
  have screen (shown : s.screenY < 25) :
      (80 * s.screenY + s.screenX.toUInt32).toNat < screenCells := by
    have y : s.screenY.toNat < 25 := shown
    rw [toNat_cursorIndex (by omega)]
    change 80 * s.screenY.toNat + s.cursorX.toNat < 25 * 80
    omega
  intro a member
  simp only [putAtCursor, Memory.mem_storeCell_log] at member
  rcases member with (rfl | rfl) | earlier
  · exact deep.1
  · exact deep.2
  · split at earlier
    next shown =>
      rcases (Memory.mem_storeCell_log _ _ _ _ _ a).mp earlier with (rfl | rfl) | before
      · exact (display_lands .write (screen shown)).1
      · exact (display_lands .write (screen shown)).2
      · exact lands a before
    next => exact lands a earlier

theorem clear_lands (fits : WindowFits (limit .write) s.clear.screenOffset.toNat) (lands : s.LogLands limit) :
    s.clear.LogLands limit := by
  rw [clear_screenOffset] at fits
  intro a member
  rcases (mem_clear_log s a).mp member with ⟨i, bound, access⟩ | before
  · exact windowAccess_lands fits bound access
  · exact lands a before

theorem updateColor_lands (fits : WindowFits (limit .read) s.updateColor.screenOffset.toNat)
    (below : 0x400000 ≤ limit .write) (lands : s.LogLands limit) : s.updateColor.LogLands limit := by
  refine scroll_lands 0 fits fun a member => ?_
  have made := (Memory.mem_log_forLoop
    (fun i (m : Memory) => m.storeAttr savedVideoMem (UInt32.ofNat i) s.attrib) savedCells s.mem a _
    (fun i m => Memory.mem_storeAttr_log _ _ _ m a)).mp member
  rcases made with ⟨i, bound, rfl⟩ | before
  · have index : (UInt32.ofNat i).toNat = i := savedArray.toNat_index bound
    unfold savedCells at bound
    exact (saved_lands .write (by omega) (by omega)).2
  · exact lands a before

/-! ## One operation -/

/-- Anything but a backspace at the origin. A string is here the characters that it prints. -/
def Sane : Op → Console → Prop
  | .putc c, s => c = backspace → 0 < s.pos
  | .puts _, _ => False
  | _, _ => True

/-- The rows that the operation brings on screen are all saved rows, of which a backspace only brings earlier ones. -/
def HasRoom (op : Op) (s : Console) : Prop := Sane op s ∧ (op = .putc backspace ∨ KeepsRoom op s)

instance : (op : Op) → (s : Console) → Decidable (Sane op s)
  | .putc c, s => inferInstanceAs (Decidable (c = backspace → 0 < s.pos))
  | .puts _, _ => inferInstanceAs (Decidable False)
  | .clear, _ | .scroll _, _ | .fontColor, _ | .backgroundColor, _ => inferInstanceAs (Decidable True)

instance (op : Op) (s : Console) : Decidable (HasRoom op s) := inferInstanceAs (Decidable (_ ∧ _))

/-- How an operation goes through the rows that it brings on screen. -/
def kindOf : Op → AccessKind
  | .clear => .write
  | _ => .read

theorem forward_of_sane {op : Op} (sane : Sane op s) (other : op ≠ .putc backspace) : Forward op := by
  cases op with
  | putc c => exact fun back => other (back ▸ rfl)
  | puts str => exact sane
  | clear | scroll offset | fontColor | backgroundColor => trivial

/-- `putc` before its `follow`. -/
theorem putc_moves {c : UInt8} (sane : c = backspace → 0 < s.pos) (roomy : s.Roomy) :
    ∃ t : Console, s.putc c = t.follow ∧ t.screenOffset = s.screenOffset ∧ t.cursorX.toNat < 80 ∧
      t.cursorY.toNat ≤ s.cursorY.toNat + (if c = backspace then 0 else 1) ∧
      ∀ limit : AccessKind → Nat, 0x400000 ≤ limit .write → s.LogLands limit → t.LogLands limit := by
  have small := roomy.row_small
  have column := roomy.column
  by_cases line : c = newline ∨ c = carriageReturn
  · have other : c ≠ backspace := by rcases line with rfl | rfl <;> decide
    refine ⟨_, putc_newline s line, rfl, by simp, ?_, fun _ _ lands => lands⟩
    rw [if_neg other]
    exact (toNat_add_one (by omega)).le
  · by_cases back : c = backspace
    · subst back
      obtain ⟨moved, column'⟩ := stepBack_pos column (sane rfl)
      have row : s.stepBack.cursorY.toNat ≤ s.cursorY.toNat := by
        unfold pos at moved
        omega
      have row' := roomy.row
      refine ⟨_, putc_backspace s, s.stepBack_screenOffset, column', row, fun limit below lands => ?_⟩
      exact putAtCursor_lands space column' (by omega) below fun a member => lands a (s.stepBack_mem ▸ member)
    · obtain ⟨moved, column'⟩ := stepForward_pos (s := s.putAtCursor c) column (by exact Nat.lt_trans small (by decide))
      rw [putAtCursor_pos] at moved
      refine ⟨_, putc_char s line back, rfl, column', ?_,
        fun limit below lands => putAtCursor_lands c column roomy.row below lands⟩
      rw [if_neg back]
      unfold pos at moved
      omega

theorem erase_roomy (sane : 0 < s.pos) (roomy : s.Roomy) : (s.putc backspace).Roomy := by
  obtain ⟨t, same, offset, column, row, -⟩ := putc_moves (fun _ => sane) roomy
  rw [if_pos rfl] at row
  have ⟨_, above, rows, last⟩ := roomy
  have small := lastRow_small
  have target := follow_screenOffset (s := t) (by omega) (by rw [offset]; omega)
  rw [same]
  refine ⟨by rw [follow_cursorX]; exact column, ?_, ?_, by rw [follow_cursorY]; omega⟩
  · rw [target, follow_cursorY]
    split
    next visible => exact visible.1
    next => omega
  · rw [target, offset]
    split <;> omega

theorem hasRoom_roomy {op : Op} (room : HasRoom op s) (roomy : s.Roomy) : (exec op s).Roomy := by
  obtain ⟨sane, keeps⟩ := room
  by_cases back : op = .putc backspace
  · subst back
    exact erase_roomy (sane rfl) roomy
  · exact exec_roomy (forward_of_sane sane back) roomy (keeps.resolve_left back)

/-- No operation moves the window far beyond the saved rows. -/
theorem exec_offset {op : Op} (sane : Sane op s) (roomy : s.Roomy) :
    (exec op s).screenOffset.toNat ≤ lastRow + 26 := by
  have ⟨_, above, rows, row⟩ := roomy
  have small := lastRow_small
  have recoloured (t : Console) (above : t.screenOffset.toNat ≤ t.cursorY.toNat) (low : t.cursorY.toNat < 2 ^ 31) :
      t.updateColor.screenOffset = t.screenOffset := updateColor_screenOffset low above
  cases op with
  | putc c =>
    obtain ⟨t, same, offset, -, row', -⟩ := putc_moves sane roomy
    have near : t.cursorY.toNat ≤ s.cursorY.toNat + 1 := by split at row' <;> omega
    have target := follow_screenOffset (s := t) (by omega) (by rw [offset]; omega)
    rw [exec, same, target, offset]
    split <;> omega
  | puts str => exact sane.elim
  | clear =>
    rw [exec, clear_screenOffset, toNat_add_one (by omega)]
    omega
  | scroll offset =>
    have clamped := scroll_screenOffset offset s (by omega) (by omega)
    rw [exec]
    omega
  | fontColor | backgroundColor =>
    simp only [exec, fontColor, backgroundColor]
    rw [recoloured _ (by exact above) (by exact Nat.lt_of_le_of_lt row (by omega))]
    exact Nat.le_trans rows (by omega)

theorem exec_lands {op : Op} (sane : Sane op s) (roomy : s.Roomy) (below : 0x400000 ≤ limit .write)
    (fits : WindowFits (limit (kindOf op)) (exec op s).screenOffset.toNat) (lands : s.LogLands limit) :
    (exec op s).LogLands limit := by
  cases op with
  | putc c =>
    obtain ⟨t, same, -, -, -, log⟩ := putc_moves sane roomy
    rw [exec, same] at fits ⊢
    exact follow_lands fits (log limit below lands)
  | puts str => exact sane.elim
  | clear => exact clear_lands fits lands
  | scroll offset => exact scroll_lands offset fits lands
  | fontColor | backgroundColor => exact updateColor_lands fits below lands

theorem exec_recorded {op : Op} (sane : Sane op s) : Memory.Recorded s.mem (exec op s).mem := by
  have recoloured (t : Console) (same : t.mem = s.mem) : Memory.Recorded s.mem t.updateColor.mem :=
    same ▸ updateColor_recorded t
  cases op with
  | putc c => exact putc_recorded c s
  | puts str => exact sane.elim
  | clear => exact clear_recorded s
  | scroll offset => exact scroll_recorded offset s
  | fontColor | backgroundColor =>
    simp only [exec, fontColor, backgroundColor]
    exact recoloured _ rfl

/-! ## Runs -/

/-- `paging_init` in the memory of the console, which goes on from there with an empty log. -/
def pagingOn (p : Paging) (s : Console) : Console :=
  { s with mem := ⟨(Paging.pagingInit (p.inMemory s.mem.bytes)).bytes, []⟩ }

/-- The end of saved video memory, for both kinds of access. -/
def savedEnd : AccessKind → Nat := fun _ => 0x400000

/-- The end of the kernel's page for the accesses of one kind. -/
def kernelEnd (kind : AccessKind) : AccessKind → Nat := fun k => if k = kind then 0x800000 else 0x400000

/-- A console that has kept room since `start`. -/
structure Running (start t : Console) : Prop where
  roomy : t.Roomy
  lands : t.LogLands savedEnd
  recorded : Memory.Recorded start.mem t.mem

variable {start : Console} {op : Op}

theorem exec_running (room : HasRoom op t) (running : Running start t) : Running start (exec op t) := by
  have roomy := hasRoom_roomy room running.roomy
  have fits : WindowFits (savedEnd (kindOf op)) (exec op t).screenOffset.toNat := by
    have rows := roomy.rows
    unfold lastRow at rows
    unfold WindowFits savedEnd
    omega
  exact ⟨roomy, exec_lands room.1 running.roomy le_rfl fits running.lands,
    running.recorded.trans (exec_recorded room.1)⟩

/-- The first operation without room may go on into the kernel's page, with accesses of one kind. -/
theorem exec_lands_kernel (sane : Sane op t) (running : Running start t) :
    (exec op t).LogLands (kernelEnd (kindOf op)) := by
  have wider (a : Access) (lands : Lands savedEnd a) : Lands (kernelEnd (kindOf op)) a := by
    refine lands.imp_right fun saved => ⟨saved.1, saved.2.1, Nat.lt_of_lt_of_le saved.2.2 ?_⟩
    unfold savedEnd kernelEnd
    split <;> omega
  have fits : WindowFits (kernelEnd (kindOf op) (kindOf op)) (exec op t).screenOffset.toNat := by
    have rows := exec_offset sane running.roomy
    unfold lastRow at rows
    unfold WindowFits kernelEnd
    rw [if_pos rfl]
    omega
  refine exec_lands sane running.roomy ?_ fits fun a member => wider a (running.lands a member)
  unfold kernelEnd
  split <;> omega

theorem lands_mapped {a : Access} {kind : AccessKind} (lands : Lands (kernelEnd kind) a) : Paging.Mapped a.addr := by
  rw [Paging.mapped_iff]
  rcases lands with ⟨-, low, high⟩ | ⟨-, low, high⟩
  · have low : 0xB8000 ≤ a.addr.toNat := low
    have high : a.addr.toNat < 0xB8000 + 2 * (25 * 80) := high
    omega
  · have high : a.addr.toNat < 0x800000 := Nat.lt_of_lt_of_le high (by unfold kernelEnd; split <;> omega)
    omega

/-- A byte outside the screen and the saved rows changes only by an access that has left them. -/
theorem kept_of_lands {kind : AccessKind} (recorded : Memory.Recorded start.mem t.mem)
    (lands : t.LogLands (kernelEnd kind)) {a : UInt32}
    (elsewhere : a.toNat < 0xB8000 ∨ (0x400000 ≤ a.toNat ∧ kind ≠ .write)) :
    t.mem.bytes a = start.mem.bytes a := by
  by_contra differs
  obtain ⟨x, member, written, rfl⟩ := recorded.changed a differs
  rcases lands x member with ⟨-, low, high⟩ | ⟨-, low, high⟩
  · have low : 0xB8000 ≤ x.addr.toNat := low
    have high : x.addr.toNat < 0xB8000 + 2 * (25 * 80) := high
    omega
  · rcases elsewhere with below | ⟨beyond, read⟩
    · omega
    · rw [written, kernelEnd, if_neg (Ne.symm read)] at high
      omega

/-- Room is what keeps the accesses below the kernel. -/
theorem hasRoom_iff (sane : Sane op t) (running : Running start t) :
    HasRoom op t ↔ ∀ x ∈ (exec op t).mem.log, x.addr.toNat < 0x400000 := by
  have apart : videoMem ≠ savedVideoMem := by decide
  constructor
  · intro room x member
    rcases (exec_running room running).lands x member with ⟨-, -, high⟩ | ⟨-, -, high⟩
    · have high : x.addr.toNat < 0xB8000 + 2 * (25 * 80) := high
      omega
    · exact high
  · intro below
    by_cases back : op = .putc backspace
    · exact ⟨sane, .inl back⟩
    · have fresh : t.LogInArea := fun x member base =>
        (running.lands x member).elim (fun screen => absurd (screen.1.symm.trans base) apart) (·.2)
      have inside : (exec op t).LogInArea := fun x member base =>
        (exec_lands_kernel sane running x member).elim (fun screen => absurd (screen.1.symm.trans base) apart)
          fun saved => ⟨saved.2.1, below x member⟩
      exact ⟨sane, .inr ((exec_logInArea_iff (forward_of_sane sane back) running.roomy fresh).mp inside)⟩

theorem running_after (p : Paging) (s : Console) {before after : List Op}
    (booted : Along exec HasRoom before s.screenInit)
    (room : Along exec HasRoom after ((run exec before s.screenInit).pagingOn p)) :
    Running ((run exec before s.screenInit).pagingOn p)
      (run exec after ((run exec before s.screenInit).pagingOn p)) := by
  have roomy : (run exec before s.screenInit).Roomy :=
    booted.invariant Roomy (fun op s room roomy => hasRoom_roomy room roomy) s.screenInit_roomy
  have initial : Running ((run exec before s.screenInit).pagingOn p) ((run exec before s.screenInit).pagingOn p) :=
    ⟨⟨roomy.column, roomy.above, roomy.rows, roomy.row⟩, fun x member => absurd member List.not_mem_nil, .refl _⟩
  exact room.invariant _ (fun op t room running => exec_running room running) initial

/-- Paging does not stop the console. In a run that had room so far, before and after `paging_init` has built its
tables in the same memory, the tables stay as they were built, whatever the next operation is, and every access of the
console is to an address that they map to itself. The next operation has room exactly when all of its accesses stay
below the kernel image. Those that do not are stores for `clear`, and reads for everything else, which leaves the
image as it was. -/
theorem console_passes_paging (p : Paging) (s : Console) (before after : List Op) (op : Op)
    (booted : Along exec HasRoom before s.screenInit)
    (room : Along exec HasRoom after ((run exec before s.screenInit).pagingOn p))
    (sane : Sane op (run exec after ((run exec before s.screenInit).pagingOn p))) :
    let start := (run exec before s.screenInit).pagingOn p
    let t := run exec after start
    let next := exec op t
    (∀ a, (((Paging.pagingInit p).inMemory next.mem.bytes).translate a).map Mapping.physical =
      if Paging.Mapped a then some a else none) ∧
    (∀ x ∈ next.mem.log, Paging.Mapped x.addr) ∧
    (HasRoom op t ↔ ∀ x ∈ next.mem.log, x.addr.toNat < 0x400000) ∧
    (∀ x ∈ next.mem.log, 0x400000 ≤ x.addr.toNat → x.kind = kindOf op) ∧
    (op ≠ .clear → ∀ a : UInt32, 0x400000 ≤ a.toNat → next.mem.bytes a = start.mem.bytes a) := by
  intro start t next
  have running : Running start t := running_after p s booted room
  have lands : next.LogLands (kernelEnd (kindOf op)) := exec_lands_kernel sane running
  have recorded : Memory.Recorded start.mem next.mem := running.recorded.trans (exec_recorded sane)
  refine ⟨fun a => ?_, fun x member => lands_mapped (lands x member), hasRoom_iff sane running, ?_, ?_⟩
  · have kept := Paging.translate_inMemory (p.inMemory (run exec before s.screenInit).mem.bytes)
      (fun b _ high => kept_of_lands recorded lands (.inl (by omega))) a
    rw [← Paging.pagingInit_inMemory (run exec before s.screenInit).mem.bytes, kept, Paging.translate_mapped]
  · intro x member beyond
    by_contra other
    rcases lands x member with ⟨-, -, high⟩ | ⟨-, -, high⟩
    · have high : x.addr.toNat < 0xB8000 + 2 * (25 * 80) := high
      omega
    · rw [kernelEnd, if_neg other] at high
      omega
  · intro other a beyond
    have reads : kindOf op ≠ .write := by
      cases op with
      | clear => exact absurd rfl other
      | putc c | puts str | scroll offset | fontColor | backgroundColor => exact nofun
    exact kept_of_lands recorded lands (.inr ⟨beyond, reads⟩)

theorem console_passes_paging_sample :
    HasRoom .clear (run exec [.putc newline, .scroll (-1), .putc backspace]
      ((run exec [.putc 65, .clear] powerOn.screenInit).pagingOn ⟨fun _ => 0, 0, 0, 0⟩)) ↔
    ∀ x ∈ (exec .clear (run exec [.putc newline, .scroll (-1), .putc backspace]
      ((run exec [.putc 65, .clear] powerOn.screenInit).pagingOn ⟨fun _ => 0, 0, 0, 0⟩))).mem.log,
        x.addr.toNat < 0x400000 :=
  (console_passes_paging ⟨fun _ => 0, 0, 0, 0⟩ powerOn [.putc 65, .clear] [.putc newline, .scroll (-1), .putc backspace]
    .clear (by decide) (by decide) (by decide)).2.2.1

end Console

end Mp3Kernel
