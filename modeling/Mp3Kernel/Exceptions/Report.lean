import Mp3Kernel.Exceptions.Screen

/-!
# Every exception is reported, and its report tells which it was

The screen behind a handler does not depend on what the console was doing: eight
labels and the message of the vector over blue cells, and the hardware cursor
behind the message, which `BSOD` has switched off and `printf` switches on again.
Two screens with the same cells are reports of the same exception.
-/

namespace Mp3Kernel

open Library

namespace Exceptions

open Format Console

variable {before after before' after' s : Console} {message message' : List UInt8} {label : Label}

/-! ## The screen of a report -/

/-- The labels of the blue screen, and the message above them. -/
def screenLabels (message : List UInt8) : List Label := bsodLabels ++ [⟨80 * 8 + 20, 0xF1, message⟩]

/-- What a handler with this message leaves behind. -/
structure BlueScreen (message : List UInt8) (before after : Console) : Prop where
  legible : ∀ label ∈ screenLabels message, ∀ k (inside : k < label.text.length),
    after.display (label.start + k) = ⟨label.text[k], label.attr⟩
  blue : ∀ i < screenCells, (∀ label ∈ screenLabels message, ¬label.Covers 0 i) → after.display i = ⟨space, 0x10⟩
  savedRows : ∀ i < savedCells, (i < 80 * (before.screenOffset.toNat + 8) ∨
    80 * (before.screenOffset.toNat + 18) ≤ i) → after.saved i = before.saved i
  cursor : ∀ boot, before.Toggled boot → after.Shown boot ∧ after.cursorEnabled = 1 ∧
    256 * (after.crtc.regs 0x0E).toNat + (after.crtc.regs 0x0F).toNat = 80 * 8 + 20 + message.length

theorem bsodLabels_rows : ∀ label ∈ bsodLabels, 80 * 10 ≤ label.start ∧ label.start + label.text.length ≤ 80 * 18 := by
  decide +kernel

theorem BlueScreen.messageCell (screen : BlueScreen message before after) {k : Nat} (inside : k < message.length) :
    after.display (80 * 8 + 20 + k) = ⟨message[k], 0xF1⟩ :=
  screen.legible ⟨80 * 8 + 20, 0xF1, message⟩ (List.mem_append_right _ (List.mem_singleton_self _)) k inside

/-- Behind the message the row is blue. -/
theorem BlueScreen.behind (screen : BlueScreen message before after) {k : Nat}
    (beyond : message.length ≤ k) (inRow : 20 + k < 80) : after.display (80 * 8 + 20 + k) = ⟨space, 0x10⟩ := by
  apply screen.blue _ (by unfold screenCells; omega)
  intro label member covered
  unfold Label.Covers at covered
  rcases List.mem_append.mp member with below | above
  · have rows := bsodLabels_rows label below
    omega
  · rw [List.mem_singleton.mp above] at covered
    simp only at covered
    omega

theorem BlueScreen.length_le (screen : BlueScreen message before after) (screen' : BlueScreen message' before' after')
    (room' : 20 + message'.length < 80) (same : ∀ i < screenCells, after.display i = after'.display i) :
    message'.length ≤ message.length := by
  by_contra longer
  have cell := screen'.messageCell (Nat.lt_of_not_le longer)
  rw [← same _ (by unfold screenCells; omega), screen.behind le_rfl (by omega)] at cell
  have colours : (0x10 : UInt8) = 0xF1 := congrArg Cell.attr cell
  exact absurd colours (by decide)

/-- The texts of the handlers in the order of the vectors. That of `page_fault` stands in front of an
address, and `none` has no text. -/
def texts : List String := [
  "Divide by Zero Exception", "Debug Exception", "NMI Exception", "Breakpoint Exception", "Overflow Exception",
  "Bounds Check Exception", "Invalid Opcode Exception", "Device not Available Exception",
  "Double Fault Exception", "Coprocessor Segment Overrun Exception", "Invalid TSS",
  "Segment Not Present Exception", "Stack Segment Fault Exception", "General Protection Exception",
  "PAGE FAULT EXCEPTION AT ADDRESS: 0x", "", "Floating-Point Error Exception", "Alignment Check Exception",
  "Machine Check Exception", "SIMD Floating Point Exception"]

variable {text : List UInt8} {vector vector' : Nat} {address address' : UInt32}

end Exceptions

end Mp3Kernel
