import Mathlib.Logic.Function.Basic
import Mathlib.Tactic

/-!
# An endless sheet of text

Rows of fixed width, one after another without end, and a caret. The symbols
are of any type with a chosen blank. Two properties are tracked: nothing is
written ahead of the caret, and a line that is being edited stands on the sheet
from where it was begun up to the caret.
-/

namespace Mp3Kernel.Library

structure Sheet (α : Type) where
  text : Nat → α
  caret : Nat

namespace Sheet

variable {α : Type}

def fresh (blank : α) : Sheet α := ⟨fun _ => blank, 0⟩

/-- Write a symbol at the caret and step past it. -/
def write (a : α) (t : Sheet α) : Sheet α := ⟨Function.update t.text t.caret a, t.caret + 1⟩

/-- Move the caret to the beginning of the next row. -/
def nextRow (width : Nat) (t : Sheet α) : Sheet α :=
  { t with caret := width * (t.caret / width + 1) }

/-- Step back and blank the symbol there. -/
def eraseBack (blank : α) (t : Sheet α) : Sheet α :=
  ⟨Function.update t.text (t.caret - 1) blank, t.caret - 1⟩

theorem caret_lt_nextRow {width : Nat} (positive : 0 < width) (t : Sheet α) :
    t.caret < (t.nextRow width).caret :=
  Nat.lt_mul_div_succ t.caret positive

/-! ## Nothing ahead of the caret -/

def BlankAhead (blank : α) (t : Sheet α) : Prop := ∀ i, t.caret ≤ i → t.text i = blank

theorem blankAhead_fresh (blank : α) : (fresh blank).BlankAhead blank := fun _ _ => rfl

variable {blank : α} {t : Sheet α}

theorem BlankAhead.write (ahead : t.BlankAhead blank) (a : α) : (t.write a).BlankAhead blank := by
  intro i bound
  simp only [Sheet.write, Function.update_apply] at bound ⊢
  rw [if_neg (by omega)]
  exact ahead i (by omega)

theorem BlankAhead.nextRow (ahead : t.BlankAhead blank) {width : Nat} (positive : 0 < width) :
    (t.nextRow width).BlankAhead blank := fun i bound =>
  ahead i ((t.caret_lt_nextRow positive).le.trans bound)

theorem BlankAhead.eraseBack (ahead : t.BlankAhead blank) : (t.eraseBack blank).BlankAhead blank := by
  intro i bound
  simp only [Sheet.eraseBack, Function.update_apply] at bound ⊢
  split
  · rfl
  · exact ahead i (by omega)

/-! ## A line under edit -/

/-- `entry` stands on the sheet from `start` on, and the caret is right behind it. -/
structure Holds (t : Sheet α) (start : Nat) (entry : List α) : Prop where
  caret : t.caret = start + entry.length
  text : ∀ k a, entry[k]? = some a → t.text (start + k) = a

theorem holds_nil (t : Sheet α) : t.Holds t.caret [] := ⟨rfl, by simp⟩

theorem Holds.write {start : Nat} {entry : List α} (h : t.Holds start entry) (a : α) :
    (t.write a).Holds start (entry ++ [a]) := by
  obtain ⟨caret, text⟩ := h
  refine ⟨by simp [Sheet.write, caret, Nat.add_assoc], ?_⟩
  intro k b found
  simp only [Sheet.write, Function.update_apply, caret, Nat.add_left_cancel_iff]
  -- A symbol of the old entry, the new one at its end, or none.
  rcases Nat.lt_trichotomy k entry.length with inside | last | beyond
  · rw [List.getElem?_append_left inside] at found
    rw [if_neg (by omega), text k b found]
  · rw [if_pos last]
    simpa [last] using found
  · rw [List.getElem?_eq_none (by simp; omega)] at found
    cases found

theorem Holds.eraseBack {start : Nat} {entry : List α} (h : t.Holds start entry) (ne : entry ≠ []) :
    (t.eraseBack blank).Holds start entry.dropLast := by
  obtain ⟨caret, text⟩ := h
  have positive := List.length_pos_iff.mpr ne
  refine ⟨by simp only [Sheet.eraseBack, caret, List.length_dropLast]; omega, ?_⟩
  intro k b found
  have inside := (List.getElem?_eq_some_iff.mp found).1
  rw [List.length_dropLast] at inside
  rw [List.getElem?_dropLast, if_pos inside] at found
  simp only [Sheet.eraseBack]
  -- The erased place is right behind what is left of the entry.
  rw [Function.update_of_ne (by omega), text k b found]

end Sheet

end Mp3Kernel.Library
