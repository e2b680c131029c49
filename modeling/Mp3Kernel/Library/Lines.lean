import Mathlib.Data.List.Infix
import Mathlib.Tactic

/-!
# Lists in pieces between separators

What happens to the pieces of a list when it is put together from two parts: all
pieces but one are pieces of a part, and the one at the seam is the last piece of
the first part and the first piece of the second one. Two lists can also be gone
through side by side, the shorter one filled up.
-/

namespace Mp3Kernel.Library

variable {α : Type} [DecidableEq α] {sep x : α} {l r : List α} {n : Nat}

/-- The piece in front of the first separator. -/
def firstPiece (sep : α) (l : List α) : List α := (l.splitOn sep).headD []

/-- The piece behind the last separator. -/
def lastPiece (sep : α) (l : List α) : List α := (l.splitOn sep).getLastD []

theorem splitOn_eq_first_cons (sep : α) (l : List α) : l.splitOn sep = firstPiece sep l :: (l.splitOn sep).tail := by
  rw [firstPiece, List.headD_eq_head?_getD, List.head?_eq_some_head (List.splitOn_ne_nil sep l), Option.getD_some,
    List.cons_head_tail]

theorem splitOn_eq_append_last (sep : α) (l : List α) :
    l.splitOn sep = (l.splitOn sep).dropLast ++ [lastPiece sep l] := by
  rw [lastPiece, List.getLastD_eq_getLast?, List.getLast?_eq_some_getLast (List.splitOn_ne_nil sep l),
    Option.getD_some, List.dropLast_concat_getLast]

theorem splitOn_append (sep : α) (l r : List α) : (l ++ r).splitOn sep =
    (l.splitOn sep).dropLast ++ (lastPiece sep l ++ firstPiece sep r) :: (r.splitOn sep).tail := by
  induction l with
  | nil => exact splitOn_eq_first_cons sep r
  | cons x l ih =>
    have whole := splitOn_eq_append_last sep l
    rw [List.cons_append, lastPiece, List.splitOn_cons_eq_if_modifyHead, List.splitOn_cons_eq_if_modifyHead, ih]
    split
    next =>
      rw [whole]
      simp only [← List.cons_append, List.dropLast_concat, List.getLastD_concat]
    next =>
      rw [whole, List.dropLast_concat]
      cases (l.splitOn sep).dropLast with
      | nil => simp
      | cons piece pieces =>
        simp only [List.cons_append, List.modifyHead_cons]
        simp only [← List.cons_append, List.dropLast_concat, List.getLastD_concat]

theorem length_le_of_suffix (pieces : ∀ piece ∈ (l ++ r).splitOn sep, piece.length ≤ n) :
    ∀ piece ∈ r.splitOn sep, piece.length ≤ n := by
  rw [splitOn_append] at pieces
  rw [splitOn_eq_first_cons]
  intro piece member
  rcases List.mem_cons.mp member with rfl | later
  · have seam := pieces _ (List.mem_append_right _ List.mem_cons_self)
    rw [List.length_append] at seam
    omega
  · exact pieces piece (List.mem_append_right _ (List.mem_cons_of_mem _ later))

/-- A part that is longer than every piece has a separator. -/
theorem mem_of_longer (pieces : ∀ piece ∈ (l ++ r).splitOn sep, piece.length ≤ n) (longer : n < l.length) :
    sep ∈ l := by
  by_contra none
  rw [splitOn_append, lastPiece, List.splitOn_eq_singleton none] at pieces
  have seam := pieces _ (List.mem_append_right _ List.mem_cons_self)
  rw [List.length_append] at seam
  simp at seam
  omega

theorem lastPiece_append (l : List α) (other : x ≠ sep) : lastPiece sep (l ++ [x]) = lastPiece sep l ++ [x] := by
  have single : [x].splitOn sep = [[x]] := List.splitOn_eq_singleton (by simpa using other.symm)
  rw [lastPiece, splitOn_append, firstPiece, single]
  simp

theorem lastPiece_append_cons (l r : List α) : lastPiece sep (l ++ sep :: r) = lastPiece sep r := by
  rw [lastPiece, List.splitOn_append_cons_self, splitOn_eq_append_last sep r, ← List.append_assoc,
    List.getLastD_concat]

theorem length_splitOn_le : (l.splitOn sep).length ≤ l.length + 1 := by
  induction l with
  | nil => exact Nat.le_refl 1
  | cons x l ih =>
    rw [List.splitOn_cons_eq_if_modifyHead, List.length_cons]
    split
    next => exact Nat.succ_le_succ ih
    next =>
      rw [List.length_modifyHead]
      exact Nat.le_succ_of_le ih

theorem length_le_of_mem_splitOn {piece : List α} (member : piece ∈ l.splitOn sep) : piece.length ≤ l.length := by
  induction l generalizing piece with
  | nil =>
    rw [List.splitOn_nil] at member
    rw [List.mem_singleton.mp member]
  | cons x l ih =>
    rw [List.splitOn_cons_eq_if_modifyHead] at member
    split at member
    next =>
      rcases List.mem_cons.mp member with rfl | later
      · exact Nat.zero_le _
      · exact Nat.le_succ_of_le (ih later)
    next =>
      rw [splitOn_eq_first_cons sep l] at member ih
      rw [List.modifyHead_cons] at member
      rcases List.mem_cons.mp member with rfl | later
      · exact Nat.succ_le_succ (ih List.mem_cons_self)
      · exact Nat.le_succ_of_le (ih (List.mem_cons_of_mem _ later))

/-! ## Two lists side by side -/

section SideBySide

variable {β : Type} {visit : Nat → α → α → List β} {fill : α}

/-- What `visit` makes of the elements at each place of the two lists. -/
def sideBySide (visit : Nat → α → α → List β) (fill : α) (l r : List α) : List β :=
  (List.range (max l.length r.length)).flatMap fun k => visit k (l.getD k fill) (r.getD k fill)

omit [DecidableEq α] in
/-- The first place, and the others. -/
theorem sideBySide_step (more : l ≠ [] ∨ r ≠ []) : sideBySide visit fill l r =
    visit 0 (l.headD fill) (r.headD fill) ++ sideBySide (fun k => visit (k + 1)) fill l.tail r.tail := by
  have length : max l.length r.length = max l.tail.length r.tail.length + 1 := by
    rw [List.length_tail, List.length_tail]
    have positive : 0 < l.length ∨ 0 < r.length :=
      more.imp List.length_pos_of_ne_nil List.length_pos_of_ne_nil
    omega
  have rest (l : List α) (k : Nat) : l.getD (k + 1) fill = l.tail.getD k fill := by
    cases l <;> rfl
  rw [sideBySide, length, List.range_succ_eq_map, List.flatMap_cons, List.flatMap_map, List.headD_eq_getD,
    List.headD_eq_getD]
  simp only [Nat.succ_eq_add_one, rest]
  rfl

omit [DecidableEq α] in
theorem mem_sideBySide {y : β} : y ∈ sideBySide visit fill l r ↔
    ∃ k, k < max l.length r.length ∧ y ∈ visit k (l.getD k fill) (r.getD k fill) := by
  simp only [sideBySide, List.mem_flatMap, List.mem_range]

omit [DecidableEq α] in
/-- A list without repetitions, when its elements tell the place that they are made for. -/
theorem nodup_sideBySide (place : β → Nat)
    (each : ∀ k, k < max l.length r.length → (visit k (l.getD k fill) (r.getD k fill)).Nodup)
    (placed : ∀ k, k < max l.length r.length → ∀ y ∈ visit k (l.getD k fill) (r.getD k fill), place y = k) :
    (sideBySide visit fill l r).Nodup := by
  refine List.nodup_flatMap.mpr ⟨fun k member => each k (List.mem_range.mp member), ?_⟩
  refine List.nodup_range.imp_of_mem fun {j k} first second different y here there => ?_
  rw [List.mem_range] at first second
  exact different ((placed j first y here).symm.trans (placed k second y there))

end SideBySide

end Mp3Kernel.Library
