import Mp3Kernel.Library.Machine

/-!
# Arrays of text cells in memory

A text cell is a character byte followed by an attribute byte. This module
describes stores into an array of cells by what they do to the cells, so that
later proofs need no addresses: a store changes the one cell it names, and
arrays that do not overlap do not see each other's stores.
-/

namespace Mp3Kernel.Library

structure Cell where
  char : UInt8
  attr : UInt8
  deriving DecidableEq, Repr

/-- The address of the character byte of cell `i`. -/
def charAddr (base i : UInt32) : UInt32 := base + i <<< 1

/-- The address of the attribute byte of cell `i`. -/
def attrAddr (base i : UInt32) : UInt32 := base + (i <<< 1 + 1)

/-- A range of cells that does not wrap around the address space. -/
structure CellArray where
  base : UInt32
  size : Nat
  fits : base.toNat + 2 * size ≤ 2 ^ 32

namespace CellArray

def Disjoint (A B : CellArray) : Prop :=
  A.base.toNat + 2 * A.size ≤ B.base.toNat ∨ B.base.toNat + 2 * B.size ≤ A.base.toNat

theorem Disjoint.symm {A B : CellArray} (h : A.Disjoint B) : B.Disjoint A := Or.symm h

theorem toNat_charAddr (A : CellArray) (i : UInt32) (bound : i.toNat < A.size) :
    (charAddr A.base i).toNat = A.base.toNat + 2 * i.toNat := by
  have fits := A.fits
  have shifted : (i <<< 1).toNat = 2 * i.toNat := by
    rw [UInt32.toNat_shiftLeft]
    simp only [UInt32.reduceToNat, Nat.reduceMod, Nat.shiftLeft_eq]
    omega
  rw [charAddr, toNat_add_of_lt (by omega), shifted]

theorem toNat_attrAddr (A : CellArray) (i : UInt32) (bound : i.toNat < A.size) :
    (attrAddr A.base i).toNat = A.base.toNat + 2 * i.toNat + 1 := by
  have fits := A.fits
  have char := A.toNat_charAddr i bound
  have next : attrAddr A.base i = charAddr A.base i + 1 := (UInt32.add_assoc _ _ _).symm
  rw [next, toNat_add_of_lt, char]
  · rfl
  · rw [char, show (1 : UInt32).toNat = 1 from rfl]
    omega

theorem toNat_index (A : CellArray) {i : Nat} (bound : i < A.size) :
    (UInt32.ofNat i).toNat = i := by
  have fits := A.fits
  exact UInt32.toNat_ofNat_of_lt' (by simp only [UInt32.size]; omega)

/-- The bytes of an array. -/
def Contains (A : CellArray) (a : UInt32) : Prop :=
  A.base.toNat ≤ a.toNat ∧ a.toNat < A.base.toNat + 2 * A.size

instance (A : CellArray) (a : UInt32) : Decidable (A.Contains a) := inferInstanceAs (Decidable (_ ∧ _))

theorem addr_ne_of_not_contains (A : CellArray) {a i : UInt32} (out : ¬A.Contains a) (inside : i.toNat < A.size) :
    a ≠ charAddr A.base i ∧ a ≠ attrAddr A.base i := by
  have char := A.toNat_charAddr i inside
  have attr := A.toNat_attrAddr i inside
  unfold Contains at out
  simp only [ne_eq, ← UInt32.toNat_inj]
  omega

/-- Within one array, two bytes coincide only when they are the same byte of the same cell. -/
private theorem addr_eq_iff (A : CellArray) {i j : UInt32}
    (inside : i.toNat < A.size) (inside' : j.toNat < A.size) :
    (charAddr A.base i = charAddr A.base j ↔ i = j) ∧
    charAddr A.base i ≠ attrAddr A.base j ∧ attrAddr A.base i ≠ charAddr A.base j ∧
    (attrAddr A.base i = attrAddr A.base j ↔ i = j) := by
  have ci := A.toNat_charAddr i inside
  have ai := A.toNat_attrAddr i inside
  have cj := A.toNat_charAddr j inside'
  have aj := A.toNat_attrAddr j inside'
  refine ⟨?_, ?_, ?_, ?_⟩ <;> simp only [ne_eq, ← UInt32.toNat_inj] <;> omega

private theorem Disjoint.addr_ne {A B : CellArray} (apart : A.Disjoint B) {i j : UInt32}
    (inA : i.toNat < A.size) (inB : j.toNat < B.size) :
    charAddr A.base i ≠ charAddr B.base j ∧ charAddr A.base i ≠ attrAddr B.base j ∧
    attrAddr A.base i ≠ charAddr B.base j ∧ attrAddr A.base i ≠ attrAddr B.base j := by
  have ci := A.toNat_charAddr i inA
  have ai := A.toNat_attrAddr i inA
  have cj := B.toNat_charAddr j inB
  have aj := B.toNat_attrAddr j inB
  unfold Disjoint at apart
  refine ⟨?_, ?_, ?_, ?_⟩ <;> simp only [ne_eq, ← UInt32.toNat_inj] <;> omega

end CellArray

namespace Memory

/-- Cell `i` of the array that starts at `base`. -/
def cell (m : Memory) (base : UInt32) (i : Nat) : Cell :=
  ⟨m.bytes (charAddr base (UInt32.ofNat i)), m.bytes (attrAddr base (UInt32.ofNat i))⟩

/-- The two stores that fill a cell. -/
def storeCell (base i : UInt32) (char attr : UInt8) (m : Memory) : Memory :=
  (m.store base (i <<< 1) char).store base (i <<< 1 + 1) attr

/-- The store that recolours a cell. -/
def storeAttr (base i : UInt32) (attr : UInt8) (m : Memory) : Memory :=
  m.store base (i <<< 1 + 1) attr

/-- The two byte copies that copy a cell. -/
def copyCell (dest i src j : UInt32) (m : Memory) : Memory :=
  (m.copyByte dest (i <<< 1) src (j <<< 1)).copyByte dest (i <<< 1 + 1) src (j <<< 1 + 1)

theorem storeCell_bytes (base i : UInt32) (char attr : UInt8) (m : Memory) :
    (m.storeCell base i char attr).bytes =
      Function.update (Function.update m.bytes (charAddr base i) char) (attrAddr base i) attr := rfl

theorem storeAttr_bytes (base i : UInt32) (attr : UInt8) (m : Memory) :
    (m.storeAttr base i attr).bytes = Function.update m.bytes (attrAddr base i) attr := rfl

theorem mem_storeCell_log (base i : UInt32) (char attr : UInt8) (m : Memory) (a : Access) :
    a ∈ (m.storeCell base i char attr).log ↔
      (a = ⟨.write, base, charAddr base i⟩ ∨ a = ⟨.write, base, attrAddr base i⟩) ∨
        a ∈ m.log := by
  simp only [storeCell, store_log, List.mem_cons, charAddr, attrAddr]
  tauto

theorem mem_storeAttr_log (base i : UInt32) (attr : UInt8) (m : Memory) (a : Access) :
    a ∈ (m.storeAttr base i attr).log ↔ a = ⟨.write, base, attrAddr base i⟩ ∨ a ∈ m.log := by
  simp only [storeAttr, store_log, List.mem_cons, attrAddr]

theorem mem_copyCell_log (dest i src j : UInt32) (m : Memory) (a : Access) :
    a ∈ (m.copyCell dest i src j).log ↔
      ((a = ⟨.write, dest, charAddr dest i⟩ ∨ a = ⟨.write, dest, attrAddr dest i⟩) ∨
        (a = ⟨.read, src, charAddr src j⟩ ∨ a = ⟨.read, src, attrAddr src j⟩)) ∨ a ∈ m.log := by
  simp only [copyCell, copyByte_log, List.mem_cons, charAddr, attrAddr]
  tauto

theorem recorded_storeCell (base i : UInt32) (char attr : UInt8) (m : Memory) :
    Recorded m (m.storeCell base i char attr) :=
  (recorded_store base _ char m).trans (recorded_store base _ attr _)

theorem recorded_storeAttr (base i : UInt32) (attr : UInt8) (m : Memory) : Recorded m (m.storeAttr base i attr) :=
  recorded_store base _ attr m

theorem recorded_copyCell (dest i src j : UInt32) (m : Memory) : Recorded m (m.copyCell dest i src j) :=
  (recorded_copyByte dest _ src _ m).trans (recorded_copyByte dest _ src _ _)

/-- Filling a cell changes that cell only. -/
theorem cell_storeCell (A : CellArray) (j : UInt32) (char attr : UInt8) (m : Memory) {i : Nat}
    (bound : i < A.size) (inside : j.toNat < A.size) :
    (m.storeCell A.base j char attr).cell A.base i =
      if i = j.toNat then ⟨char, attr⟩ else m.cell A.base i := by
  have index := A.toNat_index bound
  have same : i = j.toNat ↔ UInt32.ofNat i = j := by rw [← UInt32.toNat_inj, index]
  obtain ⟨cc, ca, ac, aa⟩ := A.addr_eq_iff (i := UInt32.ofNat i) (j := j) (by omega) inside
  simp only [cell, storeCell_bytes, Function.update_apply, cc, ca, ac, aa, same, if_false]
  split <;> rfl

/-- Filling a cell of one array leaves the others alone. -/
theorem cell_storeCell_of_disjoint {A B : CellArray} (apart : A.Disjoint B) (j : UInt32)
    (char attr : UInt8) (m : Memory) {i : Nat} (bound : i < A.size) (inside : j.toNat < B.size) :
    (m.storeCell B.base j char attr).cell A.base i = m.cell A.base i := by
  have index := A.toNat_index bound
  obtain ⟨cc, ca, ac, aa⟩ := apart.addr_ne (i := UInt32.ofNat i) (j := j) (by omega) inside
  simp only [cell, storeCell_bytes, Function.update_apply, cc, ca, ac, aa, if_false]

theorem cell_storeAttr (A : CellArray) (j : UInt32) (attr : UInt8) (m : Memory) {i : Nat}
    (bound : i < A.size) (inside : j.toNat < A.size) :
    (m.storeAttr A.base j attr).cell A.base i =
      if i = j.toNat then ⟨(m.cell A.base i).char, attr⟩ else m.cell A.base i := by
  have index := A.toNat_index bound
  have same : i = j.toNat ↔ UInt32.ofNat i = j := by rw [← UInt32.toNat_inj, index]
  obtain ⟨-, ca, -, aa⟩ := A.addr_eq_iff (i := UInt32.ofNat i) (j := j) (by omega) inside
  simp only [cell, storeAttr_bytes, Function.update_apply, ca, aa, same, if_false]
  split <;> rfl

theorem cell_copyCell_of_disjoint {A B : CellArray} (apart : A.Disjoint B) (j src k : UInt32)
    (m : Memory) {i : Nat} (bound : i < A.size) (inside : j.toNat < B.size) :
    (m.copyCell B.base j src k).cell A.base i = m.cell A.base i := by
  have index := A.toNat_index bound
  obtain ⟨cc, ca, ac, aa⟩ := apart.addr_ne (i := UInt32.ofNat i) (j := j) (by omega) inside
  rw [charAddr.eq_def B.base, attrAddr.eq_def B.base] at *
  simp only [cell, copyCell, copyByte_bytes, Function.update_apply, cc, ca, ac, aa, if_false]

/-- Copying a cell into another array is filling it with the source cell. -/
theorem copyCell_bytes {A B : CellArray} (apart : A.Disjoint B) (i j : UInt32) (m : Memory)
    (inA : i.toNat < A.size) (inB : j.toNat < B.size) :
    (m.copyCell A.base i B.base j).bytes =
      (m.storeCell A.base i (m.cell B.base j.toNat).char (m.cell B.base j.toNat).attr).bytes := by
  obtain ⟨-, ca, -, -⟩ := apart.addr_ne inA inB
  have index : UInt32.ofNat j.toNat = j := UInt32.ofNat_toNat
  have kept : Function.update m.bytes (charAddr A.base i) (m.bytes (charAddr B.base j))
      (attrAddr B.base j) = m.bytes (attrAddr B.base j) := Function.update_of_ne ca.symm _ _
  rw [storeCell_bytes, cell, index]
  exact congrArg (Function.update _ (attrAddr A.base i)) kept

theorem cell_copyCell {A B : CellArray} (apart : A.Disjoint B) (j k : UInt32) (m : Memory) {i : Nat}
    (bound : i < A.size) (inA : j.toNat < A.size) (inB : k.toNat < B.size) :
    (m.copyCell A.base j B.base k).cell A.base i =
      if i = j.toNat then m.cell B.base k.toNat else m.cell A.base i := by
  have same := copyCell_bytes apart j k m inA inB
  rw [cell, same, ← cell, cell_storeCell A _ _ _ _ bound inA]

/-! ### Loops over cells -/

section LoopRules

variable {body : Nat → Memory → Memory} {base : UInt32} (m : Memory) {n i : Nat}

/-- A cell that no round touches. -/
theorem cell_forLoop_of_untouched
    (untouched : ∀ k < n, ∀ m, (body k m).cell base i = m.cell base i) :
    (forLoop body n m).cell base i = m.cell base i := by
  apply forLoop_invariant body (fun _ m' => m'.cell base i = m.cell base i) n rfl
  intro k m' round same
  rw [untouched k round, same]

/-- A loop that fills one cell a round, from cell `first` on. What a round stores may depend
on memory, as long as the rounds before it have left that part of memory alone. -/
theorem cell_forLoop (first : Nat) (value : Memory → Cell)
    (round : ∀ k < n, ∀ m,
      (body k m).cell base i = if i = first + k then value m else m.cell base i)
    (stable : i - first < n → value (forLoop body (i - first) m) = value m) :
    (forLoop body n m).cell base i =
      if first ≤ i ∧ i < first + n then value m else m.cell base i := by
  induction n with
  | zero => rw [forLoop_zero, if_neg (by omega)]
  | succ n ih =>
    have before := ih (fun k h => round k (by omega)) (fun h => stable (by omega))
    rw [forLoop_succ, round n (Nat.lt_succ_self n), before]
    by_cases last : i = first + n
    · -- Round `n` is the one that fills this cell.
      have own : i - first = n := by omega
      rw [if_pos last, if_pos (by omega), ← own, stable (by omega)]
    · rw [if_neg last]
      simp only [show first ≤ i ∧ i < first + (n + 1) ↔ first ≤ i ∧ i < first + n by omega]

/-- The same for a loop that begins with cell 0. -/
theorem cell_forLoop_zero (value : Memory → Cell)
    (round : ∀ k < n, ∀ m, (body k m).cell base i = if i = k then value m else m.cell base i)
    (stable : i < n → value (forLoop body i m) = value m) :
    (forLoop body n m).cell base i = if i < n then value m else m.cell base i := by
  have loop := cell_forLoop m 0 value (fun k h m => by rw [Nat.zero_add, round k h]) stable
  simpa using loop

end LoopRules

section Loops

variable {A B : CellArray} (m : Memory) {n i : Nat}

theorem cell_fillLoop (c attr : UInt8) (total : n ≤ A.size) (bound : i < A.size) :
    (forLoop (fun k (m : Memory) => m.storeCell A.base (UInt32.ofNat k) c attr) n m).cell A.base i =
      if i < n then ⟨c, attr⟩ else m.cell A.base i := by
  refine cell_forLoop_zero m (fun _ => ⟨c, attr⟩) (fun k round m => ?_) fun _ => rfl
  have index := A.toNat_index (round.trans_le total)
  rw [cell_storeCell A _ _ _ _ bound (by omega), index]

theorem cell_fillLoop_of_disjoint (apart : A.Disjoint B) (c attr : UInt8) (total : n ≤ A.size)
    (bound : i < B.size) :
    (forLoop (fun k (m : Memory) => m.storeCell A.base (UInt32.ofNat k) c attr) n m).cell B.base i =
      m.cell B.base i := by
  apply cell_forLoop_of_untouched
  intro k round m
  have index := A.toNat_index (round.trans_le total)
  exact cell_storeCell_of_disjoint apart.symm _ _ _ _ bound (by omega)

theorem cell_recolourLoop (attr : UInt8) (total : n ≤ A.size) (bound : i < A.size) :
    (forLoop (fun k (m : Memory) => m.storeAttr A.base (UInt32.ofNat k) attr) n m).cell A.base i =
      if i < n then ⟨(m.cell A.base i).char, attr⟩ else m.cell A.base i := by
  have round (k : Nat) (h : k < n) (m : Memory) :
      (m.storeAttr A.base (UInt32.ofNat k) attr).cell A.base i =
        if i = k then ⟨(m.cell A.base i).char, attr⟩ else m.cell A.base i := by
    have index := A.toNat_index (h.trans_le total)
    rw [cell_storeAttr A _ _ _ bound (by omega), index]
  refine cell_forLoop_zero m (fun m => ⟨(m.cell A.base i).char, attr⟩) round fun inside => ?_
  -- The rounds before round `i` are about other cells, so its character is still the old one.
  have kept := cell_forLoop_of_untouched m (n := i) fun k h m =>
    (round k (h.trans inside) m).trans (if_neg (by omega))
  simp only [kept]

/-- Copying does not change the source array, wherever in it the copy starts. -/
theorem cell_copyLoop_of_disjoint (apart : A.Disjoint B) (src start : UInt32)
    (total : n ≤ A.size) (bound : i < B.size) :
    (forLoop (fun k (m : Memory) => m.copyCell A.base (UInt32.ofNat k) src
      (start + UInt32.ofNat k)) n m).cell B.base i = m.cell B.base i := by
  apply cell_forLoop_of_untouched
  intro k round m
  have index := A.toNat_index (round.trans_le total)
  exact cell_copyCell_of_disjoint apart.symm _ _ _ _ bound (by omega)

private theorem toNat_start_add (B : CellArray) (start : UInt32) {k : Nat}
    (inside : start.toNat + k < B.size) : (start + UInt32.ofNat k).toNat = start.toNat + k := by
  have fits := B.fits
  have index : (UInt32.ofNat k).toNat = k := B.toNat_index (by omega)
  rw [toNat_add_of_lt (by omega), index]

/-- Copying `n` cells from position `start` of `B` makes them the first cells of `A`. -/
theorem cell_copyLoop (apart : A.Disjoint B) (start : UInt32) (total : n ≤ A.size)
    (room : start.toNat + n ≤ B.size) (bound : i < A.size) :
    (forLoop (fun k (m : Memory) => m.copyCell A.base (UInt32.ofNat k) B.base
      (start + UInt32.ofNat k)) n m).cell A.base i =
        if i < n then m.cell B.base (start.toNat + i) else m.cell A.base i := by
  refine cell_forLoop_zero m (fun m => m.cell B.base (start.toNat + i)) (fun k round m => ?_)
    fun inside => cell_copyLoop_of_disjoint m apart B.base start (by omega) (by omega)
  have index := A.toNat_index (round.trans_le total)
  have source := toNat_start_add B start (k := k) (by omega)
  rw [cell_copyCell apart _ _ _ bound (by omega) (by omega), index, source]
  split
  next own => rw [own]
  next => rfl

/-- One loop that fills the first cells of `A` and the cells of `B` from `start` on. -/
theorem cell_fillBothLoop (apart : A.Disjoint B) (start : UInt32) (c attr : UInt8)
    (total : n ≤ A.size) (room : start.toNat + n ≤ B.size) (bound : i < A.size) :
    (forLoop (fun k (m : Memory) => (m.storeCell A.base (UInt32.ofNat k) c attr).storeCell B.base
      (start + UInt32.ofNat k) c attr) n m).cell A.base i =
        if i < n then ⟨c, attr⟩ else m.cell A.base i := by
  refine cell_forLoop_zero m (fun _ => ⟨c, attr⟩) (fun k round m => ?_) fun _ => rfl
  have index := A.toNat_index (round.trans_le total)
  have target := toNat_start_add B start (k := k) (by omega)
  rw [cell_storeCell_of_disjoint apart _ _ _ _ bound (by omega),
    cell_storeCell A _ _ _ _ bound (by omega), index]

theorem cell_fillBothLoop_right (apart : A.Disjoint B) (start : UInt32) (c attr : UInt8)
    (total : n ≤ A.size) (room : start.toNat + n ≤ B.size) (bound : i < B.size) :
    (forLoop (fun k (m : Memory) => (m.storeCell A.base (UInt32.ofNat k) c attr).storeCell B.base
      (start + UInt32.ofNat k) c attr) n m).cell B.base i =
        if start.toNat ≤ i ∧ i < start.toNat + n then ⟨c, attr⟩ else m.cell B.base i := by
  refine cell_forLoop m start.toNat (fun _ => ⟨c, attr⟩) (fun k round m => ?_) fun _ => rfl
  have index := A.toNat_index (round.trans_le total)
  have target := toNat_start_add B start (k := k) (by omega)
  rw [cell_storeCell B _ _ _ _ bound (by omega), target,
    cell_storeCell_of_disjoint apart.symm _ _ _ _ bound (by omega)]

end Loops

/-! ### Bytes outside an array -/

section Outside

variable {A : CellArray} {a : UInt32} {i : UInt32} (m : Memory)

theorem storeCell_outside (out : ¬A.Contains a) (inside : i.toNat < A.size) (c attr : UInt8) :
    (m.storeCell A.base i c attr).bytes a = m.bytes a := by
  obtain ⟨char, colour⟩ := A.addr_ne_of_not_contains out inside
  rw [storeCell_bytes, Function.update_of_ne colour, Function.update_of_ne char]

theorem copyCell_outside (out : ¬A.Contains a) (inside : i.toNat < A.size) (src j : UInt32) :
    (m.copyCell A.base i src j).bytes a = m.bytes a := by
  obtain ⟨char, colour⟩ := A.addr_ne_of_not_contains out inside
  rw [charAddr] at char
  rw [attrAddr] at colour
  rw [copyCell, copyByte_bytes, Function.update_of_ne colour, copyByte_bytes, Function.update_of_ne char]

/-- A byte that no round stores to. -/
theorem forLoop_outside {body : Nat → Memory → Memory} {n : Nat}
    (round : ∀ k < n, ∀ m : Memory, (body k m).bytes a = m.bytes a) : (forLoop body n m).bytes a = m.bytes a :=
  forLoop_invariant body (fun _ m' => m'.bytes a = m.bytes a) n rfl fun k m' inside same => by
    rw [round k inside, same]

end Outside

end Memory

end Mp3Kernel.Library
