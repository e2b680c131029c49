import Mathlib.Logic.Function.Basic
import Mathlib.Tactic
import Mp3Kernel.Library.Run

/-!
# A 32-bit machine

Conversions between the machine's integers and `Nat` and `Int`, a flat byte
memory that records the accesses made to it, and the register files that a
device exposes through an index port and a data port.
-/

namespace Mp3Kernel.Library

/-! ## Machine integers -/

theorem toInt_toInt32 (a : UInt32) : a.toInt32.toInt = (a.toNat : Int).bmod (2 ^ 32) :=
  BitVec.toInt_eq_toNat_bmod a.toBitVec

theorem toInt_toInt32_of_lt {a : UInt32} (small : a.toNat < 2 ^ 31) :
    a.toInt32.toInt = a.toNat := by
  rw [toInt_toInt32, Int.bmod_def]
  omega

theorem toNat_toUInt32 (a : Int32) : (a.toUInt32.toNat : Int) = a.toInt % 2 ^ 32 := by
  have unsigned : (a.toUInt32.toNat : Int) = a.toBitVec.toNat := rfl
  have signed : a.toInt = a.toBitVec.toInt := rfl
  have bound := a.toBitVec.isLt
  rw [unsigned, signed, BitVec.toInt_eq_toNat_bmod, Int.bmod_def]
  omega

theorem toNat_add_of_lt {a b : UInt32} (small : a.toNat + b.toNat < 2 ^ 32) :
    (a + b).toNat = a.toNat + b.toNat := by
  rw [UInt32.toNat_add, Nat.mod_eq_of_lt small]

theorem toNat_sub_of_le {a b : UInt32} (le : b.toNat ≤ a.toNat) :
    (a - b).toNat = a.toNat - b.toNat := by
  rw [UInt32.toNat_sub]
  have := a.toNat_lt
  have := b.toNat_lt
  omega

theorem toNat_add_one {a : UInt32} (small : a.toNat < 2 ^ 32 - 1) :
    (a + 1).toNat = a.toNat + 1 :=
  toNat_add_of_lt (show a.toNat + 1 < 2 ^ 32 by omega)

/-- C's division and remainder by a positive constant, on a number that is not negative. -/
theorem toInt_div_of_small {a : UInt32} {d : Int32} (small : a.toNat < 2 ^ 31) (positive : 1 < d.toInt) :
    (a.toInt32 / d).toInt = a.toNat / d.toInt := by
  -- Division by -1 is the one that can overflow.
  have notNegOne : d ≠ -1 := by
    rintro rfl
    exact absurd positive (by decide)
  rw [Int32.toInt_div_of_ne_right _ _ notNegOne, toInt_toInt32_of_lt small,
    Int.tdiv_eq_ediv_of_nonneg (Int.natCast_nonneg _)]

theorem toInt_mod_of_small {a : UInt32} {d : Int32} (small : a.toNat < 2 ^ 31) :
    (a.toInt32 % d).toInt = a.toNat % d.toInt := by
  rw [Int32.toInt_mod, toInt_toInt32_of_lt small,
    Int.tmod_eq_emod_of_nonneg (Int.natCast_nonneg _)]

/-- A signed number that is not negative is its own bit pattern. -/
theorem toUInt32_eq_ofNat {a : Int32} {n : Nat} (same : a.toInt = n) : a.toUInt32 = UInt32.ofNat n := by
  have value := toNat_toUInt32 a
  have bound := a.toUInt32.toNat_lt
  rw [same] at value
  have upper : a.toInt < 2 ^ 31 := a.toInt_lt
  apply UInt32.toNat_inj.mp
  rw [UInt32.toNat_ofNat_of_lt' (show n < 2 ^ 32 by omega)]
  omega

/-- An address is at distance `k` from `b` when its difference to `b` is `k`. -/
theorem eq_add_ofNat_iff {a b : UInt32} {k : Nat} (small : k < 2 ^ 32) :
    a = b + UInt32.ofNat k ↔ (a - b).toNat = k := by
  constructor
  · rintro rfl
    rw [UInt32.add_comm, UInt32.add_sub_cancel, UInt32.toNat_ofNat_of_lt' small]
  · rintro rfl
    rw [UInt32.ofNat_toNat, UInt32.add_comm, UInt32.sub_add_cancel]

theorem toNat_offset {b : UInt32} {k : Nat} (small : k < 2 ^ 32) :
    (b + UInt32.ofNat k - b).toNat = k :=
  (eq_add_ofNat_iff small).mp rfl

/-- A loop that stores `value k` at `dest[k]`: the bytes it reaches and those it does not. -/
theorem forLoop_update_apply (dest : UInt32) (value : Nat → UInt8) {n : Nat} (small : n ≤ 2 ^ 32)
    (bytes : UInt32 → UInt8) (a : UInt32) :
    forLoop (fun k b => Function.update b (dest + UInt32.ofNat k) (value k)) n bytes a =
      if (a - dest).toNat < n then value (a - dest).toNat else bytes a := by
  induction n with
  | zero => simp
  | succ n ih =>
    rw [forLoop_succ, Function.update_apply, ih (by omega)]
    simp only [eq_add_ofNat_iff (show n < 2 ^ 32 by omega)]
    -- Stored by an earlier round, by the last one, or not at all.
    rcases Nat.lt_trichotomy (a - dest).toNat n with before | last | beyond
    · rw [if_neg (by omega), if_pos before, if_pos (by omega)]
    · rw [if_pos last, if_pos (by omega), last]
    · rw [if_neg (by omega), if_neg (by omega), if_neg (by omega)]

/-! ## Memory -/

inductive AccessKind where
  | read
  | write
  deriving DecidableEq, Repr

/-- One byte access: through the pointer `base`, to the byte at `addr`. -/
structure Access where
  kind : AccessKind
  base : UInt32
  addr : UInt32
  deriving DecidableEq, Repr

/-- Byte-addressed memory of a 32-bit machine. The log is not part of the machine:
it records every access, the latest first, and no operation reads it. -/
structure Memory where
  bytes : UInt32 → UInt8
  log : List Access

namespace Memory

/-- The byte at `base[offset]`. -/
def load (base offset : UInt32) (m : Memory) : UInt8 × Memory :=
  (m.bytes (base + offset), { m with log := ⟨.read, base, base + offset⟩ :: m.log })

/-- `base[offset] = value`. -/
def store (base offset : UInt32) (value : UInt8) (m : Memory) : Memory where
  bytes := Function.update m.bytes (base + offset) value
  log := ⟨.write, base, base + offset⟩ :: m.log

/-- `dest[i] = src[j]`. -/
def copyByte (dest i src j : UInt32) (m : Memory) : Memory :=
  let (value, m) := m.load src j
  m.store dest i value

/-- The same bytes, with nothing recorded yet. -/
def unlogged (m : Memory) : Memory := { m with log := [] }

@[simp] theorem store_log (base offset : UInt32) (value : UInt8) (m : Memory) :
    (m.store base offset value).log = ⟨.write, base, base + offset⟩ :: m.log := rfl

@[simp] theorem copyByte_bytes (dest i src j : UInt32) (m : Memory) :
    (m.copyByte dest i src j).bytes =
      Function.update m.bytes (dest + i) (m.bytes (src + j)) := rfl

@[simp] theorem copyByte_log (dest i src j : UInt32) (m : Memory) :
    (m.copyByte dest i src j).log =
      ⟨.write, dest, dest + i⟩ :: ⟨.read, src, src + j⟩ :: m.log := rfl

/-- What a loop records is what its rounds record. -/
theorem mem_log_forLoop (body : Nat → Memory → Memory) (n : Nat) (m : Memory) (a : Access)
    (made : Nat → Prop) (round : ∀ i m, a ∈ (body i m).log ↔ made i ∨ a ∈ m.log) :
    a ∈ (forLoop body n m).log ↔ (∃ i < n, made i) ∨ a ∈ m.log := by
  induction n with
  | zero => simp
  | succ n ih =>
    rw [forLoop_succ, round, ih, Nat.exists_lt_succ_right, ← or_assoc, or_comm (a := made n)]

/-! ### What the log tells -/

/-- The log of `m'` goes on from the one of `m`, and tells of every byte that differs. -/
structure Recorded (m m' : Memory) : Prop where
  log : ∀ x ∈ m.log, x ∈ m'.log
  changed : ∀ a, m'.bytes a ≠ m.bytes a → ∃ x ∈ m'.log, x.kind = .write ∧ x.addr = a

theorem Recorded.refl (m : Memory) : Recorded m m := ⟨fun _ member => member, fun _ differs => absurd rfl differs⟩

theorem Recorded.trans {m m' m'' : Memory} (first : Recorded m m') (second : Recorded m' m'') : Recorded m m'' := by
  refine ⟨fun x member => second.log x (first.log x member), fun a differs => ?_⟩
  by_cases later : m''.bytes a = m'.bytes a
  · obtain ⟨x, member, written⟩ := first.changed a (later ▸ differs)
    exact ⟨x, second.log x member, written⟩
  · exact second.changed a later

theorem recorded_store (base offset : UInt32) (value : UInt8) (m : Memory) :
    Recorded m (m.store base offset value) := by
  refine ⟨fun x member => List.mem_cons_of_mem _ member, fun a differs => ?_⟩
  have there : a = base + offset := by
    by_contra elsewhere
    exact differs (Function.update_of_ne elsewhere _ _)
  exact ⟨_, List.mem_cons_self, rfl, there.symm⟩

theorem recorded_copyByte (dest i src j : UInt32) (m : Memory) : Recorded m (m.copyByte dest i src j) :=
  have read : Recorded m (m.load src j).2 :=
    ⟨fun _ member => List.mem_cons_of_mem _ member, fun _ differs => absurd rfl differs⟩
  read.trans (recorded_store dest i _ _)

theorem recorded_forLoop {body : Nat → Memory → Memory} (round : ∀ k m, Recorded m (body k m)) (n : Nat)
    (m : Memory) : Recorded m (forLoop body n m) :=
  forLoop_invariant body (fun _ m' => Recorded m m') n (.refl m) fun k m' _ sofar => sofar.trans (round k m')

/-! ### Little-endian words -/

/-- The 32-bit word stored at `addr`. -/
def wordAt (bytes : UInt32 → UInt8) (addr : UInt32) : UInt32 :=
  (bytes addr).toUInt32 ||| ((bytes (addr + 1)).toUInt32 <<< 8) |||
    ((bytes (addr + 2)).toUInt32 <<< 16) ||| ((bytes (addr + 3)).toUInt32 <<< 24)

/-- A word depends only on its own four bytes. -/
theorem wordAt_congr {b b' : UInt32 → UInt8} {addr : UInt32}
    (same : ∀ k < 4, b (addr + UInt32.ofNat k) = b' (addr + UInt32.ofNat k)) :
    wordAt b addr = wordAt b' addr := by
  have first : b addr = b' addr := by simpa using same 0 (by omega)
  have second : b (addr + 1) = b' (addr + 1) := same 1 (by omega)
  have third : b (addr + 2) = b' (addr + 2) := same 2 (by omega)
  have fourth : b (addr + 3) = b' (addr + 3) := same 3 (by omega)
  simp only [wordAt, first, second, third, fourth]

end Memory

/-! ## Indexed registers -/

/-- Registers behind an index port and a data port: a write to the index port
selects the register that the data port then reads and writes. -/
structure RegisterFile (ι : Type) where
  index : ι
  regs : ι → UInt8

namespace RegisterFile

variable {ι : Type} [DecidableEq ι]

def select (i : ι) (f : RegisterFile ι) : RegisterFile ι := { f with index := i }

def read (f : RegisterFile ι) : UInt8 := f.regs f.index

def write (value : UInt8) (f : RegisterFile ι) : RegisterFile ι :=
  { f with regs := Function.update f.regs f.index value }

omit [DecidableEq ι] in
@[simp] theorem select_index (i : ι) (f : RegisterFile ι) : (f.select i).index = i := rfl

omit [DecidableEq ι] in
@[simp] theorem select_regs (i : ι) (f : RegisterFile ι) : (f.select i).regs = f.regs := rfl

omit [DecidableEq ι] in
@[simp] theorem read_select (i : ι) (f : RegisterFile ι) : (f.select i).read = f.regs i := rfl

@[simp] theorem write_index (value : UInt8) (f : RegisterFile ι) :
    (f.write value).index = f.index := rfl

@[simp] theorem write_regs (value : UInt8) (f : RegisterFile ι) :
    (f.write value).regs = Function.update f.regs f.index value := rfl

end RegisterFile

end Mp3Kernel.Library
