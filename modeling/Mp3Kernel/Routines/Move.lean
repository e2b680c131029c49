import Mp3Kernel.Routines.Copy

/-!
# `memmove` and the direction flag

`memmove` copies upwards unless the source is below the destination. Then it sets
the direction flag, copies from the last byte down, and returns with the flag
still set.
-/

namespace Mp3Kernel

open Library Memory

namespace Routines

variable {dest src n : UInt32} {s : Cpu}

/-! ## `memmove` -/

/-- The rounds of `movsb` leave the place in the program and the direction flag alone. -/
theorem movsRound_keeps {k : Nat} :
    ((Cpu.movsRound .byte)^[k] s).eip = s.eip ∧ ((Cpu.movsRound .byte)^[k] s).df = s.df := by
  induction k generalizing s with
  | zero => exact ⟨rfl, rfl⟩
  | succ k ih => exact @ih (s.movsRound .byte)

/-- What the instructions in front of the string instruction do. -/
theorem memmove_setup (dest src n : UInt32) (s : Cpu) :
    ∃ t, Within memmoveCode 9 { s with eip := 0, edi := dest, esi := src, ecx := n } t ∧ t.eip = 9 ∧
      t.ecx = n ∧ t.bytes = s.bytes ∧ t.df = decide (src < dest) ∧
      t.esi = (if src < dest then src + n - 1 else src) ∧
      t.edi = if src < dest then dest + n - 1 else dest := by
  by_cases below : src < dest
  · refine ⟨_, ⟨9, Nat.le_refl 9, rfl⟩, ?_⟩
    simp [step, memmoveCode, execInstr, Cpu.next, Cpu.flags, Cpu.get, Cpu.set, below,
      UInt32.sub_eq_add_neg]
  · refine ⟨_, ⟨6, by omega, rfl⟩, ?_⟩
    simp [step, memmoveCode, execInstr, Cpu.next, Cpu.flags, Cpu.get, Cpu.set, labelPlace, below]

/-- `memmove` is its setup, as many rounds as there are bytes, and the end. -/
theorem memmove_eq (dest src n : UInt32) (s : Cpu) :
    ∃ t, memmove dest src n s = ((Cpu.movsRound .byte)^[n.toNat] t).next ∧ t.eip = 9 ∧
      t.bytes = s.bytes ∧ t.df = decide (src < dest) ∧
      t.esi = (if src < dest then src + n - 1 else src) ∧
      t.edi = if src < dest then dest + n - 1 else dest := by
  obtain ⟨t, setup, place, count, same, direction, source, target⟩ := memmove_setup dest src n s
  have rep := @within_rep _ _ memmoveCode t (.repMovs .byte) (Cpu.movsRound .byte) (fun _ => rfl)
    (fun _ => rfl) (fun _ => rfl) (by rw [place]; rfl)
  rw [count] at rep
  have ended : ((Cpu.movsRound .byte)^[n.toNat] t).next.eip = 10 := by
    rw [Cpu.next, movsRound_keeps.1, place]
  have result : memmove dest src n s = _ :=
    (setup.trans rep).iterate (Nat.le_of_eq ended.symm)
      (show _ ≤ stepBound n by simp only [stepBound]; omega)
  exact ⟨t, result, place, same, direction, source, target⟩

/-- For ranges that do not wrap around, which may overlap in any way, `memmove` ends, every byte of
the destination is the old byte of the source, and nothing else has changed. -/
theorem memmove_moves (dest src n : UInt32) (destFits : dest.toNat + n.toNat ≤ 2 ^ 32)
    (srcFits : src.toNat + n.toNat ≤ 2 ^ 32) (s : Cpu) :
    (memmove dest src n s).eip = memmoveCode.length ∧
      Stored dest n.toNat (fun k => s.bytes (src + UInt32.ofNat k)) s.bytes (memmove dest src n s).bytes := by
  obtain ⟨t, result, place, same, direction, source, target⟩ := memmove_eq dest src n s
  have fits := Nat.le_of_lt n.toNat_lt
  have copied : ((Cpu.movsRound .byte)^[n.toNat] t).bytes = copyBlock dest src n.toNat s.bytes := by
    by_cases below : src < dest
    · -- Downwards, from the last bytes.
      rw [if_pos below] at source target
      have unread : n.toNat ≤ (t.esi - (t.edi + 1)).toNat + 1 := by
        have gap : t.esi - (t.edi + 1) = src - (dest + 1) := by rw [source, target]; grind
        have order : src.toNat < dest.toNat := below
        have one : (dest + 1).toNat = (dest.toNat + 1) % 2 ^ 32 := UInt32.toNat_add dest 1
        have bound := dest.toNat_lt
        rw [gap, UInt32.toNat_sub, one]
        omega
      have first (p : UInt32) : p + n - 1 + 1 - UInt32.ofNat n.toNat = p := by
        rw [UInt32.ofNat_toNat]
        grind
      rw [iterate_movsbRound_down (by rw [direction]; exact decide_eq_true below) fits unread, same, source,
        target, first, first]
    · rw [if_neg below] at source target
      have order : dest.toNat ≤ src.toNat := UInt32.le_iff_toNat_le.mp (UInt32.not_lt.mp below)
      have ahead : Ahead dest src n.toNat := by
        intro k inside
        have size : (UInt32.ofNat k).toNat = k :=
          UInt32.toNat_ofNat_of_lt' (show k < 2 ^ 32 by omega)
        have past : (src + UInt32.ofNat k).toNat = src.toNat + k := by
          rw [toNat_add_of_lt (by omega), size]
        rw [UInt32.toNat_sub, past]
        omega
      have unread : ∀ k < Width.byte.size * n.toNat, k ≤ (t.esi + UInt32.ofNat k - t.edi).toNat := by
        rw [source, target, Width.size, Nat.one_mul]
        exact ahead
      rw [iterate_movsRound .byte (by rw [direction]; exact decide_eq_false below)
        (by simp only [Width.size]; omega) unread, same, source, target, Width.size, Nat.one_mul]
  rw [result]
  constructor
  · rw [Cpu.next, movsRound_keeps.1, place]
    rfl
  · rw [Cpu.next, copied]
    exact stored_copyBlock fits

/-- Four bytes moved up by one, over themselves. -/
theorem memmove_moves_sample :
    Stored 0x1001 4 (fun k => beforeCall.bytes (0x1000 + UInt32.ofNat k)) beforeCall.bytes
      (memmove 0x1001 0x1000 4 beforeCall).bytes :=
  (memmove_moves 0x1001 0x1000 4 (by decide) (by decide) beforeCall).2

/-! ## The direction flag -/

/-- The calls to the routines. -/
inductive Call where
  | memset (s : UInt32) (c : Int32) (n : UInt32)
  | memsetWord (s : UInt32) (c : Int32) (n : UInt32)
  | memsetDword (s : UInt32) (c : Int32) (n : UInt32)
  | memcpy (dest src n : UInt32)
  | memmove (dest src n : UInt32)
  deriving DecidableEq, Repr

def exec : Call → Cpu → Cpu
  | .memset s c n => memset s c n
  | .memsetWord s c n => memsetWord s c n
  | .memsetDword s c n => memsetDword s c n
  | .memcpy dest src n => memcpy dest src n
  | .memmove dest src n => memmove dest src n

/-- A `memmove` whose source is below its destination. -/
def Call.MovesUp : Call → Prop
  | .memmove dest src _ => src < dest
  | _ => False

instance (c : Call) : Decidable c.MovesUp := by
  cases c <;> unfold Call.MovesUp <;> infer_instance

theorem memmove_df (dest src n : UInt32) (s : Cpu) : (memmove dest src n s).df = decide (src < dest) := by
  obtain ⟨t, result, _, _, direction, _⟩ := memmove_eq dest src n s
  rw [result, Cpu.next_df, movsRound_keeps.2, direction]

/-- Of the routines only `memmove` has an instruction that sets the flag, and reaches it exactly
when the source is below the destination. -/
theorem exec_clear_iff (clear : s.df = false) (c : Call) : (exec c s).df = false ↔ ¬c.MovesUp := by
  cases c with
  | memset area c n =>
    refine iff_of_true ?_ not_false
    rw [exec, memset]
    exact iterate_step_clear (by decide) (by exact clear) _
  | memsetWord area c n =>
    refine iff_of_true ?_ not_false
    rw [exec, memsetWord]
    exact iterate_step_clear (by decide) (by exact clear) _
  | memsetDword area c n =>
    refine iff_of_true ?_ not_false
    rw [exec, memsetDword]
    exact iterate_step_clear (by decide) (by exact clear) _
  | memcpy dest src n =>
    refine iff_of_true ?_ not_false
    rw [exec, memcpy]
    exact iterate_step_clear (by decide) (by exact clear) _
  | memmove dest src n =>
    rw [exec, memmove_df, decide_eq_false_iff_not]
    rfl

/-- Over any sequence of calls that starts with the direction flag clear, the flag is clear after
every call if and only if no call is a `memmove` from an address to a higher one. -/
theorem direction_clear_iff (calls : List Call) (s : Cpu) (clear : s.df = false) :
    Along exec (fun c s => (exec c s).df = false) calls s ↔ ∀ c ∈ calls, ¬c.MovesUp := by
  induction calls generalizing s with
  | nil => simp
  | cons c calls ih =>
    rw [along_cons, List.forall_mem_cons, exec_clear_iff clear]
    apply and_congr_right
    intro down
    exact ih (exec c s) ((exec_clear_iff clear c).mpr down)

def clearCall : Cpu := { beforeCall with df := false }

theorem direction_clear_sample :
    Along exec (fun c s => (exec c s).df = false)
      [.memcpy 0x1001 0x2003 7, .memmove 0x1000 0x1001 4, .memset 0x1000 0 9] clearCall :=
  (direction_clear_iff [.memcpy 0x1001 0x2003 7, .memmove 0x1000 0x1001 4, .memset 0x1000 0 9] clearCall
    rfl).mpr (by decide)

/-- One byte moved up by one leaves the flag set. -/
theorem memmove_leaves_direction :
    clearCall.df = false ∧ ¬Along exec (fun c s => (exec c s).df = false) [.memmove 0x1001 0x1000 1] clearCall := by
  refine ⟨rfl, fun always => ?_⟩
  have kept : (memmove 0x1001 0x1000 1 clearCall).df = false := always.1
  rw [memmove_df] at kept
  exact absurd kept (by decide)

end Routines

end Mp3Kernel
