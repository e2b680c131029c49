import Mathlib.Data.List.Induction
import Mp3Kernel.Pic.Basic

/-!
# The masks as sixteen switches

After the initialisation both data ports are mask registers. A call to
`enable_irq` or `disable_irq` then reads one of them and writes it back with one
bit changed, so a sequence of calls leaves in each bit what the last call for it
has put there.
-/

namespace Mp3Kernel

open Library

namespace Pics

variable {p p' p'' : Pics} {c : Call} {k : Nat}

/-- Both data ports are mask registers. -/
def Ready (p : Pics) : Prop := p.master.phase = .mask ∧ p.slave.phase = .mask

/-- The two states differ in the mask registers at most. -/
structure SameBut (p p' : Pics) : Prop where
  masterMask : p'.masterMask = p.masterMask
  slaveMask : p'.slaveMask = p.slaveMask
  master : p'.master = { p.master with imr := p'.master.imr }
  slave : p'.slave = { p.slave with imr := p'.slave.imr }

/-- The value that the call leaves in the bit of its interrupt. -/
def Call.masks : Call → Bool
  | .enable _ => false
  | .disable _ => true

/-! ## One bit -/

theorem getLsbD_bit {irqshift : UInt32} (small : irqshift.toNat < 8) (i : Nat) :
    ((1 : UInt32) <<< irqshift).toBitVec.getLsbD i = decide (i = irqshift.toNat) := by
  have amount : (irqshift.toBitVec % 32).toNat = irqshift.toNat := by
    rw [BitVec.toNat_umod]
    exact Nat.mod_eq_of_lt (show irqshift.toNat < 32 by omega)
  have one : (1 : UInt32).toBitVec = 1#32 := rfl
  rw [UInt32.toBitVec_shiftLeft, BitVec.shiftLeft_eq', amount, one]
  simp only [BitVec.getLsbD_shiftLeft, BitVec.getLsbD_one]
  rcases Nat.lt_trichotomy i irqshift.toNat with below | same | above
  · simp [below, show i ≠ irqshift.toNat by omega]
  · simp [same, show irqshift.toNat < 32 by omega]
  · simp [show ¬i < irqshift.toNat by omega, show i ≠ irqshift.toNat by omega,
      show i - irqshift.toNat ≠ 0 by omega]

theorem getLsbD_cleared (imr : UInt8) {irqshift : UInt32} (small : irqshift.toNat < 8) {i : Nat}
    (inside : i < 8) :
    (imr.toUInt32 &&& ~~~(1 <<< irqshift)).toUInt8.toBitVec.getLsbD i =
      if i = irqshift.toNat then false else imr.toBitVec.getLsbD i := by
  simp only [UInt32.toBitVec_toUInt8, UInt32.toBitVec_and, UInt32.toBitVec_not, UInt8.toBitVec_toUInt32,
    BitVec.getLsbD_setWidth, BitVec.getLsbD_and, BitVec.getLsbD_not, getLsbD_bit small i]
  by_cases same : i = irqshift.toNat
  · simp [same]
  · simp [same, inside, show i < 32 by omega]

theorem getLsbD_set (imr : UInt8) {irqshift : UInt32} (small : irqshift.toNat < 8) {i : Nat}
    (inside : i < 8) :
    (imr.toUInt32 ||| (1 <<< irqshift)).toUInt8.toBitVec.getLsbD i =
      if i = irqshift.toNat then true else imr.toBitVec.getLsbD i := by
  simp only [UInt32.toBitVec_toUInt8, UInt32.toBitVec_or, UInt8.toBitVec_toUInt32,
    BitVec.getLsbD_setWidth, BitVec.getLsbD_or, getLsbD_bit small i]
  by_cases same : i = irqshift.toNat
  · simp [same, small]
  · simp [same, inside, show i < 32 by omega]

/-! ## One call -/

/-- The byte that a call writes back. -/
def Call.written (c : Call) (irqshift : UInt32) (imr : UInt8) : UInt8 :=
  match c with
  | .enable _ => (imr.toUInt32 &&& ~~~(1 <<< irqshift)).toUInt8
  | .disable _ => (imr.toUInt32 ||| (1 <<< irqshift)).toUInt8

theorem getLsbD_written (c : Call) (imr : UInt8) {irqshift : UInt32} (small : irqshift.toNat < 8)
    {i : Nat} (inside : i < 8) :
    (c.written irqshift imr).toBitVec.getLsbD i =
      if i = irqshift.toNat then c.masks else imr.toBitVec.getLsbD i := by
  cases c with
  | enable _ => exact getLsbD_cleared imr small inside
  | disable _ => exact getLsbD_set imr small inside

theorem exec_master (ready : p.Ready) (low : c.irqNum < 8) :
    exec c p = { p with master := { p.master with imr := c.written c.irqNum p.master.imr } } := by
  cases c with
  | enable irqNum | disable irqNum =>
    have low' : irqNum < 8 := low
    simp only [exec, enableIrq, disableIrq, maskPort, if_pos low', inb, outb, masterPort, slavePort,
      Pic.writeData, ready.1, Call.written, Call.irqNum]
    rfl

theorem exec_slave (ready : p.Ready) (high : ¬c.irqNum < 8) :
    exec c p = { p with slave := { p.slave with imr := c.written (c.irqNum - 8) p.slave.imr } } := by
  cases c with
  | enable irqNum | disable irqNum =>
    have high' : ¬irqNum < 8 := high
    simp only [exec, enableIrq, disableIrq, maskPort, if_neg high', inb, outb, masterPort, slavePort,
      Pic.writeData, ready.2, Call.written, Call.irqNum]
    rfl

theorem exec_sameBut (ready : p.Ready) (c : Call) : SameBut p (exec c p) := by
  by_cases low : c.irqNum < 8
  · rw [exec_master ready low]
    exact ⟨rfl, rfl, rfl, rfl⟩
  · rw [exec_slave ready low]
    exact ⟨rfl, rfl, rfl, rfl⟩

/-- A call puts its value into the bit of its own interrupt, and no other bit changes. -/
theorem masked_exec (ready : p.Ready) (range : c.irqNum < 16) (inside : k < 16) :
    masked (exec c p) k = if k = c.irqNum.toNat then c.masks else masked p k := by
  have bound : c.irqNum.toNat < 16 := range
  by_cases low : c.irqNum < 8
  · have low' : c.irqNum.toNat < 8 := low
    rw [exec_master ready low]
    simp only [masked]
    split
    next first => exact getLsbD_written c p.master.imr low' first
    next second => rw [if_neg (by omega)]
  · have high' : 8 ≤ c.irqNum.toNat := UInt32.le_iff_toNat_le.mp (UInt32.not_lt.mp low)
    have shift : (c.irqNum - 8).toNat = c.irqNum.toNat - 8 := toNat_sub_of_le high'
    rw [exec_slave ready low]
    simp only [masked]
    split
    next first => rw [if_neg (by omega)]
    next second =>
      rw [getLsbD_written c p.slave.imr (by omega) (by omega), shift]
      congr 1
      exact propext ⟨fun _ => by omega, fun _ => by omega⟩

/-- An end-of-interrupt is no initialisation word. -/
theorem outb_eoi {port : UInt16} (command : port = masterPort ∨ port = slavePort) (inside : k < 8) (p : Pics) :
    p.outb (0x60 ||| UInt8.ofNat k) port = p := by
  rcases command with rfl | rfl <;> interval_cases k <;> rfl

/-! ## Sequences of calls -/

theorem SameBut.refl (p : Pics) : SameBut p p := ⟨rfl, rfl, rfl, rfl⟩

theorem SameBut.trans (first : SameBut p p') (second : SameBut p' p'') : SameBut p p'' := by
  constructor
  · rw [second.masterMask, first.masterMask]
  · rw [second.slaveMask, first.slaveMask]
  · rw [second.master, first.master]
  · rw [second.slave, first.slave]

theorem SameBut.ready (same : SameBut p p') (ready : p.Ready) : p'.Ready := by
  rw [Ready, same.master, same.slave]
  exact ready

/-- A state is its masks and what the calls keep. -/
theorem SameBut.ext (same : SameBut p p') (same' : SameBut p p'')
    (masks : ∀ k < 16, masked p' k = masked p'' k) : p' = p'' := by
  have master : p'.master.imr = p''.master.imr := by
    apply UInt8.toBitVec_inj.mp
    apply BitVec.eq_of_getLsbD_eq
    intro i inside
    have bit := masks i (by omega)
    rw [masked, masked, if_pos inside, if_pos inside] at bit
    exact bit
  have slave : p'.slave.imr = p''.slave.imr := by
    apply UInt8.toBitVec_inj.mp
    apply BitVec.eq_of_getLsbD_eq
    intro i inside
    have bit := masks (i + 8) (by omega)
    rw [masked, masked, if_neg (by omega), if_neg (by omega), Nat.add_sub_cancel] at bit
    exact bit
  have whole : p'.master = p''.master := by rw [same.master, same'.master, master]
  have whole' : p'.slave = p''.slave := by rw [same.slave, same'.slave, slave]
  cases p' with
  | mk masterMask slaveMask first second =>
    rw [Pics.mk.injEq]
    exact ⟨same.masterMask.trans same'.masterMask.symm, same.slaveMask.trans same'.slaveMask.symm,
      whole, whole'⟩

theorem run_sameBut (calls : List Call) (ready : p.Ready) : SameBut p (run exec calls p) := by
  apply run_invariant (SameBut p)
  · intro c q same
    exact same.trans (exec_sameBut (same.ready ready) c)
  · exact .refl p

/-- The last call for IRQ `k`. -/
def lastCall (calls : List Call) (k : Nat) : Option Call :=
  (calls.filter fun c => c.irqNum.toNat = k).getLast?

theorem lastCall_snoc (calls : List Call) (c : Call) (k : Nat) :
    lastCall (calls ++ [c]) k = if k = c.irqNum.toNat then some c else lastCall calls k := by
  by_cases same : k = c.irqNum.toNat
  · simp [lastCall, List.filter_append, same]
  · simp [lastCall, List.filter_append, same, Ne.symm same]

/-- Whatever the controllers did before, the master has its interrupts at vectors 0x20 to 0x27, the
slave at 0x28 to 0x2F, and all are masked. -/
theorem i8259Init_eq (p : Pics) :
    i8259Init p = ⟨0xff, 0xff, ⟨.mask, 0x20, 0x04, 0x01, 0xff⟩, ⟨.mask, 0x28, 0x02, 0x01, 0xff⟩⟩ := by
  obtain ⟨_, _, ⟨phase, _, _, _, _⟩, ⟨phase', _, _, _, _⟩⟩ := p
  -- What the first two writes are taken for depends on the phase, and ICW1 starts anew.
  cases phase <;> cases phase' <;> rfl

theorem i8259Init_ready (p : Pics) : (i8259Init p).Ready := by
  rw [i8259Init_eq]
  exact ⟨rfl, rfl⟩

theorem masked_i8259Init (p : Pics) {k : Nat} (inside : k < 16) : masked (i8259Init p) k = true := by
  rw [i8259Init_eq]
  interval_cases k <;> rfl

/-- After the initialisation a bit is what the last call for it has put there. -/
theorem masked_run (p : Pics) {calls : List Call} (range : ∀ c ∈ calls, c.irqNum < 16) {k : Nat}
    (inside : k < 16) :
    masked (run exec calls (i8259Init p)) k = ((lastCall calls k).map Call.masks).getD true := by
  induction calls using List.reverseRecOn with
  | nil => exact masked_i8259Init p inside
  | append_singleton calls c ih =>
    have ready := (run_sameBut calls (i8259Init_ready p)).ready (i8259Init_ready p)
    have before := ih fun d member => range d (List.mem_append_left _ member)
    have last : c.irqNum < 16 := range c (by simp)
    rw [run_append, run_cons, run_nil, masked_exec ready last inside, lastCall_snoc]
    split
    next own => rfl
    next other => exact before

theorem lastCall_irqNum {calls : List Call} {k : Nat} {c : Call} (last : lastCall calls k = some c) :
    c.irqNum.toNat = k := by
  have member := List.mem_of_getLast? last
  simpa using (List.mem_filter.mp member).2

theorem masks_eq_false_iff {calls : List Call} {k : Nat} :
    ((lastCall calls k).map Call.masks).getD true = false ↔
      lastCall calls k = some (.enable (UInt32.ofNat k)) := by
  cases last : lastCall calls k with
  | none => simp
  | some c =>
    have own := lastCall_irqNum last
    cases c with
    | enable irqNum =>
      have same : irqNum = UInt32.ofNat k := by
        rw [← own]
        exact UInt32.ofNat_toNat.symm
      simp [Call.masks, same]
    | disable irqNum => simp [Call.masks]

/-- Calls for two interrupts can be made in either order. -/
theorem exec_comm (ready : p.Ready) {d : Call} (range : c.irqNum < 16) (range' : d.irqNum < 16)
    (distinct : c.irqNum ≠ d.irqNum) : exec d (exec c p) = exec c (exec d p) := by
  have first := exec_sameBut ready c
  have first' := exec_sameBut ready d
  have ready' := first.ready ready
  have ready'' := first'.ready ready
  apply SameBut.ext (first.trans (exec_sameBut ready' d)) (first'.trans (exec_sameBut ready'' c))
  intro k inside
  have apart : c.irqNum.toNat ≠ d.irqNum.toNat := fun same => distinct (UInt32.toNat_inj.mp same)
  rw [masked_exec ready' range' inside, masked_exec ready range inside, masked_exec ready'' range inside,
    masked_exec ready range' inside]
  split
  next own => rw [if_neg (by omega)]
  next => rfl

/-- After `i8259_init` and any sequence of calls, an IRQ is unmasked in its controller exactly if the
last call for it was `enable_irq`. A further call changes the bit of no other IRQ, two calls for
different IRQs can be exchanged, and a sequence with the same last calls ends in the same state. -/
theorem irq_switches (p : Pics) (calls : List Call) (range : ∀ c ∈ calls, c.irqNum < 16) :
    (∀ k < 16, masked (run exec calls (i8259Init p)) k = false ↔
      lastCall calls k = some (.enable (UInt32.ofNat k))) ∧
    (∀ c, c.irqNum < 16 → ∀ k < 16, k ≠ c.irqNum.toNat →
      masked (exec c (run exec calls (i8259Init p))) k = masked (run exec calls (i8259Init p)) k) ∧
    (∀ c d, c.irqNum < 16 → d.irqNum < 16 → c.irqNum ≠ d.irqNum →
      exec d (exec c (run exec calls (i8259Init p))) = exec c (exec d (run exec calls (i8259Init p)))) ∧
    ∀ calls', (∀ c ∈ calls', c.irqNum < 16) → (∀ k < 16, lastCall calls' k = lastCall calls k) →
      run exec calls' (i8259Init p) = run exec calls (i8259Init p) := by
  have start := i8259Init_ready p
  have ready := (run_sameBut calls start).ready start
  refine ⟨?_, ?_, ?_, ?_⟩
  · intro k inside
    rw [masked_run p range inside]
    exact masks_eq_false_iff
  · intro c range' k inside other
    rw [masked_exec ready range' inside, if_neg other]
  · intro c d range' range'' distinct
    exact exec_comm ready range' range'' distinct
  · intro calls' range' same
    apply SameBut.ext (run_sameBut calls' start) (run_sameBut calls start)
    intro k inside
    rw [masked_run p range' inside, masked_run p range inside, same k inside]

/-- The keyboard and the real-time clock, and a line between them that is switched off again. -/
theorem irq_switches_sample :
    (∀ c ∈ [Call.enable 1, .enable 2, .enable 8, .disable 2], c.irqNum < 16) ∧
    masked (run exec [.enable 1, .enable 2, .enable 8, .disable 2]
      (i8259Init ⟨0, 0, ⟨.icw4, 0, 0, 0, 0⟩, ⟨.mask, 0, 0, 0, 0⟩⟩)) 8 = false := by
  have range : ∀ c ∈ [Call.enable 1, .enable 2, .enable 8, .disable 2], c.irqNum < 16 := by decide
  refine ⟨range, ?_⟩
  exact ((irq_switches ⟨0, 0, ⟨.icw4, 0, 0, 0, 0⟩, ⟨.mask, 0, 0, 0, 0⟩⟩ _ range).1 8 (by decide)).mpr
    (by decide)

end Pics

end Mp3Kernel
