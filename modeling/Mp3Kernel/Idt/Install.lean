import Mp3Kernel.Idt.Basic

/-!
# What the stack leaves in the table

Of the bits of an installed descriptor that the kernel does not write, the CPU
reads two: `reserved0`, which must be 0 for a gate, and in the descriptors of the
interrupt lines and of the system call `reserved3`, which makes the gate an
interrupt gate or a trap gate. `reserved4` only shows in the table itself.
-/

namespace Mp3Kernel

open Library

namespace Idt

/-! ## Bits -/

namespace IdtDesc

/-- The fields of a descriptor in memory. -/
def ofQuad (quad : BitVec 64) : IdtDesc where
  offset_15_00 := quad.extractLsb' 0 16
  seg_selector := quad.extractLsb' 16 16
  reserved4 := quad.extractLsb' 32 8
  reserved3 := quad.extractLsb' 40 1
  reserved2 := quad.extractLsb' 41 1
  reserved1 := quad.extractLsb' 42 1
  size := quad.extractLsb' 43 1
  reserved0 := quad.extractLsb' 44 1
  dpl := quad.extractLsb' 45 2
  present := quad.extractLsb' 47 1
  offset_31_16 := quad.extractLsb' 48 16

theorem ofQuad_encode (d : IdtDesc) : ofQuad d.encode = d := by
  rw [encode]
  apply IdtDesc.ext
  -- Every field is the upper part of a tail of the concatenation, and the last is all of it.
  all_goals
    simp only [ofQuad]
    repeat rw [BitVec.extractLsb'_append_eq_of_add_le (by omega)]
    first
      | exact BitVec.extractLsb'_append_eq_left
      | exact BitVec.extractLsb'_eq_self

theorem encode_injective : Function.Injective encode :=
  Function.LeftInverse.injective ofQuad_encode

theorem setIdtEntry_offset (d : IdtDesc) (handler : BitVec 32) :
    (d.setIdtEntry handler).offset_31_16 ++ (d.setIdtEntry handler).offset_15_00 = handler := by
  have masked (n : Nat) : (n &&& 0xFFFF) % 2 ^ 16 = n % 2 ^ 16 := by
    rw [show 0xFFFF = 2 ^ 16 - 1 from rfl, Nat.and_two_pow_sub_one_eq_mod, Nat.mod_mod]
  have high : ((handler &&& 0xFFFF0000) >>> 16).setWidth 16 = handler.extractLsb' 16 16 := by
    apply BitVec.eq_of_toNat_eq
    rw [BitVec.ushiftRight_and_distrib, BitVec.toNat_setWidth, BitVec.toNat_and,
      BitVec.extractLsb'_toNat, BitVec.toNat_ushiftRight]
    exact masked (handler.toNat >>> 16)
  have low : (handler &&& 0xFFFF).setWidth 16 = handler.extractLsb' 0 16 := by
    apply BitVec.eq_of_toNat_eq
    rw [BitVec.toNat_setWidth, BitVec.toNat_and, BitVec.extractLsb'_toNat]
    exact masked handler.toNat
  have both : handler.extractLsb' 16 16 ++ handler.extractLsb' 0 16 = handler.extractLsb' 0 32 :=
    BitVec.extractLsb'_append_extractLsb'_eq_extractLsb' rfl
  simp only [setIdtEntry]
  rw [high, low, both]
  exact BitVec.extractLsb'_eq_self

end IdtDesc

namespace Gate

theorem type_bits (quad : BitVec 64) :
    quad.extractLsb' 40 4 = quad.extractLsb' 43 1 ++
      (quad.extractLsb' 42 1 ++ (quad.extractLsb' 41 1 ++ quad.extractLsb' 40 1)) := by
  have two : quad.extractLsb' 41 1 ++ quad.extractLsb' 40 1 = quad.extractLsb' 40 2 :=
    BitVec.extractLsb'_append_extractLsb'_eq_extractLsb' rfl
  have three : quad.extractLsb' 42 1 ++ quad.extractLsb' 40 2 = quad.extractLsb' 40 3 :=
    BitVec.extractLsb'_append_extractLsb'_eq_extractLsb' rfl
  have four : quad.extractLsb' 43 1 ++ quad.extractLsb' 40 3 = quad.extractLsb' 40 4 :=
    BitVec.extractLsb'_append_extractLsb'_eq_extractLsb' rfl
  rw [two, three, four]

/-- What the CPU makes of the fields. -/
def ofDesc (d : IdtDesc) : Gate where
  offset := d.offset_31_16 ++ d.offset_15_00
  selector := d.seg_selector
  type := d.size ++ (d.reserved1 ++ (d.reserved2 ++ d.reserved3))
  storage := d.reserved0
  dpl := d.dpl
  present := d.present

theorem decode_encode (d : IdtDesc) : decode d.encode = ofDesc d := by
  have fields (quad : BitVec 64) : decode quad = ofDesc (IdtDesc.ofQuad quad) := by
    rw [decode, type_bits]
    rfl
  rw [fields, d.ofQuad_encode]

/-- The bits that the kernel always sets leave the two types of 32-bit gates. -/
theorem valid32_iff {d : IdtDesc} (present : d.present = 1) (size : d.size = 1)
    (reserved1 : d.reserved1 = 1) (reserved2 : d.reserved2 = 1) :
    (ofDesc d).Valid32 ↔ d.reserved0 = 0 := by
  have type : (ofDesc d).type = 0xE ∨ (ofDesc d).type = 0xF := by
    have both : ∀ bit : BitVec 1, (1 : BitVec 1) ++ ((1 : BitVec 1) ++ ((1 : BitVec 1) ++ bit)) = 0xE#4 ∨
        (1 : BitVec 1) ++ ((1 : BitVec 1) ++ ((1 : BitVec 1) ++ bit)) = 0xF#4 := by
      decide
    simp only [ofDesc, size, reserved1, reserved2]
    exact both d.reserved3
  constructor
  · exact fun valid => valid.2.1
  · exact fun storage => ⟨present, storage, type⟩

end Gate

/-! ## The table -/

section Table

variable (handlers : Handlers) (locals locals' : UInt8 → IdtDesc) (idt : UInt8 → BitVec 64)

/-- The vectors that `entry` fills in. -/
def Installed (v : UInt8) : Prop :=
  (v < 20 ∧ v ≠ 15) ∨ v = 32 ∨ v = 33 ∨ v = 40 ∨ v = 128

instance (v : UInt8) : Decidable (Installed v) := inferInstanceAs (Decidable (_ ∨ _))

def Handlers.handler (handlers : Handlers) (v : UInt8) : BitVec 32 :=
  if v = 32 then handlers.irqhandlers 0
  else if v = 33 then handlers.irqhandlers 1
  else if v = 40 then handlers.irqhandlers 2
  else if v = 128 then handlers.systemcall
  else handlers.ehandlers v.toNat

/-- The descriptor that the block for vector `v` makes. -/
def descriptor (v : UInt8) : IdtDesc :=
  if v < 20 then (locals v).exception (handlers.handler v)
  else (locals v).interrupt (handlers.handler v)

theorem exceptions_apply (n : Nat) (few : n ≤ 20) (v : UInt8) :
    forLoop (fun i idt =>
      if i ≠ 15 then
        Function.update idt (UInt8.ofNat i)
          ((locals (UInt8.ofNat i)).exception (handlers.ehandlers i)).encode
      else idt) n idt v =
    if v.toNat < n ∧ v ≠ 15 then ((locals v).exception (handlers.ehandlers v.toNat)).encode
    else idt v := by
  induction n with
  | zero => rfl
  | succ n ih =>
    have number : v = UInt8.ofNat n ↔ v.toNat = n := by
      rw [← UInt8.toNat_inj, UInt8.toNat_ofNat_of_lt' (show n < 2 ^ 8 by omega)]
    have fifteen : v = 15 ↔ v.toNat = 15 := UInt8.toNat_inj.symm
    rw [forLoop_succ]
    by_cases unused : n = 15
    · rw [if_neg (not_not.mpr unused), ih (by omega)]
      have same : v.toNat < n + 1 ∧ v ≠ 15 ↔ v.toNat < n ∧ v ≠ 15 := by
        rw [Ne, fifteen]
        omega
      simp only [same]
    · rw [if_pos unused, Function.update_apply, ih (by omega)]
      by_cases last : v = UInt8.ofNat n
      · have value := number.mp last
        rw [if_pos last, if_pos ⟨by omega, by rw [Ne, fifteen]; omega⟩, ← last, value]
      · have value := mt number.mpr last
        have same : v.toNat < n + 1 ∧ v ≠ 15 ↔ v.toNat < n ∧ v ≠ 15 := by
          rw [Ne, fifteen]
          omega
        simp only [if_neg last, same]

theorem entryIdt_apply (v : UInt8) :
    entryIdt handlers locals idt v =
      if Installed v then (descriptor handlers locals v).encode else idt v := by
  simp only [entryIdt, Function.update_apply, exceptions_apply _ _ _ 20 (le_refl 20)]
  by_cases systemCall : v = 128
  · subst systemCall
    rfl
  by_cases clock : v = 40
  · subst clock
    rfl
  by_cases keyboard : v = 33
  · subst keyboard
    rfl
  by_cases timer : v = 32
  · subst timer
    rfl
  have installed : Installed v ↔ v.toNat < 20 ∧ v ≠ 15 := by
    simp only [Installed, systemCall, clock, keyboard, timer, or_false]
    rfl
  simp only [installed, systemCall, clock, keyboard, timer, if_false]
  by_cases exception : v.toNat < 20 ∧ v ≠ 15
  · have low : v < 20 := exception.1
    rw [if_pos exception, if_pos exception, descriptor, if_pos low, Handlers.handler, if_neg timer,
      if_neg keyboard, if_neg clock, if_neg systemCall]
  · rw [if_neg exception, if_neg exception]

/-! ## Two runs -/

/-- The gate of vector `v` is valid, and leads to its handler in the kernel's code segment. -/
def LeadsToHandler (handlers : Handlers) (idt : UInt8 → BitVec 64) (v : UInt8) : Prop :=
  (Gate.decode (idt v)).Valid32 ∧ (Gate.decode (idt v)).selector = 0x10 ∧
    (Gate.decode (idt v)).offset = handlers.handler v

theorem leadsToHandler_iff {v : UInt8} (installed : Installed v) :
    LeadsToHandler handlers (entryIdt handlers locals idt) v ↔ (locals v).reserved0 = 0 := by
  rw [LeadsToHandler, entryIdt_apply, if_pos installed, Gate.decode_encode, descriptor]
  split
  all_goals
    rw [Gate.valid32_iff rfl rfl rfl rfl]
    constructor
    · exact fun leads => leads.1
    · exact fun storage => ⟨storage, rfl, IdtDesc.setIdtEntry_offset _ _⟩

theorem descriptor_eq_iff (v : UInt8) :
    descriptor handlers locals v = descriptor handlers locals' v ↔
      (locals v).reserved4 = (locals' v).reserved4 ∧
      (locals v).reserved0 = (locals' v).reserved0 ∧
      (20 ≤ v → (locals v).reserved3 = (locals' v).reserved3) := by
  rw [descriptor, descriptor]
  split
  next low =>
    have exception : ¬20 ≤ v := UInt8.not_le.mpr low
    simp [IdtDesc.exception, IdtDesc.setIdtEntry, IdtDesc.ext_iff, exception]
  next high =>
    have interrupt : 20 ≤ v := UInt8.not_lt.mp high
    simp [IdtDesc.interrupt, IdtDesc.setIdtEntry, IdtDesc.ext_iff, interrupt]
    tauto

/-- Two runs of `entry` that differ in what its local variables held before build the same
table, with a valid gate to the handler of every installed vector, if and only if the stack
held the same `reserved4` for each vector, the same `reserved3` for each that is not an
exception, and 0 for every `reserved0`. -/
theorem entry_idt_independent_iff (handlers : Handlers) (locals locals' : UInt8 → IdtDesc)
    (idt : UInt8 → BitVec 64) :
    (entryIdt handlers locals idt = entryIdt handlers locals' idt ∧
      ∀ v, Installed v → LeadsToHandler handlers (entryIdt handlers locals idt) v ∧
        LeadsToHandler handlers (entryIdt handlers locals' idt) v) ↔
    ∀ v, Installed v → (locals v).reserved0 = 0 ∧ (locals' v).reserved0 = 0 ∧
      (locals v).reserved4 = (locals' v).reserved4 ∧
      (20 ≤ v → (locals v).reserved3 = (locals' v).reserved3) := by
  have same : entryIdt handlers locals idt = entryIdt handlers locals' idt ↔
      ∀ v, Installed v → descriptor handlers locals v = descriptor handlers locals' v := by
    rw [funext_iff]
    apply forall_congr'
    intro v
    rw [entryIdt_apply, entryIdt_apply]
    by_cases installed : Installed v
    · simp only [installed, if_true, IdtDesc.encode_injective.eq_iff, forall_const]
    · simp only [installed, if_false, false_implies]
  rw [same, ← forall_and]
  apply forall_congr'
  intro v
  rw [← imp_and]
  apply imp_congr_right
  intro installed
  rw [leadsToHandler_iff handlers locals idt installed,
    leadsToHandler_iff handlers locals' idt installed, descriptor_eq_iff]
  constructor
  · rintro ⟨⟨fourth, _, third⟩, storage, storage'⟩
    exact ⟨storage, storage', fourth, third⟩
  · rintro ⟨storage, storage', fourth, third⟩
    exact ⟨⟨fourth, storage.trans storage'.symm, third⟩, storage, storage'⟩

end Table

def zeroDesc : IdtDesc := ⟨0, 0, 0, 0, 0, 0, 0, 0, 0, 0, 0⟩

/-- A stack of zeros but for `reserved0` of the keyboard's descriptor. -/
def dirtyLocals (v : UInt8) : IdtDesc := if v = 33 then { zeroDesc with reserved0 := 1 } else zeroDesc

def sampleHandlers : Handlers := ⟨fun _ => 0x400000, fun _ => 0x400100, 0x400200⟩

/-- With that stack the keyboard's descriptor is not a gate, and the table is not the one that
a stack of zeros gives. -/
theorem entry_idt_depends_on_stack :
    Installed 33 ∧
    entryIdt sampleHandlers (fun _ => zeroDesc) (fun _ => 0) 33 ≠
      entryIdt sampleHandlers dirtyLocals (fun _ => 0) 33 ∧
    ¬LeadsToHandler sampleHandlers (entryIdt sampleHandlers dirtyLocals fun _ => 0) 33 := by
  have installed : Installed 33 := by decide
  refine ⟨installed, ?_, ?_⟩
  · rw [entryIdt_apply, entryIdt_apply, if_pos installed, if_pos installed, Ne,
      IdtDesc.encode_injective.eq_iff, descriptor_eq_iff]
    decide
  · rw [leadsToHandler_iff _ _ _ installed]
    decide

end Idt

end Mp3Kernel
