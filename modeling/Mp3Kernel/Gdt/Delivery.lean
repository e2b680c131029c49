import Mp3Kernel.Gdt.Basic

/-!
# From a vector to its handler

The descriptors that `entry` builds do not depend on the stack, and every
selector of `x86_desc.h` names the segment that it should. The segments of the
kernel begin at 0 and end at the last byte, so that the address in a gate is the
linear address of the handler, and the pages of the kernel are mapped to
themselves: what is left to go wrong is the gate.
-/

namespace Mp3Kernel

open Library

namespace Gdt

variable {handlers : Idt.Handlers} {locals : UInt8 → Idt.IdtDesc} {ldtLocal tssLocal d : SegDesc}
  {ldt ldtSize tss tssSize addr lim : BitVec 32}

/-! ## Descriptors -/

/-- A masked field is a part of the word. -/
theorem field_of_mask (x mask : BitVec 32) (start width : Nat)
    (ones : ∀ i < width, mask.getLsbD (start + i) = true) :
    ((x &&& mask) >>> start).setWidth width = x.extractLsb' start width := by
  apply BitVec.eq_of_getLsbD_eq
  intro i inside
  simp [inside, ones i inside]

namespace SegDesc

/-- The fields of a descriptor in memory. -/
def ofQuad (quad : BitVec 64) : SegDesc where
  seg_lim_15_00 := quad.extractLsb' 0 16
  base_15_00 := quad.extractLsb' 16 16
  base_23_16 := quad.extractLsb' 32 8
  type := quad.extractLsb' 40 4
  sys := quad.extractLsb' 44 1
  dpl := quad.extractLsb' 45 2
  present := quad.extractLsb' 47 1
  seg_lim_19_16 := quad.extractLsb' 48 4
  avail := quad.extractLsb' 52 1
  reserved := quad.extractLsb' 53 1
  opsize := quad.extractLsb' 54 1
  granularity := quad.extractLsb' 55 1
  base_31_24 := quad.extractLsb' 56 8

theorem ofQuad_encode (d : SegDesc) : ofQuad d.encode = d := by
  rw [encode]
  apply SegDesc.ext
  -- Every field is the upper part of a tail of the concatenation, and the first field is the last tail.
  all_goals
    simp only [ofQuad]
    repeat rw [BitVec.extractLsb'_append_eq_of_add_le (by omega)]
    first
      | exact BitVec.extractLsb'_append_eq_left
      | exact BitVec.extractLsb'_eq_self

/-- The parts of a base. -/
theorem setParams_base (d : SegDesc) (addr lim : BitVec 32) :
    (d.setParams addr lim).base_31_24 ++ ((d.setParams addr lim).base_23_16 ++ (d.setParams addr lim).base_15_00) =
      addr := by
  have high := field_of_mask addr 0xFF000000 24 8 (by decide)
  have middle := field_of_mask addr 0x00FF0000 16 8 (by decide)
  have low : (addr &&& 0x0000FFFF).setWidth 16 = addr.extractLsb' 0 16 := by
    have field := field_of_mask addr 0x0000FFFF 0 16 (by decide)
    rwa [BitVec.ushiftRight_zero] at field
  have lower : addr.extractLsb' 16 8 ++ addr.extractLsb' 0 16 = addr.extractLsb' 0 24 :=
    BitVec.extractLsb'_append_extractLsb'_eq_extractLsb' rfl
  have whole : addr.extractLsb' 24 8 ++ addr.extractLsb' 0 24 = addr.extractLsb' 0 32 :=
    BitVec.extractLsb'_append_extractLsb'_eq_extractLsb' rfl
  simp only [setParams]
  rw [high, middle, low, lower, whole]
  exact BitVec.extractLsb'_eq_self

/-- A limit is cut to 20 bits. -/
theorem setParams_limit (d : SegDesc) (addr lim : BitVec 32) :
    (d.setParams addr lim).seg_lim_19_16 ++ (d.setParams addr lim).seg_lim_15_00 = lim.setWidth 20 := by
  have high := field_of_mask lim 0x000F0000 16 4 (by decide)
  have low : (lim &&& 0x0000FFFF).setWidth 16 = lim.extractLsb' 0 16 := by
    have field := field_of_mask lim 0x0000FFFF 0 16 (by decide)
    rwa [BitVec.ushiftRight_zero] at field
  have whole : lim.extractLsb' 16 4 ++ lim.extractLsb' 0 16 = lim.extractLsb' 0 20 :=
    BitVec.extractLsb'_append_extractLsb'_eq_extractLsb' rfl
  simp only [setParams]
  rw [high, low, whole]
  exact (BitVec.setWidth_eq_extractLsb' (by decide)).symm

end SegDesc

namespace Segment

def ofDesc (d : SegDesc) : Segment where
  base := d.base_31_24 ++ (d.base_23_16 ++ d.base_15_00)
  limit := d.seg_lim_19_16 ++ d.seg_lim_15_00
  type := d.type
  codeOrData := d.sys
  dpl := d.dpl
  present := d.present
  granularity := d.granularity

theorem decode_encode (d : SegDesc) : decode d.encode = ofDesc d := by
  have fields (quad : BitVec 64) : decode quad = ofDesc (SegDesc.ofQuad quad) := by
    have middle : quad.extractLsb' 32 8 ++ quad.extractLsb' 16 16 = quad.extractLsb' 16 24 :=
      BitVec.extractLsb'_append_extractLsb'_eq_extractLsb' rfl
    simp only [decode, ofDesc, SegDesc.ofQuad, middle]
  rw [fields, d.ofQuad_encode]

end Segment

theorem decode_setParams (d : SegDesc) (addr lim : BitVec 32) : Segment.decode (d.setParams addr lim).encode =
    ⟨addr, lim.setWidth 20, d.type, d.sys, d.dpl, d.present, d.granularity⟩ := by
  rw [Segment.decode_encode]
  exact Segment.ext (d.setParams_base addr lim) (d.setParams_limit addr lim) rfl rfl rfl rfl rfl

/-- No field of the local variable is left, so the descriptors are the same from every stack. -/
theorem entryGdt_locals (ldtLocal' tssLocal' : SegDesc) :
    entryGdt ldtLocal tssLocal ldt ldtSize tss tssSize = entryGdt ldtLocal' tssLocal' ldt ldtSize tss tssSize := rfl

/-! ## Interrupts -/

/-- A flat segment: all of memory, from 0 on. -/
structure Flat (s : Segment) : Prop where
  base : s.base = 0#32
  last : s.last = 2 ^ 32 - 1
  present : s.present = 1
  codeOrData : s.codeOrData = 1

/-- Ring 0 executes anywhere in a flat code segment of its own. -/
theorem Flat.executes {s : Segment} (flat : Flat s) (code : s.type.getLsbD 3 = true) (ring : s.dpl = 0)
    (offset : BitVec 32) : s.Executes offset := by
  refine ⟨flat.present, flat.codeOrData, code, ring, ?_⟩
  rw [flat.last]
  exact Nat.le_sub_one_of_lt offset.isLt

/-- A limit of 0xFFFFF pages, a base of 0, present and not a system descriptor. -/
theorem flat_of_fields {s : Segment} (base : s.base = 0#32) (limit : s.limit = 0xFFFFF) (pages : s.granularity = 1)
    (present : s.present = 1) (codeOrData : s.codeOrData = 1) : Flat s := by
  refine ⟨base, ?_, present, codeOrData⟩
  rw [Segment.last, if_pos pages, limit]
  rfl

/-- The segments that the selectors of `x86_desc.h` name. -/
theorem selectors_lookup (ldtLocal tssLocal : SegDesc) (ldt ldtSize tss tssSize : BitVec 32) :
    let table := entryGdt ldtLocal tssLocal ldt ldtSize tss tssSize
    (∃ s, lookup table kernelCs = some s ∧ Flat s ∧ s.type = 0xA ∧ s.dpl = 0) ∧
    (∃ s, lookup table kernelDs = some s ∧ Flat s ∧ s.type = 0x2 ∧ s.dpl = 0) ∧
    (∃ s, lookup table userCs = some s ∧ Flat s ∧ s.type = 0xA ∧ s.dpl = 3) ∧
    (∃ s, lookup table userDs = some s ∧ Flat s ∧ s.type = 0x2 ∧ s.dpl = 3) ∧
    lookup table kernelTss = some ⟨tss, tssSize.setWidth 20, 0x9, 0, 0, 1, 0⟩ ∧
    lookup table kernelLdt = some ⟨ldt, ldtSize.setWidth 20, 0x2, 0, 0, 1, 0⟩ := by
  have flat {s : Segment} := flat_of_fields (s := s)
  refine ⟨⟨Segment.decode 0x00CF9A000000FFFF, rfl, ?_, by decide, by decide⟩,
    ⟨Segment.decode 0x00CF92000000FFFF, rfl, ?_, by decide, by decide⟩,
    ⟨Segment.decode 0x00CFFA000000FFFF, rfl, ?_, by decide, by decide⟩,
    ⟨Segment.decode 0x00CFF2000000FFFF, rfl, ?_, by decide, by decide⟩,
    congrArg some (decode_setParams _ tss tssSize), congrArg some (decode_setParams _ ldt ldtSize)⟩
  all_goals exact flat (by decide) (by decide) (by decide) (by decide) (by decide)

/-- Among the fields that the stack leaves in a gate, `reserved0` decides. -/
theorem valid32_entryIdt {v : UInt8} (installed : Idt.Installed v) :
    (Idt.Gate.decode (Idt.entryIdt handlers locals (fun _ => 0) v)).Valid32 ↔ (locals v).reserved0 = 0 := by
  rw [Idt.entryIdt_apply, if_pos installed, Idt.Gate.decode_encode, Idt.descriptor]
  split
  · exact Idt.Gate.valid32_iff rfl rfl rfl rfl
  · exact Idt.Gate.valid32_iff rfl rfl rfl rfl

/-- A vector that is not installed has an empty descriptor. -/
theorem not_valid32_zero : ¬(Idt.Gate.decode 0).Valid32 := by decide

/-- The tables that `entry` leaves, whatever was on its stack: the six selectors name four flat segments,
the TSS and the LDT with the base and the limit (of 20 bits) that they were given; the global table does not
depend on the stack; and the CPU begins to serve a vector at the physical address of its handler exactly when
the vector is installed, the stack held a 0 in the one bit of the gate that matters, and the handler lies in
mapped memory. Every other vector ends in a fault. -/
theorem interrupts_reach_handlers (handlers : Idt.Handlers) (locals : UInt8 → Idt.IdtDesc)
    (ldtLocal tssLocal ldtLocal' tssLocal' : SegDesc) (ldt ldtSize tss tssSize : BitVec 32) (p : Paging) (v : UInt8) :
    let table := entryGdt ldtLocal tssLocal ldt ldtSize tss tssSize
    table = entryGdt ldtLocal' tssLocal' ldt ldtSize tss tssSize ∧
    ((∃ s, lookup table kernelCs = some s ∧ Flat s ∧ s.type = 0xA ∧ s.dpl = 0) ∧
      (∃ s, lookup table kernelDs = some s ∧ Flat s ∧ s.type = 0x2 ∧ s.dpl = 0) ∧
      (∃ s, lookup table userCs = some s ∧ Flat s ∧ s.type = 0xA ∧ s.dpl = 3) ∧
      (∃ s, lookup table userDs = some s ∧ Flat s ∧ s.type = 0x2 ∧ s.dpl = 3) ∧
      lookup table kernelTss = some ⟨tss, tssSize.setWidth 20, 0x9, 0, 0, 1, 0⟩ ∧
      lookup table kernelLdt = some ⟨ldt, ldtSize.setWidth 20, 0x2, 0, 0, 1, 0⟩) ∧
    interruptTarget (Idt.entryIdt handlers locals fun _ => 0) table (Paging.pagingInit p) v =
      if Idt.Installed v ∧ (locals v).reserved0 = 0 ∧ Paging.Mapped (UInt32.ofBitVec (handlers.handler v)) then
        some (UInt32.ofBitVec (handlers.handler v))
      else none := by
  intro table
  have selectors := selectors_lookup ldtLocal tssLocal ldt ldtSize tss tssSize
  refine ⟨entryGdt_locals ldtLocal' tssLocal', selectors, ?_⟩
  obtain ⟨⟨code, found, flat, type, ring⟩, _⟩ := selectors
  simp only [interruptTarget]
  by_cases installed : Idt.Installed v
  · have gate : (Idt.Gate.decode (Idt.entryIdt handlers locals (fun _ => 0) v)).Valid32 ↔ (locals v).reserved0 = 0 :=
      valid32_entryIdt installed
    by_cases clean : (locals v).reserved0 = 0
    · obtain ⟨valid, selector, offset⟩ := (Idt.leadsToHandler_iff handlers locals _ installed).mpr clean
      have executes := flat.executes (by rw [type]; decide) ring (handlers.handler v)
      have there : lookup table 0x10 = some code := found
      rw [if_pos valid, selector, there, Option.bind_some, offset, if_pos executes, flat.base, BitVec.zero_add,
        Paging.translate_mapped]
      simp only [installed, clean, true_and]
    · rw [if_neg (mt gate.mp clean), if_neg fun all => clean all.2.1]
  · rw [Idt.entryIdt_apply, if_neg installed, if_neg not_valid32_zero, if_neg fun all => installed all.1]

end Gdt

end Mp3Kernel
