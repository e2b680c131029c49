import Mp3Kernel.Idt.Install
import Mp3Kernel.Paging.Init

/-!
# The global descriptor table

`boot.S` loads the table of `x86_desc.S`, and `entry` fills in the descriptors of
the LDT and of the TSS, each built in a local variable. Unlike the blocks of the
interrupt table, these two set every field of their variable. The CPU goes
through three tables to serve an interrupt: the gate names a segment, the segment
gives a linear address, and the page tables translate it.
-/

namespace Mp3Kernel

open Library

namespace Gdt

/-! ## Descriptors -/

/-- `seg_desc_t`, a packed structure: the first field has the lowest bits. -/
@[ext]
structure SegDesc where
  seg_lim_15_00 : BitVec 16
  base_15_00 : BitVec 16
  base_23_16 : BitVec 8
  type : BitVec 4
  sys : BitVec 1
  dpl : BitVec 2
  present : BitVec 1
  seg_lim_19_16 : BitVec 4
  avail : BitVec 1
  reserved : BitVec 1
  opsize : BitVec 1
  granularity : BitVec 1
  base_31_24 : BitVec 8

namespace SegDesc

/-- The 64 bits of a descriptor in memory. -/
def encode (d : SegDesc) : BitVec 64 :=
  d.base_31_24 ++ (d.granularity ++ (d.opsize ++ (d.reserved ++ (d.avail ++ (d.seg_lim_19_16 ++ (d.present ++
    (d.dpl ++ (d.sys ++ (d.type ++ (d.base_23_16 ++ (d.base_15_00 ++ d.seg_lim_15_00)))))))))))

/-- The text of `SET_LDT_PARAMS` and of `SET_TSS_PARAMS`. -/
def setParams (d : SegDesc) (addr lim : BitVec 32) : SegDesc :=
  { d with
    base_31_24 := ((addr &&& 0xFF000000) >>> 24).setWidth 8
    base_23_16 := ((addr &&& 0x00FF0000) >>> 16).setWidth 8
    base_15_00 := (addr &&& 0x0000FFFF).setWidth 16
    seg_lim_19_16 := ((lim &&& 0x000F0000) >>> 16).setWidth 4
    seg_lim_15_00 := (lim &&& 0x0000FFFF).setWidth 16 }

def setLdtParams (d : SegDesc) (addr lim : BitVec 32) : SegDesc := d.setParams addr lim

def setTssParams (d : SegDesc) (addr lim : BitVec 32) : SegDesc := d.setParams addr lim

/-- `TSS_SIZE` -/
def tssSize : BitVec 32 := 104

/-- The block for the LDT. -/
def forLdt (d : SegDesc) (ldt size : BitVec 32) : SegDesc :=
  { d with
    granularity := 0
    opsize := 1
    reserved := 0
    avail := 0
    present := 1
    dpl := 0
    sys := 0
    type := 0x2 }.setLdtParams ldt size

/-- The block for the TSS. The limit that it sets from `TSS_SIZE` is set again. -/
def forTss (d : SegDesc) (tss size : BitVec 32) : SegDesc :=
  { d with
    granularity := 0
    opsize := 0
    reserved := 0
    avail := 0
    seg_lim_19_16 := (tssSize &&& 0x000F0000).setWidth 4
    present := 1
    dpl := 0
    sys := 0
    type := 0x9
    seg_lim_15_00 := (tssSize &&& 0x0000FFFF).setWidth 16 }.setTssParams tss size

end SegDesc

/-! ## The table -/

def kernelCs : BitVec 16 := 0x0010

def kernelDs : BitVec 16 := 0x0018

def userCs : BitVec 16 := 0x0023

def userDs : BitVec 16 := 0x002B

def kernelTss : BitVec 16 := 0x0030

def kernelLdt : BitVec 16 := 0x0038

/-- The eight entries of `gdt` in `x86_desc.S`. -/
def gdt : Nat → BitVec 64
  | 2 => 0x00CF9A000000FFFF
  | 3 => 0x00CF92000000FFFF
  | 4 => 0x00CFFA000000FFFF
  | 5 => 0x00CFF2000000FFFF
  | _ => 0

/-- What `entry` stores through `ldt_desc_ptr` and `tss_desc_ptr`. The locals are what `the_ldt_desc` and
`the_tss_desc` hold when their blocks are entered. -/
def entryGdt (ldtLocal tssLocal : SegDesc) (ldt ldtSize tss tssSize : BitVec 32) : Nat → BitVec 64 :=
  let gdt := Function.update gdt 7 (ldtLocal.forLdt ldt ldtSize).encode
  Function.update gdt 6 (tssLocal.forTss tss tssSize).encode

/-! ## Segments -/

/-- A descriptor as the CPU reads it. -/
@[ext]
structure Segment where
  base : BitVec 32
  limit : BitVec 20
  type : BitVec 4
  codeOrData : BitVec 1
  dpl : BitVec 2
  present : BitVec 1
  granularity : BitVec 1
  deriving DecidableEq

namespace Segment

def decode (quad : BitVec 64) : Segment where
  base := quad.extractLsb' 56 8 ++ quad.extractLsb' 16 24
  limit := quad.extractLsb' 48 4 ++ quad.extractLsb' 0 16
  type := quad.extractLsb' 40 4
  codeOrData := quad.extractLsb' 44 1
  dpl := quad.extractLsb' 45 2
  present := quad.extractLsb' 47 1
  granularity := quad.extractLsb' 55 1

/-- The last offset into a segment: the limit counts bytes or pages. -/
def last (s : Segment) : Nat :=
  if s.granularity = 1 then s.limit.toNat * 4096 + 4095 else s.limit.toNat

/-- Execution at `offset` in ring 0. -/
def Executes (s : Segment) (offset : BitVec 32) : Prop :=
  s.present = 1 ∧ s.codeOrData = 1 ∧ s.type.getLsbD 3 = true ∧ s.dpl = 0 ∧ offset.toNat ≤ s.last

instance (s : Segment) (offset : BitVec 32) : Decidable (s.Executes offset) :=
  inferInstanceAs (Decidable (_ ∧ _))

end Segment

/-- The segment that a selector names, in a table of eight descriptors. Bit 2 would mean the LDT. -/
def lookup (gdt : Nat → BitVec 64) (selector : BitVec 16) : Option Segment :=
  let index := selector.toNat / 8
  if index = 0 ∨ 8 ≤ index ∨ selector.getLsbD 2 = true then none else some (Segment.decode (gdt index))

instance (g : Idt.Gate) : Decidable g.Valid32 := inferInstanceAs (Decidable (_ ∧ _))

/-- The physical address at which the CPU, in ring 0, begins to serve the interrupt of a vector, or a
fault on the way. -/
def interruptTarget (idt : UInt8 → BitVec 64) (gdt : Nat → BitVec 64) (paging : Paging) (v : UInt8) :
    Option UInt32 :=
  let gate := Idt.Gate.decode (idt v)
  if gate.Valid32 then
    (lookup gdt gate.selector).bind fun segment =>
      if segment.Executes gate.offset then
        (paging.translate (UInt32.ofBitVec (segment.base + gate.offset))).map Mapping.physical
      else none
  else none

end Gdt

end Mp3Kernel
