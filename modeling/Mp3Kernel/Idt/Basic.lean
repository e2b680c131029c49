import Mp3Kernel.Library.Machine

/-!
# The interrupt descriptor table that `entry` installs

A descriptor is 64 bits. The kernel writes it as the bit-fields of `idt_desc_t`,
in a local variable that it copies into the table; the CPU reads it as a gate.
The code has a block for the exceptions, one for each of the three interrupt
lines and one for the system call. No block sets every field: what the others
hold is what was on the stack.
-/

namespace Mp3Kernel

open Library

namespace Idt

/-! ## Descriptors -/

/-- `idt_desc_t`, a packed structure: the first field has the lowest bits. -/
@[ext]
structure IdtDesc where
  offset_15_00 : BitVec 16
  seg_selector : BitVec 16
  reserved4 : BitVec 8
  reserved3 : BitVec 1
  reserved2 : BitVec 1
  reserved1 : BitVec 1
  size : BitVec 1
  reserved0 : BitVec 1
  dpl : BitVec 2
  present : BitVec 1
  offset_31_16 : BitVec 16

namespace IdtDesc

/-- The 64 bits of a descriptor in memory. -/
def encode (d : IdtDesc) : BitVec 64 :=
  d.offset_31_16 ++ (d.present ++ (d.dpl ++ (d.reserved0 ++ (d.size ++ (d.reserved1 ++
    (d.reserved2 ++ (d.reserved3 ++ (d.reserved4 ++ (d.seg_selector ++ d.offset_15_00)))))))))

/-- `SET_IDT_ENTRY` -/
def setIdtEntry (d : IdtDesc) (handler : BitVec 32) : IdtDesc :=
  { d with
    offset_31_16 := ((handler &&& 0xFFFF0000) >>> 16).setWidth 16
    offset_15_00 := (handler &&& 0xFFFF).setWidth 16 }

/-- The block for the exceptions. -/
def exception (d : IdtDesc) (handler : BitVec 32) : IdtDesc :=
  { d with
    seg_selector := 0x0010
    present := 1
    size := 1
    dpl := 0
    reserved1 := 1
    reserved2 := 1
    reserved3 := 1 }.setIdtEntry handler

/-- The blocks for the timer chip, the keyboard, the real time clock and the system call, which
are the same and leave `reserved3` out. -/
def interrupt (d : IdtDesc) (handler : BitVec 32) : IdtDesc :=
  { d with
    seg_selector := 0x0010
    present := 1
    size := 1
    dpl := 0
    reserved1 := 1
    reserved2 := 1 }.setIdtEntry handler

end IdtDesc

/-! ## The table -/

/-- The addresses of the handlers. -/
structure Handlers where
  ehandlers : Nat → BitVec 32
  irqhandlers : Nat → BitVec 32
  systemcall : BitVec 32

/-- The table that `entry` has built at its `lidt`; `locals v` is what the local variable for
vector `v` holds when its block is entered. -/
def entryIdt (handlers : Handlers) (locals : UInt8 → IdtDesc) (idt : UInt8 → BitVec 64) :
    UInt8 → BitVec 64 :=
  let idt := forLoop (fun i idt =>
    -- Vector 15 is not used.
    if i ≠ 15 then
      Function.update idt (UInt8.ofNat i)
        ((locals (UInt8.ofNat i)).exception (handlers.ehandlers i)).encode
    else idt) 20 idt
  let idt := Function.update idt 32 ((locals 32).interrupt (handlers.irqhandlers 0)).encode
  let idt := Function.update idt 33 ((locals 33).interrupt (handlers.irqhandlers 1)).encode
  let idt := Function.update idt 40 ((locals 40).interrupt (handlers.irqhandlers 2)).encode
  Function.update idt 128 ((locals 128).interrupt handlers.systemcall).encode

/-! ## Gates -/

/-- A descriptor as the CPU reads it. -/
@[ext]
structure Gate where
  offset : BitVec 32
  selector : BitVec 16
  type : BitVec 4
  storage : BitVec 1
  dpl : BitVec 2
  present : BitVec 1

namespace Gate

def decode (quad : BitVec 64) : Gate where
  offset := quad.extractLsb' 48 16 ++ quad.extractLsb' 0 16
  selector := quad.extractLsb' 16 16
  type := quad.extractLsb' 40 4
  storage := quad.extractLsb' 44 1
  dpl := quad.extractLsb' 45 2
  present := quad.extractLsb' 47 1

/-- A 32-bit interrupt gate (type 1110) or trap gate (type 1111). -/
def Valid32 (g : Gate) : Prop := g.present = 1 ∧ g.storage = 0 ∧ (g.type = 0xE ∨ g.type = 0xF)

end Gate

end Idt

end Mp3Kernel
