import Mp3Kernel.Library.Machine

/-!
# The interrupt controllers of `i8259.c`

Two 8259s, each behind a command port and a data port. A write to the command
port with bit 4 set starts the initialisation, and the data port takes the words
that belong to it; at any other time the data port is the mask register.
-/

namespace Mp3Kernel

open Library

/-- What the next write to the data port is taken for. -/
inductive PicPhase where
  | icw2 (single icw4 : Bool)
  | icw3 (icw4 : Bool)
  | icw4
  | mask
  deriving DecidableEq, Repr

/-- An 8259: the initialisation words 2 to 4, and the mask register. -/
structure Pic where
  phase : PicPhase
  vectors : UInt8
  cascade : UInt8
  mode : UInt8
  imr : UInt8
  deriving DecidableEq, Repr

namespace Pic

def writeCommand (value : UInt8) (pic : Pic) : Pic :=
  if value &&& 0x10 ≠ 0 then
    -- ICW1: bit 1 for a single controller, bit 0 if there is an ICW4. It clears the mask register.
    { pic with phase := .icw2 (value &&& 0x2 ≠ 0) (value &&& 0x1 ≠ 0), imr := 0 }
  else pic

def writeData (value : UInt8) (pic : Pic) : Pic :=
  match pic.phase with
  | .icw2 single icw4 =>
    { pic with
      vectors := value
      phase := if !single then .icw3 icw4 else if icw4 then .icw4 else .mask }
  | .icw3 icw4 => { pic with cascade := value, phase := if icw4 then .icw4 else .mask }
  | .icw4 => { pic with mode := value, phase := .mask }
  | .mask => { pic with imr := value }

end Pic

/-- The variables of `i8259.c`, and the two controllers. -/
structure Pics where
  masterMask : UInt8
  slaveMask : UInt8
  master : Pic
  slave : Pic
  deriving DecidableEq, Repr

namespace Pics

def masterPort : UInt16 := 0x20

def slavePort : UInt16 := 0xA0

def outb (value : UInt8) (port : UInt16) (p : Pics) : Pics :=
  if port = masterPort then { p with master := p.master.writeCommand value }
  else if port = masterPort + 1 then { p with master := p.master.writeData value }
  else if port = slavePort then { p with slave := p.slave.writeCommand value }
  else if port = slavePort + 1 then { p with slave := p.slave.writeData value }
  else p

/-- The byte at a data port, zero-extended. The code reads no other port. -/
def inb (port : UInt16) (p : Pics) : UInt32 :=
  if port = masterPort + 1 then p.master.imr.toUInt32
  else if port = slavePort + 1 then p.slave.imr.toUInt32
  else 0

def i8259Init (p : Pics) : Pics :=
  let p := { p with masterMask := 0xff, slaveMask := 0xff }
  let p := p.outb p.masterMask (masterPort + 1)
  let p := p.outb p.slaveMask (slavePort + 1)
  -- ICW1 to ICW4, each to both.
  let p := p.outb 0x11 masterPort
  let p := p.outb 0x11 slavePort
  let p := p.outb 0x20 (masterPort + 1)
  let p := p.outb 0x28 (slavePort + 1)
  let p := p.outb 0x04 (masterPort + 1)
  let p := p.outb 0x02 (slavePort + 1)
  let p := p.outb 0x01 (masterPort + 1)
  let p := p.outb 0x01 (slavePort + 1)
  let p := p.outb p.masterMask (masterPort + 1)
  p.outb p.slaveMask (slavePort + 1)

/-- `port` and `irqshift` of `enable_irq` and `disable_irq`. -/
def maskPort (irqNum : UInt32) : UInt16 × UInt32 :=
  if irqNum < 8 then (masterPort + 1, irqNum) else (slavePort + 1, irqNum - 8)

def enableIrq (irqNum : UInt32) (p : Pics) : Pics :=
  let (port, irqshift) := maskPort irqNum
  let value := (p.inb port &&& ~~~(1 <<< irqshift)).toUInt8
  p.outb value port

def disableIrq (irqNum : UInt32) (p : Pics) : Pics :=
  let (port, irqshift) := maskPort irqNum
  let value := (p.inb port ||| (1 <<< irqshift)).toUInt8
  p.outb value port

/-- The writes of `send_eoi`: `EOI` with the number of the interrupt, for the slave also to the master. -/
def sendEoi (irqNum : UInt32) : List (UInt8 × UInt16) :=
  if irqNum < 8 then [((0x60 ||| irqNum).toUInt8, masterPort)]
  else [((0x60 ||| (irqNum - 8)).toUInt8, slavePort), (0x60 ||| 2, masterPort)]

/-! ## Calls -/

inductive Call where
  | enable (irqNum : UInt32)
  | disable (irqNum : UInt32)
  deriving DecidableEq, Repr

def Call.irqNum : Call → UInt32
  | .enable irqNum => irqNum
  | .disable irqNum => irqNum

def exec : Call → Pics → Pics
  | .enable irqNum => enableIrq irqNum
  | .disable irqNum => disableIrq irqNum

/-- The hardware mask has a bit for IRQ `k`. -/
def masked (p : Pics) (k : Nat) : Bool :=
  if k < 8 then p.master.imr.toBitVec.getLsbD k else p.slave.imr.toBitVec.getLsbD (k - 8)

end Pics

end Mp3Kernel
