import Mp3Kernel.Idt.Basic
import Mp3Kernel.Pic.Masks

/-!
# Interrupts and their handlers

`Pics` has the registers that the kernel programs. Here each controller has its
lines as well: what the devices request, and what is in service, from the moment
the CPU takes the interrupt to the end-of-interrupt of its handler.

The CPU takes an interrupt between any two statements while its interrupt flag is
set. A handler runs on the stack of what it interrupts, so the handlers that have
not returned are a list. Whether a gate clears the flag depends on its type.
-/

namespace Mp3Kernel

open Library

namespace Interrupts

open Pics (masterPort slavePort)

/-! ## The controllers -/

/-- The interrupt request register and the in-service register of a controller. -/
structure Lines where
  requested : Nat → Bool
  inService : Nat → Bool

namespace Lines

def writeCommand (value : UInt8) (l : Lines) : Lines :=
  -- ICW1 resets the edge sense of the lines.
  if value &&& 0x10 ≠ 0 then { l with requested := fun _ => false }
  -- OCW3
  else if value &&& 0x08 ≠ 0 then l
  -- OCW2: the end of the interrupt that it names, or of the most urgent one.
  else if value &&& 0xE0 = 0x60 then
    { l with inService := Function.update l.inService (value &&& 0x07).toNat false }
  else if value &&& 0xE0 = 0x20 then
    match (List.range 8).find? l.inService with
    | some i => { l with inService := Function.update l.inService i false }
    | none => l
  else l

/-- The most urgent line that is requested and not masked, unless a line at least as urgent is in service. -/
def accepts (imr : UInt8) (line : Nat → Bool) (l : Lines) : Option Nat :=
  (List.range 8).find? fun i =>
    line i && !imr.toBitVec.getLsbD i && (List.range (i + 1)).all fun j => !l.inService j

/-- The CPU acknowledges a line. With bit 1 of ICW4 that would end the interrupt, too. -/
def take (mode : UInt8) (i : Nat) (l : Lines) : Lines where
  requested := Function.update l.requested i false
  inService := if mode &&& 0x02 ≠ 0 then l.inService else Function.update l.inService i true

end Lines

structure Controllers where
  pics : Pics
  master : Lines
  slave : Lines

namespace Controllers

def outb (value : UInt8) (port : UInt16) (c : Controllers) : Controllers where
  pics := c.pics.outb value port
  master := if port = masterPort then c.master.writeCommand value else c.master
  slave := if port = slavePort then c.slave.writeCommand value else c.slave

/-- A device requests an interrupt; the line stays up until it is acknowledged. -/
def raise (irq : Nat) (c : Controllers) : Controllers :=
  if irq < 8 then { c with master := { c.master with requested := Function.update c.master.requested irq true } }
  else { c with slave := { c.slave with requested := Function.update c.slave.requested (irq - 8) true } }

def slaveAccepts (c : Controllers) : Option Nat := c.slave.accepts c.pics.slave.imr c.slave.requested

/-- ICW3 says which line of the master is the output of the slave. -/
def cascaded (c : Controllers) (i : Nat) : Bool := c.pics.master.cascade.toBitVec.getLsbD i

def masterLine (c : Controllers) (i : Nat) : Bool :=
  if c.cascaded i then c.slaveAccepts.isSome else c.master.requested i

def masterAccepts (c : Controllers) : Option Nat := c.master.accepts c.pics.master.imr c.masterLine

/-- The vector of a line: ICW2, with the number of the line as its lowest three bits. -/
def vector (pic : Pic) (i : Nat) : UInt8 := pic.vectors &&& 0xF8 ||| UInt8.ofNat i

/-- The vector that the controllers answer the CPU with, if there is an interrupt for it. -/
def acknowledge (c : Controllers) : Option (UInt8 × Controllers) :=
  match c.masterAccepts with
  | none => none
  | some i =>
    let master := c.master.take c.pics.master.mode i
    if c.cascaded i then
      match c.slaveAccepts with
      | none => none
      | some j =>
        some (vector c.pics.slave j, { c with master := master, slave := c.slave.take c.pics.slave.mode j })
    else some (vector c.pics.master i, { c with master := master })

end Controllers

/-! ## The handlers -/

/-- `keyboard_input` and `rtc_intr` touch neither the controllers nor the interrupt flag. -/
inductive Statement where
  | cli
  | sti
  | inb (port : UInt16)
  | outb (value : UInt8) (port : UInt16)
  | keyboardInput
  | rtcIntr
  deriving DecidableEq, Repr

inductive Handler where
  | keyboard
  | rtClock
  deriving DecidableEq, Repr

def sendEoi (irqNum : UInt32) : List Statement :=
  (Pics.sendEoi irqNum).map fun write => .outb write.1 write.2

/-- The body of a handler, up to its `iret`. -/
def Handler.body : Handler → List Statement
  | .keyboard => [.cli, .inb 0x60] ++ sendEoi 1 ++ [.keyboardInput, .sti]
  | .rtClock => [.cli, .outb 0x8C 0x70, .inb 0x71, .rtcIntr] ++ sendEoi 8 ++ [.sti]

/-- The handlers of the lines that `entry` enables. `timer_chip` has a gate too, but it ends with a `ret`. -/
def dispatch (v : UInt8) : Option Handler :=
  if v = 0x21 then some .keyboard else if v = 0x28 then some .rtClock else none

/-! ## The system -/

/-- A handler that has not returned: what is left of it, and the interrupt flag that its `iret` restores. -/
structure Frame where
  handler : Handler
  rest : List Statement
  flag : Bool

structure System where
  controllers : Controllers
  flag : Bool
  frames : List Frame
  fault : Bool

inductive Event where
  | raise (irq : Nat)
  | interrupt
  | step

namespace System

def statement : Statement → System → System
  | .cli, s => { s with flag := false }
  | .sti, s => { s with flag := true }
  | .outb value port, s => { s with controllers := s.controllers.outb value port }
  | .inb _, s | .keyboardInput, s | .rtcIntr, s => s

/-- Through a trap gate the flag stays set. A vector without a handler is a fault. -/
def enter (idt : UInt8 → BitVec 64) (v : UInt8) (s : System) : System :=
  match dispatch v with
  | none => { s with fault := true }
  | some handler =>
    { s with
      flag := s.flag && (Idt.Gate.decode (idt v)).type == 0xF
      frames := ⟨handler, handler.body, s.flag⟩ :: s.frames }

def exec (idt : UInt8 → BitVec 64) : Event → System → System
  | .raise irq, s => { s with controllers := s.controllers.raise irq }
  | .interrupt, s =>
    if s.flag then
      match s.controllers.acknowledge with
      | none => s
      | some (v, controllers) => { s with controllers := controllers }.enter idt v
    else s
  | .step, s =>
    match s.frames with
    -- The loop of `entry`, which leaves the controllers and the flag alone.
    | [] => s
    | ⟨_, [], flag⟩ :: frames => { s with flag := flag, frames := frames }
    | ⟨handler, st :: rest, flag⟩ :: frames => { s with frames := ⟨handler, rest, flag⟩ :: frames }.statement st

/-- What `entry` makes of the controllers: all lines masked, `i8259_init`, and three of them enabled. -/
def bootPics (p : Pics) : Pics :=
  run Pics.exec [.enable 8, .enable 2, .enable 1]
    (Pics.i8259Init (run Pics.exec ((List.range 16).map fun j => .disable (UInt32.ofNat j)) p))

/-- The system at the `sti` of `entry`, with nothing in service. -/
def booted (p : Pics) (requested requested' : Nat → Bool) : System where
  controllers := ⟨bootPics p, ⟨requested, fun _ => false⟩, ⟨requested', fun _ => false⟩⟩
  flag := true
  frames := []
  fault := false

end System

end Interrupts

end Mp3Kernel
