import Mp3Kernel.Library.Machine
import Mp3Kernel.Library.Run

/-!
# The real-time clock

The device is an index latch behind port 0x70 and a file of registers behind
port 0x71; bit 7 of the index byte masks the NMI and selects nothing. The flags
of `rtc.c` only ever hold 0 or 1.
-/

namespace Mp3Kernel

open Library

/-- The static variables of `rtc.c`, and the device. -/
structure Rtc where
  intrRecieved : Bool
  pie : Bool
  uie : Bool
  freq : Int
  device : RegisterFile UInt8

/-- The clock interrupts with a value in register C, or the kernel executes a statement. -/
inductive RtcEvent where
  | tick (value : UInt8)
  | advance

namespace RtcEvent

def isAdvance : RtcEvent → Bool
  | .advance => true
  | .tick _ => false

def tick? : RtcEvent → Option UInt8
  | .tick value => some value
  | .advance => none

end RtcEvent

namespace Rtc

def registerA : UInt8 := 0x0A
def registerC : UInt8 := 0x0C

/-- `freq` of `rtc.c`. -/
def freqTable : List Int := [2, 4, 8, 16, 32, 64, 128, 256, 512, 1024]

/-- `outb(index, RTC_CMD)` -/
def outIndex (index : UInt8) (r : Rtc) : Rtc := { r with device := r.device.select (index &&& 0x7F) }

/-- `outb(value, RTC_DATA)` -/
def outData (value : UInt8) (r : Rtc) : Rtc := { r with device := r.device.write value }

def rtcIntr (temp : UInt8) (r : Rtc) : Rtc :=
  let r :=
    if temp = 0xC0 then { r with pie := false }
    else if temp = 0x90 then { r with uie := false }
    else if temp = 0x90 ||| 0xC0 then { r with uie := false, pie := false }
    else r
  { r with intrRecieved := false }

/-- The interrupt handler, when the device has raised the flags `value` in register C.
Reading register C clears it. -/
def rtClock (value : UInt8) (r : Rtc) : Rtc :=
  -- The device has set the flags before it interrupts.
  let raised := { r with device := { r.device with regs := Function.update r.device.regs registerC value } }
  let selected := raised.outIndex 0x8C
  let temp := selected.device.read
  rtcIntr temp { selected with device := selected.device.write 0 }

/-- A statement of `rtc_open` or `rtc_close`. -/
inductive PortStatement where
  | index (value : UInt8)
  | data (value : UInt8)
  | freq (value : Int)
  deriving DecidableEq, Repr

def PortStatement.exec : PortStatement → Rtc → Rtc
  | .index value, r => r.outIndex value
  | .data value, r => r.outData value
  | .freq value, r => { r with freq := value }

/-- `rtc_open`: select Reg A and write 2Hz Freq, select Reg B and enable Periodic Interrupt and Update Ended
Interrupt. -/
def openStatements : List PortStatement := [.index 0x8A, .data 0x2F, .freq 2, .index 0x8B, .data 0x50]

/-- `rtc_close`: disable the oscillator, then everything else. -/
def closeStatements : List PortStatement := [.index 0x8A, .data 0x00, .index 0x8B, .data 0x00]

/-- `rtc_open` without an interrupt in between. -/
def rtcOpen (r : Rtc) : Rtc := run PortStatement.exec openStatements r

def powerOn : Rtc := ⟨false, false, false, 0, ⟨0, fun _ => 0⟩⟩

/-- The frequency that register A asks for, from rate 3 on. -/
def rate (a : UInt8) : Int := 32768 / 2 ^ ((a &&& 0x0F).toNat - 1)

/-! ## What the handler leaves alone -/

@[simp] theorem rtcIntr_device (temp : UInt8) (r : Rtc) : (rtcIntr temp r).device = r.device := by
  simp only [rtcIntr]
  split
  · rfl
  · split
    · rfl
    · split <;> rfl

@[simp] theorem rtcIntr_freq (temp : UInt8) (r : Rtc) : (rtcIntr temp r).freq = r.freq := by
  simp only [rtcIntr]
  split
  · rfl
  · split
    · rfl
    · split <;> rfl

@[simp] theorem rtClock_freq (value : UInt8) (r : Rtc) : (r.rtClock value).freq = r.freq := by
  simp [rtClock, outIndex]

/-- The handler leaves register C selected. -/
@[simp] theorem rtClock_index (value : UInt8) (r : Rtc) :
    (r.rtClock value).device.index = registerC := by
  have selected : (0x8C : UInt8) &&& 0x7F = registerC := by decide
  simp [rtClock, outIndex, selected]

@[simp] theorem rtClock_registerA (value : UInt8) (r : Rtc) :
    (r.rtClock value).device.regs registerA = r.device.regs registerA := by
  have other : registerA ≠ registerC := by decide
  have selected : (0x8C : UInt8) &&& 0x7F = registerC := by decide
  simp [rtClock, outIndex, selected, other]

/-! ## What the handler does to the flags -/

/-- The two values of register C for which `rtc_intr` clears `rtc_uie`. -/
def updateEnded (value : UInt8) : Bool := value = 0x90 || value = 0xD0

/-- The two values of register C for which `rtc_intr` clears `rtc_pie`. -/
def periodic (value : UInt8) : Bool := value = 0xC0 || value = 0xD0

theorem rtcIntr_flags (temp : UInt8) (r : Rtc) :
    (rtcIntr temp r).uie = (r.uie && !updateEnded temp) ∧
    (rtcIntr temp r).pie = (r.pie && !periodic temp) ∧ (rtcIntr temp r).intrRecieved = false := by
  have both : (0x90 : UInt8) ||| 0xC0 = 0xD0 := by decide
  simp only [rtcIntr, updateEnded, periodic, both]
  split
  · rename_i value
    subst value
    simp
  · split
    · rename_i value
      subst value
      simp
    · rename_i notPeriodic notUpdate
      split <;> simp [*]

/-- The handler passes the value of register C on to `rtc_intr`. -/
theorem rtClock_flags (value : UInt8) (r : Rtc) :
    (r.rtClock value).uie = (r.uie && !updateEnded value) ∧
    (r.rtClock value).pie = (r.pie && !periodic value) ∧ (r.rtClock value).intrRecieved = false := by
  have selected : (0x8C : UInt8) &&& 0x7F = registerC := by decide
  have passed : r.rtClock value = rtcIntr value { r with device := (r.rtClock value).device } := by
    simp [rtClock, outIndex, selected]
  rw [passed]
  exact rtcIntr_flags value _

@[simp] theorem rtClock_uie (value : UInt8) (r : Rtc) :
    (r.rtClock value).uie = (r.uie && !updateEnded value) := (rtClock_flags value r).1

@[simp] theorem rtClock_pie (value : UInt8) (r : Rtc) :
    (r.rtClock value).pie = (r.pie && !periodic value) := (rtClock_flags value r).2.1

@[simp] theorem rtClock_intrRecieved (value : UInt8) (r : Rtc) :
    (r.rtClock value).intrRecieved = false := (rtClock_flags value r).2.2

end Rtc

end Mp3Kernel
