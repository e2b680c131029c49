import Mp3Kernel.Console.Cursor
import Mp3Kernel.Format.Literal
import Mp3Kernel.Library.Picture

/-!
# The blue screen and the exception handlers

`BSOD` of `lib.c` and the handlers of `idthandlers.c` that the exception vectors
lead to. Each handler turns interrupts off, draws the blue screen, prints its
message on it with `printf` and spins; `none` alone returns.
-/

namespace Mp3Kernel

open Library

namespace Console

/-! ## The blue screen -/

/-- `cursor_y += rows; cursor_x = column` -/
def moveDown (rows : UInt32) (column : UInt8) (s : Console) : Console :=
  { s with cursorY := s.cursorY + rows, cursorX := column }

/-- The loop of `BSOD`: blue cells on the screen, not in the saved rows. -/
def blueCells (s : Console) : Console :=
  let blank (i : Nat) (m : Memory) : Memory := m.storeCell videoMem (UInt32.ofNat i) space 0x10
  { s with mem := forLoop blank screenCells s.mem }

/-- The end of `BSOD`. -/
def disableCursor (s : Console) : Console :=
  if s.cursorEnabled ≠ 0 then
    let crtc := s.crtc.select 0x0A
    let curCSR := crtc.read
    { s with crtc := crtc.write (curCSR + 0x20), cursorEnabled := 0 }
  else s

def bsod (s : Console) : Console :=
  let s := s.blueCells
  -- The places are relative to the window, wherever the cursor was.
  let s := { s with attrib := 0x17, cursorY := s.screenOffset + 10, cursorX := 10 }
  let s := (s.puts (quoted "A total FU exception has occured at your location. All system")).2
  let s := s.moveDown 1 10
  let s := (s.puts (quoted "functionality will be terminated.")).2
  let s := s.moveDown 2 10
  let s := (s.puts (quoted "- ")).2
  let s := (s.puts (quoted "Press any key to power cycle the system. If system does not")).2
  let s := s.moveDown 1 12
  let s := (s.puts (quoted "restart, scream at top of lungs and pound on keyboard.")).2
  let s := s.moveDown 1 10
  let s := (s.puts (quoted "- ")).2
  let s := (s.puts (quoted "If you need to talk to a programmer press any other key.")).2
  let s := s.moveDown 2 26
  let s := (s.puts (quoted "Press any key to continue..")).2
  let s := { s with cursorY := s.screenOffset + 8, cursorX := 20, attrib := 0xF1 }
  s.disableCursor

end Console

/-! ## The handlers -/

/-- What a handler finds: the address in `cr2`, the words above the arguments of its `printf`, memory, and
what the local arrays of `printf` hold. -/
structure Fault where
  cr2 : UInt32
  stack : Nat → UInt32
  memory : UInt32 → UInt8
  garbage : Nat → Nat → UInt8

/-- `printf(format, …)` in a handler. -/
def Fault.call (format : List UInt8) (args : List UInt32) (fault : Fault) : Format.PrintfCall :=
  Format.literalCall format args fault.stack fault.memory fault.garbage

/-- How a handler ends: in `while(1)` with interrupts off, or by returning. -/
inductive Ending where
  | spins (console : Console)
  | returns (console : Console)

namespace Exceptions

/-- `cli(); BSOD(); printf(format, …); while(1);` -/
def report (format : List UInt8) (args : List UInt32) (fault : Fault) (rounds : Nat) (s : Console) :
    Option Ending :=
  (s.bsod.printf (fault.call format args) rounds).map .spins

/-- A handler whose message takes no argument. -/
def plain (message : String) : Fault → Nat → Console → Option Ending := report (quoted message) []

def divideError := plain "Divide by Zero Exception"

def debug := plain "Debug Exception"

def nmi := plain "NMI Exception"

def int3 := plain "Breakpoint Exception"

def overflow := plain "Overflow Exception"

def bounds := plain "Bounds Check Exception"

def invalidOp := plain "Invalid Opcode Exception"

def deviceNotAvailable := plain "Device not Available Exception"

def doublefaultFn := plain "Double Fault Exception"

def coprocessorSegmentOverrun := plain "Coprocessor Segment Overrun Exception"

def invalidTSS := plain "Invalid TSS"

def segmentNotPresent := plain "Segment Not Present Exception"

def stackSegment := plain "Stack Segment Fault Exception"

def generalProtection := plain "General Protection Exception"

/-- The format of `page_fault`. -/
def pageFaultFormat : List UInt8 := quoted "PAGE FAULT EXCEPTION AT ADDRESS: 0x%x"

def pageFault (fault : Fault) : Nat → Console → Option Ending := report pageFaultFormat [fault.cr2] fault

/-- The handler of vector 15 does nothing. -/
protected def none : Fault → Nat → Console → Option Ending := fun _ _ s => some (.returns s)

def coprocessorError := plain "Floating-Point Error Exception"

def alignmentCheck := plain "Alignment Check Exception"

def machineCheck := plain "Machine Check Exception"

def simdCoprocessorError := plain "SIMD Floating Point Exception"

def ehandlers : List (Fault → Nat → Console → Option Ending) := [
  divideError, debug, nmi, int3, overflow, bounds, invalidOp, deviceNotAvailable, doublefaultFn,
  coprocessorSegmentOverrun, invalidTSS, segmentNotPresent, stackSegment, generalProtection, pageFault,
  Exceptions.none, coprocessorError, alignmentCheck, machineCheck, simdCoprocessorError]

end Exceptions

end Mp3Kernel
