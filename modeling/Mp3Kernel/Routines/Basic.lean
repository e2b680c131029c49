import Mp3Kernel.Library.X86

/-!
# The memory routines of `lib.c`

`memset`, `memset_word`, `memset_dword`, `memcpy` and `memmove` are inline
assembly. Each is a program here, instruction for instruction, and a call puts
the operands into the registers that the constraints name. What the other
registers and the direction flag hold at the call is left open.
-/

namespace Mp3Kernel

open Library

namespace Routines

/-! ## Programs -/

inductive MemsetLabel where
  | top | aligned | bottom | done
  deriving DecidableEq, Repr

def memsetCode : List (Instr MemsetLabel) := [
  .label .top,
  .test .ecx .ecx,
  .jz .done,
  .testImm 0x3 .edi,
  .jz .aligned,
  .storeAl .edi,
  .addImm 1 .edi,
  .subImm 1 .ecx,
  .jmp .top,
  .label .aligned,
  .movFromDs .edx,
  .movToEs .edx,
  .mov .ecx .edx,
  .shrImm 2 .ecx,
  .andImm 0x3 .edx,
  .cld,
  .repStos .dword,
  .label .bottom,
  .test .edx .edx,
  .jz .done,
  .storeAl .edi,
  .addImm 1 .edi,
  .subImm 1 .edx,
  .jmp .bottom,
  .label .done]

/-- `memset_word` and `memset_dword`, which have no labels. -/
def memsetStringCode (w : Width) : List (Instr Empty) := [
  .movFromDs .edx,
  .movToEs .edx,
  .cld,
  .repStos w]

def memsetWordCode : List (Instr Empty) := memsetStringCode .word

def memsetDwordCode : List (Instr Empty) := memsetStringCode .dword

inductive MemcpyLabel where
  | top | aligned | bottom | done
  deriving DecidableEq, Repr

def memcpyCode : List (Instr MemcpyLabel) := [
  .label .top,
  .test .ecx .ecx,
  .jz .done,
  .testImm 0x3 .edi,
  .jz .aligned,
  .loadAl .esi,
  .storeAl .edi,
  .addImm 1 .edi,
  .addImm 1 .esi,
  .subImm 1 .ecx,
  .jmp .top,
  .label .aligned,
  .movFromDs .edx,
  .movToEs .edx,
  .mov .ecx .edx,
  .shrImm 2 .ecx,
  .andImm 0x3 .edx,
  .cld,
  .repMovs .dword,
  .label .bottom,
  .test .edx .edx,
  .jz .done,
  .loadAl .esi,
  .storeAl .edi,
  .addImm 1 .edi,
  .addImm 1 .esi,
  .subImm 1 .edx,
  .jmp .bottom,
  .label .done]

inductive MemmoveLabel where
  | go
  deriving DecidableEq, Repr

def memmoveCode : List (Instr MemmoveLabel) := [
  .movFromDs .edx,
  .movToEs .edx,
  .cld,
  .cmp .edi .esi,
  .jae .go,
  -- The last bytes of the two ranges.
  .lea (-1) .esi .ecx .esi,
  .lea (-1) .edi .ecx .edi,
  .std,
  .label .go,
  .repMovs .byte]

/-! ## Calls -/

/-- No routine takes more steps than this for `n` elements. -/
def stepBound (n : UInt32) : Nat := 16 * n.toNat + 64

/-- The bytes of `%eax` for `memset`: the low byte of `c`, four times. -/
def memsetPattern (c : Int32) : UInt32 :=
  let c := c &&& 0xFF
  (c <<< 24 ||| c <<< 16 ||| c <<< 8 ||| c).toUInt32

def memset (s : UInt32) (c : Int32) (n : UInt32) (cpu : Cpu) : Cpu :=
  (step memsetCode)^[stepBound n] { cpu with eip := 0, eax := memsetPattern c, edi := s, ecx := n }

def memsetWord (s : UInt32) (c : Int32) (n : UInt32) (cpu : Cpu) : Cpu :=
  (step memsetWordCode)^[stepBound n] { cpu with eip := 0, eax := c.toUInt32, edi := s, ecx := n }

def memsetDword (s : UInt32) (c : Int32) (n : UInt32) (cpu : Cpu) : Cpu :=
  (step memsetDwordCode)^[stepBound n] { cpu with eip := 0, eax := c.toUInt32, edi := s, ecx := n }

def memcpy (dest src n : UInt32) (cpu : Cpu) : Cpu :=
  (step memcpyCode)^[stepBound n] { cpu with eip := 0, esi := src, edi := dest, ecx := n }

def memmove (dest src n : UInt32) (cpu : Cpu) : Cpu :=
  (step memmoveCode)^[stepBound n] { cpu with eip := 0, edi := dest, esi := src, ecx := n }

end Routines

end Mp3Kernel
