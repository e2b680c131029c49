import Mp3Kernel.Console.Frame
import Mp3Kernel.Format.Literal

/-!
# What `entry` makes of the loader's data

The first half of `entry` in `kernel.c`, up to the descriptors: the check of the
magic number and the report on the Multiboot information. The structures of
`multiboot.h` lie in the memory that the screen is part of. Every field is read
where the code reads it, which is behind `terminal_open` and behind the lines
printed before it.
-/

namespace Mp3Kernel

open Library

namespace Boot

/-! ## The structures of `multiboot.h` -/

/-- `multiboot_info_t`, with `elf_section_header_table_t` in its place. -/
structure MultibootInfo where
  flags : UInt32
  memLower : UInt32
  memUpper : UInt32
  bootDevice : UInt32
  cmdline : UInt32
  modsCount : UInt32
  modsAddr : UInt32
  elfNum : UInt32
  elfSize : UInt32
  elfAddr : UInt32
  elfShndx : UInt32
  mmapLength : UInt32
  mmapAddr : UInt32
  deriving DecidableEq, Repr

/-- The part of `module_t` that is read. -/
structure Module where
  modStart : UInt32
  modEnd : UInt32
  deriving DecidableEq, Repr

/-- `memory_map_t`. The `size` of an entry does not count itself. -/
structure MemoryMap where
  size : UInt32
  baseAddrLow : UInt32
  baseAddrHigh : UInt32
  lengthLow : UInt32
  lengthHigh : UInt32
  type : UInt32
  deriving DecidableEq, Repr

section Layout

variable (bytes : UInt32 → UInt8)

def MultibootInfo.read (addr : UInt32) : MultibootInfo where
  flags := Memory.wordAt bytes addr
  memLower := Memory.wordAt bytes (addr + 4)
  memUpper := Memory.wordAt bytes (addr + 8)
  bootDevice := Memory.wordAt bytes (addr + 12)
  cmdline := Memory.wordAt bytes (addr + 16)
  modsCount := Memory.wordAt bytes (addr + 20)
  modsAddr := Memory.wordAt bytes (addr + 24)
  elfNum := Memory.wordAt bytes (addr + 28)
  elfSize := Memory.wordAt bytes (addr + 32)
  elfAddr := Memory.wordAt bytes (addr + 36)
  elfShndx := Memory.wordAt bytes (addr + 40)
  mmapLength := Memory.wordAt bytes (addr + 44)
  mmapAddr := Memory.wordAt bytes (addr + 48)

def Module.read (addr : UInt32) : Module where
  modStart := Memory.wordAt bytes addr
  modEnd := Memory.wordAt bytes (addr + 4)

def MemoryMap.read (addr : UInt32) : MemoryMap where
  size := Memory.wordAt bytes addr
  baseAddrLow := Memory.wordAt bytes (addr + 4)
  baseAddrHigh := Memory.wordAt bytes (addr + 8)
  lengthLow := Memory.wordAt bytes (addr + 12)
  lengthHigh := Memory.wordAt bytes (addr + 16)
  type := Memory.wordAt bytes (addr + 20)

end Layout

/-- `MULTIBOOT_BOOTLOADER_MAGIC` -/
def bootloaderMagic : UInt32 := 0x2BADB002

/-- `CHECK_FLAG(flags, bit)` -/
def checkFlag (flags bit : UInt32) : Bool := (flags &&& (1 <<< bit)) != 0

/-! ## `entry` -/

/-- What the calls of `printf` find on the stack: the words above their arguments, and what their local
arrays hold. -/
structure Stack where
  above : Nat → UInt32
  garbage : Nat → Nat → UInt8

/-- How `entry` gets through its first half: it returns, or goes on with `fileptr`. -/
inductive Outcome where
  | returns (console : Console)
  | goesOn (fileptr : UInt32) (console : Console)

variable (mbi : UInt32) (stack : Stack) (rounds : Nat)

/-- `mbi` as it is in memory now. -/
def info (s : Console) : MultibootInfo := MultibootInfo.read s.mem.bytes mbi

def say (format : String) (args : List UInt32) (s : Console) : Option Console :=
  s.printf (Format.literalCall (quoted format) args stack.above s.mem.bytes stack.garbage) rounds

def printFlags (s : Console) : Option Console :=
  say stack rounds "flags = 0x%#x\n" [(info mbi s).flags] s

/-- Are mem_* valid? -/
def printMem (s : Console) : Option Console :=
  if checkFlag (info mbi s).flags 0 then
    say stack rounds "mem_lower = %uKB, mem_upper = %uKB\n" [(info mbi s).memLower, (info mbi s).memUpper] s
  else some s

/-- Is boot_device valid? -/
def printBootDevice (s : Console) : Option Console :=
  if checkFlag (info mbi s).flags 1 then
    say stack rounds "boot_device = 0x%#x\n" [(info mbi s).bootDevice] s
  else some s

/-- Is the command line passed? -/
def printCmdline (s : Console) : Option Console :=
  if checkFlag (info mbi s).flags 2 then
    say stack rounds "cmdline = %s\n" [(info mbi s).cmdline] s
  else some s

/-- `*((char*)(mod->mod_start+i))`, a signed `char` that is passed as an `int`. -/
def moduleByte (bytes : UInt32 → UInt8) (mod : UInt32) (i : Nat) : UInt32 :=
  (bytes ((Module.read bytes mod).modStart + UInt32.ofNat i)).toInt8.toInt32.toUInt32

/-- `for(i = 0; i<16; i++)` -/
def printBytes (mod : UInt32) (s : Console) : Option Console :=
  (List.range 16).foldlM (fun s i => say stack rounds "0x%x " [moduleByte s.mem.bytes mod i] s) s

/-- The body of the loop over the modules. -/
def printModule (mod modCount : UInt32) (s : Console) : Option Console := do
  let s ← say stack rounds "Module %d loaded at address: 0x%#x\n"
    [modCount, (Module.read s.mem.bytes mod).modStart] s
  let s ← say stack rounds "Module %d ends at address: 0x%#x\n" [modCount, (Module.read s.mem.bytes mod).modEnd] s
  let s ← say stack rounds "First few bytes of module:\n" [] s
  let s ← printBytes stack rounds mod s
  say stack rounds "\n" [] s

/-- The loop over the modules, which does not move `mod`. The comparison converts `mod_count` to unsigned. -/
def modulesLoop (mod : UInt32) : Nat → UInt32 → Console → Option Console
  | 0, _, _ => none
  | left + 1, modCount, s =>
    if modCount < (info mbi s).modsCount then do
      let s ← printModule stack rounds mod modCount s
      modulesLoop mod left (modCount + 1) s
    else some s

def printModules (s : Console) : Option Console :=
  if checkFlag (info mbi s).flags 3 then
    modulesLoop mbi stack rounds (info mbi s).modsAddr rounds 0 s
  else some s

/-- `fileptr`, which is not set without modules; `garbage` is what it holds then. -/
def fileptr (garbage : UInt32) (s : Console) : UInt32 :=
  if checkFlag (info mbi s).flags 3 then (Module.read s.mem.bytes (info mbi s).modsAddr).modStart else garbage

/-- Is the section header table of ELF valid? -/
def printElf (s : Console) : Option Console :=
  if checkFlag (info mbi s).flags 5 then
    say stack rounds "elf_sec: num = %u, size = 0x%#x, addr = 0x%#x, shndx = 0x%#x\n"
      [(info mbi s).elfNum, (info mbi s).elfSize, (info mbi s).elfAddr, (info mbi s).elfShndx] s
  else some s

/-- What is printed of an entry, in the order of the format. -/
def MemoryMap.shown (entry : MemoryMap) : List UInt32 :=
  [entry.size, entry.baseAddrHigh, entry.baseAddrLow, entry.type, entry.lengthHigh, entry.lengthLow]

/-- The loop over the memory map. The step reads `mmap->size` again, behind the `printf`. -/
def mmapLoop : Nat → UInt32 → Console → Option Console
  | 0, _, _ => none
  | left + 1, mmap, s =>
    if mmap < (info mbi s).mmapAddr + (info mbi s).mmapLength then do
      let s ← say stack rounds
        " size = 0x%x,     base_addr = 0x%#x%#x\n     type = 0x%x,  length    = 0x%#x%#x\n"
        (MemoryMap.read s.mem.bytes mmap).shown s
      mmapLoop left (mmap + (MemoryMap.read s.mem.bytes mmap).size + 4) s
    else some s

/-- Are mmap_* valid? -/
def printMmap (s : Console) : Option Console :=
  if checkFlag (info mbi s).flags 6 then do
    let s ← say stack rounds "mmap_addr = 0x%#x, mmap_length = 0x%x\n"
      [(info mbi s).mmapAddr, (info mbi s).mmapLength] s
    mmapLoop mbi stack rounds rounds (info mbi s).mmapAddr s
  else some s

/-- The lines in front of the modules. -/
def printInfo (s : Console) : Option Console := do
  let s ← printFlags mbi stack rounds s
  let s ← printMem mbi stack rounds s
  let s ← printBootDevice mbi stack rounds s
  printCmdline mbi stack rounds s

/-- The lines behind the check of bits 4 and 5. -/
def printTables (s : Console) : Option Console := do
  let s ← printElf mbi stack rounds s
  printMmap mbi stack rounds s

/-- The first half of `entry`. `garbage` is what `fileptr` holds before it is set. -/
def entry (magic : UInt32) (garbage : UInt32) (s : Console) : Option Outcome := do
  let s := s.screenInit
  if magic ≠ bootloaderMagic then
    let s ← say stack rounds "Invalid magic number: 0x%#x\n" [magic] s
    return .returns s
  let s ← printInfo mbi stack rounds s
  -- `fileptr` is set in front of the loop over the modules.
  let fileptr := fileptr mbi garbage s
  let s ← printModules mbi stack rounds s
  -- Bits 4 and 5 are mutually exclusive!
  if checkFlag (info mbi s).flags 4 && checkFlag (info mbi s).flags 5 then
    let s ← say stack rounds "Both bits 4 and 5 are set.\n" [] s
    return .returns s
  let s ← printTables mbi stack rounds s
  return .goesOn fileptr s

end Boot

end Mp3Kernel
