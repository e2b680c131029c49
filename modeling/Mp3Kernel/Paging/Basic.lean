import Mp3Kernel.Library.PageTable

/-!
# Paging

`paging_init` builds the page directory at 0x1000 and the page table of the first
4 MB at 0x2000, and turns paging on. `palloc` adds a 4 MB region to the directory
that `cr3` holds. The kernel reaches both tables at their own addresses.
-/

namespace Mp3Kernel

open Library

/-- Memory and the control registers that paging uses. -/
structure Paging where
  bytes : UInt32 → UInt8
  cr0 : UInt32
  cr3 : UInt32
  cr4 : UInt32

namespace Paging

def pdbrAddr : UInt32 := 0x1000

/-- `table_entry` of `paging_init`. -/
def tableAddr : UInt32 := 0x2000

/-- `base[i] |= flags` for a table of words. -/
def orEntry (base : UInt32) (i : Nat) (flags : UInt32) (bytes : UInt32 → UInt8) : UInt32 → UInt8 :=
  setEntry base i (entryAt base i bytes ||| flags) bytes

/-- The variables of the first loop of `paging_init`. -/
structure Accumulators where
  bytes : UInt32 → UInt8
  address : UInt32
  tableAddress : UInt32

/-- One round of that loop: every page r/w and not present. -/
def initRound (i : Nat) (a : Accumulators) : Accumulators where
  bytes := setEntry tableAddr i (a.tableAddress ||| 2)
    (setEntry pdbrAddr i (a.address ||| 2) a.bytes)
  address := a.address + 0x400000
  tableAddress := a.tableAddress + 0x1000

def pagingInit (s : Paging) : Paging :=
  let bytes := (forLoop initRound 1024 ⟨s.bytes, 0, 0⟩).bytes
  -- make first page null
  let bytes := setEntry tableAddr 0 0 bytes
  -- set present memory to present
  let bytes := orEntry tableAddr 1 3 bytes
  let bytes := orEntry tableAddr 2 3 bytes
  -- allocate more memory for video memory
  let bytes := orEntry tableAddr 0xB8 3 bytes
  let bytes := forLoop (fun k => orEntry tableAddr (0x100 + k) 3) 0x300 bytes
  -- show first 4mb exist
  let bytes := setEntry pdbrAddr 0 (tableAddr ||| 3) bytes
  -- sets page global, size to 4mb, r and present
  let bytes := setEntry pdbrAddr 1 (0x400000 ||| 0x181) bytes
  { bytes := bytes, cr3 := pdbrAddr, cr4 := s.cr4 ||| 0x10, cr0 := s.cr0 ||| 0x80000000 }

/-- The loops of `palloc` over the 1024 entries of a page table at `table`. -/
def fillTable (table physicalAddr flags : UInt32) (bytes : UInt32 → UInt8) : UInt32 → UInt8 :=
  (forLoop (fun i (round : UInt32 × (UInt32 → UInt8)) =>
    (round.1 + 0x1000, setEntry table i ((round.1 &&& 0xFFC00000) ||| flags) round.2))
    1024 (physicalAddr, bytes)).2

/-- `palloc`, with its return value. -/
def palloc (virtualAddr physicalAddr type privilege : UInt32) (s : Paging) : Int × Paging :=
  -- input checking
  if type > 1 ∨ physicalAddr > 0xFFC00000 ∨ privilege > 1 ∨ virtualAddr > 0xFFC00000 then (-1, s)
  else
    let pdbr := s.cr3
    let pageDirIndex := (virtualAddr / 0x400000).toNat
    -- The `&&` of the source is the logical one.
    if entryAt pdbr pageDirIndex s.bytes ≠ 0 ∧ (1 : Int) ≠ 0 then (-1, s)
    else if type = 1 then
      if privilege = 0 then
        (0, { s with bytes := setEntry pdbr pageDirIndex ((physicalAddr &&& 0xFFC00000) ||| 0x83) s.bytes })
      else
        (0, { s with bytes := setEntry pdbr pageDirIndex ((physicalAddr &&& 0xFFC00000) ||| 0x87) s.bytes })
    else
      let bytes :=
        if privilege = 0 then fillTable virtualAddr physicalAddr 3 s.bytes
        else fillTable virtualAddr physicalAddr 7 s.bytes
      (0, { s with bytes := setEntry pdbr pageDirIndex (virtualAddr ||| 3) bytes })

/-- The translation of the CPU, with 4 MB pages enabled. -/
def translate (s : Paging) (linear : UInt32) : Option Mapping :=
  pageWalk (s.cr3 &&& 0xFFFFF000) s.bytes linear

end Paging

end Mp3Kernel
