import Mp3Kernel.Syscalls.Support

/-!
# `do_one_file` of `grep`

The file is read into `data` piece by piece. A line that is cut by the end of the
buffer is moved to its start, and the next piece is read behind it. What the
system calls return is a parameter; a read stores as many bytes of the file as it
returns.
-/

namespace Mp3Kernel

open Library

namespace Syscalls

/-- `BUFSIZE` -/
def bufsize : Nat := 1024

def colon : UInt8 := 0x3A

/-- A message, as a pointer. -/
def message (text : String) : Nat → UInt8 := literal (quoted text)

/-- What the system calls return for a file. `read` is given the number of bytes left in the file, and
`nbytes`. -/
structure Files where
  opened : Int32
  read : Nat → Nat → Int32
  closed : Int32

/-- `data` and `last`, the bytes of the file that have not been read, and what was written. -/
structure Grep where
  data : LocalArray
  last : Nat
  remaining : List UInt8
  writes : List Write

namespace Grep

/-- `while (line_end < last && '\n' != data[line_end]) line_end++`, where `last - line_end` is counted down. -/
def findEnd (data : Nat → UInt8) : Nat → Nat → Nat
  | 0, lineEnd => lineEnd
  | left + 1, lineEnd => if data lineEnd = newline then lineEnd else findEnd data left (lineEnd + 1)

variable (files : Files) (rounds : Nat) (s fname : CString) (sLen : UInt32)

/-- The loop over `check`, where `line_end - check` is counted down. -/
def searchLine (lineStart : Nat) (data : Nat → UInt8) (writes : List Write) : Nat → Nat → Option (List Write)
  | 0, _ => some writes
  | left + 1, check =>
    -- `s[0]` is a `char`, which is signed, and `data[check]` a `uint8_t`.
    if (s.pointer 0).toInt8.toInt = (data check).toNat ∧
        strncmp (fun k => data (check + k)) s.pointer sLen = 0 then do
      let writes ← fdputs rounds 1 fname.pointer writes
      let writes ← fdputs rounds 1 (literal [colon]) writes
      let writes ← fdputs rounds 1 (fun k => data (lineStart + k)) writes
      fdputs rounds 1 (literal [newline]) writes
    else searchLine lineStart data writes left (check + 1)

/-- The loop over the lines in the buffer. -/
def scanBuffer (cnt : Int32) : Nat → Nat → Grep → Option Grep
  | 0, _, _ => none
  | left + 1, lineStart, g =>
    let lineEnd := findEnd g.data.bytes (g.last - lineStart) lineStart
    if g.data.bytes lineEnd ≠ newline ∧ cnt ≠ 0 ∧ lineStart ≠ 0 then do
      let data := g.data.store lineEnd 0
      let data ← strcpy (fun data k => data.bytes (lineStart + k)) 0 rounds 0 data
      some { g with data := data, last := g.last - lineStart }
    else do
      let data := g.data.store lineEnd 0
      let writes ← searchLine rounds s fname sLen lineStart data.bytes g.writes (lineEnd - lineStart) lineStart
      let g := { g with data := data, writes := writes }
      let lineStart := lineEnd + 1
      if g.last ≤ lineStart then some { g with last := 0 }
      else scanBuffer cnt left lineStart g

/-- The loop over the reads, and whether all of them succeeded. -/
def readLoop : Nat → Grep → Option (Bool × Grep)
  | 0, _ => none
  | left + 1, g =>
    let cnt := files.read g.remaining.length (bufsize - g.last)
    if cnt = -1 then do
      let writes ← fdputs rounds 1 (message "file read failed\n") g.writes
      some (false, { g with writes := writes })
    else do
      let count := cnt.toNatClampNeg
      let g := { g with
        data := g.data.storeList g.last (g.remaining.take count)
        remaining := g.remaining.drop count
        last := g.last + count }
      let g ← scanBuffer rounds s fname sLen cnt rounds 0 g
      if cnt = 0 then some (true, g) else readLoop left g

end Grep

/-- `do_one_file(s, fname)`, with `data` on its stack and `file` behind the name. -/
def doOneFile (files : Files) (rounds : Nat) (s fname : CString) (data : Nat → UInt8) (file : List UInt8) :
    Option (Int32 × Grep) := do
  let sLen ← strlen rounds s.pointer
  let g : Grep := ⟨⟨data, []⟩, 0, file, []⟩
  if files.opened = -1 then
    let writes ← fdputs rounds 1 (message "file open failed\n") g.writes
    some (-1, { g with writes := writes })
  else
    let (complete, g) ← Grep.readLoop files rounds s fname sLen rounds g
    if complete = false then some (-1, g)
    else if files.closed = -1 then
      let writes ← fdputs rounds 1 (message "file close failed\n") g.writes
      some (-1, { g with writes := writes })
    else some (0, g)

end Syscalls

end Mp3Kernel
