import Mp3Kernel.Library.Text
import Mp3Kernel.Library.Machine

/-!
# `printf` and `itoa` of `lib.c`

`itoa` and `strrev` work on a local array from an index on. `printf` is given the
format, the words that are above it on the stack and the memory that pointers
among them lead to; what it passes to `putc` is collected in `out`. What `putc`
stores does not reach any of these.

The loops take a number of rounds, and a function is `none` when one of them is
still going after that many.
-/

namespace Mp3Kernel

open Library

namespace Format

def minus : UInt8 := 0x2D

def percentSign : UInt8 := 0x25

def numberSign : UInt8 := 0x23

def digitZero : UInt8 := 0x30

/-! ## Strings -/

def strlen (rounds : Nat) (s : Nat → UInt8) : Option Nat := findNul s rounds 0

/-- The loop of `strrev(&buf[s])`. `end` stays below 2^31 for every string shorter than that. -/
def strrevLoop (s : Nat) : Nat → Nat → Int → LocalArray → Option LocalArray
  | 0, _, _, _ => none
  | rounds + 1, beg, fin, buf =>
    if beg < fin then
      let tmp := buf.bytes (s + fin.toNat)
      let buf := buf.store (s + fin.toNat) (buf.bytes (s + beg))
      let buf := buf.store (s + beg) tmp
      strrevLoop s rounds (beg + 1) (fin - 1) buf
    else some buf

def strrev (rounds s : Nat) (buf : LocalArray) : Option LocalArray := do
  let length ← strlen rounds fun k => buf.bytes (s + k)
  strrevLoop s rounds 0 (length - 1) buf

/-! ## `itoa` -/

/-- `"0123456789ABCDEFGHIJKLMNOPQRSTUVWXYZ"` -/
def lookup : List UInt8 := [
  0x30, 0x31, 0x32, 0x33, 0x34, 0x35, 0x36, 0x37, 0x38, 0x39,
  0x41, 0x42, 0x43, 0x44, 0x45, 0x46, 0x47, 0x48, 0x49, 0x4A, 0x4B, 0x4C, 0x4D,
  0x4E, 0x4F, 0x50, 0x51, 0x52, 0x53, 0x54, 0x55, 0x56, 0x57, 0x58, 0x59, 0x5A]

/-- The loop that stores the digits from the lowest place value to the highest, and where it stops. -/
def digitLoop (radix : Int32) : Nat → UInt32 → Nat → LocalArray → Option (Nat × LocalArray)
  | 0, _, _, _ => none
  | rounds + 1, newval, newbuf, buf =>
    if 0 < newval then
      -- The radix is converted to unsigned.
      let i := newval % radix.toUInt32
      let buf := buf.store newbuf (lookup.getD i.toNat 0)
      digitLoop radix rounds (newval / radix.toUInt32) (newbuf + 1) buf
    else some (newbuf, buf)

/-- `itoa(value, &buf[s], radix)` -/
def itoa (rounds : Nat) (value : UInt32) (s : Nat) (radix : Int32) (buf : LocalArray) :
    Option LocalArray :=
  if value = 0 then some ((buf.store s digitZero).store (s + 1) 0)
  else do
    let (newbuf, buf) ← digitLoop radix rounds value s buf
    strrev rounds s (buf.store newbuf 0)

/-! ## `printf` -/

/-- What `printf` is called with: the format, the words above it on the stack, and memory. `garbage i`
is what the local array of the conversion at `format[i]` holds before it. -/
structure PrintfCall where
  format : Nat → UInt8
  stack : Nat → UInt32
  memory : UInt32 → UInt8
  garbage : Nat → Nat → UInt8

/-- The bytes at a pointer. -/
def PrintfCall.pointer (call : PrintfCall) (address : UInt32) (k : Nat) : UInt8 :=
  call.memory (address + UInt32.ofNat k)

/-- A store to `conv_buf[index]`, for an array of `size` bytes. -/
structure BufStore where
  index : Nat
  size : Nat
  deriving DecidableEq, Repr

/-- The pointers `buf` and `esp` as indices, what was passed to `putc`, and two records that no step
depends on: the indices read through `buf`, the latest first, and the stores to the local arrays. -/
structure Printf where
  buf : Nat
  esp : Nat
  out : List UInt8
  reads : List Nat
  stores : List BufStore
  deriving DecidableEq, Repr

namespace Printf

def start : Printf := ⟨0, 0, [], [], []⟩

def putc (c : UInt8) (p : Printf) : Printf := { p with out := p.out ++ [c] }

/-- `*buf` -/
def read (p : Printf) : Printf := { p with reads := p.buf :: p.reads }

/-- `buf++` -/
def advance (p : Printf) : Printf := { p with buf := p.buf + 1 }

@[simp] theorem advance_buf (p : Printf) : p.advance.buf = p.buf + 1 := rfl

def puts (rounds : Nat) (s : Nat → UInt8) (p : Printf) : Option Printf :=
  (readText s rounds 0).map fun str => { p with out := p.out ++ str }

/-- The block of a conversion ends: what it has stored goes to the record. -/
def leave (size : Nat) (convBuf : LocalArray) (p : Printf) : Printf :=
  { p with stores := convBuf.stores.map (fun i => ⟨i, size⟩) ++ p.stores }

variable (call : PrintfCall) (rounds : Nat)

/-- `while(i < 8) { conv_buf[i] = '0'; i++; }` -/
def padZeros (startingIndex : Nat) (convBuf : LocalArray) : LocalArray :=
  forLoop (fun k => LocalArray.store (startingIndex + k) digitZero) (8 - startingIndex) convBuf

def hexadecimal (alternate : Bool) (p : Printf) : Option Printf := do
  let convBuf : LocalArray := ⟨call.garbage p.buf, []⟩
  if alternate = false then
    let convBuf ← itoa rounds (call.stack p.esp) 0 16 convBuf
    let p ← p.puts rounds convBuf.bytes
    some { p.leave 64 convBuf with esp := p.esp + 1 }
  else
    let convBuf ← itoa rounds (call.stack p.esp) 8 16 convBuf
    let startingIndex ← strlen rounds fun k => convBuf.bytes (8 + k)
    let convBuf := padZeros startingIndex convBuf
    let p ← p.puts rounds fun k => convBuf.bytes (startingIndex + k)
    some { p.leave 64 convBuf with esp := p.esp + 1 }

def unsignedDecimal (p : Printf) : Option Printf := do
  let convBuf : LocalArray := ⟨call.garbage p.buf, []⟩
  let convBuf ← itoa rounds (call.stack p.esp) 0 10 convBuf
  let p ← p.puts rounds convBuf.bytes
  some { p.leave 36 convBuf with esp := p.esp + 1 }

def signedDecimal (p : Printf) : Option Printf := do
  let convBuf : LocalArray := ⟨call.garbage p.buf, []⟩
  let value := (call.stack p.esp).toInt32
  let convBuf ←
    if value < 0 then itoa rounds (-value).toUInt32 1 10 (convBuf.store 0 minus)
    else itoa rounds value.toUInt32 0 10 convBuf
  let p ← p.puts rounds convBuf.bytes
  some { p.leave 36 convBuf with esp := p.esp + 1 }

def character (p : Printf) : Printf :=
  { p.putc (call.stack p.esp).toUInt8 with esp := p.esp + 1 }

def string (p : Printf) : Option Printf := do
  let p ← p.puts rounds (call.pointer (call.stack p.esp))
  some { p with esp := p.esp + 1 }

/-- The cases of `switch(*buf)` behind the label, but for `#`. -/
def convert (alternate : Bool) (c : UInt8) (p : Printf) : Option Printf :=
  if c = percentSign then some (p.putc percentSign)
  else if c = 0x78 then hexadecimal call rounds alternate p
  else if c = 0x75 then unsignedDecimal call rounds p
  else if c = 0x64 then signedDecimal call rounds p
  else if c = 0x63 then some (character call p)
  else if c = 0x73 then string call rounds p
  else some p

/-- `format_char_switch`, and the jumps back to it. -/
def formatCharSwitch : Nat → Bool → Printf → Option Printf
  | 0, _, _ => none
  | gotos + 1, alternate, p =>
    let c := call.format p.buf
    let p := p.read
    if c = numberSign then formatCharSwitch gotos true p.advance
    else convert call rounds alternate c p

/-- The loop over the format. One read stands for those of the test, the `switch` and `putc`. -/
def loop : Nat → Printf → Option Printf
  | 0, _ => none
  | left + 1, p =>
    let c := call.format p.buf
    let p := p.read
    if c = 0 then some p
    else if c = percentSign then do
      let p ← formatCharSwitch call rounds rounds false p.advance
      loop left p.advance
    else
      loop left (p.putc c).advance

end Printf

/-- The value that `printf` returns, `buf - format`, and what it has done. -/
def printf (call : PrintfCall) (rounds : Nat) : Option (Int32 × Printf) :=
  (Printf.loop call rounds rounds .start).map fun p => (Int32.ofNat p.buf, p)

end Format

end Mp3Kernel
