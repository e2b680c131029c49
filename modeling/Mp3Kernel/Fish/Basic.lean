import Mp3Kernel.Blink.Basic
import Mp3Kernel.Library.Text

/-!
# `fish.c`

`add_frames` reads two files side by side, a character of each at a time, and adds
a blinker for every place where one of them has a character. `main` then lets the
tasklet run, with a few other calls in between.

The loops take as many rounds as the files need. They take a number of rounds
here, and `none` stands for a loop that is still going.
-/

namespace Mp3Kernel

open Library

namespace Fish

def zeroChar : UInt8 := 0x30

/-- The variables for one of the two files, and what its descriptor still delivers: the results of the
reads of a byte, `none` for one that fails. Behind the last one a read returns 0. -/
structure Side where
  c : UInt8
  eof : Bool
  unread : List (Option UInt8)

/-- `if(c0 != '\n')` and its block. -/
def Side.readChar (s : Side) : Side :=
  if s.c ≠ newline then
    match s.unread with
    | [] => { s with c := newline, eof := true }
    -- -1 is not 0, and `c0` is as it was.
    | none :: rest => { s with unread := rest }
    | some c :: rest => { s with c := c, unread := rest }
  else s

/-- `if(eof0)` behind a row. The other rows of a file that has ended are empty. -/
def Side.endRow (s : Side) : Side := if s.eof then { s with c := newline } else { s with c := zeroChar }

/-- The calls that `add_frames` makes besides `ece391_open` and `ece391_read`. -/
inductive FrameCall where
  | halt (status : UInt8)
  | add (user : Blinker)
  | close (fd : Int32)
  deriving DecidableEq

/-- The local variables of `add_frames`, and the calls so far. -/
structure AddFrames where
  fd0 : Int32
  fd1 : Int32
  side0 : Side
  side1 : Side
  row : Nat
  col : Nat
  blinkStruct : Blinker
  calls : List FrameCall

namespace AddFrames

def readChars (f : AddFrames) : AddFrames :=
  { f with side0 := f.side0.readChar, side1 := f.side1.readChar }

/-- The `else` behind `if(c0 == '\n' && c1 == '\n')`. `location` takes the low 16 bits. -/
def addChars (f : AddFrames) : AddFrames :=
  let c0 := f.side0.c
  let c1 := f.side1.c
  if (c0 ≠ space ∧ c0 ≠ newline) ∨ (c1 ≠ space ∧ c1 ≠ newline) then
    let user := { f.blinkStruct with
      onChar := if c0 = newline then space else c0
      offChar := if c1 = newline then space else c1
      location := UInt16.ofNat (f.row * 80 + f.col + 40) }
    { f with blinkStruct := user, calls := f.calls ++ [.add user] }
  else f

/-- `while(1)`: the columns of a row. -/
def rowLoop : Nat → AddFrames → Option AddFrames
  | 0, _ => none
  | rounds + 1, f =>
    let f := f.readChars
    if f.side0.c = newline ∧ f.side1.c = newline then some f
    else rowLoop rounds { f.addChars with col := f.col + 1 }

/-- The two tests behind a row. A file that has ended is closed again behind every other row. -/
def endRow (f : AddFrames) : AddFrames :=
  { f with
    side0 := f.side0.endRow
    side1 := f.side1.endRow
    calls := f.calls ++ (if f.side0.eof then [.close f.fd0] else []) ++
      (if f.side1.eof then [.close f.fd1] else [])
    row := f.row + 1 }

/-- `while(eof0 == 0 || eof1 == 0)` -/
def frameLoop (columns : Nat) : Nat → AddFrames → Option AddFrames
  | 0, _ => none
  | rows + 1, f =>
    if f.side0.eof = false ∨ f.side1.eof = false then do
      let f ← rowLoop columns { f with col := 0 }
      frameLoop columns rows f.endRow
    else some f

end AddFrames

/-- `stack` is what the local `blink_struct` holds before; the descriptors are the results of
`ece391_open`. -/
def addFrames (rounds : Nat) (stack : Blinker) (fd0 fd1 : Int32) (file0 file1 : List (Option UInt8)) :
    Option (List FrameCall) :=
  let blinkStruct := { stack with onLength := 15, offLength := 15 }
  if fd0 < 0 then some [.halt 0xFF]
  else if fd1 < 0 then some [.halt 0xFF]
  else do
    let f ← AddFrames.frameLoop rounds rounds
      ⟨fd0, fd1, ⟨zeroChar, false, file0⟩, ⟨zeroChar, false, file1⟩, 0, 0, blinkStruct, []⟩
    some f.calls

/-! ## `main` -/

def wait : Nat := 200

def ticks (n : Nat) : List Blinkers.Call := List.replicate n .tasklet

/-- What `main` does to the blinkers behind `add_frames`. `RTC_REMOVE` is called with the loop counter
instead of a location. -/
def mainCalls (stack : Blinker) : List Blinkers.Call :=
  let user := { stack with onChar := 0x49, offChar := 0x4D, onLength := 7, offLength := 6, location := 6 * 80 + 60 }
  ticks wait ++ .add user :: ticks wait ++ .sync ((40 : UInt32) <<< 16 ||| (6 * 80 + 60)) :: ticks wait ++
    .remove (UInt32.ofNat wait) :: ticks (80 * 25)

end Fish

end Mp3Kernel
