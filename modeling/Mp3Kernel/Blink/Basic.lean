import Mp3Kernel.Library.Machine
import Mp3Kernel.Library.Chain

/-!
# The blinkers of `fish`

`blink.S` keeps a linked list of blinkers, each a character position that
alternates between two characters. The records are slots of an array in `fish.c`,
whose allocator takes a slot for free when its `location` is 0.

The loops follow links without a bound. Here they make at most `rounds` rounds,
one more than there are slots, and `none` stands for a loop that is still going:
it has come to some slot a second time and will not end.
-/

namespace Mp3Kernel

open Library

/-- A slot of `blink_array[80*25]`. A pointer to one is its number, and NULL is `none`. -/
abbrev Slot := Fin 2000

/-- `struct mp1_blink_struct` -/
structure Blinker where
  location : UInt16
  onChar : UInt8
  offChar : UInt8
  onLength : UInt16
  offLength : UInt16
  countdown : UInt16
  status : UInt16
  next : Option Slot
  deriving DecidableEq

/-- The variables of `fish.c` and `blink.S`, and the bytes at `vmem_base_addr`. -/
structure Blinkers where
  blinkArray : Slot → Blinker
  listHead : Option Slot
  video : Nat → UInt8

def Blinker.zero : Blinker := ⟨0, 0, 0, 0, 0, 0, 0, none⟩

/-- Bit 0 of the status. -/
def Blinker.On (b : Blinker) : Prop := b.status &&& 1 ≠ 0

instance (b : Blinker) : Decidable b.On := inferInstanceAs (Decidable (¬_))

namespace Blinkers

def rounds : Nat := 2001

/-- `main` sets `blink_array` to zero. -/
def start (video : Nat → UInt8) : Blinkers := ⟨fun _ => Blinker.zero, none, video⟩

def setBlinker (slot : Slot) (b : Blinker) (bs : Blinkers) : Blinkers :=
  { bs with blinkArray := Function.update bs.blinkArray slot b }

/-! ## Memory -/

/-- The first slot whose location is 0. -/
def malloc (bs : Blinkers) : Option Slot :=
  (List.finRange 2000).find? fun i => (bs.blinkArray i).location = 0

def free (slot : Slot) (bs : Blinkers) : Blinkers := bs.setBlinker slot Blinker.zero

def poke (offset : Nat) (char : UInt8) (bs : Blinkers) : Blinkers :=
  { bs with video := Function.update bs.video offset char }

/-! ## Links -/

/-- What is stored at `mp1_list_head`, or in the `NEXT` field of a slot. -/
def link (bs : Blinkers) : Option Slot → Option Slot
  | none => bs.listHead
  | some slot => (bs.blinkArray slot).next

def setLink (value : Option Slot) (bs : Blinkers) : Option Slot → Blinkers
  | none => { bs with listHead := value }
  | some slot => bs.setBlinker slot { bs.blinkArray slot with next := value }

def findHelper (bs : Blinkers) (location : UInt16) : Nat → Option Slot → Option (Option Slot)
  | 0, _ => none
  | _ + 1, none => some none
  | rounds + 1, some slot =>
    if (bs.blinkArray slot).location = location then some (some slot)
    else bs.findHelper location rounds (bs.blinkArray slot).next

/-- The loop `remove_find_prev`: the place from which `slot` is linked. -/
def findPrev (bs : Blinkers) (slot : Slot) : Nat → Option Slot → Option (Option Slot)
  | 0, _ => none
  | rounds + 1, place =>
    if bs.link place = some slot then some place
    else
      match bs.link place with
      -- The search would go on behind NULL.
      | none => none
      | some slot' => bs.findPrev slot rounds (some slot')

/-! ## The tasklet -/

/-- The body of `tasklet_loop`. -/
def tick (slot : Slot) (bs : Blinkers) : Blinkers :=
  let b := bs.blinkArray slot
  let countdown := b.countdown - 1
  -- `jg` compares as signed numbers.
  if 0 < countdown.toInt16 then bs.setBlinker slot { b with countdown := countdown }
  else if b.On then
    (bs.poke (2 * b.location.toNat) b.offChar).setBlinker slot
      { b with countdown := b.offLength, status := b.status ^^^ 1 }
  else
    (bs.poke (2 * b.location.toNat) b.onChar).setBlinker slot
      { b with countdown := b.onLength, status := b.status ^^^ 1 }

def taskletLoop : Nat → Option Slot → Blinkers → Option Blinkers
  | 0, _, _ => none
  | _ + 1, none, bs => some bs
  | rounds + 1, some slot, bs =>
    taskletLoop rounds ((bs.tick slot).blinkArray slot).next (bs.tick slot)

def rtcTasklet (bs : Blinkers) : Option Blinkers := taskletLoop rounds bs.listHead bs

/-! ## `mp1_ioctl` -/

/-- The user's blinker in `slot`, in front of the list. -/
def insert (slot : Slot) (user : Blinker) (bs : Blinkers) : Blinkers :=
  let b := { user with status := 1, countdown := user.onLength, next := bs.listHead }
  ({ bs with listHead := some slot }.setBlinker slot b).poke (2 * b.location.toNat) b.onChar

def ioctlAdd (user : Blinker) (bs : Blinkers) : Int32 × Blinkers :=
  if user.location ≥ 80 * 25 then (-1, bs)
  else
    match bs.malloc with
    | none => (-1, bs)
    | some slot => (0, bs.insert slot user)

/-- `found_prev` and `free_mem` -/
def remove (slot : Slot) (place : Option Slot) (bs : Blinkers) : Blinkers :=
  (bs.setLink (bs.blinkArray slot).next place).free slot

/-- The helper only looks at the low 16 bits of its argument. -/
def ioctlRemove (arg : UInt32) (bs : Blinkers) : Option (Int32 × Blinkers) :=
  match bs.findHelper arg.toUInt16 rounds bs.listHead with
  | none => none
  | some none => some (-1, bs)
  | some (some slot) =>
    match bs.findPrev slot rounds none with
    | none => none
    | some place => some (0, bs.remove slot place)

/-- The record that was found goes to the user. -/
def ioctlFind (location : UInt16) (bs : Blinkers) : Option (Int32 × Option Blinker) :=
  match bs.findHelper location rounds bs.listHead with
  | none => none
  | some none => some (-1, none)
  | some (some slot) => some (0, some (bs.blinkArray slot))

/-- The character for which `mp1_ioctl_sync` calls `mp1_poke`. -/
def syncChar (b : Blinker) : UInt8 :=
  -- `testb $0x1,STATUS` clears OF and sets SF to the sign of the result.
  let signFlag := decide ((b.status.toUInt8 &&& 1).toInt8 < 0)
  let overflowFlag := false
  -- `cmovl` moves when they differ.
  if signFlag ≠ overflowFlag then b.onChar else b.offChar

/-- `sync_copy_loop` and `sync_display` -/
def copyTiming (first second : Slot) (bs : Blinkers) : Blinkers :=
  let source := bs.blinkArray first
  let b := { bs.blinkArray second with
    onLength := source.onLength
    offLength := source.offLength
    countdown := source.countdown
    status := source.status }
  (bs.setBlinker second b).poke (2 * b.location.toNat) (syncChar b)

def ioctlSync (arg : UInt32) (bs : Blinkers) : Option (Int32 × Blinkers) :=
  match bs.findHelper (arg >>> 16).toUInt16 rounds bs.listHead with
  | none => none
  | some none => some (-1, bs)
  | some (some first) =>
    match bs.findHelper (arg &&& 0xFFFF).toUInt16 rounds bs.listHead with
    | none => none
    | some none => some (-1, bs)
    | some (some second) => some (0, bs.copyTiming first second)

/-! ## Calls -/

inductive Call where
  | add (user : Blinker)
  | remove (arg : UInt32)
  | find (location : UInt16)
  | sync (arg : UInt32)
  | tasklet

/-- The value a call returns, and what it leaves. The tasklet returns nothing. -/
def call : Call → Blinkers → Option (Int32 × Blinkers)
  | .add user, bs => some (bs.ioctlAdd user)
  | .remove arg, bs => bs.ioctlRemove arg
  | .find location, bs => (bs.ioctlFind location).map fun result => (result.1, bs)
  | .sync arg, bs => bs.ioctlSync arg
  | .tasklet, bs => bs.rtcTasklet.map fun bs => (0, bs)

/-- The blinkers after some calls, or `none` when a call has not returned, and how many calls
to add and to remove a blinker were successful. -/
structure Session where
  blinkers : Option Blinkers
  adds : Nat
  removes : Nat

def Session.start (video : Nat → UInt8) : Session := ⟨some (Blinkers.start video), 0, 0⟩

def added : Call → Int32 → Nat
  | .add _, value => if value = 0 then 1 else 0
  | _, _ => 0

def removed : Call → Int32 → Nat
  | .remove _, value => if value = 0 then 1 else 0
  | _, _ => 0

def exec (call : Call) (s : Session) : Session :=
  match s.blinkers.bind (Blinkers.call call) with
  | none => { s with blinkers := none }
  | some (value, bs) => ⟨some bs, s.adds + added call value, s.removes + removed call value⟩

end Blinkers

end Mp3Kernel
