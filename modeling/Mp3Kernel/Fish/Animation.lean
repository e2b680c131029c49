import Mp3Kernel.Blink.Place
import Mp3Kernel.Fish.Frames

/-!
# The animation

What the screen shows while `main` runs: wherever one of the two frames has a
character, the character of the first frame for 15 calls of the tasklet and that of
the second frame for the next 15.
-/

namespace Mp3Kernel

open Library

namespace Fish

variable {user : Blinker} {fd0 fd1 : Int32} {page0 page1 : List (List UInt8)} {r c : Nat}

/-! ## The blinkers -/

def addedBlinker : FrameCall → Option Blinker
  | .add user => some user
  | _ => none

/-- The blinkers of the calls. -/
def added (calls : List FrameCall) : List Blinker := calls.filterMap addedBlinker

/-- One of the pages has a character at row `r`, column `c`. -/
def Drawn (page0 page1 : List (List UInt8)) (r c : Nat) : Prop := cell page0 r c ≠ space ∨ cell page1 r c ≠ space

/-- The blinker for a place. -/
def placeBlinker (user : Blinker) (page0 page1 : List (List UInt8)) (r c : Nat) : Blinker :=
  { user with onChar := cell page0 r c, offChar := cell page1 r c, location := UInt16.ofNat (r * 80 + c + 40) }

/-- No line is longer than a row of the screen, and no row number wraps. -/
structure Fits (page : List (List UInt8)) : Prop where
  rows : page.length ≤ 818
  columns : ∀ line ∈ page, line.length ≤ 80

theorem Fits.getD (fits : Fits page0) (r : Nat) : (page0.getD r []).length ≤ 80 := by
  rw [List.getD_eq_getElem?_getD]
  cases found : page0[r]? with
  | none => exact Nat.zero_le 80
  | some line => exact fits.columns line (List.mem_of_getElem? found)

theorem getD_ne_fill {α : Type} {l : List α} {fill : α} {k : Nat} (other : l.getD k fill ≠ fill) : k < l.length := by
  by_contra behind
  exact other (List.getD_eq_default l fill (Nat.not_lt.mp behind))

/-- A character is in one of the rows, and inside the row. -/
theorem cell_ne_space (other : cell page0 r c ≠ space) : r < page0.length ∧ c < (page0.getD r []).length := by
  have column : c < (page0.getD r []).length := getD_ne_fill other
  have row : page0.getD r [] ≠ [] := fun blank => by
    rw [blank] at column
    exact Nat.not_lt_zero c column
  exact ⟨getD_ne_fill row, column⟩

theorem added_pageCalls : added (pageCalls user fd0 fd1 0 page0 page1) =
    sideBySide (fun r l0 l1 => sideBySide (fun c a b =>
      if a ≠ space ∨ b ≠ space then
        [{ user with onChar := a, offChar := b, location := UInt16.ofNat (r * 80 + c + 40) }]
      else []) space l0 l1) [] page0 page1 := by
  have closing (closed : Prop) [Decidable closed] (fd : Int32) :
      (if closed then [FrameCall.close fd] else []).filterMap addedBlinker = [] := by
    split
    · rfl
    · rfl
  have place (r c : Nat) (a b : UInt8) : (charCalls user r c a b).filterMap addedBlinker =
      if a ≠ space ∨ b ≠ space then
        [{ user with onChar := a, offChar := b, location := UInt16.ofNat (r * 80 + c + 40) }]
      else [] := by
    rw [charCalls]
    split
    · rfl
    · rfl
  simp only [added, pageCalls, lineCalls, sideBySide, List.filterMap_flatMap, List.filterMap_append, closing, place,
    Nat.zero_add, List.append_nil]

theorem mem_added {b : Blinker} : b ∈ added (pageCalls user fd0 fd1 0 page0 page1) ↔
    ∃ r c, Drawn page0 page1 r c ∧ b = placeBlinker user page0 page1 r c := by
  rw [added_pageCalls]
  simp only [mem_sideBySide]
  constructor
  · rintro ⟨r, _, c, _, member⟩
    split at member
    next drawn => exact ⟨r, c, drawn, List.mem_singleton.mp member⟩
    next => exact absurd member List.not_mem_nil
  · rintro ⟨r, c, drawn, rfl⟩
    refine ⟨r, ?_, c, ?_, ?_⟩
    · rw [lt_max_iff]
      exact drawn.imp (fun d => (cell_ne_space d).1) fun d => (cell_ne_space d).1
    · rw [lt_max_iff]
      exact drawn.imp (fun d => (cell_ne_space d).2) fun d => (cell_ne_space d).2
    · rw [Drawn, cell, cell] at drawn
      rw [if_pos drawn]
      exact List.mem_singleton_self _

theorem location_toNat (row : r < 818) (column : c < 80) : (UInt16.ofNat (r * 80 + c + 40)).toNat = r * 80 + c + 40 := by
  rw [UInt16.toNat_ofNat']
  exact Nat.mod_eq_of_lt (by omega)

theorem Drawn.bounds (fits0 : Fits page0) (fits1 : Fits page1) (drawn : Drawn page0 page1 r c) : r < 818 ∧ c < 80 := by
  rcases drawn with first | second
  · have place := cell_ne_space first
    exact ⟨Nat.lt_of_lt_of_le place.1 fits0.rows, Nat.lt_of_lt_of_le place.2 (fits0.getD r)⟩
  · have place := cell_ne_space second
    exact ⟨Nat.lt_of_lt_of_le place.1 fits1.rows, Nat.lt_of_lt_of_le place.2 (fits1.getD r)⟩

/-- A blinker's location tells its row and its column, so no blinker is added twice. -/
theorem added_nodup (fits0 : Fits page0) (fits1 : Fits page1) :
    (added (pageCalls user fd0 fd1 0 page0 page1)).Nodup := by
  rw [added_pageCalls]
  have rows : max page0.length page1.length ≤ 818 := max_le fits0.rows fits1.rows
  have columns (r : Nat) : max (page0.getD r []).length (page1.getD r []).length ≤ 80 :=
    max_le (fits0.getD r) (fits1.getD r)
  apply nodup_sideBySide fun b => (b.location.toNat - 40) / 80
  · intro r row
    apply nodup_sideBySide fun b => (b.location.toNat - 40) % 80
    · intro c _
      split
      · exact List.nodup_singleton _
      · exact List.nodup_nil
    · intro c column b member
      have below := Nat.lt_of_lt_of_le column (columns r)
      split at member
      next =>
        rw [List.mem_singleton.mp member, location_toNat (Nat.lt_of_lt_of_le row rows) below]
        omega
      next => exact absurd member List.not_mem_nil
  · intro r row b member
    obtain ⟨c, column, member⟩ := mem_sideBySide.mp member
    have below := Nat.lt_of_lt_of_le column (columns r)
    split at member
    next =>
      rw [List.mem_singleton.mp member, location_toNat (Nat.lt_of_lt_of_le row rows) below]
      omega
    next => exact absurd member List.not_mem_nil

/-- No two of the blinkers are at one place. -/
theorem added_distinct (fits0 : Fits page0) (fits1 : Fits page1) :
    ((added (pageCalls user fd0 fd1 0 page0 page1)).map Blinker.location).Nodup := by
  refine (added_nodup fits0 fits1).map_on ?_
  intro b member b' member' same
  rw [mem_added] at member member'
  obtain ⟨r, c, drawn, rfl⟩ := member
  obtain ⟨r', c', drawn', rfl⟩ := member'
  have here := drawn.bounds fits0 fits1
  have there := drawn'.bounds fits0 fits1
  have equal := congrArg UInt16.toNat same
  rw [placeBlinker, placeBlinker, location_toNat here.1 here.2, location_toNat there.1 there.2] at equal
  obtain rfl : r = r' := by omega
  obtain rfl : c = c' := by omega
  rfl

theorem added_nonzero (fits0 : Fits page0) (fits1 : Fits page1) :
    0 ∉ (added (pageCalls user fd0 fd1 0 page0 page1)).map Blinker.location := by
  intro member
  obtain ⟨b, inside, zero⟩ := List.mem_map.mp member
  obtain ⟨r, c, drawn, rfl⟩ := mem_added.mp inside
  have bounds := drawn.bounds fits0 fits1
  have value := congrArg UInt16.toNat zero
  rw [placeBlinker, location_toNat bounds.1 bounds.2] at value
  exact absurd value (Nat.succ_ne_zero _)

/-! ## The run -/

/-- What `main` does behind `add_frames` leaves the other places alone. -/
theorem mainCalls_alone {l : UInt16} (other : l ≠ 540) (other' : l ≠ 200) (stack : Blinker) :
    ∀ c ∈ mainCalls stack, Blinkers.LeavesAlone l c := by
  have ticked (n : Nat) : ∀ c ∈ ticks n, Blinkers.LeavesAlone l c := by
    intro c member
    rw [List.eq_of_mem_replicate member]
    trivial
  have places : (6 * 80 + 60 : UInt16) ≠ 0 ∧ (6 * 80 + 60 : UInt16) = 540 ∧
      (((40 : UInt32) <<< 16 ||| (6 * 80 + 60)) &&& 0xFFFF).toUInt16 = 540 ∧ (UInt32.ofNat wait).toUInt16 = 200 := by
    decide
  intro c member
  simp only [mainCalls, List.mem_append, List.mem_cons, or_assoc] at member
  rcases member with early | rfl | next | rfl | later | rfl | last
  · exact ticked _ c early
  · exact ⟨places.1, ne_of_eq_of_ne places.2.1 other.symm⟩
  · exact ticked _ c next
  · exact ne_of_eq_of_ne places.2.2.1 other.symm
  · exact ticked _ c later
  · exact ne_of_eq_of_ne places.2.2.2 other'.symm
  · exact ticked _ c last

/-- What `main` does behind `add_frames` adds a blinker at 540 only. -/
theorem mainCalls_spares {o : Nat} (other : o ≠ 2 * 540) (stack : Blinker) :
    ∀ c ∈ mainCalls stack, Blinkers.Spares o c := by
  rintro c member user rfl
  simp only [mainCalls, ticks, List.mem_append, List.mem_cons, List.mem_replicate, reduceCtorEq, and_false, false_or,
    or_false, Blinkers.Call.add.injEq] at member
  have nonzero : (6 * 80 + 60 : UInt16) ≠ 0 := by decide
  subst member
  exact ⟨nonzero, fun _ => other⟩

/-- The blinkers that `add_frames` adds, and then the calls. -/
def animation (user : Blinker) (fd0 fd1 : Int32) (page0 page1 : List (List UInt8)) (calls : List Blinkers.Call) :
    List Blinkers.Call := (added (pageCalls user fd0 fd1 0 page0 page1)).map .add ++ calls

theorem animation_blank (user : Blinker) (fd0 fd1 : Int32) (video : Nat → UInt8) (fits0 : Fits page0) (fits1 : Fits page1) (stack : Blinker)
    {calls : List Blinkers.Call} (part : calls <+: mainCalls stack) {o : Nat} (im : o ≠ 2 * 540)
    (blank : ∀ r c, Drawn page0 page1 r c → r * 80 + c + 40 < 80 * 25 → o ≠ 2 * (r * 80 + c + 40)) :
    ∃ bs, (run Blinkers.exec (animation user fd0 fd1 page0 page1 calls) (Blinkers.Session.start video)).blinkers =
      some bs ∧ bs.video o = video o := by
  have away : Blinkers.Away o (Blinkers.start video) [] := fun x inside => absurd inside List.not_mem_nil
  have placed : Blinkers.Placed (Blinkers.start video) [] := ⟨rfl, fun _ inside => absurd inside List.not_mem_nil⟩
  apply away.run placed rfl
  intro call member
  rcases List.mem_append.mp member with adds | later
  · obtain ⟨b, inside, rfl⟩ := List.mem_map.mp adds
    rintro _ ⟨⟩
    refine ⟨fun zero => added_nonzero fits0 fits1 (List.mem_map.mpr ⟨b, inside, zero⟩), ?_⟩
    obtain ⟨r, c, drawn, rfl⟩ := mem_added.mp inside
    have bounds := drawn.bounds fits0 fits1
    rw [UInt16.lt_iff_toNat_lt, placeBlinker, location_toNat bounds.1 bounds.2]
    exact blank r c drawn
  · exact mainCalls_spares im stack call (part.subset later)

theorem animation_drawn (user : Blinker) (fd0 fd1 : Int32) (video : Nat → UInt8) (fits0 : Fits page0) (fits1 : Fits page1) (stack : Blinker)
    {calls : List Blinkers.Call} (part : calls <+: mainCalls stack) (lengths : user.onLength = 15 ∧ user.offLength = 15)
    (drawn : Drawn page0 page1 r c) (visible : r * 80 + c + 40 < 80 * 25) (im : r * 80 + c + 40 ≠ 540)
    (removed : r * 80 + c + 40 ≠ 200) :
    ∃ bs, (run Blinkers.exec (animation user fd0 fd1 page0 page1 calls) (Blinkers.Session.start video)).blinkers =
      some bs ∧ bs.video (2 * (r * 80 + c + 40)) =
        if calls.countP Blinkers.isTasklet % 30 < 15 then cell page0 r c else cell page1 r c := by
  have bounds := drawn.bounds fits0 fits1
  have location := location_toNat bounds.1 bounds.2
  have on : (placeBlinker user page0 page1 r c).onLength.toNat = 15 := congrArg UInt16.toNat lengths.1
  have off : (placeBlinker user page0 page1 r c).offLength.toNat = 15 := congrArg UInt16.toNat lengths.2
  have alone : ∀ call ∈ calls, Blinkers.LeavesAlone (placeBlinker user page0 page1 r c).location call := by
    intro call member
    apply mainCalls_alone
    · exact fun same => im (location.symm.trans (congrArg UInt16.toNat same))
    · exact fun same => removed (location.symm.trans (congrArg UInt16.toNat same))
    · exact part.subset member
  have member : placeBlinker user page0 page1 r c ∈ added (pageCalls user fd0 fd1 0 page0 page1) :=
    mem_added.mpr ⟨r, c, drawn, rfl⟩
  obtain ⟨bs, here, shown⟩ := Blinkers.picture_shown video (added_distinct fits0 fits1) (added_nonzero fits0 fits1)
    member (UInt16.lt_iff_toNat_lt.mpr (location.symm ▸ visible)) (by rw [on]; decide) (by rw [off]; decide) alone
  refine ⟨bs, here, ?_⟩
  rw [on, off, placeBlinker, location] at shown
  exact shown

/-- At every moment of `main` behind `add_frames`, a place of the screen where a frame has a character
has that of the first frame for the first half of each 30 ticks and that of the second frame for
the other half, and the rest of the screen is as it was. The two places left out are those where
`main` itself adds and removes a blinker. -/
theorem fish_animation (video : Nat → UInt8) (stack stack' : Blinker) {rounds : Nat} (opened0 : 0 ≤ fd0)
    (opened1 : 0 ≤ fd1) {file0 file1 : List UInt8} (enough0 : file0.length + 1 < rounds)
    (enough1 : file1.length + 1 < rounds) (fits0 : Fits (file0.splitOn newline))
    (fits1 : Fits (file1.splitOn newline)) {calls : List Blinkers.Call} (part : calls <+: mainCalls stack') :
    ∃ frameCalls bs, addFrames rounds stack fd0 fd1 (file0.map some) (file1.map some) = some frameCalls ∧
      (run Blinkers.exec ((added frameCalls).map .add ++ calls) (Blinkers.Session.start video)).blinkers = some bs ∧
      (∀ r c, Drawn (file0.splitOn newline) (file1.splitOn newline) r c → r * 80 + c + 40 < 80 * 25 →
        r * 80 + c + 40 ≠ 540 → r * 80 + c + 40 ≠ 200 →
        bs.video (2 * (r * 80 + c + 40)) = if calls.countP Blinkers.isTasklet % 30 < 15
          then cell (file0.splitOn newline) r c else cell (file1.splitOn newline) r c) ∧
      ∀ o, o ≠ 2 * 540 → (∀ r c, Drawn (file0.splitOn newline) (file1.splitOn newline) r c →
        r * 80 + c + 40 < 80 * 25 → o ≠ 2 * (r * 80 + c + 40)) → bs.video o = video o := by
  have frames := addFrames_calls opened0 opened1 enough0 enough1 stack
  -- An odd byte has no character, so the calls return.
  obtain ⟨bs, here, _⟩ := animation_blank { stack with onLength := 15, offLength := 15 } fd0 fd1 video fits0 fits1
    stack' part (o := 1) (by omega) fun r c _ _ => by omega
  refine ⟨_, bs, frames, here, ?_, ?_⟩
  · intro r c drawn visible im removed
    obtain ⟨bs', here', shown⟩ := animation_drawn { stack with onLength := 15, offLength := 15 } fd0 fd1 video fits0
      fits1 stack' part ⟨rfl, rfl⟩ drawn visible im removed
    obtain rfl := Option.some_inj.mp (here.symm.trans here')
    exact shown
  · intro o im blank
    obtain ⟨bs', here', same⟩ := animation_blank { stack with onLength := 15, offLength := 15 } fd0 fd1 video fits0
      fits1 stack' part im blank
    obtain rfl := Option.some_inj.mp (here.symm.trans here')
    exact same

/-- The frames are `<` with a blank and `>` one place further. -/
theorem fish_animation_example : ∃ frameCalls bs,
    addFrames 9 Blinker.zero 2 3 ([0x3C].map some) ([0x20, 0x3E].map some) = some frameCalls ∧
      (run Blinkers.exec ((added frameCalls).map .add ++ mainCalls Blinker.zero)
        (Blinkers.Session.start fun _ => 7)).blinkers = some bs ∧
      (∀ r c, Drawn ([0x3C].splitOn newline) ([0x20, 0x3E].splitOn newline) r c → r * 80 + c + 40 < 80 * 25 →
        r * 80 + c + 40 ≠ 540 → r * 80 + c + 40 ≠ 200 →
        bs.video (2 * (r * 80 + c + 40)) = if (mainCalls Blinker.zero).countP Blinkers.isTasklet % 30 < 15
          then cell ([0x3C].splitOn newline) r c else cell ([0x20, 0x3E].splitOn newline) r c) ∧
      ∀ o, o ≠ 2 * 540 → (∀ r c, Drawn ([0x3C].splitOn newline) ([0x20, 0x3E].splitOn newline) r c →
        r * 80 + c + 40 < 80 * 25 → o ≠ 2 * (r * 80 + c + 40)) → bs.video o = 7 :=
  fish_animation (fun _ => 7) Blinker.zero Blinker.zero (by decide) (by decide) (by decide) (by decide)
    ⟨by decide, by decide⟩ ⟨by decide, by decide⟩ (List.prefix_refl _)

end Fish

end Mp3Kernel
