import Mp3Kernel.Rtc.Basic

/-!
# `rtc_write` and its interrupt

`rtc_write` selects register A and writes it in two port accesses, with
interrupts on. The handler selects register C and does not put the old index
back: an interrupt between the two accesses sends the new rate to register C.
-/

namespace Mp3Kernel

open Library

/-- The statement of `rtc_write` that is executed next. -/
inductive WritePc where
  | initCntr
  | checkCnt
  | setFreq
  | initTemp
  | flipTemp
  | maskTemp
  | orTemp
  | setUie
  | selectA
  | writeA
  | setWaiting
  | loopTest
  | boundTest
  | spin
  | resetWaiting
  | countUp
  | finalTest
  | returned (value : Int)
  deriving DecidableEq, Repr

namespace WritePc

/-- The write to register A is behind. -/
def wrote : WritePc → Bool
  | .setWaiting | .loopTest | .boundTest | .spin | .resetWaiting | .countUp | .finalTest | .returned _ => true
  | _ => false

def freqSet : WritePc → Bool
  | .initCntr | .checkCnt | .setFreq => false
  | _ => true

end WritePc

/-- A call `rtc_write(buf, cnt)`: the clock, the place, and the locals. -/
structure RtcWrite where
  rtc : Rtc
  pc : WritePc
  cnt : Int
  cntr : Int
  temp : UInt8

namespace RtcWrite

open Rtc

def advance (w : RtcWrite) : RtcWrite :=
  match w.pc with
  | .initCntr => { w with cntr := 0, pc := .checkCnt }
  | .checkCnt => if w.cnt ≤ 10 ∧ w.cnt > 0 then { w with pc := .setFreq }
    else { w with pc := .returned (-1) }
  | .setFreq =>
    { w with rtc := { w.rtc with freq := freqTable.getD (w.cnt - 1).toNat 0 }, pc := .initTemp }
  -- `temp` becomes `0x20 | (16 - cnt)`: the rate is the complement of `cnt-1` in four bits.
  | .initTemp => { w with temp := 0xFF, pc := .flipTemp }
  | .flipTemp => { w with temp := w.temp ^^^ UInt8.ofNat (w.cnt - 1).toNat, pc := .maskTemp }
  | .maskTemp => { w with temp := w.temp &&& 0x0F, pc := .orTemp }
  | .orTemp => { w with temp := w.temp ||| 0x20, pc := .setUie }
  -- Set uie flag for error checking
  | .setUie => { w with rtc := { w.rtc with uie := true }, pc := .selectA }
  -- Select Reg A and write new Freq
  | .selectA => { w with rtc := w.rtc.outIndex 0x8A, pc := .writeA }
  | .writeA => { w with rtc := w.rtc.outData w.temp, pc := .setWaiting }
  | .setWaiting => { w with rtc := { w.rtc with intrRecieved := true }, pc := .loopTest }
  -- Wait for fixed amt of time for UIE; an interrupt may come between the two tests.
  | .loopTest => if w.rtc.uie = true then { w with pc := .boundTest }
    else { w with pc := .finalTest }
  | .boundTest => if w.cntr < w.rtc.freq then { w with pc := .spin }
    else { w with pc := .finalTest }
  | .spin => if w.rtc.intrRecieved = true then w else { w with pc := .resetWaiting }
  | .resetWaiting => { w with rtc := { w.rtc with intrRecieved := true }, pc := .countUp }
  | .countUp => { w with cntr := w.cntr + 1, pc := .loopTest }
  | .finalTest => { w with pc := .returned (if w.rtc.uie = false then 0 else -1) }
  | .returned _ => w

def exec : RtcEvent → RtcWrite → RtcWrite
  | .tick value, w => { w with rtc := w.rtc.rtClock value }
  | .advance, w => w.advance

def called (r : Rtc) (cnt : Int) : RtcWrite := ⟨r, .initCntr, cnt, 0, 0⟩

/-- The value for register A, `0x20 | (16 - cnt)`. -/
def rateByte (cnt : Int) : UInt8 := 0x20 ||| UInt8.ofNat (16 - cnt).toNat

variable {w : RtcWrite}

/-- An interrupt comes after register A was selected and before it is written. -/
def GapTick : RtcEvent → RtcWrite → Prop
  | .tick _, w => w.pc = .writeA
  | .advance, _ => False

instance : (e : RtcEvent) → (w : RtcWrite) → Decidable (GapTick e w)
  | .tick _, _ => inferInstanceAs (Decidable (_ = _))
  | .advance, _ => inferInstanceAs (Decidable False)

/-- Register A asks for the rate of `cnt`, which is the frequency in `rtc_freq`. -/
def Programmed (w : RtcWrite) : Prop :=
  w.rtc.device.regs registerA = rateByte w.cnt ∧ rate (w.rtc.device.regs registerA) = w.rtc.freq

instance (w : RtcWrite) : Decidable w.Programmed := inferInstanceAs (Decidable (_ ∧ _))

/-! ## What no interrupt can change -/

/-- The value of `temp` where `rtc_write` uses it. -/
def tempAt (cnt : Int) : WritePc → Option UInt8
  | .flipTemp => some 0xFF
  | .maskTemp => some (0xFF ^^^ UInt8.ofNat (cnt - 1).toNat)
  | .orTemp => some ((0xFF ^^^ UInt8.ofNat (cnt - 1).toNat) &&& 0x0F)
  | .setUie | .selectA | .writeA => some (rateByte cnt)
  | _ => none

theorem temp_eq_rateByte {cnt : Int} (low : 1 ≤ cnt) (high : cnt ≤ 10) :
    ((0xFF ^^^ UInt8.ofNat (cnt - 1).toNat) &&& 0x0F) ||| 0x20 = rateByte cnt := by
  interval_cases cnt <;> decide

theorem freqTable_eq {cnt : Int} (low : 1 ≤ cnt) (high : cnt ≤ 10) :
    freqTable.getD (cnt - 1).toNat 0 = 2 ^ cnt.toNat := by
  interval_cases cnt <;> decide

theorem rate_rateByte {cnt : Int} (low : 1 ≤ cnt) (high : cnt ≤ 10) :
    rate (rateByte cnt) = 2 ^ cnt.toNat := by
  interval_cases cnt <;> decide

/-- A call with `cnt` on the clock `r`, wherever it is. -/
structure Steady (r : Rtc) (cnt : Int) (w : RtcWrite) : Prop where
  cnt_eq : w.cnt = cnt
  temp : ∀ v, tempAt cnt w.pc = some v → w.temp = v
  freq : w.pc.freqSet = true → w.rtc.freq = 2 ^ cnt.toNat
  untouched : w.pc.wrote = false → w.rtc.device.regs registerA = r.device.regs registerA

theorem advance_cnt (w : RtcWrite) : w.advance.cnt = w.cnt := by
  rw [advance]
  cases w.pc with
  | checkCnt | loopTest | boundTest | spin => dsimp only; split <;> rfl
  | _ => rfl

theorem advance_temp {cnt : Int} (low : 1 ≤ cnt) (high : cnt ≤ 10) (cnt_eq : w.cnt = cnt)
    (temp : ∀ v, tempAt cnt w.pc = some v → w.temp = v) :
    ∀ v, tempAt cnt w.advance.pc = some v → w.advance.temp = v := by
  rw [advance]
  cases place : w.pc with
  | initTemp =>
    rintro v ⟨⟩
    rfl
  | flipTemp =>
    rintro v ⟨⟩
    rw [temp 0xFF (by rw [place]; rfl), cnt_eq]
  | maskTemp =>
    rintro v ⟨⟩
    rw [temp _ (by rw [place]; rfl)]
  | orTemp =>
    rintro v ⟨⟩
    rw [temp _ (by rw [place]; rfl)]
    exact temp_eq_rateByte low high
  | setUie | selectA =>
    intro v same
    exact temp v (by rw [place]; exact same)
  | checkCnt | loopTest | boundTest => dsimp only; split <;> simp [tempAt]
  | spin => dsimp only; split <;> simp [tempAt, place]
  | returned value => simp [tempAt, place]
  | _ => simp [tempAt]

theorem advance_freq {cnt : Int} (low : 1 ≤ cnt) (high : cnt ≤ 10) (cnt_eq : w.cnt = cnt)
    (freq : w.pc.freqSet = true → w.rtc.freq = 2 ^ cnt.toNat) :
    w.advance.pc.freqSet = true → w.advance.rtc.freq = 2 ^ cnt.toNat := by
  rw [advance]
  cases place : w.pc with
  | initCntr => simp [WritePc.freqSet]
  | checkCnt =>
    dsimp only
    rw [if_pos (by omega)]
    simp [WritePc.freqSet]
  | setFreq =>
    intro _
    rw [cnt_eq]
    exact freqTable_eq low high
  | loopTest | boundTest | spin =>
    have now := freq (by rw [place]; rfl)
    dsimp only
    split <;> exact fun _ => now
  | _ => exact fun _ => freq (by rw [place]; rfl)

/-- Before the write nothing reaches register A, and after it nothing reaches the device. -/
theorem advance_registerA (w : RtcWrite) (elsewhere : w.pc ≠ .writeA) :
    w.advance.rtc.device.regs registerA = w.rtc.device.regs registerA := by
  rw [advance]
  cases place : w.pc with
  | writeA => exact absurd place elsewhere
  | checkCnt | loopTest | boundTest | spin => dsimp only; split <;> rfl
  | _ => rfl

theorem advance_wrote (w : RtcWrite) (low : 1 ≤ w.cnt) (high : w.cnt ≤ 10) :
    w.advance.pc.wrote = true ↔ w.pc = .writeA ∨ w.pc.wrote = true := by
  rw [advance]
  cases place : w.pc with
  | checkCnt =>
    dsimp only
    rw [if_pos (by omega)]
    simp [WritePc.wrote]
  | loopTest | boundTest => dsimp only; split <;> simp [WritePc.wrote]
  | spin => dsimp only; split <;> simp [WritePc.wrote, place]
  | returned value => simp [WritePc.wrote, place]
  | _ => simp [WritePc.wrote]

theorem exec_steady {r : Rtc} {cnt : Int} (low : 1 ≤ cnt) (high : cnt ≤ 10) (e : RtcEvent)
    (w : RtcWrite) (steady : w.Steady r cnt) : (exec e w).Steady r cnt := by
  obtain ⟨cnt_eq, temp, freq, untouched⟩ := steady
  cases e with
  -- The handler has no access to the locals, and leaves `rtc_freq` and register A alone.
  | tick value =>
    refine ⟨cnt_eq, temp, fun set => ?_, fun before => ?_⟩
    · rw [exec, rtClock_freq]
      exact freq set
    · rw [exec, rtClock_registerA]
      exact untouched before
  | advance =>
    refine ⟨(advance_cnt w).trans cnt_eq, advance_temp low high cnt_eq temp,
      advance_freq low high cnt_eq freq, fun before => ?_⟩
    -- If the write is not behind after this step, this step is not the write.
    have earlier : ¬(w.pc = .writeA ∨ w.pc.wrote = true) := by
      rw [← advance_wrote w (by omega) (by omega)]
      simpa [exec] using before
    rw [not_or, Bool.not_eq_true] at earlier
    rw [exec, advance_registerA w earlier.1]
    exact untouched earlier.2

theorem run_steady (r : Rtc) {cnt : Int} (low : 1 ≤ cnt) (high : cnt ≤ 10) (es : List RtcEvent) :
    (run exec es (called r cnt)).Steady r cnt :=
  run_invariant (Steady r cnt) (exec_steady low high) es
    ⟨rfl, by simp [called, tempAt], by simp [called, WritePc.freqSet], fun _ => rfl⟩

/-! ## With and without an interrupt in the gap -/

/-- The write goes, or went, to register A. -/
structure OnTarget (r : Rtc) (cnt : Int) (w : RtcWrite) : Prop extends Steady r cnt w where
  selected : w.pc = .writeA → w.rtc.device.index = registerA
  programmed : w.pc.wrote = true → w.rtc.device.regs registerA = rateByte cnt

theorem exec_onTarget {r : Rtc} {cnt : Int} (low : 1 ≤ cnt) (high : cnt ≤ 10) (e : RtcEvent)
    (w : RtcWrite) (noGap : ¬GapTick e w) (target : w.OnTarget r cnt) :
    (exec e w).OnTarget r cnt := by
  have steady := exec_steady low high e w target.toSteady
  obtain ⟨⟨cnt_eq, temp, _, _⟩, selected, programmed⟩ := target
  cases e with
  | tick value =>
    refine ⟨steady, fun place => absurd place noGap, fun wrote => ?_⟩
    rw [exec, rtClock_registerA]
    exact programmed wrote
  | advance =>
    refine ⟨steady, fun place => ?_, fun wrote => ?_⟩
    · -- Only `outb(0x8A, RTC_CMD)` leads to the write.
      rw [exec, advance] at place ⊢
      cases at' : w.pc with
      | selectA => exact (show (0x8A : UInt8) &&& 0x7F = registerA by decide)
      | checkCnt | loopTest | boundTest => simp only [at'] at place; split at place <;> cases place
      | spin => simp only [at'] at place; split at place <;> simp [at'] at place
      | returned value => simp [at'] at place
      | _ => simp [at'] at place
    · rw [exec, advance_wrote w (by omega) (by omega)] at wrote
      rcases wrote with place | wrote
      · -- The write itself: `temp` goes where the index points, to register A.
        have value := temp _ (by rw [place]; rfl)
        simp [exec, advance, place, outData, selected place, value]
      · have elsewhere : w.pc ≠ .writeA := fun h => by simp [h, WritePc.wrote] at wrote
        rw [exec, advance_registerA w elsewhere]
        exact programmed wrote

/-- The write goes, or went, to register C. -/
structure OffTarget (r : Rtc) (cnt : Int) (w : RtcWrite) : Prop extends Steady r cnt w where
  place : (w.pc = .writeA ∧ w.rtc.device.index = registerC) ∨ w.pc.wrote = true
  kept : w.rtc.device.regs registerA = r.device.regs registerA

theorem exec_offTarget {r : Rtc} {cnt : Int} (low : 1 ≤ cnt) (high : cnt ≤ 10) (e : RtcEvent)
    (w : RtcWrite) (target : w.OffTarget r cnt) : (exec e w).OffTarget r cnt := by
  have steady := exec_steady low high e w target.toSteady
  obtain ⟨⟨cnt_eq, _, _, _⟩, place, kept⟩ := target
  cases e with
  | tick value =>
    refine ⟨steady, ?_, by rw [exec, rtClock_registerA]; exact kept⟩
    exact place.imp (fun h => ⟨h.1, rtClock_index value w.rtc⟩) id
  | advance =>
    refine ⟨steady, .inr ?_, ?_⟩
    · rw [exec, advance_wrote w (by omega) (by omega)]
      exact place.imp And.left id
    · rcases place with ⟨atWrite, index⟩ | wrote
      · -- The write goes to register C.
        have other : registerA ≠ registerC := by decide
        simp [exec, advance, atWrite, outData, index, other, kept]
      · have elsewhere : w.pc ≠ .writeA := fun h => by simp [h, WritePc.wrote] at wrote
        rw [exec, advance_registerA w elsewhere]
        exact kept

theorem gapTick_offTarget {r : Rtc} {cnt : Int} (low : 1 ≤ cnt) (high : cnt ≤ 10) {e : RtcEvent}
    (steady : w.Steady r cnt) (gap : GapTick e w) : (exec e w).OffTarget r cnt := by
  have steady' := exec_steady low high e w steady
  cases e with
  | tick value =>
    have place : w.pc = .writeA := gap
    refine ⟨steady', .inl ⟨place, rtClock_index value w.rtc⟩, ?_⟩
    rw [exec, rtClock_registerA]
    exact steady.untouched (by rw [place]; rfl)
  | advance => exact absurd gap id

/-- When `rtc_write` returns, register A holds the rate of `cnt` exactly when no interrupt
came between the two port accesses, or register A held that rate before. -/
theorem rtc_write_programs_iff (r : Rtc) (cnt value : Int) (es : List RtcEvent) (low : 1 ≤ cnt)
    (high : cnt ≤ 10) (returned : (run exec es (called r cnt)).pc = .returned value) :
    (run exec es (called r cnt)).Programmed ↔
      Along exec (fun e w => ¬GapTick e w) es (called r cnt) ∨
        r.device.regs registerA = rateByte cnt := by
  have steady := run_steady r low high es
  have wrote : (run exec es (called r cnt)).pc.wrote = true := by rw [returned]; rfl
  have frequency := steady.freq (by rw [returned]; rfl)
  have onlyA : (run exec es (called r cnt)).Programmed ↔
      (run exec es (called r cnt)).rtc.device.regs registerA = rateByte cnt := by
    rw [Programmed, steady.cnt_eq, frequency]
    exact and_iff_left_of_imp fun same => by rw [same, rate_rateByte low high]
  rw [onlyA]
  by_cases noGap : Along exec (fun e w => ¬GapTick e w) es (called r cnt)
  · have initial : (called r cnt).OnTarget r cnt :=
      ⟨run_steady r low high [], by simp [called], by simp [called, WritePc.wrote]⟩
    have target := noGap.invariant (OnTarget r cnt) (exec_onTarget low high) initial
    exact iff_of_true (target.programmed wrote) (.inl noGap)
  · -- From the first interrupt in the gap on, register A keeps what it held before the call.
    obtain ⟨before, e, after, split, gap⟩ := exists_of_not_along noGap
    have missed := gapTick_offTarget low high (run_steady r low high before) (not_not.mp gap)
    have target := run_invariant (OffTarget r cnt) (exec_offTarget low high) after missed
    have kept : (run exec es (called r cnt)).rtc.device.regs registerA =
        r.device.regs registerA := by
      rw [split, run_append]
      exact target.kept
    rw [kept]
    simp [noGap]

/-- Periodic and update interrupts around a call, none of them in the gap. -/
def sampleCall : List RtcEvent :=
  List.replicate 10 .advance ++ [.tick 0xC0, .advance, .tick 0x90, .advance, .advance]

theorem rtc_write_programs_sample : (run exec sampleCall (called powerOn.rtcOpen 10)).Programmed :=
  (rtc_write_programs_iff powerOn.rtcOpen 10 0 sampleCall (by decide) (by decide) (by decide)).mpr
    (.inl (by decide))

/-- The same call with a periodic interrupt in the gap. -/
def gapCall : List RtcEvent :=
  List.replicate 9 .advance ++ [.tick 0xC0, .advance, .advance, .tick 0x90, .advance, .advance]

/-- `rtc_write` returns 0, and register A still asks for the 2 Hz of `rtc_open`. -/
theorem rtc_write_misses_registerA :
    (run exec gapCall (called powerOn.rtcOpen 10)).pc = .returned 0 ∧
    ¬(run exec gapCall (called powerOn.rtcOpen 10)).Programmed := by decide

end RtcWrite

end Mp3Kernel
