import Mp3Kernel.Rtc.Answer
import Mp3Kernel.Rtc.Read

/-!
# The clock over many calls

A thread calls `rtc_open`, `rtc_write`, `rtc_read` and `rtc_close` in any order,
and the clock interrupts between any two statements. Register A, register B and
`rtc_freq` are then what the calls say, one after the other, as long as no
interrupt comes between the selection of a register and the write to it.
-/

namespace Mp3Kernel

open Library

namespace Rtc

def registerB : UInt8 := 0x0B

end Rtc

inductive RtcCall where
  | rtcOpen
  | rtcClose
  | rtcWrite (cnt : Int)
  | rtcRead
  deriving DecidableEq, Repr

inductive DriverEvent where
  | tick (value : UInt8)
  | call (c : RtcCall)
  | advance

/-- The thread, between two calls or in one of them. -/
inductive Driver where
  | idle (rtc : Rtc)
  | ports (rtc : Rtc) (rest : List Rtc.PortStatement)
  | writing (w : RtcWrite)
  | reading (c : RtcRead)

namespace Driver

open Rtc

def begin (r : Rtc) : RtcCall → Driver
  | .rtcOpen => .ports r openStatements
  | .rtcClose => .ports r closeStatements
  | .rtcWrite cnt => .writing (RtcWrite.called r cnt)
  | .rtcRead => .reading ⟨r, .setPie⟩

def exec : DriverEvent → Driver → Driver
  | .tick value, .idle r => .idle (r.rtClock value)
  | .tick value, .ports r rest => .ports (r.rtClock value) rest
  | .tick value, .writing w => .writing (RtcWrite.exec (.tick value) w)
  | .tick value, .reading c => .reading (RtcRead.exec (.tick value) c)
  | .call c, .idle r => begin r c
  -- There is one thread.
  | .call _, d => d
  | .advance, .idle r => .idle r
  | .advance, .ports r [] => .idle r
  | .advance, .ports r (st :: rest) => .ports (st.exec r) rest
  | .advance, .writing w =>
    match w.pc with
    | .returned _ => .idle w.rtc
    | _ => .writing w.advance
  | .advance, .reading c =>
    match c.pc with
    | .returned _ => .idle c.rtc
    | _ => .reading c.advance

/-- The calls that the thread makes. -/
def issued : DriverEvent → Driver → List RtcCall
  | .call c, .idle _ => [c]
  | _, _ => []

/-- An interrupt comes after a register was selected and before it is written. -/
def GapTick : DriverEvent → Driver → Prop
  | .tick _, .ports _ (.data _ :: _) => True
  | .tick value, .writing w => RtcWrite.GapTick (.tick value) w
  | _, _ => False

instance : (e : DriverEvent) → (d : Driver) → Decidable (GapTick e d)
  | .tick _, .ports _ (.data _ :: _) => inferInstanceAs (Decidable True)
  | .tick value, .writing w => inferInstanceAs (Decidable (RtcWrite.GapTick (.tick value) w))
  | .tick _, .idle _ | .tick _, .ports _ [] | .tick _, .ports _ (.index _ :: _) | .tick _, .ports _ (.freq _ :: _)
  | .tick _, .reading _ | .call _, _ | .advance, _ => inferInstanceAs (Decidable False)

end Driver

/-! ## What the calls ask for -/

/-- Register A, register B and `rtc_freq`. -/
@[ext]
structure RtcSettings where
  a : UInt8
  b : UInt8
  freq : Int
  deriving DecidableEq, Repr

namespace RtcSettings

def after : RtcCall → RtcSettings → RtcSettings
  | .rtcOpen, _ => ⟨0x2F, 0x50, 2⟩
  | .rtcClose, s => ⟨0x00, 0x00, s.freq⟩
  | .rtcWrite cnt, s => if 1 ≤ cnt ∧ cnt ≤ 10 then ⟨RtcWrite.rateByte cnt, s.b, 2 ^ cnt.toNat⟩ else s
  | .rtcRead, s => s

/-- An open clock ticks with the frequency in `rtc_freq`. -/
def Coherent (s : RtcSettings) : Prop := s.b = 0x50 → Rtc.rate s.a = s.freq

theorem after_coherent (c : RtcCall) (s : RtcSettings) (coherent : s.Coherent) : (after c s).Coherent := by
  cases c with
  | rtcOpen => exact fun _ => show Rtc.rate 0x2F = 2 by decide
  | rtcClose => exact fun off => absurd (show (0x00 : UInt8) = 0x50 from off) (by decide)
  | rtcRead => exact coherent
  | rtcWrite cnt =>
    rw [after]
    split
    next range => exact fun _ => RtcWrite.rate_rateByte range.1 range.2
    next => exact coherent

end RtcSettings

/-! ## One call -/

namespace Rtc

def settings (r : Rtc) : RtcSettings := ⟨r.device.regs registerA, r.device.regs registerB, r.freq⟩

/-- The handler touches register C only. -/
theorem rtClock_settings (value : UInt8) (r : Rtc) : (r.rtClock value).settings = r.settings := by
  have other : registerB ≠ registerC := by decide
  have selected : (0x8C : UInt8) &&& 0x7F = registerC := by decide
  have registerB_same : (r.rtClock value).device.regs registerB = r.device.regs registerB := by
    simp [rtClock, outIndex, selected, other]
  rw [settings, rtClock_registerA, registerB_same, rtClock_freq, settings]

theorem run_rtClock_settings (values : List UInt8) (r : Rtc) : (run rtClock values r).settings = r.settings :=
  run_invariant (fun r' : Rtc => r'.settings = r.settings)
    (fun value r' same => (rtClock_settings value r').trans same) values rfl

/-- Two clocks with the same settings and the same register selected. -/
structure Alike (r r' : Rtc) : Prop where
  settings : r.settings = r'.settings
  index : r.device.index = r'.device.index

theorem PortStatement.exec_alike {r r' : Rtc} (alike : r.Alike r') (st : PortStatement) :
    (st.exec r).Alike (st.exec r') := by
  obtain ⟨same, index⟩ := alike
  simp only [Rtc.settings, RtcSettings.mk.injEq] at same
  cases st with
  | index value => exact ⟨by simpa [Rtc.settings, PortStatement.exec, outIndex] using same, rfl⟩
  | data value =>
    refine ⟨?_, index⟩
    simp only [Rtc.settings, PortStatement.exec, outData, RegisterFile.write_regs, Function.update_apply, index, same]
  | freq value => exact ⟨by simp [Rtc.settings, PortStatement.exec, same], index⟩

theorem runs_alike (rest : List PortStatement) {r r' : Rtc} (alike : r.Alike r') :
    (run PortStatement.exec rest r).Alike (run PortStatement.exec rest r') :=
  have always : Along PortStatement.exec (fun _ _ => True) rest r := along_of_forall (fun _ _ => trivial) rest r
  always.simulation PortStatement.exec Alike (fun st _ _ _ alike => PortStatement.exec_alike alike st) alike

/-- In front of the next write a register is selected. -/
def selectsFirst : List PortStatement → Bool
  | [] | .index _ :: _ => true
  | .freq _ :: rest => selectsFirst rest
  | .data _ :: _ => false

/-- What was selected before does not matter then. -/
theorem run_selectsFirst {rest : List PortStatement} (selects : selectsFirst rest = true) {r r' : Rtc}
    (same : r.settings = r'.settings) :
    (run PortStatement.exec rest r).settings = (run PortStatement.exec rest r').settings := by
  induction rest generalizing r r' with
  | nil => exact same
  | cons st rest ih =>
    cases st with
    | data value => cases selects
    | freq value =>
      refine ih selects ?_
      simp only [Rtc.settings, RtcSettings.mk.injEq] at same
      simp [Rtc.settings, PortStatement.exec, same]
    | index value =>
      have alike : (PortStatement.exec (.index value) r).Alike (PortStatement.exec (.index value) r') :=
        ⟨same, rfl⟩
      exact (runs_alike rest alike).settings

end Rtc

namespace RtcWrite

open Rtc

variable {r : Rtc} {cnt : Int}

/-- A write that goes to register A leaves register B alone. -/
theorem exec_registerB (low : 1 ≤ cnt) (high : cnt ≤ 10) (e : RtcEvent) (w : RtcWrite) (noGap : ¬GapTick e w)
    (inv : w.OnTarget r cnt ∧ w.rtc.device.regs registerB = r.device.regs registerB) :
    (exec e w).OnTarget r cnt ∧ (exec e w).rtc.device.regs registerB = r.device.regs registerB := by
  obtain ⟨target, same⟩ := inv
  refine ⟨exec_onTarget low high e w noGap target, ?_⟩
  cases e with
  | tick value =>
    have kept := congrArg RtcSettings.b (rtClock_settings value w.rtc)
    exact kept.trans same
  | advance =>
    rw [← same, exec, advance]
    cases place : w.pc with
    | writeA =>
      have other : registerB ≠ registerA := by decide
      simp [outData, target.selected place, other]
    | checkCnt | loopTest | boundTest | spin => dsimp only; split <;> rfl
    | _ => rfl

/-- What a call leaves behind that no interrupt has hit in the gap. -/
theorem returned_settings {es : List RtcEvent} (noGap : Along exec (fun e w => ¬GapTick e w) es (called r cnt))
    {value : Int} (returned : (run exec es (called r cnt)).pc = .returned value) :
    (run exec es (called r cnt)).rtc.settings = RtcSettings.after (.rtcWrite cnt) r.settings := by
  rw [RtcSettings.after]
  split
  next range =>
    obtain ⟨low, high⟩ := range
    have initial : (called r cnt).OnTarget r cnt :=
      ⟨run_steady r low high [], by simp [called], by simp [called, WritePc.wrote]⟩
    obtain ⟨target, registerB_same⟩ := noGap.invariant
      (fun w => w.OnTarget r cnt ∧ w.rtc.device.regs registerB = r.device.regs registerB)
      (exec_registerB low high) ⟨initial, rfl⟩
    rw [settings, target.programmed (by rw [returned]; rfl), registerB_same,
      target.freq (by rw [returned]; rfl)]
    rfl
  next outside =>
    rw [(run_refused r outside es).untouched, run_rtClock_settings]

end RtcWrite

/-! ## All calls -/

namespace Driver

open Rtc

def isWrite : List PortStatement → Bool
  | .data _ :: _ => true
  | _ => false

/-- Every write comes right behind a selection. -/
def Guarded (rest : List PortStatement) : Prop := ∀ t ∈ rest.tails, selectsFirst t = true ∨ isWrite t = true

/-- The thread is about to leave `target` behind. -/
inductive Settling (target : RtcSettings) : Driver → Prop
  | idle {r : Rtc} (settled : r.settings = target) : Settling target (.idle r)
  | ports {r : Rtc} {rest : List PortStatement} (guarded : Guarded rest)
      (settles : (run PortStatement.exec rest r).settings = target) : Settling target (.ports r rest)
  | writing {r : Rtc} {cnt : Int} {es : List RtcEvent}
      (noGap : Along RtcWrite.exec (fun e w => ¬RtcWrite.GapTick e w) es (RtcWrite.called r cnt))
      (settles : RtcSettings.after (.rtcWrite cnt) r.settings = target) :
      Settling target (.writing (run RtcWrite.exec es (RtcWrite.called r cnt)))
  | reading {c : RtcRead} (settled : c.rtc.settings = target) : Settling target (.reading c)

variable {target : RtcSettings} {d : Driver}

theorem begin_settling {r : Rtc} (c : RtcCall) : Settling (RtcSettings.after c r.settings) (begin r c) := by
  cases c with
  | rtcOpen => exact .ports (show Guarded openStatements by rw [Guarded]; decide) rfl
  | rtcClose => exact .ports (show Guarded closeStatements by rw [Guarded]; decide) rfl
  | rtcWrite cnt => exact @Settling.writing _ r cnt [] trivial rfl
  | rtcRead => exact .reading rfl

theorem idle_settling {r : Rtc} (e : DriverEvent) (settled : r.settings = target) :
    Settling (run RtcSettings.after (issued e (.idle r)) target) (exec e (.idle r)) := by
  cases e with
  | tick value => exact .idle ((rtClock_settings value _).trans settled)
  | call c =>
    subst settled
    exact begin_settling c
  | advance => exact .idle settled

theorem reading_settling {c : RtcRead} (e : DriverEvent) (settled : c.rtc.settings = target) :
    Settling (run RtcSettings.after (issued e (.reading c)) target) (exec e (.reading c)) := by
  cases e with
  | tick value => exact .reading ((rtClock_settings value c.rtc).trans settled)
  | call c => exact .reading settled
  | advance =>
    simp only [exec, issued, run_nil]
    split
    next => exact .idle settled
    next going =>
      refine .reading (Eq.trans ?_ settled)
      rw [RtcRead.advance]
      cases place : c.pc with
      | spin => dsimp only; split <;> rfl
      | _ => rfl

theorem ports_settling {r : Rtc} {rest : List PortStatement} (e : DriverEvent) (noGap : ¬GapTick e (.ports r rest))
    (guarded : Guarded rest) (settles : (run PortStatement.exec rest r).settings = target) :
    Settling (run RtcSettings.after (issued e (.ports r rest)) target) (exec e (.ports r rest)) := by
  cases e with
  | tick value =>
    -- No write is next, so the selection that the handler leaves is overwritten.
    have selects : selectsFirst rest = true := by
      refine (guarded rest (by simp)).resolve_right fun write => ?_
      cases rest with
      | nil => cases write
      | cons st rest =>
        cases st with
        | data value => exact noGap trivial
        | _ => cases write
    exact .ports guarded ((run_selectsFirst selects (rtClock_settings value r)).trans settles)
  | call c => exact .ports guarded settles
  | advance =>
    cases rest with
    | nil => exact .idle settles
    | cons st rest => exact .ports (fun t member => guarded t (by simp [member])) settles

/-- A write goes on. -/
theorem Settling.longer {r : Rtc} {cnt : Int} {es : List RtcEvent} (e : RtcEvent)
    (noGap : Along RtcWrite.exec (fun e w => ¬RtcWrite.GapTick e w) es (RtcWrite.called r cnt))
    (next : ¬RtcWrite.GapTick e (run RtcWrite.exec es (RtcWrite.called r cnt)))
    (settles : RtcSettings.after (.rtcWrite cnt) r.settings = target) :
    Settling target (.writing (RtcWrite.exec e (run RtcWrite.exec es (RtcWrite.called r cnt)))) := by
  have longer : Along RtcWrite.exec (fun e w => ¬RtcWrite.GapTick e w) (es ++ [e]) (.called r cnt) :=
    (along_append es [e] _).mpr ⟨noGap, next, trivial⟩
  have settling := Settling.writing longer settles
  rw [run_append] at settling
  exact settling

theorem writing_settling {r : Rtc} {cnt : Int} {es : List RtcEvent} (e : DriverEvent)
    (noGap : Along RtcWrite.exec (fun e w => ¬RtcWrite.GapTick e w) es (RtcWrite.called r cnt))
    (next : ¬GapTick e (.writing (run RtcWrite.exec es (RtcWrite.called r cnt))))
    (settles : RtcSettings.after (.rtcWrite cnt) r.settings = target) :
    Settling (run RtcSettings.after (issued e (.writing (run RtcWrite.exec es (RtcWrite.called r cnt)))) target)
      (exec e (.writing (run RtcWrite.exec es (RtcWrite.called r cnt)))) := by
  cases e with
  | tick value => exact .longer (.tick value) noGap next settles
  | call c => exact .writing noGap settles
  | advance =>
    simp only [exec, issued, run_nil]
    split
    next returned => exact .idle ((RtcWrite.returned_settings noGap returned).trans settles)
    next => exact .longer .advance noGap id settles

theorem exec_settling (e : DriverEvent) (noGap : ¬GapTick e d) (settling : Settling target d) :
    Settling (run RtcSettings.after (issued e d) target) (exec e d) := by
  cases settling with
  | idle settled => exact idle_settling e settled
  | reading settled => exact reading_settling e settled
  | ports guarded settles => exact ports_settling e noGap guarded settles
  | writing along settles => exact writing_settling e along noGap settles

theorem run_settling (es : List DriverEvent) (noGap : Along exec (fun e d => ¬GapTick e d) es d)
    (settling : Settling target d) :
    Settling (run RtcSettings.after (trace exec issued es d) target) (run exec es d) := by
  induction es generalizing d target with
  | nil => exact settling
  | cons e es ih =>
    rw [trace, run_append]
    exact ih noGap.2 (exec_settling e noGap.1 settling)

/-- Between two calls the registers and `rtc_freq` are what the calls made of them, in their order, if no
interrupt came between the selection of a register and the write to it. A clock that is open then ticks with the
frequency in `rtc_freq`, if it did so at the beginning. -/
theorem driver_settles (r r' : Rtc) (es : List DriverEvent)
    (noGap : Along exec (fun e d => ¬GapTick e d) es (.idle r)) (between : run exec es (.idle r) = .idle r') :
    r'.settings = run RtcSettings.after (trace exec issued es (.idle r)) r.settings ∧
    (r.settings.Coherent → r'.settings.Coherent) := by
  have settled : r'.settings = run RtcSettings.after (trace exec issued es (.idle r)) r.settings := by
    have settling := run_settling es noGap (.idle rfl)
    rw [between] at settling
    cases settling with
    | idle settled => exact settled
  refine ⟨settled, fun coherent => ?_⟩
  rw [settled]
  exact run_invariant RtcSettings.Coherent RtcSettings.after_coherent _ coherent

/-- The clock is opened while it interrupts and set to 1024 Hz, and then a rate is refused. -/
def sampleCalls : List DriverEvent :=
  [.call .rtcOpen, .tick 0x40, .advance, .advance, .tick 0x10, .advance, .advance, .advance, .advance,
      .call (.rtcWrite 10)] ++
    List.replicate 10 .advance ++ [.tick 0xC0, .advance, .tick 0x90, .advance, .advance, .advance] ++
    [.call (.rtcWrite 11), .advance, .advance, .advance]

theorem driver_settles_sample : ∃ r', run exec sampleCalls (.idle powerOn) = .idle r' ∧
    r'.settings = ⟨0x26, 0x50, 1024⟩ ∧ r'.settings.Coherent :=
  ⟨_, rfl, (driver_settles powerOn _ sampleCalls (by decide) rfl).1,
    (driver_settles powerOn _ sampleCalls (by decide) rfl).2 fun off => absurd off (by decide)⟩

end Driver

end Mp3Kernel
