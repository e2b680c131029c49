import Mp3Kernel.Rtc.Basic

/-!
# `rtc_read` and the periodic interrupt

`rtc_read` sets `rtc_pie` and spins until the handler clears it. Register C holds
every pending cause at once, and `rtc_intr` compares the whole byte: a periodic
interrupt that comes together with the alarm flag is not seen as one.
-/

namespace Mp3Kernel

open Library

/-- The statement of `rtc_read` that is executed next. -/
inductive ReadPc where
  | setPie
  | spin
  | returned (value : Int)
  deriving DecidableEq, Repr

/-- A call `rtc_read(buf, cnt)`: neither argument is used. -/
structure RtcRead where
  rtc : Rtc
  pc : ReadPc

namespace RtcRead

open Rtc

def advance (c : RtcRead) : RtcRead :=
  match c.pc with
  | .setPie => { c with rtc := { c.rtc with pie := true }, pc := .spin }
  -- spin till change
  | .spin => if c.rtc.pie = true then c else { c with pc := .returned 0 }
  | .returned _ => c

def exec : RtcEvent → RtcRead → RtcRead
  | .tick value, c => { c with rtc := c.rtc.rtClock value }
  | .advance, c => c.advance

/-- The call just after it has set `rtc_pie`. -/
def waiting (r : Rtc) : RtcRead := advance ⟨r, .setPie⟩

/-- The values of register C that the events of `es` deliver. -/
def delivered (es : List RtcEvent) : List UInt8 := es.filterMap RtcEvent.tick?

/-- PF is bit 6 of register C. -/
def hasPF (value : UInt8) : Bool := value &&& 0x40 != 0

/-- At every moment of `es` the next test of the loop leaves it exactly when a value with
the periodic flag has been delivered. -/
def LeavesAtPF (r : Rtc) (es : List RtcEvent) : Prop :=
  ∀ before after, es = before ++ after →
    ((run exec (before ++ [.advance]) (waiting r)).pc = .returned 0 ↔
      ∃ value ∈ delivered before, hasPF value = true)

theorem hasPF_of_periodic {value : UInt8} (h : periodic value = true) : hasPF value = true := by
  simp only [periodic, Bool.or_eq_true, decide_eq_true_eq] at h
  rcases h with rfl | rfl <;> rfl

/-- Where the call is, by the values it has met. -/
theorem run_place (r : Rtc) (es : List RtcEvent) :
    ((run exec es (waiting r)).pc = .spin ∧
      (run exec es (waiting r)).rtc.pie = !(delivered es).any periodic) ∨
    ((run exec es (waiting r)).pc = .returned 0 ∧ (delivered es).any periodic = true) := by
  apply run_history fun es (c : RtcRead) =>
    (c.pc = .spin ∧ c.rtc.pie = !(delivered es).any periodic) ∨
    (c.pc = .returned 0 ∧ (delivered es).any periodic = true)
  · exact .inl ⟨rfl, rfl⟩
  · intro es e before
    cases e with
    | tick value =>
      have more : delivered (es ++ [.tick value]) = delivered es ++ [value] := by
        simp [delivered, RtcEvent.tick?]
      rw [more, List.any_append]
      rcases before with ⟨place, pie⟩ | ⟨place, seen⟩
      · exact .inl ⟨place, by simp [exec, pie]⟩
      · exact .inr ⟨place, by rw [seen, Bool.true_or]⟩
    | advance =>
      have same : delivered (es ++ [.advance]) = delivered es := by
        simp [delivered, RtcEvent.tick?]
      rw [same]
      rcases before with ⟨place, pie⟩ | ⟨place, seen⟩
      · rw [exec, advance, place]
        dsimp only
        split
        · exact .inl ⟨place, pie⟩
        · rename_i cleared
          rw [pie] at cleared
          exact .inr ⟨rfl, by simpa using cleared⟩
      · rw [exec, advance, place]
        exact .inr ⟨place, seen⟩

/-- The next test of the loop leaves it when `rtc_intr` has recognised a value. -/
theorem leaves_iff (r : Rtc) (es : List RtcEvent) :
    (run exec (es ++ [.advance]) (waiting r)).pc = .returned 0 ↔
      (delivered es).any periodic = true := by
  rw [run_append, run_cons, run_nil, exec, advance]
  rcases run_place r es with ⟨place, pie⟩ | ⟨place, seen⟩
  · rw [place]
    dsimp only
    rw [pie]
    cases (delivered es).any periodic <;> simp [place]
  · rw [place]
    exact iff_of_true place seen

theorem delivered_append (es fs : List RtcEvent) :
    delivered (es ++ fs) = delivered es ++ delivered fs := List.filterMap_append

/-- `rtc_read` leaves its loop at the first value with the periodic flag exactly when that
value, if one is delivered, is 0xC0 or 0xD0. -/
theorem rtc_read_leaves_iff (r : Rtc) (es : List RtcEvent) :
    LeavesAtPF r es ↔
      ∀ value, (delivered es).find? hasPF = some value → value = 0xC0 ∨ value = 0xD0 := by
  constructor
  · intro leaves value first
    obtain ⟨flag, earlier, later, split, noneBefore⟩ := List.find?_eq_some_iff_append.mp first
    -- The moment just after that value has been delivered.
    have moment : delivered es = (earlier ++ [value]) ++ later := by simp [split]
    obtain ⟨before, after, cut, met, _⟩ := List.filterMap_eq_append_iff.mp moment
    have met : delivered before = earlier ++ [value] := met
    have left := (leaves before after cut).mpr ⟨value, by simp [met], flag⟩
    rw [leaves_iff, met, List.any_append, Bool.or_eq_true] at left
    rcases left with left | left
    · obtain ⟨v, member, recognised⟩ := List.any_eq_true.mp left
      have none := noneBefore v member
      rw [hasPF_of_periodic recognised] at none
      cases none
    · simpa [periodic] using left
  · intro good before after cut
    rw [leaves_iff, List.any_eq_true]
    constructor
    · rintro ⟨value, member, recognised⟩
      exact ⟨value, member, hasPF_of_periodic recognised⟩
    · rintro ⟨value, member, flag⟩
      obtain ⟨first, found⟩ := Option.isSome_iff_exists.mp
        (List.find?_isSome.mpr ⟨value, member, flag⟩)
      have overall : (delivered es).find? hasPF = some first := by
        rw [cut, delivered_append, List.find?_append, found]
        rfl
      refine ⟨first, List.mem_of_find?_eq_some found, ?_⟩
      simpa [periodic] using good first overall

/-- A periodic interrupt that comes with the alarm flag is missed. -/
theorem rtc_read_misses_alarm : ¬LeavesAtPF powerOn.rtcOpen [.tick 0xE0] := by
  intro leaves
  have left := (leaves [.tick 0xE0] [] rfl).mpr ⟨0xE0, by decide, rfl⟩
  exact absurd left (by decide)

end RtcRead

end Mp3Kernel
