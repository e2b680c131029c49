import Mp3Kernel.Rtc.Write

/-!
# What the return value of `rtc_write` means

`rtc_write` sets `rtc_uie` and counts interrupts until the handler clears it. The
interrupts that come between the inner loop and its re-arming are absorbed, so
the count is only a lower bound for the interrupts that were taken.
-/

namespace Mp3Kernel

open Library

/-- Behind `rtc_uie=1`, and not yet behind the last test of `rtc_uie`. -/
def WritePc.armed : WritePc → Bool
  | .selectA | .writeA | .setWaiting | .loopTest | .boundTest | .spin | .resetWaiting | .countUp
  | .finalTest => true
  | _ => false

def WritePc.done : WritePc → Bool
  | .returned _ => true
  | _ => false

namespace RtcWrite

open Rtc

/-- The interrupt that this event is, if it comes between `rtc_uie=1` and the last test. -/
def heard : RtcEvent → RtcWrite → List UInt8
  | .tick value, w => if w.pc.armed then [value] else []
  | .advance, _ => []

/-- The values of the interrupts taken between `rtc_uie=1` and the last test. -/
def taken (es : List RtcEvent) (w : RtcWrite) : List UInt8 := trace exec heard es w

/-- The statements that `rtc_write` executes along `es`. -/
def advances (es : List RtcEvent) : Nat := es.countP RtcEvent.isAdvance

/-- How far the interrupts taken are ahead of `cntr`, at least. -/
def ahead (w : RtcWrite) : Int :=
  match w.pc with
  | .loopTest | .boundTest | .spin => if w.rtc.intrRecieved then 0 else 1
  | .resetWaiting => 1
  | .countUp => if w.rtc.intrRecieved then 1 else 2
  | _ => 0

/-- The interrupts `seen` since `rtc_uie=1`, against the flags, the counter and the result. -/
structure Tally (cnt : Int) (seen : List UInt8) (w : RtcWrite) : Prop where
  quiet : w.pc.armed = false → w.pc.done = false → seen = []
  flag : w.pc.armed = true → w.rtc.uie = !seen.any updateEnded
  count : w.pc ≠ .initCntr → w.pc.done = false → w.cntr + w.ahead ≤ seen.length
  full : w.pc = .finalTest → w.rtc.uie = true → 2 ^ cnt.toNat ≤ (seen.length : Int)
  -- Once `rtc_uie` is clear the inner loop does not wait.
  released : w.pc = .boundTest ∨ w.pc = .spin → w.rtc.uie = false → w.rtc.intrRecieved = false
  result : ∀ value, w.pc = .returned value →
    value = (if seen.any updateEnded then 0 else -1) ∧
    (value = -1 → 2 ^ cnt.toNat ≤ (seen.length : Int))

variable {w : RtcWrite} {cnt : Int} {seen : List UInt8}

theorem ahead_tick (value : UInt8) (w : RtcWrite) :
    ({ w with rtc := w.rtc.rtClock value } : RtcWrite).ahead ≤ w.ahead + 1 := by
  simp only [ahead, rtClock_intrRecieved]
  cases w.pc with
  | loopTest | boundTest | spin | countUp => cases w.rtc.intrRecieved <;> decide
  | _ => simp

/-- Outside the waiting loop `ahead` does not look at the flag. -/
theorem ahead_of_not_armed (early : w.pc.armed = false) : w.ahead = 0 := by
  rw [ahead]
  cases place : w.pc with
  | loopTest | boundTest | spin | resetWaiting | countUp => simp [place, WritePc.armed] at early
  | _ => rfl

theorem tick_tally (value : UInt8) (tally : w.Tally cnt seen) :
    (exec (.tick value) w).Tally cnt (seen ++ heard (.tick value) w) := by
  obtain ⟨quiet, flag, count, full, released, result⟩ := tally
  cases armed : w.pc.armed with
  -- Before `rtc_uie=1`, and after the last test, an interrupt is not counted.
  | false =>
    have unseen : heard (.tick value) w = [] := by simp [heard, armed]
    rw [unseen, List.append_nil]
    refine ⟨quiet, fun h => ?_, fun started running => ?_, fun place => ?_, fun place => ?_, result⟩
    · simp [exec, armed] at h
    · have same : (exec (.tick value) w).ahead = w.ahead := by
        rw [ahead_of_not_armed armed]
        exact ahead_of_not_armed (w := exec (.tick value) w) armed
      rw [same]
      exact count started running
    · have place : w.pc = .finalTest := place
      simp [place, WritePc.armed] at armed
    · intro _
      exact rtClock_intrRecieved value w.rtc
  | true =>
    have seenNow : heard (.tick value) w = [value] := by simp [heard, armed]
    rw [seenNow]
    refine ⟨fun h => ?_, fun _ => ?_, fun started running => ?_, fun place uie => ?_, fun _ _ => ?_,
      fun v place => ?_⟩
    · simp [exec, armed] at h
    · simp [exec, flag armed]
    · have more := ahead_tick value w
      have before := count started running
      simp only [exec, List.length_append, List.length_singleton, Nat.cast_add, Nat.cast_one]
      omega
    · have before := full place (by simp only [exec, rtClock_uie, Bool.and_eq_true] at uie; exact uie.1)
      simp only [List.length_append, List.length_singleton, Nat.cast_add, Nat.cast_one]
      omega
    · exact rtClock_intrRecieved value w.rtc
    · have place : w.pc = .returned v := place
      simp [place, WritePc.armed] at armed

theorem advance_quiet (early : w.advance.pc.armed = false)
    (running : w.advance.pc.done = false) : w.pc.armed = false ∧ w.pc.done = false := by
  rw [advance] at early running
  cases place : w.pc with
  | loopTest | boundTest | spin =>
    simp only [place] at early
    split at early <;> simp [WritePc.armed, place] at early
  | finalTest | returned => simp [place, WritePc.done] at running
  | _ => simp_all [WritePc.armed, WritePc.done]

theorem advance_flag (quiet : w.pc.armed = false → w.pc.done = false → seen = [])
    (flag : w.pc.armed = true → w.rtc.uie = !seen.any updateEnded)
    (armed : w.advance.pc.armed = true) : w.advance.rtc.uie = !seen.any updateEnded := by
  rw [advance] at armed ⊢
  cases place : w.pc with
  | setUie =>
    rw [quiet (by rw [place]; rfl) (by rw [place]; rfl)]
    rfl
  | loopTest | boundTest | spin =>
    have now := flag (by rw [place]; rfl)
    dsimp only
    split <;> exact now
  | selectA | writeA | setWaiting | resetWaiting | countUp => exact flag (by rw [place]; rfl)
  | checkCnt =>
    simp only [place] at armed
    split at armed <;> simp [WritePc.armed] at armed
  | returned => simp [place, WritePc.armed] at armed
  | _ => simp [place, WritePc.armed] at armed

theorem advance_count (count : w.pc ≠ .initCntr → w.pc.done = false → w.cntr + w.ahead ≤ seen.length)
    (running : w.advance.pc.done = false) : w.advance.cntr + w.advance.ahead ≤ seen.length := by
  rw [advance] at running ⊢
  cases place : w.pc with
  | initCntr => simp [ahead]
  | checkCnt =>
    have now := count (by simp [place]) (by rw [place]; rfl)
    simp only [ahead, place] at now
    dsimp only
    split <;> exact now
  | loopTest | boundTest =>
    have now := count (by simp [place]) (by rw [place]; rfl)
    simp only [ahead, place] at now
    dsimp only
    split
    · exact now
    · simp only [ahead]
      split at now <;> omega
  -- The inner loop ends on an interrupt that `cntr` does not count yet.
  | spin =>
    have now := count (by simp [place]) (by rw [place]; rfl)
    dsimp only
    split
    · exact now
    · rename_i arrived
      simpa [ahead, place, arrived] using now
  | resetWaiting =>
    have now := count (by simp [place]) (by rw [place]; rfl)
    simpa [ahead, place] using now
  | countUp =>
    have now := count (by simp [place]) (by rw [place]; rfl)
    simp only [ahead, place] at now ⊢
    split at now
    · simp only [*, if_true]
      omega
    · simp only [*]
      omega
  | finalTest | returned => simp [place, WritePc.done] at running
  | _ =>
    have now := count (by simp [place]) (by rw [place]; rfl)
    simpa [ahead, place] using now

/-- The loop ends with `rtc_uie` set only when `cntr` has reached the frequency. -/
theorem advance_full (frequency : w.pc.freqSet = true → w.rtc.freq = 2 ^ cnt.toNat)
    (count : w.pc ≠ .initCntr → w.pc.done = false → w.cntr + w.ahead ≤ seen.length)
    (final : w.advance.pc = .finalTest) (uie : w.advance.rtc.uie = true) :
    2 ^ cnt.toNat ≤ (seen.length : Int) := by
  rw [advance] at final uie
  cases place : w.pc with
  | boundTest =>
    -- The loop was left because the count has reached the bound.
    have now := count (by simp [place]) (by rw [place]; rfl)
    have freq := frequency (by rw [place]; rfl)
    simp only [ahead, place] at now
    simp only [place] at final
    split at final
    · cases final
    · rename_i reached
      split at now <;> omega
  | loopTest =>
    simp only [place] at final uie
    split at final
    · cases final
    · rename_i cleared
      -- It was left because an update has ended, which has cleared the flag.
      rw [if_neg cleared] at uie
      exact absurd uie cleared
  | checkCnt =>
    simp only [place] at final
    split at final <;> cases final
  | spin =>
    simp only [place] at final
    split at final <;> simp [place] at final
  | returned => simp [place] at final
  | _ => simp [place] at final

theorem advance_released (released : w.pc = .boundTest ∨ w.pc = .spin → w.rtc.uie = false →
      w.rtc.intrRecieved = false)
    (waiting : w.advance.pc = .boundTest ∨ w.advance.pc = .spin)
    (cleared : w.advance.rtc.uie = false) : w.advance.rtc.intrRecieved = false := by
  rw [advance] at waiting cleared ⊢
  cases place : w.pc with
  | loopTest =>
    simp only [place] at waiting cleared ⊢
    split at waiting
    · rename_i uie
      rw [if_pos uie, uie] at cleared
      cases cleared
    · simp at waiting
  | boundTest | spin =>
    simp only [place] at waiting cleared ⊢
    split at waiting
    · simp_all
    · simp_all
  | checkCnt =>
    simp only [place] at waiting
    split at waiting <;> simp at waiting
  | returned => simp [place] at waiting
  | _ => simp [place] at waiting

theorem advance_result (in_range : 1 ≤ w.cnt ∧ w.cnt ≤ 10)
    (flag : w.pc.armed = true → w.rtc.uie = !seen.any updateEnded)
    (full : w.pc = .finalTest → w.rtc.uie = true → 2 ^ cnt.toNat ≤ (seen.length : Int))
    (result : ∀ value, w.pc = .returned value →
      value = (if seen.any updateEnded then 0 else -1) ∧
      (value = -1 → 2 ^ cnt.toNat ≤ (seen.length : Int)))
    (value : Int) (ended : w.advance.pc = .returned value) :
    value = (if seen.any updateEnded then 0 else -1) ∧
    (value = -1 → 2 ^ cnt.toNat ≤ (seen.length : Int)) := by
  rw [advance] at ended
  cases place : w.pc with
  | finalTest =>
    simp only [place, WritePc.returned.injEq] at ended
    have uie := flag (by rw [place]; rfl)
    refine ⟨?_, fun negative => full place ?_⟩
    · rw [← ended, uie]
      cases seen.any updateEnded <;> rfl
    · by_contra cleared
      rw [Bool.not_eq_true] at cleared
      rw [if_pos cleared] at ended
      omega
  | returned v =>
    simp only [place] at ended
    exact result value (place.trans ended)
  | checkCnt =>
    simp only [place] at ended
    rw [if_pos (by omega)] at ended
    cases ended
  | loopTest | boundTest =>
    simp only [place] at ended
    split at ended <;> cases ended
  | spin =>
    simp only [place] at ended
    split at ended <;> simp [place] at ended
  | _ => simp [place] at ended

theorem exec_tally {r : Rtc} (low : 1 ≤ cnt) (high : cnt ≤ 10) (e : RtcEvent) (steady : w.Steady r cnt)
    (tally : w.Tally cnt seen) : (exec e w).Tally cnt (seen ++ heard e w) := by
  cases e with
  | tick value => exact tick_tally value tally
  | advance =>
    obtain ⟨quiet, flag, count, full, released, result⟩ := tally
    have in_range : 1 ≤ w.cnt ∧ w.cnt ≤ 10 := by rw [steady.cnt_eq]; exact ⟨low, high⟩
    rw [heard, List.append_nil]
    constructor
    · intro early running
      obtain ⟨early, running⟩ := advance_quiet early running
      exact quiet early running
    · exact advance_flag quiet flag
    · exact fun _ => advance_count count
    · exact advance_full steady.freq count
    · exact advance_released released
    · exact advance_result in_range flag full result

theorem run_tally (r : Rtc) (low : 1 ≤ cnt) (high : cnt ≤ 10) (es : List RtcEvent) :
    (run exec es (called r cnt)).Tally cnt (taken es (called r cnt)) := by
  rw [taken]
  refine And.right (run_trace_invariant
    (fun seen (w : RtcWrite) => w.Steady r cnt ∧ w.Tally cnt seen) ?_ ?_ es)
  · refine ⟨run_steady r low high [], ?_⟩
    constructor <;> simp [called, WritePc.armed]
  · rintro seen e w ⟨steady, tally⟩
    exact ⟨exec_steady low high e w steady, exec_tally low high e steady tally⟩

/-! ## After the update interrupt -/

/-- The statements left to execute once `rtc_uie` is clear. -/
def left : WritePc → Nat
  | .returned _ => 0
  | .finalTest => 1
  | .loopTest => 2
  | .setWaiting | .countUp => 3
  | .writeA | .resetWaiting => 4
  | .selectA | .spin => 5
  | _ => 6

/-- On its way out: `rtc_uie` is clear and no loop waits. -/
structure Leaving (w : RtcWrite) : Prop where
  place : w.pc.armed = true ∨ w.pc.done = true
  cleared : w.pc.armed = true → w.rtc.uie = false
  released : w.pc = .boundTest ∨ w.pc = .spin → w.rtc.intrRecieved = false

theorem Leaving.tick (leaving : w.Leaving) (value : UInt8) : (exec (.tick value) w).Leaving := by
  constructor
  · exact leaving.place
  · intro armed
    have before := leaving.cleared armed
    simp [exec, before]
  · intro _
    exact rtClock_intrRecieved value w.rtc

theorem Leaving.advance (leaving : w.Leaving) :
    w.advance.Leaving ∧ left w.advance.pc ≤ left w.pc - 1 := by
  obtain ⟨place, cleared, released⟩ := leaving
  rw [RtcWrite.advance]
  cases at' : w.pc with
  | loopTest =>
    have clear := cleared (by rw [at']; rfl)
    dsimp only
    rw [if_neg (by simp [clear])]
    exact ⟨⟨.inl rfl, fun _ => clear, by simp⟩, by simp [left]⟩
  | boundTest =>
    have clear := cleared (by rw [at']; rfl)
    have free := released (.inl at')
    dsimp only
    split
    · exact ⟨⟨.inl rfl, fun _ => clear, fun _ => free⟩, by simp [left]⟩
    · exact ⟨⟨.inl rfl, fun _ => clear, by simp⟩, by simp [left]⟩
  | spin =>
    have clear := cleared (by rw [at']; rfl)
    have free := released (.inr at')
    dsimp only
    rw [if_neg (by simp [free])]
    exact ⟨⟨.inl rfl, fun _ => clear, by simp⟩, by simp [left]⟩
  | finalTest => exact ⟨⟨.inr rfl, by simp [WritePc.armed], by simp⟩, by simp [left]⟩
  | returned value =>
    refine ⟨⟨?_, ?_, ?_⟩, ?_⟩ <;> simp [at', WritePc.armed, WritePc.done, left]
  | selectA | writeA | setWaiting | resetWaiting | countUp =>
    have clear := cleared (by rw [at']; rfl)
    exact ⟨⟨.inl rfl, fun _ => clear, by simp⟩, by simp [left]⟩
  | _ => simp [at', WritePc.armed, WritePc.done] at place

theorem exec_leaving (e : RtcEvent) (w : RtcWrite) (leaving : w.Leaving) : (exec e w).Leaving := by
  cases e with
  | tick value => exact leaving.tick value
  | advance => exact leaving.advance.1

theorem exec_left (e : RtcEvent) (w : RtcWrite) (leaving : w.Leaving) :
    left (exec e w).pc ≤ left w.pc - (if e.isAdvance then 1 else 0) := by
  cases e with
  | tick value => exact Nat.le_refl _
  | advance => exact leaving.advance.2

/-- Nothing delays a call on its way out: each of its statements brings it nearer to the end. -/
theorem Leaving.run (leaving : w.Leaving) (es : List RtcEvent) :
    left (run exec es w).pc ≤ left w.pc - advances es := by
  have along : Along exec (fun _ _ => True) es w := along_of_forall (fun _ _ => trivial) es w
  apply along.countdown Leaving (fun w => left w.pc) RtcEvent.isAdvance
  · exact fun e w _ => exec_leaving e w
  · exact fun e w _ => exec_left e w
  · exact leaving

theorem left_le (p : WritePc) : left p ≤ 6 := by
  cases p <;> simp [left]

theorem done_of_left_eq_zero {p : WritePc} (none : left p = 0) : ∃ value, p = .returned value := by
  cases p with
  | returned value => exact ⟨value, rfl⟩
  | _ => cases none

theorem Tally.leaving (tally : w.Tally cnt seen) (update : seen.any updateEnded = true) :
    w.Leaving := by
  have cleared : w.pc.armed = true → w.rtc.uie = false := by
    intro armed
    rw [tally.flag armed, update]
    rfl
  have place : w.pc.armed = true ∨ w.pc.done = true := by
    by_contra outside
    simp only [not_or, Bool.not_eq_true] at outside
    rw [tally.quiet outside.1 outside.2] at update
    cases update
  refine ⟨place, cleared, fun waiting => tally.released waiting (cleared ?_)⟩
  rcases waiting with at' | at' <;> rw [at'] <;> rfl

/-! ## A count that is refused -/

/-- A call that is refused: the clock has only seen its interrupts. -/
structure Refused (r : Rtc) (cnt : Int) (es : List RtcEvent) (w : RtcWrite) : Prop where
  cnt_eq : w.cnt = cnt
  untouched : w.rtc = run rtClock (es.filterMap RtcEvent.tick?) r
  place : (w.pc = .initCntr ∧ advances es = 0) ∨ (w.pc = .checkCnt ∧ advances es = 1) ∨
    w.pc = .returned (-1)

theorem run_refused (r : Rtc) (outside : ¬(1 ≤ cnt ∧ cnt ≤ 10)) (es : List RtcEvent) :
    (run exec es (called r cnt)).Refused r cnt es := by
  apply run_history (Refused r cnt)
  · exact ⟨rfl, rfl, .inl ⟨rfl, rfl⟩⟩
  · rintro es e ⟨cnt_eq, untouched, place⟩
    generalize run exec es (called r cnt) = w at *
    cases e with
    | tick value =>
      refine ⟨cnt_eq, ?_, ?_⟩
      · simp [exec, untouched, List.filterMap_append, RtcEvent.tick?, run_append]
      · simpa [exec, advances, RtcEvent.isAdvance] using place
    | advance =>
      have unheard : (es ++ [RtcEvent.advance]).filterMap RtcEvent.tick? =
          es.filterMap RtcEvent.tick? := by
        simp [List.filterMap_append, RtcEvent.tick?]
      have counted : advances (es ++ [.advance]) = advances es + 1 := by
        simp [advances, RtcEvent.isAdvance]
      have cnt_eq' := (advance_cnt w).trans cnt_eq
      rcases place with ⟨place, none⟩ | ⟨place, one⟩ | place
      · have next : w.advance = { w with cntr := 0, pc := .checkCnt } := by rw [advance, place]
        refine ⟨cnt_eq', ?_, .inr (.inl ⟨?_, ?_⟩)⟩
        · rw [unheard, ← untouched, exec, next]
        · rw [exec, next]
        · rw [counted, none]
      · have refuse : ¬(w.cnt ≤ 10 ∧ w.cnt > 0) := by omega
        have next : w.advance = { w with pc := .returned (-1) } := by
          rw [advance, place]
          exact if_neg refuse
        refine ⟨cnt_eq', ?_, .inr (.inr ?_)⟩
        · rw [unheard, ← untouched, exec, next]
        · rw [exec, next]
      · have next : w.advance = w := by rw [advance, place]
        refine ⟨cnt_eq', ?_, .inr (.inr ?_)⟩
        · rw [unheard, ← untouched, exec, next]
        · rw [exec, next, place]

/-- An update interrupt was taken between `rtc_uie=1` and the last test of `rtc_uie`. -/
def UpdateTaken (r : Rtc) (cnt : Int) (es : List RtcEvent) : Prop :=
  ∃ value ∈ taken es (called r cnt), value = 0x90 ∨ value = 0xD0

theorem updateTaken_iff {r : Rtc} {es : List RtcEvent} :
    UpdateTaken r cnt es ↔ (taken es (called r cnt)).any updateEnded = true := by
  simp [UpdateTaken, updateEnded]

/-- The return value of `rtc_write` for every interleaving with its interrupt. A result 0
means an update interrupt after `rtc_uie=1`, and such an interrupt leads to a result 0;
a result -1 means `2^cnt` other interrupts at least. For a `cnt` that is refused the clock
is as the interrupts alone leave it. -/
theorem rtc_write_answer (r : Rtc) (cnt : Int) (es : List RtcEvent) :
    (1 ≤ cnt ∧ cnt ≤ 10 →
      (∀ value, (run exec es (called r cnt)).pc = .returned value →
        (value = 0 ∨ value = -1) ∧ (value = 0 ↔ UpdateTaken r cnt es) ∧
        (value = -1 → 2 ^ cnt.toNat ≤ (taken es (called r cnt)).length ∧
          ∀ v ∈ taken es (called r cnt), v ≠ 0x90 ∧ v ≠ 0xD0)) ∧
      (UpdateTaken r cnt es → ∀ rest, 6 ≤ advances rest →
        (run exec (es ++ rest) (called r cnt)).pc = .returned 0)) ∧
    (¬(1 ≤ cnt ∧ cnt ≤ 10) →
      (run exec es (called r cnt)).rtc = run rtClock (es.filterMap RtcEvent.tick?) r ∧
      (2 ≤ advances es → (run exec es (called r cnt)).pc = .returned (-1))) := by
  refine ⟨fun ⟨low, high⟩ => ⟨fun value ended => ?_, fun update rest enough => ?_⟩, fun outside => ?_⟩
  · obtain ⟨result, full⟩ := (run_tally r low high es).result value ended
    rw [updateTaken_iff]
    cases update : (taken es (called r cnt)).any updateEnded with
    | true =>
      rw [update] at result
      simp [result]
    | false =>
      rw [update] at result
      have none : ∀ v ∈ taken es (called r cnt), v ≠ 0x90 ∧ v ≠ 0xD0 := by
        simpa [updateEnded] using update
      refine ⟨.inr result, by simp [result], fun negative => ⟨?_, none⟩⟩
      exact_mod_cast full negative
  · rw [updateTaken_iff] at update
    -- The call leaves, whatever else interrupts it, and the interrupt still counts at the end.
    have leaving := (run_tally r low high es).leaving update
    have ends := leaving.run rest
    rw [← run_append] at ends
    have bound := left_le (run exec es (called r cnt)).pc
    obtain ⟨value, ended⟩ := done_of_left_eq_zero (p := (run exec (es ++ rest) (called r cnt)).pc)
      (by omega)
    have still : (taken (es ++ rest) (called r cnt)).any updateEnded = true := by
      rw [taken, trace_append, List.any_append, Bool.or_eq_true]
      exact .inl update
    have result := ((run_tally r low high (es ++ rest)).result value ended).1
    rw [still] at result
    rw [ended, result]
    rfl
  · obtain ⟨_, untouched, place⟩ := run_refused r outside es
    refine ⟨untouched, fun enough => ?_⟩
    rcases place with ⟨_, none⟩ | ⟨_, one⟩ | place
    · omega
    · omega
    · exact place

/-- Two periodic interrupts, and no update interrupt, while `rtc_write` waits. -/
def unansweredCall : List RtcEvent :=
  List.replicate 14 .advance ++
    [.tick 0xC0, .advance, .advance, .advance, .advance, .advance, .tick 0xC0] ++
    List.replicate 7 .advance

theorem rtc_write_answer_sample :
    2 ^ (1 : Int).toNat ≤ (taken unansweredCall (called powerOn.rtcOpen 1)).length ∧
    (run exec (sampleCall ++ List.replicate 6 .advance) (called powerOn.rtcOpen 10)).pc =
      .returned 0 ∧
    (run exec [.tick 0x90, .advance, .advance] (called powerOn.rtcOpen 11)).pc = .returned (-1) :=
  ⟨((((rtc_write_answer powerOn.rtcOpen 1 unansweredCall).1 (by decide)).1 (-1) (by decide)).2.2
      rfl).1,
    ((rtc_write_answer powerOn.rtcOpen 10 sampleCall).1 (by decide)).2 ⟨0x90, by decide, by decide⟩
      _ (by decide),
    ((rtc_write_answer powerOn.rtcOpen 11 [.tick 0x90, .advance, .advance]).2 (by decide)).2
      (by decide)⟩

end RtcWrite

end Mp3Kernel
