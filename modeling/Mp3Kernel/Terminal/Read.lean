import Mp3Kernel.Terminal.Session

/-!
# What a read returns

The line under edit never holds a newline and never more than ten characters, so
the newline that Enter stores is where the copy loop stops. From that Enter on
the handler is deaf: the copy loop sees the line as Enter left it.
-/

namespace Mp3Kernel

open Library

namespace Terminal

/-! ## The line under edit -/

/-- The characters typed so far. -/
def line (t : Terminal) : List UInt8 :=
  (List.range t.linePos.toNat).map fun k : Nat => t.typed k

structure LineSound (t : Terminal) : Prop where
  nonneg : 0 ≤ t.linePos
  room : t.linePos ≤ 10
  noNewline : ∀ k, 0 ≤ k → k < t.linePos → t.typed k ≠ newline

theorem Handled.lineSound {beyond : UInt8 → UInt8} {key : UInt8} {t t' : Terminal}
    {call : Option Console.Op} (handled : Handled beyond key t call t') (sound : t.LineSound) :
    t'.LineSound := by
  obtain ⟨nonneg, room, noNewline⟩ := sound
  cases handled with
  | discarded | control | shifting | caps | view | inert => exact ⟨nonneg, room, noNewline⟩
  | clearing => exact ⟨by simp, by simp, fun k low high => absurd high (not_lt.mpr low)⟩
  -- What is erased stays in `typed`, behind the end of the line.
  | erasing _ _ _ nonempty =>
    refine ⟨?_, ?_, fun k low high => noNewline k low ?_⟩ <;> simp only at * <;> omega
  -- The newline is stored at `line_pos`, and `line_pos` stays.
  | entering =>
    refine ⟨nonneg, room, fun k low high => ?_⟩
    simp only [Function.update_of_ne (ne_of_lt high)]
    exact noNewline k low high
  | typing _ _ _ data _ _ printable full =>
    refine ⟨by simp only; omega, by simp only; omega, fun k low high => ?_⟩
    simp only [Function.update_apply]
    split
    · exact printable.1
    · exact noNewline k low (by simp only at high; omega)

/-- An accepted Enter ends the line with a newline and leaves it as it was. -/
theorem keyboardInput_enter (beyond : UInt8 → UInt8) {key : UInt8} {t : Terminal}
    (accepts : AcceptsEnter key t) :
    (keyboardInput beyond key t).linePos = t.linePos ∧
    (keyboardInput beyond key t).typed = Function.update t.typed t.linePos newline := by
  obtain ⟨rfl, reading, ctrl⟩ := accepts
  have enter := ((kbdData_make beyond t (by decide)).1).mpr rfl
  have positive : newline ≠ 0 ∧ newline ≠ backspace := by decide
  have character : enterKey ∉ switchCodes := by decide
  have make : 0x80 &&& enterKey = 0 := by decide
  simp [keyboardInput_character beyond reading character, characterKey, enter, ctrl, positive, make]

theorem line_enter (beyond : UInt8 → UInt8) {key : UInt8} {t : Terminal}
    (accepts : AcceptsEnter key t) : (keyboardInput beyond key t).line = t.line := by
  obtain ⟨linePos, typed⟩ := keyboardInput_enter beyond accepts
  rw [line, line, linePos, typed]
  refine List.map_congr_left fun k member => ?_
  have inside : (k : Int) < t.linePos := by
    have := List.mem_range.mp member
    omega
  exact Function.update_of_ne (ne_of_lt inside) _ _

end Terminal

namespace Session

open Terminal

variable {s : Session}

theorem exec_lineSound (e : Event) (s : Session) (sound : s.terminal.LineSound) :
    (exec e s).terminal.LineSound := by
  have ⟨nonneg, room, noNewline⟩ := sound
  cases e with
  | key beyond code => exact (keyboardInput_handled beyond code s.terminal).lineSound sound
  | print c =>
    rw [exec, print]
    split <;> exact ⟨nonneg, room, noNewline⟩
  | call cnt buf =>
    rw [exec, call]
    split <;> exact sound
  | advance =>
    rw [exec]
    rcases s.advance_terminal_cases with h | h | h | h <;> rw [h]
    · exact sound
    · exact ⟨nonneg, room, noNewline⟩
    · exact ⟨by simp, by simp, fun k low high => absurd high (not_lt.mpr low)⟩
    · exact ⟨nonneg, room, noNewline⟩

theorem run_lineSound (t : Terminal) (es : List Event) :
    (run exec es (opened t)).terminal.LineSound :=
  run_invariant (fun s : Session => s.terminal.LineSound) exec_lineSound es
    ⟨by simp [opened, terminalOpen], by simp [opened, terminalOpen],
      fun k low high => absurd high (not_lt.mpr low)⟩

/-! ## The Enter behind a read that is being copied out -/

/-- The characters in the caller's buffer. -/
def delivered (s : Session) : List UInt8 :=
  (List.range s.rtnCnt.toNat).map fun k : Nat => s.buf k

/-- Among the events `es` of a session, the Enter between `before` and `after` was taken at
the wait loop, and the thread has not left that read since. -/
structure EndedBy (t : Terminal) (es before : List Event) (beyond : UInt8 → UInt8)
    (after : List Event) : Prop where
  split : es = before ++ .key beyond enterKey :: after
  waiting : (run exec before (opened t)).pc = .wait
  accepted : AcceptsEnter enterKey (run exec before (opened t)).terminal
  inside : Along exec (fun _ s => s.pc ≠ .outside) after
    (exec (.key beyond enterKey) (run exec before (opened t)))

/-- The Enter of the current read has been taken. -/
def Finishing (s : Session) : Prop :=
  (s.pc = .wait ∧ s.terminal.enterPressed = true) ∨
    s.pc ∈ [Pc.initCount, .copyTest, .copyByte, .copyNext]

/-- The copy loop: what was copied is the beginning of the line. -/
structure Copying (s : Session) : Prop where
  stop : s.terminal.typed s.terminal.linePos = newline
  count : s.pc ∈ [Pc.copyTest, .copyByte, .copyNext] →
    0 ≤ s.rtnCnt ∧ s.rtnCnt ≤ s.terminal.linePos ∧ s.rtnCnt ≤ max 0 s.cnt
  more : s.pc ∈ [Pc.copyByte, .copyNext] → s.rtnCnt < s.terminal.linePos ∧ s.rtnCnt < s.cnt
  copied : s.pc ∈ [Pc.copyTest, .copyByte, .copyNext] →
    ∀ k, 0 ≤ k → k < s.rtnCnt → s.buf k = s.terminal.typed k
  last : s.pc = .copyNext → s.buf s.rtnCnt = s.terminal.typed s.rtnCnt

theorem EndedBy.snoc {t : Terminal} {es before after : List Event} {beyond : UInt8 → UInt8}
    (ended : EndedBy t es before beyond after) (e : Event)
    (inside : (run exec es (opened t)).pc ≠ .outside) :
    EndedBy t (es ++ [e]) before beyond (after ++ [e]) := by
  obtain ⟨split, waiting, accepted, along⟩ := ended
  refine ⟨by simp [split], waiting, accepted, ?_⟩
  rw [along_append]
  refine ⟨along, ?_, trivial⟩
  rwa [split, run_append] at inside

/-- All that the thread does once Enter was taken. -/
theorem Finishing.advance_cases (finishing : s.Finishing) :
    (s.pc = .wait ∧ s.advance = { s with pc := .initCount }) ∨
    (s.pc = .initCount ∧ s.advance = { s with rtnCnt := 0, pc := .copyTest }) ∨
    (s.pc = .copyTest ∧ (s.terminal.typed s.rtnCnt ≠ newline ∧ s.rtnCnt < s.cnt) ∧
      s.advance = { s with pc := .copyByte }) ∨
    (s.pc = .copyTest ∧ ¬(s.terminal.typed s.rtnCnt ≠ newline ∧ s.rtnCnt < s.cnt) ∧
      s.advance = { s with pc := .outside }) ∨
    (s.pc = .copyByte ∧ s.advance = { s with
      buf := Function.update s.buf s.rtnCnt (s.terminal.typed s.rtnCnt), pc := .copyNext }) ∨
    (s.pc = .copyNext ∧ s.advance = { s with rtnCnt := s.rtnCnt + 1, pc := .copyTest }) := by
  rcases finishing with ⟨place, enter⟩ | place
  · exact .inl ⟨place, by simp [advance, place, enter]⟩
  · simp only [List.mem_cons, List.not_mem_nil, or_false] at place
    rcases place with h | h | h | h
    · exact .inr (.inl ⟨h, by simp [advance, h]⟩)
    · by_cases test : s.terminal.typed s.rtnCnt ≠ newline ∧ s.rtnCnt < s.cnt
      · exact .inr (.inr (.inl ⟨h, test, by simp [advance, h, test]⟩))
      · exact .inr (.inr (.inr (.inl ⟨h, test, by simp [advance, h, test]⟩)))
    · exact .inr (.inr (.inr (.inr (.inl ⟨h, by simp [advance, h]⟩))))
    · exact .inr (.inr (.inr (.inr (.inr ⟨h, by simp [advance, h]⟩))))

/-- Once Enter was taken, the statements of the read leave the terminal alone. -/
theorem advance_terminal (finishing : s.Finishing) : s.advance.terminal = s.terminal := by
  rcases finishing.advance_cases with ⟨_, next⟩ | ⟨_, next⟩ | ⟨_, _, next⟩ | ⟨_, _, next⟩ |
    ⟨_, next⟩ | ⟨_, next⟩ <;> rw [next]

theorem advance_copying (sound : s.terminal.LineSound) (finishing : s.Finishing)
    (copying : s.Copying) : s.advance.Copying := by
  have ⟨stop, count, more, copied, last⟩ := copying
  rcases finishing.advance_cases with ⟨_, next⟩ | ⟨_, next⟩ | ⟨h, test, next⟩ | ⟨_, _, next⟩ |
    ⟨h, next⟩ | ⟨h, next⟩ <;> rw [next]
  · exact ⟨stop, by simp, by simp, by simp, by simp⟩
  · -- `rtn_cnt = 0`: nothing is copied yet.
    exact ⟨stop, fun _ => ⟨le_refl _, sound.nonneg, le_max_left _ _⟩, by simp,
      fun _ k low high => absurd high (not_lt.mpr low), by simp⟩
  · -- The test fails at the newline at the latest, so the loop stays inside the line.
    have count := count (by simp [h])
    have short : s.rtnCnt ≠ s.terminal.linePos := fun same => test.1 (same ▸ stop)
    exact ⟨stop, fun _ => count, fun _ => ⟨by simp only; omega, test.2⟩,
      fun _ => copied (by simp [h]), by simp⟩
  · exact ⟨stop, by simp, by simp, by simp, by simp⟩
  · -- The byte goes to `buf[rtn_cnt]`, behind the bytes copied before.
    refine ⟨stop, fun _ => count (by simp [h]), fun _ => more (by simp [h]),
      fun _ k low high => ?_, by simp⟩
    simp only [Function.update_of_ne (ne_of_lt high)]
    exact copied (by simp [h]) k low high
  · -- Now it counts as copied, and there was room for it.
    have count := count (by simp [h])
    have more := more (by simp [h])
    refine ⟨stop, fun _ => ⟨?_, ?_, ?_⟩, by simp, fun _ k low high => ?_, by simp⟩
    · simp only; omega
    · simp only; omega
    · simp only; omega
    · rcases eq_or_ne k s.rtnCnt with same | other
      · rw [same]
        exact last h
      · exact copied (by simp [h]) k low (by simp only at high; omega)

/-- What a run keeps: a read past its Enter works on the line as that Enter left it. -/
def Heard (t : Terminal) (es : List Event) (s : Session) : Prop :=
  s.Finishing → ∃ before beyond after, EndedBy t es before beyond after ∧ s.Copying ∧
    s.terminal = keyboardInput beyond enterKey (run exec before (opened t)).terminal

theorem Finishing.inside (finishing : s.Finishing) : s.pc ≠ .outside := by
  rcases finishing with ⟨place, _⟩ | place
  · simp [place]
  · intro h
    simp [h] at place

/-- Past its Enter, a read takes no scancode. -/
theorem Finishing.idle (finishing : s.Finishing) (quiet : s.Quiet) : s.terminal.reading = false := by
  rcases finishing with ⟨place, enter⟩ | place
  · exact quiet.ended place enter
  · apply quiet.idle
    simp only [List.mem_cons, List.not_mem_nil, or_false] at place
    rcases place with h | h | h | h <;> simp [h, Pc.listening]

/-- Past its Enter a read only goes on copying. -/
theorem exec_finishing (e : Event) (finishing : s.Finishing) (quiet : s.Quiet)
    (sound : s.terminal.LineSound) (copying : s.Copying) :
    (exec e s).Copying ∧ (exec e s).terminal = s.terminal := by
  cases e with
  | key beyond code =>
    rw [exec, key, keyboardInput_idle (finishing.idle quiet)]
    exact ⟨copying, rfl⟩
  | print c =>
    rw [exec, print, if_neg finishing.inside]
    exact ⟨copying, rfl⟩
  | call cnt buf =>
    rw [exec, call, if_neg finishing.inside]
    exact ⟨copying, rfl⟩
  | advance => exact ⟨advance_copying sound finishing copying, advance_terminal finishing⟩

/-- Nothing but an Enter at the wait loop brings a read past its Enter. -/
theorem finishing_of_exec {e : Event} (before : ¬s.Finishing) (after : (exec e s).Finishing) :
    ∃ beyond, e = .key beyond enterKey ∧ s.pc = .wait ∧ AcceptsEnter enterKey s.terminal := by
  cases e with
  | key beyond code =>
    have place : s.pc = .wait ∧ (keyboardInput beyond code s.terminal).enterPressed = true :=
      after.resolve_right fun copy => before (.inr copy)
    rcases keyboardInput_flags beyond code s.terminal with ⟨accepts, _⟩ | ⟨_, _, enter⟩
    · obtain rfl : code = enterKey := accepts.1
      exact ⟨beyond, rfl, place.1, accepts⟩
    · exact absurd (.inl ⟨place.1, enter.symm.trans place.2⟩) before
  | print c =>
    rw [exec, print] at after
    split at after
    next place => simp [Finishing, place] at after
    next => exact absurd after before
  | call cnt buf =>
    rw [exec, call] at after
    split at after
    next place => simp [Finishing] at after
    next => exact absurd after before
  | advance =>
    rw [exec, advance] at after
    cases place : s.pc with
    | outside | setReading | setLinePos | clearEnter => simp [place, Finishing] at after
    | wait =>
      cases enter : s.terminal.enterPressed with
      | true => exact absurd (.inl ⟨place, enter⟩) before
      | false => simp [place, enter, Finishing] at after
    | initCount | copyTest | copyByte | copyNext => exact absurd (.inr (by simp [place])) before

/-- At its Enter a read has copied nothing, and the newline is in place. -/
theorem copying_of_enter (beyond : UInt8 → UInt8) (place : s.pc = .wait)
    (accepts : AcceptsEnter enterKey s.terminal) : (exec (.key beyond enterKey) s).Copying := by
  obtain ⟨linePos, typed⟩ := keyboardInput_enter beyond accepts
  have ended : (exec (.key beyond enterKey) s).terminal.typed
      (exec (.key beyond enterKey) s).terminal.linePos = newline := by
    simp [exec, key, linePos, typed]
  exact ⟨ended, by simp [exec, key, place], by simp [exec, key, place], by simp [exec, key, place],
    by simp [exec, key, place]⟩

theorem exec_heard (t : Terminal) (es : List Event) (e : Event)
    (heard : Heard t es (run exec es (opened t))) :
    Heard t (es ++ [e]) (exec e (run exec es (opened t))) := by
  have quiet := run_quiet t es
  have sound := run_lineSound t es
  intro finishing
  by_cases already : (run exec es (opened t)).Finishing
  · -- The Enter is further back: the same split, one event longer.
    obtain ⟨before, beyond, after, ended, copying, same⟩ := heard already
    obtain ⟨copying', unchanged⟩ := exec_finishing e already quiet sound copying
    exact ⟨before, beyond, after ++ [e], ended.snoc e already.inside, copying', unchanged.trans same⟩
  · -- The read is finishing only now, so this event is its Enter.
    obtain ⟨beyond, rfl, place, accepts⟩ := finishing_of_exec already finishing
    exact ⟨es, beyond, [], ⟨rfl, place, accepts, trivial⟩, copying_of_enter beyond place accepts, rfl⟩

theorem run_heard (t : Terminal) (es : List Event) : Heard t es (run exec es (opened t)) :=
  run_history (Heard t) (by simp [Heard, Finishing, opened]) (exec_heard t) es

/-- Where the copy loop stops, at the newline or at `cnt`, the beginning of the line has been
copied. -/
theorem Copying.delivered_eq (copying : s.Copying) (sound : s.terminal.LineSound)
    (place : s.pc = .copyTest)
    (stops : ¬(s.terminal.typed s.rtnCnt ≠ newline ∧ s.rtnCnt < s.cnt)) :
    s.delivered = s.terminal.line.take s.cnt.toNat ∧ s.rtnCnt = s.delivered.length := by
  obtain ⟨low, high, wanted⟩ := copying.count (by simp [place])
  have copied := copying.copied (by simp [place])
  have count : s.rtnCnt.toNat = min s.cnt.toNat s.terminal.linePos.toNat := by
    by_cases atEnd : s.rtnCnt = s.terminal.linePos
    · omega
    · have character := sound.noNewline s.rtnCnt low (by omega)
      have full : ¬s.rtnCnt < s.cnt := fun less => stops ⟨character, less⟩
      omega
  constructor
  · rw [delivered, Terminal.line, ← List.map_take, List.take_range, ← count]
    refine List.map_congr_left fun k member => ?_
    have bound : k < s.rtnCnt.toNat := List.mem_range.mp member
    exact copied k (by omega) (by omega)
  · rw [delivered, List.length_map, List.length_range]
    omega

/-- A read that returns delivers the line that its Enter ended, cut to `cnt` characters. -/
theorem read_returns_line (t : Terminal) (es : List Event)
    (inside : (run exec es (opened t)).pc ≠ .outside)
    (returns : (run exec es (opened t)).advance.pc = .outside) :
    ∃ before beyond after, EndedBy t es before beyond after ∧
      (run exec es (opened t)).advance.delivered =
        (run exec before (opened t)).terminal.line.take (run exec es (opened t)).cnt.toNat ∧
      (run exec es (opened t)).advance.rtnCnt =
        (run exec es (opened t)).advance.delivered.length := by
  have sound := run_lineSound t es
  have heard := run_heard t es
  generalize run exec es (opened t) = s at *
  -- Of all statements only the test of the copy loop returns.
  have place : s.pc = .copyTest := by
    cases h : s.pc with
    | copyTest => rfl
    | outside => exact absurd h inside
    | wait => cases enter : s.terminal.enterPressed <;> simp [advance, h, enter] at returns
    | _ => simp [advance, h] at returns
  obtain ⟨before, beyond, after, ended, copying, same⟩ := heard (.inr (by simp [place]))
  refine ⟨before, beyond, after, ended, ?_⟩
  have stops : ¬(s.terminal.typed s.rtnCnt ≠ newline ∧ s.rtnCnt < s.cnt) := by
    intro test
    simp [advance, place, test] at returns
  have next : s.advance = { s with pc := .outside } := by simp [advance, place, stops]
  obtain ⟨result, count⟩ := copying.delivered_eq sound place stops
  have line : s.terminal.line = (run exec before (opened t)).terminal.line := by
    rw [same, line_enter beyond ended.accepted]
  rw [next]
  exact ⟨result.trans (by rw [line]), count⟩

end Session

end Mp3Kernel
