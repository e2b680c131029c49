import Mp3Kernel.Terminal.Basic

/-!
# A thread that reads and prints, and a keyboard that interrupts it

`terminal_read` is cut into its statements, and `keyboard_input` may run between
any two of them. A session is a run of events: scancodes, and steps of the one
thread, which prints characters and calls `terminal_read`.

`reading` and `enter_pressed` are the only protection the two sides have against
each other. `Quiet` is what it gives: outside the wait loop and the statements
that lead to it, the handler discards every scancode.
-/

namespace Mp3Kernel

open Library

/-- The statement of `terminal_read` that the thread executes next. -/
inductive Pc where
  | outside
  | setReading
  | setLinePos
  | clearEnter
  | wait
  | initCount
  | copyTest
  | copyByte
  | copyNext
  deriving DecidableEq, Repr

/-- The terminal, the place of the thread in `terminal_read`, and its locals. After a
return `rtnCnt` is the value returned and `buf` the caller's buffer. -/
structure Session where
  terminal : Terminal
  pc : Pc
  cnt : Int
  rtnCnt : Int
  buf : Int → UInt8

inductive Event where
  | key (beyond : UInt8 → UInt8) (code : UInt8)
  | print (c : UInt8)
  | call (cnt : Int) (buf : Int → UInt8)
  | advance

/-- Where the handler may find `reading` set. -/
def Pc.listening : List Pc := [.setLinePos, .clearEnter, .wait]

namespace Session

open Terminal

/-- One statement of `terminal_read`. -/
def advance (s : Session) : Session :=
  match s.pc with
  | .outside => s
  | .setReading =>
    { s with terminal := { s.terminal with reading := true }, pc := .setLinePos }
  | .setLinePos =>
    { s with terminal := { s.terminal with linePos := 0 }, pc := .clearEnter }
  | .clearEnter =>
    { s with terminal := { s.terminal with enterPressed := false }, pc := .wait }
  -- `while(!enter_pressed) {}`: one round of the loop is one step.
  | .wait => if s.terminal.enterPressed then { s with pc := .initCount } else s
  | .initCount => { s with rtnCnt := 0, pc := .copyTest }
  -- `while((typed[rtn_cnt] != '\n') && (rtn_cnt < cnt))`
  | .copyTest =>
    if s.terminal.typed s.rtnCnt ≠ newline ∧ s.rtnCnt < s.cnt then { s with pc := .copyByte }
    else { s with pc := .outside }
  | .copyByte =>
    { s with buf := Function.update s.buf s.rtnCnt (s.terminal.typed s.rtnCnt), pc := .copyNext }
  | .copyNext => { s with rtnCnt := s.rtnCnt + 1, pc := .copyTest }

/-- The interrupt: the thread is not involved. -/
def key (beyond : UInt8 → UInt8) (code : UInt8) (s : Session) : Session :=
  { s with terminal := keyboardInput beyond code s.terminal }

-- The thread prints, and calls `terminal_read`, only outside `terminal_read`.
def print (c : UInt8) (s : Session) : Session :=
  if s.pc = .outside then
    { s with terminal := { s.terminal with console := s.terminal.console.putc c } }
  else s

def call (cnt : Int) (buf : Int → UInt8) (s : Session) : Session :=
  if s.pc = .outside then { s with pc := .setReading, cnt := cnt, buf := buf } else s

def exec : Event → Session → Session
  | .key beyond code => key beyond code
  | .print c => print c
  | .call cnt buf => call cnt buf
  | .advance => advance

/-- The session that `terminal_open` begins. -/
def opened (t : Terminal) : Session := ⟨t.terminalOpen, .outside, 0, 0, fun _ => 0⟩

variable {s : Session}

/-- All that the statements of `terminal_read` do to the terminal. -/
theorem advance_terminal_cases (s : Session) :
    s.advance.terminal = s.terminal ∨ s.advance.terminal = { s.terminal with reading := true } ∨
    s.advance.terminal = { s.terminal with linePos := 0 } ∨
    s.advance.terminal = { s.terminal with enterPressed := false } := by
  rw [advance]
  cases s.pc with
  | setReading => exact .inr (.inl rfl)
  | setLinePos => exact .inr (.inr (.inl rfl))
  | clearEnter => exact .inr (.inr (.inr rfl))
  | wait | copyTest => dsimp only; split <;> exact .inl rfl
  | outside | initCount | copyByte | copyNext => exact .inl rfl

theorem advance_cnt (s : Session) : s.advance.cnt = s.cnt := by
  rw [advance]
  cases s.pc with
  | wait | copyTest => dsimp only; split <;> rfl
  | _ => rfl

/-! ## The handshake -/

theorem keyboardInput_idle {t : Terminal} (idle : t.reading = false) (beyond : UInt8 → UInt8)
    (code : UInt8) : keyboardInput beyond code t = t := by
  simp [keyboardInput, idle]

/-- Outside the wait loop and the statements before it nothing is read from the
keyboard, and neither is in the wait loop once Enter was pressed. -/
structure Quiet (s : Session) : Prop where
  idle : s.pc ∉ Pc.listening → s.terminal.reading = false
  ended : s.pc = .wait → s.terminal.enterPressed = true → s.terminal.reading = false

theorem opened_quiet (t : Terminal) : (opened t).Quiet := ⟨fun _ => rfl, by simp [opened]⟩

theorem advance_quiet (quiet : s.Quiet) : s.advance.Quiet := by
  obtain ⟨idle, ended⟩ := quiet
  unfold advance
  cases place : s.pc with
  | outside => exact ⟨idle, ended⟩
  -- These three lead to places where the handler may listen.
  | setReading | setLinePos | clearEnter => exact ⟨by simp [Pc.listening], by simp⟩
  | wait =>
    cases enter : s.terminal.enterPressed with
    | true => exact ⟨fun _ => ended place enter, by simp⟩
    | false => simpa using Quiet.mk idle ended
  | initCount | copyByte | copyNext =>
    exact ⟨fun _ => idle (by simp [place, Pc.listening]), by simp⟩
  | copyTest =>
    have off := idle (by simp [place, Pc.listening])
    dsimp only
    split <;> exact ⟨fun _ => off, by simp⟩

theorem exec_quiet (e : Event) (s : Session) (quiet : s.Quiet) : (exec e s).Quiet := by
  cases e with
  | key beyond code =>
    rcases keyboardInput_flags beyond code s.terminal with
      ⟨_, reading, _⟩ | ⟨_, reading, enter⟩
    · -- An accepted Enter clears `reading` wherever the thread is.
      exact ⟨fun _ => reading, fun _ _ => reading⟩
    · refine ⟨fun place => ?_, fun place pressed => ?_⟩
      · rw [exec, key, reading]
        exact quiet.idle place
      · rw [exec, key, enter] at pressed
        rw [exec, key, reading]
        exact quiet.ended place pressed
  | print c =>
    rw [exec, print]
    split
    · exact ⟨quiet.idle, quiet.ended⟩
    · exact quiet
  | call cnt buf =>
    rw [exec, call]
    split
    next place => exact ⟨fun _ => quiet.idle (by simp [place, Pc.listening]), by simp⟩
    next => exact quiet
  | advance => exact advance_quiet quiet

/-- Every session is quiet, whatever the interleaving. -/
theorem run_quiet (t : Terminal) (es : List Event) : (run exec es (opened t)).Quiet :=
  run_invariant Quiet exec_quiet es (opened_quiet t)

/-! ## Whether Enter can still end a read -/

/-- At the wait loop before Enter, the handler still listens. -/
def WaitAlive (s : Session) : Prop :=
  s.pc = .wait → s.terminal.enterPressed = false → s.terminal.reading = true

/-- An Enter is taken after `reading = 1` and before `enter_pressed = 0`. -/
def GapEnter : Event → Session → Prop
  | .key _ code, s => (s.pc = .setLinePos ∨ s.pc = .clearEnter) ∧ AcceptsEnter code s.terminal
  | _, _ => False

instance (s : Session) : Decidable s.WaitAlive := inferInstanceAs (Decidable (_ → _ → _))

instance : (e : Event) → (s : Session) → Decidable (GapEnter e s)
  | .key _ _, _ => inferInstanceAs (Decidable (_ ∧ _))
  | .print _, _ | .call _ _, _ | .advance, _ => inferInstanceAs (Decidable False)

structure Alive (s : Session) : Prop where
  begun : s.pc = .setLinePos ∨ s.pc = .clearEnter → s.terminal.reading = true
  waiting : s.WaitAlive

theorem advance_alive (alive : s.Alive) : s.advance.Alive := by
  obtain ⟨begun, waiting⟩ := alive
  unfold advance
  cases place : s.pc with
  | outside => exact ⟨begun, waiting⟩
  -- `reading` is set by the first statement and has to survive the next two.
  | setReading => exact ⟨fun _ => rfl, by simp [WaitAlive]⟩
  | setLinePos => exact ⟨fun _ => begun (.inl place), by simp [WaitAlive]⟩
  | clearEnter => exact ⟨by simp, fun _ _ => begun (.inr place)⟩
  | wait =>
    cases enter : s.terminal.enterPressed with
    | true => exact ⟨by simp, by simp [WaitAlive]⟩
    | false => simpa using Alive.mk begun waiting
  | initCount | copyByte | copyNext => exact ⟨by simp, by simp [WaitAlive]⟩
  | copyTest =>
    dsimp only
    split <;> exact ⟨by simp, by simp [WaitAlive]⟩

theorem exec_alive (e : Event) (s : Session) (noGap : ¬GapEnter e s) (alive : s.Alive) :
    (exec e s).Alive := by
  cases e with
  | key beyond code =>
    rcases keyboardInput_flags beyond code s.terminal with
      ⟨accepts, _, enter⟩ | ⟨_, reading, enter⟩
    · -- `enter_pressed` is set now, so only a read still in the gap could lose this Enter.
      refine ⟨fun place => absurd ⟨place, accepts⟩ noGap, fun _ pressed => ?_⟩
      rw [exec, key, enter] at pressed
      cases pressed
    · refine ⟨fun place => ?_, fun place pressed => ?_⟩
      · rw [exec, key, reading]
        exact alive.begun place
      · rw [exec, key, enter] at pressed
        rw [exec, key, reading]
        exact alive.waiting place pressed
  | print c =>
    rw [exec, print]
    split
    · exact ⟨alive.begun, alive.waiting⟩
    · exact alive
  | call cnt buf =>
    rw [exec, call]
    split
    · exact ⟨by simp, by simp [WaitAlive]⟩
    · exact alive
  | advance => exact advance_alive alive

/-- The read has lost its Enter: it goes on to wait, and the handler no longer listens. -/
structure Dead (s : Session) : Prop where
  place : s.pc ∈ Pc.listening
  unheard : s.pc = .wait → s.terminal.enterPressed = false
  deaf : s.terminal.reading = false

theorem exec_dead (e : Event) (s : Session) (dead : s.Dead) : (exec e s).Dead := by
  obtain ⟨place, unheard, deaf⟩ := dead
  have inside : s.pc ≠ .outside := by
    intro h
    simp [h, Pc.listening] at place
  cases e with
  | key beyond code =>
    rw [exec, key, keyboardInput_idle deaf]
    exact ⟨place, unheard, deaf⟩
  | print c =>
    rw [exec, print, if_neg inside]
    exact ⟨place, unheard, deaf⟩
  | call cnt buf =>
    rw [exec, call, if_neg inside]
    exact ⟨place, unheard, deaf⟩
  | advance =>
    simp only [Pc.listening, List.mem_cons, List.not_mem_nil, or_false] at place
    rcases place with h | h | h
    · simp only [exec, advance, h]
      exact ⟨by simp [Pc.listening], by simp, deaf⟩
    · simp only [exec, advance, h]
      exact ⟨by simp [Pc.listening], by simp, deaf⟩
    · -- The wait loop goes round: only the handler could end it, and it is deaf.
      have stuck : exec .advance s = s := by simp [exec, advance, h, unheard h]
      rw [stuck]
      exact ⟨by simp [h, Pc.listening], unheard, deaf⟩

theorem gapEnter_dead {e : Event} (gap : GapEnter e s) : (exec e s).Dead := by
  cases e with
  | key beyond code =>
    obtain ⟨place, accepts⟩ := gap
    rcases keyboardInput_flags beyond code s.terminal with ⟨_, reading, _⟩ | ⟨refuses, _⟩
    · refine ⟨?_, fun h => ?_, reading⟩
      · rcases place with h | h <;> simp [exec, key, h, Pc.listening]
      · rcases place with h' | h' <;> simp [exec, key, h'] at h
    · exact absurd accepts refuses
  | print c => cases gap
  | call cnt buf => cases gap
  | advance => cases gap

/-- In a session with no Enter in the gap, every wait can still be ended; after an Enter
in the gap, the read waits for ever, deaf to the keyboard. -/
theorem wait_alive_of_no_gapEnter (t : Terminal) (es : List Event) :
    (Along exec (fun e s => ¬GapEnter e s) es (opened t) → (run exec es (opened t)).WaitAlive) ∧
    (∀ e fs, GapEnter e (run exec es (opened t)) →
      (run exec (es ++ e :: fs) (opened t)).Dead) := by
  constructor
  · intro noGap
    have initial : (opened t).Alive := ⟨by simp [opened], by simp [opened, WaitAlive]⟩
    exact (noGap.invariant Alive exec_alive initial).waiting
  · intro e fs gap
    rw [run_append]
    exact run_invariant Dead exec_dead fs (gapEnter_dead gap)

/-- A read with a letter in the gap and one after it, before its Enter. -/
theorem wait_alive_of_no_gapEnter_session :
    (run exec [.call 8 (fun _ => 0), .advance, .key (fun _ => 0) 0x1E, .advance, .advance,
      .key (fun _ => 0) 0x1E] (opened Terminal.powerOn)).WaitAlive :=
  (wait_alive_of_no_gapEnter Terminal.powerOn _).1 (by decide)

/-- Enter right after `reading = 1`: the read then waits with `reading = 0`. -/
theorem gapEnter_wait_not_alive :
    ¬(run exec [.call 8 (fun _ => 0), .advance, .key (fun _ => 0) enterKey, .advance, .advance]
      (opened Terminal.powerOn)).WaitAlive := by decide

end Session

end Mp3Kernel
