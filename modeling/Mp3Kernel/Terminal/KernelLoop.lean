import Mp3Kernel.Terminal.Read

/-!
# The loop of `entry`

The kernel prompts, reads a line, and prints it back, for ever. The loop is cut
into the characters it prints and the statements of `terminal_read`, with
scancodes between any two of them. Every step of the loop is at most one event
of a session, so what holds of all sessions holds here.
-/

namespace Mp3Kernel

open Library

/-- Where the loop is. A list is what is left to print of a constant string. -/
inductive LoopPoint where
  | prompt (rest : List UInt8)
  | read
  | reading
  | terminate
  | label (rest : List UInt8)
  | echo (index : Int)
  | endLine
  deriving DecidableEq, Repr

/-- `buf` is the array of the loop; during a read the session works on it. -/
structure KernelLoop where
  session : Session
  point : LoopPoint
  buf : Int → UInt8

inductive LoopEvent where
  | key (beyond : UInt8 → UInt8) (code : UInt8)
  | step

namespace KernelLoop

open Terminal

/-- `"Reading-> "` -/
def readingPrompt : List UInt8 := ascii ['R', 'e', 'a', 'd', 'i', 'n', 'g', '-', '>', ' ']

/-- `"Typed:    "` -/
def typedLabel : List UInt8 := ascii ['T', 'y', 'p', 'e', 'd', ':', ' ', ' ', ' ', ' ']

/-- The session events that one event of the loop stands for. -/
def events (cnt : Int) : LoopEvent → KernelLoop → List Event
  | .key beyond code, _ => [.key beyond code]
  | .step, k =>
    match k.point with
    -- `buf[cnt] = '\0'` and the ends of the constant strings do not concern the session.
    | .prompt [] | .terminate | .label [] => []
    | .prompt (c :: _) | .label (c :: _) => [.print c]
    | .read => [.call cnt k.buf]
    | .reading => [.advance]
    -- `puts` stops at the first NUL, whether `terminal_read` delivered it or not.
    | .echo index => if k.buf index = 0 then [] else [.print (k.buf index)]
    | .endLine => [.print newline]

/-- Where the loop goes, once the session has made the step. -/
def nextPoint (k : KernelLoop) (session : Session) : LoopPoint :=
  match k.point with
  | .prompt [] => .read
  | .prompt (_ :: rest) => .prompt rest
  | .read => .reading
  | .reading => if session.pc = .outside then .terminate else .reading
  | .terminate => .label typedLabel
  | .label [] => .echo 0
  | .label (_ :: rest) => .label rest
  | .echo index => if k.buf index = 0 then .endLine else .echo (index + 1)
  | .endLine => .prompt readingPrompt

def nextBuf (k : KernelLoop) (session : Session) : Int → UInt8 :=
  match k.point with
  | .reading => session.buf
  | .terminate => Function.update k.buf k.session.rtnCnt 0
  | _ => k.buf

def exec (cnt : Int) : LoopEvent → KernelLoop → KernelLoop
  | .key beyond code, k => { k with session := k.session.key beyond code }
  | .step, k =>
    let session := run Session.exec (events cnt .step k) k.session
    ⟨session, k.nextPoint session, k.nextBuf session⟩

/-- The loop begins with an open terminal and an array of stack contents. -/
def entered (t : Terminal) (stack : Int → UInt8) : KernelLoop :=
  ⟨Session.opened t, .prompt readingPrompt, stack⟩

/-- The session events behind a run of the loop. -/
def sessionTrace (cnt : Int) (es : List LoopEvent) (k : KernelLoop) : List Event :=
  trace (exec cnt) (events cnt) es k

theorem run_session (cnt : Int) (es : List LoopEvent) (k : KernelLoop) :
    (run (exec cnt) es k).session = run Session.exec (sessionTrace cnt es k) k.session := by
  refine run_trace KernelLoop.session (fun e k => ?_) es k
  cases e <;> rfl

/-- The loop is inside `terminal_read` when its session is, with its own `cnt`. -/
structure Agrees (cnt : Int) (k : KernelLoop) : Prop where
  inside : k.point = .reading ↔ k.session.pc ≠ .outside
  cnt : k.session.pc ≠ .outside → k.session.cnt = cnt

theorem print_outside {c : UInt8} {s : Session} (outside : s.pc = .outside) :
    (s.print c).pc = .outside := by
  simp [Session.print, outside]

theorem Agrees.of_outside {cnt : Int} {k : KernelLoop} (elsewhere : k.point ≠ .reading)
    (outside : k.session.pc = .outside) : k.Agrees cnt where
  inside := iff_of_false elsewhere (not_not.mpr outside)
  cnt := fun inside => absurd outside inside

theorem exec_agrees (cnt : Int) (e : LoopEvent) (k : KernelLoop) (agrees : k.Agrees cnt) :
    (exec cnt e k).Agrees cnt := by
  obtain ⟨inside, same⟩ := agrees
  cases e with
  | key beyond code => exact ⟨inside, same⟩
  | step =>
    have outside (elsewhere : k.point ≠ .reading) : k.session.pc = .outside :=
      not_not.mp (mt inside.mpr elsewhere)
    rw [exec]
    -- Only `read` and `reading` move the session in or out of `terminal_read`.
    cases place : k.point with
    | reading =>
      have cnt_eq := same (inside.mp place)
      simp only [events, nextPoint, place, run_cons, run_nil, Session.exec]
      refine ⟨?_, fun _ => (Session.advance_cnt _).trans cnt_eq⟩
      split
      next outside => simp [outside]
      next still => simp [still]
    | read =>
      have outside := outside (by simp [place])
      simp [events, nextPoint, place, Session.exec, Session.call, outside, Agrees.mk]
    | prompt rest | label rest =>
      have outside := outside (by simp [place])
      cases rest with
      | nil =>
        apply Agrees.of_outside
        · simp [nextPoint, place]
        · simpa [events, place] using outside
      | cons c rest =>
        apply Agrees.of_outside
        · simp [nextPoint, place]
        · simpa [events, place, Session.exec] using print_outside outside
    | terminate =>
      have outside := outside (by simp [place])
      apply Agrees.of_outside
      · simp [nextPoint, place]
      · simpa [events, place] using outside
    | endLine =>
      have outside := outside (by simp [place])
      apply Agrees.of_outside
      · simp [nextPoint, place]
      · simpa [events, place, Session.exec] using print_outside outside
    | echo index =>
      have outside := outside (by simp [place])
      apply Agrees.of_outside
      · simp only [nextPoint, place]
        split
        · simp
        · simp
      · simp only [events, place]
        split
        · simpa using outside
        · simpa [Session.exec] using print_outside outside

theorem run_agrees (t : Terminal) (stack : Int → UInt8) (cnt : Int) (es : List LoopEvent) :
    (run (exec cnt) es (entered t stack)).Agrees cnt :=
  run_invariant (Agrees cnt) (exec_agrees cnt) es (Agrees.of_outside (by simp [entered]) rfl)

/-- The characters that a read put into the array of the loop. -/
def received (k : KernelLoop) : List UInt8 :=
  (List.range k.session.rtnCnt.toNat).map fun i : Nat => k.buf i

/-- Outside `terminal_read` and in its copy loop a scancode changes nothing at all, and a
read that returns delivers the line in `typed` at its Enter, cut to `cnt` characters. -/
theorem key_touches_nothing_outside_read (t : Terminal) (stack : Int → UInt8) (cnt : Int)
    (es : List LoopEvent) :
    ((run (exec cnt) es (entered t stack)).session.pc ∉ Pc.listening → ∀ beyond code,
      exec cnt (.key beyond code) (run (exec cnt) es (entered t stack)) =
        run (exec cnt) es (entered t stack)) ∧
    ((run (exec cnt) es (entered t stack)).point = .reading →
      (run (exec cnt) (es ++ [.step]) (entered t stack)).point = .terminate →
      ∃ before beyond after,
        Session.EndedBy t (sessionTrace cnt es (entered t stack)) before beyond after ∧
        (run (exec cnt) (es ++ [.step]) (entered t stack)).received =
          (run Session.exec before (Session.opened t)).terminal.line.take cnt.toNat ∧
        (run (exec cnt) (es ++ [.step]) (entered t stack)).session.rtnCnt =
          (run (exec cnt) (es ++ [.step]) (entered t stack)).received.length) := by
  have agrees := run_agrees t stack cnt es
  have session := run_session cnt es (entered t stack)
  have quiet := Session.run_quiet t (sessionTrace cnt es (entered t stack))
  have returned := Session.read_returns_line t (sessionTrace cnt es (entered t stack))
  -- The session of the loop is a session like any other, whose events are the trace.
  change _ = run Session.exec _ (Session.opened t) at session
  rw [run_append]
  rw [← session] at quiet returned
  generalize run (exec cnt) es (entered t stack) = k at *
  constructor
  · intro place beyond code
    rw [exec, Session.key, Session.keyboardInput_idle (quiet.idle place)]
  · intro place ends
    have inside := agrees.inside.mp place
    -- The step is a step of `terminal_read`, which then works on the array of the loop.
    have step : run (exec cnt) [.step] k = ⟨k.session.advance,
        if k.session.advance.pc = .outside then .terminate else .reading, k.session.advance.buf⟩ := by
      simp [exec, events, nextPoint, nextBuf, place, Session.exec]
    rw [step] at ends ⊢
    have outside : k.session.advance.pc = .outside := by
      by_contra still
      simp [still] at ends
    have result := returned inside outside
    rwa [agrees.cnt inside] at result

/-- The loop up to its first `terminal_read`, an `a` and Enter, and the copy loop up to the
test that ends it. -/
def sampleLoop : List LoopEvent :=
  List.replicate 15 .step ++ [.key (fun _ => 0) 0x1E, .key (fun _ => 0) enterKey] ++
    List.replicate 5 .step

theorem key_touches_nothing_outside_read_sample :
    (∀ beyond code, exec 1024 (.key beyond code)
      (run (exec 1024) sampleLoop (entered Terminal.powerOn fun _ => 0)) =
        run (exec 1024) sampleLoop (entered Terminal.powerOn fun _ => 0)) ∧
    ∃ before beyond after,
      Session.EndedBy Terminal.powerOn
        (sessionTrace 1024 sampleLoop (entered Terminal.powerOn fun _ => 0)) before beyond after ∧
      (run (exec 1024) (sampleLoop ++ [.step]) (entered Terminal.powerOn fun _ => 0)).received =
        (run Session.exec before (Session.opened Terminal.powerOn)).terminal.line.take
          (1024 : Int).toNat :=
  have result := key_touches_nothing_outside_read Terminal.powerOn (fun _ => 0) 1024 sampleLoop
  have ⟨before, beyond, after, ended, received, _⟩ := result.2 (by decide) (by decide)
  ⟨result.1 (by decide), before, beyond, after, ended, received⟩

end KernelLoop

end Mp3Kernel
