import Mp3Kernel.Terminal.Session

/-!
# Ctrl and Shift

The handler drops every scancode that arrives while no read is listening, and
one flag stands for both Shift keys. So the flags follow the codes that were
heard, not the keys: a modifier pressed or released between two reads is missed,
and releasing one Shift key clears the flag of both.
-/

namespace Mp3Kernel

open Library Terminal

/-- The last of the codes in `press` and `release` was one of `press`. -/
def held (press release codes : List UInt8) : Bool :=
  ((codes.filter fun c => c ∈ press ++ release).getLast?).any fun c => c ∈ press

theorem held_snoc (press release codes : List UInt8) (c : UInt8) :
    held press release (codes ++ [c]) =
      if c ∈ press then true else if c ∈ release then false else held press release codes := by
  -- A code that is neither is filtered out and leaves the last one the last one.
  by_cases down : c ∈ press
  · simp [held, down]
  · by_cases up : c ∈ release
    · simp [held, down, up]
    · simp [held, down, up]

namespace Terminal

/-- While a read listens, the Ctrl codes set `ctrl`, the four Shift codes set `shift`, and
nothing else does. -/
theorem keyboardInput_modifiers (beyond : UInt8 → UInt8) (code : UInt8) {t : Terminal}
    (reading : t.reading = true) :
    (keyboardInput beyond code t).ctrl =
      (if code ∈ [0x1D] then true else if code ∈ [0x9D] then false else t.ctrl) ∧
    (keyboardInput beyond code t).shift =
      (if code ∈ [0x2A, 0x36] then true else if code ∈ [0xAA, 0xB6] then false else t.shift) := by
  have handled := keyboardInput_handled beyond code t
  generalize consoleCall beyond code t = call at handled
  generalize keyboardInput beyond code t = t' at handled
  cases handled with
  | discarded idle => simp [idle] at reading
  | control _ press same => cases press <;> simp at same <;> simp [same]
  | shifting _ press same =>
    cases press <;> simp at same <;> rcases same with rfl | rfl <;> simp
  | caps _ same => simp [same]
  | view _ _ _ same =>
    simp only [List.mem_cons, List.not_mem_nil, or_false] at same
    rcases same with rfl | rfl | rfl | rfl | rfl | rfl <;> simp
  | erasing _ _ same => simp [same, backspaceKey]
  | entering _ _ same => simp [same, enterKey]
  | clearing _ _ character | inert _ character | typing _ _ character =>
    simp only [switchCodes, List.mem_cons, List.not_mem_nil, or_false, not_or] at character
    simp [character]

end Terminal

namespace Session

/-- The scancodes that arrived, in order. -/
def arrived (es : List Event) : List UInt8 :=
  es.filterMap fun
    | .key _ code => some code
    | _ => none

/-- The scancode of this event, if a read listens. -/
def heardNow : Event → Session → List UInt8
  | .key _ code, s => if s.terminal.reading then [code] else []
  | _, _ => []

/-- The scancodes that arrived while a read was listening, in order. -/
def heardCodes (t : Terminal) (es : List Event) : List UInt8 := trace exec heardNow es (opened t)

theorem heardCodes_snoc (t : Terminal) (es : List Event) (e : Event) :
    heardCodes t (es ++ [e]) = heardCodes t es ++ heardNow e (run exec es (opened t)) := by
  simp [heardCodes, trace_append, trace]

/-- The flags say what the heard codes say. -/
def Follows (s : Session) (codes : List UInt8) : Prop :=
  s.terminal.ctrl = held [0x1D] [0x9D] codes ∧
  s.terminal.shift = held [0x2A, 0x36] [0xAA, 0xB6] codes

theorem exec_follows (e : Event) (s : Session) (codes : List UInt8) (follows : s.Follows codes) :
    (exec e s).Follows (codes ++ heardNow e s) := by
  have ⟨ctrl, shift⟩ := follows
  cases e with
  | key beyond code =>
    -- A code that is not heard changes neither the flags nor the codes heard.
    cases reading : s.terminal.reading with
    | false =>
      rw [exec, key, keyboardInput_idle reading]
      simpa [heardNow, reading] using follows
    | true =>
      obtain ⟨ctrl', shift'⟩ := keyboardInput_modifiers beyond code reading
      simp only [heardNow, reading, if_true, Follows, held_snoc, exec, key]
      rw [ctrl', shift', ctrl, shift]
      exact ⟨rfl, rfl⟩
  | print c =>
    simp only [heardNow, List.append_nil, exec, print]
    split <;> exact follows
  | call cnt buf =>
    simp only [heardNow, List.append_nil, exec, call]
    split <;> exact follows
  | advance =>
    simp only [heardNow, List.append_nil, exec, Follows]
    rcases s.advance_terminal_cases with h | h | h | h <;> rw [h] <;> exact follows

/-- No Shift key is released while the other one is down. -/
def NoCrossRelease (codes : List UInt8) : Prop :=
  ∀ pre c post, codes = pre ++ c :: post →
    (c = 0xAA → held [0x36] [0xB6] pre = false) ∧ (c = 0xB6 → held [0x2A] [0xAA] pre = false)

/-- Without cross releases the one flag serves both keys. -/
theorem held_shift_either {codes : List UInt8} (apart : NoCrossRelease codes) :
    held [0x2A, 0x36] [0xAA, 0xB6] codes =
      (held [0x2A] [0xAA] codes || held [0x36] [0xB6] codes) := by
  induction codes using List.reverseRecOn with
  | nil => rfl
  | append_singleton codes c ih =>
    have before : NoCrossRelease codes := fun pre d post split =>
      apart pre d (post ++ [c]) (by simp [split])
    have now := apart codes c [] rfl
    rw [held_snoc, held_snoc, held_snoc, ih before]
    -- A release is where the flag and the keys could part: it must not find the other key down.
    by_cases left : c = 0x2A
    · simp [left]
    by_cases right : c = 0x36
    · simp [right]
    by_cases leftUp : c = 0xAA
    · simp [leftUp, now.1 leftUp]
    by_cases rightUp : c = 0xB6
    · simp [rightUp, now.2 rightUp]
    simp [left, right, leftUp, rightUp]

/-- Throughout a session `ctrl` is set iff the last Ctrl code heard was a press, and `shift`
iff the last Shift code heard was; as long as no Shift key was released while the other was
down, that is iff one of the two is down. -/
theorem modifiers_follow_heardCodes (t : Terminal) (es : List Event) :
    (run exec es (opened t)).terminal.ctrl = held [0x1D] [0x9D] (heardCodes t es) ∧
    (run exec es (opened t)).terminal.shift =
      held [0x2A, 0x36] [0xAA, 0xB6] (heardCodes t es) ∧
    (NoCrossRelease (heardCodes t es) → (run exec es (opened t)).terminal.shift =
      (held [0x2A] [0xAA] (heardCodes t es) || held [0x36] [0xB6] (heardCodes t es))) := by
  have follows : (run exec es (opened t)).Follows (heardCodes t es) := by
    refine run_history (fun es (s : Session) => s.Follows (heardCodes t es)) ⟨rfl, rfl⟩
      (fun es e h => ?_) es
    rw [heardCodes_snoc]
    exact exec_follows e _ _ h
  exact ⟨follows.1, follows.2, fun apart => follows.2.trans (held_shift_either apart)⟩

/-- The flags agree with the keys that are down, whenever a read listens. -/
def MatchesKeys (t : Terminal) (es : List Event) : Prop :=
  (run exec es (opened t)).terminal.reading = true →
    (run exec es (opened t)).terminal.ctrl = held [0x1D] [0x9D] (arrived es) ∧
    (run exec es (opened t)).terminal.shift =
      (held [0x2A] [0xAA] (arrived es) || held [0x36] [0xB6] (arrived es))

instance (t : Terminal) (es : List Event) : Decidable (MatchesKeys t es) :=
  inferInstanceAs (Decidable (_ → _))

/-- Ctrl pressed before the read is missed; and with both Shift keys pressed, releasing the
left one clears the flag. -/
theorem modifiers_miss_keys :
    ¬MatchesKeys powerOn [.key (fun _ => 0) 0x1D, .call 8 (fun _ => 0), .advance, .advance,
      .advance] ∧
    ¬MatchesKeys powerOn [.call 8 (fun _ => 0), .advance, .advance, .advance,
      .key (fun _ => 0) 0x2A, .key (fun _ => 0) 0x36, .key (fun _ => 0) 0xAA] := by decide

end Session

end Mp3Kernel
