import Mp3Kernel.Terminal.KernelLoop
import Mp3Kernel.Terminal.LineEditor
import Mp3Kernel.Terminal.Release

/-!
# The conversation of the kernel

The loop of `entry` and the keyboard handler both print on the console, and the
handler may print between any two steps of the loop. What is printed is a
conversation all the same: the prompt, the echo of what is typed, and the line
that the editor made of it.

`reading` is set before `line_pos` is reset. A scancode that falls between the
two is echoed, but it edits the line of the read before.
-/

namespace Mp3Kernel

open Library

namespace Editor

open Terminal (letterL)

/-! ## The echo of the editor -/

def characterEcho (c : UInt8) (e : Editor) : List Console.Op :=
  if e.ctrl then if c = letterL then [.clear] else []
  else if c = 0 then []
  else if c = backspace then if e.line = [] then [] else [.putc c]
  else if c = newline ∨ e.line.length < 10 then [.putc c]
  else []

/-- What a scancode shows on the console. -/
def echo (key : UInt8) (e : Editor) : List Console.Op :=
  if e.finished then []
  else if key ∈ [0x1D, 0x9D, 0x3A, 0x2A, 0xAA, 0x36, 0xB6] then []
  else if key = 0x48 then [.scroll (-1)]
  else if key = 0x50 then [.scroll 1]
  else if key = 0x49 then [.scroll (-12)]
  else if key = 0x51 then [.scroll 12]
  else if key = 0x41 then [.fontColor]
  else if key = 0x42 then [.backgroundColor]
  else e.characterEcho (e.translate key)

def echoes (keys : List UInt8) (e : Editor) : List Console.Op := trace press echo keys e

theorem echoes_nil (e : Editor) : echoes [] e = [] := rfl

theorem echoes_snoc (keys : List UInt8) (key : UInt8) (e : Editor) :
    echoes (keys ++ [key]) e = echoes keys e ++ echo key (run press keys e) := by
  rw [echoes, trace_append]
  simp only [trace, List.append_nil]
  rfl

/-- The line as it is, to be edited again. -/
def rearmed (e : Editor) : Editor := { e with finished := false }

/-- No key stands for a NUL. -/
theorem press_nonzero (key : UInt8) (e : Editor) (nonzero : ∀ c ∈ e.line, c ≠ 0) :
    ∀ c ∈ (e.press key).line, c ≠ 0 := by
  have typed (c : UInt8) : ∀ d ∈ (e.character c).line, d ≠ 0 := by
    rw [character]
    split_ifs with held clears void back enter room
    · exact fun _ member => absurd member List.not_mem_nil
    · exact nonzero
    · exact nonzero
    · exact fun d member => nonzero d (List.mem_of_mem_dropLast member)
    · exact nonzero
    · intro d member
      rcases List.mem_append.mp member with before | last
      · exact nonzero d before
      · rw [List.mem_singleton.mp last]
        exact void
    · exact nonzero
  rw [press]
  split_ifs
  all_goals first | exact nonzero | exact typed _

end Editor

namespace Terminal

variable {beyond : UInt8 → UInt8} {key : UInt8} {t : Terminal} {e : Editor}

/-! ## The echo of the handler -/

/-- A scancode that the tables have an answer to, or for which no `l` lies behind them. -/
def Understood (beyond : UInt8 → UInt8) (key : UInt8) : Prop := EditCode key ∨ beyond key ≠ letterL

instance (beyond : UInt8 → UInt8) (key : UInt8) : Decidable (Understood beyond key) :=
  inferInstanceAs (Decidable (_ ∨ _))

theorem keyboardInput_console (beyond : UInt8 → UInt8) (key : UInt8) (t : Terminal) :
    (keyboardInput beyond key t).console = run Console.exec (consoleCall beyond key t).toList t.console := by
  have handled := keyboardInput_handled beyond key t
  generalize consoleCall beyond key t = call at handled
  generalize keyboardInput beyond key t = t' at handled
  cases handled <;> rfl

/-- A release code that is not an edit code. -/
theorem isRelease_of_not_editCode (other : ¬EditCode key) : IsRelease key := by
  rw [EditCode, not_or, UInt8.not_lt] at other
  exact other

theorem Layout.getD_behind {table : List UInt8} (layout : Layout table) {i : Nat} (behind : 128 ≤ i)
    (d : UInt8) : table.getD i d = d := by
  rw [List.getD_eq_getElem?_getD, List.getElem?_eq_none (layout.1 ▸ behind), Option.getD_none]

theorem IsRelease.high (release : IsRelease key) : 128 ≤ key.toNat := release.1

theorem kbdData_release (release : IsRelease key) (t : Terminal) : kbdData beyond key t = beyond key := by
  rw [kbdData, shiftChars_layout.getD_behind release.high, chars_layout.getD_behind release.high, ite_self]

theorem translate_release (release : IsRelease key) (e : Editor) : e.translate key = 0 := by
  rw [Editor.translate, shiftChars_layout.getD_behind release.high, chars_layout.getD_behind release.high, ite_self]

/-- A key behind the switch is a key for a character. -/
theorem press_character (character : key ∉ switchCodes) (unfinished : e.finished = false) :
    e.press key = e.character (e.translate key) := by
  simp only [switchCodes, List.mem_cons, List.not_mem_nil, or_false, not_or] at character
  simp [Editor.press, unfinished, character]

theorem echo_character (character : key ∉ switchCodes) (unfinished : e.finished = false) :
    e.echo key = e.characterEcho (e.translate key) := by
  simp only [switchCodes, List.mem_cons, List.not_mem_nil, or_false, not_or] at character
  simp [Editor.echo, unfinished, character]

/-- The editor knows nothing of the keys that are released. -/
theorem press_release (release : IsRelease key) (e : Editor) : e.press key = e ∧ e.echo key = [] := by
  cases finished : e.finished with
  | true => simp [Editor.press, Editor.echo, finished]
  | false =>
    rw [press_character release.not_switch finished, echo_character release.not_switch finished,
      translate_release release]
    have nothing : (0 : UInt8) ≠ letterL := by decide
    simp [Editor.character, Editor.characterEcho, nothing]

/-- Every scancode that is understood does to the terminal what it does to the editor. -/
theorem Mirrors.heard (mirrors : t.Mirrors e) (understood : Understood beyond key) :
    (keyboardInput beyond key t).Mirrors (e.press key) := by
  by_cases code : EditCode key
  · exact mirrors.press code
  · have release := isRelease_of_not_editCode code
    have harmless := understood.resolve_left code
    rw [release_dropped release (.inr ((kbdData_release release t).trans_ne harmless)), (press_release release e).1]
    exact mirrors

/-- The call for a key behind the switch. -/
theorem consoleCall_character (reading : t.reading = true) (character : key ∉ switchCodes) :
    consoleCall beyond key t =
      if t.ctrl then if kbdData beyond key t = letterL then some .clear else none
      else if 0x80 &&& key ≠ 0 ∨ kbdData beyond key t = 0 then none
      else if kbdData beyond key t = backspace then
        if t.linePos = 0 then none else some (.putc (kbdData beyond key t))
      else if kbdData beyond key t ≠ newline ∧ t.linePos ≥ 10 then none
      else some (.putc (kbdData beyond key t)) := by
  simp only [switchCodes, List.mem_cons, List.not_mem_nil, or_false, not_or] at character
  simp [consoleCall, reading, character]

theorem Mirrors.characterEcho (mirrors : t.Mirrors e) (reading : t.reading = true) (character : key ∉ switchCodes)
    (make : 0x80 &&& key = 0) : (consoleCall beyond key t).toList = e.characterEcho (e.translate key) := by
  have data := @Mirrors.kbdData_eq beyond key t e mirrors make
  have length := mirrors.length
  have empty : t.linePos = 0 ↔ e.line = [] := by
    rw [← List.length_eq_zero_iff]
    omega
  have pressed : ¬0x80 &&& key ≠ 0 := not_not.mpr make
  rw [consoleCall_character reading character, data, Editor.characterEcho, mirrors.ctrl]
  by_cases held : e.ctrl = true
  · simp only [if_pos held]
    split <;> rfl
  simp only [if_neg held, pressed, false_or]
  by_cases void : e.translate key = 0
  · simp only [if_pos void, Option.toList]
  simp only [if_neg void]
  by_cases back : e.translate key = backspace
  · simp only [if_pos back, empty]
    split <;> rfl
  simp only [if_neg back]
  -- One side asks for room, the other for its absence.
  have refused : e.translate key ≠ newline ∧ t.linePos ≥ 10 ↔
      ¬(e.translate key = newline ∨ e.line.length < 10) := by
    rw [not_or]
    exact and_congr_right fun _ => by omega
  simp only [refused, ite_not]
  split <;> rfl

/-- A key behind the switch that is not pressed is released. -/
theorem isRelease_of_bit (character : key ∉ switchCodes) (bit : ¬0x80 &&& key = 0) : IsRelease key := by
  rw [release_bit, not_lt] at bit
  simp only [switchCodes, List.mem_cons, List.not_mem_nil, or_false, not_or] at character
  exact ⟨bit, by simp [character]⟩

theorem IsRelease.not_editCode (release : IsRelease key) : ¬EditCode key := by
  rw [EditCode, not_or, UInt8.not_lt]
  exact release

/-- The handler shows what the editor shows. -/
theorem Mirrors.echo (mirrors : t.Mirrors e) (understood : Understood beyond key) :
    (consoleCall beyond key t).toList = e.echo key := by
  cases reading : t.reading with
  | false =>
    have finished : e.finished = true := by
      rw [mirrors.reading] at reading
      simpa using reading
    simp [consoleCall, Editor.echo, reading, finished]
  | true =>
    have unfinished := mirrors.unfinished reading
    by_cases character : key ∉ switchCodes
    · by_cases make : 0x80 &&& key = 0
      · rw [mirrors.characterEcho reading character make, echo_character character unfinished]
      · have release := isRelease_of_bit character make
        have harmless := understood.resolve_left release.not_editCode
        rw [consoleCall_character reading character, (press_release release e).2, kbdData_release release]
        simp [harmless, make]
    · simp only [switchCodes, List.mem_cons, List.not_mem_nil, or_false, not_not] at character
      rcases character with rfl | rfl | rfl | rfl | rfl | rfl | rfl | rfl | rfl | rfl | rfl | rfl | rfl <;>
        simp [consoleCall, Editor.echo, reading, unfinished]

/-! ## A handler that listens -/

/-- The terminal at the beginning of a read. -/
def attentive (t : Terminal) : Terminal := { t with reading := true, enterPressed := false }

theorem attentive_eq (reading : t.reading = true) : t.attentive = { t with enterPressed := false } := by
  rw [attentive, ← reading]

theorem Mirrors.rearmed (mirrors : t.Mirrors e) : t.attentive.Mirrors e.rearmed :=
  ⟨⟨mirrors.sound.nonneg, mirrors.sound.room, mirrors.sound.noNewline⟩, mirrors.line, mirrors.shift,
    mirrors.capsLock, mirrors.ctrl, rfl, rfl, fun done => nomatch done⟩

/-- `line_pos = 0` -/
theorem Mirrors.reset (mirrors : t.attentive.Mirrors e) :
    (attentive { t with linePos := 0 }).Mirrors { e with line := [] } :=
  mirrors.clear (mirrors.unfinished rfl) t.console
    ⟨le_refl _, by simp, fun _ low high => absurd high (not_lt.mpr low)⟩

theorem characterKey_enterPressed (refused : t.ctrl = false → key ≠ enterKey) (pressed : Bool) :
    characterKey beyond key { t with enterPressed := pressed } =
      { characterKey beyond key t with enterPressed := pressed } := by
  have same : kbdData beyond key { t with enterPressed := pressed } = kbdData beyond key t := rfl
  simp only [characterKey, same]
  split_ifs with held clears bit void back empty enter room
  all_goals first | rfl | skip
  -- The branch of Enter sets the flag.
  obtain ⟨isEnter, _⟩ := kbdData_make beyond t (not_not.mp bit)
  exact absurd (isEnter.mp enter) (refused (Bool.not_eq_true _ ▸ held))

/-- Only an Enter that is accepted concerns `enter_pressed`. -/
theorem keyboardInput_enterPressed (reading : t.reading = true) (refused : ¬AcceptsEnter key t) (pressed : Bool) :
    keyboardInput beyond key { t with enterPressed := pressed } =
      { keyboardInput beyond key t with enterPressed := pressed } := by
  by_cases character : key ∉ switchCodes
  · have listens : ({ t with enterPressed := pressed } : Terminal).reading = true := reading
    rw [keyboardInput_character beyond reading character, keyboardInput_character beyond listens character]
    exact characterKey_enterPressed (fun free enter => refused ⟨enter, reading, free⟩) pressed
  · simp only [switchCodes, List.mem_cons, List.not_mem_nil, or_false, not_not] at character
    rcases character with rfl | rfl | rfl | rfl | rfl | rfl | rfl | rfl | rfl | rfl | rfl | rfl | rfl <;>
      simp [keyboardInput, reading]

/-- A scancode in front of the wait loop, other than an Enter. -/
theorem Mirrors.early (mirrors : t.attentive.Mirrors e) (reading : t.reading = true)
    (understood : Understood beyond key) (refused : ¬AcceptsEnter key t) :
    (keyboardInput beyond key t).reading = true ∧ (keyboardInput beyond key t).attentive.Mirrors (e.press key) ∧
      (consoleCall beyond key t).toList = e.echo key := by
  have still : (keyboardInput beyond key t).reading = true := by
    rcases keyboardInput_flags beyond key t with ⟨accepts, _⟩ | ⟨_, same, _⟩
    · exact absurd accepts refused
    · exact same.trans reading
  have next := mirrors.heard understood
  have shown := mirrors.echo understood
  rw [attentive_eq reading] at next shown
  rw [keyboardInput_enterPressed reading refused] at next
  rw [attentive_eq still]
  exact ⟨still, next, shown⟩

end Terminal

namespace KernelLoop

open Terminal Session

variable {cnt : Int} {k : KernelLoop} {e : Editor}

/-! ## Rounds -/

/-- The scancodes that a read takes before `line_pos = 0`, and those behind it. -/
structure Round where
  early : List UInt8
  keys : List UInt8

namespace Round

variable (r : Round)

def codes : List UInt8 := r.early ++ r.keys

/-- The editor when the line begins. The early scancodes have edited the line of the read before. -/
def begun (e : Editor) : Editor := { run Editor.press r.early e.rearmed with line := [] }

def edited (e : Editor) : Editor := run Editor.press r.keys (r.begun e)

/-- The prompt and the echo. -/
def dialogue (e : Editor) : List Console.Op :=
  readingPrompt.map .putc ++ Editor.echoes r.early e.rearmed ++ Editor.echoes r.keys (r.begun e)

/-- All that a round prints. -/
def transcript (e : Editor) : List Console.Op :=
  r.dialogue e ++ typedLabel.map .putc ++ (r.edited e).line.map .putc ++ [.putc newline]

/-- The last scancode finishes the line. -/
def Complete (e : Editor) : Prop :=
  ∃ codes last, r.keys = codes ++ [last] ∧ (run Editor.press codes (r.begun e)).finished = false ∧
    (r.edited e).finished = true

theorem edited_nonzero (e : Editor) : ∀ c ∈ (r.edited e).line, c ≠ 0 :=
  run_invariant (fun e : Editor => ∀ c ∈ e.line, c ≠ 0) Editor.press_nonzero r.keys
    (fun _ member => absurd member List.not_mem_nil)

end Round

/-! ## What an event shows and what it says -/

/-- The scancodes that the handler does not discard. -/
def heard : LoopEvent → KernelLoop → List UInt8
  | .key _ code, k => if k.session.terminal.reading then [code] else []
  | .step, _ => []

def printed : Event → Option Console.Op
  | .print c => some (.putc c)
  | _ => none

/-- The console calls of an event. -/
def calls (cnt : Int) : LoopEvent → KernelLoop → List Console.Op
  | .key beyond code, k => (consoleCall beyond code k.session.terminal).toList
  | .step, k => (events cnt .step k).filterMap printed

/-- The scancode is understood, and it is not an Enter in front of the wait loop. -/
def Undisturbed : LoopEvent → KernelLoop → Prop
  | .key beyond code, k => Understood beyond code ∧ ¬GapEnter (.key beyond code) k.session
  | .step, _ => True

instance : (f : LoopEvent) → (k : KernelLoop) → Decidable (Undisturbed f k)
  | .key _ _, _ => inferInstanceAs (Decidable (_ ∧ _))
  | .step, _ => inferInstanceAs (Decidable True)

/-- The loop between two reads. -/
structure Resting (k : KernelLoop) (e : Editor) : Prop where
  outside : k.session.pc = .outside
  idle : k.session.terminal.reading = false
  mirrors : k.session.terminal.attentive.Mirrors e.rearmed

/-- The array holds the string. -/
def Stored (buf : Int → UInt8) (line : List UInt8) : Prop := ∀ i : Nat, i ≤ line.length → buf i = line.getD i 0

/-- The loop at a place of a round that began with `e`: the scancodes it has taken, and what it has printed. -/
inductive InRound (cnt : Int) (k : KernelLoop) (e : Editor) : Round → List Console.Op → Prop
  | prompting {said rest : List UInt8} (point : k.point = .prompt rest) (resting : k.Resting e)
      (split : said ++ rest = readingPrompt) : InRound cnt k e ⟨[], []⟩ (said.map .putc)
  | calling (point : k.point = .read) (resting : k.Resting e) :
      InRound cnt k e ⟨[], []⟩ (Round.dialogue ⟨[], []⟩ e)
  | arming (point : k.point = .reading) (pc : k.session.pc = .setReading) (cnt_eq : k.session.cnt = cnt)
      (idle : k.session.terminal.reading = false) (mirrors : k.session.terminal.attentive.Mirrors e.rearmed) :
      InRound cnt k e ⟨[], []⟩ (Round.dialogue ⟨[], []⟩ e)
  | early {codes : List UInt8} (point : k.point = .reading) (pc : k.session.pc = .setLinePos)
      (cnt_eq : k.session.cnt = cnt) (reading : k.session.terminal.reading = true)
      (mirrors : k.session.terminal.attentive.Mirrors (run Editor.press codes e.rearmed)) :
      InRound cnt k e ⟨codes, []⟩ (Round.dialogue ⟨codes, []⟩ e)
  | late {r : Round} (point : k.point = .reading) (pc : k.session.pc = .clearEnter)
      (cnt_eq : k.session.cnt = cnt) (reading : k.session.terminal.reading = true)
      (mirrors : k.session.terminal.attentive.Mirrors (r.edited e)) : InRound cnt k e r (r.dialogue e)
  | waiting {r : Round} (point : k.point = .reading) (pc : k.session.pc = .wait)
      (cnt_eq : k.session.cnt = cnt) (unfinished : (r.edited e).finished = false)
      (mirrors : k.session.terminal.Mirrors (r.edited e)) : InRound cnt k e r (r.dialogue e)
  | copying {r : Round} (point : k.point = .reading) (inside : k.session.pc ≠ .outside) (complete : r.Complete e)
      (mirrors : k.session.terminal.Mirrors (r.edited e)) (serving : k.session.Serving (r.edited e).line cnt) :
      InRound cnt k e r (r.dialogue e)
  | terminating {r : Round} (point : k.point = .terminate) (complete : r.Complete e)
      (resting : k.Resting (r.edited e)) (count : k.session.rtnCnt = (r.edited e).line.length)
      (copied : ∀ i : Nat, i < (r.edited e).line.length → k.buf i = (r.edited e).line.getD i 0) :
      InRound cnt k e r (r.dialogue e)
  | labelling {r : Round} {said rest : List UInt8} (point : k.point = .label rest) (complete : r.Complete e)
      (resting : k.Resting (r.edited e)) (stored : Stored k.buf (r.edited e).line)
      (split : said ++ rest = typedLabel) : InRound cnt k e r (r.dialogue e ++ said.map .putc)
  | echoing {r : Round} {said rest : List UInt8} (point : k.point = .echo said.length) (complete : r.Complete e)
      (resting : k.Resting (r.edited e)) (stored : Stored k.buf (r.edited e).line)
      (split : said ++ rest = (r.edited e).line) :
      InRound cnt k e r (r.dialogue e ++ typedLabel.map .putc ++ said.map .putc)
  | closing {r : Round} (point : k.point = .endLine) (complete : r.Complete e) (resting : k.Resting (r.edited e)) :
      InRound cnt k e r (r.dialogue e ++ typedLabel.map .putc ++ (r.edited e).line.map .putc)

/-! ## One event -/

theorem Resting.key (resting : k.Resting e) (beyond : UInt8 → UInt8) (code : UInt8) :
    exec cnt (.key beyond code) k = k ∧ heard (.key beyond code) k = [] ∧ calls cnt (.key beyond code) k = [] := by
  refine ⟨?_, ?_, ?_⟩
  · rw [exec, Session.key, keyboardInput_idle resting.idle]
  · simp [heard, resting.idle]
  · simp [calls, consoleCall, resting.idle]

/-- A character of the loop's own. -/
theorem Resting.print (resting : k.Resting e) (c : UInt8) (point : LoopPoint) (buf : Int → UInt8) :
    Resting ⟨k.session.print c, point, buf⟩ e := by
  rw [Session.print, if_pos resting.outside]
  exact ⟨resting.outside, resting.idle, resting.mirrors.view _⟩

theorem Resting.elsewhere (resting : k.Resting e) (point : LoopPoint) (buf : Int → UInt8) :
    Resting ⟨k.session, point, buf⟩ e := ⟨resting.outside, resting.idle, resting.mirrors⟩

theorem Round.codes_snoc (r : Round) (code : UInt8) : Round.codes ⟨r.early, r.keys ++ [code]⟩ = r.codes ++ [code] := by
  rw [codes, codes, List.append_assoc]

theorem Round.dialogue_early (codes : List UInt8) (code : UInt8) (e : Editor) :
    Round.dialogue ⟨codes ++ [code], []⟩ e =
      Round.dialogue ⟨codes, []⟩ e ++ (run Editor.press codes e.rearmed).echo code := by
  simp only [dialogue, Editor.echoes_snoc, Editor.echoes_nil, List.append_nil, List.append_assoc]

theorem Round.dialogue_snoc (r : Round) (code : UInt8) (e : Editor) :
    Round.dialogue ⟨r.early, r.keys ++ [code]⟩ e = r.dialogue e ++ (r.edited e).echo code := by
  simp only [dialogue, Editor.echoes_snoc, ← List.append_assoc]
  rfl

theorem Round.edited_snoc (r : Round) (code : UInt8) (e : Editor) :
    Round.edited ⟨r.early, r.keys ++ [code]⟩ e = (r.edited e).press code := by
  rw [edited, run_append]
  rfl

/-- A scancode lengthens the round, if it is heard at all. -/
theorem InRound.key {r : Round} {out : List Console.Op} (inRound : InRound cnt k e r out) {beyond : UInt8 → UInt8}
    {code : UInt8} (undisturbed : Undisturbed (.key beyond code) k) :
    ∃ r', InRound cnt (exec cnt (.key beyond code) k) e r' (out ++ calls cnt (.key beyond code) k) ∧
      r'.codes = r.codes ++ heard (.key beyond code) k := by
  obtain ⟨understood, noGap⟩ := undisturbed
  have unheard (idle : k.session.terminal.reading = false) :
      ∃ r', InRound cnt (exec cnt (.key beyond code) k) e r' (out ++ calls cnt (.key beyond code) k) ∧
        r'.codes = r.codes ++ heard (.key beyond code) k := by
    refine ⟨r, ?_, ?_⟩
    · rw [exec, Session.key, keyboardInput_idle idle]
      simpa [calls, consoleCall, idle] using inRound
    · simp [heard, idle]
  cases inRound with
  | prompting _ resting | calling _ resting | terminating _ _ resting | labelling _ _ resting | echoing _ _ resting
  | closing _ _ resting => exact unheard resting.idle
  | arming _ _ _ idle => exact unheard idle
  | copying _ _ _ _ serving => exact unheard serving.idle
  -- Before `line_pos = 0` the scancode edits the old line, behind it the new one.
  | @early codes point pc cnt_eq reading mirrors =>
    obtain ⟨still, next, shown⟩ := mirrors.early reading understood fun accepts => noGap ⟨.inl pc, accepts⟩
    refine ⟨⟨codes ++ [code], []⟩, ?_, ?_⟩
    · rw [calls, shown, ← Round.dialogue_early]
      refine .early point pc cnt_eq still ?_
      rw [run_append]
      exact next
    · simp [heard, reading, Round.codes]
  | late point pc cnt_eq reading mirrors =>
    obtain ⟨still, next, shown⟩ := mirrors.early reading understood fun accepts => noGap ⟨.inr pc, accepts⟩
    refine ⟨⟨r.early, r.keys ++ [code]⟩, ?_, ?_⟩
    · rw [calls, shown, ← Round.dialogue_snoc]
      refine .late point pc cnt_eq still ?_
      rw [Round.edited_snoc]
      exact next
    · rw [heard, if_pos reading, Round.codes_snoc]
  | waiting point pc cnt_eq unfinished mirrors =>
    have next := mirrors.heard understood
    have reading : k.session.terminal.reading = true := by rw [mirrors.reading, unfinished]; rfl
    refine ⟨⟨r.early, r.keys ++ [code]⟩, ?_, ?_⟩
    · rw [calls, mirrors.echo understood, ← Round.dialogue_snoc]
      rw [← Round.edited_snoc] at next
      cases finished : (Round.edited ⟨r.early, r.keys ++ [code]⟩ e).finished with
      | false => exact .waiting point pc cnt_eq finished next
      | true =>
        have inside : (exec cnt (.key beyond code) k).session.pc ≠ .outside := by
          change k.session.pc ≠ .outside
          simp [pc]
        exact .copying point inside ⟨r.keys, code, rfl, unfinished, finished⟩ next
          (serving_of_mirrors pc cnt_eq next finished)
    · rw [heard, if_pos reading, Round.codes_snoc]

/-- A step of the loop that prints a character. -/
theorem step_prints {c : UInt8} (shown : events cnt .step k = [.print c]) :
    exec cnt .step k = ⟨k.session.print c, k.nextPoint (k.session.print c), k.nextBuf (k.session.print c)⟩ ∧
      calls cnt .step k = [.putc c] := by
  constructor
  · rw [exec, shown]
    rfl
  · rw [calls, shown]
    rfl

/-- A step of the loop that is none of the session. -/
theorem step_silent (shown : events cnt .step k = []) :
    exec cnt .step k = ⟨k.session, k.nextPoint k.session, k.nextBuf k.session⟩ ∧ calls cnt .step k = [] := by
  constructor
  · rw [exec, shown]
    rfl
  · rw [calls, shown]
    rfl

/-- A statement of `terminal_read`. -/
theorem step_reads (point : k.point = .reading) :
    exec cnt .step k = ⟨k.session.advance,
      if k.session.advance.pc = .outside then .terminate else .reading, k.session.advance.buf⟩ ∧
      calls cnt .step k = [] := by
  constructor
  · simp [exec, events, nextPoint, nextBuf, point, Session.exec]
  · simp [calls, events, point, printed]

theorem Round.edited_short {r : Round} {t : Terminal} (mirrors : t.Mirrors (r.edited e)) (enough : 10 ≤ cnt) :
    (r.edited e).line.take cnt.toNat = (r.edited e).line := by
  apply List.take_of_length_le
  have length := mirrors.length
  have room := mirrors.sound.room
  omega

/-- The line has been copied out. -/
theorem InRound.returned {r : Round} (complete : r.Complete e) (enough : 10 ≤ cnt) {session : Session}
    (outside : session.pc = .outside) (mirrors : session.terminal.Mirrors (r.edited e))
    (serving : session.Serving (r.edited e).line cnt) :
    InRound cnt ⟨session, .terminate, session.buf⟩ e r (r.dialogue e) := by
  obtain ⟨delivered, count⟩ := serving.returned outside
  rw [Round.edited_short mirrors enough] at delivered
  refine .terminating rfl complete ⟨outside, serving.idle, mirrors.rearmed⟩ ?_ fun i inside => ?_
  · rw [count, delivered]
  · have member : session.delivered[i]? = some (session.buf i) := by
      rw [Session.delivered, List.getElem?_map, List.getElem?_range (by rw [count, delivered]; omega)]
      rfl
    rw [delivered] at member
    rw [List.getD_eq_getElem?_getD, member, Option.getD_some]

/-- The statements of `terminal_read`. -/
theorem InRound.step_reading {r : Round} {out : List Console.Op} (inRound : InRound cnt k e r out)
    (enough : 10 ≤ cnt) (point : k.point = .reading) :
    InRound cnt (exec cnt .step k) e r (out ++ calls cnt .step k) := by
  obtain ⟨next, quiet⟩ := @step_reads cnt k point
  rw [next, quiet, List.append_nil]
  cases inRound with
  | arming _ pc cnt_eq idle mirrors =>
    have statement : k.session.advance =
        { k.session with terminal := { k.session.terminal with reading := true }, pc := .setLinePos } := by
      simp [advance, pc]
    rw [statement]
    exact .early rfl rfl cnt_eq rfl mirrors
  | early _ pc cnt_eq reading mirrors =>
    have statement : k.session.advance =
        { k.session with terminal := { k.session.terminal with linePos := 0 }, pc := .clearEnter } := by
      simp [advance, pc]
    rw [statement]
    exact .late rfl rfl cnt_eq reading mirrors.reset
  | late _ pc cnt_eq reading mirrors =>
    have statement : k.session.advance =
        { k.session with terminal := { k.session.terminal with enterPressed := false }, pc := .wait } := by
      simp [advance, pc]
    rw [statement]
    exact .waiting rfl rfl cnt_eq (mirrors.unfinished rfl) (attentive_eq reading ▸ mirrors)
  | waiting _ pc cnt_eq unfinished mirrors =>
    have statement : k.session.advance = k.session := by
      simp [advance, pc, mirrors.enter, unfinished]
    rw [statement, if_neg (by simp [pc])]
    exact .waiting rfl pc cnt_eq unfinished mirrors
  | copying _ inside complete mirrors serving =>
    have mirrors' := mirrors
    rw [← advance_terminal (serving.finishing inside)] at mirrors'
    split
    next outside => exact returned complete enough outside mirrors' serving.advance
    next inside' => exact .copying rfl inside' complete mirrors' serving.advance
  | prompting place | calling place | terminating place | labelling place | echoing place | closing place =>
    rw [place] at point
    cases point

/-- `buf[cnt] = '\0'` -/
theorem stored_of_copied {buf : Int → UInt8} {line : List UInt8}
    (copied : ∀ i : Nat, i < line.length → buf i = line.getD i 0) :
    Stored (Function.update buf line.length 0) line := by
  intro i inside
  rcases Nat.lt_or_eq_of_le inside with before | rfl
  · rw [Function.update_of_ne (by omega)]
    exact copied i before
  · rw [Function.update_self, List.getD_eq_getElem?_getD, List.getElem?_eq_none (le_refl _), Option.getD_none]

section Outside

variable {r : Round} {said rest : List UInt8}

theorem Resting.step_prompt (resting : k.Resting e) (point : k.point = .prompt rest)
    (split : said ++ rest = readingPrompt) :
    InRound cnt (exec cnt .step k) e ⟨[], []⟩ (said.map .putc ++ calls cnt .step k) := by
  cases rest with
  | nil =>
    obtain ⟨next, quiet⟩ := @step_silent cnt k (by rw [events, point])
    rw [List.append_nil] at split
    rw [next, quiet, split, nextPoint, point, List.append_nil]
    have whole : readingPrompt.map .putc = Round.dialogue ⟨[], []⟩ e := by
      simp [Round.dialogue, Editor.echoes_nil]
    rw [whole]
    exact .calling rfl (resting.elsewhere _ _)
  | cons c rest =>
    obtain ⟨next, shown⟩ := @step_prints cnt k c (by rw [events, point])
    rw [next, shown, nextPoint, point]
    have more : said.map Console.Op.putc ++ [.putc c] = (said ++ [c]).map .putc := by simp
    rw [more]
    exact .prompting rfl (resting.print c _ _) (by simpa using split)

/-- The call of `terminal_read`, up to its first statement. -/
theorem Resting.step_read (resting : k.Resting e) (point : k.point = .read) :
    InRound cnt (exec cnt .step k) e ⟨[], []⟩ (Round.dialogue ⟨[], []⟩ e ++ calls cnt .step k) := by
  have next : exec cnt .step k = ⟨{ k.session with pc := .setReading, cnt := cnt, buf := k.buf }, .reading, k.buf⟩ := by
    simp [exec, events, nextPoint, nextBuf, point, Session.exec, Session.call, resting.outside]
  have quiet : calls cnt .step k = [] := by simp [calls, events, point, printed]
  rw [next, quiet, List.append_nil]
  exact .arming rfl rfl rfl resting.idle resting.mirrors

/-- The NUL behind the line that was read. -/
theorem Resting.step_terminate (resting : k.Resting (r.edited e)) (point : k.point = .terminate)
    (complete : r.Complete e) (count : k.session.rtnCnt = (r.edited e).line.length)
    (copied : ∀ i : Nat, i < (r.edited e).line.length → k.buf i = (r.edited e).line.getD i 0) :
    InRound cnt (exec cnt .step k) e r (r.dialogue e ++ calls cnt .step k) := by
  obtain ⟨next, quiet⟩ := @step_silent cnt k (by rw [events, point])
  rw [next, quiet, nextPoint, nextBuf, point, List.append_nil]
  have nothing : r.dialogue e = r.dialogue e ++ ([] : List UInt8).map .putc := by simp
  rw [nothing]
  exact .labelling rfl complete (resting.elsewhere _ _) (count ▸ stored_of_copied copied) (List.nil_append _)

theorem Resting.step_label (resting : k.Resting (r.edited e)) (point : k.point = .label rest)
    (complete : r.Complete e) (stored : Stored k.buf (r.edited e).line) (split : said ++ rest = typedLabel) :
    InRound cnt (exec cnt .step k) e r (r.dialogue e ++ said.map .putc ++ calls cnt .step k) := by
  cases rest with
  | nil =>
    obtain ⟨next, quiet⟩ := @step_silent cnt k (by rw [events, point])
    rw [List.append_nil] at split
    rw [next, quiet, split, nextPoint, nextBuf, point, List.append_nil]
    have nothing : r.dialogue e ++ typedLabel.map .putc =
        r.dialogue e ++ typedLabel.map .putc ++ ([] : List UInt8).map .putc := by simp
    rw [nothing]
    exact .echoing rfl complete (resting.elsewhere _ _) stored (List.nil_append _)
  | cons c rest =>
    obtain ⟨next, shown⟩ := @step_prints cnt k c (by rw [events, point])
    rw [next, shown, nextPoint, nextBuf, point]
    have more : r.dialogue e ++ said.map .putc ++ [.putc c] = r.dialogue e ++ (said ++ [c]).map .putc := by simp
    rw [more]
    exact .labelling rfl complete (resting.print c _ _) stored (by simpa using split)

theorem Resting.step_echo (resting : k.Resting (r.edited e)) (point : k.point = .echo said.length)
    (complete : r.Complete e) (stored : Stored k.buf (r.edited e).line) (split : said ++ rest = (r.edited e).line) :
    InRound cnt (exec cnt .step k) e r
      (r.dialogue e ++ typedLabel.map .putc ++ said.map .putc ++ calls cnt .step k) := by
  have char : k.buf said.length = rest.headD 0 := by
    rw [stored said.length (by rw [← split, List.length_append]; omega), ← split]
    cases rest <;> simp
  cases rest with
  | nil =>
    have zero : k.buf said.length = 0 := char
    obtain ⟨next, quiet⟩ := @step_silent cnt k (by simp only [events, point, if_pos zero])
    rw [List.append_nil] at split
    rw [next, quiet, split, nextPoint, point, List.append_nil]
    simp only [if_pos zero]
    exact .closing rfl complete (resting.elsewhere _ _)
  | cons c rest =>
    -- A typed character is never a NUL, so `puts` gets to the end of the line.
    have nonzero : c ≠ 0 := r.edited_nonzero e c (by rw [← split]; simp)
    have other : ¬k.buf said.length = 0 := by
      rw [char]
      exact nonzero
    obtain ⟨next, shown⟩ := @step_prints cnt k c (by simp only [events, point, char, List.headD_cons, if_neg nonzero])
    rw [next, shown, nextPoint, nextBuf, point]
    simp only [if_neg other]
    have more : r.dialogue e ++ typedLabel.map .putc ++ said.map .putc ++ [.putc c] =
        r.dialogue e ++ typedLabel.map .putc ++ (said ++ [c]).map .putc := by simp
    have further : LoopPoint.echo (said.length + 1) = .echo (said ++ [c]).length := by simp
    rw [more, further]
    exact .echoing rfl complete (resting.print c _ _) stored (by simpa using split)

/-- The newline behind the line ends the round. -/
theorem Resting.step_endLine (resting : k.Resting (r.edited e)) (point : k.point = .endLine) :
    r.dialogue e ++ typedLabel.map .putc ++ (r.edited e).line.map .putc ++ calls cnt .step k = r.transcript e ∧
      InRound cnt (exec cnt .step k) (r.edited e) ⟨[], []⟩ [] := by
  obtain ⟨next, shown⟩ := @step_prints cnt k newline (by rw [events, point])
  rw [next, shown, nextPoint, nextBuf, point]
  exact ⟨rfl, .prompting rfl (resting.print newline _ _) (List.nil_append _)⟩

/-- The steps of the loop outside of `terminal_read`: the round goes on, or it ends and the next one begins. -/
theorem InRound.step_outside {out : List Console.Op} (inRound : InRound cnt k e r out)
    (point : k.point ≠ .reading) :
    InRound cnt (exec cnt .step k) e r (out ++ calls cnt .step k) ∨
    r.Complete e ∧ out ++ calls cnt .step k = r.transcript e ∧
      InRound cnt (exec cnt .step k) (r.edited e) ⟨[], []⟩ [] := by
  cases inRound with
  | prompting place resting split => exact .inl (resting.step_prompt place split)
  | calling place resting => exact .inl (resting.step_read place)
  | terminating place complete resting count copied =>
    exact .inl (resting.step_terminate place complete count copied)
  | labelling place complete resting stored split => exact .inl (resting.step_label place complete stored split)
  | echoing place complete resting stored split => exact .inl (resting.step_echo place complete stored split)
  | closing place complete resting => exact .inr ⟨complete, resting.step_endLine place⟩
  | arming place | early place | late place | waiting place | copying place => exact absurd place point

end Outside

/-! ## All events -/

/-- The output of the round under way is a beginning of its transcript. -/
theorem InRound.isPrefix {r : Round} {out : List Console.Op} (inRound : InRound cnt k e r out) :
    out <+: r.transcript e ∧ (k.point = .reading → out = r.dialogue e) := by
  have dialogue (rest : List Console.Op) (shorter : rest <+: r.dialogue e) : rest <+: r.transcript e := by
    rw [Round.transcript, List.append_assoc, List.append_assoc]
    exact shorter.trans (List.prefix_append _ _)
  cases inRound with
  | @prompting said rest place resting split =>
    refine ⟨dialogue _ ?_, fun reading => by rw [place] at reading; cases reading⟩
    rw [Round.dialogue, ← split, List.map_append, List.append_assoc, List.append_assoc]
    exact List.prefix_append _ _
  | calling | arming | early | late | waiting | copying | terminating =>
    exact ⟨dialogue _ (List.prefix_refl _), fun _ => rfl⟩
  | @labelling _ said rest place complete resting stored split =>
    refine ⟨⟨rest.map .putc ++ (r.edited e).line.map .putc ++ [.putc newline], ?_⟩,
      fun reading => by rw [place] at reading; cases reading⟩
    rw [Round.transcript, ← split]
    simp only [List.map_append, List.append_assoc]
  | @echoing _ said rest place complete resting stored split =>
    refine ⟨⟨rest.map .putc ++ [.putc newline], ?_⟩, fun reading => by rw [place] at reading; cases reading⟩
    rw [Round.transcript, ← split]
    simp only [List.map_append, List.append_assoc]
  | closing place => exact ⟨List.prefix_append _ _, fun reading => by rw [place] at reading; cases reading⟩

theorem InRound.outside {r : Round} {out : List Console.Op} (inRound : InRound cnt k e r out)
    (point : k.point ≠ .reading) : k.session.pc = .outside := by
  cases inRound with
  | prompting _ resting | calling _ resting | terminating _ _ resting | labelling _ _ resting | echoing _ _ resting
  | closing _ _ resting => exact resting.outside
  | arming place | early place | late place | waiting place | copying place => exact absurd place point

/-- The console is changed by the console calls and by nothing else. -/
theorem InRound.console {r : Round} {out : List Console.Op} (inRound : InRound cnt k e r out) (f : LoopEvent) :
    (exec cnt f k).session.terminal.console = run Console.exec (calls cnt f k) k.session.terminal.console := by
  cases f with
  | key beyond code => exact keyboardInput_console beyond code k.session.terminal
  | step =>
    by_cases point : k.point = .reading
    · obtain ⟨next, quiet⟩ := @step_reads cnt k point
      rw [next, quiet]
      rcases k.session.advance_terminal_cases with same | same | same | same <;> rw [same] <;> rfl
    · have outside := inRound.outside point
      have printing (c : UInt8) : (k.session.print c).terminal.console = k.session.terminal.console.putc c := by
        rw [Session.print, if_pos outside]
      rw [exec, calls]
      cases place : k.point with
      | reading => exact absurd place point
      | prompt rest | label rest =>
        cases rest with
        | nil => simp [events, place]
        | cons c rest => simpa [events, place, printed, Session.exec, Console.exec] using printing c
      | read =>
        simp only [events, place, run_cons, run_nil, Session.exec, Session.call, if_pos outside]
        rfl
      | terminate => simp [events, place]
      | echo index =>
        simp only [events, place]
        split
        · rfl
        · simpa [printed, Session.exec, Console.exec] using printing _
      | endLine => simpa [events, place, printed, Session.exec, Console.exec] using printing newline

/-- The conversation up to now: rounds that are over, and one under way. -/
def Converses (cnt : Int) (console : Console) (start : Editor) (shown : List Console.Op) (codes : List UInt8)
    (k : KernelLoop) : Prop :=
  k.session.terminal.console = run Console.exec shown console ∧
  ∃ rounds now out, Along Round.edited Round.Complete rounds start ∧
    InRound cnt k (run Round.edited rounds start) now out ∧
    shown = trace Round.edited Round.transcript rounds start ++ out ∧
    codes = rounds.flatMap Round.codes ++ now.codes

variable {console : Console} {start : Editor} {shown : List Console.Op} {codes : List UInt8}

theorem exec_converses (enough : 10 ≤ cnt) (f : LoopEvent) (undisturbed : Undisturbed f k)
    (converses : Converses cnt console start shown codes k) :
    Converses cnt console start (shown ++ calls cnt f k) (codes ++ heard f k) (exec cnt f k) := by
  obtain ⟨screen, rounds, now, out, complete, inRound, rfl, rfl⟩ := converses
  refine ⟨by rw [inRound.console f, screen, ← run_append], ?_⟩
  cases f with
  | key beyond code =>
    obtain ⟨now', inRound', longer⟩ := inRound.key undisturbed
    exact ⟨rounds, now', _, complete, inRound', List.append_assoc _ _ _, by rw [longer, List.append_assoc]⟩
  | step =>
    have same : now.codes ++ heard .step k = now.codes := List.append_nil _
    by_cases point : k.point = .reading
    · exact ⟨rounds, now, _, complete, inRound.step_reading enough point, List.append_assoc _ _ _,
        by rw [List.append_assoc, same]⟩
    · rcases inRound.step_outside point with goesOn | ⟨ended, whole, next⟩
      · exact ⟨rounds, now, _, complete, goesOn, List.append_assoc _ _ _, by rw [List.append_assoc, same]⟩
      · refine ⟨rounds ++ [now], ⟨[], []⟩, [], ?_, ?_, ?_, ?_⟩
        · rw [along_append]
          exact ⟨complete, ended, trivial⟩
        · rw [run_append]
          exact next
        · rw [trace_append, List.append_assoc, whole]
          simp [trace]
        · rw [List.append_assoc, same]
          simp [Round.codes]

theorem run_converses (enough : 10 ≤ cnt) (es : List LoopEvent) (undisturbed : Along (exec cnt) Undisturbed es k)
    (converses : Converses cnt console start shown codes k) :
    Converses cnt console start (shown ++ trace (exec cnt) (calls cnt) es k)
      (codes ++ trace (exec cnt) heard es k) (run (exec cnt) es k) := by
  induction es generalizing k shown codes with
  | nil => simpa [trace] using converses
  | cons f es ih =>
    have rest := ih undisturbed.2 (exec_converses enough f undisturbed.1 converses)
    rw [List.append_assoc, List.append_assoc] at rest
    exact rest

theorem entered_converses (t : Terminal) (stack : Int → UInt8) :
    Converses cnt t.console.screenInit (Editor.started t.terminalOpen) [] [] (entered t stack) := by
  refine ⟨rfl, [], ⟨[], []⟩, [], trivial, ?_, rfl, rfl⟩
  have resting : (entered t stack).Resting (Editor.started t.terminalOpen) :=
    ⟨rfl, rfl, ⟨⟨le_refl _, by simp [entered, opened, terminalOpen, attentive], fun _ low high => absurd high (not_lt.mpr low)⟩,
      rfl, rfl, rfl, rfl, rfl, rfl, fun done => nomatch done⟩⟩
  exact .prompting rfl resting (List.nil_append _)

/-- However the scancodes fall between the steps of the loop, it holds a conversation: every round that is over
has printed the prompt, the echo of the scancodes the handler has taken, and the line that the editor makes of
those behind `line_pos = 0`, and its last scancode finished that line. The round under way has printed a
beginning of that; while it reads, the prompt and the echo of all that was typed. -/
theorem kernel_converses (t : Terminal) (stack : Int → UInt8) (enough : 10 ≤ cnt) (es : List LoopEvent)
    (undisturbed : Along (exec cnt) Undisturbed es (entered t stack)) :
    let k := run (exec cnt) es (entered t stack)
    let shown := trace (exec cnt) (calls cnt) es (entered t stack)
    let start := Editor.started t.terminalOpen
    k.session.terminal.console = run Console.exec shown t.console.screenInit ∧
    ∃ (rounds : List Round) (now : Round) (out : List Console.Op), Along Round.edited Round.Complete rounds start ∧
      shown = trace Round.edited Round.transcript rounds start ++ out ∧
      trace (exec cnt) heard es (entered t stack) = rounds.flatMap Round.codes ++ now.codes ∧
      out <+: now.transcript (run Round.edited rounds start) ∧
      (k.point = .reading → out = now.dialogue (run Round.edited rounds start)) := by
  intro k shown start
  have converses := run_converses enough es undisturbed (entered_converses t stack)
  obtain ⟨screen, rounds, now, out, complete, inRound, split, taken⟩ := converses
  rw [List.nil_append] at screen split taken
  exact ⟨screen, rounds, now, out, complete, split, taken, inRound.isPrefix⟩

/-- A round with an `a`, which is released behind the prompt that follows it, and a `b` in the next. -/
def sampleRounds : List LoopEvent :=
  sampleLoop ++ List.replicate 27 .step ++ [.key (fun _ => 0) 0x9E] ++ List.replicate 5 .step ++ [.key (fun _ => 0) 0x30]

theorem kernel_converses_sample :
    let k := run (exec 1024) sampleRounds (entered powerOn fun _ => 0)
    k.point = .reading ∧ ∃ (rounds : List Round) (now : Round),
      trace (exec 1024) heard sampleRounds (entered powerOn fun _ => 0) = rounds.flatMap Round.codes ++ now.codes ∧
      trace (exec 1024) (calls 1024) sampleRounds (entered powerOn fun _ => 0) =
        trace Round.edited Round.transcript rounds (Editor.started powerOn.terminalOpen) ++
          now.dialogue (run Round.edited rounds (Editor.started powerOn.terminalOpen)) := by
  have place : (run (exec 1024) sampleRounds (entered powerOn fun _ => 0)).point = .reading := by decide
  obtain ⟨_, rounds, now, out, _, split, taken, _, whole⟩ := kernel_converses powerOn (fun _ => 0)
    (show (10 : Int) ≤ 1024 by decide) sampleRounds (by decide +kernel)
  exact ⟨place, rounds, now, taken, whole place ▸ split⟩

end KernelLoop

end Mp3Kernel
