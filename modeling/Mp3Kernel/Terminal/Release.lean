import Mp3Kernel.Terminal.Session

/-!
# Key releases

A release code is the code of the key with bit 7 set. The handler looks the code
up before it tests that bit, in tables of 128 entries, and with Ctrl held it acts
on what it found.
-/

namespace Mp3Kernel

open Library

namespace Terminal

variable {beyond : UInt8 → UInt8} {key : UInt8} {t : Terminal}

/-- A read of `shift_chars` or of `chars`. -/
structure TableRead where
  shifted : Bool
  index : Nat
  deriving DecidableEq, Repr

/-- The entries that `keyboard_input` reads: one, behind the switch. -/
def tableReads (key : UInt8) (t : Terminal) : List TableRead :=
  if t.reading = false ∨ key ∈ switchCodes then [] else [⟨t.shift || t.capsLock, key.toNat⟩]

/-- A release code that the switch does not handle. -/
def IsRelease (key : UInt8) : Prop := 0x80 ≤ key ∧ key ∉ [0x9D, 0xAA, 0xB6]

instance (key : UInt8) : Decidable (IsRelease key) := inferInstanceAs (Decidable (_ ∧ _))

/-- The handler stays inside its tables and changes nothing. -/
structure Inert (beyond : UInt8 → UInt8) (key : UInt8) (t : Terminal) : Prop where
  inside : ∀ r ∈ tableReads key t, r.index < 128
  unchanged : keyboardInput beyond key t = t

theorem IsRelease.not_switch (release : IsRelease key) : key ∉ switchCodes := by
  obtain ⟨high, other⟩ := release
  simp only [switchCodes, List.mem_cons, List.not_mem_nil, or_false, not_or] at other ⊢
  refine ⟨?_, other.1, ?_, ?_, ?_, ?_, ?_, ?_, other.2.1, ?_, other.2.2, ?_, ?_⟩ <;>
    · rintro rfl
      exact absurd high (by decide)

/-- A listening handler looks a release code up behind the end of a table. -/
theorem tableReads_release (release : IsRelease key) (reading : t.reading = true) :
    ⟨t.shift || t.capsLock, key.toNat⟩ ∈ tableReads key t ∧ 128 ≤ key.toNat := by
  constructor
  · simp [tableReads, reading, release.not_switch]
  · exact release.1

/-- Without Ctrl, or unless it found an `l`, the handler drops the code after all. -/
theorem release_dropped (release : IsRelease key)
    (harmless : t.ctrl = false ∨ kbdData beyond key t ≠ letterL) : keyboardInput beyond key t = t := by
  cases reading : t.reading with
  | false => simp [keyboardInput, reading]
  | true =>
    have bit : 0x80 &&& key ≠ 0 := by
      intro zero
      have low := (release_bit key).mp zero
      have high : 128 ≤ key.toNat := release.1
      omega
    rw [keyboardInput_character beyond reading release.not_switch, characterKey]
    cases ctrl : t.ctrl with
    | true =>
      have other := harmless.resolve_left (by simp [ctrl])
      simp [other]
    | false => simp [bit]

theorem inert_iff (release : IsRelease key) : Inert beyond key t ↔ t.reading = false := by
  constructor
  · intro inert
    by_contra listening
    obtain ⟨member, outside⟩ := tableReads_release release (Bool.not_eq_false _ ▸ listening)
    have small := inert.inside _ member
    simp only at small
    omega
  · intro idle
    constructor
    · simp [tableReads, idle]
    · simp [keyboardInput, idle]

end Terminal

namespace Session

open Terminal

/-- A condition on the release codes among the events. -/
def OnRelease (p : (UInt8 → UInt8) → UInt8 → Terminal → Prop) : Event → Session → Prop
  | .key beyond code, s => IsRelease code → p beyond code s.terminal
  | _, _ => True

/-- In every session the release codes are inert if and only if none of them arrives while a read
listens. One that does is still without effect unless Ctrl is held and an `l` lies behind the
table. -/
theorem releases_inert_iff (t : Terminal) (es : List Event) :
    (Along exec (OnRelease Inert) es (opened t) ↔
      Along exec (OnRelease fun _ _ t => t.reading = false) es (opened t)) ∧
    ∀ beyond code, IsRelease code →
      (Inert beyond code (run exec es (opened t)).terminal ↔
        (run exec es (opened t)).terminal.reading = false) ∧
      ((run exec es (opened t)).terminal.ctrl = false ∨
        kbdData beyond code (run exec es (opened t)).terminal ≠ letterL →
        keyboardInput beyond code (run exec es (opened t)).terminal =
          (run exec es (opened t)).terminal) := by
  constructor
  · apply along_congr (fun _ => True) es
    · intro e _ s _
      cases e with
      | key beyond code => exact forall_congr' fun release => inert_iff release
      | print c => exact Iff.rfl
      | call cnt buf => exact Iff.rfl
      | advance => exact Iff.rfl
    · exact fun _ _ _ _ _ => trivial
    · trivial
  · intro beyond code release
    exact ⟨inert_iff release, release_dropped release⟩

/-- A read in which `a` and then Ctrl were pressed. -/
def ctrlDown : List Event :=
  [.call 8 (fun _ => 0), .advance, .advance, .advance, .key (fun _ => 0) 0x1E, .key (fun _ => 0) 0x1D]

/-- The release of `a` reads entry 158 of `chars`, and when an `l` lies there the line is lost. -/
theorem release_not_inert :
    IsRelease 0x9E ∧ tableReads 0x9E (run exec ctrlDown (opened powerOn)).terminal = [⟨false, 158⟩] ∧
    ¬Inert (fun _ => letterL) 0x9E (run exec ctrlDown (opened powerOn)).terminal ∧
    (run exec ctrlDown (opened powerOn)).terminal.linePos = 1 ∧
    (keyboardInput (fun _ => letterL) 0x9E (run exec ctrlDown (opened powerOn)).terminal).linePos = 0 := by
  have reading : (run exec ctrlDown (opened powerOn)).terminal.reading = true := by decide
  refine ⟨by decide, by decide, fun inert => ?_, by decide, by decide⟩
  rw [inert_iff (by decide), reading] at inert
  cases inert

end Session

end Mp3Kernel
