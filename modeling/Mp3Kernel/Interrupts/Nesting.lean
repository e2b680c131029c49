import Mathlib.Tactic.IntervalCases
import Mp3Kernel.Interrupts.Basic

/-!
# What is in service

A line is in service exactly while its handler has yet to send the
end-of-interrupt for it, in whatever way the devices raise their lines and the
handlers interrupt each other. So no line stays blocked behind a handler that has
returned, and none is freed for a second handler too early.

A handler is interrupted only in front of its `cli` or behind its `sti`: what it
does in between is one step for everything else.
-/

namespace Mp3Kernel

open Library

namespace Interrupts

open Pics (masterPort slavePort)

variable {s : System} {f : Frame} {frames below : List Frame} {h : Handler} {st : Statement} {i : Nat}
  {idt : UInt8 → BitVec 64}

/-! ## Statements -/

/-- The end-of-interrupt for a line, at the command port of its controller. -/
def eoi (i : Nat) (port : UInt16) : Statement := .outb (0x60 ||| UInt8.ofNat i) port

theorem body_keyboard : Handler.keyboard.body = [.cli, .inb 0x60, eoi 1 masterPort, .keyboardInput, .sti] := by
  decide

theorem body_rtClock : Handler.rtClock.body =
    [.cli, .outb 0x8C 0x70, .inb 0x71, .rtcIntr, eoi 0 slavePort, eoi 2 masterPort, .sti] := by decide

theorem eoi_inj {j : Nat} {port port' : UInt16} (inside : i < 8) (inside' : j < 8) :
    eoi i port = eoi j port' ↔ i = j ∧ port = port' := by
  rw [eoi, eoi, Statement.outb.injEq]
  refine and_congr_left fun _ => ?_
  interval_cases i <;> interval_cases j <;> decide

theorem writeCommand_eoi (inside : i < 8) (l : Lines) :
    l.writeCommand (0x60 ||| UInt8.ofNat i) = { l with inService := Function.update l.inService i false } := by
  interval_cases i <;> rfl

theorem outb_master (inside : i < 8) (c : Controllers) : c.outb (0x60 ||| UInt8.ofNat i) masterPort =
    { c with master := { c.master with inService := Function.update c.master.inService i false } } := by
  rw [Controllers.outb, Pics.outb_eoi (.inl rfl) inside, if_pos rfl, if_neg (by decide), writeCommand_eoi inside]

theorem outb_slave (inside : i < 8) (c : Controllers) : c.outb (0x60 ||| UInt8.ofNat i) slavePort =
    { c with slave := { c.slave with inService := Function.update c.slave.inService i false } } := by
  rw [Controllers.outb, Pics.outb_eoi (.inr rfl) inside, if_neg (by decide), if_pos rfl, writeCommand_eoi inside]

/-- All that a statement of a handler can do to the controllers: it ends an interrupt, or nothing. -/
inductive Effect (st : Statement) (c : Controllers) : Controllers → Prop
  | master (i : Nat) (inside : i < 8) (write : st = eoi i masterPort) :
      Effect st c { c with master := { c.master with inService := Function.update c.master.inService i false } }
  | slave (i : Nat) (inside : i < 8) (write : st = eoi i slavePort) :
      Effect st c { c with slave := { c.slave with inService := Function.update c.slave.inService i false } }
  | none (other : ∀ i < 8, st ≠ eoi i masterPort ∧ st ≠ eoi i slavePort) : Effect st c c

theorem eoi_master_effect (inside : i < 8) (s : System) :
    Effect (eoi i masterPort) s.controllers (s.statement (eoi i masterPort)).controllers := by
  change Effect _ _ (s.controllers.outb _ _)
  rw [outb_master inside]
  exact .master i inside rfl

theorem eoi_slave_effect (inside : i < 8) (s : System) :
    Effect (eoi i slavePort) s.controllers (s.statement (eoi i slavePort)).controllers := by
  change Effect _ _ (s.controllers.outb _ _)
  rw [outb_slave inside]
  exact .slave i inside rfl

theorem statement_effect (member : st ∈ h.body) (s : System) :
    Effect st s.controllers (s.statement st).controllers := by
  cases h with
  | keyboard =>
    rw [body_keyboard] at member
    simp only [List.mem_cons, List.not_mem_nil, or_false] at member
    rcases member with rfl | rfl | rfl | rfl | rfl
    · exact .none fun _ _ => ⟨nofun, nofun⟩
    · exact .none fun _ _ => ⟨nofun, nofun⟩
    · exact eoi_master_effect (by decide) s
    · exact .none fun _ _ => ⟨nofun, nofun⟩
    · exact .none fun _ _ => ⟨nofun, nofun⟩
  | rtClock =>
    rw [body_rtClock] at member
    simp only [List.mem_cons, List.not_mem_nil, or_false] at member
    rcases member with rfl | rfl | rfl | rfl | rfl | rfl | rfl
    · exact .none fun _ _ => ⟨nofun, nofun⟩
    · -- The index of register C goes to the clock.
      have elsewhere : s.controllers.outb 0x8C 0x70 = s.controllers := rfl
      change Effect _ _ (s.controllers.outb 0x8C 0x70)
      rw [elsewhere]
      refine .none fun i _ => ⟨fun same => ?_, fun same => ?_⟩
      · exact absurd (Statement.outb.inj same).2 (by decide)
      · exact absurd (Statement.outb.inj same).2 (by decide)
    · exact .none fun _ _ => ⟨nofun, nofun⟩
    · exact .none fun _ _ => ⟨nofun, nofun⟩
    · exact eoi_slave_effect (by decide) s
    · exact eoi_master_effect (by decide) s
    · exact .none fun _ _ => ⟨nofun, nofun⟩

/-! ## What the handlers owe -/

/-- The handlers that have yet to execute a statement. -/
def owed (st : Statement) (frames : List Frame) : Nat := frames.countP fun f => decide (st ∈ f.rest)

theorem owed_cons (st : Statement) (f : Frame) (frames : List Frame) :
    owed st (f :: frames) = owed st frames + if st ∈ f.rest then 1 else 0 := by
  rw [owed, List.countP_cons]
  simp only [decide_eq_true_eq]
  rfl

/-- A line is in service exactly while one handler owes the end-of-interrupt for it. -/
def Accounted (port : UInt16) (l : Lines) (frames : List Frame) : Prop :=
  ∀ i < 8, owed (eoi i port) frames = if l.inService i then 1 else 0

/-- The controllers with the keyboard, the slave and the clock enabled. -/
def readyPics : Pics := ⟨0xff, 0xff, ⟨.mask, 0x20, 0x04, 0x01, 0xf9⟩, ⟨.mask, 0x28, 0x02, 0x01, 0xfe⟩⟩

theorem bootPics_eq (p : Pics) : System.bootPics p = readyPics := by
  rw [System.bootPics, Pics.i8259Init_eq]
  rfl

structure Sound (s : System) : Prop where
  pics : s.controllers.pics = readyPics
  noFault : s.fault = false
  master : Accounted masterPort s.controllers.master s.frames
  slave : Accounted slavePort s.controllers.slave s.frames
  begun : ∀ f ∈ s.frames, f.rest <:+ f.handler.body
  saved : ∀ f ∈ s.frames, f.flag = true
  -- Inside of `cli` and `sti` the flag is clear, so only the topmost handler is there.
  running : ∀ f ∈ s.frames.head?, f.rest = f.handler.body ∨ f.rest = [] ∨ s.flag = false
  idle : s.frames = [] → s.flag = true
  suspended : ∀ f ∈ s.frames.tail, f.rest = f.handler.body ∨ f.rest = []

theorem booted_sound (p : Pics) (requested requested' : Nat → Bool) : Sound (.booted p requested requested') where
  pics := bootPics_eq p
  noFault := rfl
  master := fun _ _ => rfl
  slave := fun _ _ => rfl
  begun := fun _ member => absurd member List.not_mem_nil
  saved := fun _ member => absurd member List.not_mem_nil
  running := by simp [System.booted]
  idle := fun _ => rfl
  suspended := fun _ member => absurd member List.not_mem_nil

/-! ## Taking an interrupt -/

theorem accepts_spec {l : Lines} {imr : UInt8} {line : Nat → Bool} (accepted : l.accepts imr line = some i) :
    i < 8 ∧ line i = true ∧ imr.toBitVec.getLsbD i = false ∧ ∀ j ≤ i, l.inService j = false := by
  have inside := List.mem_range.mp (List.mem_of_find?_eq_some accepted)
  have test := List.find?_some accepted
  simp only [Bool.and_eq_true, Bool.not_eq_true', List.all_eq_true, List.mem_range] at test
  exact ⟨inside, test.1.1, test.1.2, fun j below => test.2 j (by omega)⟩

theorem take_normal {mode : UInt8} (i : Nat) (l : Lines) (normal : mode = 0x01) :
    l.take mode i = ⟨Function.update l.requested i false, Function.update l.inService i true⟩ := by
  rw [normal]
  rfl

/-- What the controllers of the kernel can answer. -/
inductive Answer (c : Controllers) : UInt8 → Controllers → Prop
  | keyboard (requested : c.master.requested 1 = true) (free : c.master.inService 1 = false) :
      Answer c 0x21 { c with master := ⟨Function.update c.master.requested 1 false,
        Function.update c.master.inService 1 true⟩ }
  | rtClock (requested : c.slave.requested 0 = true) (free : c.master.inService 2 = false)
      (free' : c.slave.inService 0 = false) :
      Answer c 0x28 { c with
        master := ⟨Function.update c.master.requested 2 false, Function.update c.master.inService 2 true⟩
        slave := ⟨Function.update c.slave.requested 0 false, Function.update c.slave.inService 0 true⟩ }

theorem acknowledge_answer {c c' : Controllers} {v : UInt8} (ready : c.pics = readyPics)
    (acknowledged : c.acknowledge = some (v, c')) : Answer c v c' := by
  rw [Controllers.acknowledge] at acknowledged
  cases accepted : c.masterAccepts with
  | none => simp [accepted] at acknowledged
  | some i =>
    obtain ⟨inside, line, unmasked, free⟩ := accepts_spec accepted
    rw [ready] at unmasked
    -- The master has two lines enabled, and one of them is the slave.
    have enabled : i = 1 ∨ i = 2 := by
      interval_cases i <;> first | exact .inl rfl | exact .inr rfl | cases unmasked
    rcases enabled with rfl | rfl
    · have direct : c.cascaded 1 = false := by rw [Controllers.cascaded, ready]; rfl
      rw [Controllers.masterLine, direct] at line
      have vector : Controllers.vector c.pics.master 1 = 0x21 := by rw [ready]; rfl
      have normal : c.pics.master.mode = 0x01 := by rw [ready]; rfl
      simp only [accepted, direct, vector, take_normal 1 c.master normal] at acknowledged
      cases acknowledged
      exact .keyboard line (free 1 (Nat.le_refl 1))
    · have cascaded : c.cascaded 2 = true := by rw [Controllers.cascaded, ready]; rfl
      simp only [accepted, cascaded, if_true] at acknowledged
      cases accepted' : c.slaveAccepts with
      | none => simp [accepted'] at acknowledged
      | some j =>
        obtain ⟨inside', line', unmasked', free'⟩ := accepts_spec accepted'
        rw [ready] at unmasked'
        have first : j = 0 := by
          interval_cases j <;> first | rfl | cases unmasked'
        subst first
        have vector : Controllers.vector c.pics.slave 0 = 0x28 := by rw [ready]; rfl
        have normal : c.pics.master.mode = 0x01 := by rw [ready]; rfl
        have normal' : c.pics.slave.mode = 0x01 := by rw [ready]; rfl
        simp only [accepted', vector, take_normal 2 c.master normal, take_normal 0 c.slave normal'] at acknowledged
        cases acknowledged
        exact .rtClock line' (free 2 (Nat.le_refl 2)) (free' 0 (Nat.le_refl 0))

/-! ## One event -/

section Accounts

variable {port : UInt16} {l l' : Lines} {rest : List Statement} {flag : Bool}

/-- A handler that begins, with its line in service. -/
theorem Accounted.push (accounted : Accounted port l frames) {j : Nat} (owes : ∀ i < 8, eoi i port ∈ f.rest ↔ i = j)
    (free : l.inService j = false) (requested : Nat → Bool) :
    Accounted port ⟨requested, Function.update l.inService j true⟩ (f :: frames) := by
  intro i inside
  have before := accounted i inside
  rw [owed_cons, before]
  by_cases same : i = j
  · subst same
    simp [owes i inside, free]
  · simp [owes i inside, same]

/-- A handler that owes nothing here, at its beginning or at its end. -/
theorem accounted_cons_iff (owes : ∀ i < 8, eoi i port ∉ f.rest) :
    Accounted port l (f :: frames) ↔ Accounted port l frames := by
  have same (i : Nat) (inside : i < 8) : owed (eoi i port) (f :: frames) = owed (eoi i port) frames := by
    rw [owed_cons, if_neg (owes i inside), Nat.add_zero]
  exact forall₂_congr fun i inside => by rw [same i inside]

/-- A statement ends the interrupt that its handler no longer owes. -/
theorem Accounted.executed (accounted : Accounted port l (⟨h, st :: rest, flag⟩ :: frames)) (once : st ∉ rest)
    (ended : ∀ i < 8, l'.inService i = if st = eoi i port then false else l.inService i) :
    Accounted port l' (⟨h, rest, flag⟩ :: frames) := by
  intro i inside
  have before := accounted i inside
  rw [owed_cons] at before ⊢
  rw [ended i inside]
  by_cases own : st = eoi i port
  · subst own
    simp only [List.mem_cons_self, if_true] at before
    simp only [once, if_true, if_false]
    split at before <;> simp <;> omega
  · have other : eoi i port ∈ st :: rest ↔ eoi i port ∈ rest := by
      rw [List.mem_cons, or_iff_right (Ne.symm own)]
    simp only [other] at before
    rw [if_neg own]
    exact before

end Accounts

theorem body_nodup (h : Handler) : h.body.Nodup := by cases h <;> decide

theorem owes_master (h : Handler) (i : Nat) (inside : i < 8) :
    eoi i masterPort ∈ h.body ↔ i = (match h with | .keyboard => 1 | .rtClock => 2) := by
  cases h <;> interval_cases i <;> decide

theorem owes_slave (i : Nat) (inside : i < 8) :
    eoi i slavePort ∉ Handler.keyboard.body ∧ (eoi i slavePort ∈ Handler.rtClock.body ↔ i = 0) := by
  interval_cases i <;> decide

/-- What is in service behind a statement. -/
theorem Effect.ended {c c' : Controllers} (effect : Effect st c c') :
    c'.pics = c.pics ∧
    (∀ i < 8, c'.master.inService i = if st = eoi i masterPort then false else c.master.inService i) ∧
    ∀ i < 8, c'.slave.inService i = if st = eoi i slavePort then false else c.slave.inService i := by
  have ports : masterPort ≠ slavePort := by decide
  cases effect with
  | master j inside' write =>
    subst write
    refine ⟨rfl, fun i inside => ?_, fun i inside => ?_⟩
    · simp only [eoi_inj inside' inside, and_true, Function.update_apply, eq_comm]
    · rw [if_neg (fun same => ports ((eoi_inj inside' inside).mp same).2)]
  | slave j inside' write =>
    subst write
    refine ⟨rfl, fun i inside => ?_, fun i inside => ?_⟩
    · rw [if_neg (fun same => ports ((eoi_inj inside' inside).mp same).2.symm)]
    · simp only [eoi_inj inside' inside, and_true, Function.update_apply, eq_comm]
  | none other =>
    refine ⟨rfl, fun i inside => ?_, fun i inside => ?_⟩
    · rw [if_neg (other i inside).1]
    · rw [if_neg (other i inside).2]

/-- An interrupt is taken in front of a `cli` or behind a `sti`. -/
theorem Sound.interruptible (sound : Sound s) (flag : s.flag = true) :
    ∀ f ∈ s.frames, f.rest = f.handler.body ∨ f.rest = [] := by
  intro f member
  cases frames : s.frames with
  | nil => simp [frames] at member
  | cons top below =>
    rw [frames] at member
    rcases List.mem_cons.mp member with rfl | inside
    · have place := sound.running f (by simp [frames])
      simpa [flag] using place
    · exact sound.suspended f (by simpa [frames] using inside)

/-- A handler begins. -/
theorem Sound.push (sound : Sound s) (flag : s.flag = true) (flag' : Bool) {c : Controllers} (pics : c.pics = readyPics)
    (master : Accounted masterPort c.master (⟨h, h.body, s.flag⟩ :: s.frames))
    (slave : Accounted slavePort c.slave (⟨h, h.body, s.flag⟩ :: s.frames)) :
    Sound ⟨c, flag', ⟨h, h.body, s.flag⟩ :: s.frames, s.fault⟩ where
  pics := pics
  noFault := sound.noFault
  master := master
  slave := slave
  begun := List.forall_mem_cons.mpr ⟨List.suffix_refl _, sound.begun⟩
  saved := List.forall_mem_cons.mpr ⟨flag, sound.saved⟩
  running := by
    rintro f ⟨rfl⟩
    exact .inl rfl
  idle := nofun
  suspended := sound.interruptible flag

theorem interrupt_sound (sound : Sound s) : Sound (s.exec idt .interrupt) := by
  rw [System.exec]
  split
  next flag =>
    cases acknowledged : s.controllers.acknowledge with
    | none => exact sound
    | some answer =>
      obtain ⟨v, c⟩ := answer
      cases acknowledge_answer sound.pics acknowledged with
      | keyboard requested free =>
        refine sound.push flag _ sound.pics ?_ ?_
        · exact sound.master.push (owes_master .keyboard) free _
        · exact (accounted_cons_iff fun i inside => (owes_slave i inside).1).mpr sound.slave
      | rtClock requested free free' =>
        refine sound.push flag _ sound.pics ?_ ?_
        · exact sound.master.push (owes_master .rtClock) free _
        · exact sound.slave.push (fun i inside => (owes_slave i inside).2) free' _
  next => exact sound

theorem raise_sound (irq : Nat) (sound : Sound s) : Sound (s.exec idt (.raise irq)) := by
  have same : (s.controllers.raise irq).pics = s.controllers.pics ∧
      (s.controllers.raise irq).master.inService = s.controllers.master.inService ∧
      (s.controllers.raise irq).slave.inService = s.controllers.slave.inService := by
    rw [Controllers.raise]
    split <;> exact ⟨rfl, rfl, rfl⟩
  refine ⟨same.1.trans sound.pics, sound.noFault, fun i inside => ?_, fun i inside => ?_, sound.begun, sound.saved,
    sound.running, sound.idle, sound.suspended⟩
  · simp only [System.exec, same.2.1]
    exact sound.master i inside
  · simp only [System.exec, same.2.2]
    exact sound.slave i inside

theorem statement_frames (st : Statement) (s : System) : (s.statement st).frames = s.frames ∧
    (s.statement st).fault = s.fault := by cases st <;> exact ⟨rfl, rfl⟩

/-- A body begins with `cli`, and nothing is behind its `sti`. -/
theorem body_shape (h : Handler) : h.body.head? = some .cli ∧
    ∀ rest, .sti :: rest <:+ h.body → rest = [] := by
  have last : ∀ t ∈ h.body.tails, t.head? = some .sti → t.tail = [] := by cases h <;> decide
  refine ⟨by cases h <;> rfl, fun rest suffix => ?_⟩
  exact last (.sti :: rest) ((List.mem_tails _ _).mpr suffix) rfl

/-- Between its `cli` and its `sti` a handler keeps the flag clear. -/
theorem Sound.running_statement {rest : List Statement} {flag : Bool} (sound : Sound s)
    (frames : s.frames = ⟨h, st :: rest, flag⟩ :: below) (s' : System) (same : s'.flag = s.flag) :
    rest = h.body ∨ rest = [] ∨ (s'.statement st).flag = false := by
  have suffix : st :: rest <:+ h.body := sound.begun _ (by rw [frames]; exact List.mem_cons_self)
  obtain ⟨first, last⟩ := body_shape h
  by_cases opens : st = .cli
  · subst opens
    exact .inr (.inr rfl)
  by_cases closes : st = .sti
  · subst closes
    exact .inr (.inl (last rest suffix))
  have clear : s.flag = false := by
    rcases sound.running ⟨h, st :: rest, flag⟩ (by simp [frames]) with whole | nothing | clear
    · rw [← whole] at first
      exact absurd (Option.some.inj first) opens
    · cases nothing
    · exact clear
  refine .inr (.inr ?_)
  cases st with
  | cli => exact absurd rfl opens
  | sti => exact absurd rfl closes
  | inb | outb | keyboardInput | rtcIntr => exact same.trans clear

theorem step_sound (sound : Sound s) : Sound (s.exec idt .step) := by
  rw [System.exec]
  split
  next => exact sound
  next h flag below frames =>
    -- The handler is at its end, and `iret` restores the flag that the processor had saved.
    have restored : flag = true := sound.saved ⟨h, [], flag⟩ (by rw [frames]; exact List.mem_cons_self)
    have inside (f : Frame) (member : f ∈ below) : f.rest = f.handler.body ∨ f.rest = [] :=
      sound.suspended f (by simpa [frames] using member)
    obtain ⟨pics, noFault, master, slave, begun, saved, _, _, _⟩ := sound
    rw [frames] at master slave begun saved
    refine ⟨pics, noFault, (accounted_cons_iff fun _ _ => List.not_mem_nil).mp master,
      (accounted_cons_iff fun _ _ => List.not_mem_nil).mp slave, (List.forall_mem_cons.mp begun).2,
      (List.forall_mem_cons.mp saved).2, fun f top => ?_, fun _ => restored, fun f member => ?_⟩
    · rcases inside f (List.mem_of_mem_head? top) with whole | done
      · exact .inl whole
      · exact .inr (.inl done)
    · exact inside f (List.mem_of_mem_tail member)
  next h st rest flag below frames =>
    -- A statement of the handler on top; the one that ends the interrupt occurs once in its body.
    have suffix : st :: rest <:+ h.body := sound.begun _ (by rw [frames]; exact List.mem_cons_self)
    have once : st ∉ rest := (List.nodup_cons.mp ((body_nodup h).sublist suffix.sublist)).1
    obtain ⟨pics, master, slave⟩ := (statement_effect (suffix.subset List.mem_cons_self)
      { s with frames := ⟨h, rest, flag⟩ :: below }).ended
    obtain ⟨frames', fault'⟩ := statement_frames st { s with frames := ⟨h, rest, flag⟩ :: below }
    have running := sound.running_statement frames { s with frames := ⟨h, rest, flag⟩ :: below } rfl
    have accountedMaster := sound.master
    have accountedSlave := sound.slave
    have begun := sound.begun
    have saved := sound.saved
    have suspended := sound.suspended
    rw [frames] at accountedMaster accountedSlave begun saved suspended
    refine ⟨pics.trans sound.pics, fault'.trans sound.noFault, ?_, ?_, ?_, ?_, ?_, ?_, ?_⟩
    · rw [frames']
      exact accountedMaster.executed once master
    · rw [frames']
      exact accountedSlave.executed once slave
    · rw [frames']
      exact List.forall_mem_cons.mpr ⟨(List.suffix_cons st rest).trans suffix, (List.forall_mem_cons.mp begun).2⟩
    · rw [frames']
      exact List.forall_mem_cons.mpr (List.forall_mem_cons.mp saved)
    · rw [frames']
      rintro f ⟨rfl⟩
      exact running
    · rw [frames']
      exact nofun
    · rw [frames']
      exact suspended

theorem run_sound (idt : UInt8 → BitVec 64) (p : Pics) (requested requested' : Nat → Bool) (es : List Event) :
    Sound (run (System.exec idt) es (.booted p requested requested')) := by
  apply run_invariant Sound
  · intro e s sound
    cases e with
    | raise irq => exact raise_sound irq sound
    | interrupt => exact interrupt_sound sound
    | step => exact step_sound sound
  · exact booted_sound p requested requested'

/-! ## Requests -/

/-- The first line that is requested and enabled, when nothing is in service. -/
theorem accepts_idle {l : Lines} {imr : UInt8} {line : Nat → Bool} (free : ∀ i < 8, l.inService i = false) :
    l.accepts imr line = (List.range 8).find? fun i => line i && !imr.toBitVec.getLsbD i := by
  rw [Lines.accepts]
  apply List.find?_congr
  intro i member
  have inside := List.mem_range.mp member
  have below : (List.range (i + 1)).all (fun j => !l.inService j) = true := by
    rw [List.all_eq_true]
    intro j member'
    have := List.mem_range.mp member'
    rw [free j (by omega), Bool.not_false]
  rw [below, Bool.and_true]

theorem slaveAccepts_idle {c : Controllers} (ready : c.pics = readyPics) (free : ∀ i < 8, c.slave.inService i = false) :
    c.slaveAccepts = if c.slave.requested 0 then some 0 else none := by
  rw [Controllers.slaveAccepts, accepts_idle free, ready]
  split
  next requested =>
    rw [List.find?_range_eq_some]
    exact ⟨by rw [requested]; rfl, by decide, fun _ before => absurd before (Nat.not_lt_zero _)⟩
  next silent =>
    rw [List.find?_range_eq_none]
    intro i inside
    interval_cases i <;> simp [readyPics, silent]

theorem masterAccepts_idle {c : Controllers} (ready : c.pics = readyPics) (free : ∀ i < 8, c.master.inService i = false)
    (free' : ∀ i < 8, c.slave.inService i = false) :
    c.masterAccepts =
      if c.master.requested 1 then some 1 else if c.slave.requested 0 then some 2 else none := by
  have line : c.masterLine 1 = c.master.requested 1 := by
    rw [Controllers.masterLine, Controllers.cascaded, ready]
    rfl
  have line' : c.masterLine 2 = c.slave.requested 0 := by
    rw [Controllers.masterLine, Controllers.cascaded, slaveAccepts_idle ready free', ready]
    cases c.slave.requested 0 <;> rfl
  rw [Controllers.masterAccepts, accepts_idle free, ready]
  split
  next requested =>
    rw [List.find?_range_eq_some]
    refine ⟨by rw [line, requested]; rfl, by decide, fun j before => ?_⟩
    interval_cases j
    simp [readyPics]
  next silent =>
    split
    next requested =>
      rw [List.find?_range_eq_some]
      refine ⟨by rw [line', requested]; rfl, by decide, fun j before => ?_⟩
      interval_cases j <;> simp [readyPics, line, silent]
    next silent' =>
      rw [List.find?_range_eq_none]
      intro i inside
      interval_cases i <;> simp [readyPics, line, line', silent, silent']

theorem Accounted.idle {port : UInt16} {l : Lines} (accounted : Accounted port l []) :
    ∀ i < 8, l.inService i = false := by
  intro i inside
  have nothing := accounted i inside
  by_contra busy
  rw [if_pos (by simpa using busy)] at nothing
  cases nothing

/-- With no handler on the stack the most urgent request is answered. -/
theorem idle_answers (sound : Sound s) (idle : s.frames = []) :
    (s.exec idt .interrupt).frames.map Frame.handler =
      if s.controllers.master.requested 1 then [.keyboard]
      else if s.controllers.slave.requested 0 then [.rtClock] else [] := by
  have free := (idle ▸ sound.master).idle
  have free' := (idle ▸ sound.slave).idle
  have master := masterAccepts_idle sound.pics free free'
  have slave := slaveAccepts_idle sound.pics free'
  have direct : s.controllers.cascaded 1 = false := by rw [Controllers.cascaded, sound.pics]; rfl
  have cascaded : s.controllers.cascaded 2 = true := by rw [Controllers.cascaded, sound.pics]; rfl
  have vector : Controllers.vector s.controllers.pics.master 1 = 0x21 := by rw [sound.pics]; rfl
  have vector' : Controllers.vector s.controllers.pics.slave 0 = 0x28 := by rw [sound.pics]; rfl
  rw [System.exec, if_pos (sound.idle idle), Controllers.acknowledge, master, slave]
  cases requested : s.controllers.master.requested 1 with
  | true =>
    simp only [if_true, direct, Bool.false_eq_true, if_false, vector]
    simp [System.enter, dispatch, idle]
  | false =>
    cases requested' : s.controllers.slave.requested 0 with
    | true =>
      simp only [Bool.false_eq_true, if_false, if_true, cascaded, vector']
      simp [System.enter, dispatch, idle]
    | false =>
      simp only [Bool.false_eq_true, if_false]
      rw [idle]
      rfl

theorem Effect.requested {c c' : Controllers} (effect : Effect st c c') :
    c'.master.requested = c.master.requested ∧ c'.slave.requested = c.slave.requested := by
  cases effect <;> exact ⟨rfl, rfl⟩

theorem step_requested (sound : Sound s) :
    (s.exec idt .step).controllers.master.requested = s.controllers.master.requested ∧
    (s.exec idt .step).controllers.slave.requested = s.controllers.slave.requested := by
  rw [System.exec]
  split
  next => exact ⟨rfl, rfl⟩
  next => exact ⟨rfl, rfl⟩
  next h st rest flag below frames =>
    have suffix : st :: rest <:+ h.body := sound.begun _ (by rw [frames]; exact List.mem_cons_self)
    exact (statement_effect (suffix.subset List.mem_cons_self) { s with frames := ⟨h, rest, flag⟩ :: below }).requested

/-- A request stays until its handler begins. -/
theorem request_kept (sound : Sound s) (e : Event) :
    (s.controllers.master.requested 1 = true → (s.exec idt e).controllers.master.requested 1 = true ∨
      (s.exec idt e).frames = ⟨.keyboard, Handler.keyboard.body, true⟩ :: s.frames) ∧
    (s.controllers.slave.requested 0 = true → (s.exec idt e).controllers.slave.requested 0 = true ∨
      (s.exec idt e).frames = ⟨.rtClock, Handler.rtClock.body, true⟩ :: s.frames) := by
  cases e with
  | step =>
    obtain ⟨master, slave⟩ := @step_requested s idt sound
    rw [master, slave]
    exact ⟨.inl, .inl⟩
  | raise irq =>
    have raised (line : Nat → Bool) (i j : Nat) (up : line i = true) : Function.update line j true i = true := by
      rw [Function.update_apply]
      split <;> first | rfl | exact up
    simp only [System.exec, Controllers.raise]
    split
    · exact ⟨fun up => .inl (raised _ 1 irq up), .inl⟩
    · exact ⟨.inl, fun up => .inl (raised _ 0 (irq - 8) up)⟩
  | interrupt =>
    rw [System.exec]
    split
    next flag =>
      cases acknowledged : s.controllers.acknowledge with
      | none => exact ⟨.inl, .inl⟩
      | some answer =>
        obtain ⟨v, c⟩ := answer
        cases acknowledge_answer sound.pics acknowledged with
        | keyboard => exact ⟨fun _ => .inr (by simp [System.enter, dispatch, flag]), fun up => .inl up⟩
        | rtClock => exact ⟨fun up => .inl up, fun _ => .inr (by simp [System.enter, dispatch, flag])⟩
    next => exact ⟨.inl, .inl⟩

/-! ## Returning -/

/-- The statements and returns that are left. -/
def left (frames : List Frame) : Nat := (frames.map fun f => f.rest.length + 1).sum

theorem left_le (sound : Sound s) : left s.frames ≤ 8 * s.frames.length := by
  have most (h : Handler) : h.body.length ≤ 7 := by cases h <;> decide
  have begun := sound.begun
  generalize s.frames = frames at begun ⊢
  induction frames with
  | nil => exact Nat.le_refl 0
  | cons f frames ih =>
    obtain ⟨first, rest⟩ := List.forall_mem_cons.mp begun
    have short := first.length_le.trans (most f.handler)
    have below := ih rest
    simp only [left, List.map_cons, List.sum_cons, List.length_cons] at below ⊢
    omega

theorem left_step (s : System) : left (s.exec idt .step).frames = left s.frames - 1 := by
  rw [System.exec]
  split
  next frames => rw [frames]; rfl
  next h flag below frames =>
    rw [frames]
    simp only [left, List.map_cons, List.sum_cons, List.length_nil]
    omega
  next h st rest flag below frames =>
    rw [(statement_frames st _).1, frames]
    simp only [left, List.map_cons, List.sum_cons, List.length_cons]
    omega

theorem steps_return {n : Nat} (enough : left s.frames ≤ n) :
    (run (System.exec idt) (List.replicate n .step) s).frames = [] := by
  induction n generalizing s with
  | zero =>
    have none := Nat.le_zero.mp enough
    cases frames : s.frames with
    | nil => exact frames
    | cons f below => simp [frames, left] at none
  | succ n ih =>
    rw [List.replicate_succ, run_cons]
    exact ih (by rw [left_step]; omega)

/-- However the devices raise their lines and the handlers interrupt each other: every interrupt has a handler;
a handler that is interrupted stands in front of its `cli` or behind its `sti`; a line is in service exactly
while a handler owes the end-of-interrupt for it, and never does more than one; a request stays until its
handler begins; with no handler on the stack the most urgent one is answered; and with no more interrupts the
handlers all return. -/
theorem handlers_nest (idt : UInt8 → BitVec 64) (p : Pics) (requested requested' : Nat → Bool) (es : List Event) :
    let s := run (System.exec idt) es (.booted p requested requested')
    s.fault = false ∧
    (∀ f ∈ s.frames.tail, f.rest = f.handler.body ∨ f.rest = []) ∧
    (∀ i < 8, owed (eoi i masterPort) s.frames = (if s.controllers.master.inService i then 1 else 0) ∧
      owed (eoi i slavePort) s.frames = if s.controllers.slave.inService i then 1 else 0) ∧
    (∀ e, (s.controllers.master.requested 1 = true → (s.exec idt e).controllers.master.requested 1 = true ∨
        (s.exec idt e).frames = ⟨.keyboard, Handler.keyboard.body, true⟩ :: s.frames) ∧
      (s.controllers.slave.requested 0 = true → (s.exec idt e).controllers.slave.requested 0 = true ∨
        (s.exec idt e).frames = ⟨.rtClock, Handler.rtClock.body, true⟩ :: s.frames)) ∧
    (s.frames = [] → (s.exec idt .interrupt).frames.map Frame.handler =
      if s.controllers.master.requested 1 then [.keyboard]
      else if s.controllers.slave.requested 0 then [.rtClock] else []) ∧
    (run (System.exec idt) (List.replicate (8 * s.frames.length) .step) s).frames = [] := by
  intro s
  have sound : Sound s := run_sound idt p requested requested' es
  exact ⟨sound.noFault, sound.suspended, fun i inside => ⟨sound.master i inside, sound.slave i inside⟩,
    request_kept sound, idle_answers sound, steps_return (left_le sound)⟩

end Interrupts

end Mp3Kernel
