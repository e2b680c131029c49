import Mp3Kernel.Blink.Display

/-!
# The period of a blinker

A blinker that has been added is on for `ON_LENGTH` calls of the tasklet and off
for `OFF_LENGTH`, over and over, whatever is added and removed elsewhere in the
list: every call of the tasklet comes to its slot exactly once.
-/

namespace Mp3Kernel

open Library

/-! ## One blinker -/

/-- The record after the body of `tasklet_loop`. -/
def Blinker.ticked (b : Blinker) : Blinker :=
  if 0 < (b.countdown - 1).toInt16 then { b with countdown := b.countdown - 1 }
  else if b.On then { b with countdown := b.offLength, status := b.status ^^^ 1 }
  else { b with countdown := b.onLength, status := b.status ^^^ 1 }

/-- A blinker that was added `t` ticks ago, `a` ticks on and `b` ticks off. -/
structure Blinker.Beats (a b t : Nat) (blinker : Blinker) : Prop where
  onLength : blinker.onLength.toNat = a
  offLength : blinker.offLength.toNat = b
  on : blinker.On ↔ t % (a + b) < a
  countdown : blinker.countdown.toNat = if t % (a + b) < a then a - t % (a + b) else a + b - t % (a + b)

/-- `jg` after `decw`: the lengths up to 32768 are those for which the signed comparison is right. -/
theorem countdown_pos_iff {countdown : UInt16} (positive : 1 ≤ countdown.toNat)
    (small : countdown.toNat ≤ 32768) : 0 < (countdown - 1).toInt16 ↔ 1 < countdown.toNat := by
  have value : (countdown - 1).toNat = countdown.toNat - 1 := by
    rw [UInt16.toNat_sub]
    have one : (1 : UInt16).toNat = 1 := rfl
    have bound := countdown.toNat_lt
    omega
  have signed : (countdown - 1).toInt16.toInt = (countdown.toNat - 1 : Nat) := by
    have unsigned : (countdown - 1).toInt16.toInt = ((countdown - 1).toNat : Int).bmod (2 ^ 16) :=
      BitVec.toInt_eq_toNat_bmod _
    rw [unsigned, value, Int.bmod_def]
    omega
  rw [Int16.lt_iff_toInt_lt, signed]
  change (0 : Int) < _ ↔ _
  omega

theorem Blinker.Beats.tick {a b t : Nat} {blinker : Blinker} (beats : blinker.Beats a b t)
    (onLength : 1 ≤ a ∧ a ≤ 32768) (offLength : 1 ≤ b ∧ b ≤ 32768) :
    blinker.ticked.Beats a b (t + 1) := by
  have inside : t % (a + b) < a + b := Nat.mod_lt t (by omega)
  have count := beats.countdown
  -- The next tick of the period is the next number, or 0.
  have next : (t + 1) % (a + b) = if t % (a + b) + 1 = a + b then 0 else t % (a + b) + 1 := by
    conv => lhs; rw [← Nat.div_add_mod t (a + b), Nat.add_assoc, Nat.mul_add_mod]
    split
    next last => rw [last, Nat.mod_self]
    next => exact Nat.mod_eq_of_lt (by omega)
  have running : 0 < (blinker.countdown - 1).toInt16 ↔ 1 < blinker.countdown.toNat := by
    apply countdown_pos_iff
    · split at count <;> omega
    · split at count <;> omega
  rw [Blinker.ticked]
  split
  next more =>
    rw [running] at more
    have less : (blinker.countdown - 1).toNat = blinker.countdown.toNat - 1 := by
      rw [UInt16.toNat_sub]
      have one : (1 : UInt16).toNat = 1 := rfl
      have bound := blinker.countdown.toNat_lt
      omega
    have same : (t + 1) % (a + b) = t % (a + b) + 1 := by
      rw [next, if_neg]
      split at count <;> omega
    refine ⟨beats.onLength, beats.offLength, ?_, ?_⟩
    · have on : blinker.On ↔ _ := beats.on
      change blinker.On ↔ _
      rw [on, same]
      split at count <;> omega
    · simp only [less, same]
      split at count <;> split <;> omega
  next due =>
    rw [running] at due
    split
    next on =>
      have first := beats.on.mp on
      rw [if_pos first] at count
      have now : (t + 1) % (a + b) = a := by
        rw [next, if_neg (by omega)]
        omega
      refine ⟨beats.onLength, beats.offLength, ?_, ?_⟩
      · rw [Blinker.on_toggle rfl, now]
        exact iff_of_false (not_not_intro on) (Nat.lt_irrefl a)
      · simp only [now, beats.offLength]
        rw [if_neg (Nat.lt_irrefl a)]
        omega
    next off =>
      have second : ¬t % (a + b) < a := beats.on.not.mp off
      rw [if_neg second] at count
      have now : (t + 1) % (a + b) = 0 := by rw [next, if_pos (by omega)]
      refine ⟨beats.onLength, beats.offLength, ?_, ?_⟩
      · rw [Blinker.on_toggle rfl, now]
        exact iff_of_true off (by omega)
      · simp only [now, beats.onLength]
        rw [if_pos (by omega)]
        omega

theorem Blinker.ticked_location (blinker : Blinker) : blinker.ticked.location = blinker.location := by
  rw [Blinker.ticked]
  split
  · rfl
  · split
    · rfl
    · rfl

/-- The blinker that `RTC_ADD` stores is at the start of its period. -/
theorem Blinker.beats_start {user b : Blinker} (onLength : b.onLength = user.onLength)
    (offLength : b.offLength = user.offLength) (countdown : b.countdown = user.onLength)
    (status : b.status = 1) (positive : 1 ≤ user.onLength.toNat) :
    b.Beats user.onLength.toNat user.offLength.toNat 0 := by
  have lit : (1 : UInt16) &&& 1 ≠ 0 := by decide
  refine ⟨congrArg _ onLength, congrArg _ offLength, ?_, ?_⟩
  · rw [Blinker.On, status, Nat.zero_mod]
    exact iff_of_true lit (by omega)
  · rw [countdown, Nat.zero_mod, if_pos (by omega)]
    rfl

namespace Blinkers

variable {bs bs' : Blinkers} {nodes : List Slot} {slot : Slot} {l : UInt16} {a b t : Nat}

/-! ## The tasklet -/

theorem tick_blinkArray (bs : Blinkers) (slot : Slot) :
    (bs.tick slot).blinkArray = Function.update bs.blinkArray slot (bs.blinkArray slot).ticked := by
  rw [tick, Blinker.ticked]
  split
  · rfl
  · split
    · rfl
    · rfl

/-- Each blinker of the list is ticked once. -/
theorem ticks_blinkArray (bs : Blinkers) (distinct : nodes.Nodup) (x : Slot) :
    (nodes.foldl (fun bs slot => bs.tick slot) bs).blinkArray x =
      if x ∈ nodes then (bs.blinkArray x).ticked else bs.blinkArray x := by
  induction nodes generalizing bs with
  | nil => rfl
  | cons slot rest ih =>
    rw [List.nodup_cons] at distinct
    rw [List.foldl_cons, ih _ distinct.2, tick_blinkArray, Function.update_apply]
    by_cases here : x = slot
    · rw [if_neg (here ▸ distinct.1), if_pos here, if_pos (here ▸ List.mem_cons_self), here]
    · rw [if_neg here]
      simp only [List.mem_cons, here, false_or]

/-! ## The list -/

/-- The links end, and no blinker of the list is at location 0. -/
structure Placed (bs : Blinkers) (nodes : List Slot) : Prop where
  linked : Linked bs.link none nodes
  located : ∀ x ∈ nodes, (bs.blinkArray x).location ≠ 0

/-- The list has one blinker at `l`, in `slot`, and that is `t` ticks into its life. -/
structure Beating (l : UInt16) (a b t : Nat) (bs : Blinkers) (nodes : List Slot) (slot : Slot) : Prop
    extends Placed bs nodes where
  member : slot ∈ nodes
  location : (bs.blinkArray slot).location = l
  only : ∀ x ∈ nodes, (bs.blinkArray x).location = l → x = slot
  beats : (bs.blinkArray slot).Beats a b t

/-- The call adds no blinker at 0 or at `l`, and neither removes nor synchronises the one at `l`. -/
def LeavesAlone (l : UInt16) : Call → Prop
  | .add user => user.location ≠ 0 ∧ user.location ≠ l
  | .remove arg => arg.toUInt16 ≠ l
  | .find _ => True
  | .sync arg => (arg &&& 0xFFFF).toUInt16 ≠ l
  | .tasklet => True

def isTasklet : Call → Bool
  | .tasklet => true
  | _ => false

/-- A list that has come about without touching the blinkers `nodes'` has of it. -/
theorem Placed.of_same {nodes' : List Slot} (placed : Placed bs nodes) (linked : Linked bs'.link none nodes')
    (inside : ∀ x ∈ nodes', x ∈ nodes)
    (same : ∀ x ∈ nodes', (bs'.blinkArray x).location = (bs.blinkArray x).location) :
    Placed bs' nodes' := by
  refine ⟨linked, fun x member => ?_⟩
  rw [same x member]
  exact placed.located x (inside x member)

theorem insert_location (bs : Blinkers) (slot : Slot) (user : Blinker) :
    ((bs.insert slot user).blinkArray slot).location = user.location := by
  simp [Blinkers.insert, setBlinker, poke]

theorem Placed.insert (placed : Placed bs nodes) (user : Blinker) (free : bs.malloc = some slot)
    (location : user.location ≠ 0) :
    slot ∉ nodes ∧ Placed (bs.insert slot user) (slot :: nodes) ∧
      ∀ x ∈ nodes, (bs.insert slot user).blinkArray x = bs.blinkArray x := by
  have unused : slot ∉ nodes := fun used => placed.located slot used (malloc_location free)
  have old : ∀ x ∈ nodes, (bs.insert slot user).blinkArray x = bs.blinkArray x := by
    intro x inside
    exact Function.update_of_ne (fun same : x = slot => unused (same ▸ inside)) _ _
  refine ⟨unused, ⟨insert_linked placed.linked unused user, ?_⟩, old⟩
  rw [List.forall_mem_cons, insert_location]
  refine ⟨location, fun x inside => ?_⟩
  rw [old x inside]
  exact placed.located x inside

/-- Removing changes no more than the links of the blinkers that stay. -/
theorem remove_kept {before after : List Slot} {gone x : Slot}
    (linked : Linked bs.link none (before ++ gone :: after)) (inside : x ∈ before ++ after) :
    x ∈ before ++ gone :: after ∧ ∃ next,
      (bs.remove gone before.getLast?).blinkArray x = { bs.blinkArray x with next := next } := by
  have other : x ≠ gone := by
    rintro rfl
    exact (List.nodup_cons.mp (List.nodup_middle.mp linked.nodup)).1 inside
  refine ⟨?_, bs.remove_blinkArray before.getLast? other⟩
  exact ((List.Sublist.refl before).append (List.sublist_cons_self gone after)).subset inside

theorem remove_location {before after : List Slot} {gone x : Slot}
    (linked : Linked bs.link none (before ++ gone :: after)) (inside : x ∈ before ++ after) :
    ((bs.remove gone before.getLast?).blinkArray x).location = (bs.blinkArray x).location := by
  obtain ⟨_, next, equal⟩ := remove_kept linked inside
  rw [equal]

theorem Placed.remove {before after : List Slot} {gone : Slot} (placed : Placed bs (before ++ gone :: after)) :
    Placed (bs.remove gone before.getLast?) (before ++ after) :=
  placed.of_same (remove_linked placed.linked) (fun _ inside => (remove_kept placed.linked inside).1)
    fun _ inside => remove_location placed.linked inside

theorem copyTiming_location (bs : Blinkers) (first second x : Slot) :
    ((bs.copyTiming first second).blinkArray x).location = (bs.blinkArray x).location := by
  simp only [Blinkers.copyTiming, poke, setBlinker, Function.update_apply]
  split
  next here => rw [here]
  next => rfl

theorem Placed.copyTiming (placed : Placed bs nodes) (first second : Slot) :
    Placed (bs.copyTiming first second) nodes := by
  apply placed.of_same _ (fun _ inside => inside) fun x _ => copyTiming_location bs first second x
  rw [link_copyTiming]
  exact placed.linked

theorem ticks_location (bs : Blinkers) (distinct : nodes.Nodup) (x : Slot) :
    ((nodes.foldl (fun bs slot => bs.tick slot) bs).blinkArray x).location = (bs.blinkArray x).location := by
  rw [ticks_blinkArray bs distinct]
  split
  · exact Blinker.ticked_location _
  · rfl

theorem Placed.ticks (placed : Placed bs nodes) :
    Placed (nodes.foldl (fun bs slot => bs.tick slot) bs) nodes := by
  apply placed.of_same _ (fun _ inside => inside) fun x _ => ticks_location bs placed.linked.nodup x
  rw [foldl_tick_link]
  exact placed.linked

/-! ## A blinker that is left alone -/

/-- A list with the same blinker at `l` and no other one there. -/
theorem Beating.of_same {nodes' : List Slot} {t' : Nat} (beating : Beating l a b t bs nodes slot)
    (placed : Placed bs' nodes') (member : slot ∈ nodes')
    (location : (bs'.blinkArray slot).location = (bs.blinkArray slot).location)
    (others : ∀ x ∈ nodes', x ≠ slot → (bs'.blinkArray x).location = l →
      x ∈ nodes ∧ (bs.blinkArray x).location = l)
    (beats : (bs'.blinkArray slot).Beats a b t') : Beating l a b t' bs' nodes' slot := by
  refine ⟨placed, member, location.trans beating.location, ?_, beats⟩
  intro x inside here
  by_contra different
  obtain ⟨old, place⟩ := others x inside different here
  exact different (beating.only x old place)

/-- A blinker is added somewhere else. -/
theorem Beating.insert (beating : Beating l a b t bs nodes slot) {user : Blinker} {new : Slot}
    (free : bs.malloc = some new) (location : user.location ≠ 0) (elsewhere : user.location ≠ l) :
    Beating l a b t (bs.insert new user) (new :: nodes) slot := by
  obtain ⟨_, placed, old⟩ := beating.toPlaced.insert user free location
  have same := old slot beating.member
  apply beating.of_same placed (List.mem_cons_of_mem _ beating.member)
  · rw [same]
  · intro x inside _ here
    rcases List.mem_cons.mp inside with rfl | inside
    · exact absurd ((bs.insert_location x user).symm.trans here) elsewhere
    · exact ⟨inside, old x inside ▸ here⟩
  · rw [same]
    exact beating.beats

/-- Another blinker is removed. -/
theorem Beating.remove {before after : List Slot} {gone : Slot}
    (beating : Beating l a b t bs (before ++ gone :: after) slot) (other : slot ≠ gone) :
    Beating l a b t (bs.remove gone before.getLast?) (before ++ after) slot := by
  have member : slot ∈ before ++ after := by
    have inside := beating.member
    rw [List.mem_append, List.mem_cons] at inside
    rw [List.mem_append]
    tauto
  obtain ⟨_, next, equal⟩ := remove_kept beating.linked member
  apply beating.of_same beating.toPlaced.remove member
  · rw [equal]
  · intro x inside _ here
    exact ⟨(remove_kept beating.linked inside).1, remove_location beating.linked inside ▸ here⟩
  · rw [equal]
    exact ⟨beating.beats.onLength, beating.beats.offLength, beating.beats.on, beating.beats.countdown⟩

/-- Another blinker is synchronised. -/
theorem Beating.copyTiming (beating : Beating l a b t bs nodes slot) (first : Slot) {second : Slot}
    (other : slot ≠ second) : Beating l a b t (bs.copyTiming first second) nodes slot := by
  have same : (bs.copyTiming first second).blinkArray slot = bs.blinkArray slot :=
    Function.update_of_ne other _ _
  apply beating.of_same (beating.toPlaced.copyTiming first second) beating.member
    (bs.copyTiming_location first second slot)
  · intro x inside _ here
    exact ⟨inside, bs.copyTiming_location first second x ▸ here⟩
  · rw [same]
    exact beating.beats

/-- The tasklet comes to the blinker once. -/
theorem Beating.ticks (beating : Beating l a b t bs nodes slot) (onLength : 1 ≤ a ∧ a ≤ 32768)
    (offLength : 1 ≤ b ∧ b ≤ 32768) :
    Beating l a b (t + 1) (nodes.foldl (fun bs slot => bs.tick slot) bs) nodes slot := by
  have distinct := beating.linked.nodup
  apply beating.of_same beating.toPlaced.ticks beating.member (ticks_location bs distinct slot)
  · intro x inside _ here
    exact ⟨inside, ticks_location bs distinct x ▸ here⟩
  · rw [ticks_blinkArray bs distinct, if_pos beating.member]
    exact beating.beats.tick onLength offLength

/-- What a call does to the list, and to a blinker that it leaves alone. -/
theorem Placed.call (placed : Placed bs nodes) (c : Call)
    (nonzero : ∀ user, c = .add user → user.location ≠ 0) :
    ∃ value bs' nodes', bs.call c = some (value, bs') ∧ Placed bs' nodes' ∧
      ∀ l a b t slot, Beating l a b t bs nodes slot → LeavesAlone l c → (1 ≤ a ∧ a ≤ 32768) →
        (1 ≤ b ∧ b ≤ 32768) → Beating l a b (t + if isTasklet c then 1 else 0) bs' nodes' slot := by
  cases c with
  | add user =>
    rcases bs.call_add_cases user with ⟨_, failed⟩ | ⟨new, _, free, succeeded⟩
    · exact ⟨_, _, nodes, failed, placed, fun _ _ _ _ _ beating _ _ _ => beating⟩
    · refine ⟨_, _, new :: nodes, succeeded, (placed.insert user free (nonzero user rfl)).2.1, ?_⟩
      intro l a b t slot beating alone _ _
      exact beating.insert free alone.1 alone.2
  | remove arg =>
    rcases call_remove_cases placed.linked arg with failed | ⟨before, gone, after, rfl, found, succeeded⟩
    · exact ⟨_, _, nodes, failed, placed, fun _ _ _ _ _ beating _ _ _ => beating⟩
    · refine ⟨_, _, before ++ after, succeeded, placed.remove, ?_⟩
      intro l a b t slot beating alone _ _
      apply beating.remove
      rintro rfl
      exact alone (found.symm.trans beating.location)
  | find location =>
    obtain ⟨value, found⟩ := call_find placed.linked location
    exact ⟨_, _, nodes, found, placed, fun _ _ _ _ _ beating _ _ _ => beating⟩
  | sync arg =>
    rcases call_sync_cases placed.linked arg with ⟨_, failed⟩ | ⟨first, second, _, found, copied⟩
    · exact ⟨_, _, nodes, failed, placed, fun _ _ _ _ _ beating _ _ _ => beating⟩
    · refine ⟨_, _, nodes, copied, placed.copyTiming first second, ?_⟩
      intro l a b t slot beating alone _ _
      apply beating.copyTiming
      rintro rfl
      exact alone ((lookup_some found).2.symm.trans beating.location)
  | tasklet =>
    refine ⟨_, _, nodes, call_tasklet placed.linked, placed.ticks, ?_⟩
    intro l a b t slot beating _ onLength offLength
    exact beating.ticks onLength offLength

/-! ## Sessions -/

theorem Placed.run (placed : Placed bs nodes) {s : Session} (here : s.blinkers = some bs) (calls : List Call)
    (nonzero : ∀ user, .add user ∈ calls → user.location ≠ 0) :
    ∃ bs' nodes', (Library.run exec calls s).blinkers = some bs' ∧ Placed bs' nodes' ∧
      ∀ l a b t slot, Beating l a b t bs nodes slot → (∀ c ∈ calls, LeavesAlone l c) →
        (1 ≤ a ∧ a ≤ 32768) → (1 ≤ b ∧ b ≤ 32768) →
        Beating l a b (t + calls.countP isTasklet) bs' nodes' slot := by
  induction calls generalizing s bs nodes with
  | nil => exact ⟨bs, nodes, here, placed, fun _ _ _ _ _ beating _ _ _ => beating⟩
  | cons c calls ih =>
    obtain ⟨value, bs₁, nodes₁, result, placed₁, keeps⟩ :=
      placed.call c fun user add => nonzero user (add ▸ List.mem_cons_self)
    have here₁ : (exec c s).blinkers = some bs₁ := by rw [exec_eq here result]
    obtain ⟨bs₂, nodes₂, here₂, placed₂, keeps₂⟩ :=
      ih placed₁ here₁ fun user later => nonzero user (List.mem_cons_of_mem c later)
    refine ⟨bs₂, nodes₂, here₂, placed₂, ?_⟩
    intro l a b t slot beating alone onLength offLength
    rw [List.forall_mem_cons] at alone
    have next := keeps₂ l a b _ slot (keeps l a b t slot beating alone.1 onLength offLength) alone.2
      onLength offLength
    rw [List.countP_cons, Nat.add_comm (List.countP _ _), ← Nat.add_assoc]
    exact next

/-- A blinker that `RTC_ADD` has put at a free location is on after `t` calls of the tasklet exactly
if `t` is in the first `ON_LENGTH` ticks of its period, whatever else is done to other blinkers. -/
theorem blinker_keeps_period (video : Nat → UInt8) (before after : List Call) (user : Blinker)
    (bs : Blinkers) (reached : (Library.run exec before (Session.start video)).blinkers = some bs)
    (nonzero : ∀ other, .add other ∈ before → other.location ≠ 0) (location : user.location ≠ 0)
    (distinct : ∀ slot ∈ bs.chain, (bs.blinkArray slot).location ≠ user.location)
    (added : (bs.ioctlAdd user).1 = 0)
    (onLength : 1 ≤ user.onLength.toNat ∧ user.onLength.toNat ≤ 32768)
    (offLength : 1 ≤ user.offLength.toNat ∧ user.offLength.toNat ≤ 32768)
    (others : ∀ c ∈ after, LeavesAlone user.location c) :
    ∃ bs' b, (Library.run exec (before ++ .add user :: after) (Session.start video)).blinkers = some bs' ∧
      bs'.ioctlFind user.location = some (0, some b) ∧
      (b.On ↔ after.countP isTasklet % (user.onLength.toNat + user.offLength.toNat) <
        user.onLength.toNat) := by
  have start : Placed (Blinkers.start video) [] := ⟨rfl, fun _ inside => absurd inside List.not_mem_nil⟩
  obtain ⟨bs₁, nodes, reached', placed, _⟩ := start.run (s := Session.start video) rfl before nonzero
  obtain rfl : bs = bs₁ := Option.some_inj.mp (reached.symm.trans reached')
  rw [chain_eq placed.linked] at distinct
  rcases bs.call_add_cases user with ⟨_, failed⟩ | ⟨slot, _, free, succeeded⟩
  · -- The call has returned 0.
    have value : (bs.ioctlAdd user).1 = -1 := congrArg Prod.fst (Option.some_inj.mp failed)
    exact absurd (value.symm.trans added) (by decide)
  · obtain ⟨unused, placed', old⟩ := placed.insert user free location
    have new : (bs.insert slot user).blinkArray slot =
        { user with status := 1, countdown := user.onLength, next := bs.listHead } :=
      Function.update_self _ _ _
    have beating : Beating user.location user.onLength.toNat user.offLength.toNat 0 (bs.insert slot user)
        (slot :: nodes) slot := by
      refine ⟨placed', List.mem_cons_self, by rw [new], ?_, ?_⟩
      · intro x inside here
        rcases List.mem_cons.mp inside with same | inside
        · exact same
        · exact absurd (old x inside ▸ here) (distinct x inside)
      · rw [new]
        exact Blinker.beats_start rfl rfl rfl rfl onLength.1
    have here : (Library.run exec (before ++ [.add user]) (Session.start video)).blinkers =
        some (bs.insert slot user) := by
      rw [run_append, run_cons, run_nil, exec_eq reached succeeded]
    have nonzero' : ∀ other, .add other ∈ after → other.location ≠ 0 := fun other later =>
      (others _ later).1
    obtain ⟨bs', nodes', here', placed'', keeps⟩ := placed'.run here after nonzero'
    have kept := keeps _ _ _ _ _ beating others onLength offLength
    rw [Nat.zero_add] at kept
    refine ⟨bs', bs'.blinkArray slot, ?_, ?_, kept.beats.on⟩
    · rw [← here', List.append_cons, ← run_append]
    · -- The search comes to the only blinker at the location.
      rw [ioctlFind, findHelper_head kept.linked]
      cases found : bs'.lookup nodes' user.location with
      | none =>
        have missing := List.find?_eq_none.mp found slot kept.member
        exact absurd (decide_eq_true kept.location) missing
      | some x =>
        obtain ⟨inside, there⟩ := lookup_some found
        rw [kept.only x inside there]

theorem blinker_keeps_period_sample :
    ∃ bs' b, (Library.run exec ([] ++ .add sampleBlinker :: [.tasklet, .remove 2, .tasklet])
        (Session.start fun _ => 0)).blinkers = some bs' ∧
      bs'.ioctlFind 1 = some (0, some b) ∧ (b.On ↔ 2 % (7 + 6) < 7) := by
  have free : (start fun _ => 0).malloc = some 0 := malloc_first rfl
  apply blinker_keeps_period (fun _ => 0) [] [.tasklet, .remove 2, .tasklet] sampleBlinker (start fun _ => 0) rfl
  · exact fun _ member => absurd member List.not_mem_nil
  · decide
  · have empty : (start fun _ => 0).chain = [] := chain_eq (show Linked (start fun _ => 0).link none [] from rfl)
    rw [empty]
    exact fun _ member => absurd member List.not_mem_nil
  · rw [ioctlAdd, if_neg (by decide), free]
  · decide
  · decide
  · simp [LeavesAlone, sampleBlinker]

end Blinkers

end Mp3Kernel
