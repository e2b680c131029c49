import Mp3Kernel.Blink.Period

/-!
# One place of the screen

What the calls do to a single byte that is shown: at a place with a blinker the
screen follows its period, whatever is done to the other blinkers, and a byte
without a blinker is not written.
-/

namespace Mp3Kernel

open Library

theorem Blinker.ticked_chars (blinker : Blinker) :
    blinker.ticked.onChar = blinker.onChar ∧ blinker.ticked.offChar = blinker.offChar := by
  rw [Blinker.ticked]
  split
  · exact ⟨rfl, rfl⟩
  · split
    · exact ⟨rfl, rfl⟩
    · exact ⟨rfl, rfl⟩

namespace Blinkers

variable {bs bs' : Blinkers} {nodes : List Slot} {slot : Slot} {pending : List UInt16} {l : UInt16} {on off : UInt8} {a b t o : Nat}

/-! ## The tasklet -/

theorem tick_location (bs : Blinkers) (slot x : Slot) :
    ((bs.tick slot).blinkArray x).location = (bs.blinkArray x).location := by
  rw [tick_blinkArray, Function.update_apply]
  split
  next here => rw [Blinker.ticked_location, here]
  next => rfl

theorem tick_elsewhere (other : o ≠ 2 * (bs.blinkArray slot).location.toNat) :
    (bs.tick slot).video o = bs.video o := by
  rw [tick]
  split
  · rfl
  · split
    · exact Function.update_of_ne other _ _
    · exact Function.update_of_ne other _ _

theorem tick_shows (shows : bs.Shows slot) : (bs.tick slot).Shows slot := by
  rw [Shows, tick_location, tick_blinkArray, Function.update_self, tick, Blinker.ticked]
  split
  next => exact shows
  next =>
    split
    next on =>
      rw [Blinker.char, if_neg ((Blinker.on_toggle rfl).not.mpr (not_not.mpr on))]
      exact Function.update_self _ _ _
    next off =>
      rw [Blinker.char, if_pos ((Blinker.on_toggle rfl).mpr off)]
      exact Function.update_self _ _ _

theorem remove_video (bs : Blinkers) (gone : Slot) (last : Option Slot) :
    (bs.remove gone last).video = bs.video := by
  cases last <;> rfl

theorem ticks_elsewhere (away : ∀ x ∈ nodes, o ≠ 2 * (bs.blinkArray x).location.toNat) :
    (nodes.foldl (fun bs slot => bs.tick slot) bs).video o = bs.video o := by
  induction nodes generalizing bs with
  | nil => rfl
  | cons x rest ih =>
    rw [List.forall_mem_cons] at away
    rw [List.foldl_cons, ih, tick_elsewhere away.1]
    intro y later
    rw [tick_location]
    exact away.2 y later

/-- The other blinkers of the list are not at the place of the one in `slot`. -/
theorem ticks_shows (shows : bs.Shows slot)
    (only : ∀ x ∈ nodes, (bs.blinkArray x).location = (bs.blinkArray slot).location → x = slot) :
    (nodes.foldl (fun bs slot => bs.tick slot) bs).Shows slot := by
  induction nodes generalizing bs with
  | nil => exact shows
  | cons x rest ih =>
    rw [List.forall_mem_cons] at only
    rw [List.foldl_cons]
    apply ih
    · by_cases here : x = slot
      · rw [here]
        exact tick_shows shows
      · have other : 2 * (bs.blinkArray slot).location.toNat ≠ 2 * (bs.blinkArray x).location.toNat := by
          intro equal
          exact here (only.1 (UInt16.toNat_inj.mp (by omega)))
        have same : (bs.tick x).blinkArray slot = bs.blinkArray slot := by
          rw [tick_blinkArray, Function.update_of_ne (Ne.symm here)]
        rw [Shows, same, tick_elsewhere other]
        exact shows
    · intro y later
      rw [tick_location, tick_location]
      exact only.2 y later

/-! ## A place with a blinker -/

/-- The list has one blinker at `l`, with these characters, and the screen shows it. -/
structure Showing (l : UInt16) (on off : UInt8) (a b t : Nat) (bs : Blinkers) (nodes : List Slot)
    (slot : Slot) : Prop extends Beating l a b t bs nodes slot where
  onChar : (bs.blinkArray slot).onChar = on
  offChar : (bs.blinkArray slot).offChar = off
  shows : bs.Shows slot

/-- The screen has the character of the part of the period. -/
theorem Showing.video (showing : Showing l on off a b t bs nodes slot) :
    bs.video (2 * l.toNat) = if t % (a + b) < a then on else off := by
  have shows : bs.video (2 * (bs.blinkArray slot).location.toNat) = (bs.blinkArray slot).char := showing.shows
  rw [showing.location] at shows
  rw [shows, Blinker.char, showing.onChar, showing.offChar]
  simp only [showing.beats.on]

/-- The blinker has the characters it had, and is still shown if it was. -/
def KeepsLook (bs bs' : Blinkers) (slot : Slot) : Prop :=
  (bs'.blinkArray slot).onChar = (bs.blinkArray slot).onChar ∧
    (bs'.blinkArray slot).offChar = (bs.blinkArray slot).offChar ∧ (bs.Shows slot → bs'.Shows slot)

theorem KeepsLook.refl (bs : Blinkers) (slot : Slot) : KeepsLook bs bs slot := ⟨rfl, rfl, id⟩

/-- Another location is shown in another byte. -/
theorem Beating.elsewhere (beating : Beating l a b t bs nodes slot) {location : UInt16} (different : location ≠ l) :
    2 * (bs.blinkArray slot).location.toNat ≠ 2 * location.toNat := by
  intro equal
  rw [beating.location] at equal
  exact different (UInt16.toNat_inj.mp (by omega))

theorem Beating.insert_keepsLook (beating : Beating l a b t bs nodes slot) {user : Blinker} {new : Slot}
    (free : bs.malloc = some new) (location : user.location ≠ 0) (different : user.location ≠ l) :
    KeepsLook bs (bs.insert new user) slot := by
  have old := (beating.toPlaced.insert user free location).2.2 slot beating.member
  rw [KeepsLook, Shows, Shows, old]
  refine ⟨rfl, rfl, fun shows => ?_⟩
  exact (Function.update_of_ne (beating.elsewhere different) _ _).trans shows

theorem remove_keepsLook {gone : Slot} (other : slot ≠ gone) (last : Option Slot) :
    KeepsLook bs (bs.remove gone last) slot := by
  obtain ⟨next, equal⟩ := bs.remove_blinkArray last other
  rw [KeepsLook, Shows, Shows, equal, remove_video]
  exact ⟨rfl, rfl, id⟩

theorem Beating.copyTiming_keepsLook (beating : Beating l a b t bs nodes slot) (first : Slot) {second : Slot}
    (different : (bs.blinkArray second).location ≠ l) : KeepsLook bs (bs.copyTiming first second) slot := by
  have other : slot ≠ second := by
    rintro rfl
    exact different beating.location
  have same : (bs.copyTiming first second).blinkArray slot = bs.blinkArray slot :=
    Function.update_of_ne other _ _
  have written : (bs.copyTiming first second).video = Function.update bs.video
      (2 * (bs.blinkArray second).location.toNat) (syncChar (bs.copyTiming first second |>.blinkArray second)) := by
    simp only [Blinkers.copyTiming, poke, setBlinker, Function.update_self]
  rw [KeepsLook, Shows, Shows, same, written]
  refine ⟨rfl, rfl, fun shows => ?_⟩
  rw [Function.update_of_ne (beating.elsewhere different)]
  exact shows

theorem Beating.ticks_keepsLook (beating : Beating l a b t bs nodes slot) :
    KeepsLook bs (nodes.foldl (fun bs slot => bs.tick slot) bs) slot := by
  rw [KeepsLook, ticks_blinkArray bs beating.linked.nodup, if_pos beating.member]
  obtain ⟨onChar, offChar⟩ := (bs.blinkArray slot).ticked_chars
  refine ⟨onChar, offChar, fun shows => ticks_shows shows fun x inside same => ?_⟩
  exact beating.only x inside (same.trans beating.location)

/-- What a call does to the record and to the screen when it leaves the place alone. -/
theorem Beating.call_keepsLook {c : Call} {value : Int32} (beating : Beating l a b t bs nodes slot)
    (alone : LeavesAlone l c) (result : bs.call c = some (value, bs')) : KeepsLook bs bs' slot := by
  have returned {value' : Int32} {bs'' : Blinkers} (same : bs.call c = some (value', bs'')) : bs' = bs'' :=
    congrArg Prod.snd (Option.some_inj.mp (result.symm.trans same))
  cases c with
  | add user =>
    rcases bs.call_add_cases user with ⟨_, failed⟩ | ⟨new, _, free, succeeded⟩
    · exact returned failed ▸ .refl bs slot
    · exact returned succeeded ▸ beating.insert_keepsLook free alone.1 alone.2
  | remove arg =>
    rcases call_remove_cases beating.linked arg with failed | ⟨before, gone, after, _, found, succeeded⟩
    · exact returned failed ▸ .refl bs slot
    · rw [returned succeeded]
      apply remove_keepsLook
      rintro rfl
      exact alone (found.symm.trans beating.location)
  | find location =>
    obtain ⟨value', found⟩ := call_find beating.linked location
    exact returned found ▸ .refl bs slot
  | sync arg =>
    rcases call_sync_cases beating.linked arg with ⟨_, failed⟩ | ⟨first, second, _, found, copied⟩
    · exact returned failed ▸ .refl bs slot
    · rw [returned copied]
      exact beating.copyTiming_keepsLook first (ne_of_eq_of_ne (lookup_some found).2 alone)
  | tasklet => exact returned (call_tasklet beating.linked) ▸ beating.ticks_keepsLook

/-- Such a call adds nothing at location 0. -/
theorem LeavesAlone.nonzero {c : Call} (alone : LeavesAlone l c) {user : Blinker} (add : c = .add user) :
    user.location ≠ 0 := by
  subst add
  exact alone.1

theorem Showing.call (showing : Showing l on off a b t bs nodes slot) (c : Call) (alone : LeavesAlone l c)
    (onLength : 1 ≤ a ∧ a ≤ 32768) (offLength : 1 ≤ b ∧ b ≤ 32768) :
    ∃ value bs' nodes', bs.call c = some (value, bs') ∧
      Showing l on off a b (t + if isTasklet c then 1 else 0) bs' nodes' slot := by
  obtain ⟨value, bs', nodes', result, _, keeps⟩ := showing.toPlaced.call c fun _ => alone.nonzero
  have beating := keeps l a b t slot showing.toBeating alone onLength offLength
  obtain ⟨onChar, offChar, shows⟩ := showing.toBeating.call_keepsLook alone result
  exact ⟨value, bs', nodes', result, beating, onChar.trans showing.onChar, offChar.trans showing.offChar,
    shows showing.shows⟩

theorem Showing.run (showing : Showing l on off a b t bs nodes slot) {s : Session} (here : s.blinkers = some bs)
    (calls : List Call) (alone : ∀ c ∈ calls, LeavesAlone l c)
    (onLength : 1 ≤ a ∧ a ≤ 32768) (offLength : 1 ≤ b ∧ b ≤ 32768) :
    ∃ bs' nodes', (Library.run exec calls s).blinkers = some bs' ∧
      Showing l on off a b (t + calls.countP isTasklet) bs' nodes' slot := by
  induction calls generalizing s bs nodes t with
  | nil => exact ⟨bs, nodes, here, showing⟩
  | cons c calls ih =>
    rw [List.forall_mem_cons] at alone
    obtain ⟨value, bs₁, nodes₁, result, showing₁⟩ := showing.call c alone.1 onLength offLength
    have here₁ : (exec c s).blinkers = some bs₁ := by rw [exec_eq here result]
    obtain ⟨bs₂, nodes₂, here₂, showing₂⟩ := ih showing₁ here₁ alone.2
    refine ⟨bs₂, nodes₂, here₂, ?_⟩
    rw [List.countP_cons, Nat.add_comm (List.countP _ _), ← Nat.add_assoc]
    exact showing₂

/-! ## A byte without a blinker -/

/-- No blinker of the list is shown in byte `o`. -/
def Away (o : Nat) (bs : Blinkers) (nodes : List Slot) : Prop :=
  ∀ x ∈ nodes, o ≠ 2 * (bs.blinkArray x).location.toNat

/-- The call adds no blinker at location 0 or in byte `o`. -/
def Spares (o : Nat) (c : Call) : Prop :=
  ∀ user, c = .add user → user.location ≠ 0 ∧ (user.location < 80 * 25 → o ≠ 2 * user.location.toNat)

theorem Away.of_same {nodes' : List Slot} (away : Away o bs nodes) (inside : ∀ x ∈ nodes', x ∈ nodes)
    (same : ∀ x ∈ nodes', (bs'.blinkArray x).location = (bs.blinkArray x).location) : Away o bs' nodes' := by
  intro x member
  rw [same x member]
  exact away x (inside x member)

theorem Away.insert (away : Away o bs nodes) (placed : Placed bs nodes) {user : Blinker}
    (free : bs.malloc = some slot) (location : user.location ≠ 0) (byte : o ≠ 2 * user.location.toNat) :
    Away o (bs.insert slot user) (slot :: nodes) ∧ (bs.insert slot user).video o = bs.video o := by
  refine ⟨?_, Function.update_of_ne byte _ _⟩
  rw [Away, List.forall_mem_cons, insert_location]
  refine ⟨byte, away.of_same (fun _ => id) fun x inside => ?_⟩
  rw [(placed.insert user free location).2.2 x inside]

theorem Away.remove {before after : List Slot} {gone : Slot} (away : Away o bs (before ++ gone :: after))
    (placed : Placed bs (before ++ gone :: after)) :
    Away o (bs.remove gone before.getLast?) (before ++ after) ∧
      (bs.remove gone before.getLast?).video o = bs.video o := by
  constructor
  · exact away.of_same (fun _ inside => (remove_kept placed.linked inside).1)
      fun _ inside => remove_location placed.linked inside
  · rw [remove_video]

theorem Away.copyTiming (away : Away o bs nodes) (first : Slot) {second : Slot} (inside : second ∈ nodes) :
    Away o (bs.copyTiming first second) nodes ∧ (bs.copyTiming first second).video o = bs.video o := by
  constructor
  · exact away.of_same (fun _ => id) fun x _ => bs.copyTiming_location first second x
  · exact Function.update_of_ne (away second inside) _ _

theorem Away.ticks (away : Away o bs nodes) (placed : Placed bs nodes) :
    Away o (nodes.foldl (fun bs slot => bs.tick slot) bs) nodes ∧
      (nodes.foldl (fun bs slot => bs.tick slot) bs).video o = bs.video o := by
  constructor
  · exact away.of_same (fun _ => id) fun x _ => ticks_location bs placed.linked.nodup x
  · exact ticks_elsewhere away

theorem Away.call (away : Away o bs nodes) (placed : Placed bs nodes) {c : Call} (spares : Spares o c) :
    ∃ value bs' nodes', bs.call c = some (value, bs') ∧ Placed bs' nodes' ∧ Away o bs' nodes' ∧
      bs'.video o = bs.video o := by
  cases c with
  | add user =>
    obtain ⟨location, byte⟩ := spares user rfl
    rcases bs.call_add_cases user with ⟨_, failed⟩ | ⟨new, inside, free, succeeded⟩
    · exact ⟨_, _, nodes, failed, placed, away, rfl⟩
    · exact ⟨_, _, new :: nodes, succeeded, (placed.insert user free location).2.1,
        away.insert placed free location (byte inside)⟩
  | remove arg =>
    rcases call_remove_cases placed.linked arg with failed | ⟨before, gone, after, rfl, _, succeeded⟩
    · exact ⟨_, _, nodes, failed, placed, away, rfl⟩
    · exact ⟨_, _, before ++ after, succeeded, placed.remove, away.remove placed⟩
  | find location =>
    obtain ⟨value, found⟩ := call_find placed.linked location
    exact ⟨_, _, nodes, found, placed, away, rfl⟩
  | sync arg =>
    rcases call_sync_cases placed.linked arg with ⟨_, failed⟩ | ⟨first, second, _, found, copied⟩
    · exact ⟨_, _, nodes, failed, placed, away, rfl⟩
    · exact ⟨_, _, nodes, copied, placed.copyTiming first second,
        away.copyTiming first (lookup_some found).1⟩
  | tasklet =>
    exact ⟨_, _, nodes, call_tasklet placed.linked, placed.ticks, away.ticks placed⟩

theorem Away.run (away : Away o bs nodes) (placed : Placed bs nodes) {s : Session} (here : s.blinkers = some bs)
    (calls : List Call) (spares : ∀ c ∈ calls, Spares o c) :
    ∃ bs', (Library.run exec calls s).blinkers = some bs' ∧ bs'.video o = bs.video o := by
  induction calls generalizing s bs nodes with
  | nil => exact ⟨bs, here, rfl⟩
  | cons c calls ih =>
    rw [List.forall_mem_cons] at spares
    obtain ⟨value, bs₁, nodes₁, result, placed₁, away₁, same⟩ := away.call placed spares.1
    have here₁ : (exec c s).blinkers = some bs₁ := by rw [exec_eq here result]
    obtain ⟨bs₂, here₂, same₂⟩ := ih away₁ placed₁ here₁ spares.2
    exact ⟨bs₂, here₂, same₂.trans same⟩

/-! ## Adding blinkers -/

/-- A tidy list, and every slot that it does not have is free. -/
structure Stocked (bs : Blinkers) (nodes : List Slot) (pending : List UInt16) : Prop
    extends Tidy bs nodes pending where
  unused : ∀ x, x ∉ nodes → (bs.blinkArray x).location = 0
  inside : ∀ x ∈ nodes, (bs.blinkArray x).location < 80 * 25

/-- There are fewer places than slots. -/
theorem Stocked.malloc (stocked : Stocked bs nodes pending) : ∃ slot, bs.malloc = some slot := by
  have distinct : (bs.locations nodes).Nodup :=
    (List.nodup_append.mp (List.nodup_cons.mp stocked.apart).2).1
  have few : nodes.length < 2000 := by
    have places : ((bs.locations nodes).map UInt16.toNat).toFinset ⊆ Finset.Ico 1 2000 := by
      intro n member
      rw [List.mem_toFinset, List.mem_map] at member
      obtain ⟨location, member, rfl⟩ := member
      obtain ⟨x, inside, rfl⟩ := List.mem_map.mp member
      have positive : (bs.blinkArray x).location.toNat ≠ 0 := fun zero =>
        stocked.location_ne_zero inside (UInt16.toNat_inj.mp zero)
      have below : (bs.blinkArray x).location.toNat < 2000 := UInt16.lt_iff_toNat_lt.mp (stocked.inside x inside)
      rw [Finset.mem_Ico]
      omega
    have count := Finset.card_le_card places
    rw [List.toFinset_card_of_nodup (distinct.map fun _ _ => UInt16.toNat_inj.mp), List.length_map,
      locations, List.length_map, Nat.card_Ico] at count
    omega
  obtain ⟨x, free⟩ : ∃ x : Slot, x ∉ nodes := by
    by_contra full
    rw [not_exists] at full
    have all : (Finset.univ : Finset Slot) ⊆ nodes.toFinset := fun x _ =>
      List.mem_toFinset.mpr (not_not.mp (full x))
    have count := (Finset.card_le_card all).trans (List.toFinset_card_le nodes)
    rw [Finset.card_univ, Fintype.card_fin] at count
    omega
  rw [← Option.isSome_iff_exists, Blinkers.malloc, List.find?_isSome]
  exact ⟨x, List.mem_finRange x, decide_eq_true (stocked.unused x free)⟩

theorem Tidy.placed (tidy : Tidy bs nodes pending) : Placed bs nodes :=
  ⟨tidy.linked, fun _ => tidy.location_ne_zero⟩

theorem Stocked.insert {user : Blinker} (stocked : Stocked bs nodes (user.location :: pending))
    (free : bs.malloc = some slot) (inside : user.location < 80 * 25) :
    Stocked (bs.insert slot user) (slot :: nodes) pending := by
  have nonzero : user.location ≠ 0 := by
    intro zero
    apply (List.nodup_cons.mp stocked.apart).1
    rw [← zero]
    exact List.mem_append_right _ List.mem_cons_self
  have old := (stocked.placed.insert user free nonzero).2.2
  refine ⟨stocked.toTidy.insert free, ?_, ?_⟩
  · intro x outside
    rw [List.mem_cons, not_or] at outside
    have same : (bs.insert slot user).blinkArray x = bs.blinkArray x := Function.update_of_ne outside.1 _ _
    rw [same]
    exact stocked.unused x outside.2
  · rw [List.forall_mem_cons, insert_location]
    refine ⟨inside, fun x member => ?_⟩
    rw [old x member]
    exact stocked.inside x member

theorem Stocked.add {user : Blinker} (stocked : Stocked bs nodes (user.location :: pending)) :
    ∃ value bs' nodes', bs.call (.add user) = some (value, bs') ∧ Stocked bs' nodes' pending := by
  rcases bs.call_add_cases user with ⟨_, failed⟩ | ⟨slot, inside, free, succeeded⟩
  · refine ⟨_, bs, nodes, failed, ?_, stocked.unused, stocked.inside⟩
    exact stocked.of_same stocked.linked (List.Sublist.refl _) (List.sublist_cons_self _ _) rfl
      (fun _ _ => rfl) fun _ _ => rfl
  · exact ⟨_, _, _, succeeded, stocked.insert free inside⟩

theorem Stocked.run {users : List Blinker} (stocked : Stocked bs nodes (users.map Blinker.location ++ pending))
    {s : Session} (here : s.blinkers = some bs) : ∃ bs' nodes',
      (Library.run exec (users.map .add) s).blinkers = some bs' ∧ Stocked bs' nodes' pending := by
  induction users generalizing s bs nodes with
  | nil => exact ⟨bs, nodes, here, stocked⟩
  | cons user users ih =>
    obtain ⟨value, bs₁, nodes₁, result, stocked₁⟩ := stocked.add
    exact ih stocked₁ (by rw [exec_eq here result])

/-- A blinker that is added is shown at once. -/
theorem Stocked.showing {user : Blinker} (stocked : Stocked bs nodes (user.location :: pending))
    (inside : user.location < 80 * 25) (onLength : 1 ≤ user.onLength.toNat) :
    ∃ value bs' nodes' slot, bs.call (.add user) = some (value, bs') ∧
      Showing user.location user.onChar user.offChar user.onLength.toNat user.offLength.toNat 0 bs' nodes' slot := by
  obtain ⟨slot, free⟩ := stocked.malloc
  rcases bs.call_add_cases user with ⟨refused, _⟩ | ⟨slot, _, free, succeeded⟩
  · exact absurd ⟨inside, by rw [free]; rfl⟩ refused
  · have tidy := (stocked.insert free inside).toTidy
    have new : (bs.insert slot user).blinkArray slot =
        { user with status := 1, countdown := user.onLength, next := bs.listHead } :=
      Function.update_self _ _ _
    have member : slot ∈ slot :: nodes := List.mem_cons_self
    have location : ((bs.insert slot user).blinkArray slot).location = user.location := by rw [new]
    refine ⟨_, _, _, slot, succeeded, ⟨tidy.placed, member, location, ?_, ?_⟩, ?_, ?_, tidy.shows slot member⟩
    · exact fun x inside here => tidy.eq_of_location inside member (here.trans location.symm)
    · rw [new]
      exact Blinker.beats_start rfl rfl rfl rfl onLength
    · rw [new]
    · rw [new]

theorem start_stocked (video : Nat → UInt8) (distinct : pending.Nodup) (nonzero : 0 ∉ pending) :
    Stocked (start video) [] pending := by
  have none (x : Slot) : x ∉ ([] : List Slot) := List.not_mem_nil
  exact ⟨⟨rfl, List.nodup_cons.mpr ⟨nonzero, distinct⟩, fun x inside => absurd inside (none x)⟩, fun _ _ => rfl,
    fun x inside => absurd inside (none x)⟩

/-! ## A picture of blinkers -/

/-- Each blinker of a picture is in its period, as long as the calls leave it alone. -/
theorem picture_shown (video : Nat → UInt8) {users : List Blinker} (distinct : (users.map Blinker.location).Nodup)
    (nonzero : 0 ∉ users.map Blinker.location) {calls : List Call} {user : Blinker} (member : user ∈ users)
    (inside : user.location < 80 * 25) (onLength : 1 ≤ user.onLength.toNat ∧ user.onLength.toNat ≤ 32768)
    (offLength : 1 ≤ user.offLength.toNat ∧ user.offLength.toNat ≤ 32768)
    (alone : ∀ c ∈ calls, LeavesAlone user.location c) :
    ∃ bs, (Library.run exec (users.map .add ++ calls) (Session.start video)).blinkers = some bs ∧
      bs.video (2 * user.location.toNat) =
        if calls.countP isTasklet % (user.onLength.toNat + user.offLength.toNat) < user.onLength.toNat
        then user.onChar else user.offChar := by
  obtain ⟨before, after, rfl⟩ := List.append_of_mem member
  rw [List.map_append, List.map_cons] at distinct nonzero
  obtain ⟨bs, nodes, here, stocked⟩ := (start_stocked video distinct nonzero).run (s := Session.start video) rfl
  obtain ⟨value, bs₁, nodes₁, slot, result, showing⟩ := stocked.showing inside onLength.1
  -- The blinkers that are added later are elsewhere.
  have later : ∀ c ∈ after.map Call.add ++ calls, LeavesAlone user.location c := by
    intro c cs
    rcases List.mem_append.mp cs with added | called
    · obtain ⟨other, next, rfl⟩ := List.mem_map.mp added
      have place : other.location ∈ after.map Blinker.location := List.mem_map_of_mem next
      refine ⟨fun zero => nonzero ?_, fun same => ?_⟩
      · rw [← zero]
        exact List.mem_append_right _ (List.mem_cons_of_mem _ place)
      · exact (List.nodup_cons.mp (List.nodup_append.mp distinct).2.1).1 (same ▸ place)
    · exact alone c called
  have here₁ : (exec (.add user) (Library.run exec (before.map .add) (Session.start video))).blinkers = some bs₁ := by
    rw [exec_eq here result]
  obtain ⟨bs₂, nodes₂, here₂, showing₂⟩ := showing.run here₁ (after.map .add ++ calls) later onLength offLength
  have ticks : (after.map Call.add ++ calls).countP isTasklet = calls.countP isTasklet := by
    rw [List.countP_append, List.countP_map, Nat.add_eq_right, List.countP_eq_zero]
    exact fun _ _ => Bool.false_ne_true
  refine ⟨bs₂, ?_, ?_⟩
  · rw [List.map_append, List.map_cons, List.append_assoc, List.cons_append, run_append, run_cons]
    exact here₂
  · rw [showing₂.video, ticks, Nat.zero_add]

end Blinkers

end Mp3Kernel
