import Mathlib.Data.Nat.Bitwise
import Mp3Kernel.Blink.Chain

/-!
# What the blinkers show

A blinker shows one of two characters, by bit 0 of its status. Adding a blinker
and the two branches of the tasklet keep status and screen together. `RTC_SYNC`
does not: the condition of its `cmovl` is never met, so it always writes the
character for off, also when the status it has just copied is on.
-/

namespace Mp3Kernel

open Library

/-! ## Status -/

/-- The character of the state that the blinker is in. -/
def Blinker.char (b : Blinker) : UInt8 := if b.On then b.onChar else b.offChar

theorem Blinker.on_iff (b : Blinker) : b.On ↔ b.status.toNat % 2 = 1 := by
  have bit : (b.status &&& 1).toNat = b.status.toNat % 2 := by
    rw [UInt16.toNat_and]
    exact Nat.and_one_is_mod _
  rw [On, Ne, ← UInt16.toNat_inj, bit]
  change ¬b.status.toNat % 2 = 0 ↔ _
  omega

/-- `xorw $0x1` -/
theorem Blinker.on_toggle {b b' : Blinker} (toggled : b'.status = b.status ^^^ 1) :
    b'.On ↔ ¬b.On := by
  have bit : b'.status.toNat % 2 = (b.status.toNat + 1) % 2 := by
    rw [toggled, UInt16.toNat_xor]
    exact Nat.xor_mod_two_eq
  rw [Blinker.on_iff, Blinker.on_iff, bit]
  omega

namespace Blinkers

variable {bs bs' : Blinkers} {nodes : List Slot} {slot : Slot} {pending : List UInt16}

/-- `cmovl` after `testb $0x1` moves nothing. -/
theorem syncChar_eq (b : Blinker) : syncChar b = b.offChar := by
  have bit : (b.status.toUInt8 &&& 1).toNat = b.status.toUInt8.toNat % 2 := by
    rw [UInt8.toNat_and]
    exact Nat.and_one_is_mod _
  have sign : ¬(b.status.toUInt8 &&& 1).toInt8 < 0 := by
    rcases Nat.mod_two_eq_zero_or_one b.status.toUInt8.toNat with zero | one
    · rw [zero] at bit
      rw [UInt8.toNat_inj.mp (bit.trans (show 0 = (0 : UInt8).toNat from rfl))]
      decide
    · rw [one] at bit
      rw [UInt8.toNat_inj.mp (bit.trans (show 1 = (1 : UInt8).toNat from rfl))]
      decide
  simp only [syncChar, decide_eq_false sign, ne_eq, not_true_eq_false, if_false]

/-! ## The screen -/

/-- The screen has the blinker's character at its location. -/
def Shows (bs : Blinkers) (slot : Slot) : Prop :=
  bs.video (2 * (bs.blinkArray slot).location.toNat) = (bs.blinkArray slot).char

def locations (bs : Blinkers) (nodes : List Slot) : List UInt16 :=
  nodes.map fun slot => (bs.blinkArray slot).location

/-- What the calls keep: each blinker of the list is shown, and no two of them are at one
location or at 0 or at one where a blinker is still to come. -/
structure Tidy (bs : Blinkers) (nodes : List Slot) (pending : List UInt16) : Prop where
  linked : Linked bs.link none nodes
  apart : (0 :: (bs.locations nodes ++ pending)).Nodup
  shows : ∀ slot ∈ nodes, bs.Shows slot

theorem location_mem {a : Slot} (inside : a ∈ nodes) :
    (bs.blinkArray a).location ∈ bs.locations nodes :=
  List.mem_map_of_mem inside

theorem Tidy.eq_of_location (tidy : Tidy bs nodes pending) {a b : Slot} (inside : a ∈ nodes)
    (inside' : b ∈ nodes) (same : (bs.blinkArray a).location = (bs.blinkArray b).location) :
    a = b :=
  List.inj_on_of_nodup_map (List.nodup_append.mp (List.nodup_cons.mp tidy.apart).2).1 inside
    inside' same

theorem Tidy.location_ne_zero (tidy : Tidy bs nodes pending) {a : Slot} (inside : a ∈ nodes) :
    (bs.blinkArray a).location ≠ 0 := by
  intro zero
  apply (List.nodup_cons.mp tidy.apart).1
  exact List.mem_append_left _ (zero ▸ location_mem inside)

theorem Tidy.not_pending (tidy : Tidy bs nodes pending) {a : Slot} (inside : a ∈ nodes)
    {location : UInt16} (next : location ∈ pending) : (bs.blinkArray a).location ≠ location :=
  (List.nodup_append.mp (List.nodup_cons.mp tidy.apart).2).2.2 _ (location_mem inside) _ next

/-- A list of blinkers that are as they were. -/
theorem Tidy.of_same {nodes' : List Slot} {pending' : List UInt16} (tidy : Tidy bs nodes pending)
    (linked : Linked bs'.link none nodes') (fewer : nodes'.Sublist nodes)
    (later : pending'.Sublist pending) (video : bs'.video = bs.video)
    (location : ∀ a ∈ nodes', (bs'.blinkArray a).location = (bs.blinkArray a).location)
    (char : ∀ a ∈ nodes', (bs'.blinkArray a).char = (bs.blinkArray a).char) :
    Tidy bs' nodes' pending' := by
  have locations : bs'.locations nodes' = bs.locations nodes' := List.map_congr_left location
  refine ⟨linked, ?_, ?_⟩
  · rw [locations]
    exact tidy.apart.sublist (((fewer.map _).append later).cons_cons 0)
  · intro a inside
    rw [Shows, video, location a inside, char a inside]
    exact tidy.shows a (fewer.subset inside)

/-- A blinker of the list changes, and with it its place on the screen. -/
theorem Tidy.set (tidy : Tidy bs nodes pending) (member : slot ∈ nodes) {b : Blinker}
    {video : Nat → UInt8} (next : b.next = (bs.blinkArray slot).next)
    (location : b.location = (bs.blinkArray slot).location)
    (elsewhere : ∀ o, o ≠ 2 * (bs.blinkArray slot).location.toNat → video o = bs.video o)
    (shown : video (2 * (bs.blinkArray slot).location.toNat) = b.char) :
    Tidy ⟨Function.update bs.blinkArray slot b, bs.listHead, video⟩ nodes pending := by
  have same (a : Slot) : (Function.update bs.blinkArray slot b a).location =
      (bs.blinkArray a).location := by
    rw [Function.update_apply]
    split
    next here => rw [here, location]
    next => rfl
  refine ⟨?_, ?_, ?_⟩
  · have linked := tidy.linked
    rw [← link_setBlinker next] at linked
    exact linked.move rfl fun _ _ => rfl
  · simp only [locations, same]
    exact tidy.apart
  · intro a inside
    by_cases here : a = slot
    · rw [Shows, same, here]
      simp only [Function.update_self]
      exact shown
    · -- Another blinker is at another place.
      have other : 2 * (bs.blinkArray a).location.toNat ≠
          2 * (bs.blinkArray slot).location.toNat := by
        intro equal
        apply here
        apply tidy.eq_of_location inside member
        exact UInt16.toNat_inj.mp (by omega)
      simp only [Shows, Function.update_of_ne here]
      rw [elsewhere _ other]
      exact tidy.shows a inside

/-! ## Calls -/

theorem Tidy.tick (tidy : Tidy bs nodes pending) (member : slot ∈ nodes) :
    Tidy (bs.tick slot) nodes pending := by
  rw [Blinkers.tick]
  split
  next => exact tidy.set member rfl rfl (fun _ _ => rfl) (tidy.shows slot member)
  next =>
    split
    next on =>
      apply tidy.set member
      · rfl
      · rfl
      · exact fun o other => Function.update_of_ne other _ _
      · rw [Blinker.char, if_neg ((Blinker.on_toggle rfl).not.mpr (not_not.mpr on))]
        exact Function.update_self _ _ _
    next off =>
      apply tidy.set member
      · rfl
      · rfl
      · exact fun o other => Function.update_of_ne other _ _
      · rw [Blinker.char, if_pos ((Blinker.on_toggle rfl).mpr off)]
        exact Function.update_self _ _ _

theorem Tidy.ticks (tidy : Tidy bs nodes pending) {some : List Slot} (inside : some ⊆ nodes) :
    Tidy (some.foldl (fun bs slot => bs.tick slot) bs) nodes pending := by
  induction some generalizing bs with
  | nil => exact tidy
  | cons slot rest ih =>
    rw [List.foldl_cons]
    exact ih (tidy.tick (inside List.mem_cons_self)) fun _ later =>
      inside (List.mem_cons_of_mem slot later)

theorem malloc_location (free : bs.malloc = some slot) : (bs.blinkArray slot).location = 0 := by
  simpa using List.find?_some free

theorem Tidy.insert {user : Blinker} (tidy : Tidy bs nodes (user.location :: pending))
    (free : bs.malloc = some slot) : Tidy (bs.insert slot user) (slot :: nodes) pending := by
  -- The blinkers of the list have a location, so the slot is not one of theirs.
  have unused : slot ∉ nodes := fun used => tidy.location_ne_zero used (malloc_location free)
  have old : ∀ a ∈ nodes, (bs.insert slot user).blinkArray a = bs.blinkArray a := by
    intro a inside
    exact Function.update_of_ne (fun same : a = slot => unused (same ▸ inside)) _ _
  have new : (bs.insert slot user).blinkArray slot =
      { user with status := 1, countdown := user.onLength, next := bs.listHead } :=
    Function.update_self _ _ _
  refine ⟨insert_linked tidy.linked unused user, ?_, ?_⟩
  · have locations : (bs.insert slot user).locations (slot :: nodes) =
        user.location :: bs.locations nodes := by
      rw [Blinkers.locations, List.map_cons, new]
      exact congrArg (user.location :: ·) (List.map_congr_left fun a inside => by rw [old a inside])
    rw [locations]
    exact ((List.perm_middle.cons 0).nodup_iff).mp tidy.apart
  · have screen : (bs.insert slot user).video =
        Function.update bs.video (2 * user.location.toNat) user.onChar := rfl
    rw [List.forall_mem_cons]
    constructor
    · have lit : (1 : UInt16) &&& 1 ≠ 0 := by decide
      rw [Shows, new, screen]
      exact (Function.update_self (2 * user.location.toNat) user.onChar bs.video).trans
        (if_pos lit).symm
    · intro a inside
      have other : 2 * (bs.blinkArray a).location.toNat ≠ 2 * user.location.toNat := by
        intro equal
        apply tidy.not_pending inside List.mem_cons_self
        exact UInt16.toNat_inj.mp (by omega)
      rw [Shows, old a inside, screen, Function.update_of_ne other]
      exact tidy.shows a inside

/-- Nothing but the link of another blinker changes when one is removed. -/
theorem remove_blinkArray (bs : Blinkers) (place : Option Slot) {a : Slot} (other : a ≠ slot) :
    ∃ next, (bs.remove slot place).blinkArray a = { bs.blinkArray a with next := next } := by
  rw [Blinkers.remove, free, setBlinker]
  simp only [Function.update_of_ne other]
  cases place with
  | none => exact ⟨(bs.blinkArray a).next, rfl⟩
  | some p =>
    simp only [setLink, setBlinker, Function.update_apply]
    split
    next here => exact ⟨(bs.blinkArray slot).next, by rw [here]⟩
    next => exact ⟨(bs.blinkArray a).next, rfl⟩

theorem Tidy.remove {before after : List Slot} (tidy : Tidy bs (before ++ slot :: after) pending) :
    Tidy (bs.remove slot before.getLast?) (before ++ after) pending := by
  have distinct := tidy.linked.nodup
  have other : ∀ a ∈ before ++ after, a ≠ slot := by
    rintro a inside rfl
    exact (List.nodup_cons.mp (List.nodup_middle.mp distinct)).1 inside
  apply tidy.of_same (remove_linked tidy.linked)
  · exact (List.Sublist.refl before).append (List.sublist_cons_self slot after)
  · exact List.Sublist.refl pending
  · cases before.getLast? with
    | none => rfl
    | some p => rfl
  · intro a inside
    obtain ⟨next, same⟩ := bs.remove_blinkArray before.getLast? (other a inside)
    rw [same]
  · intro a inside
    obtain ⟨next, same⟩ := bs.remove_blinkArray before.getLast? (other a inside)
    rw [same]
    rfl

/-- After `RTC_SYNC` the second blinker has the status of the first, but shows its character
for off. -/
theorem shows_copyTiming (first second : Slot) :
    (bs.copyTiming first second).Shows second ↔
      ¬(bs.blinkArray first).On ∨
        (bs.blinkArray second).onChar = (bs.blinkArray second).offChar := by
  simp only [Shows, Blinkers.copyTiming, poke, setBlinker, Function.update_self, syncChar_eq]
  rw [Blinker.char]
  split
  next on =>
    have on' : (bs.blinkArray first).On := on
    constructor
    · exact fun same => .inr same.symm
    · rintro (off | same)
      · exact absurd on' off
      · exact same.symm
  next off =>
    have off' : ¬(bs.blinkArray first).On := off
    exact iff_of_true rfl (.inl off')

theorem Tidy.copyTiming (tidy : Tidy bs nodes pending) {first second : Slot}
    (member : second ∈ nodes) (shown : (bs.copyTiming first second).Shows second) :
    Tidy (bs.copyTiming first second) nodes pending := by
  simp only [Shows, Blinkers.copyTiming, poke, setBlinker, Function.update_self] at shown
  apply tidy.set member
  · rfl
  · rfl
  · exact fun o other => Function.update_of_ne other _ _
  · rw [← shown]
    exact Function.update_self _ _ _

/-! ## Sessions -/

/-- Every call so far has returned, the links end, and each blinker of the list is shown. -/
def Displayed (s : Session) : Prop :=
  ∃ bs nodes, s.blinkers = some bs ∧ Linked bs.link none nodes ∧ ∀ slot ∈ nodes, bs.Shows slot

/-- If the call synchronises two blinkers, the first is off, or the characters of the second
are the same. -/
def HarmlessSync (c : Call) (s : Session) : Prop :=
  ∀ bs arg first second, s.blinkers = some bs → c = .sync arg →
    bs.lookup bs.chain (arg >>> 16).toUInt16 = some first →
    bs.lookup bs.chain (arg &&& 0xFFFF).toUInt16 = some second →
    ¬(bs.blinkArray first).On ∨ (bs.blinkArray second).onChar = (bs.blinkArray second).offChar

def addLocation : Call → Option UInt16
  | .add user => some user.location
  | _ => none

/-- The list is tidy, in view of the calls to come. -/
def TidyFor (calls : List Call) (s : Session) : Prop :=
  ∃ bs nodes, s.blinkers = some bs ∧ Tidy bs nodes (calls.filterMap addLocation)

theorem TidyFor.displayed {calls : List Call} {s : Session} (tidy : TidyFor calls s) :
    Displayed s := by
  obtain ⟨bs, nodes, here, tidy⟩ := tidy
  exact ⟨bs, nodes, here, tidy.linked, tidy.shows⟩

theorem harmless_of_not_sync {s : Session} {c : Call} (other : ∀ arg, c ≠ .sync arg) :
    HarmlessSync c s :=
  fun _ arg _ _ _ sync => absurd sync (other arg)

theorem tidyFor_exec {calls : List Call} {s : Session} {c : Call} {value : Int32} {bs' : Blinkers}
    (here : s.blinkers = some bs) (result : bs.call c = some (value, bs'))
    (tidy : Tidy bs' nodes (calls.filterMap addLocation)) : TidyFor calls (exec c s) := by
  rw [exec_eq here result]
  exact ⟨bs', nodes, rfl, tidy⟩

/-- Every call but `RTC_SYNC` keeps the list tidy. -/
theorem TidyFor.exec_of_not_sync {calls : List Call} {s : Session} {c : Call}
    (tidy : TidyFor (c :: calls) s) (other : ∀ arg, c ≠ .sync arg) : TidyFor calls (exec c s) := by
  obtain ⟨bs, nodes, here, tidy⟩ := tidy
  cases c with
  | add user =>
    rcases bs.call_add_cases user with ⟨_, failed⟩ | ⟨slot, _, free, succeeded⟩
    · apply tidyFor_exec here failed
      exact tidy.of_same tidy.linked (List.Sublist.refl _) (List.sublist_cons_self _ _) rfl
        (fun _ _ => rfl) fun _ _ => rfl
    · exact tidyFor_exec here succeeded (tidy.insert free)
  | remove arg =>
    rcases call_remove_cases tidy.linked arg with failed | ⟨before, slot, after, rfl, _, succeeded⟩
    · exact tidyFor_exec here failed tidy
    · exact tidyFor_exec here succeeded tidy.remove
  | find location =>
    obtain ⟨value, found⟩ := call_find tidy.linked location
    exact tidyFor_exec here found tidy
  | sync arg => exact absurd rfl (other arg)
  | tasklet =>
    exact tidyFor_exec here (call_tasklet tidy.linked) (tidy.ticks (List.Subset.refl _))

/-- `RTC_SYNC` keeps the screen right exactly if it is harmless. -/
theorem TidyFor.sync_iff {calls : List Call} {s : Session} {arg : UInt32}
    (tidy : TidyFor (.sync arg :: calls) s) :
    (Displayed (exec (.sync arg) s) ↔ HarmlessSync (.sync arg) s) ∧
    (HarmlessSync (.sync arg) s → TidyFor calls (exec (.sync arg) s)) := by
  obtain ⟨bs, nodes, here, tidy⟩ := tidy
  have chain := chain_eq tidy.linked
  rcases call_sync_cases tidy.linked arg with ⟨refused, failed⟩ | ⟨first, second, found, found', copied⟩
  · have kept : TidyFor calls (exec (.sync arg) s) := tidyFor_exec here failed tidy
    refine ⟨iff_of_true kept.displayed ?_, fun _ => kept⟩
    rintro bs' arg' first second here' ⟨⟩ found found'
    obtain rfl : bs = bs' := Option.some_inj.mp (here.symm.trans here')
    rw [chain] at found found'
    exact absurd ⟨by rw [found]; rfl, by rw [found']; rfl⟩ refused
  · have member := (lookup_some found').1
    have harmless : HarmlessSync (.sync arg) s ↔ (bs.copyTiming first second).Shows second := by
      rw [shows_copyTiming]
      constructor
      · intro harmless
        exact harmless bs arg first second here rfl (chain ▸ found) (chain ▸ found')
      · rintro shown bs' arg' first' second' here' ⟨⟩ again again'
        obtain rfl : bs = bs' := Option.some_inj.mp (here.symm.trans here')
        rw [chain, found, Option.some_inj] at again
        rw [chain, found', Option.some_inj] at again'
        rw [← again, ← again']
        exact shown
    have kept (shown : (bs.copyTiming first second).Shows second) :
        TidyFor calls (exec (.sync arg) s) :=
      tidyFor_exec here copied (tidy.copyTiming member shown)
    rw [harmless]
    refine ⟨⟨?_, fun shown => (kept shown).displayed⟩, kept⟩
    rw [exec_eq here copied]
    rintro ⟨bs', nodes', here', linked, shown⟩
    rw [← Option.some_inj.mp here'] at linked shown
    -- The list is still the same, so the second blinker is one of those shown.
    rw [link_copyTiming] at linked
    exact shown second (tidy.linked.unique linked ▸ member)

theorem TidyFor.exec_iff {calls : List Call} {s : Session} {c : Call}
    (tidy : TidyFor (c :: calls) s) :
    (Displayed (exec c s) ↔ HarmlessSync c s) ∧ (HarmlessSync c s → TidyFor calls (exec c s)) := by
  by_cases sync : ∃ arg, c = .sync arg
  · obtain ⟨arg, rfl⟩ := sync
    exact tidy.sync_iff
  · rw [not_exists] at sync
    have kept := tidy.exec_of_not_sync sync
    exact ⟨iff_of_true kept.displayed (harmless_of_not_sync sync), fun _ => kept⟩

theorem start_tidyFor (video : Nat → UInt8) {calls : List Call}
    (distinct : (calls.filterMap addLocation).Nodup) (nonzero : 0 ∉ calls.filterMap addLocation) :
    TidyFor calls (Session.start video) := by
  refine ⟨start video, [], rfl, rfl, List.nodup_cons.mpr ⟨nonzero, distinct⟩, ?_⟩
  exact fun slot inside => absurd inside List.not_mem_nil

/-- Over any sequence of calls that adds blinkers at different locations other than 0, every
blinker of the list is shown after every call if and only if no `RTC_SYNC` copies the status of
a blinker that is on to one with two different characters. -/
theorem blinkers_displayed_iff (video : Nat → UInt8) (calls : List Call)
    (distinct : (calls.filterMap addLocation).Nodup) (nonzero : 0 ∉ calls.filterMap addLocation) :
    Along exec (fun c s => Displayed (exec c s)) calls (Session.start video) ↔
      Along exec HarmlessSync calls (Session.start video) := by
  apply along_congr_pending TidyFor
  · intro c calls s tidy
    exact tidy.exec_iff.1
  · intro c calls s tidy harmless
    exact tidy.exec_iff.2 harmless
  · exact start_tidyFor video distinct nonzero

def sampleBlinker : Blinker := ⟨1, 73, 77, 7, 6, 0, 0, none⟩

theorem blinkers_displayed_sample :
    Along exec (fun c s => Displayed (exec c s)) [.add sampleBlinker, .tasklet, .remove 1]
      (Session.start fun _ => 0) := by
  apply (blinkers_displayed_iff (fun _ => 0) [.add sampleBlinker, .tasklet, .remove 1]
    (by decide) (by decide)).mpr
  exact ⟨harmless_of_not_sync (by simp), harmless_of_not_sync (by simp),
    harmless_of_not_sync (by simp), trivial⟩

/-- A blinker that has just been added is on; synchronised with itself it is shown as off. -/
theorem sync_not_displayed :
    ([.add sampleBlinker, .sync 0x10001].filterMap addLocation).Nodup ∧
    0 ∉ [.add sampleBlinker, .sync 0x10001].filterMap addLocation ∧
    ¬Displayed (run exec [.add sampleBlinker, .sync 0x10001] (Session.start fun _ => 0)) := by
  have tidy : TidyFor [.add sampleBlinker, .sync 0x10001] (Session.start fun _ => 0) :=
    start_tidyFor _ (by decide) (by decide)
  have added : TidyFor [.sync 0x10001] (exec (.add sampleBlinker) (Session.start fun _ => 0)) :=
    tidy.exec_of_not_sync (by simp)
  have result : (start fun _ => 0).call (.add sampleBlinker) =
      some (0, (start fun _ => 0).insert 0 sampleBlinker) := by
    rw [call, ioctlAdd, if_neg (by decide), malloc_first rfl]
  refine ⟨by decide, by decide, ?_⟩
  rw [run_cons, run_cons, run_nil, added.exec_iff.1, exec_eq rfl result]
  intro harmless
  rcases harmless _ 0x10001 0 0 rfl rfl (by decide) (by decide) with off | same
  · exact absurd off (by decide)
  · exact absurd same (by decide)

end Blinkers

end Mp3Kernel
