import Mp3Kernel.Blink.Basic

/-!
# The list of blinkers

As long as the links from `mp1_list_head` end, the loops of `blink.S` are functions
of the list they walk through, and what each call does to the list can be said
without them. A call that adds a blinker takes the first slot whose location is 0;
the list loses its end if that slot is linked already, which takes a blinker at
location 0.
-/

namespace Mp3Kernel

open Library

namespace Blinkers

variable {bs : Blinkers} {nodes : List Slot} {place : Option Slot}

/-! ## Links -/

theorem link_setBlinker {slot : Slot} {b : Blinker} (same : b.next = (bs.blinkArray slot).next) :
    (bs.setBlinker slot b).link = bs.link := by
  funext place
  cases place with
  | none => rfl
  | some slot' =>
    simp only [link, setBlinker, Function.update_apply]
    split
    next here => rw [same, here]
    next => rfl

theorem link_poke (offset : Nat) (char : UInt8) : (bs.poke offset char).link = bs.link := by
  funext place
  cases place with
  | none => rfl
  | some slot => rfl

theorem link_tick (slot : Slot) : (bs.tick slot).link = bs.link := by
  rw [tick]
  split
  · exact link_setBlinker rfl
  · split
    · rw [link_setBlinker, link_poke]
      rfl
    · rw [link_setBlinker, link_poke]
      rfl

theorem link_setLink (value place q : Option Slot) :
    (bs.setLink value place).link q = if q = place then value else bs.link q := by
  cases place with
  | none =>
    cases q with
    | none => rfl
    | some slot => rfl
  | some slot =>
    cases q with
    | none => rfl
    | some slot' =>
      simp only [link, setLink, setBlinker, Function.update_apply, Option.some_inj]
      split
      · rfl
      · rfl

theorem link_free {slot : Slot} {q : Option Slot} (other : q ≠ some slot) :
    (bs.free slot).link q = bs.link q := by
  cases q with
  | none => rfl
  | some slot' =>
    simp only [link, free, setBlinker]
    rw [Function.update_of_ne fun same => other (congrArg some same)]

theorem link_copyTiming (first second : Slot) : (bs.copyTiming first second).link = bs.link :=
  (link_poke _ _).trans (link_setBlinker rfl)

/-! ## Loops -/

/-- The blinker of `nodes` that a search for `location` finds. -/
def lookup (bs : Blinkers) (nodes : List Slot) (location : UInt16) : Option Slot :=
  nodes.find? fun slot => (bs.blinkArray slot).location = location

theorem findHelper_eq (linked : Linked bs.link place nodes) (location : UInt16) {rounds : Nat}
    (enough : nodes.length < rounds) :
    bs.findHelper location rounds (bs.link place) = some (bs.lookup nodes location) := by
  induction nodes generalizing place rounds with
  | nil =>
    have last : bs.link place = none := linked
    cases rounds with
    | zero => exact absurd enough (Nat.not_lt_zero _)
    | succ rounds => rw [last, findHelper, lookup, List.find?_nil]
  | cons slot rest ih =>
    obtain ⟨first, linked⟩ := linked
    cases rounds with
    | zero => exact absurd enough (Nat.not_lt_zero _)
    | succ rounds =>
      rw [first, findHelper, lookup, List.find?_cons]
      by_cases here : (bs.blinkArray slot).location = location
      · rw [if_pos here]
        simp only [here, decide_true]
      · rw [if_neg here]
        simp only [here, decide_false]
        exact ih linked (Nat.lt_of_succ_lt_succ enough)

theorem findPrev_eq {before after : List Slot} {slot : Slot}
    (linked : Linked bs.link place (before ++ slot :: after)) (first : slot ∉ before) {rounds : Nat}
    (enough : before.length < rounds) :
    bs.findPrev slot rounds place = some (before.getLast?.or place) := by
  induction before generalizing place rounds with
  | nil =>
    cases rounds with
    | zero => exact absurd enough (Nat.not_lt_zero _)
    | succ rounds =>
      rw [findPrev, if_pos linked.1]
      rfl
  | cons b before ih =>
    rw [List.mem_cons, not_or] at first
    cases rounds with
    | zero => exact absurd enough (Nat.not_lt_zero _)
    | succ rounds =>
      have other : ¬bs.link place = some slot := by
        rw [linked.1, Option.some_inj]
        exact Ne.symm first.1
      rw [findPrev, if_neg other, linked.1]
      simp only
      rw [ih linked.2 first.2 (Nat.lt_of_succ_lt_succ enough), getLast?_cons_or]

theorem taskletLoop_eq (linked : Linked bs.link place nodes) {rounds : Nat}
    (enough : nodes.length < rounds) :
    taskletLoop rounds (bs.link place) bs = some (nodes.foldl (fun bs slot => bs.tick slot) bs) := by
  induction nodes generalizing place rounds bs with
  | nil =>
    have last : bs.link place = none := linked
    cases rounds with
    | zero => exact absurd enough (Nat.not_lt_zero _)
    | succ rounds =>
      rw [last]
      rfl
  | cons slot rest ih =>
    obtain ⟨first, linked⟩ := linked
    cases rounds with
    | zero => exact absurd enough (Nat.not_lt_zero _)
    | succ rounds =>
      -- A tick leaves the links alone, so the rest of the list is still the rest of the list.
      rw [← link_tick slot] at linked
      rw [first, taskletLoop, List.foldl_cons]
      exact ih linked (Nat.lt_of_succ_lt_succ enough)

theorem linked_of_taskletLoop {rounds : Nat} {bs' : Blinkers}
    (returned : taskletLoop rounds (bs.link place) bs = some bs') :
    ∃ nodes, Linked bs.link place nodes := by
  induction rounds generalizing place bs with
  | zero => exact absurd returned (by simp [taskletLoop])
  | succ rounds ih =>
    cases first : bs.link place with
    | none => exact ⟨[], first⟩
    | some slot =>
      rw [first] at returned
      have later : taskletLoop rounds ((bs.tick slot).link (some slot)) (bs.tick slot) = some bs' :=
        returned
      obtain ⟨rest, linked⟩ := ih later
      rw [link_tick] at linked
      exact ⟨slot :: rest, first, linked⟩

/-- The tasklet goes on for ever exactly if the links do not end. -/
theorem tasklet_spins_iff (bs : Blinkers) :
    (∀ n, taskletLoop n bs.listHead bs = none) ↔ ∀ nodes, ¬Linked bs.link none nodes := by
  constructor
  · intro spins nodes linked
    have ends := taskletLoop_eq linked (Nat.lt_succ_self nodes.length)
    exact absurd ((spins _).symm.trans ends) (by simp)
  · intro endless n
    cases ends : taskletLoop n bs.listHead bs with
    | none => rfl
    | some bs' =>
      obtain ⟨nodes, linked⟩ := @linked_of_taskletLoop bs none n bs' ends
      exact absurd linked (endless nodes)

/-! ## Calls -/

theorem length_lt_rounds (linked : Linked bs.link place nodes) : nodes.length < rounds := by
  have bound := linked.length_le
  rw [Fintype.card_fin] at bound
  exact Nat.lt_succ_of_le bound

theorem findHelper_head (linked : Linked bs.link none nodes) (location : UInt16) :
    bs.findHelper location rounds bs.listHead = some (bs.lookup nodes location) :=
  findHelper_eq linked location (length_lt_rounds linked)

theorem call_tasklet (linked : Linked bs.link none nodes) :
    bs.call .tasklet = some (0, nodes.foldl (fun bs slot => bs.tick slot) bs) := by
  have ticked : bs.rtcTasklet = some (nodes.foldl (fun bs slot => bs.tick slot) bs) :=
    taskletLoop_eq linked (length_lt_rounds linked)
  rw [call, ticked, Option.map_some]

theorem lookup_some {location : UInt16} {slot : Slot} (found : bs.lookup nodes location = some slot) :
    slot ∈ nodes ∧ (bs.blinkArray slot).location = location := by
  constructor
  · exact List.mem_of_find?_eq_some found
  · simpa using List.find?_some found

theorem call_add_cases (bs : Blinkers) (user : Blinker) :
    (¬(user.location < 80 * 25 ∧ bs.malloc.isSome) ∧ bs.call (.add user) = some (-1, bs)) ∨
    ∃ slot, user.location < 80 * 25 ∧ bs.malloc = some slot ∧
      bs.call (.add user) = some (0, bs.insert slot user) := by
  rw [call, ioctlAdd]
  split
  next outside => exact .inl ⟨fun both => UInt16.not_lt.mpr outside both.1, rfl⟩
  next inside =>
    cases bs.malloc with
    | none => exact .inl ⟨fun both => absurd both.2 (by simp), rfl⟩
    | some slot => exact .inr ⟨slot, UInt16.not_le.mp inside, rfl, rfl⟩

/-- What `mp1_ioctl_remove` does: nothing if there is no such blinker, and otherwise it takes
the first one out of the list. -/
theorem call_remove_cases (linked : Linked bs.link none nodes) (arg : UInt32) :
    bs.call (.remove arg) = some (-1, bs) ∨
    ∃ before slot after, nodes = before ++ slot :: after ∧
      (bs.blinkArray slot).location = arg.toUInt16 ∧
      bs.call (.remove arg) = some (0, bs.remove slot before.getLast?) := by
  rw [call, ioctlRemove, findHelper_head linked]
  cases found : bs.lookup nodes arg.toUInt16 with
  | none => exact .inl rfl
  | some slot =>
    obtain ⟨before, after, rfl⟩ := List.append_of_mem (lookup_some found).1
    have first : slot ∉ before := fun early =>
      (List.nodup_append.mp linked.nodup).2.2 slot early slot List.mem_cons_self rfl
    have enough : before.length < rounds := by
      have length := length_lt_rounds linked
      rw [List.length_append] at length
      omega
    simp only [findPrev_eq linked first enough, Option.or_none]
    exact .inr ⟨before, slot, after, rfl, (lookup_some found).2, rfl⟩

theorem call_find (linked : Linked bs.link none nodes) (location : UInt16) :
    ∃ value, bs.call (.find location) = some (value, bs) := by
  rw [call, ioctlFind, findHelper_head linked]
  cases bs.lookup nodes location with
  | none => exact ⟨-1, rfl⟩
  | some slot => exact ⟨0, rfl⟩

theorem call_sync_cases (linked : Linked bs.link none nodes) (arg : UInt32) :
    (¬((bs.lookup nodes (arg >>> 16).toUInt16).isSome ∧
        (bs.lookup nodes (arg &&& 0xFFFF).toUInt16).isSome) ∧
      bs.call (.sync arg) = some (-1, bs)) ∨
    ∃ first second, bs.lookup nodes (arg >>> 16).toUInt16 = some first ∧
      bs.lookup nodes (arg &&& 0xFFFF).toUInt16 = some second ∧
      bs.call (.sync arg) = some (0, bs.copyTiming first second) := by
  rw [call, ioctlSync, findHelper_head linked, findHelper_head linked]
  cases bs.lookup nodes (arg >>> 16).toUInt16 with
  | none => exact .inl ⟨fun both => absurd both.1 (by simp), rfl⟩
  | some first =>
    cases bs.lookup nodes (arg &&& 0xFFFF).toUInt16 with
    | none => exact .inl ⟨fun both => absurd both.2 (by simp), rfl⟩
    | some second => exact .inr ⟨first, second, rfl, rfl, rfl⟩

/-! ## What a call does to the list -/

theorem insert_linked {slot : Slot} (linked : Linked bs.link none nodes) (unused : slot ∉ nodes)
    (user : Blinker) : Linked (bs.insert slot user).link none (slot :: nodes) := by
  refine ⟨rfl, linked.move ?_ fun b member => ?_⟩
  · simp [link, insert, poke, setBlinker]
  · have other : b ≠ slot := fun same => unused (same ▸ member)
    simp [link, insert, poke, setBlinker, other]

/-- A blinker in a slot that is linked already. -/
theorem insert_not_linked {slot : Slot} (linked : Linked bs.link none nodes) (used : slot ∈ nodes)
    (user : Blinker) (nodes' : List Slot) : ¬Linked (bs.insert slot user).link none nodes' := by
  apply linked.no_end used
  · rfl
  · simp [link, insert, poke, setBlinker]
  · intro b _ other
    simp [link, insert, poke, setBlinker, other]

theorem remove_linked {before after : List Slot} {slot : Slot}
    (linked : Linked bs.link none (before ++ slot :: after)) :
    Linked (bs.remove slot before.getLast?).link none (before ++ after) := by
  have first : before.getLast? ≠ some slot := by
    intro last
    exact (List.nodup_append.mp linked.nodup).2.2 slot (List.mem_of_getLast? last) slot
      List.mem_cons_self rfl
  apply linked.splice
  · rw [Option.or_none, remove, link_free first, link_setLink, if_pos rfl]
    rfl
  · intro q elsewhere other
    rw [Option.or_none] at elsewhere
    rw [remove, link_free other, link_setLink, if_neg elsewhere]

theorem foldl_tick_link (nodes : List Slot) :
    (nodes.foldl (fun bs slot => bs.tick slot) bs).link = bs.link := by
  induction nodes generalizing bs with
  | nil => rfl
  | cons slot rest ih => rw [List.foldl_cons, ih, link_tick]

/-! ## Sessions -/

/-- Every call so far has returned and every next call would; the links end, no slot comes up
twice on the way, and there are as many as were added and not removed. -/
def Integrity (s : Session) : Prop :=
  ∃ bs nodes, s.blinkers = some bs ∧ Linked bs.link none nodes ∧ nodes.Nodup ∧
    nodes.length + s.removes = s.adds ∧ ∀ c, ∃ result, bs.call c = some result

/-- The slots that the links lead to, as far as there are slots. -/
def chain (bs : Blinkers) : List Slot := walk bs.link 2000 none

/-- If the call adds a blinker, the slot that it gets is not in the list. -/
def Unlinked (c : Call) (s : Session) : Prop :=
  ∀ bs user slot, s.blinkers = some bs → c = .add user → user.location < 80 * 25 →
    bs.malloc = some slot → slot ∉ bs.chain

theorem chain_eq (linked : Linked bs.link none nodes) : bs.chain = nodes :=
  linked.walk_eq (Nat.le_of_lt_succ (length_lt_rounds linked))

theorem call_returns (linked : Linked bs.link none nodes) (c : Call) :
    ∃ result, bs.call c = some result := by
  cases c with
  | add user => exact ⟨_, rfl⟩
  | remove arg =>
    rcases call_remove_cases linked arg with failed | ⟨before, slot, after, _, _, removed⟩
    · exact ⟨_, failed⟩
    · exact ⟨_, removed⟩
  | find location =>
    obtain ⟨value, found⟩ := call_find linked location
    exact ⟨_, found⟩
  | sync arg =>
    rcases call_sync_cases linked arg with ⟨_, failed⟩ | ⟨first, second, _, _, copied⟩
    · exact ⟨_, failed⟩
    · exact ⟨_, copied⟩
  | tasklet => exact ⟨_, call_tasklet linked⟩

theorem integrity_of_linked {s : Session} (here : s.blinkers = some bs)
    (linked : Linked bs.link none nodes) (count : nodes.length + s.removes = s.adds) :
    Integrity s :=
  ⟨bs, nodes, here, linked, linked.nodup, count, call_returns linked⟩

theorem exec_eq {s : Session} {c : Call} {value : Int32} {bs' : Blinkers}
    (here : s.blinkers = some bs) (result : bs.call c = some (value, bs')) :
    exec c s = ⟨some bs', s.adds + added c value, s.removes + removed c value⟩ := by
  rw [exec, here, Option.bind_some, result]

theorem integrity_of_same_links {s : Session} {c : Call} {value : Int32} {bs' : Blinkers}
    (here : s.blinkers = some bs) (linked : Linked bs.link none nodes)
    (count : nodes.length + s.removes = s.adds) (result : bs.call c = some (value, bs'))
    (same : bs'.link = bs.link) (uncounted : added c value = 0 ∧ removed c value = 0) :
    Integrity (exec c s) := by
  rw [exec_eq here result, uncounted.1, uncounted.2]
  apply integrity_of_linked rfl
  · rw [same]
    exact linked
  · exact count

theorem unlinked_of_not_add {s : Session} {c : Call} (other : ∀ user, c ≠ .add user) :
    Unlinked c s :=
  fun _ user _ _ add => absurd add (other user)

theorem add_integrity_iff {s : Session} (integrity : Integrity s) (user : Blinker) :
    Integrity (exec (.add user) s) ↔ Unlinked (.add user) s := by
  obtain ⟨bs, nodes, here, linked, _, count, _⟩ := integrity
  rcases bs.call_add_cases user with ⟨refused, failed⟩ | ⟨slot, inside, free, succeeded⟩
  · refine iff_of_true (integrity_of_same_links here linked count failed rfl ⟨rfl, rfl⟩) ?_
    intro bs' user' slot here' same inside free
    rw [here, Option.some_inj] at here'
    injection same with same
    subst here' same
    exact absurd ⟨inside, by rw [free]; rfl⟩ refused
  · rw [exec_eq here succeeded]
    by_cases used : slot ∈ nodes
    · refine iff_of_false ?_ fun unlinked => ?_
      · rintro ⟨bs', nodes', here', linked', _⟩
        rw [← Option.some_inj.mp here'] at linked'
        exact insert_not_linked linked used user nodes' linked'
      · exact unlinked bs user slot here rfl inside free (by rw [chain_eq linked]; exact used)
    · refine iff_of_true ?_ ?_
      · apply integrity_of_linked rfl (insert_linked linked used user)
        simp only [added, removed, if_true, List.length_cons]
        omega
      · intro bs' user' slot' here' _ _ free'
        rw [here, Option.some_inj] at here'
        subst here'
        rw [free, Option.some_inj] at free'
        rw [chain_eq linked, ← free']
        exact used

theorem remove_integrity {s : Session} (integrity : Integrity s) (arg : UInt32) :
    Integrity (exec (.remove arg) s) := by
  obtain ⟨bs, nodes, here, linked, _, count, _⟩ := integrity
  rcases call_remove_cases linked arg with failed | ⟨before, slot, after, rfl, _, succeeded⟩
  · exact integrity_of_same_links here linked count failed rfl ⟨rfl, rfl⟩
  · rw [exec_eq here succeeded]
    apply integrity_of_linked rfl (remove_linked linked)
    rw [List.length_append, List.length_cons] at count
    simp only [added, removed, if_true, List.length_append]
    omega

/-- One call keeps the list intact exactly if it does not give out a slot of the list. -/
theorem integrity_exec_iff {s : Session} (integrity : Integrity s) (c : Call) :
    Integrity (exec c s) ↔ Unlinked c s := by
  cases c with
  | add user => exact add_integrity_iff integrity user
  | remove arg =>
    exact iff_of_true (remove_integrity integrity arg) (unlinked_of_not_add (by simp))
  | find location =>
    obtain ⟨bs, nodes, here, linked, _, count, _⟩ := integrity
    obtain ⟨value, found⟩ := call_find linked location
    refine iff_of_true ?_ (unlinked_of_not_add (by simp))
    exact integrity_of_same_links here linked count found rfl ⟨rfl, rfl⟩
  | sync arg =>
    obtain ⟨bs, nodes, here, linked, _, count, _⟩ := integrity
    refine iff_of_true ?_ (unlinked_of_not_add (by simp))
    rcases call_sync_cases linked arg with ⟨_, failed⟩ | ⟨first, second, _, _, copied⟩
    · exact integrity_of_same_links here linked count failed rfl ⟨rfl, rfl⟩
    · exact integrity_of_same_links here linked count copied (link_copyTiming first second)
        ⟨rfl, rfl⟩
  | tasklet =>
    obtain ⟨bs, nodes, here, linked, _, count, _⟩ := integrity
    refine iff_of_true ?_ (unlinked_of_not_add (by simp))
    exact integrity_of_same_links here linked count (call_tasklet linked) (foldl_tick_link nodes)
      ⟨rfl, rfl⟩

theorem start_integrity (video : Nat → UInt8) : Integrity (Session.start video) :=
  integrity_of_linked rfl (show Linked _ none [] from rfl) rfl

/-- Over any sequence of calls the list is intact after every call if and only if no call adds
a blinker when the first slot with location 0 is in the list. -/
theorem list_intact_iff (video : Nat → UInt8) (calls : List Call) :
    Integrity (Session.start video) ∧
    (Along exec (fun c s => Integrity (exec c s)) calls (Session.start video) ↔
      Along exec Unlinked calls (Session.start video)) := by
  refine ⟨start_integrity video, ?_⟩
  apply along_congr Integrity calls
  · intro c _ s integrity
    exact integrity_exec_iff integrity c
  · intro c _ s integrity unlinked
    exact (integrity_exec_iff integrity c).mpr unlinked
  · exact start_integrity video

/-- A blinker in the corner of the screen, which is location 0. -/
def cornerBlinker : Blinker := ⟨0, 73, 77, 7, 6, 0, 0, none⟩

theorem malloc_first (unused : (bs.blinkArray 0).location = 0) : bs.malloc = some 0 := by
  have slots : List.finRange 2000 = 0 :: (List.finRange 1999).map Fin.succ := List.finRange_succ
  rw [malloc, slots, List.find?_cons_of_pos]
  exact decide_eq_true unused

/-- The second of two blinkers at location 0 gets the slot of the first, and then the links of
that slot lead back to it: the tasklet does not return. -/
theorem list_loses_end :
    cornerBlinker.location < 80 * 25 ∧
    (∃ bs, (run exec [.add cornerBlinker, .add cornerBlinker]
        (Session.start fun _ => 0)).blinkers = some bs ∧
      ∀ n, taskletLoop n bs.listHead bs = none) ∧
    ¬Integrity (run exec [.add cornerBlinker, .add cornerBlinker] (Session.start fun _ => 0)) := by
  have added (bs : Blinkers) (unused : (bs.blinkArray 0).location = 0) :
      bs.call (.add cornerBlinker) = some (0, bs.insert 0 cornerBlinker) := by
    rw [call, ioctlAdd, if_neg (by decide), malloc_first unused]
  have first : Linked ((start fun _ => 0).insert 0 cornerBlinker).link none [0] :=
    insert_linked (show Linked (start fun _ => 0).link none [] from rfl) List.not_mem_nil _
  have endless := insert_not_linked first List.mem_cons_self cornerBlinker
  have once : exec (.add cornerBlinker) (Session.start fun _ => 0) =
      ⟨some ((start fun _ => 0).insert 0 cornerBlinker), 1, 0⟩ :=
    exec_eq rfl (added (start fun _ => 0) rfl)
  have twice : exec (.add cornerBlinker) ⟨some ((start fun _ => 0).insert 0 cornerBlinker), 1, 0⟩ =
      ⟨some (((start fun _ => 0).insert 0 cornerBlinker).insert 0 cornerBlinker), 2, 0⟩ :=
    exec_eq rfl (added ((start fun _ => 0).insert 0 cornerBlinker) rfl)
  rw [run_cons, run_cons, run_nil, once, twice]
  refine ⟨by decide, ⟨_, rfl, ?_⟩, ?_⟩
  · rw [tasklet_spins_iff]
    exact endless
  · rintro ⟨bs, nodes, here, linked, _⟩
    rw [← Option.some_inj.mp here] at linked
    exact endless nodes linked

end Blinkers

end Mp3Kernel
