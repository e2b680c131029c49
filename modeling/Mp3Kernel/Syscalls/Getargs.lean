import Mp3Kernel.Library.Machine
import Mp3Kernel.Syscalls.Support

/-!
# The emulated `ece391_getargs`

The arguments are copied one behind the other, with a space between two. The
length of an argument is checked against the bytes that are left, but the copy
also stores the NUL behind it: when an argument takes all bytes that are left, the
NUL is stored behind the buffer.
-/

namespace Mp3Kernel

open Library

namespace Syscalls

/-! ## The code -/

/-- Behind the loop. -/
def getargsEnd (nbytes : Int32) (dst : Nat) (buf : LocalArray) : Int32 × LocalArray :=
  if nbytes < 1 then (-1, buf) else (0, buf.store dst 0)

/-- The loop, for the arguments from `argv[idx]` on. `dst` is where `buf` points to in the buffer. -/
def getargsLoop (rounds : Nat) : List CString → Int32 → Nat → LocalArray → Option (Int32 × LocalArray)
  | [], nbytes, dst, buf => some (getargsEnd nbytes dst buf)
  | arg :: rest, nbytes, dst, buf => do
    let length ← strlen rounds arg.pointer
    let len := length.toInt32
    if nbytes < len then some (-1, buf)
    else
      let buf ← strcpy (fun _ => arg.pointer) dst rounds 0 buf
      -- `buf += len`
      let dst := dst + len.toUInt32.toNat
      let nbytes := nbytes - len
      if rest.isEmpty then some (getargsEnd nbytes dst buf)
      else if nbytes < 1 then some (-1, buf)
      else getargsLoop rounds rest (nbytes - 1) (dst + 1) (buf.store dst space)

/-- `ece391_getargs(buf, nbytes)` for a process that was started with `argv`. -/
def getargs (rounds : Nat) (argv : List CString) (nbytes : Int32) (buf : LocalArray) : Option (Int32 × LocalArray) :=
  getargsLoop rounds (argv.drop 1) nbytes 0 buf

/-! ## Arguments in a buffer -/

/-- The arguments with a space between two. -/
def joined (args : List CString) : List UInt8 := [space].intercalate (args.map CString.bytes)

/-- The arguments with a space behind each. -/
def spaced (args : List CString) : List UInt8 := args.flatMap fun arg => arg.bytes ++ [space]

/-- Among the arguments that are reached with `room` bytes, one takes all bytes that are left for it, or
is too long for a signed length. -/
def Overruns (args : List CString) (room : Int) : Prop :=
  ∃ before arg after, args = before ++ arg :: after ∧ (spaced before).length ≤ room ∧
    ((spaced before).length + arg.bytes.length = room ∨ 2 ^ 31 ≤ arg.bytes.length)

variable {args rest : List CString} {arg : CString} {room : Int} {rounds dst : Nat} {nbytes value : Int32}
  {buf after : LocalArray}

theorem length_spaced_cons : (spaced (arg :: args)).length = arg.bytes.length + 1 + (spaced args).length := by
  rw [spaced, List.flatMap_cons, List.length_append, List.length_append, List.length_singleton]
  rfl

theorem not_overruns_nil : ¬Overruns [] room := by
  rintro ⟨before, _, _, split, _⟩
  exact absurd split.symm (List.append_ne_nil_of_right_ne_nil before (List.cons_ne_nil _ _))

theorem overruns_cons (nonneg : 0 ≤ room) : Overruns (arg :: rest) room ↔
    (arg.bytes.length = room ∨ 2 ^ 31 ≤ arg.bytes.length) ∨
      (arg.bytes.length + 1 ≤ room ∧ Overruns rest (room - arg.bytes.length - 1)) := by
  constructor
  · rintro ⟨before, arg', after, split, reached, full⟩
    cases before with
    | nil =>
      obtain ⟨rfl, rfl⟩ := List.cons.inj split
      exact .inl (by simpa [spaced] using full)
    | cons first before =>
      obtain ⟨rfl, rfl⟩ := List.cons.inj split
      rw [length_spaced_cons] at reached full
      exact .inr ⟨by omega, before, arg', after, rfl, by omega, by omega⟩
  · rintro (full | ⟨reached, before, arg', after, rfl, enough, full⟩)
    · exact ⟨[], arg, rest, rfl, by simpa [spaced] using nonneg, by simpa [spaced] using full⟩
    · exact ⟨arg :: before, arg', after, rfl, by rw [length_spaced_cons]; omega, by rw [length_spaced_cons]; omega⟩

theorem joined_nil : joined [] = [] := rfl

theorem joined_singleton : joined [arg] = arg.bytes := List.intercalate_singleton

theorem joined_cons (more : rest ≠ []) : joined (arg :: rest) = arg.bytes ++ space :: joined rest := by
  rw [joined, List.map_cons, List.intercalate_cons_of_ne_nil (by simpa using more), List.append_assoc]
  rfl

theorem length_le_joined_cons : arg.bytes.length ≤ (joined (arg :: rest)).length := by
  by_cases last : rest = []
  · rw [last, joined_singleton]
  · rw [joined_cons last, List.length_append]
    exact Nat.le_add_right _ _

/-! ## One argument -/

theorem toInt_length {n : Nat} (small : n < 2 ^ 31) : (UInt32.ofNat n).toInt32.toInt = n := by
  have same : (UInt32.ofNat n).toNat = n := UInt32.toNat_ofNat_of_lt' (by simp only [UInt32.size]; omega)
  rw [toInt_toInt32_of_lt (by omega), same]

theorem toInt_length_neg {n : Nat} (large : 2 ^ 31 ≤ n) (short : n < 2 ^ 32) :
    (UInt32.ofNat n).toInt32.toInt < 0 := by
  have same : (UInt32.ofNat n).toNat = n := UInt32.toNat_ofNat_of_lt' short
  rw [toInt_toInt32, same, Int.bmod_def]
  omega

theorem lt_length_iff {n : Nat} (small : n < 2 ^ 31) : nbytes < (UInt32.ofNat n).toInt32 ↔ nbytes.toInt < n := by
  rw [Int32.lt_iff_toInt_lt, toInt_length small]

theorem toInt_sub_length (nbytes : Int32) {n : Nat} (small : n < 2 ^ 31) (fits : (n : Int) ≤ nbytes.toInt) :
    (nbytes - (UInt32.ofNat n).toInt32).toInt = nbytes.toInt - n := by
  have len := toInt_length small
  rw [Int32.toInt_sub_of_le _ _ ?_ ?_, len]
  · exact Int32.le_iff_toInt_le.mpr (len ▸ Int.natCast_nonneg n)
  · exact Int32.le_iff_toInt_le.mpr (len ▸ fits)

theorem toInt_sub_one (nbytes : Int32) (positive : 1 ≤ nbytes.toInt) : (nbytes - 1).toInt = nbytes.toInt - 1 :=
  Int32.toInt_sub_of_le _ _ (by decide) (Int32.le_iff_toInt_le.mpr positive)

theorem strcpy_argument (enough : arg.bytes.length < rounds) :
    strcpy (fun _ => arg.pointer) dst rounds 0 buf = some (buf.storeList dst (arg.bytes ++ [0])) :=
  strcpy_eq (fun _ _ _ => rfl) arg.text enough

theorem getargsLoop_cons (enough : arg.bytes.length < rounds) : getargsLoop rounds (arg :: rest) nbytes dst buf =
    if nbytes < (UInt32.ofNat arg.bytes.length).toInt32 then some (-1, buf)
    else if rest.isEmpty then
      some (getargsEnd (nbytes - (UInt32.ofNat arg.bytes.length).toInt32) (dst + arg.bytes.length)
        (buf.storeList dst (arg.bytes ++ [0])))
    else if nbytes - (UInt32.ofNat arg.bytes.length).toInt32 < 1 then
      some (-1, buf.storeList dst (arg.bytes ++ [0]))
    else
      getargsLoop rounds rest (nbytes - (UInt32.ofNat arg.bytes.length).toInt32 - 1) (dst + arg.bytes.length + 1)
        ((buf.storeList dst (arg.bytes ++ [0])).store (dst + arg.bytes.length) space) := by
  rw [getargsLoop, strlen_eq arg.text enough, strcpy_argument enough]
  simp only [Option.bind_eq_bind, Option.bind_some, UInt32.toUInt32_toInt32, UInt32.toNat_ofNat_of_lt' arg.short]

theorem storeList_argument {k : Nat} (inside : k < arg.bytes.length) :
    (buf.storeList dst (arg.bytes ++ [0])).bytes (dst + k) = arg.bytes[k] := by
  rw [LocalArray.storeList_inside (by rw [List.length_append]; omega), List.getElem_append_left inside]

theorem mem_storeList_argument {i : Nat} : i ∈ (buf.storeList dst (arg.bytes ++ [0])).stores ↔
    (dst ≤ i ∧ i ≤ dst + arg.bytes.length) ∨ i ∈ buf.stores := by
  rw [LocalArray.mem_storeList_stores, List.length_append, List.length_singleton, ← Nat.add_assoc,
    Nat.lt_succ_iff]

/-! ## The loop -/

/-- What the loop does with the bytes that are left: all its stores are among them, the bytes in front are
kept, and it returns 0 with the joined arguments in the buffer when they and a NUL fit. -/
structure Joins (args : List CString) (room : Int) (dst : Nat) (buf : LocalArray) (value : Int32)
    (after : LocalArray) : Prop where
  stores : ∀ i ∈ after.stores, (i : Int) < dst + room ∨ i ∈ buf.stores
  before : ∀ i < dst, after.bytes i = buf.bytes i
  fits : (joined args).length + 1 ≤ room → value = 0 ∧ Text (fun k => after.bytes (dst + k)) (joined args)
  large : room < (joined args).length + 1 → value = -1

theorem getargsEnd_joins (nbytes : Int32) (dst : Nat) (buf : LocalArray) :
    Joins [] nbytes.toInt dst buf (getargsEnd nbytes dst buf).1 (getargsEnd nbytes dst buf).2 := by
  have compare : nbytes < 1 ↔ nbytes.toInt < 1 := Int32.lt_iff_toInt_lt
  rw [getargsEnd]
  split
  next full =>
    rw [compare] at full
    refine ⟨fun i member => .inr member, fun i _ => rfl, fun fits => ?_, fun _ => rfl⟩
    exact absurd fits (by simp [joined_nil]; omega)
  next enough =>
    rw [compare] at enough
    refine ⟨?_, ?_, fun _ => ⟨rfl, ?_⟩, fun large => ?_⟩
    · intro i member
      rcases List.mem_cons.mp member with rfl | old
      · exact .inl (by omega)
      · exact .inr old
    · intro i below
      exact Function.update_of_ne (Nat.ne_of_lt below) _ _
    · exact Function.update_self _ _ _
    · exact absurd large (by simp [joined_nil]; omega)

/-- Some bytes of the result stand in the buffer, and the loop goes on behind them. -/
theorem Joins.behind {piece : List UInt8} {mid : LocalArray}
    (later : Joins rest (room - piece.length) (dst + piece.length) mid value after)
    (whole : joined args = piece ++ joined rest) (nonzero : ∀ c ∈ piece, c ≠ 0)
    (bytes : ∀ k (inside : k < piece.length), mid.bytes (dst + k) = piece[k])
    (outside : ∀ i < dst, mid.bytes i = buf.bytes i)
    (stores : ∀ i ∈ mid.stores, (i : Int) < dst + room ∨ i ∈ buf.stores) :
    Joins args room dst buf value after := by
  have length : (joined args).length = piece.length + (joined rest).length := by
    rw [whole, List.length_append]
  constructor
  · intro i member
    rcases later.stores i member with inside | old
    · exact .inl (by push_cast at inside; omega)
    · exact stores i old
  · intro i below
    rw [later.before i (by omega), outside i below]
  · intro fits
    obtain ⟨zero, text⟩ := later.fits (by omega)
    refine ⟨zero, ?_⟩
    rw [whole, text_append]
    refine ⟨fun k inside => ?_, nonzero, ?_⟩
    · rw [later.before _ (by omega), bytes k inside]
    · simpa only [Nat.add_assoc] using text
  · intro large
    exact later.large (by omega)

/-- An argument that is longer than the room is refused. -/
theorem joins_refused (long : room < arg.bytes.length) : Joins (arg :: rest) room dst buf (-1) buf := by
  have total : arg.bytes.length ≤ (joined (arg :: rest)).length := length_le_joined_cons
  refine ⟨fun i member => .inr member, fun _ _ => rfl, fun fits => ?_, fun _ => rfl⟩
  exact absurd fits (by omega)

theorem stores_argument (fits : (arg.bytes.length : Int) < room) :
    ∀ i ∈ (buf.storeList dst (arg.bytes ++ [0])).stores, (i : Int) < dst + room ∨ i ∈ buf.stores := by
  intro i member
  rcases mem_storeList_argument.mp member with inside | old
  · exact .inl (by omega)
  · exact .inr old

theorem joins_last (fits : (arg.bytes.length : Int) < room)
    (ended : Joins [] (room - arg.bytes.length) (dst + arg.bytes.length) (buf.storeList dst (arg.bytes ++ [0]))
      value after) : Joins [arg] room dst buf value after := by
  refine ended.behind ?_ arg.nonzero (fun k inside => storeList_argument inside) ?_ (stores_argument fits)
  · rw [joined_singleton, joined_nil, List.append_nil]
  · exact fun i below => LocalArray.storeList_outside (.inl below)

/-- An argument in front of others: the space is stored over its NUL. -/
theorem joins_next (fits : (arg.bytes.length : Int) < room) (more : rest ≠ [])
    (joins : Joins rest (room - arg.bytes.length - 1) (dst + arg.bytes.length + 1)
      ((buf.storeList dst (arg.bytes ++ [0])).store (dst + arg.bytes.length) space) value after) :
    Joins (arg :: rest) room dst buf value after := by
  have length : (arg.bytes ++ [space]).length = arg.bytes.length + 1 := List.length_append
  rw [Int.sub_sub, ← Int.natCast_add_one, Nat.add_assoc, ← length] at joins
  refine joins.behind ?_ ?_ ?_ ?_ ?_
  · rw [joined_cons more, List.append_assoc]
    rfl
  · exact List.forall_mem_append.mpr ⟨arg.nonzero, List.forall_mem_singleton.mpr (by decide)⟩
  · intro k inside
    rw [LocalArray.store_bytes, Function.update_apply]
    by_cases behind : k = arg.bytes.length
    · subst behind
      simp
    · rw [if_neg (by omega), List.getElem_append_left (by omega), storeList_argument]
  · intro i below
    rw [LocalArray.store_bytes, Function.update_of_ne (by omega), LocalArray.storeList_outside (.inl below)]
  · intro i member
    rcases List.mem_cons.mp member with rfl | earlier
    · exact .inl (by omega)
    · exact stores_argument fits i earlier

/-- No argument overruns the buffer: every argument that is copied leaves a byte. -/
theorem getargsLoop_joins (dst : Nat) (buf : LocalArray) (nonneg : 0 ≤ nbytes.toInt)
    (safe : ¬Overruns args nbytes.toInt)
    (enough : ∀ arg ∈ args, arg.bytes.length < rounds) :
    ∃ value after, getargsLoop rounds args nbytes dst buf = some (value, after) ∧
      Joins args nbytes.toInt dst buf value after := by
  induction args generalizing nbytes dst buf with
  | nil => exact ⟨_, _, rfl, getargsEnd_joins nbytes dst buf⟩
  | cons arg rest ih =>
    rw [List.forall_mem_cons] at enough
    rw [overruns_cons nonneg] at safe
    push Not at safe
    obtain ⟨⟨exact, small⟩, later⟩ := safe
    rw [getargsLoop_cons enough.1]
    by_cases long : nbytes.toInt < arg.bytes.length
    · rw [if_pos ((lt_length_iff small).mpr long)]
      exact ⟨-1, buf, rfl, joins_refused long⟩
    · -- The argument does not fill the room, or it would overrun it.
      have fits : (arg.bytes.length : Int) < nbytes.toInt := by omega
      have left := toInt_sub_length nbytes small (Int.not_lt.mp long)
      rw [if_neg (mt (lt_length_iff small).mp long)]
      by_cases last : rest = []
      · subst last
        have ended := getargsEnd_joins (nbytes - (UInt32.ofNat arg.bytes.length).toInt32) (dst + arg.bytes.length)
          (buf.storeList dst (arg.bytes ++ [0]))
        rw [left] at ended
        rw [if_pos (by rfl)]
        exact ⟨_, _, rfl, joins_last fits ended⟩
      · have next := toInt_sub_one (nbytes - (UInt32.ofNat arg.bytes.length).toInt32) (by omega)
        have more : ¬nbytes - (UInt32.ofNat arg.bytes.length).toInt32 < 1 := by
          rw [Int32.lt_iff_toInt_lt, left, show (1 : Int32).toInt = 1 from rfl]
          omega
        rw [left] at next
        rw [if_neg (by simpa using last), if_neg more]
        obtain ⟨value, after, result, joins⟩ := ih (dst + arg.bytes.length + 1)
          ((buf.storeList dst (arg.bytes ++ [0])).store (dst + arg.bytes.length) space)
          (next ▸ by omega) (next ▸ later (by omega)) enough.2
        rw [next] at joins
        exact ⟨value, after, result, joins_next fits last joins⟩

/-! ## An argument that overruns the buffer -/

theorem getargsEnd_stores : buf.stores ⊆ (getargsEnd nbytes dst buf).2.stores := by
  rw [getargsEnd]
  split
  next => exact List.Subset.refl _
  next => exact List.subset_cons_self _ _

/-- An argument that passes the check is copied, and what the copy has stored to stays recorded. -/
theorem getargsLoop_copied
    (keeps : ∀ {nbytes dst buf}, getargsLoop rounds rest nbytes dst buf = some (value, after) →
      buf.stores ⊆ after.stores)
    (enough : arg.bytes.length < rounds) (checked : ¬nbytes < (UInt32.ofNat arg.bytes.length).toInt32)
    (done : getargsLoop rounds (arg :: rest) nbytes dst buf = some (value, after)) :
    (buf.storeList dst (arg.bytes ++ [0])).stores ⊆ after.stores := by
  rw [getargsLoop_cons enough, if_neg checked] at done
  split at done
  next =>
    obtain rfl : (getargsEnd _ _ _).2 = after := congrArg Prod.snd (Option.some.inj done)
    exact getargsEnd_stores
  next =>
    split at done
    next =>
      obtain rfl : buf.storeList dst (arg.bytes ++ [0]) = after := congrArg Prod.snd (Option.some.inj done)
      exact List.Subset.refl _
    next => exact List.Subset.trans (List.subset_cons_self _ _) (keeps done)

theorem getargsLoop_stores (enough : ∀ arg ∈ args, arg.bytes.length < rounds)
    (done : getargsLoop rounds args nbytes dst buf = some (value, after)) : buf.stores ⊆ after.stores := by
  induction args generalizing nbytes dst buf with
  | nil =>
    obtain rfl : (getargsEnd nbytes dst buf).2 = after := congrArg Prod.snd (Option.some.inj done)
    exact getargsEnd_stores
  | cons arg rest ih =>
    rw [List.forall_mem_cons] at enough
    by_cases long : nbytes < (UInt32.ofNat arg.bytes.length).toInt32
    · rw [getargsLoop_cons enough.1, if_pos long] at done
      obtain rfl : buf = after := congrArg Prod.snd (Option.some.inj done)
      exact List.Subset.refl _
    · have copied := getargsLoop_copied (fun later => ih enough.2 later) enough.1 long done
      exact fun i member => copied (mem_storeList_argument.mpr (.inr member))

/-- A byte behind the buffer is stored to. -/
theorem getargsLoop_overruns (nonneg : 0 ≤ nbytes.toInt) (overruns : Overruns args nbytes.toInt)
    (enough : ∀ arg ∈ args, arg.bytes.length < rounds)
    (done : getargsLoop rounds args nbytes dst buf = some (value, after)) :
    ∃ i ∈ after.stores, (dst : Int) + nbytes.toInt ≤ i := by
  induction args generalizing nbytes dst buf with
  | nil => exact absurd overruns not_overruns_nil
  | cons arg rest ih =>
    rw [List.forall_mem_cons] at enough
    have upper : nbytes.toInt < 2 ^ 31 := nbytes.toInt_lt
    rcases (overruns_cons nonneg).mp overruns with full | ⟨reached, later⟩
    · -- The NUL behind the argument is the store in question.
      have checked : ¬nbytes < (UInt32.ofNat arg.bytes.length).toInt32 := by
        rw [Int32.lt_iff_toInt_lt]
        by_cases small : arg.bytes.length < 2 ^ 31
        · rw [toInt_length small]
          omega
        · have negative := toInt_length_neg (Nat.not_lt.mp small) arg.short
          omega
      have copied := getargsLoop_copied (fun later => getargsLoop_stores enough.2 later) enough.1 checked done
      refine ⟨dst + arg.bytes.length, copied (mem_storeList_argument.mpr (.inl ?_)), ?_⟩
      · exact ⟨Nat.le_add_right _ _, Nat.le_refl _⟩
      · omega
    · have small : arg.bytes.length < 2 ^ 31 := by omega
      have left := toInt_sub_length nbytes small (by omega)
      have next := toInt_sub_one (nbytes - (UInt32.ofNat arg.bytes.length).toInt32) (by omega)
      rw [left] at next
      rw [getargsLoop_cons enough.1, if_neg (mt (lt_length_iff small).mp (by omega))] at done
      split at done
      next last => exact absurd (List.isEmpty_iff.mp last ▸ later) not_overruns_nil
      next =>
        split at done
        next full =>
          rw [Int32.lt_iff_toInt_lt, left, show (1 : Int32).toInt = 1 from rfl] at full
          omega
        next =>
          obtain ⟨i, stored, behind⟩ := ih (next ▸ by omega) (next ▸ later) enough.2 done
          exact ⟨i, stored, by omega⟩

/-! ## The call -/

/-- What the call is to do: the joined arguments and a NUL in the buffer and 0 when they fit, -1 otherwise,
and no store behind the buffer. -/
def RespectsBuffer (argv : List CString) (nbytes : Int32) (buf : Nat → UInt8) : Prop :=
  ∃ bound, ∀ rounds ≥ bound, ∃ value after, getargs rounds argv nbytes ⟨buf, []⟩ = some (value, after) ∧
    (value = 0 ↔ (joined (argv.drop 1)).length + 1 ≤ nbytes.toInt) ∧
    (value = 0 → Text after.bytes (joined (argv.drop 1))) ∧ (value ≠ 0 → value = -1) ∧
    ∀ i ∈ after.stores, (i : Int) < nbytes.toInt

theorem exists_bound (args : List CString) : ∃ bound, ∀ rounds ≥ bound, ∀ arg ∈ args, arg.bytes.length < rounds := by
  refine ⟨(args.map fun arg => arg.bytes.length).sum + 1, fun rounds enough arg member => ?_⟩
  have part := List.le_sum_of_mem (List.mem_map_of_mem (f := fun arg : CString => arg.bytes.length) member)
  omega

/-- The call respects its buffer exactly when no argument that is reached takes all bytes left for it, or
has a length that is negative as a signed number. -/
theorem getargs_respects_buffer_iff (argv : List CString) (nbytes : Int32) (nonneg : 0 ≤ nbytes.toInt)
    (buf : Nat → UInt8) : RespectsBuffer argv nbytes buf ↔ ¬Overruns (argv.drop 1) nbytes.toInt := by
  obtain ⟨least, enough⟩ := exists_bound (argv.drop 1)
  constructor
  · rintro ⟨bound, respects⟩ overruns
    obtain ⟨value, after, result, _, _, _, stores⟩ := respects (max bound least) (Nat.le_max_left _ _)
    obtain ⟨i, stored, behind⟩ := getargsLoop_overruns nonneg overruns (enough _ (Nat.le_max_right _ _)) result
    have inside := stores i stored
    omega
  · intro safe
    refine ⟨least, fun rounds more => ?_⟩
    obtain ⟨value, after, result, joins⟩ := getargsLoop_joins 0 ⟨buf, []⟩ nonneg safe
      (enough rounds more)
    have fits : value = 0 ↔ (joined (argv.drop 1)).length + 1 ≤ nbytes.toInt := by
      constructor
      · intro zero
        by_contra short
        exact absurd ((joins.large (by omega)).symm.trans zero) (by decide)
      · exact fun fits => (joins.fits fits).1
    refine ⟨value, after, result, fits, ?_, ?_, ?_⟩
    · intro zero
      simpa only [Nat.zero_add] using (joins.fits (fits.mp zero)).2
    · intro failed
      exact joins.large (Int.not_le.mp (mt fits.mpr failed))
    · intro i member
      simpa using joins.stores i member

/-- `"p"`, `"x"` and `"ab"` -/
def argP : CString := ⟨[0x70], by simp, by decide⟩

def argX : CString := ⟨[0x78], by simp, by decide⟩

def argAb : CString := ⟨[0x61, 0x62], by simp, by decide⟩

/-- `p x ab`, with a buffer of 5 bytes. -/
theorem getargs_respects_buffer_sample : RespectsBuffer [argP, argX, argAb] 5 fun _ => 0 := by
  refine (getargs_respects_buffer_iff [argP, argX, argAb] 5 (by decide) fun _ => 0).mpr ?_
  rw [List.drop_one, List.tail_cons, overruns_cons (by decide), overruns_cons (by decide)]
  simp [argX, argAb, not_overruns_nil]

/-- `p ab`, with a buffer of 2 bytes: the NUL goes to index 2. -/
theorem getargs_stores_behind :
    (getargs 3 [argP, argAb] 2 ⟨fun _ => 0, []⟩).map (fun result => (result.1, result.2.stores)) =
        some (-1, [2, 1, 0]) ∧
      ¬RespectsBuffer [argP, argAb] 2 fun _ => 0 := by
  refine ⟨by decide, ?_⟩
  rintro ⟨bound, respects⟩
  obtain ⟨value, after, result, _, _, _, stores⟩ := respects (max bound 3) (Nat.le_max_left _ _)
  have overruns : Overruns [argAb] (2 : Int32).toInt :=
    ⟨[], argAb, [], rfl, by decide, .inl (by decide)⟩
  obtain ⟨i, stored, behind⟩ := getargsLoop_overruns (by decide) overruns (by
    intro arg member
    rw [List.mem_singleton.mp member]
    exact Nat.lt_of_lt_of_le (by decide) (Nat.le_max_right bound 3)) result
  have inside := stores i stored
  omega

end Syscalls

end Mp3Kernel
