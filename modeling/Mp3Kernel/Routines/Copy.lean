import Mp3Kernel.Routines.Basic

/-!
# `memcpy` and `memset`

Both go byte by byte to an address that is a multiple of 4, then by whole words
with a string instruction, and byte by byte again for what is left. `k` below is
the number of bytes that are done.
-/

namespace Mp3Kernel

open Library Memory

namespace Routines

/-! ## Byte by byte -/

/-- `for (k = 0; k < n; k++) dest[k] = src[k]` -/
def byteMemcpy (dest src : UInt32) (n : Nat) (bytes : UInt32 → UInt8) : UInt32 → UInt8 :=
  forLoop (fun k b => Function.update b (dest + UInt32.ofNat k) (b (src + UInt32.ofNat k))) n bytes

/-- `for (k = 0; k < n; k++) s[k] = value` -/
def byteMemset (s : UInt32) (value : UInt8) (n : Nat) (bytes : UInt32 → UInt8) : UInt32 → UInt8 :=
  forLoop (fun k b => Function.update b (s + UInt32.ofNat k) value) n bytes

/-- `after` is `before` with `value k` at `dest[k]` for every `k < n`. -/
structure Stored (dest : UInt32) (n : Nat) (value : Nat → UInt8) (before after : UInt32 → UInt8) :
    Prop where
  inside : ∀ k < n, after (dest + UInt32.ofNat k) = value k
  outside : ∀ a, n ≤ (a - dest).toNat → after a = before a

/-- No byte is stored over one that is still to be read when the bytes are copied upwards. -/
def Ahead (dest src : UInt32) (n : Nat) : Prop := ∀ k < n, k ≤ (src + UInt32.ofNat k - dest).toNat

variable {dest src : UInt32} {n k r : Nat} {bytes : UInt32 → UInt8} {s : Cpu}

theorem stored_fillBlock (value : Nat → UInt8) (fits : n ≤ 2 ^ 32) :
    Stored dest n value bytes (fillBlock dest n value bytes) := by
  constructor
  · intro k inside
    rw [fillBlock, toNat_offset (by omega), if_pos inside]
  · intro a outside
    rw [fillBlock, if_neg (by omega)]

theorem stored_copyBlock (fits : n ≤ 2 ^ 32) :
    Stored dest n (fun k => bytes (src + UInt32.ofNat k)) bytes (copyBlock dest src n bytes) := by
  constructor
  · intro k inside
    have distance : dest + UInt32.ofNat k - dest = UInt32.ofNat k := by grind
    rw [copyBlock, toNat_offset (by omega), if_pos inside, distance]
  · intro a outside
    rw [copyBlock, if_neg (by omega)]

theorem Ahead.mono (ahead : Ahead dest src n) {m : Nat} (le : m ≤ n) : Ahead dest src m :=
  fun k inside => ahead k (Nat.lt_of_lt_of_le inside le)

theorem Ahead.offset (ahead : Ahead dest src (k + n)) :
    Ahead (dest + UInt32.ofNat k) (src + UInt32.ofNat k) n := by
  intro j inside
  have bound := ahead (k + j) (by omega)
  have same : src + UInt32.ofNat k + UInt32.ofNat j - (dest + UInt32.ofNat k) =
      src + UInt32.ofNat (k + j) - (dest + UInt32.ofNat k) := by
    rw [UInt32.ofNat_add, UInt32.add_assoc]
  rw [same, toNat_sub_offset (Nat.le_trans (Nat.le_add_right k j) bound)]
  omega

/-- One more block behind those that are copied. -/
theorem Ahead.copyBlock_add (ahead : Ahead dest src (k + n)) (fits : k + n ≤ 2 ^ 32) :
    copyBlock (dest + UInt32.ofNat k) (src + UInt32.ofNat k) n (copyBlock dest src k bytes) =
      copyBlock dest src (k + n) bytes :=
  Memory.copyBlock_add fits fun j after inside => Nat.le_trans after (ahead j inside)

theorem byteMemcpy_eq (ahead : Ahead dest src n) (fits : n ≤ 2 ^ 32) :
    byteMemcpy dest src n bytes = copyBlock dest src n bytes := by
  induction n with
  | zero => exact (copyBlock_zero).symm
  | succ n ih =>
    rw [byteMemcpy, forLoop_succ]
    change Function.update (byteMemcpy dest src n bytes) _ (byteMemcpy dest src n bytes _) = _
    rw [ih (ahead.mono (Nat.le_succ n)) (by omega), update_eq_copyBlock, ahead.copyBlock_add fits]

theorem byteMemset_eq (value : UInt8) (fits : n ≤ 2 ^ 32) :
    byteMemset dest value n bytes = fillBlock dest n (fun _ => value) bytes := by
  induction n with
  | zero => exact (fillBlock_zero _).symm
  | succ n ih =>
    rw [byteMemset, forLoop_succ]
    change Function.update (byteMemset dest value n bytes) _ _ = _
    rw [ih (by omega), update_eq_fillBlock, fillBlock_add (fun _ => value) fits]

/-! ## `memcpy` -/

/-- At instruction `place` of `memcpy`, with `k` bytes copied. -/
structure Copying (dest src : UInt32) (bytes : UInt32 → UInt8) (place k : Nat) (s : Cpu) : Prop where
  place : s.eip = place
  source : s.esi = src + UInt32.ofNat k
  target : s.edi = dest + UInt32.ofNat k
  copied : s.bytes = copyBlock dest src k bytes

theorem ofNat_sub_one {n : Nat} : UInt32.ofNat (n + 1) - 1 = UInt32.ofNat n := by
  rw [UInt32.ofNat_add]
  grind

theorem ofNat_succ_ne_zero {n : Nat} (small : n + 1 < 2 ^ 32) : UInt32.ofNat (n + 1) ≠ 0 := by
  intro zero
  have value := congrArg UInt32.toNat zero
  rw [UInt32.toNat_ofNat_of_lt' small] at value
  exact absurd value (Nat.succ_ne_zero n)

/-- One more byte in either of the loops that copy bytes. -/
theorem Copying.next {place place' : Nat} {t : Cpu} (copying : Copying dest src bytes place k s)
    (ahead : Ahead dest src (k + 1)) (fits : k + 1 ≤ 2 ^ 32) (here : t.eip = place')
    (source : t.esi = s.esi + 1) (target : t.edi = s.edi + 1)
    (stored : t.bytes = Function.update s.bytes s.edi (s.bytes s.esi)) :
    Copying dest src bytes place' (k + 1) t := by
  constructor
  · exact here
  · rw [source, copying.source, UInt32.add_assoc, UInt32.ofNat_add]
    rfl
  · rw [target, copying.target, UInt32.add_assoc, UInt32.ofNat_add]
    rfl
  · rw [stored, update_eq_copyBlock, copying.copied, copying.source, copying.target,
      ahead.copyBlock_add fits]

/-- Instructions that touch neither pointers nor memory. -/
theorem Copying.move {place place' : Nat} {t : Cpu} (copying : Copying dest src bytes place k s)
    (here : t.eip = place') (source : t.esi = s.esi) (target : t.edi = s.edi) (same : t.bytes = s.bytes) :
    Copying dest src bytes place' k t :=
  ⟨here, source.trans copying.source, target.trans copying.target, same.trans copying.copied⟩

/-- A byte of the loop in front of the aligned part. -/
theorem head_copies (copying : Copying dest src bytes 0 k s) (more : s.ecx ≠ 0)
    (unaligned : 3 &&& s.edi ≠ 0) (ahead : Ahead dest src (k + 1)) (fits : k + 1 ≤ 2 ^ 32) :
    ∃ t, Within memcpyCode 11 s t ∧ Copying dest src bytes 0 (k + 1) t ∧ t.ecx = s.ecx - 1 := by
  obtain ⟨t, run⟩ : ∃ t, (step memcpyCode)^[11] s = t := ⟨_, rfl⟩
  refine ⟨t, ⟨11, Nat.le_refl 11, run⟩, ?_⟩
  simp [step, memcpyCode, execInstr, copying.place, Cpu.next, Cpu.flags, Cpu.get, Cpu.set, Cpu.al,
    labelPlace, more, unaligned] at run
  subst run
  exact ⟨copying.next ahead fits rfl rfl rfl rfl, rfl⟩

/-- A byte of the loop behind the aligned part. -/
theorem tail_copies (copying : Copying dest src bytes 19 k s) (more : s.edx ≠ 0)
    (ahead : Ahead dest src (k + 1)) (fits : k + 1 ≤ 2 ^ 32) :
    ∃ t, Within memcpyCode 9 s t ∧ Copying dest src bytes 19 (k + 1) t ∧ t.edx = s.edx - 1 := by
  obtain ⟨t, run⟩ : ∃ t, (step memcpyCode)^[9] s = t := ⟨_, rfl⟩
  refine ⟨t, ⟨9, Nat.le_refl 9, run⟩, ?_⟩
  simp [step, memcpyCode, execInstr, copying.place, Cpu.next, Cpu.flags, Cpu.get, Cpu.set, Cpu.al,
    labelPlace, more] at run
  subst run
  exact ⟨copying.next ahead fits rfl rfl rfl rfl, rfl⟩

/-- All bytes of the loop behind the aligned part. -/
theorem tail_loop (copying : Copying dest src bytes 19 k s) (left : s.edx = UInt32.ofNat r)
    (ahead : Ahead dest src (k + r)) (small : k + r < 2 ^ 32) :
    ∃ t, Within memcpyCode (9 * r + 4) s t ∧ Copying dest src bytes 29 (k + r) t := by
  induction r generalizing k s with
  | zero =>
    have none : s.edx = 0 := left
    obtain ⟨t, run⟩ : ∃ t, (step memcpyCode)^[4] s = t := ⟨_, rfl⟩
    refine ⟨t, ⟨4, Nat.le_refl 4, run⟩, ?_⟩
    simp [step, memcpyCode, execInstr, copying.place, Cpu.next, Cpu.flags, Cpu.get, labelPlace, none] at run
    subst run
    exact copying.move rfl rfl rfl rfl
  | succ r ih =>
    have more : s.edx ≠ 0 := left ▸ ofNat_succ_ne_zero (by omega)
    obtain ⟨t, first, copying', left'⟩ := tail_copies copying more (ahead.mono (by omega)) (by omega)
    rw [left, ofNat_sub_one] at left'
    have count : k + 1 + r = k + (r + 1) := by omega
    obtain ⟨u, rest, done⟩ := ih copying' left' (count ▸ ahead) (by omega)
    refine ⟨u, (first.trans rest).mono (by omega), ?_⟩
    rw [← count]
    exact done

/-- The string instruction copies `r` words. -/
theorem words_copied (copying : Copying dest src bytes 18 k s) (upwards : s.df = false)
    (left : s.ecx.toNat = r) (ahead : Ahead dest src (k + 4 * r)) (small : k + 4 * r < 2 ^ 32) :
    ∃ t, Within memcpyCode (r + 1) s t ∧ Copying dest src bytes 19 (k + 4 * r) t ∧ t.edx = s.edx := by
  have rep := @within_rep _ _ memcpyCode s (.repMovs .dword) (Cpu.movsRound .dword) (fun _ => rfl)
    (fun _ => rfl) (fun _ => rfl) (by rw [copying.place]; rfl)
  have unread : ∀ j < 4 * r, j ≤ (s.esi + UInt32.ofNat j - s.edi).toNat := by
    rw [copying.source, copying.target]
    exact ahead.offset
  rw [left, iterate_movsRound .dword upwards (by simp only [Width.size]; omega) unread] at rep
  refine ⟨_, rep, ⟨?_, ?_, ?_, ?_⟩, rfl⟩
  · simp only [Cpu.next, copying.place]
  · simp only [Cpu.next, copying.source, UInt32.add_assoc, ← UInt32.ofNat_add, Width.size]
  · simp only [Cpu.next, copying.target, UInt32.add_assoc, ← UInt32.ofNat_add, Width.size]
  · simp only [Cpu.next, copying.source, copying.target, copying.copied, Width.size]
    exact ahead.copyBlock_add (by omega)

/-- How `%ecx` and `%edx` divide the bytes that are left. -/
theorem words_and_rest {left : UInt32} {r : Nat} (count : left.toNat = r) :
    (left >>> 2).toNat = r / 4 ∧ left &&& 3 = UInt32.ofNat (r % 4) := by
  constructor
  · rw [UInt32.toNat_shiftRight, count]
    exact Nat.shiftRight_eq_div_pow r 2
  · apply UInt32.toNat_inj.mp
    rw [UInt32.toNat_and, count, UInt32.toNat_ofNat_of_lt' (show r % 4 < 2 ^ 32 by omega)]
    exact Nat.and_two_pow_sub_one_eq_mod r 2

/-- The aligned part copies the words that are left, and the loop behind it the other bytes. -/
theorem aligned_copies (copying : Copying dest src bytes 11 k s) (left : s.ecx.toNat = r)
    (ahead : Ahead dest src (k + r)) (small : k + r < 2 ^ 32) :
    ∃ t, Within memcpyCode (r + 48) s t ∧ Copying dest src bytes 29 (k + r) t := by
  obtain ⟨words, rest⟩ := words_and_rest left
  have split : 4 * (r / 4) + r % 4 = r := Nat.div_add_mod r 4
  obtain ⟨t, setup, copying', upwards, count, others⟩ :
      ∃ t, Within memcpyCode 7 s t ∧ Copying dest src bytes 18 k t ∧ t.df = false ∧
        t.ecx = s.ecx >>> 2 ∧ t.edx = s.ecx &&& 3 := by
    obtain ⟨t, run⟩ : ∃ t, (step memcpyCode)^[7] s = t := ⟨_, rfl⟩
    refine ⟨t, ⟨7, Nat.le_refl 7, run⟩, ?_⟩
    simp [step, memcpyCode, execInstr, copying.place, Cpu.next, Cpu.flags, Cpu.get, Cpu.set] at run
    subst run
    exact ⟨copying.move rfl rfl rfl rfl, rfl, rfl, rfl⟩
  rw [← count] at words
  obtain ⟨u, rep, copied, kept⟩ := words_copied copying' upwards words (ahead.mono (by omega)) (by omega)
  have count' : k + 4 * (r / 4) + r % 4 = k + r := by omega
  obtain ⟨v, finish, done⟩ := tail_loop copied (kept.trans (others.trans rest)) (count' ▸ ahead) (by omega)
  refine ⟨v, ((setup.trans rep).trans finish).mono (by omega), ?_⟩
  rw [← count']
  exact done

/-- The whole routine, from its first label. -/
theorem memcpy_loop (copying : Copying dest src bytes 0 k s) (left : s.ecx = UInt32.ofNat r)
    (ahead : Ahead dest src (k + r)) (small : k + r < 2 ^ 32) :
    ∃ t, Within memcpyCode (11 * r + 60) s t ∧ Copying dest src bytes 29 (k + r) t := by
  induction r generalizing k s with
  | zero =>
    have none : s.ecx = 0 := left
    obtain ⟨t, run⟩ : ∃ t, (step memcpyCode)^[4] s = t := ⟨_, rfl⟩
    refine ⟨t, ⟨4, by omega, run⟩, ?_⟩
    simp [step, memcpyCode, execInstr, copying.place, Cpu.next, Cpu.flags, Cpu.get, labelPlace, none] at run
    subst run
    exact copying.move rfl rfl rfl rfl
  | succ r ih =>
    have more : s.ecx ≠ 0 := left ▸ ofNat_succ_ne_zero (by omega)
    by_cases aligned : 3 &&& s.edi = 0
    · obtain ⟨t, entry, copying', same⟩ :
          ∃ t, Within memcpyCode 5 s t ∧ Copying dest src bytes 11 k t ∧ t.ecx = s.ecx := by
        obtain ⟨t, run⟩ : ∃ t, (step memcpyCode)^[5] s = t := ⟨_, rfl⟩
        refine ⟨t, ⟨5, Nat.le_refl 5, run⟩, ?_⟩
        simp [step, memcpyCode, execInstr, copying.place, Cpu.next, Cpu.flags, Cpu.get, labelPlace, more,
          aligned] at run
        subst run
        exact ⟨copying.move rfl rfl rfl rfl, rfl⟩
      -- From here on it goes by double words, up to the last three bytes.
      have count : t.ecx.toNat = r + 1 := by
        rw [same, left, UInt32.toNat_ofNat_of_lt' (show r + 1 < 2 ^ 32 by omega)]
      obtain ⟨u, rest, done⟩ := aligned_copies copying' count ahead small
      exact ⟨u, (entry.trans rest).mono (by omega), done⟩
    · obtain ⟨t, first, copying', left'⟩ := head_copies copying more aligned (ahead.mono (by omega)) (by omega)
      rw [left, ofNat_sub_one] at left'
      have count : k + 1 + r = k + (r + 1) := by omega
      obtain ⟨u, rest, done⟩ := ih copying' left' (count ▸ ahead) (by omega)
      refine ⟨u, (first.trans rest).mono (by omega), ?_⟩
      rw [← count]
      exact done

/-- `memcpy` ends, and has copied all bytes when it does. -/
theorem memcpy_copyBlock (dest src n : UInt32) (ahead : Ahead dest src n.toNat) (s : Cpu) :
    (memcpy dest src n s).eip = memcpyCode.length ∧
      (memcpy dest src n s).bytes = copyBlock dest src n.toNat s.bytes := by
  have entry : Copying dest src s.bytes 0 0 { s with eip := 0, esi := src, edi := dest, ecx := n } :=
    ⟨rfl, (UInt32.add_zero src).symm, (UInt32.add_zero dest).symm, copyBlock_zero.symm⟩
  have whole := memcpy_loop (r := n.toNat) entry UInt32.ofNat_toNat.symm (by rwa [Nat.zero_add])
    (by rw [Nat.zero_add]; exact n.toNat_lt)
  rw [Nat.zero_add] at whole
  obtain ⟨t, reached, done⟩ := whole
  have result : memcpy dest src n s = t :=
    reached.iterate (Nat.le_of_eq done.place.symm) (show _ ≤ stepBound n by simp only [stepBound]; omega)
  rw [result]
  exact ⟨done.place, done.copied⟩

/-! ## `memset` -/

/-- `c & 0xFF` as a byte. -/
def fillByte (c : Int32) : UInt8 := (c &&& 0xFF).toUInt32.toUInt8

/-- `c << 24 | c << 16 | c << 8 | c` has `c & 0xFF` in each of its bytes. -/
theorem byteOf_memsetPattern (c : Int32) {j : Nat} (inside : j < 4) :
    byteOf (memsetPattern c) j = fillByte c := by
  apply UInt8.toBitVec_inj.mp
  apply BitVec.eq_of_getLsbD_eq
  intro i small
  rw [getLsbD_byteOf _ inside small]
  simp only [memsetPattern, fillByte, Int32.toBitVec_toUInt32]
  interval_cases j <;> interval_cases i <;> simp

variable {value : UInt8} {place place' : Nat}

/-- At instruction `place` of `memset`, with `k` bytes stored. -/
structure Filling (dest : UInt32) (value : UInt8) (bytes : UInt32 → UInt8) (place k : Nat) (s : Cpu) :
    Prop where
  place : s.eip = place
  target : s.edi = dest + UInt32.ofNat k
  filled : s.bytes = fillBlock dest k (fun _ => value) bytes
  pattern : ∀ j < 4, byteOf s.eax j = value

theorem Filling.al (filling : Filling dest value bytes place k s) : s.al = value :=
  filling.pattern 0 (by omega)

theorem Filling.move {t : Cpu} (filling : Filling dest value bytes place k s) (here : t.eip = place')
    (target : t.edi = s.edi) (same : t.bytes = s.bytes) (pattern : t.eax = s.eax) :
    Filling dest value bytes place' k t :=
  ⟨here, target.trans filling.target, same.trans filling.filled, pattern ▸ filling.pattern⟩

/-- One more byte in either of the loops that store bytes. -/
theorem Filling.next {t : Cpu} (filling : Filling dest value bytes place k s) (fits : k + 1 ≤ 2 ^ 32)
    (here : t.eip = place') (target : t.edi = s.edi + 1)
    (stored : t.bytes = Function.update s.bytes s.edi s.al) (pattern : t.eax = s.eax) :
    Filling dest value bytes place' (k + 1) t := by
  constructor
  · exact here
  · rw [target, filling.target, UInt32.add_assoc, UInt32.ofNat_add]
    rfl
  · rw [stored, update_eq_fillBlock, filling.filled, filling.target, filling.al,
      fillBlock_add (fun _ => value) fits]
  · rw [pattern]
    exact filling.pattern

/-- A byte of the loop in front of the aligned part. -/
theorem head_fills (filling : Filling dest value bytes 0 k s) (more : s.ecx ≠ 0)
    (unaligned : 3 &&& s.edi ≠ 0) (fits : k + 1 ≤ 2 ^ 32) :
    ∃ t, Within memsetCode 9 s t ∧ Filling dest value bytes 0 (k + 1) t ∧ t.ecx = s.ecx - 1 := by
  obtain ⟨t, run⟩ : ∃ t, (step memsetCode)^[9] s = t := ⟨_, rfl⟩
  refine ⟨t, ⟨9, Nat.le_refl 9, run⟩, ?_⟩
  simp [step, memsetCode, execInstr, filling.place, Cpu.next, Cpu.flags, Cpu.get, Cpu.set, labelPlace, more,
    unaligned] at run
  subst run
  exact ⟨filling.next fits rfl rfl rfl rfl, rfl⟩

/-- A byte of the loop behind the aligned part. -/
theorem tail_fills (filling : Filling dest value bytes 17 k s) (more : s.edx ≠ 0)
    (fits : k + 1 ≤ 2 ^ 32) :
    ∃ t, Within memsetCode 7 s t ∧ Filling dest value bytes 17 (k + 1) t ∧ t.edx = s.edx - 1 := by
  obtain ⟨t, run⟩ : ∃ t, (step memsetCode)^[7] s = t := ⟨_, rfl⟩
  refine ⟨t, ⟨7, Nat.le_refl 7, run⟩, ?_⟩
  simp [step, memsetCode, execInstr, filling.place, Cpu.next, Cpu.flags, Cpu.get, Cpu.set, labelPlace,
    more] at run
  subst run
  exact ⟨filling.next fits rfl rfl rfl rfl, rfl⟩

/-- All bytes of the loop behind the aligned part. -/
theorem tail_fill_loop (filling : Filling dest value bytes 17 k s) (left : s.edx = UInt32.ofNat r)
    (small : k + r < 2 ^ 32) :
    ∃ t, Within memsetCode (7 * r + 4) s t ∧ Filling dest value bytes 25 (k + r) t := by
  induction r generalizing k s with
  | zero =>
    have none : s.edx = 0 := left
    obtain ⟨t, run⟩ : ∃ t, (step memsetCode)^[4] s = t := ⟨_, rfl⟩
    refine ⟨t, ⟨4, Nat.le_refl 4, run⟩, ?_⟩
    simp [step, memsetCode, execInstr, filling.place, Cpu.next, Cpu.flags, Cpu.get, labelPlace, none] at run
    subst run
    exact filling.move rfl rfl rfl rfl
  | succ r ih =>
    have more : s.edx ≠ 0 := left ▸ ofNat_succ_ne_zero (by omega)
    obtain ⟨t, first, filling', left'⟩ := tail_fills filling more (by omega)
    rw [left, ofNat_sub_one] at left'
    have count : k + 1 + r = k + (r + 1) := by omega
    obtain ⟨u, rest, done⟩ := ih filling' left' (by omega)
    refine ⟨u, (first.trans rest).mono (by omega), ?_⟩
    rw [← count]
    exact done

/-- The string instruction stores `r` words. -/
theorem words_filled (filling : Filling dest value bytes 16 k s) (upwards : s.df = false)
    (left : s.ecx.toNat = r) (small : k + 4 * r < 2 ^ 32) :
    ∃ t, Within memsetCode (r + 1) s t ∧ Filling dest value bytes 17 (k + 4 * r) t ∧ t.edx = s.edx := by
  have rep := @within_rep _ _ memsetCode s (.repStos .dword) (Cpu.stosRound .dword) (fun _ => rfl)
    (fun _ => rfl) (fun _ => rfl) (by rw [filling.place]; rfl)
  have pattern : (fun j => byteOf s.eax (j % 4)) = fun _ => value := by
    funext j
    exact filling.pattern (j % 4) (Nat.mod_lt j (by omega))
  rw [left, iterate_stosRound .dword upwards (by simp only [Width.size]; omega)] at rep
  refine ⟨_, rep, ⟨?_, ?_, ?_, filling.pattern⟩, rfl⟩
  · simp only [Cpu.next, filling.place]
  · simp only [Cpu.next, filling.target, UInt32.add_assoc, ← UInt32.ofNat_add, Width.size]
  · simp only [Cpu.next, filling.target, filling.filled, Width.size, pattern]
    exact fillBlock_add (fun _ => value) (by omega)

/-- The aligned part stores the words that are left, and the loop behind it the other bytes. -/
theorem aligned_fills (filling : Filling dest value bytes 9 k s) (left : s.ecx.toNat = r)
    (small : k + r < 2 ^ 32) :
    ∃ t, Within memsetCode (r + 40) s t ∧ Filling dest value bytes 25 (k + r) t := by
  obtain ⟨words, rest⟩ := words_and_rest left
  have split : 4 * (r / 4) + r % 4 = r := Nat.div_add_mod r 4
  obtain ⟨t, setup, filling', upwards, count, others⟩ :
      ∃ t, Within memsetCode 7 s t ∧ Filling dest value bytes 16 k t ∧ t.df = false ∧
        t.ecx = s.ecx >>> 2 ∧ t.edx = s.ecx &&& 3 := by
    obtain ⟨t, run⟩ : ∃ t, (step memsetCode)^[7] s = t := ⟨_, rfl⟩
    refine ⟨t, ⟨7, Nat.le_refl 7, run⟩, ?_⟩
    simp [step, memsetCode, execInstr, filling.place, Cpu.next, Cpu.flags, Cpu.get, Cpu.set] at run
    subst run
    exact ⟨filling.move rfl rfl rfl rfl, rfl, rfl, rfl⟩
  rw [← count] at words
  obtain ⟨u, rep, filled, kept⟩ := words_filled filling' upwards words (by omega)
  have count' : k + 4 * (r / 4) + r % 4 = k + r := by omega
  obtain ⟨v, finish, done⟩ := tail_fill_loop filled (kept.trans (others.trans rest)) (by omega)
  refine ⟨v, ((setup.trans rep).trans finish).mono (by omega), ?_⟩
  rw [← count']
  exact done

/-- The whole routine, from its first label. -/
theorem memset_loop (filling : Filling dest value bytes 0 k s) (left : s.ecx = UInt32.ofNat r)
    (small : k + r < 2 ^ 32) :
    ∃ t, Within memsetCode (9 * r + 60) s t ∧ Filling dest value bytes 25 (k + r) t := by
  induction r generalizing k s with
  | zero =>
    have none : s.ecx = 0 := left
    obtain ⟨t, run⟩ : ∃ t, (step memsetCode)^[4] s = t := ⟨_, rfl⟩
    refine ⟨t, ⟨4, by omega, run⟩, ?_⟩
    simp [step, memsetCode, execInstr, filling.place, Cpu.next, Cpu.flags, Cpu.get, labelPlace, none] at run
    subst run
    exact filling.move rfl rfl rfl rfl
  | succ r ih =>
    have more : s.ecx ≠ 0 := left ▸ ofNat_succ_ne_zero (by omega)
    by_cases aligned : 3 &&& s.edi = 0
    · obtain ⟨t, entry, filling', same⟩ :
          ∃ t, Within memsetCode 5 s t ∧ Filling dest value bytes 9 k t ∧ t.ecx = s.ecx := by
        obtain ⟨t, run⟩ : ∃ t, (step memsetCode)^[5] s = t := ⟨_, rfl⟩
        refine ⟨t, ⟨5, Nat.le_refl 5, run⟩, ?_⟩
        simp [step, memsetCode, execInstr, filling.place, Cpu.next, Cpu.flags, Cpu.get, labelPlace, more,
          aligned] at run
        subst run
        exact ⟨filling.move rfl rfl rfl rfl, rfl⟩
      -- From here on it goes by double words, up to the last three bytes.
      have count : t.ecx.toNat = r + 1 := by
        rw [same, left, UInt32.toNat_ofNat_of_lt' (show r + 1 < 2 ^ 32 by omega)]
      obtain ⟨u, rest, done⟩ := aligned_fills filling' count small
      exact ⟨u, (entry.trans rest).mono (by omega), done⟩
    · obtain ⟨t, first, filling', left'⟩ := head_fills filling more aligned (by omega)
      rw [left, ofNat_sub_one] at left'
      have count : k + 1 + r = k + (r + 1) := by omega
      obtain ⟨u, rest, done⟩ := ih filling' left' (by omega)
      refine ⟨u, (first.trans rest).mono (by omega), ?_⟩
      rw [← count]
      exact done

/-- `memset` ends, and has stored all bytes when it does. -/
theorem memset_fillBlock (dest : UInt32) (c : Int32) (n : UInt32) (s : Cpu) :
    (memset dest c n s).eip = memsetCode.length ∧
      (memset dest c n s).bytes = fillBlock dest n.toNat (fun _ => fillByte c) s.bytes := by
  have entry : Filling dest (fillByte c) s.bytes 0 0
      { s with eip := 0, eax := memsetPattern c, edi := dest, ecx := n } :=
    ⟨rfl, (UInt32.add_zero dest).symm, (fillBlock_zero _).symm, fun _ => byteOf_memsetPattern c⟩
  have whole := memset_loop (r := n.toNat) entry UInt32.ofNat_toNat.symm
    (by rw [Nat.zero_add]; exact n.toNat_lt)
  rw [Nat.zero_add] at whole
  obtain ⟨t, reached, done⟩ := whole
  have result : memset dest c n s = t :=
    reached.iterate (Nat.le_of_eq done.place.symm) (show _ ≤ stepBound n by simp only [stepBound]; omega)
  rw [result]
  exact ⟨done.place, done.filled⟩

/-! ## The routines against the byte loops -/

/-- Ranges that do not wrap and do not meet are far enough apart. -/
theorem ahead_of_disjoint {m : Nat} (destFits : dest.toNat + m ≤ 2 ^ 32) (srcFits : src.toNat + m ≤ 2 ^ 32)
    (disjoint : dest.toNat + m ≤ src.toNat ∨ src.toNat + m ≤ dest.toNat) : Ahead dest src m := by
  intro k inside
  have size : (UInt32.ofNat k).toNat = k :=
    UInt32.toNat_ofNat_of_lt' (show k < 2 ^ 32 by omega)
  have place : (src + UInt32.ofNat k).toNat = src.toNat + k := by
    rw [toNat_add_of_lt (by omega), size]
  rw [UInt32.toNat_sub, place]
  omega

/-- For ranges that do not wrap around and do not meet, `memcpy` ends with the memory that the byte
loop leaves; and so does `memset`, for any range. -/
theorem memcpy_memset_agree (dest src n : UInt32) (destFits : dest.toNat + n.toNat ≤ 2 ^ 32)
    (srcFits : src.toNat + n.toNat ≤ 2 ^ 32)
    (disjoint : dest.toNat + n.toNat ≤ src.toNat ∨ src.toNat + n.toNat ≤ dest.toNat)
    (area : UInt32) (c : Int32) (m : UInt32) (s : Cpu) :
    ((memcpy dest src n s).eip = memcpyCode.length ∧
      (memcpy dest src n s).bytes = byteMemcpy dest src n.toNat s.bytes ∧
      Stored dest n.toNat (fun k => s.bytes (src + UInt32.ofNat k)) s.bytes (memcpy dest src n s).bytes) ∧
    (memset area c m s).eip = memsetCode.length ∧
      (memset area c m s).bytes = byteMemset area (fillByte c) m.toNat s.bytes ∧
      Stored area m.toNat (fun _ => fillByte c) s.bytes (memset area c m s).bytes := by
  have fits := Nat.le_of_lt n.toNat_lt
  have fits' := Nat.le_of_lt m.toNat_lt
  have ahead := ahead_of_disjoint destFits srcFits disjoint
  obtain ⟨ended, copied⟩ := memcpy_copyBlock dest src n ahead s
  obtain ⟨ended', filled⟩ := memset_fillBlock area c m s
  refine ⟨⟨ended, ?_, ?_⟩, ended', ?_, ?_⟩
  · rw [copied, byteMemcpy_eq ahead fits]
  · rw [copied]
    exact stored_copyBlock fits
  · rw [filled, byteMemset_eq _ fits']
  · rw [filled]
    exact stored_fillBlock _ fits'

/-- A state in front of a call, with the direction flag set. -/
def beforeCall : Cpu := ⟨0, 0, 0, 0, 0, 0, 0, 0, false, false, true, fun a => a.toUInt8⟩

/-- Seven bytes from an odd address to another one. -/
theorem memcpy_memset_agree_sample :
    (memcpy 0x1001 0x2003 7 beforeCall).bytes = byteMemcpy 0x1001 0x2003 7 beforeCall.bytes ∧
    (memset 0x1001 0x141 7 beforeCall).bytes = byteMemset 0x1001 0x41 7 beforeCall.bytes := by
  have agree := memcpy_memset_agree 0x1001 0x2003 7 (by decide) (by decide) (by decide) 0x1001 0x141 7
    beforeCall
  exact ⟨agree.1.2.1, agree.2.2.1⟩

end Routines

end Mp3Kernel
