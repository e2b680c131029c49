import Mp3Kernel.Library.Text

/-!
# The support library of the user programs

`ece391support.c`, as far as the programs here use it. A loop that the code does
not bound takes a number of rounds. What is passed to `ece391_write` is kept as a
list of writes.
-/

namespace Mp3Kernel

open Library

namespace Syscalls

/-- A string in a 32-bit address space. -/
structure CString where
  bytes : List UInt8
  nonzero : ∀ c ∈ bytes, c ≠ 0
  short : bytes.length < 2 ^ 32

/-- A constant string, as a pointer. -/
def literal (str : List UInt8) (k : Nat) : UInt8 := str.getD k 0

/-- The pointer to a string. -/
def CString.pointer (s : CString) : Nat → UInt8 := literal s.bytes

theorem literal_text {str : List UInt8} (nonzero : ∀ c ∈ str, c ≠ 0) : Text (literal str) str := by
  rw [text_iff]
  refine ⟨fun k inside => ?_, nonzero, ?_⟩
  · rw [literal, List.getD_eq_getElem?_getD, List.getElem?_eq_getElem inside, Option.getD_some]
  · rw [literal, List.getD_eq_getElem?_getD, List.getElem?_eq_none (Nat.le_refl _), Option.getD_none]

theorem CString.text (s : CString) : Text s.pointer s.bytes := literal_text s.nonzero

/-! ## `ece391_strlen` -/

def strlen (rounds : Nat) (s : Nat → UInt8) : Option UInt32 := (findNul s rounds 0).map UInt32.ofNat

variable {s s1 s2 : Nat → UInt8} {str : List UInt8} {rounds dst i : Nat} {a : LocalArray}

theorem strlen_eq (text : Text s str) (enough : str.length < rounds) :
    strlen rounds s = some (UInt32.ofNat str.length) := by
  have whole : Text (fun k => s (0 + k)) str := by simpa only [Nat.zero_add] using text
  rw [strlen, findNul_eq whole enough, Option.map_some, Nat.zero_add]

/-! ## `ece391_strcpy` -/

/-- `while ('\0' != (*dst++ = *src++))`. `source a` is what the pointer `src` leads to when the array of
`dst` is `a`: the two can overlap. -/
def strcpy (source : LocalArray → Nat → UInt8) (dst : Nat) : Nat → Nat → LocalArray → Option LocalArray
  | 0, _, _ => none
  | rounds + 1, i, a =>
    let c := source a i
    let a := a.store (dst + i) c
    if c = 0 then some a else strcpy source dst rounds (i + 1) a

/-- A copy from bytes that it has not overwritten yet stores the string and its NUL. -/
theorem strcpy_eq {source : LocalArray → Nat → UInt8}
    (unread : ∀ b k, (∀ j, dst + k ≤ j → b.bytes j = a.bytes j) → source b k = s k)
    (text : Text s str) (enough : str.length < rounds) :
    strcpy source dst rounds 0 a = some (a.storeList dst (str ++ [0])) := by
  -- What is stored up to index `i` is in front of what is still to be read.
  have from_index (str : List UInt8) (rounds i : Nat) (b : LocalArray)
      (behind : ∀ j, dst + i ≤ j → b.bytes j = a.bytes j) (text : Text (fun k => s (i + k)) str)
      (enough : str.length < rounds) :
      strcpy source dst rounds i b = some (b.storeList (dst + i) (str ++ [0])) := by
    induction str generalizing rounds i b with
    | nil =>
      cases rounds with
      | zero => exact absurd enough (Nat.not_lt_zero _)
      | succ rounds =>
        have last : s i = 0 := text
        rw [strcpy, unread b i behind, last]
        rfl
    | cons c cs ih =>
      cases rounds with
      | zero => exact absurd enough (Nat.not_lt_zero _)
      | succ rounds =>
        have here : s i = c := text.1
        have rest : Text (fun k => s (i + 1 + k)) cs := by
          simpa only [Nat.add_assoc, Nat.add_comm 1] using text.2.2
        have kept : ∀ j, dst + (i + 1) ≤ j → (b.store (dst + i) c).bytes j = a.bytes j := by
          intro j later
          rw [LocalArray.store_bytes, Function.update_of_ne (by omega), behind j (by omega)]
        rw [strcpy, unread b i behind, here]
        simp only [if_neg text.2.1]
        rw [ih rounds (i + 1) _ kept rest (Nat.lt_of_succ_lt_succ enough)]
        rfl
  refine from_index str rounds 0 a (fun _ _ => rfl) ?_ enough
  simpa only [Nat.zero_add] using text

/-! ## `ece391_strncmp` -/

/-- The loop of `ece391_strncmp`, with `n` characters to go. -/
def strncmpLoop (s1 s2 : Nat → UInt8) : Nat → Nat → Int32
  | 0, _ => 0
  | n + 1, i =>
    if s1 i = s2 i then
      if s1 i = 0 ∨ n = 0 then 0 else strncmpLoop s1 s2 n (i + 1)
    else (s1 i).toUInt32.toInt32 - (s2 i).toUInt32.toInt32

def strncmp (s1 s2 : Nat → UInt8) (n : UInt32) : Int32 := strncmpLoop s1 s2 n.toNat 0

theorem difference_ne_zero {c d : UInt8} (differ : c ≠ d) : c.toUInt32.toInt32 - d.toUInt32.toInt32 ≠ 0 := by
  intro zero
  refine differ (UInt8.toNat.inj ?_)
  have same : c.toUInt32 = d.toUInt32 :=
    congrArg Int32.toUInt32 ((Int32.sub_eq_iff_eq_add.mp zero).trans (Int32.zero_add _))
  exact congrArg UInt32.toNat same

/-- Compared over the length of one string, the other one starts with it or the result is not zero. -/
theorem strncmp_eq_zero_iff {text pattern : List UInt8} (first : Text s1 text) (second : Text s2 pattern)
    (short : pattern.length < 2 ^ 32) :
    strncmp s1 s2 (UInt32.ofNat pattern.length) = 0 ↔ pattern <+: text := by
  have from_index (str text : List UInt8) (i : Nat) (first : Text (fun k => s1 (i + k)) text)
      (second : Text (fun k => s2 (i + k)) str) : strncmpLoop s1 s2 str.length i = 0 ↔ str <+: text := by
    induction str generalizing text i with
    | nil => simp [strncmpLoop]
    | cons c cs ih =>
      have here : s2 i = c := second.1
      rw [List.length_cons, strncmpLoop, here]
      cases text with
      | nil =>
        have ended : s1 i = 0 := first
        rw [ended, if_neg second.2.1.symm, List.prefix_nil]
        simpa using difference_ne_zero second.2.1.symm
      | cons d ds =>
        have there : s1 i = d := first.1
        rw [there, List.cons_prefix_cons]
        -- The loop stops at the first difference, and behind the last character of the pattern.
        by_cases same : d = c
        · rw [if_pos same]
          cases cs with
          | nil => simp [same]
          | cons c' cs =>
            rw [if_neg (by simpa using first.2.1), ih ds (i + 1) ?_ ?_]
            · exact ⟨fun rest => ⟨same.symm, rest⟩, fun both => both.2⟩
            · simpa only [Nat.add_assoc, Nat.add_comm 1] using first.2.2
            · simpa only [Nat.add_assoc, Nat.add_comm 1] using second.2.2
        · rw [if_neg same]
          exact ⟨fun zero => absurd zero (difference_ne_zero same), fun both => absurd both.1.symm same⟩
  rw [strncmp, UInt32.toNat_ofNat_of_lt' short]
  refine from_index pattern text 0 ?_ ?_
  · simpa only [Nat.zero_add] using first
  · simpa only [Nat.zero_add] using second

/-! ## `ece391_strcmp` -/

def strcmp (s1 s2 : Nat → UInt8) : Nat → Nat → Option Int32
  | 0, _ => none
  | rounds + 1, i =>
    if s1 i = s2 i then
      if s1 i = 0 then some 0 else strcmp s1 s2 rounds (i + 1)
    else some ((s1 i).toUInt32.toInt32 - (s2 i).toUInt32.toInt32)

theorem strcmp_eq_zero_iff {first second : List UInt8} (text : Text (fun k => s1 (i + k)) first)
    (text' : Text (fun k => s2 (i + k)) second) (enough : first.length < rounds) :
    ∃ value, strcmp s1 s2 rounds i = some value ∧ (value = 0 ↔ first = second) := by
  induction first generalizing second rounds i with
  | nil =>
    cases rounds with
    | zero => exact absurd enough (Nat.not_lt_zero _)
    | succ rounds =>
      have ended : s1 i = 0 := text
      rw [strcmp, ended]
      cases second with
      | nil =>
        have ended' : s2 i = 0 := text'
        rw [ended', if_pos rfl, if_pos rfl]
        exact ⟨0, rfl, iff_of_true rfl rfl⟩
      | cons d ds =>
        have here : s2 i = d := text'.1
        rw [here, if_neg text'.2.1.symm]
        exact ⟨_, rfl, iff_of_false (difference_ne_zero text'.2.1.symm) (List.cons_ne_nil d ds).symm⟩
  | cons c cs ih =>
    cases rounds with
    | zero => exact absurd enough (Nat.not_lt_zero _)
    | succ rounds =>
      have here : s1 i = c := text.1
      rw [strcmp, here]
      cases second with
      | nil =>
        have ended' : s2 i = 0 := text'
        rw [ended', if_neg text.2.1]
        exact ⟨_, rfl, iff_of_false (difference_ne_zero text.2.1) (List.cons_ne_nil c cs)⟩
      | cons d ds =>
        have there : s2 i = d := text'.1
        rw [there]
        by_cases same : c = d
        · have rest : Text (fun k => s1 (i + 1 + k)) cs := by
            simpa only [Nat.add_assoc, Nat.add_comm 1] using text.2.2
          have rest' : Text (fun k => s2 (i + 1 + k)) ds := by
            simpa only [Nat.add_assoc, Nat.add_comm 1] using text'.2.2
          obtain ⟨value, result, zero⟩ := ih rest rest' (Nat.lt_of_succ_lt_succ enough)
          rw [if_pos same, if_neg text.2.1, result, same]
          exact ⟨value, rfl, by rw [zero, List.cons_inj_right]⟩
        · rw [if_neg same]
          exact ⟨_, rfl, iff_of_false (difference_ne_zero same) fun equal => same (List.cons.inj equal).1⟩

/-! ## `ece391_fdputs` -/

/-- A call of `ece391_write`. -/
structure Write where
  fd : Int32
  bytes : List UInt8
  deriving DecidableEq, Repr

/-- The result of `ece391_write` is not looked at. -/
def fdputs (rounds : Nat) (fd : Int32) (s : Nat → UInt8) (writes : List Write) : Option (List Write) := do
  let len ← strlen rounds s
  some (writes ++ [⟨fd, (List.range len.toNat).map s⟩])

theorem fdputs_eq {fd : Int32} {writes : List Write} (text : Text s str) (enough : str.length < rounds)
    (short : str.length < 2 ^ 32) : fdputs rounds fd s writes = some (writes ++ [⟨fd, str⟩]) := by
  rw [fdputs, strlen_eq text enough]
  simp only [Option.bind_eq_bind, Option.bind_some, UInt32.toNat_ofNat_of_lt' short]
  congr 4
  refine List.ext_getElem (by simp) fun k inside inside' => ?_
  rw [List.getElem_map, List.getElem_range]
  exact (text_iff.mp text).1 k inside'

end Syscalls

end Mp3Kernel
