import Mathlib.Data.Nat.Digits.Lemmas
import Mp3Kernel.Format.Basic

/-!
# What `itoa` writes

The division loop stores the digits of the value from the lowest place on, and
`strrev` turns them around. Read as a positional numeral, the string is the value
again.
-/

namespace Mp3Kernel

open Library

/-! ## Numerals -/

namespace Format

/-- The numeral of `value`, its highest digit first. -/
def numeral (radix value : Nat) : List UInt8 :=
  if value = 0 then [digitZero] else (Nat.digits radix value).reverse.map fun d => lookup.getD d 0

/-- The value of a digit of the alphabet. -/
def digitValue (c : UInt8) : Nat := lookup.idxOf c

/-- The value of a string of digits, the most significant first. -/
def positionalValue (radix : Nat) (str : List UInt8) : Nat :=
  str.foldl (fun value c => radix * value + digitValue c) 0

variable {radix value : Nat}

theorem digitValue_lookup {d : Nat} (inside : d < 36) : digitValue (lookup.getD d 0) = d := by
  interval_cases d <;> rfl

theorem lookup_ne_nul {d : Nat} (inside : d < 36) : lookup.getD d 0 ≠ 0 := by
  interval_cases d <;> decide

theorem positionalValue_digits {digits : List Nat} (inside : ∀ d ∈ digits, d < 36) :
    positionalValue radix (digits.reverse.map fun d => lookup.getD d 0) = Nat.ofDigits radix digits := by
  rw [positionalValue, List.map_reverse, List.foldl_reverse]
  induction digits with
  | nil => rfl
  | cons d digits ih =>
    rw [List.forall_mem_cons] at inside
    rw [List.map_cons, List.foldr_cons, ih inside.2, digitValue_lookup inside.1, Nat.ofDigits_cons]
    simp [Nat.add_comm]

theorem positionalValue_numeral (low : 2 ≤ radix) (high : radix ≤ 36) :
    positionalValue radix (numeral radix value) = value := by
  rw [numeral]
  split
  next zero =>
    rw [zero]
    rfl
  next =>
    rw [positionalValue_digits fun d member => Nat.lt_of_lt_of_le (Nat.digits_lt_base low member) high,
      Nat.ofDigits_digits]

theorem mem_numeral (low : 2 ≤ radix) {c : UInt8} (member : c ∈ numeral radix value) :
    ∃ d < radix, c = lookup.getD d 0 := by
  rw [numeral] at member
  split at member
  next => exact ⟨0, by omega, List.mem_singleton.mp member⟩
  next =>
    obtain ⟨d, digit, rfl⟩ := List.mem_map.mp member
    exact ⟨d, Nat.digits_lt_base low (List.mem_reverse.mp digit), rfl⟩

theorem numeral_ne_nul (low : 2 ≤ radix) (high : radix ≤ 36) {c : UInt8} (member : c ∈ numeral radix value) :
    c ≠ 0 := by
  obtain ⟨d, inside, rfl⟩ := mem_numeral low member
  exact lookup_ne_nul (Nat.lt_of_lt_of_le inside high)

/-- Only the numeral of 0 starts with a zero. -/
theorem head_numeral (low : 2 ≤ radix) (high : radix ≤ 36) :
    (numeral radix value).head? = some digitZero ↔ value = 0 := by
  rw [numeral]
  split
  next zero => exact iff_of_true rfl zero
  next nonzero =>
    refine iff_of_false ?_ nonzero
    have some := Nat.digits_ne_nil_iff_ne_zero (b := radix).mpr nonzero
    have last := Nat.getLast_digit_ne_zero radix nonzero
    have inside : (Nat.digits radix value).getLast some < 36 :=
      Nat.lt_of_lt_of_le (Nat.digits_lt_base low (List.getLast_mem some)) high
    rw [List.head?_map, List.head?_reverse, List.getLast?_eq_getLast_of_ne_nil some, Option.map_some,
      Option.some_inj]
    intro same
    have value := congrArg digitValue same
    rw [digitValue_lookup inside] at value
    exact last value

/-- A 32-bit number has 32 digits at most. -/
theorem length_numeral_le (radix : Nat) (low : 2 ≤ radix) (small : value < 2 ^ 32) :
    (numeral radix value).length ≤ 32 := by
  rw [numeral]
  split
  next => exact Nat.succ_le_succ (Nat.zero_le _)
  next =>
    rw [List.length_map, List.length_reverse, Nat.digits_length_le_iff (by omega)]
    exact Nat.lt_of_lt_of_le small (Nat.pow_le_pow_left low 32)

/-! ## The loops -/

/-- `after` is `before` with `str` and a NUL from `s` on, and nothing else was stored to. -/
structure Written (s : Nat) (str : List UInt8) (before after : LocalArray) : Prop where
  inside : ∀ k (inside : k < str.length), after.bytes (s + k) = str[k]
  nul : after.bytes (s + str.length) = 0
  outside : ∀ i, i < s ∨ s + str.length < i → after.bytes i = before.bytes i
  stores : ∀ i ∈ after.stores, (s ≤ i ∧ i ≤ s + str.length) ∨ i ∈ before.stores

variable {s rounds : Nat} {buf : LocalArray} {str : List UInt8}

theorem digitLoop_eq {radix : Int32} {r : Nat} (same : radix.toInt = r) (low : 2 ≤ r) {newval : UInt32}
    {newbuf : Nat} (enough : (Nat.digits r newval.toNat).length < rounds) :
    digitLoop radix rounds newval newbuf buf =
      some (newbuf + (Nat.digits r newval.toNat).length,
        LocalArray.storeList newbuf ((Nat.digits r newval.toNat).map fun d => lookup.getD d 0) buf) := by
  have base : radix.toUInt32.toNat = r := by
    have signed := toNat_toUInt32 radix
    have upper : radix.toInt < 2 ^ 31 := radix.toInt_lt
    omega
  induction rounds generalizing newval newbuf buf with
  | zero => exact absurd enough (Nat.not_lt_zero _)
  | succ rounds ih =>
    rw [digitLoop]
    by_cases done : newval.toNat = 0
    · have zero : newval = 0 := UInt32.toNat_inj.mp done
      rw [zero, if_neg (by decide)]
      simp [LocalArray.storeList]
    · have more : 0 < newval := Nat.pos_of_ne_zero done
      have quotient : (newval / radix.toUInt32).toNat = newval.toNat / r := by rw [UInt32.toNat_div, base]
      have remainder : (newval % radix.toUInt32).toNat = newval.toNat % r := by rw [UInt32.toNat_mod, base]
      have digits := Nat.digits_def' (show 1 < r by omega) (Nat.pos_of_ne_zero done)
      rw [digits, List.length_cons] at enough
      rw [if_pos more, digits]
      simp only
      rw [ih (by rw [quotient]; omega), quotient, remainder, List.map_cons, LocalArray.storeList,
        List.length_cons, Nat.add_assoc, Nat.add_comm 1]

/-- The loop of `strrev` turns a window of `n` bytes around, from both ends to the middle. -/
theorem strrevLoop_reverses {beg n : Nat} {fin : Int} (window : fin = beg + n - 1) (enough : n < 2 * rounds) :
    ∃ buf', strrevLoop s rounds beg fin buf = some buf' ∧
      (∀ k < n, buf'.bytes (s + beg + k) = buf.bytes (s + beg + (n - 1 - k))) ∧
      (∀ i, i < s + beg ∨ s + beg + n ≤ i → buf'.bytes i = buf.bytes i) ∧
      ∀ i ∈ buf'.stores, (s + beg ≤ i ∧ i < s + beg + n) ∨ i ∈ buf.stores := by
  induction rounds generalizing beg fin n buf with
  | zero => omega
  | succ rounds ih =>
    rw [strrevLoop]
    by_cases cross : (beg : Int) < fin
    · obtain ⟨m, rfl⟩ : ∃ m, n = m + 2 := ⟨n - 2, by omega⟩
      have last : fin.toNat = beg + m + 1 := by omega
      rw [if_pos cross, last]
      -- The two ends are exchanged, and the window between them is left.
      obtain ⟨buf', result, reversed, others, stores⟩ := @ih
        ((buf.store (s + (beg + m + 1)) (buf.bytes (s + beg))).store (s + beg)
          (buf.bytes (s + (beg + m + 1)))) (beg + 1) m (fin - 1) (by omega) (by omega)
      refine ⟨buf', result, ?_, ?_, ?_⟩
      · intro k inside
        by_cases first : k = 0
        · rw [first, Nat.add_zero, others _ (by omega), LocalArray.store_bytes, Function.update_self]
          congr 1
          omega
        · by_cases final : k = m + 1
          · rw [others _ (by omega), LocalArray.store_bytes, Function.update_of_ne (by omega),
              LocalArray.store_bytes, final, show s + beg + (m + 1) = s + (beg + m + 1) by omega,
              Function.update_self]
            congr 1
            omega
          · have middle := reversed (k - 1) (by omega)
            rw [show s + (beg + 1) + (k - 1) = s + beg + k by omega] at middle
            rw [middle, LocalArray.store_bytes, Function.update_of_ne (by omega), LocalArray.store_bytes,
              Function.update_of_ne (by omega)]
            congr 1
            omega
      · intro i outside
        rw [others i (by omega), LocalArray.store_bytes, Function.update_of_ne (by omega),
          LocalArray.store_bytes, Function.update_of_ne (by omega)]
      · intro i member
        rcases stores i member with between | before
        · exact .inl (by omega)
        · rw [LocalArray.store_stores, LocalArray.store_stores, List.mem_cons, List.mem_cons] at before
          rcases before with low | high | old
          · exact .inl (by omega)
          · exact .inl (by omega)
          · exact .inr old
    · rw [if_neg cross]
      refine ⟨buf, rfl, ?_, fun i _ => rfl, fun i member => .inr member⟩
      intro k inside
      congr 1
      omega

/-- `strrev` turns a string around in its place. -/
theorem strrev_reverses {before : LocalArray} (written : Written s str before buf)
    (text : ∀ c ∈ str, c ≠ 0) (enough : str.length < rounds) :
    ∃ buf', strrev rounds s buf = some buf' ∧ Written s str.reverse before buf' := by
  have found : strlen rounds (fun k => buf.bytes (s + k)) = some str.length := by
    have whole : Text (fun k => buf.bytes (s + (0 + k))) str := by
      simp only [Nat.zero_add]
      exact text_iff.mpr ⟨written.inside, text, written.nul⟩
    have length := findNul_eq (s := fun k => buf.bytes (s + k)) whole enough
    rw [Nat.zero_add] at length
    exact length
  obtain ⟨buf', result, reversed, others, stores⟩ := @strrevLoop_reverses s rounds buf 0 str.length
    (str.length - 1) (by omega) (by omega)
  refine ⟨buf', ?_, ?_⟩
  · rw [strrev, found]
    exact result
  · constructor
    · intro k inside
      rw [List.length_reverse] at inside
      have byte := reversed k inside
      rw [Nat.add_zero] at byte
      rw [byte, written.inside _ (by omega), List.getElem_reverse]
    · rw [List.length_reverse, others _ (by omega)]
      exact written.nul
    · intro i outside
      rw [List.length_reverse] at outside
      rw [others i (by omega)]
      exact written.outside i outside
    · intro i member
      rw [List.length_reverse]
      rcases stores i member with between | old
      · exact .inl (by omega)
      · exact written.stores i old

/-- A string stored byte by byte, and a NUL behind it. -/
theorem written_storeList (s : Nat) (str : List UInt8) (buf : LocalArray) :
    Written s str buf ((buf.storeList s str).store (s + str.length) 0) := by
  constructor
  · intro k inside
    rw [LocalArray.store_bytes, Function.update_of_ne (by omega), LocalArray.storeList_inside inside]
  · exact Function.update_self _ _ _
  · intro i outside
    rw [LocalArray.store_bytes, Function.update_of_ne (by omega), LocalArray.storeList_outside (by omega)]
  · intro i member
    rw [LocalArray.store_stores, List.mem_cons, LocalArray.mem_storeList_stores] at member
    rcases member with nul | inside | old
    · exact .inl (by omega)
    · exact .inl (by omega)
    · exact .inr old

/-- `itoa` writes the numeral. -/
theorem itoa_writes {radix : Int32} {r : Nat} (same : radix.toInt = r) (low : 2 ≤ r) (high : r ≤ 36)
    (value : UInt32) (s : Nat) (buf : LocalArray) (enough : 33 ≤ rounds) :
    ∃ buf', itoa rounds value s radix buf = some buf' ∧ Written s (numeral r value.toNat) buf buf' := by
  rw [itoa]
  split
  next zero =>
    rw [zero]
    exact ⟨_, rfl, written_storeList s [digitZero] buf⟩
  next nonzero =>
    have notZero : value.toNat ≠ 0 := fun zero => nonzero (UInt32.toNat_inj.mp zero)
    have reversed : ((Nat.digits r value.toNat).map fun d => lookup.getD d 0).reverse = numeral r value.toNat := by
      rw [numeral, if_neg notZero, List.map_reverse]
    have length : (Nat.digits r value.toNat).length ≤ 32 := by
      have bound := length_numeral_le r low value.toNat_lt
      rwa [← reversed, List.length_reverse, List.length_map] at bound
    have digits := @digitLoop_eq rounds buf radix r same low value s (by omega)
    -- The digits and the NUL, the lowest digit first.
    have written := written_storeList s ((Nat.digits r value.toNat).map fun d => lookup.getD d 0) buf
    rw [List.length_map] at written
    have text : ∀ c ∈ (Nat.digits r value.toNat).map fun d => lookup.getD d 0, c ≠ 0 := by
      intro c member
      rw [← List.mem_reverse, reversed] at member
      exact numeral_ne_nul low high member
    obtain ⟨buf', result, done⟩ := strrev_reverses written text
      (show _ < rounds by rw [List.length_map]; omega)
    rw [reversed] at done
    refine ⟨buf', ?_, done⟩
    rw [digits]
    exact result

theorem Written.text {before after : LocalArray} (written : Written s str before after)
    (nonzero : ∀ c ∈ str, c ≠ 0) : Text (fun k => after.bytes (s + k)) str :=
  text_iff.mpr ⟨written.inside, nonzero, written.nul⟩

/-- For every value and every radix from 2 to 36, `itoa` returns with a string of at most 32 digits
of the radix in its buffer, which starts with a zero for the value 0 only and is the value as a
positional numeral; it stores nowhere else, and no other value gives the same string. -/
theorem itoa_inverse (radix : Int32) (low : 2 ≤ radix.toInt) (high : radix.toInt ≤ 36) (value : UInt32)
    (s : Nat) (buf : LocalArray) (rounds : Nat) (enough : 33 ≤ rounds) :
    ∃ buf' str, itoa rounds value s radix buf = some buf' ∧ Text (fun k => buf'.bytes (s + k)) str ∧
      str.length ≤ 32 ∧ (∀ c ∈ str, ∃ d < radix.toInt.toNat, lookup[d]? = some c) ∧
      (str.head? = some digitZero ↔ value = 0) ∧
      positionalValue radix.toInt.toNat str = value.toNat ∧
      (∀ i ∈ buf'.stores, (s ≤ i ∧ i ≤ s + str.length) ∨ i ∈ buf.stores) ∧
      ∀ (value' : UInt32) (before after : LocalArray), itoa rounds value' s radix before = some after →
        Text (fun k => after.bytes (s + k)) str → value' = value := by
  have same : radix.toInt = radix.toInt.toNat := by omega
  have low' : 2 ≤ radix.toInt.toNat := by omega
  have high' : radix.toInt.toNat ≤ 36 := by omega
  have nonzero (value : UInt32) : ∀ c ∈ numeral radix.toInt.toNat value.toNat, c ≠ 0 :=
    fun _ member => numeral_ne_nul low' high' member
  obtain ⟨buf', result, written⟩ := itoa_writes same low' high' value s buf enough
  refine ⟨buf', _, result, written.text (nonzero value), length_numeral_le _ low' value.toNat_lt, ?_, ?_,
    positionalValue_numeral low' high', written.stores, ?_⟩
  · intro c member
    obtain ⟨d, inside, rfl⟩ := mem_numeral low' member
    have alphabet : d < lookup.length := Nat.lt_of_lt_of_le inside high'
    refine ⟨d, inside, ?_⟩
    rw [List.getD_eq_getElem?_getD, List.getElem?_eq_getElem alphabet, Option.getD_some]
  · rw [head_numeral low' high', ← UInt32.toNat_inj]
    rfl
  · intro value' before after result' text'
    obtain ⟨after', again, written'⟩ := itoa_writes same low' high' value' s before enough
    obtain rfl : after' = after := Option.some_inj.mp (again.symm.trans result')
    -- Both strings are numerals of their values.
    have strings := (written'.text (nonzero value')).unique text'
    have values := congrArg (positionalValue radix.toInt.toNat) strings
    rw [positionalValue_numeral low' high', positionalValue_numeral low' high'] at values
    exact UInt32.toNat_inj.mp values

theorem itoa_inverse_sample :
    ∃ buf' str, itoa 33 48879 8 16 ⟨fun _ => 0, []⟩ = some buf' ∧ Text (fun k => buf'.bytes (8 + k)) str ∧
      positionalValue 16 str = 48879 := by
  obtain ⟨buf', str, result, text, _, _, _, value, _⟩ :=
    itoa_inverse 16 (by decide) (by decide) 48879 8 ⟨fun _ => 0, []⟩ 33 (Nat.le_refl 33)
  exact ⟨buf', str, result, text, value⟩

end Format

end Mp3Kernel
