import Mathlib.Logic.Function.Basic
import Mathlib.Tactic
import Mp3Kernel.Library.Run

/-!
# Strings and arrays of C

A pointer to bytes is the function of their indices here. A string is the bytes
in front of the first NUL; the loops that look for the NUL are not bounded by the
code, so they take a number of rounds, and `none` stands for a loop that is still
going. A local array is the bytes on the stack from its start on, with a record
of the indices that were stored to.
-/

namespace Mp3Kernel

/-- A local array with the stack behind it, and the indices stored to, the latest first. -/
structure LocalArray where
  bytes : Nat → UInt8
  stores : List Nat

namespace LocalArray

/-- `s[i] = value` -/
def store (i : Nat) (value : UInt8) (s : LocalArray) : LocalArray :=
  ⟨Function.update s.bytes i value, i :: s.stores⟩

@[simp] theorem store_bytes (i : Nat) (value : UInt8) (s : LocalArray) :
    (s.store i value).bytes = Function.update s.bytes i value := rfl

@[simp] theorem store_stores (i : Nat) (value : UInt8) (s : LocalArray) :
    (s.store i value).stores = i :: s.stores := rfl

end LocalArray

namespace Library

variable {s s' : Nat → UInt8} {str str' : List UInt8} {rounds i : Nat}

/-! ## Strings -/

/-- `s` points to the bytes of `str`, none of which is a NUL, and a NUL behind them. -/
def Text : (Nat → UInt8) → List UInt8 → Prop
  | s, [] => s 0 = 0
  | s, c :: cs => s 0 = c ∧ c ≠ 0 ∧ Text (fun k => s (k + 1)) cs

/-- `while (s[i] != '\0') i++` -/
def findNul (s : Nat → UInt8) : Nat → Nat → Option Nat
  | 0, _ => none
  | rounds + 1, i => if s i = 0 then some i else findNul s rounds (i + 1)

/-- The bytes from `s[i]` up to the NUL. -/
def readText (s : Nat → UInt8) : Nat → Nat → Option (List UInt8)
  | 0, _ => none
  | rounds + 1, i => if s i = 0 then some [] else (readText s rounds (i + 1)).map (s i :: ·)

theorem Text.unique (text : Text s str) (text' : Text s str') : str = str' := by
  induction str generalizing s str' with
  | nil =>
    cases str' with
    | nil => rfl
    | cons c cs => exact absurd (text'.1.symm.trans text) text'.2.1
  | cons c cs ih =>
    cases str' with
    | nil => exact absurd (text.1.symm.trans text') text.2.1
    | cons c' cs' => rw [text.1.symm.trans text'.1, ih text.2.2 text'.2.2]

/-- A string in two parts. -/
theorem text_append {before : List UInt8} : Text s (before ++ str) ↔
    (∀ k (inside : k < before.length), s k = before[k]) ∧ (∀ c ∈ before, c ≠ 0) ∧
      Text (fun k => s (before.length + k)) str := by
  induction before generalizing s with
  | nil => simp
  | cons c cs ih =>
    rw [List.cons_append, Text, ih, List.forall_mem_cons]
    simp only [List.length_cons, Nat.add_right_comm]
    constructor
    · rintro ⟨first, nonzero, bytes, rest, behind⟩
      refine ⟨?_, ⟨nonzero, rest⟩, behind⟩
      intro k inside
      cases k with
      | zero => exact first
      | succ k => exact bytes k (Nat.lt_of_succ_lt_succ inside)
    · rintro ⟨bytes, ⟨nonzero, rest⟩, behind⟩
      exact ⟨bytes 0 (Nat.succ_pos _), nonzero, fun k inside => bytes (k + 1) (Nat.succ_lt_succ inside), rest,
        behind⟩

theorem text_iff : Text s str ↔
    (∀ k (inside : k < str.length), s k = str[k]) ∧ (∀ c ∈ str, c ≠ 0) ∧ s str.length = 0 := by
  have parts : Text s (str ++ []) ↔ _ := text_append
  rw [List.append_nil] at parts
  exact parts

/-- The rest of a string behind some of its bytes. -/
theorem Text.drop {before : List UInt8} (text : Text s (before ++ str)) :
    Text (fun k => s (before.length + k)) str :=
  (text_append.mp text).2.2

theorem findNul_eq (text : Text (fun k => s (i + k)) str) (enough : str.length < rounds) :
    findNul s rounds i = some (i + str.length) := by
  induction str generalizing i rounds with
  | nil =>
    cases rounds with
    | zero => exact absurd enough (Nat.not_lt_zero _)
    | succ rounds => exact if_pos text
  | cons c cs ih =>
    cases rounds with
    | zero => exact absurd enough (Nat.not_lt_zero _)
    | succ rounds =>
      have here : s i = c := text.1
      have behind : Text (fun k => s (i + 1 + k)) cs := by
        simpa only [Nat.add_assoc, Nat.add_comm 1] using text.2.2
      rw [findNul, if_neg (here ▸ text.2.1), ih behind (Nat.lt_of_succ_lt_succ enough), List.length_cons,
        Nat.add_assoc, Nat.add_comm 1]

theorem readText_eq (text : Text (fun k => s (i + k)) str) (enough : str.length < rounds) :
    readText s rounds i = some str := by
  induction str generalizing i rounds with
  | nil =>
    cases rounds with
    | zero => exact absurd enough (Nat.not_lt_zero _)
    | succ rounds => exact if_pos text
  | cons c cs ih =>
    cases rounds with
    | zero => exact absurd enough (Nat.not_lt_zero _)
    | succ rounds =>
      have here : s i = c := text.1
      have behind : Text (fun k => s (i + 1 + k)) cs := by
        simpa only [Nat.add_assoc, Nat.add_comm 1] using text.2.2
      rw [readText, if_neg (here ▸ text.2.1), ih behind (Nat.lt_of_succ_lt_succ enough), Option.map_some, here]

end Library

/-! ## Arrays -/

namespace Library

variable {s s' : Nat → UInt8} {l r : List UInt8} {start : Nat}

def newline : UInt8 := 0x0A

def space : UInt8 := 0x20

/-- The bytes of a string literal, without its NUL. -/
def quoted (str : String) : List UInt8 := str.toList.map fun c => UInt8.ofNat c.toNat

/-- The bytes of `l` stand at `s[start]` and behind. -/
def Holds (s : Nat → UInt8) (start : Nat) (l : List UInt8) : Prop :=
  ∀ k (inside : k < l.length), s (start + k) = l[k]

theorem holds_nil : Holds s start [] := fun _ inside => absurd inside (Nat.not_lt_zero _)

theorem holds_append : Holds s start (l ++ r) ↔ Holds s start l ∧ Holds s (start + l.length) r := by
  constructor
  · intro holds
    refine ⟨fun k inside => ?_, fun k inside => ?_⟩
    · rw [holds k (by rw [List.length_append]; omega), List.getElem_append_left inside]
    · rw [Nat.add_assoc, holds (l.length + k) (by rw [List.length_append]; omega)]
      simp
  · rintro ⟨left, right⟩ k inside
    rw [List.length_append] at inside
    by_cases first : k < l.length
    · rw [List.getElem_append_left first, left k first]
    · rw [List.getElem_append_right (by omega), ← right (k - l.length) (by omega)]
      congr 1
      omega

theorem Holds.of_prefix (holds : Holds s start r) (front : l <+: r) : Holds s start l := by
  obtain ⟨rest, rfl⟩ := front
  exact (holds_append.mp holds).1

/-- Bytes that other stores have not reached. -/
theorem Holds.keep (holds : Holds s start l) (same : ∀ i, start ≤ i → i < start + l.length → s' i = s i) :
    Holds s' start l := fun k inside => by
  rw [same _ (Nat.le_add_right _ _) (Nat.add_lt_add_left inside start), holds k inside]

theorem Holds.text (holds : Holds s start l) (nonzero : ∀ c ∈ l, c ≠ 0) (last : s (start + l.length) = 0) :
    Text (fun k => s (start + k)) l :=
  text_iff.mpr ⟨holds, nonzero, last⟩

end Library

namespace LocalArray

variable {a : LocalArray} {start i : Nat} {values : List UInt8}

/-- `values` stored one behind the other. -/
def storeList : Nat → List UInt8 → LocalArray → LocalArray
  | _, [], a => a
  | start, value :: values, a => storeList (start + 1) values (a.store start value)

theorem storeList_outside (outside : i < start ∨ start + values.length ≤ i) :
    (storeList start values a).bytes i = a.bytes i := by
  induction values generalizing start a with
  | nil => rfl
  | cons value values ih =>
    rw [List.length_cons] at outside
    rw [storeList, ih (by omega), store_bytes, Function.update_of_ne (by omega)]

theorem storeList_inside {k : Nat} (inside : k < values.length) :
    (storeList start values a).bytes (start + k) = values[k] := by
  induction values generalizing start a k with
  | nil => exact absurd inside (Nat.not_lt_zero k)
  | cons value values ih =>
    rw [storeList]
    cases k with
    | zero =>
      rw [storeList_outside (by omega)]
      exact Function.update_self _ _ _
    | succ k =>
      rw [show start + (k + 1) = start + 1 + k by omega]
      exact ih (Nat.lt_of_succ_lt_succ inside)

theorem holds_storeList : Library.Holds (storeList start values a).bytes start values :=
  fun _ inside => storeList_inside inside

theorem mem_storeList_stores :
    i ∈ (storeList start values a).stores ↔ (start ≤ i ∧ i < start + values.length) ∨ i ∈ a.stores := by
  induction values generalizing start a with
  | nil => simp [storeList]
  | cons value values ih =>
    rw [storeList, ih, store_stores, List.mem_cons, List.length_cons]
    constructor
    · rintro (between | first | before)
      · exact .inl (by omega)
      · exact .inl (by omega)
      · exact .inr before
    · rintro (between | before)
      · omega
      · exact .inr (.inr before)

end LocalArray

end Mp3Kernel
