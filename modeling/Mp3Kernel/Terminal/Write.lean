import Mathlib.Data.List.TakeWhile
import Mp3Kernel.Console.Mirror
import Mp3Kernel.Library.Text
import Mp3Kernel.Terminal.Basic

/-!
# `terminal_write`

The bytes of the caller are copied into a local array of 1024 bytes, a NUL is put
behind them, and `puts` prints the array as a string. The count of the caller is
lost twice: it is not compared with the size of the array, and a NUL among the
bytes ends the string.
-/

namespace Mp3Kernel

open Library

/-- `int8_t s[1024]` -/
def LocalArray.size : Nat := 1024

namespace Terminal

/-- The array that `terminal_write(buf, cnt)` hands to `puts`, for a count that is not negative. -/
def writeArray (buf : Nat → UInt8) (cnt : Nat) (stack : Nat → UInt8) : LocalArray :=
  let s := forLoop (fun i => LocalArray.store i (buf i)) cnt ⟨stack, []⟩
  s.store cnt 0

/-- The array as a string; it ends at `s[cnt]` at the latest. -/
def writeString (buf : Nat → UInt8) (cnt : Nat) (stack : Nat → UInt8) : List UInt8 :=
  (List.range (cnt + 1)).map (writeArray buf cnt stack).bytes

def terminalWrite (buf : Nat → UInt8) (cnt : Nat) (stack : Nat → UInt8) (t : Terminal) :
    Nat × Terminal :=
  let (index, console) := t.console.puts (writeString buf cnt stack)
  (index, { t with console := console })

/-- The characters that `puts` passes to `putc`, in order. -/
def passed (str : List UInt8) : List UInt8 := str.takeWhile (· ≠ 0)

/-- The bytes that the caller asks to print. -/
def asked (buf : Nat → UInt8) (cnt : Nat) : List UInt8 := (List.range cnt).map buf

/-- `terminal_write` prints the `cnt` bytes, returns `cnt` and stays inside its array. -/
structure WritesBuffer (buf : Nat → UInt8) (cnt : Nat) (stack : Nat → UInt8) (t : Terminal) : Prop where
  chars : passed (writeString buf cnt stack) = asked buf cnt
  console : (terminalWrite buf cnt stack t).2 =
    { t with console := run Console.putc (asked buf cnt) t.console }
  value : (terminalWrite buf cnt stack t).1 = cnt
  inside : ∀ i ∈ (writeArray buf cnt stack).stores, i < LocalArray.size

variable {buf stack : Nat → UInt8} {cnt : Nat} {t : Terminal}

/-! ## The string -/

/-- The copy loop stores `buf[i]` at `s[i]`, for every `i` below `cnt` and nowhere else. -/
theorem copy_stores (buf : Nat → UInt8) (cnt : Nat) (stack : Nat → UInt8) :
    (∀ i < cnt, (forLoop (fun i => LocalArray.store i (buf i)) cnt ⟨stack, []⟩).bytes i = buf i) ∧
    ∀ i, i ∈ (forLoop (fun i => LocalArray.store i (buf i)) cnt ⟨stack, []⟩).stores ↔ i < cnt := by
  induction cnt with
  | zero => simp
  | succ n ih =>
    obtain ⟨bytes, stores⟩ := ih
    constructor
    · intro i below
      simp only [forLoop_succ, LocalArray.store, Function.update_apply]
      split
      · rename_i last
        rw [last]
      · exact bytes i (by omega)
    · intro i
      simp only [forLoop_succ, LocalArray.store, List.mem_cons, stores]
      omega

theorem mem_stores (buf : Nat → UInt8) (cnt : Nat) (stack : Nat → UInt8) (i : Nat) :
    i ∈ (writeArray buf cnt stack).stores ↔ i ≤ cnt := by
  simp only [writeArray, LocalArray.store, List.mem_cons, (copy_stores buf cnt stack).2]
  omega

theorem writeString_eq (buf : Nat → UInt8) (cnt : Nat) (stack : Nat → UInt8) :
    writeString buf cnt stack = asked buf cnt ++ [0] := by
  rw [writeString, List.range_succ, List.map_append, asked]
  congr 1
  · apply List.map_congr_left
    intro i member
    have below := List.mem_range.mp member
    have other : i ≠ cnt := by omega
    simp only [writeArray, LocalArray.store, Function.update_of_ne other]
    exact (copy_stores buf cnt stack).1 i below
  · simp [writeArray, LocalArray.store]

/-- The NUL behind the bytes is not printed. -/
theorem passed_snoc_nul (str : List UInt8) : passed (str ++ [0]) = passed str := by
  induction str with
  | nil => rfl
  | cons c cs ih =>
    simp only [passed, List.cons_append, List.takeWhile_cons] at ih ⊢
    rw [ih]

theorem puts_value (str : List UInt8) (s : Console) : (s.puts str).1 = (passed str).length := by
  induction str generalizing s with
  | nil => rfl
  | cons c cs ih =>
    by_cases nul : c = 0
    · simp [Console.puts, passed, nul]
    · have rest := ih (s.putc c)
      simp [Console.puts, passed, nul] at rest ⊢
      exact rest

theorem passed_eq_iff (str : List UInt8) : passed str = str ↔ ∀ c ∈ str, c ≠ 0 := by
  rw [passed, List.takeWhile_eq_self_iff]
  simp

/-- `terminal_write` does what is asked exactly when the bytes and the NUL fit the array and no
byte is a NUL. -/
theorem terminal_write_prints_iff (buf : Nat → UInt8) (cnt : Nat) (stack : Nat → UInt8) (t : Terminal) :
    WritesBuffer buf cnt stack t ↔ cnt < 1024 ∧ ∀ i < cnt, buf i ≠ 0 := by
  have noNul : passed (asked buf cnt) = asked buf cnt ↔ ∀ i < cnt, buf i ≠ 0 := by
    rw [passed_eq_iff]
    simp [asked]
  constructor
  · intro writes
    have chars := writes.chars
    rw [writeString_eq, passed_snoc_nul] at chars
    exact ⟨writes.inside cnt ((mem_stores buf cnt stack cnt).mpr (Nat.le_refl cnt)), noNul.mp chars⟩
  · rintro ⟨fits, bytes⟩
    have chars : passed (writeString buf cnt stack) = asked buf cnt := by
      rw [writeString_eq, passed_snoc_nul]
      exact noNul.mpr bytes
    constructor
    · exact chars
    · rw [← chars, passed, ← Console.puts_eq_run]
      rfl
    · have value : (terminalWrite buf cnt stack t).1 = _ := puts_value (writeString buf cnt stack) t.console
      rw [value, chars, asked, List.length_map, List.length_range]
    · intro i member
      have below := (mem_stores buf cnt stack i).mp member
      exact Nat.lt_of_le_of_lt below fits

/-- A name of `ls`, padded with a NUL, and the newline behind it. -/
def paddedName (i : Nat) : UInt8 := [97, 0, newline].getD i 0

/-- One of the three bytes is printed, and 1 returned. -/
theorem terminal_write_stops_at_nul :
    passed (writeString paddedName 3 fun _ => 0) = [97] ∧
    (terminalWrite paddedName 3 (fun _ => 0) powerOn).1 = 1 ∧
    ¬WritesBuffer paddedName 3 (fun _ => 0) powerOn := by
  have chars : passed (writeString paddedName 3 fun _ => 0) = [97] := by decide
  refine ⟨chars, ?_, fun writes => ?_⟩
  · have value : (terminalWrite paddedName 3 (fun _ => 0) powerOn).1 = _ :=
      puts_value (writeString paddedName 3 fun _ => 0) powerOn.console
    rw [value, chars]
    rfl
  · have whole := writes.chars
    rw [chars] at whole
    exact absurd whole (by decide)

end Terminal

end Mp3Kernel
