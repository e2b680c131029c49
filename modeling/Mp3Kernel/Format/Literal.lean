import Mathlib.Data.List.GetD
import Mp3Kernel.Console.Basic
import Mp3Kernel.Format.Printf

/-!
# Formats written in the source

The formats of the kernel are literals: text, and a few conversions in between.
The text of a format stands in front of what its conversions print.
-/

namespace Mp3Kernel

open Library

namespace Format

variable {before fmt : List UInt8} {text : UInt32 → List UInt8} {pieces : List Piece} {args : List UInt32}

theorem stringArguments_text : stringArguments (before.map .char ++ pieces) args = stringArguments pieces args := by
  induction before with
  | nil => rfl
  | cons c cs ih => rw [List.map_cons, List.cons_append, stringArguments]; exact ih

theorem stringArguments_eq_nil (noStrings : .string ∉ pieces) : stringArguments pieces args = [] := by
  induction pieces generalizing args with
  | nil => rfl
  | cons piece pieces ih =>
    rw [List.mem_cons, not_or] at noStrings
    rw [stringArguments, if_neg (Ne.symm noStrings.1), ih noStrings.2, List.nil_append]

/-- A literal is a string behind its address. -/
theorem text_literal (noNul : 0 ∉ fmt) : Text (fun i => fmt.getD i 0) fmt := by
  refine text_iff.mpr ⟨fun k inside => ?_, ?_, ?_⟩
  · rw [List.getD_eq_getElem _ _ inside]
  · rintro c member rfl
    exact noNul member
  · exact List.getD_eq_default _ _ (Nat.le_refl _)

/-- `printf` with a literal: its arguments, the words above them, memory, and what the local arrays of
`printf` hold. -/
def literalCall (fmt : List UInt8) (args : List UInt32) (above : Nat → UInt32) (memory : UInt32 → UInt8)
    (garbage : Nat → Nat → UInt8) : PrintfCall :=
  ⟨fun i => fmt.getD i 0, fun i => args.getD i (above i), memory, garbage⟩

/-- The format can be printed with `n` arguments. -/
def suits (n : Nat) (fmt : List UInt8) : Bool :=
  !fmt.contains 0 && !(parse none fmt).contains .cut && decide ((parse none fmt).countP Piece.takesArgument ≤ n)

theorem suits_iff {n : Nat} : suits n fmt = true ↔
    0 ∉ fmt ∧ .cut ∉ parse none fmt ∧ (parse none fmt).countP Piece.takesArgument ≤ n := by
  simp [suits, and_assoc]

/-- A literal with enough arguments prints its expansion. -/
theorem literal_prints (above : Nat → UInt32) (memory : UInt32 → UInt8) (garbage : Nat → Nat → UInt8)
    (text : UInt32 → List UInt8) (suited : suits args.length fmt = true)
    (strings : ∀ v ∈ stringArguments (parse none fmt) args, Text (fun k => memory (v + UInt32.ofNat k)) (text v)) :
    ∃ bound, ∀ rounds ≥ bound, ∃ value p,
      printf (literalCall fmt args above memory garbage) rounds = some (value, p) ∧
        p.out = expand text (parse none fmt) args := by
  obtain ⟨noNul, complete, enough⟩ := suits_iff.mp suited
  have supplies : Supplies (literalCall fmt args above memory garbage) text (parse none fmt) args 0 := by
    refine ⟨fun k inside => ?_, enough, strings⟩
    rw [Nat.zero_add]
    exact List.getD_eq_getElem _ _ inside
  obtain ⟨bound, prints⟩ := printf_prints (text_literal noNul) complete supplies
  refine ⟨bound, fun rounds more => ?_⟩
  obtain ⟨p, result, progress, _⟩ := prints rounds more
  exact ⟨_, p, result, progress.out⟩

end Format

/-- `printf` with its characters on the screen. -/
def Console.printf (call : Format.PrintfCall) (rounds : Nat) (s : Console) : Option Console :=
  (Format.printf call rounds).map fun result => run putc result.2.out s

end Mp3Kernel
