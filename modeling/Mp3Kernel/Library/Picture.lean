import Mp3Kernel.Library.Cells

/-!
# Text on a picture

A picture gives the cell at every index. Text is painted over it cell by cell,
and a label is text with a place of its own. Labels that do not meet can be read
in whichever order they were painted, and the cells between them are those of
the picture below.
-/

namespace Mp3Kernel.Library

variable {attr : UInt8} {start i : Nat} {text : List UInt8} {picture picture' : Nat → Cell}

/-! ## Painting -/

/-- `text` over `picture`, from cell `start` on. -/
def paint (attr : UInt8) : Nat → List UInt8 → (Nat → Cell) → Nat → Cell
  | _, [], picture => picture
  | start, c :: cs, picture => paint attr (start + 1) cs (Function.update picture start ⟨c, attr⟩)

/-- What is painted at a cell depends on the picture at that cell only. -/
theorem paint_congr (same : picture i = picture' i) :
    paint attr start text picture i = paint attr start text picture' i := by
  induction text generalizing start picture picture' with
  | nil => exact same
  | cons c cs ih =>
    apply ih
    by_cases here : i = start
    · rw [here, Function.update_self, Function.update_self]
    · rw [Function.update_of_ne here, Function.update_of_ne here, same]

/-! ## Labels -/

structure Label where
  start : Nat
  attr : UInt8
  text : List UInt8

namespace Label

/-- A cell that a label takes, painted `base` cells further on. -/
def Covers (base : Nat) (label : Label) (i : Nat) : Prop :=
  base + label.start ≤ i ∧ i < base + label.start + label.text.length

def Apart (label other : Label) : Prop :=
  label.start + label.text.length ≤ other.start ∨ other.start + other.text.length ≤ label.start

instance (label other : Label) : Decidable (label.Apart other) := inferInstanceAs (Decidable (_ ∨ _))

end Label

/-- The labels over `picture`, the first of them painted first, each `base` cells further on. -/
def draw (base : Nat) : List Label → (Nat → Cell) → Nat → Cell
  | [], picture => picture
  | label :: labels, picture =>
    draw base labels (paint label.attr (base + label.start) label.text picture)

variable {base : Nat} {labels : List Label} {label : Label}

theorem draw_snoc : draw base (labels ++ [label]) picture =
    paint label.attr (base + label.start) label.text (draw base labels picture) := by
  induction labels generalizing picture with
  | nil => rfl
  | cons first rest ih => exact ih

end Mp3Kernel.Library
