import Mathlib.Data.List.Basic
import Mathlib.Data.Nat.Cast.Order.Ring
import Mathlib.Logic.Nontrivial.Defs

/-!
# Sequences of block writes

A store maps integer addresses to values. A block write puts a list of values at consecutive
addresses. After a sequence of block writes an address holds the value of the last block that
covers it (`writeAll_apply`), and what it holds is independent of the store before exactly when
some block covers it (`independent_iff`).
-/

namespace Nachos.BlockWrite

variable {β : Type*} {p : Int}

/-- A store with integer addresses. -/
abbrev Store (β : Type*) := Int → β

/-- Values for consecutive addresses from `addr` on. -/
structure Block (β : Type*) where
  addr : Int
  data : List β

/-- The value a block has for an address. -/
def Block.get? (b : Block β) (p : Int) : Option β :=
  if b.addr ≤ p then b.data[(p - b.addr).toNat]? else none

/-- The block has a value for the address. -/
def Block.Covers (b : Block β) (p : Int) : Prop :=
  b.addr ≤ p ∧ p < b.addr + b.data.length

instance (b : Block β) (p : Int) : Decidable (b.Covers p) := inferInstanceAs (Decidable (_ ∧ _))

/-- One block write. -/
def write (m : Store β) (b : Block β) : Store β := fun p => (b.get? p).getD (m p)

/-- A sequence of block writes. -/
def writeAll (m : Store β) (bs : List (Block β)) : Store β := bs.foldl write m

/-- The value of the last block that covers the address. -/
def last : List (Block β) → Int → Option β
  | [], _ => none
  | b :: bs, p => (last bs p).or (b.get? p)

theorem get?_eq_none_iff {b : Block β} : b.get? p = none ↔ ¬ b.Covers p := by
  unfold Block.get? Block.Covers
  split
  · rw [List.getElem?_eq_none_iff]
    omega
  · simp [*]

/-- An address holds what the last covering block put there, or what it held before. -/
theorem writeAll_apply (bs : List (Block β)) (m : Store β) (p : Int) :
    writeAll m bs p = (last bs p).getD (m p) := by
  induction bs generalizing m with
  | nil => rfl
  | cons b bs ih =>
    show writeAll (write m b) bs p = ((last bs p).or (b.get? p)).getD (m p)
    rw [ih]
    cases last bs p <;> rfl

variable {bs : List (Block β)}

theorem last_eq_none_iff : last bs p = none ↔ ∀ b ∈ bs, ¬ b.Covers p := by
  induction bs with
  | nil => simp [last]
  | cons b bs ih => simp [last, ih, get?_eq_none_iff, and_comm]

/-- An address no block covers keeps its value. -/
theorem writeAll_of_not_covered (h : ∀ b ∈ bs, ¬ b.Covers p) (m : Store β) :
    writeAll m bs p = m p := by
  rw [writeAll_apply, last_eq_none_iff.mpr h, Option.getD_none]

theorem write_of_not_covered {b : Block β} (h : ¬ b.Covers p) (m : Store β) : write m b p = m p :=
  writeAll_of_not_covered (List.forall_mem_singleton.mpr h) m

/-- The final value is independent of the store before exactly at the covered addresses. -/
theorem independent_iff [Nontrivial β] :
    (∀ m m' : Store β, writeAll m bs p = writeAll m' bs p) ↔ ∃ b ∈ bs, b.Covers p := by
  constructor
  · intro h
    by_contra hnot
    push Not at hnot
    obtain ⟨x, y, hxy⟩ := exists_pair_ne β
    have heq := h (fun _ => x) (fun _ => y)
    rw [writeAll_of_not_covered hnot, writeAll_of_not_covered hnot] at heq
    exact hxy heq
  · rintro ⟨b, hb, hcovers⟩ m m'
    rw [writeAll_apply, writeAll_apply]
    cases hl : last bs p with
    | none => exact absurd hcovers (last_eq_none_iff.mp hl b hb)
    | some v => rfl

end Nachos.BlockWrite
