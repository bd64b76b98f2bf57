import Mathlib.Data.BitVec
import Mathlib.Data.Nat.Digits.Defs

/-!
# Decimal numerals

Decimal digits as characters, the value of a string of digits, and the numeral of a number without
leading zeros. The numeral of a number has that number as its value (`value_numeral`).
-/

namespace Nachos.Decimal

/-- The character is a decimal digit. -/
def IsDigit (c : BitVec 8) : Prop := 48 ≤ c.toNat ∧ c.toNat ≤ 57

instance (c : BitVec 8) : Decidable (IsDigit c) := inferInstanceAs (Decidable (_ ∧ _))

/-- The character of a digit. -/
def digit (d : Nat) : BitVec 8 := BitVec.ofNat 8 (48 + d)

/-- The value of a string of digits, the most significant one first. -/
def value (digits : List (BitVec 8)) : Nat := digits.foldl (fun n c => n * 10 + (c.toNat - 48)) 0

/-- The numeral of a number, without leading zeros. -/
def numeral (n : Nat) : List (BitVec 8) :=
  if n = 0 then [digit 0] else ((Nat.digits 10 n).map digit).reverse

/-- The code of a digit. -/
theorem toNat_digit {d : Nat} (h : d < 10) : (digit d).toNat = 48 + d := by
  rw [digit, BitVec.toNat_ofNat]
  omega

/-- It is a digit. -/
theorem isDigit_digit {d : Nat} (h : d < 10) : IsDigit (digit d) := by
  rw [IsDigit, toNat_digit h]
  omega

/-- A numeral has a digit. -/
theorem numeral_ne_nil (n : Nat) : numeral n ≠ [] := by
  unfold numeral
  split
  · simp
  · rename_i h
    simpa using Nat.digits_ne_nil_iff_ne_zero.mpr h

/-- It has nothing else. -/
theorem isDigit_of_mem_numeral {n : Nat} {c : BitVec 8} (h : c ∈ numeral n) : IsDigit c := by
  unfold numeral at h
  split at h
  · rw [List.mem_singleton.mp h]
    exact isDigit_digit (by decide)
  · obtain ⟨d, hd, rfl⟩ := List.mem_map.mp (List.mem_reverse.mp h)
    exact isDigit_digit (Nat.digits_lt_base (by decide) hd)

/-- Characters of digits, the least significant one first, have the value of the digits. -/
theorem value_map_digit_reverse {l : List Nat} (h : ∀ d ∈ l, d < 10) :
    value ((l.map digit).reverse) = Nat.ofDigits 10 l := by
  unfold value
  rw [List.foldl_reverse]
  induction l with
  | nil => rfl
  | cons d l ih =>
    have hd := h d List.mem_cons_self
    rw [List.map_cons, List.foldr_cons, ih fun e he => h e (List.mem_cons_of_mem _ he),
      toNat_digit hd, Nat.ofDigits_cons]
    show Nat.ofDigits 10 l * 10 + (48 + d - 48) = d + 10 * Nat.ofDigits 10 l
    omega

/-- The value of the numeral of a number is the number. -/
theorem value_numeral (n : Nat) : value (numeral n) = n := by
  unfold numeral
  split
  · rename_i h
    rw [h]
    rfl
  · rw [value_map_digit_reverse fun d hd => Nat.digits_lt_base (by decide) hd,
      Nat.ofDigits_digits]

end Nachos.Decimal
