import Mathlib.Tactic.Ring
import Nachos.Library.DoubleWord
import Nachos.Machine.Mipssim

/-!
# Multiplication

`Mult` adds up shifted copies of one operand, one for each bit of the other, in two pairs of words.
The pair `bHi`, `bLo` is doubled in every round and the shift of `a` is arithmetic, which fills in
bits that no round looks at. So the words `hi` and `lo` are the 64-bit product of the operands, both
as signed and as unsigned numbers (`mult_exact`).
-/

namespace Nachos

open DoubleWord

/-! ## The loop -/

section Round

variable {n : Nat} {a : BitVec 32} (bLo bHi lo hi : BitVec 32)

/-- What the round leaves of `bHi`. -/
def nextHi (bLo bHi : BitVec 32) : BitVec 32 :=
  (bHi <<< 1) ||| (if bLo &&& 0x80000000#32 ≠ 0 then 1#32 else 0)

/-- A round in which the bit of `a` is zero. -/
theorem multLoop_even (heven : ¬ a &&& 1#32 ≠ 0) :
    multLoop (n + 1) a bLo bHi lo hi =
      multLoop n (a.sshiftRight 1) (bLo <<< 1) (nextHi bLo bHi) lo hi := by
  rw [multLoop, if_neg fun h => heven h.1, if_neg heven, if_neg heven]
  rfl

/-- A round in which the bit of `a` is one and more bits are left. -/
theorem multLoop_odd (hodd : a &&& 1#32 ≠ 0) (hmore : ¬ a &&& 0xfffffffe#32 = 0) :
    multLoop (n + 1) a bLo bHi lo hi =
      multLoop n (a.sshiftRight 1) (bLo <<< 1) (nextHi bLo bHi) (lo + bLo)
        ((if lo + bLo < bLo then hi + 1 else hi) + bHi) := by
  rw [multLoop, if_neg fun h => hmore h.2, if_pos hodd, if_pos hodd]
  rfl

/-- The round of the last bit of `a`, which leaves the loop. -/
theorem multLoop_last (hodd : a &&& 1#32 ≠ 0) (hlast : a &&& 0xfffffffe#32 = 0) :
    multLoop (n + 1) a bLo bHi lo hi =
      ((if lo + bLo < bLo then hi + 1 else hi) + bHi, lo + bLo) := by
  rw [multLoop, if_pos ⟨hodd, hlast⟩, if_pos hodd, if_pos hodd]

end Round

/-- The rounds that are left add the product of the bits of `a` that are left and `bHi`, `bLo`. -/
theorem multLoop_value {n : Nat} (hn : n ≤ 32) (a bLo bHi lo hi : BitVec 32) :
    (multLoop n a bLo bHi lo hi).1 ++ (multLoop n a bLo bHi lo hi).2 =
      (hi ++ lo) + BitVec.ofNat 64 (a.toNat % 2 ^ n) * (bHi ++ bLo) := by
  induction n generalizing a bLo bHi lo hi with
  | zero => simp [multLoop, Nat.mod_one]
  | succ n ih =>
    -- what the rounds behind this one add
    have hrest : ∀ lo hi : BitVec 32,
        (multLoop n (a.sshiftRight 1) (bLo <<< 1) (nextHi bLo bHi) lo hi).1 ++
          (multLoop n (a.sshiftRight 1) (bLo <<< 1) (nextHi bLo bHi) lo hi).2 =
        (hi ++ lo) + BitVec.ofNat 64 (2 * (a.toNat / 2 % 2 ^ n)) * (bHi ++ bLo) := by
      intro lo hi
      rw [ih (by omega), nextHi, append_double, sshiftRight_one_mod a (by omega),
        BitVec.ofNat_mul, show BitVec.ofNat 64 2 = 2 from rfl]
      ring
    have hbits := mod_two_pow_succ a.toNat n
    by_cases hodd : a &&& 1#32 ≠ 0
    · have hbit := (and_one_ne_zero_iff a).mp hodd
      by_cases hlast : a &&& 0xfffffffe#32 = 0
      · have hone : a.toNat = 1 := by
          have := (and_rest_eq_zero_iff a).mp hlast
          omega
        rw [multLoop_last _ _ _ _ hodd hlast, append_add, hbits, hone,
          show 1 % 2 + 2 * (1 / 2 % 2 ^ n) = 1 by simp, show BitVec.ofNat 64 1 = 1 from rfl,
          one_mul]
      · rw [multLoop_odd _ _ _ _ hodd hlast, hrest, append_add, hbits, hbit, BitVec.ofNat_add,
          show BitVec.ofNat 64 1 = 1 from rfl]
        ring
    · have hbit : a.toNat % 2 = 0 := by
        have := mt (and_one_ne_zero_iff a).mpr hodd
        omega
      rw [multLoop_even _ _ _ _ hodd, hrest, hbits, hbit, Nat.zero_add]

/-- All 32 rounds. -/
theorem multLoop_all (a b : BitVec 32) :
    (multLoop 32 a b 0 0 0).1 ++ (multLoop 32 a b 0 0 0).2 =
      BitVec.ofNat 64 a.toNat * BitVec.ofNat 64 b.toNat := by
  rw [multLoop_value (le_refl 32), Nat.mod_eq_of_lt a.isLt]
  have hb : (0 : BitVec 32) ++ b = BitVec.ofNat 64 b.toNat := by
    apply BitVec.eq_of_toNat_eq
    rw [toNat_append, BitVec.toNat_ofNat]
    have := b.isLt
    rw [show (0 : BitVec 32).toNat = 0 from rfl]
    omega
  rw [hb, show (0 : BitVec 32) ++ (0 : BitVec 32) = (0 : BitVec 64) from rfl, zero_add]

/-! ## Signs -/

/-- A word as a signed number, from its amount. -/
theorem ofInt_toInt (a : BitVec 32) :
    BitVec.ofInt 64 a.toInt =
      if a.msb then -BitVec.ofNat 64 (-a).toNat else BitVec.ofNat 64 a.toNat := by
  rw [BitVec.toInt_eq_msb_cond]
  split
  · rename_i h
    have := le_toNat_of_msb h
    have := a.isLt
    have hneg : ((-a).toNat : Int) = 4294967296 - a.toNat := by
      rw [BitVec.toNat_neg]
      omega
    rw [← BitVec.ofInt_natCast, ← BitVec.ofInt_neg, hneg]
    congr 1
    omega
  · exact BitVec.ofInt_natCast ..

/-- What `Mult` makes of an operand: its amount, and its sign. -/
def operand (x : BitVec 32) (signedArith : Bool) : BitVec 64 :=
  if signedArith && x.msb then -BitVec.ofNat 64 (-x).toNat else BitVec.ofNat 64 x.toNat

/-- `Mult` multiplies the operands with their signs. -/
theorem mult_operands (a b : BitVec 32) (signedArith : Bool) :
    (mult a b signedArith).1 ++ (mult a b signedArith).2 =
      operand a signedArith * operand b signedArith := by
  have hzero : operand 0 signedArith = 0 := by cases signedArith <;> rfl
  unfold mult
  split
  · rename_i h
    rcases h with rfl | rfl
    · rw [hzero, zero_mul]
      rfl
    · rw [hzero, mul_zero]
      rfl
  · have hloop := multLoop_all (if signedArith && a.msb then -a else a)
      (if signedArith && b.msb then -b else b)
    unfold operand
    dsimp only
    generalize (signedArith && a.msb) = negA at hloop ⊢
    generalize (signedArith && b.msb) = negB at hloop ⊢
    generalize multLoop 32 _ _ 0 0 0 = words at hloop ⊢
    cases negA <;> cases negB
    · exact hloop
    · exact (append_neg words.1 words.2).trans (by rw [hloop]; exact (mul_neg _ _).symm)
    · exact (append_neg words.1 words.2).trans (by rw [hloop]; exact (neg_mul _ _).symm)
    · exact hloop.trans (neg_mul_neg _ _).symm

/-- `Mult` is exact: the two words are the product of the operands, as signed numbers with
`signedArith` and as unsigned numbers without. -/
theorem mult_exact (a b : BitVec 32) :
    ((mult a b true).1 ++ (mult a b true).2).toInt = a.toInt * b.toInt ∧
    ((mult a b false).1 ++ (mult a b false).2).toNat = a.toNat * b.toNat := by
  constructor
  · have hwords : (mult a b true).1 ++ (mult a b true).2 = BitVec.ofInt 64 (a.toInt * b.toInt) := by
      rw [mult_operands, BitVec.ofInt_mul, ofInt_toInt, ofInt_toInt]
      rfl
    have hlow := @BitVec.le_toInt_mul_toInt 32 a b
    have hhigh := @BitVec.toInt_mul_toInt_le 32 a b
    rw [hwords, BitVec.toInt_ofInt]
    norm_num at hlow hhigh
    exact Int.bmod_eq_of_le (by norm_num; omega) (by norm_num; omega)
  · rw [mult_operands]
    show (BitVec.ofNat 64 a.toNat * BitVec.ofNat 64 b.toNat).toNat = _
    rw [← BitVec.ofNat_mul, BitVec.toNat_ofNat, Nat.mod_eq_of_lt]
    exact lt_of_lt_of_eq (Nat.mul_lt_mul'' a.isLt b.isLt) (by norm_num)

end Nachos
