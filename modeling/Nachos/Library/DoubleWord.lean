import Mathlib.Data.BitVec

/-!
# Numbers in two words

A 64-bit number is kept in a high and a low word of 32 bits. Its sum, its double and its two's
complement are computed word by word, with the carry found by a comparison or by a mask. The bits of
a word are found by masks and brought down by shifts.
-/

namespace Nachos.DoubleWord

variable {x : BitVec 32}

/-! ## Bits of a word -/

/-- The sign bit, as a mask finds it. -/
theorem and_signBit_eq_zero_iff (x : BitVec 32) : x &&& 0x80000000#32 = 0 ↔ x.msb = false := by
  have hmask : x &&& 0x80000000#32 = if x.msb then 0x80000000#32 else 0 := by
    rw [show (0x80000000#32) = BitVec.twoPow 32 31 from rfl, BitVec.and_twoPow,
      BitVec.msb_eq_getLsbD_last]
    rfl
  rw [hmask]
  cases x.msb <;> simp

/-- A word without its sign bit. -/
theorem toNat_lt_of_msb (h : x.msb = false) : x.toNat < 2147483648 := by
  have := BitVec.msb_eq_false_iff_two_mul_lt.mp h
  omega

/-- A word with its sign bit. -/
theorem le_toNat_of_msb (h : x.msb = true) : 2147483648 ≤ x.toNat := by
  have := BitVec.msb_eq_true_iff_two_mul_ge.mp h
  omega

/-- The last bit, as a mask finds it. -/
theorem and_one_ne_zero_iff (a : BitVec 32) : a &&& 1#32 ≠ 0 ↔ a.toNat % 2 = 1 := by
  have hnat : (a &&& 1#32).toNat = a.toNat % 2 := by
    rw [BitVec.toNat_and]
    exact Nat.and_one_is_mod _
  rw [Ne, ← BitVec.toNat_inj, hnat, show (0 : BitVec 32).toNat = 0 from rfl]
  omega

/-- The other bits, as a mask finds them. -/
theorem and_rest_eq_zero_iff (a : BitVec 32) : a &&& 0xfffffffe#32 = 0 ↔ a.toNat < 2 := by
  have hsplit : (a &&& 0xfffffffe#32) + (a &&& 1#32) = a := by
    rw [BitVec.add_eq_or_of_and_eq_zero, ← BitVec.and_or_distrib_left]
    · exact BitVec.and_allOnes
    · rw [BitVec.and_assoc, BitVec.and_comm _ (a &&& 1#32), BitVec.and_assoc]
      simp
  have hone : (a &&& 1#32).toNat < 2 := by
    rw [BitVec.toNat_and]
    exact lt_of_le_of_lt Nat.and_le_right (by decide)
  constructor
  · intro h
    rw [h, zero_add] at hsplit
    rwa [← hsplit]
  · intro h
    have hcases : a = 0#32 ∨ a = 1#32 := by
      simp only [← BitVec.toNat_inj, BitVec.toNat_ofNat]
      omega
    rcases hcases with rfl | rfl <;> rfl

/-- An arithmetic shift brings the next bit down; below the top it is a division. -/
theorem sshiftRight_one_mod (a : BitVec 32) {n : Nat} (hn : n < 32) :
    (a.sshiftRight 1).toNat % 2 ^ n = a.toNat / 2 % 2 ^ n := by
  have hlow : (a.sshiftRight 1).toNat % 2147483648 = a.toNat / 2 := by
    rw [BitVec.toNat_sshiftRight, Nat.shiftRight_eq_div_pow, Nat.shiftRight_eq_div_pow]
    have := a.isLt
    split
    · rename_i h
      have := le_toNat_of_msb h
      omega
    · rename_i h
      have := toNat_lt_of_msb (Bool.not_eq_true _ ▸ h)
      omega
  have hdvd : 2 ^ n ∣ 2147483648 := Nat.pow_dvd_pow 2 (show n ≤ 31 by omega)
  rw [← hlow, Nat.mod_mod_of_dvd _ hdvd]

/-- The last bit of a number and the bits above it. -/
theorem mod_two_pow_succ (a n : Nat) : a % 2 ^ (n + 1) = a % 2 + 2 * (a / 2 % 2 ^ n) := by
  rw [Nat.pow_succ', Nat.mod_mul]

/-! ## Two words -/

/-- The number in two words. -/
theorem toNat_append (hi lo : BitVec 32) :
    (hi ++ lo).toNat = hi.toNat * 4294967296 + lo.toNat := by
  rw [BitVec.toNat_append, ← Nat.shiftLeft_add_eq_or_of_lt lo.isLt, Nat.shiftLeft_eq]

/-- Addition with the carry found by a comparison. -/
theorem append_add (hi lo bHi bLo : BitVec 32) :
    ((if lo + bLo < bLo then hi + 1 else hi) + bHi) ++ (lo + bLo) = (hi ++ lo) + (bHi ++ bLo) := by
  apply BitVec.eq_of_toNat_eq
  have hcarry : lo + bLo < bLo ↔ 4294967296 ≤ lo.toNat + bLo.toNat := by
    rw [BitVec.lt_def, BitVec.toNat_add]
    have := lo.isLt
    have := bLo.isLt
    omega
  rw [BitVec.toNat_add, toNat_append, toNat_append, toNat_append, BitVec.toNat_add,
    BitVec.toNat_add]
  have := lo.isLt
  have := bLo.isLt
  split
  · rename_i h
    rw [hcarry] at h
    rw [BitVec.toNat_add, show (1 : BitVec 32).toNat = 1 from rfl]
    omega
  · rename_i h
    rw [hcarry] at h
    omega

/-- A shift by one place, with the bit that moves from the low word to the high one. -/
theorem append_double (bHi bLo : BitVec 32) :
    ((bHi <<< 1) ||| (if bLo &&& 0x80000000#32 ≠ 0 then 1#32 else 0)) ++ (bLo <<< 1) =
      (bHi ++ bLo) + (bHi ++ bLo) := by
  apply BitVec.eq_of_toNat_eq
  have hor : ∀ c : BitVec 32, c.toNat < 2 →
      ((bHi <<< 1) ||| c).toNat = bHi.toNat * 2 % 4294967296 + c.toNat := by
    intro c hc
    rw [BitVec.toNat_or, BitVec.toNat_shiftLeft, Nat.shiftLeft_eq]
    have heven : bHi.toNat * 2 ^ 1 % 2 ^ 32 = (bHi.toNat % 2147483648) <<< 1 := by
      rw [Nat.shiftLeft_eq]
      omega
    rw [heven, ← Nat.shiftLeft_add_eq_or_of_lt (by simpa using hc), Nat.shiftLeft_eq]
    omega
  have hlo : (bLo <<< 1).toNat = bLo.toNat * 2 % 4294967296 := by
    rw [BitVec.toNat_shiftLeft, Nat.shiftLeft_eq]
  rw [BitVec.toNat_add, toNat_append, toNat_append, hlo]
  have := bLo.isLt
  simp only [ne_eq, and_signBit_eq_zero_iff]
  cases hmsb : bLo.msb with
  | true =>
    have := le_toNat_of_msb hmsb
    rw [if_pos (by simp), hor 1#32 (by decide), show (1#32).toNat = 1 from rfl]
    omega
  | false =>
    have := toNat_lt_of_msb hmsb
    rw [if_neg (by simp), hor 0 (by decide), show (0 : BitVec 32).toNat = 0 from rfl]
    omega

/-- The two's complement: the carry into the high word is found by a comparison with zero. -/
theorem append_neg (hi lo : BitVec 32) :
    (if ~~~lo + 1 = 0 then ~~~hi + 1 else ~~~hi) ++ (~~~lo + 1) = -(hi ++ lo) := by
  have hnot : ~~~(hi ++ lo) = ~~~hi ++ ~~~lo := BitVec.not_append
  rw [BitVec.neg_eq_not_add, hnot]
  have hzero : ~~~lo + 1 = 0 ↔ ~~~lo + 1 < 1 := by
    rw [BitVec.lt_def, ← BitVec.toNat_inj, show (1 : BitVec 32).toNat = 1 from rfl,
      show (0 : BitVec 32).toNat = 0 from rfl]
    omega
  have hone : (1#64) = (0#32) ++ (1#32) := rfl
  rw [hone, ← append_add]
  simp only [hzero, BitVec.add_zero]
  rfl

end Nachos.DoubleWord
