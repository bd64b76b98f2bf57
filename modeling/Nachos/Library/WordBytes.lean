import Mathlib.Data.BitVec

/-!
# Words in bytes

A block of memory is a function from offsets to bytes. `pack` lays 32-bit words out one after the
other, least significant byte first, and `unpack` reads them back. A number is the value of a signed
word exactly if it is in its range (`toInt_ofInt_of_fits`).
-/

namespace Nachos.WordBytes

/-- Memory from some address on. -/
abbrev Bytes := Nat → BitVec 8

/-- Byte `k` of a word. -/
def byteOf (w : BitVec 32) (k : Nat) : BitVec 8 := w.extractLsb' (8 * k) 8

/-- The word in the first four bytes. -/
def wordOf (b : Bytes) : BitVec 32 := b 3 ++ b 2 ++ b 1 ++ b 0

/-- Consecutive words. -/
def pack (words : Nat → BitVec 32) : Bytes := fun o => byteOf (words (o / 4)) (o % 4)

/-- The words in a block of memory. -/
def unpack (b : Bytes) : Nat → BitVec 32 := fun k => wordOf fun j => b (4 * k + j)

/-- A word is made of its bytes. -/
theorem wordOf_byteOf (w : BitVec 32) : wordOf (byteOf w) = w := by
  unfold wordOf byteOf
  rw [BitVec.extractLsb'_append_extractLsb'_eq_extractLsb' (by decide),
    BitVec.extractLsb'_append_extractLsb'_eq_extractLsb' (by decide),
    BitVec.extractLsb'_append_extractLsb'_eq_extractLsb' (by decide)]
  simp

/-- The bytes of a word made of bytes. -/
theorem byteOf_wordOf (b : Bytes) {k : Nat} (hk : k < 4) : byteOf (wordOf b) k = b k := by
  have hcases : k = 0 ∨ k = 1 ∨ k = 2 ∨ k = 3 := by omega
  unfold byteOf wordOf
  rcases hcases with rfl | rfl | rfl | rfl
  · exact BitVec.extractLsb'_append_eq_right
  · rw [BitVec.extractLsb'_append_eq_of_le (by decide)]
    exact BitVec.extractLsb'_append_eq_right
  · rw [BitVec.extractLsb'_append_eq_of_le (by decide),
      BitVec.extractLsb'_append_eq_of_le (by decide)]
    exact BitVec.extractLsb'_append_eq_right
  · rw [BitVec.extractLsb'_append_eq_of_le (by decide),
      BitVec.extractLsb'_append_eq_of_le (by decide)]
    exact BitVec.extractLsb'_append_eq_left

/-- A word depends on its own four bytes. -/
theorem wordOf_congr {b b' : Bytes} (h : ∀ j < 4, b j = b' j) : wordOf b = wordOf b' := by
  unfold wordOf
  rw [h 0 (by decide), h 1 (by decide), h 2 (by decide), h 3 (by decide)]

/-- What has been packed is read back, also when only a part of the bytes is kept. -/
theorem unpack_eq {b : Bytes} {words : Nat → BitVec 32} {k : Nat}
    (h : ∀ j < 4, b (4 * k + j) = pack words (4 * k + j)) : unpack b k = words k := by
  rw [← wordOf_byteOf (words k), unpack]
  refine wordOf_congr fun j hj => ?_
  rw [h j hj, pack, show (4 * k + j) / 4 = k by omega, show (4 * k + j) % 4 = j by omega]

@[simp] theorem unpack_pack (words : Nat → BitVec 32) : unpack (pack words) = words :=
  funext fun _ => unpack_eq fun _ _ => rfl

/-! ## Signed words -/

/-- The number is in the range of a signed word. -/
def FitsInt (v : Int) : Prop := -2147483648 ≤ v ∧ v < 2147483648

instance (v : Int) : Decidable (FitsInt v) := inferInstanceAs (Decidable (_ ∧ _))

/-- A signed word is an `int`. -/
theorem fitsInt_toInt (w : BitVec 32) : FitsInt w.toInt := by
  have hlow := BitVec.le_toInt w
  have hhigh := BitVec.toInt_lt (x := w)
  exact ⟨by omega, by omega⟩

/-- An `int` fits into a word. -/
theorem toInt_ofInt_of_fits {v : Int} (h : FitsInt v) : (BitVec.ofInt 32 v).toInt = v := by
  rw [BitVec.toInt_ofInt]
  exact Int.bmod_eq_of_le h.1 h.2

end Nachos.WordBytes
