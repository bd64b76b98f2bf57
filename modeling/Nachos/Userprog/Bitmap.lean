import Mathlib.Data.List.Nodup
import Mathlib.Data.List.Range
import Mathlib.Data.Finset.Card
import Mathlib.Data.Finset.Range

/-!
# The bitmap of `userprog/bitmap.cc`

A `BitMap` is an array of 32-bit words of which only the first `numBits` bits mean anything.
`mark`, `clear` and `test` carry the `ASSERT` of the source as a failing case. What callers use
is stated over `clearBits`, the increasing list of clear bit numbers: `findFreeSlot` hands out
its head and `numClear` is its length.
-/

namespace Nachos

/-- `BitsInWord` of `bitmap.h`. -/
def BitsInWord : Nat := 32

/-- `divRoundUp` of `utility.h`. -/
def divRoundUp (n s : Nat) : Nat := n / s + if 0 < n % s then 1 else 0

/-- `numBits` bits in `numWords` words, the last of which may be used in part only. -/
structure BitMap where
  numBits : Nat
  map : List (BitVec 32)
  numWords : map.length = divRoundUp numBits BitsInWord

namespace BitMap

/-- The word test of `BitMap::Test`: `map[which / BitsInWord] & (1 << (which % BitsInWord))`. -/
def bit (b : BitMap) (which : Nat) : Bool :=
  b.map.getD (which / BitsInWord) 0 &&& (1#32 <<< (which % BitsInWord)) != 0#32

/-- The word update of `BitMap::Mark`. -/
def markBit (b : BitMap) (which : Nat) : BitMap where
  numBits := b.numBits
  map := b.map.set (which / BitsInWord)
    (b.map.getD (which / BitsInWord) 0 ||| (1#32 <<< (which % BitsInWord)))
  numWords := by rw [List.length_set, b.numWords]

/-- The word update of `BitMap::Clear`. -/
def clearBit (b : BitMap) (which : Nat) : BitMap where
  numBits := b.numBits
  map := b.map.set (which / BitsInWord)
    (b.map.getD (which / BitsInWord) 0 &&& ~~~(1#32 <<< (which % BitsInWord)))
  numWords := by rw [List.length_set, b.numWords]

/-- `BitMap::BitMap`: the words come from `new` with whatever the heap held (`raw`), and only
the first `nitems` bits are cleared. -/
def new (nitems : Nat) (raw : Nat → BitVec 32) : BitMap :=
  (List.range nitems).foldl clearBit
    { numBits := nitems
      map := (List.range (divRoundUp nitems BitsInWord)).map raw
      numWords := by simp }

/-- `BitMap::Mark`; `none` is the failing `ASSERT`. -/
def mark (b : BitMap) (which : Int) : Option BitMap :=
  if 0 ≤ which ∧ which < b.numBits then some (b.markBit which.toNat) else none

/-- `BitMap::Clear`; `none` is the failing `ASSERT`. -/
def clear (b : BitMap) (which : Int) : Option BitMap :=
  if 0 ≤ which ∧ which < b.numBits then some (b.clearBit which.toNat) else none

/-- `BitMap::Test`; `none` is the failing `ASSERT`. -/
def test (b : BitMap) (which : Int) : Option Bool :=
  if 0 ≤ which ∧ which < b.numBits then some (b.bit which.toNat) else none

/-- `BitMap::FindFreeSlot`. The loop index is below `numBits`, so the asserts of `Test` and
`Mark` hold on every iteration. -/
def findFreeSlot (b : BitMap) : Int × BitMap :=
  match (List.range b.numBits).find? (fun i => !b.bit i) with
  | some i => (i, b.markBit i)
  | none => (-1, b)

/-- `BitMap::NumClear`. -/
def numClear (b : BitMap) : Nat :=
  (List.range b.numBits).countP (fun i => !b.bit i)

/-- The clear bits, in increasing order. -/
def clearBits (b : BitMap) : List Nat :=
  (List.range b.numBits).filter (fun i => !b.bit i)

/-! ## Single bits -/

@[simp] theorem markBit_numBits (b : BitMap) (i : Nat) : (b.markBit i).numBits = b.numBits := rfl

@[simp] theorem clearBit_numBits (b : BitMap) (i : Nat) : (b.clearBit i).numBits = b.numBits := rfl

variable {b : BitMap} {i : Nat} {j : Nat} {rest : List Nat}

theorem word_lt (hi : i < b.numBits) : i / BitsInWord < b.map.length := by
  rw [b.numWords, divRoundUp, BitsInWord]
  split <;> omega

/-- Testing with a one-bit mask reads that bit of the word. -/
theorem bit_eq_getLsbD (b : BitMap) (i : Nat) :
    b.bit i = (b.map.getD (i / BitsInWord) 0).getLsbD (i % BitsInWord) := by
  have hlt : i % BitsInWord < 32 := Nat.mod_lt _ (by decide)
  rw [bit, ← BitVec.twoPow_eq, BitVec.and_twoPow]
  cases (b.map.getD (i / BitsInWord) 0).getLsbD (i % BitsInWord) with
  | false => simp
  | true =>
    have hne : BitVec.twoPow 32 (i % BitsInWord) ≠ 0#32 := fun h => by
      have := congrArg (fun w => w.getLsbD (i % BitsInWord)) h
      simp [hlt] at this
    simpa using hne

/-- Two positions in the same word differ in their bit number. -/
theorem mod_ne_of_div_eq (hw : i / BitsInWord = j / BitsInWord) (hne : j ≠ i) :
    i % BitsInWord ≠ j % BitsInWord := by
  have hi := Nat.div_add_mod i BitsInWord
  have hj := Nat.div_add_mod j BitsInWord
  rw [hw] at hi
  omega

theorem getD_set_word (b : BitMap) (hi : i < b.numBits) (w : BitVec 32) :
    (b.map.set (i / BitsInWord) w).getD (j / BitsInWord) 0 =
      if i / BitsInWord = j / BitsInWord then w else b.map.getD (j / BitsInWord) 0 := by
  simp only [List.getD_eq_getElem?_getD, List.getElem?_set, word_lt hi, if_true]
  split <;> rfl

/-- `Mark` sets its own bit and no other. -/
theorem bit_markBit (hi : i < b.numBits) (j : Nat) :
    (b.markBit i).bit j = (decide (j = i) || b.bit j) := by
  have hlt : ∀ n, n % BitsInWord < 32 := fun n => Nat.mod_lt _ (by decide)
  rw [bit_eq_getLsbD, bit_eq_getLsbD]
  simp only [markBit, getD_set_word b hi, ← BitVec.twoPow_eq]
  by_cases hw : i / BitsInWord = j / BitsInWord
  · by_cases hji : j = i
    · subst hji
      simp [hlt]
    · simp [hw, BitVec.getLsbD_twoPow, mod_ne_of_div_eq hw hji, hji]
  · have hji : j ≠ i := fun h => hw (by rw [h])
    simp [hw, hji]

/-- `Clear` clears its own bit and no other. -/
theorem bit_clearBit (hi : i < b.numBits) (j : Nat) :
    (b.clearBit i).bit j = (!decide (j = i) && b.bit j) := by
  have hlt : ∀ n, n % BitsInWord < 32 := fun n => Nat.mod_lt _ (by decide)
  rw [bit_eq_getLsbD, bit_eq_getLsbD]
  simp only [clearBit, getD_set_word b hi, ← BitVec.twoPow_eq]
  by_cases hw : i / BitsInWord = j / BitsInWord
  · by_cases hji : j = i
    · subst hji
      simp [hlt]
    · simp [hw, (mod_ne_of_div_eq hw hji).symm, hji, hlt]
  · have hji : j ≠ i := fun h => hw (by rw [h])
    simp [hw, hji]

/-! ## The clear bits -/

theorem mem_clearBits : i ∈ b.clearBits ↔ i < b.numBits ∧ b.bit i = false := by
  simp [clearBits]

theorem clearBits_sorted (b : BitMap) : b.clearBits.Pairwise (· < ·) :=
  List.Pairwise.filter _ List.pairwise_lt_range

theorem clearBits_nodup (b : BitMap) : b.clearBits.Nodup :=
  List.Nodup.filter _ List.nodup_range

/-- `NumClear` counts the clear bits. -/
theorem numClear_eq_length (b : BitMap) : b.numClear = b.clearBits.length := by
  rw [numClear, clearBits, List.countP_eq_length_filter]

/-- Marking the least clear bit removes it from the clear bits. -/
theorem clearBits_markBit (h : b.clearBits = i :: rest) : (b.markBit i).clearBits = rest := by
  have hi : i < b.numBits := (mem_clearBits.mp (h ▸ List.mem_cons_self)).1
  have hnd : (i :: rest).Nodup := h ▸ b.clearBits_nodup
  have hfilter : (b.markBit i).clearBits = b.clearBits.filter (fun j => decide (j ≠ i)) := by
    rw [clearBits, clearBits, List.filter_filter]
    apply List.filter_congr
    intro j _
    simp [bit_markBit hi]
  rw [hfilter, h, List.filter_cons_of_neg (by simp)]
  apply List.filter_eq_self.mpr
  intro j hj
  have hne : j ≠ i := fun heq => (List.nodup_cons.mp hnd).1 (heq ▸ hj)
  simpa using hne

/-- `FindFreeSlot` hands out the least clear bit and marks it. -/
theorem findFreeSlot_cons (h : b.clearBits = i :: rest) : b.findFreeSlot = (↑i, b.markBit i) := by
  have hfind : (List.range b.numBits).find? (fun i => !b.bit i) = some i := by
    rw [← List.head?_filter]
    exact congrArg List.head? h
  rw [findFreeSlot, hfind]

/-- `FindFreeSlot` on a full bitmap returns -1 and changes nothing. -/
theorem findFreeSlot_nil (h : b.clearBits = []) : b.findFreeSlot = (-1, b) := by
  have hfind : (List.range b.numBits).find? (fun i => !b.bit i) = none := by
    rw [← List.head?_filter]
    exact congrArg List.head? h
  rw [findFreeSlot, hfind]

/-- What one call of `FindFreeSlot` can do. -/
theorem findFreeSlot_cases (b : BitMap) :
    (∃ i, i < b.numBits ∧ b.bit i = false ∧ b.findFreeSlot = (↑i, b.markBit i)) ∨
      (∀ i < b.numBits, b.bit i = true) ∧ b.findFreeSlot = (-1, b) := by
  cases h : b.clearBits with
  | nil =>
    refine .inr ⟨fun i hi => ?_, findFreeSlot_nil h⟩
    cases hb : b.bit i with
    | true => rfl
    | false => exact absurd (h ▸ mem_clearBits.mpr ⟨hi, hb⟩) List.not_mem_nil
  | cons i rest =>
    have hi := mem_clearBits.mp (h ▸ List.mem_cons_self : i ∈ b.clearBits)
    exact .inl ⟨i, hi.1, hi.2, findFreeSlot_cons h⟩

/-! ## Construction -/

theorem foldl_clearBit_numBits (l : List Nat) (b : BitMap) :
    (l.foldl clearBit b).numBits = b.numBits := by
  induction l generalizing b with
  | nil => rfl
  | cons i l ih => rw [List.foldl_cons, ih, clearBit_numBits]

theorem bit_foldl_clearBit (l : List Nat) (b : BitMap) (hl : ∀ i ∈ l, i < b.numBits) (j : Nat) :
    (l.foldl clearBit b).bit j = (!decide (j ∈ l) && b.bit j) := by
  induction l generalizing b with
  | nil => simp
  | cons i l ih =>
    have hi : i < b.numBits := hl i List.mem_cons_self
    have hrest := ih (b.clearBit i) (fun k hk => hl k (List.mem_cons_of_mem _ hk))
    rw [List.foldl_cons, hrest, bit_clearBit hi]
    by_cases hji : j = i <;> simp [hji]

@[simp] theorem new_numBits (n : Nat) (raw : Nat → BitVec 32) : (new n raw).numBits = n :=
  foldl_clearBit_numBits _ _

/-- A new bitmap has every bit clear, whatever the heap held before. -/
theorem bit_new {n : Nat} (hi : i < n) (raw : Nat → BitVec 32) : (new n raw).bit i = false := by
  rw [new, bit_foldl_clearBit _ _ (fun k hk => List.mem_range.mp hk)]
  simp [hi]

end BitMap
end Nachos
