import Nachos.Library.Refinement
import Nachos.Userprog.Bitmap
import Mathlib.Order.Bounds.Basic

/-!
# The bitmap as a finite set

Frames, process ids, semaphores and disk sectors are all handed out by a `BitMap`. Its purpose is
to keep a subset of `{0, ..., n - 1}`: `SetCall` says what each of its five operations does to
such a set, in terms of sets only. `marked` reads the set off the words. Every operation on the
words does to `marked` what `SetCall` prescribes, so every sequence of calls with indices in range
passes its asserts and answers as the set does.
-/

namespace Nachos.BitMap

open Transition Refinement

/-- The operations of a bitmap, with the argument of the caller. -/
inductive Call where
  | mark (which : Int)
  | clear (which : Int)
  | test (which : Int)
  | findFreeSlot
  | numClear
  deriving Repr, DecidableEq

/-- What an operation returns. -/
inductive Answer where
  | void
  | bool (value : Bool)
  | int (value : Int)
  deriving Repr, DecidableEq

/-- One operation on the words; a failing `ASSERT` gives `none`. -/
def call : Step BitMap Call Answer
  | b, .mark which => (b.mark which).map fun b' => ([.void], b')
  | b, .clear which => (b.clear which).map fun b' => ([.void], b')
  | b, .test which => (b.test which).map fun value => ([.bool value], b)
  | b, .findFreeSlot => some ([.int b.findFreeSlot.1], b.findFreeSlot.2)
  | b, .numClear => some ([.int b.numClear], b)

/-- The index of a call, if it has one, is in `[0, n)`. -/
def Call.InRange (n : Nat) : Call → Prop
  | .mark which | .clear which | .test which => 0 ≤ which ∧ which < n
  | .findFreeSlot | .numClear => True

instance Call.decidableInRange (n : Nat) : ∀ c : Call, Decidable (c.InRange n)
  | .mark which | .clear which | .test which => inferInstanceAs (Decidable (0 ≤ which ∧ which < n))
  | .findFreeSlot | .numClear => .isTrue True.intro

/-- The operations on a subset of `{0, ..., n - 1}`. -/
inductive SetCall (n : Nat) (S : Finset Nat) : Call → List Answer → Finset Nat → Prop where
  | mark (i : Nat) : SetCall n S (.mark i) [.void] (insert i S)
  | clear (i : Nat) : SetCall n S (.clear i) [.void] (S.erase i)
  | test (i : Nat) : SetCall n S (.test i) [.bool (decide (i ∈ S))] S
  | found (i : Nat) : IsLeast {j | j < n ∧ j ∉ S} i →
      SetCall n S .findFreeSlot [.int i] (insert i S)
  | full : S = Finset.range n → SetCall n S .findFreeSlot [.int (-1)] S
  | numClear : SetCall n S .numClear [.int (n - S.card)] S

/-- The set that the words represent. -/
def marked (b : BitMap) : Finset Nat := {i ∈ Finset.range b.numBits | b.bit i = true}

/-! ## The operations on the set -/

variable {b : BitMap} {i : Nat}

theorem mem_marked : i ∈ b.marked ↔ i < b.numBits ∧ b.bit i = true := by
  simp [marked]

theorem marked_subset (b : BitMap) : b.marked ⊆ Finset.range b.numBits := Finset.filter_subset _ _

theorem mem_clearBits_iff_not_marked : i ∈ b.clearBits ↔ i < b.numBits ∧ i ∉ b.marked := by
  rw [mem_clearBits, mem_marked]
  cases b.bit i <;> simp

theorem marked_new (n : Nat) (raw : Nat → BitVec 32) : (new n raw).marked = ∅ := by
  apply Finset.eq_empty_of_forall_notMem
  intro i hi
  obtain ⟨hlt, hbit⟩ := mem_marked.mp hi
  rw [new_numBits] at hlt
  rw [bit_new hlt] at hbit
  cases hbit

theorem marked_markBit (hi : i < b.numBits) : (b.markBit i).marked = insert i b.marked := by
  ext j
  rw [Finset.mem_insert, mem_marked, mem_marked, bit_markBit hi, markBit_numBits]
  by_cases hji : j = i
  · simp [hji, hi]
  · simp [hji]

theorem marked_clearBit (hi : i < b.numBits) : (b.clearBit i).marked = b.marked.erase i := by
  ext j
  rw [Finset.mem_erase, mem_marked, mem_marked, bit_clearBit hi, clearBit_numBits]
  by_cases hji : j = i
  · simp [hji]
  · simp [hji]

/-- The clear bits are the rest of the set. -/
theorem card_marked_add_numClear (b : BitMap) : b.marked.card + b.numClear = b.numBits := by
  have hclear : b.clearBits.toFinset = {i ∈ Finset.range b.numBits | ¬ b.bit i = true} := by
    ext i
    rw [List.mem_toFinset, mem_clearBits, Finset.mem_filter, Finset.mem_range,
      Bool.not_eq_true]
  have hcount : b.numClear = b.clearBits.toFinset.card := by
    rw [numClear_eq_length, List.toFinset_card_of_nodup b.clearBits_nodup]
  rw [hcount, hclear, marked, Finset.card_filter_add_card_filter_not, Finset.card_range]

/-- The head of the clear bits is the least number not in the set. -/
theorem isLeast_of_clearBits {rest : List Nat} (h : b.clearBits = i :: rest) :
    IsLeast {j | j < b.numBits ∧ j ∉ b.marked} i := by
  have hsorted : (i :: rest).Pairwise (· < ·) := h ▸ b.clearBits_sorted
  constructor
  · exact mem_clearBits_iff_not_marked.mp (h ▸ List.mem_cons_self)
  · intro j hj
    have hmem : j ∈ i :: rest := h ▸ mem_clearBits_iff_not_marked.mpr hj
    cases List.mem_cons.mp hmem with
    | inl heq => exact heq.ge
    | inr hrest => exact (List.rel_of_pairwise_cons hsorted hrest).le

theorem marked_of_clearBits_nil (h : b.clearBits = []) : b.marked = Finset.range b.numBits := by
  refine Finset.Subset.antisymm b.marked_subset fun i hi => ?_
  by_contra hnot
  have hmem := mem_clearBits_iff_not_marked.mpr ⟨Finset.mem_range.mp hi, hnot⟩
  rw [h] at hmem
  exact List.not_mem_nil hmem

/-! ## Runs -/

/-- A bitmap of `n` bits and the set it represents. -/
def Represents (n : Nat) (b : BitMap) (S : Finset Nat) : Prop := b.numBits = n ∧ b.marked = S

/-- `FindFreeSlot` adds the least missing number, or finds the set full. -/
theorem findFreeSlot_setCall (b : BitMap) :
    ∃ S, SetCall b.numBits b.marked .findFreeSlot [.int b.findFreeSlot.1] S ∧
      Represents b.numBits b.findFreeSlot.2 S := by
  cases h : b.clearBits with
  | nil =>
    rw [findFreeSlot_nil h]
    exact ⟨b.marked, .full (marked_of_clearBits_nil h), rfl, rfl⟩
  | cons i rest =>
    have hleast := isLeast_of_clearBits h
    rw [findFreeSlot_cons h]
    exact ⟨insert i b.marked, .found i hleast, rfl, marked_markBit hleast.1.1⟩

/-- The words refine the set. -/
theorem call_refines (n : Nat) :
    Refines call (fun _ c => c.InRange n) (SetCall n) (Represents n) := by
  refine ⟨fun b S c hrep hc => ?_⟩
  obtain ⟨rfl, rfl⟩ := hrep
  -- An index in range is a natural number, and the assert of its operation holds.
  have hindex : ∀ which : Int, 0 ≤ which ∧ which < b.numBits →
      ∃ i : Nat, which = i ∧ i < b.numBits := by
    intro which hwhich
    exact ⟨which.toNat, by omega, by omega⟩
  cases c with
  | mark which =>
    obtain ⟨i, rfl, hi⟩ := hindex which hc
    refine ⟨[.void], b.markBit i, _, ?_, .mark i, rfl, marked_markBit hi⟩
    simp [call, mark, hi]
  | clear which =>
    obtain ⟨i, rfl, hi⟩ := hindex which hc
    refine ⟨[.void], b.clearBit i, _, ?_, .clear i, rfl, marked_clearBit hi⟩
    simp [call, clear, hi]
  | test which =>
    obtain ⟨i, rfl, hi⟩ := hindex which hc
    refine ⟨_, b, _, ?_, .test i, rfl, rfl⟩
    simp [call, test, hi, mem_marked]
  | findFreeSlot =>
    obtain ⟨S, hcall, hrep⟩ := findFreeSlot_setCall b
    exact ⟨_, b.findFreeSlot.2, S, rfl, hcall, hrep⟩
  | numClear =>
    have hcard := b.card_marked_add_numClear
    have hcount : (b.numClear : Int) = b.numBits - b.marked.card := by omega
    refine ⟨_, b, _, rfl, ?_, rfl, rfl⟩
    rw [hcount]
    exact .numClear

/-- Successive calls of `FindFreeSlot` hand out the clear bits in increasing order. -/
theorem execute_findFreeSlot (k : Nat) (b : BitMap) (hk : k ≤ b.clearBits.length) :
    ∃ b', execute call b (List.replicate k .findFreeSlot) =
      some ((b.clearBits.take k).map fun i => .int i, b') := by
  induction k generalizing b with
  | zero => exact ⟨b, by simp [execute]⟩
  | succ k ih =>
    cases h : b.clearBits with
    | nil => simp [h] at hk
    | cons i rest =>
      have hrest : k ≤ (b.markBit i).clearBits.length := by
        rw [clearBits_markBit h]
        simpa [h] using hk
      obtain ⟨b', hexec⟩ := ih (b.markBit i) hrest
      rw [clearBits_markBit h] at hexec
      refine ⟨b', ?_⟩
      simp [List.replicate_succ, execute, call, findFreeSlot_cons h, hexec]

/-- Whatever calls were made, `NumClear() >= k` promises `k` slots. -/
theorem slots_of_numClear {k : Nat} (hk : k ≤ b.numClear) :
    ∃ (slots : List Nat) (b' : BitMap), slots.length = k ∧ slots.Nodup ∧
      (∀ i ∈ slots, i < b.numBits ∧ i ∉ b.marked) ∧
      execute call b (List.replicate k .findFreeSlot) =
        some (slots.map fun i => .int i, b') := by
  rw [numClear_eq_length] at hk
  obtain ⟨b', hexec⟩ := execute_findFreeSlot k b hk
  refine ⟨b.clearBits.take k, b', List.length_take_of_le hk, ?_, ?_, hexec⟩
  · exact b.clearBits_nodup.sublist (List.take_sublist k _)
  · intro i hi
    exact mem_clearBits_iff_not_marked.mp (List.mem_of_mem_take hi)

/-- Every sequence of calls with indices in range answers as a subset of `{0, ..., n - 1}` does,
and the words represent that subset afterwards. `SetCall` gives the least missing number to
`FindFreeSlot` and the number of missing ones to `NumClear`, so `k` clear bits serve the next `k`
calls of `FindFreeSlot`. -/
theorem bitmap_refines_finset (n : Nat) (raw : Nat → BitVec 32) (calls : List Call)
    (hcalls : ∀ c ∈ calls, c.InRange n) :
    ∃ (answers : List Answer) (b : BitMap) (S : Finset Nat),
      execute call (new n raw) calls = some (answers, b) ∧
      Conforms (SetCall n) ∅ calls answers S ∧
      S ⊆ Finset.range n ∧ (∀ i < n, b.test i = some (decide (i ∈ S))) ∧
      b.numClear = n - S.card ∧
      ∀ k ≤ b.numClear, ∃ (slots : List Nat) (b' : BitMap), slots.length = k ∧ slots.Nodup ∧
        (∀ i ∈ slots, i < n ∧ i ∉ S) ∧
        execute call b (List.replicate k .findFreeSlot) =
          some (slots.map fun i => .int i, b') := by
  have hstart : Represents n (new n raw) ∅ := ⟨new_numBits n raw, marked_new n raw⟩
  obtain ⟨answers, b, S, hexec, hconf, hnum, rfl⟩ :=
    (call_refines n).execute hstart (allowed_of_forall hcalls)
  subst hnum
  have hcard := b.card_marked_add_numClear
  refine ⟨answers, b, b.marked, hexec, hconf, b.marked_subset, ?_, by omega, ?_⟩
  · intro i hi
    simp [test, hi, mem_marked]
  · intro k hk
    exact slots_of_numClear hk

/-- A bitmap of two words, the second used in part, with the sign bit of the first set. -/
theorem bitmap_refines_finset_two_words :
    ∃ (answers : List Answer) (b : BitMap) (S : Finset Nat),
      execute call (new 34 fun _ => 7#32)
        [.mark 0, .mark 31, .findFreeSlot, .clear 0, .test 31, .mark 33, .numClear] =
          some (answers, b) ∧
      Conforms (SetCall 34) ∅
        [.mark 0, .mark 31, .findFreeSlot, .clear 0, .test 31, .mark 33, .numClear] answers S ∧
      S ⊆ Finset.range 34 ∧ (∀ i : Nat, i < 34 → b.test i = some (decide (i ∈ S))) ∧
      b.numClear = 34 - S.card ∧
      ∀ k ≤ b.numClear, ∃ (slots : List Nat) (b' : BitMap), slots.length = k ∧ slots.Nodup ∧
        (∀ i ∈ slots, i < 34 ∧ i ∉ S) ∧
        execute call b (List.replicate k .findFreeSlot) =
          some (slots.map fun i => .int i, b') :=
  bitmap_refines_finset 34 (fun _ => 7#32)
    [.mark 0, .mark 31, .findFreeSlot, .clear 0, .test 31, .mark 33, .numClear] (by decide)

end Nachos.BitMap
