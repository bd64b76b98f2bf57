import Mathlib.Algebra.Order.Ring.Int
import Mathlib.Order.Bounds.Basic
import Mathlib.Tactic.Ring

/-!
# Times of a rotating device

A device that turns at a constant rate has `n` positions, each under its head for `r` units of
time: position `k % n` from time `k * r` on. `roundUp r time` is the first boundary between two
positions from `time` on (`isLeast_roundUp`). A position has passed the head completely at the
boundary after its turn; `isLeast_passed` gives the first such time for a device that starts to
look at `arrival`.
-/

namespace Nachos.Periodic

variable {r n : Int}

/-- The first multiple of `r` from `time` on. -/
def roundUp (r time : Int) : Int := time + -time % r

theorem isLeast_roundUp (hr : 0 < r) (time : Int) :
    IsLeast {t | r ∣ t ∧ time ≤ t} (roundUp r time) := by
  have hnonneg := Int.emod_nonneg (-time) (Int.ne_of_gt hr)
  have hlt := Int.emod_lt_of_pos (-time) hr
  have hdvd : r ∣ roundUp r time := by
    refine ⟨-(-time / r), ?_⟩
    have hdiv := Int.mul_ediv_add_emod (-time) r
    rw [roundUp, Int.mul_neg]
    omega
  refine ⟨⟨hdvd, by rw [roundUp]; omega⟩, fun t ht => ?_⟩
  -- Two multiples of `r` that are less than `r` apart in this direction cannot differ.
  obtain ⟨q, hq⟩ := hdvd
  obtain ⟨⟨k, rfl⟩, hle⟩ := ht
  have hstep : r * (q - 1) < r * k := by
    rw [Int.mul_sub, Int.mul_one, ← hq, roundUp]
    omega
  have hqk : q - 1 < k := Int.lt_of_mul_lt_mul_left hstep (Int.le_of_lt hr)
  rw [hq]
  exact Int.mul_le_mul_of_nonneg_left (by omega) (Int.le_of_lt hr)

theorem roundUp_of_dvd {time : Int} (h : r ∣ time) : roundUp r time = time := by
  rw [roundUp, Int.emod_eq_zero_of_dvd (Int.dvd_neg.mpr h), Int.add_zero]

/-- The first number from `m` on that is congruent to `s`. -/
theorem isLeast_congruent (hn : 0 < n) (m s : Int) :
    IsLeast {k | k % n = s % n ∧ m ≤ k} (m + (s - m) % n) := by
  have hnonneg := Int.emod_nonneg (s - m) (Int.ne_of_gt hn)
  refine ⟨⟨?_, by omega⟩, fun k hk => ?_⟩
  · rw [Int.add_emod_emod, Int.add_comm, Int.sub_add_cancel]
  · obtain ⟨hmod, hle⟩ := hk
    have hsame : (s - m) % n = (k - m) % n := by
      rw [Int.sub_emod, ← hmod, ← Int.sub_emod]
    have hdiv := Int.mul_ediv_add_emod (k - m) n
    have hquot : 0 ≤ n * ((k - m) / n) :=
      Int.mul_nonneg (Int.le_of_lt hn) (Int.ediv_nonneg (by omega) (Int.le_of_lt hn))
    omega

/-- The boundaries at which the position of `s` has just passed completely, for a head that is in
place from `arrival` on. -/
def passed (r n arrival s : Int) : Set Int :=
  {t | r ∣ t ∧ (t / r - 1) % n = s % n ∧ arrival + r ≤ t}

theorem isLeast_passed (hr : 0 < r) (hn : 0 < n) (arrival s : Int) :
    IsLeast (passed r n arrival s)
      (roundUp r arrival + (s - roundUp r arrival / r) % n * r + r) := by
  have hround := isLeast_roundUp hr arrival
  obtain ⟨⟨m, hm⟩, hle⟩ := hround.1
  have hquot : roundUp r arrival / r = m := by rw [hm, Int.mul_ediv_cancel_left m (by omega)]
  obtain ⟨⟨hmod, hfirst⟩, hleast⟩ := isLeast_congruent hn m s
  have htime : roundUp r arrival + (s - m) % n * r + r = r * (m + (s - m) % n + 1) := by
    rw [hm]
    ring
  rw [hquot, htime]
  refine ⟨⟨⟨_, rfl⟩, ?_, ?_⟩, fun t ht => ?_⟩
  · rw [Int.mul_ediv_cancel_left _ (by omega), Int.add_sub_cancel]
    exact hmod
  · have hmul := Int.mul_le_mul_of_nonneg_left hfirst (Int.le_of_lt hr)
    rw [Int.mul_add, Int.mul_one]
    omega
  · -- The boundary before `t` is one from `arrival` on.
    obtain ⟨⟨j, rfl⟩, hpos, hafter⟩ := ht
    rw [Int.mul_ediv_cancel_left j (by omega)] at hpos
    have hprev : roundUp r arrival ≤ r * (j - 1) := by
      refine hround.2 ⟨⟨j - 1, rfl⟩, ?_⟩
      rw [Int.mul_sub, Int.mul_one]
      omega
    rw [hm] at hprev
    have hmj : m ≤ j - 1 := Int.le_of_mul_le_mul_left hprev hr
    have hj := hleast ⟨hpos, hmj⟩
    exact Int.mul_le_mul_of_nonneg_left (by omega) (Int.le_of_lt hr)

end Nachos.Periodic
