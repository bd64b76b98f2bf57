import Mathlib.Algebra.Group.Int.Defs
import Mathlib.Algebra.Group.Nat.Defs
import Mathlib.Data.List.Perm.Basic
import Nachos.Library.Transition
import Nachos.Threads.Semaphore

/-!
# Runs of one semaphore

Any number of threads call `P` and `V` on one `Semaphore`, each section with interrupts off being
one step. `V` hands the first waiting thread to the scheduler and adds a unit; the thread runs the
loop test of `P` again later, and another caller of `P` can have taken the unit by then. So the
state carries, beside the semaphore, the threads that `V` has taken out of the queue and that have
not looked at the value again. `value` is an `int` of the host and wraps around.
-/

namespace Nachos.Semaphore

open Transition

/-- The largest value of an `int`. -/
def INT_MAX : Int := 2 ^ 31 - 1

/-- What an `int` holds after `v` has been computed into it. -/
def wrapInt (v : Int) : Int := Int.bmod v (2 ^ 32)

variable {v : Int}

/-- Values of an `int` are stored as they are. -/
theorem wrapInt_eq (hlow : -2 ^ 31 ≤ v) (hhigh : v ≤ INT_MAX) : wrapInt v = v := by
  unfold INT_MAX at hhigh
  exact Int.bmod_eq_of_le (by omega) (by omega)

/-- The increment of the largest `int` gives a negative one. -/
theorem wrapInt_INT_MAX_succ : wrapInt (INT_MAX + 1) < 0 := by decide

variable {T : Type*}

/-- The semaphore and the threads `V` has woken that have not tested the value again. -/
structure Shared (T : Type*) where
  sem : Semaphore T
  woken : List T
  deriving DecidableEq, Repr

/-- A semaphore just constructed. -/
def Shared.new (initialValue : Int) : Shared T := ⟨.new initialValue, []⟩

/-- A thread enters `P`, a woken thread runs the loop test of its `P` again, or somebody calls
`V`. -/
inductive Act (T : Type*) where
  | P (t : T)
  | retest (t : T)
  | V
  deriving DecidableEq, Repr

/-- A call of `P` completed, a caller of `P` going to sleep, and a `V`. -/
inductive Event (T : Type*) where
  | completed (t : T)
  | slept (t : T)
  | released
  deriving DecidableEq, Repr

/-- Whether the event is the completion of a `P`. -/
def Event.isCompleted : Event T → Bool
  | .completed _ => true
  | _ => false

/-- Whether the event is a `V`. -/
def Event.isReleased : Event T → Bool
  | .released => true
  | _ => false

/-- One pass of `t` through the loop of `P`. -/
def Shared.pass (s : Shared T) (t : T) : List (Event T) × Shared T :=
  match s.sem.P t with
  | (true, sem) => ([.completed t], { s with sem := { sem with value := wrapInt sem.value } })
  | (false, sem) => ([.slept t], { s with sem := sem })

/-- The whole of `V`. -/
def Shared.release (s : Shared T) : List (Event T) × Shared T :=
  match s.sem.V with
  | (thread, sem) =>
    ([.released], ⟨{ sem with value := wrapInt sem.value }, s.woken ++ thread.toList⟩)

/-- One section with interrupts off. A thread that sleeps or has been woken is inside its `P`
and cannot enter another one. -/
def step [DecidableEq T] : Step (Shared T) (Act T) (Event T)
  | s, .P t => if t ∈ s.sem.queue ∨ t ∈ s.woken then none else some (s.pass t)
  | s, .retest t =>
    if t ∈ s.woken then some (Shared.pass { s with woken := s.woken.erase t } t) else none
  | s, .V => some s.release

/-- No `V` takes the counter past `INT_MAX`. -/
def InRange : Shared T → Act T → Prop
  | s, .V => s.sem.value < INT_MAX
  | _, _ => True

/-- `InRange` is decided by a comparison. -/
instance InRange.decidable (s : Shared T) (act : Act T) : Decidable (InRange s act) :=
  match act with
  | .V => inferInstanceAs (Decidable (s.sem.value < INT_MAX))
  | .P _ => isTrue trivial
  | .retest _ => isTrue trivial

/-- The units ever put in less the units taken out. -/
def balance (v : Int) (trace : List (Event T)) : Int :=
  v + trace.countP Event.isReleased - trace.countP Event.isCompleted

variable {s s' : Shared T} {trace events : List (Event T)} {act : Act T}

/-- A pass takes a unit when there is one. -/
theorem pass_of_ne_zero {t : T} (h : s.sem.value ≠ 0) :
    s.pass t =
      ([.completed t], { s with sem := { s.sem with value := wrapInt (s.sem.value - 1) } }) := by
  simp [Shared.pass, P, h]

/-- A pass without a unit puts the caller to sleep. -/
theorem pass_of_zero {t : T} (h : s.sem.value = 0) :
    s.pass t = ([.slept t], { s with sem := { s.sem with queue := s.sem.queue ++ [t] } }) := by
  simp [Shared.pass, P, h]

/-- The facts about the counter, the queue and the woken threads that every step keeps. -/
structure Counted (v : Int) (trace : List (Event T)) (s : Shared T) : Prop where
  value : s.sem.value = balance v trace
  nonneg : 0 ≤ s.sem.value
  small : s.sem.value ≤ INT_MAX
  /-- A unit that no woken thread is about to look at is never left beside a sleeping thread. -/
  noLoss : s.sem.queue ≠ [] → s.sem.value ≤ s.woken.length
  /-- A thread sleeps or has been woken in one `P` at a time. -/
  distinct : (s.sem.queue ++ s.woken).Nodup

/-- A pass through the loop of `P` keeps the facts. `t` has just entered its `P`, or has just been
taken off the woken threads: that is why one unit more than `woken.length` may be there. -/
theorem counted_pass {t : T} (hvalue : s.sem.value = balance v trace) (hnonneg : 0 ≤ s.sem.value)
    (hsmall : s.sem.value ≤ INT_MAX)
    (hslack : s.sem.queue ≠ [] → s.sem.value ≤ s.woken.length + 1)
    (hdistinct : (t :: (s.sem.queue ++ s.woken)).Nodup) :
    Counted v (trace ++ (s.pass t).1) (s.pass t).2 := by
  have hrest := (List.nodup_cons.mp hdistinct).2
  by_cases hzero : s.sem.value = 0
  · rw [pass_of_zero hzero]
    refine ⟨?_, hnonneg, hsmall, ?_, ?_⟩
    · simpa [balance, Event.isReleased, Event.isCompleted] using hvalue
    · intro _
      simp only [hzero]
      omega
    · -- the caller moves to the end of the queue
      have hperm : (s.sem.queue ++ [t] ++ s.woken).Perm (t :: (s.sem.queue ++ s.woken)) := by
        simp
      exact hperm.nodup_iff.mpr hdistinct
  · rw [pass_of_ne_zero hzero]
    have hwrap : wrapInt (s.sem.value - 1) = s.sem.value - 1 :=
      wrapInt_eq (by omega) (by omega)
    refine ⟨?_, ?_, ?_, ?_, hrest⟩
    · have hcount : balance v (trace ++ [.completed t]) = balance v trace - 1 := by
        simp [balance, Event.isReleased, Event.isCompleted]
        omega
      simp only [hwrap, hcount]
      omega
    · simp only [hwrap]
      omega
    · simp only [hwrap]
      omega
    · intro hqueue
      simp only [hwrap]
      have := hslack hqueue
      omega

/-- `V` keeps the facts as long as the counter does not overflow. -/
theorem counted_release (h : Counted v trace s) (hsmall : s.sem.value < INT_MAX) :
    Counted v (trace ++ s.release.1) s.release.2 := by
  have hnonneg := h.nonneg
  have hwrap : wrapInt (s.sem.value + 1) = s.sem.value + 1 := wrapInt_eq (by omega) (by omega)
  refine ⟨?_, ?_, ?_, ?_, ?_⟩
  · have hcount : balance v (trace ++ [Event.released (T := T)]) = balance v trace + 1 := by
      simp [balance, Event.isReleased, Event.isCompleted]
      omega
    have hvalue := h.value
    simp only [Shared.release, V, hwrap, hcount]
    omega
  · simp only [Shared.release, V, hwrap]
    omega
  · simp only [Shared.release, V, hwrap]
    omega
  · -- the unit comes with a woken thread whenever somebody was asleep
    intro hqueue
    cases hq : s.sem.queue with
    | nil => simp [Shared.release, V, hq] at hqueue
    | cons first rest =>
      have := h.noLoss (by simp [hq])
      simp only [Shared.release, V, hq, hwrap, List.head?_cons, Option.toList_some,
        List.length_append, List.length_singleton]
      omega
  · cases hq : s.sem.queue with
    | nil => simpa [Shared.release, V, hq] using h.distinct
    | cons first rest =>
      have hperm : (rest ++ (s.woken ++ [first])).Perm (first :: rest ++ s.woken) := by
        rw [← List.append_assoc]
        exact List.perm_append_singleton first (rest ++ s.woken)
      have hdistinct := h.distinct
      rw [hq] at hdistinct
      simpa [Shared.release, V, hq] using hperm.nodup_iff.mpr hdistinct

/-- What one step keeps. -/
theorem counted_step [DecidableEq T] (h : Counted v trace s) (hok : InRange s act)
    (hs : step s act = some (events, s')) : Counted v (trace ++ events) s' := by
  cases act with
  | P t =>
    simp only [step] at hs
    split at hs
    · cases hs
    · rename_i hnew
      obtain ⟨rfl, rfl⟩ := Prod.mk.inj (Option.some.inj hs)
      refine counted_pass h.value h.nonneg h.small (fun hq ↦ ?_) ?_
      · have := h.noLoss hq
        omega
      · exact List.nodup_cons.mpr ⟨by simpa using hnew, h.distinct⟩
  | retest t =>
    simp only [step] at hs
    split at hs
    · rename_i hwoken
      obtain ⟨rfl, rfl⟩ := Prod.mk.inj (Option.some.inj hs)
      refine counted_pass (s := { s with woken := s.woken.erase t }) h.value h.nonneg h.small
        (fun hq ↦ ?_) ?_
      · have := h.noLoss hq
        have := List.length_erase_add_one hwoken
        simp only
        omega
      · have hperm : (t :: (s.sem.queue ++ s.woken.erase t)).Perm (s.sem.queue ++ s.woken) :=
          List.perm_middle.symm.trans ((List.perm_cons_erase hwoken).symm.append_left _)
        exact hperm.nodup_iff.mpr h.distinct
    · cases hs
  | V =>
    obtain ⟨rfl, rfl⟩ := Prod.mk.inj (Option.some.inj hs)
    exact counted_release h hok

/-- A step shows a `V` exactly if it is one. -/
theorem step_released [DecidableEq T] (hs : step s act = some (events, s')) :
    events.countP Event.isReleased = if act = .V then 1 else 0 := by
  have hpass : ∀ (s : Shared T) t, (s.pass t).1.countP Event.isReleased = 0 := by
    intro s t
    by_cases hzero : s.sem.value = 0
    · rw [pass_of_zero hzero]
      rfl
    · rw [pass_of_ne_zero hzero]
      rfl
  cases act with
  | V =>
    cases hs
    rfl
  | P t | retest t =>
    simp only [step, Option.ite_none_left_eq_some, Option.ite_none_right_eq_some,
      Option.some.injEq] at hs
    rw [← hpass _ t, hs.2]
    rfl

/-- A trace shows as many calls of `V` as were made. -/
theorem released_count [DecidableEq T] {acts : List (Act T)}
    (h : execute step s acts = some (trace, s')) :
    trace.countP Event.isReleased = acts.count .V := by
  induction acts generalizing s trace with
  | nil =>
    cases h
    rfl
  | cons act rest ih =>
    simp only [execute, bind, Option.bind_eq_some_iff, pure, Option.some.injEq] at h
    obtain ⟨⟨events, t⟩, hs, ⟨later, u⟩, hrest, h⟩ := h
    cases h
    rw [List.countP_append, step_released hs, ih hrest, List.count_cons, Nat.add_comm]
    simp only [beq_iff_eq]

/-- For every initial value, any threads and any interleaving of `P` and `V` that keeps the
counter in the range of an `int`: the value is the initial value plus the calls of `V` less the
completed calls of `P`, it is never negative, and while some thread is queued it is at most the
number of threads that `V` has taken out of the queue and that have not tested it again. The calls
of `V` are those of the actions that make up the run. -/
theorem value_counts [DecidableEq T] {v : Int} (hv : 0 ≤ v) (hmax : v ≤ INT_MAX)
    {trace : List (Event T)} {s : Shared T} (h : Run step InRange (Shared.new v) trace s) :
    s.sem.value = v + trace.countP Event.isReleased - trace.countP Event.isCompleted ∧
      0 ≤ s.sem.value ∧ s.woken.Nodup ∧
      (s.sem.queue ≠ [] → s.sem.value ≤ s.woken.length) ∧
      (∃ acts, execute step (Shared.new v) acts = some (trace, s)) ∧
      ∀ acts, execute step (Shared.new v) acts = some (trace, s) →
        trace.countP Event.isReleased = acts.count .V := by
  have hcounted : Counted v trace s := by
    refine h.traceInvariant ⟨?_, hv, hmax, ?_, ?_⟩ ?_
    · simp [Shared.new, new, balance]
    · intro hq
      exact absurd rfl hq
    · simp [Shared.new, new]
    · intro tr s₁ act events s₂ hinv hok hs
      exact counted_step hinv hok hs
  exact ⟨hcounted.value, hcounted.nonneg, (List.nodup_append.mp hcounted.distinct).2.1,
    hcounted.noLoss, h.exists_execute, fun acts hacts => released_count hacts⟩

/-- Three threads on a binary semaphore: thread 1 sleeps, `V` wakes it, and thread 2 takes the unit
before it looks again. -/
theorem value_counts_stolen : ∃ trace s,
    Run (step (T := Nat)) InRange (Shared.new 1) trace s ∧
      (s.sem.queue = [1] ∧ s.sem.value = 0 ∧ s.woken = []) ∧
      s.sem.value = 1 + trace.countP Event.isReleased - trace.countP Event.isCompleted := by
  have hrun : Run (step (T := Nat)) InRange (Shared.new 1)
      [.completed 0, .slept 1, .released, .completed 2, .slept 1] ⟨⟨0, [1]⟩, []⟩ := by
    have hexec : execute (step (T := Nat)) (Shared.new 1) [.P 0, .P 1, .V, .P 2, .retest 1] =
        some ([.completed 0, .slept 1, .released, .completed 2, .slept 1], ⟨⟨0, [1]⟩, []⟩) := by
      decide +kernel
    exact run_of_execute hexec (by decide +kernel)
  exact ⟨_, _, hrun, ⟨rfl, rfl, rfl⟩, (value_counts (by decide) (by decide) hrun).1⟩

end Nachos.Semaphore
