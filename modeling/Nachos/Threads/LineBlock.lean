import Mathlib.Logic.Function.Basic
import Nachos.Threads.Semaphore

/-!
# One call at a time

`RLineBlock` and `WLineBlock` are semaphores with initial value 1. A thread that calls `Read` or
`Write` passes `P`, works inside with its local variables, and leaves with `V`. Here is what the
semaphore guarantees, whatever the calls do inside: at most one thread is there, and the value is
0 exactly then. A thread that `V` wakes tests the value again, and another one may have entered.
-/

namespace Nachos.LineBlock

/-- Where a thread is: `A` is what it calls with, `H` its local variables. -/
inductive Phase (A H : Type*) where
  | out
  /-- About to test the value in `P`. -/
  | entering (call : A)
  /-- Asleep in the queue. -/
  | waiting (call : A)
  | inside (locals : H)
  deriving DecidableEq, Repr

/-- The semaphore and where the threads are. -/
structure Line (T A H : Type*) where
  block : Semaphore T
  phase : T → Phase A H

variable {T A H : Type} [DecidableEq T]

/-- A semaphore just constructed, and nobody has called. -/
def Line.new : Line T A H := ⟨.new 1, fun _ => .out⟩

/-- A thread goes on. -/
def Line.set (l : Line T A H) (t : T) (p : Phase A H) : Line T A H :=
  { l with phase := Function.update l.phase t p }

/-- A thread makes a call. -/
def Line.call (l : Line T A H) (t : T) (a : A) : Option (Line T A H) :=
  match l.phase t with
  | .out => some (l.set t (.entering a))
  | _ => none

/-- One pass of a thread through the loop of `P`, with what it called when it gets in. -/
def Line.pass (l : Line T A H) (t : T) (start : A → H) : Option (Option A × Line T A H) :=
  match l.phase t with
  | .entering a =>
    match l.block.P t with
    | (true, block) => some (some a, { l.set t (.inside (start a)) with block := block })
    | (false, block) => some (none, { l.set t (.waiting a) with block := block })
  | _ => none

/-- A thread that `V` takes out of the queue goes back to the loop of `P`. -/
def Phase.wake : Phase A H → Phase A H
  | .waiting a => .entering a
  | p => p

/-- `V` and the return of the call. -/
def Line.free (l : Line T A H) (t : T) : Line T A H :=
  let (woken, block) := l.block.V
  let l : Line T A H := { l with block := block }
  let l := match woken with
    | none => l
    | some u => l.set u (l.phase u).wake
  l.set t .out

/-- The thread inside, if there is one, with its local variables. -/
structure Held (l : Line T A H) (holder : Option (T × H)) : Prop where
  value : l.block.value = if holder.isSome then 0 else 1
  inside : ∀ t h, l.phase t = .inside h ↔ holder = some (t, h)

variable {l l' : Line T A H} {holder : Option (T × H)} {t : T} {h h' : H}

omit [DecidableEq T] in
theorem held_new : Held (Line.new : Line T A H) none :=
  ⟨rfl, by simp [Line.new]⟩

/-- A thread that was not inside goes somewhere outside. -/
theorem Held.outside (hl : Held l holder) {p : Phase A H} (ht : ∀ h, l.phase t ≠ .inside h)
    (hp : ∀ h, p ≠ .inside h) : Held (l.set t p) holder := by
  refine ⟨hl.value, fun u h => ?_⟩
  by_cases hu : u = t
  · subst hu
    have hnot : holder ≠ some (u, h) := fun heq => ht h ((hl.inside u h).mpr heq)
    simp [Line.set, hp h, hnot]
  · simp [Line.set, hu, hl.inside u h]

/-- The thread inside goes on. -/
theorem Held.set (hl : Held l (some (t, h))) :
    Held (l.set t (.inside h')) (some (t, h')) := by
  refine ⟨hl.value, fun u g => ?_⟩
  by_cases hu : u = t
  · subst hu
    simp [Line.set]
  · have hnot : l.phase u ≠ .inside g := by
      rw [ne_eq, hl.inside u g]
      simp [Ne.symm hu]
    simp [Line.set, hu, Ne.symm hu, hnot]

theorem Held.call (hl : Held l holder) {a : A} (hs : l.call t a = some l') : Held l' holder := by
  unfold Line.call at hs
  split at hs
  · rename_i hout
    cases hs
    exact hl.outside (by simp [hout]) (by simp)
  · cases hs

/-- A thread gets in only when nobody is inside. -/
theorem Held.pass (hl : Held l holder) {start : A → H} {entered : Option A}
    (hs : l.pass t start = some (entered, l')) :
    (entered = none ∧ Held l' holder) ∨
      ∃ a, entered = some a ∧ holder = none ∧ Held l' (some (t, start a)) := by
  unfold Line.pass at hs
  split at hs
  · rename_i a hentering
    have hout : ∀ h, l.phase t ≠ .inside h := by simp [hentering]
    by_cases hvalue : l.block.value = 0
    · simp only [Semaphore.P, if_pos hvalue] at hs
      cases hs
      have hset := hl.outside hout (p := .waiting a) (by simp)
      exact .inl ⟨rfl, hset.value, hset.inside⟩
    · simp only [Semaphore.P, if_neg hvalue] at hs
      cases hs
      have hnone : holder = none := by
        cases holder with
        | none => rfl
        | some r => exact absurd (by simpa using hl.value) hvalue
      subst hnone
      refine .inr ⟨a, rfl, rfl, by simp [hl.value], fun u g => ?_⟩
      by_cases hu : u = t
      · subst hu
        simp [Line.set]
      · simp [Line.set, hu, Ne.symm hu, hl.inside u g]
  · cases hs

/-- Waking a thread does not move it in or out. -/
theorem Held.wake (hl : Held l holder) (u : T) : Held (l.set u (l.phase u).wake) holder := by
  cases hu : l.phase u with
  | waiting a => exact hl.outside (by simp [hu]) (by simp [Phase.wake])
  | out => exact hl.outside (by simp [hu]) (by simp [Phase.wake])
  | entering a => exact hl.outside (by simp [hu]) (by simp [Phase.wake])
  | inside g =>
    have hheld := (hl.inside u g).mp hu
    subst hheld
    exact hl.set

/-- The thread inside leaves. -/
theorem Held.free (hl : Held l (some (t, h))) : Held (l.free t) none := by
  have hout : ∀ m : Line T A H, m.block.value = 1 → (∀ u g, u ≠ t → m.phase u ≠ .inside g) →
      Held (m.set t .out) none := by
    intro m hvalue hm
    refine ⟨hvalue, fun u g => ?_⟩
    by_cases hu : u = t
    · subst hu
      simp [Line.set]
    · simp [Line.set, hu, hm u g hu]
  have hvalue : l.block.value = 0 := hl.value
  have hothers : ∀ u g, u ≠ t → l.phase u ≠ .inside g := by
    intro u g hu
    rw [ne_eq, hl.inside u g]
    simp [Ne.symm hu]
  simp only [Line.free, Semaphore.V]
  split
  · exact hout _ (by simp [hvalue]) hothers
  · rename_i u _
    refine hout _ (by simp [Line.set, hvalue]) fun v g hv => ?_
    have hwake := (hl.wake u).inside v g
    exact fun hin => hv (by simpa using (Prod.ext_iff.mp (Option.some.inj (hwake.mp hin))).1.symm)

/-- What the threads that are not inside yet have called with. -/
def Line.Calls (l : Line T A H) (ok : A → Prop) : Prop :=
  ∀ t a, l.phase t = .entering a ∨ l.phase t = .waiting a → ok a

section Calls

variable {ok : A → Prop}

theorem Line.Calls.set (hl : l.Calls ok) {p : Phase A H}
    (hp : ∀ a, p = .entering a ∨ p = .waiting a → ok a) : (l.set t p).Calls ok := by
  intro u a hu
  by_cases hut : u = t
  · exact hp a (by simpa [Line.set, hut] using hu)
  · exact hl u a (by simpa [Line.set, hut] using hu)

theorem Line.Calls.call (hl : l.Calls ok) {a : A} (ha : ok a) (hs : l.call t a = some l') :
    l'.Calls ok := by
  unfold Line.call at hs
  split at hs
  · cases hs
    exact hl.set fun b hb => by simp at hb; exact hb ▸ ha
  · cases hs

theorem Line.Calls.pass (hl : l.Calls ok) {start : A → H} {entered : Option A}
    (hs : l.pass t start = some (entered, l')) :
    l'.Calls ok ∧ ∀ a, entered = some a → ok a := by
  unfold Line.pass at hs
  split at hs
  · rename_i a hentering
    have ha : ok a := hl t a (.inl hentering)
    split at hs
    · cases hs
      have hset := hl.set (t := t) (p := .inside (start a)) (by simp)
      exact ⟨hset, fun b hb => by cases hb; exact ha⟩
    · cases hs
      have hset := hl.set (t := t) (p := .waiting a) fun b hb => by simp at hb; exact hb ▸ ha
      exact ⟨hset, by simp⟩
  · cases hs

theorem Line.Calls.free (hl : l.Calls ok) : (l.free t).Calls ok := by
  simp only [Line.free]
  split
  · exact Line.Calls.set (l := { l with block := _ }) hl (by simp)
  · rename_i u _
    refine Line.Calls.set (Line.Calls.set (l := { l with block := _ }) hl fun a ha => ?_) (by simp)
    refine hl u a ?_
    cases hu : l.phase u <;> simp [hu, Phase.wake] at ha ⊢
    · exact ha
    · exact ha

end Calls

end Nachos.LineBlock
