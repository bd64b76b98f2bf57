import Mathlib.Logic.Relation

/-!
# Programs confined to given accesses

A program reads and changes a state and returns a value or stops with an error; either way it
leaves a state behind. `Confined A ε α` is the type of programs that come with the proof that they
change the state only by accesses of `A`, one after the other. Composition keeps that, so whatever
is written with `do` from confined parts is confined, and an invariant of the single accesses is
one of the whole program (`Confined.invariant`). Two runs from two states are compared part by
part (`Confined.Related`).
-/

namespace Nachos

open Relation

/-- A program on states `σ` whose changes are sequences of accesses in `A`. -/
structure Confined {σ : Type*} (A : σ → σ → Prop) (ε α : Type*) where
  run : σ → Except ε α × σ
  confined : ∀ s, ReflTransGen A s (run s).2

namespace Confined

universe u

variable {σ ε : Type*} {α β : Type u} {A B : σ → σ → Prop} {x : Confined A ε α}
  {f : α → Confined A ε β} {s s' : σ}

/-- Return a value. -/
protected def pure (a : α) : Confined A ε α := ⟨fun s => (.ok a, s), fun _ => .refl⟩

/-- Run one program and, if it returns, another. -/
protected def bind (x : Confined A ε α) (f : α → Confined A ε β) : Confined A ε β where
  run s := match x.run s with
    | (.ok a, s') => (f a).run s'
    | (.error e, s') => (.error e, s')
  confined s := by
    have hx := x.confined s
    cases hrun : x.run s with
    | mk result s' =>
      rw [hrun] at hx
      cases result with
      | ok a => exact hx.trans ((f a).confined s')
      | error e => exact hx

instance instMonadConfined : Monad (Confined A ε) where
  pure := Confined.pure
  bind := Confined.bind

/-- Stop with an error. -/
def stop (e : ε) : Confined A ε α := ⟨fun s => (.error e, s), fun _ => .refl⟩

/-- Look at the state. -/
def read (f : σ → α) : Confined A ε α := ⟨fun s => (.ok (f s), s), fun _ => .refl⟩

/-- Change the state by accesses. -/
def update (f : σ → σ) (h : ∀ s, ReflTransGen A s (f s)) : Confined A ε Unit :=
  ⟨fun s => (.ok (), f s), h⟩

/-- The same program under weaker accesses. -/
def weaken (h : ∀ s t, A s t → B s t) (x : Confined A ε α) : Confined B ε α :=
  ⟨x.run, fun s => ReflTransGen.mono h s _ (x.confined s)⟩

/-- The second program runs if the first returns. -/
theorem run_bind (x : Confined A ε α) (f : α → Confined A ε β) (s : σ) :
    (x >>= f).run s = match x.run s with
      | (.ok a, s') => (f a).run s'
      | (.error e, s') => (.error e, s') := rfl

/-- Programs that run alike are equal. -/
protected theorem ext {x y : Confined A ε α} (h : ∀ s, x.run s = y.run s) : x = y := by
  cases x
  cases y
  congr
  exact funext h

protected theorem id_map (x : Confined A ε α) : id <$> x = x := by
  apply Confined.ext
  intro s
  change (x >>= fun a => pure a).run s = _
  rw [run_bind]
  split <;> rename_i h <;> exact h.symm

protected theorem bind_assoc {γ : Type u} (x : Confined A ε α) (f : α → Confined A ε β)
    (g : β → Confined A ε γ) : x >>= f >>= g = x >>= fun a => f a >>= g := by
  apply Confined.ext
  intro s
  simp only [run_bind]
  cases x.run s with
  | mk result s' => cases result <;> rfl

instance instLawfulMonadConfined : LawfulMonad (Confined A ε : Type u → Type _) :=
  LawfulMonad.mk' _ Confined.id_map (fun _ _ => rfl) Confined.bind_assoc

/-- The first program returns. -/
theorem run_bind_ok {a : α} (h : x.run s = (.ok a, s')) : (x >>= f).run s = (f a).run s' := by
  rw [run_bind, h]

/-- The first program stops, and the second does not run. -/
theorem run_bind_error {e : ε} (h : x.run s = (.error e, s')) :
    (x >>= f).run s = (.error e, s') := by
  rw [run_bind, h]

/-- A sequence that returns has returned from both parts. -/
theorem ok_of_bind {b : β} (h : (x >>= f).run s = (.ok b, s')) :
    ∃ a s₁, x.run s = (.ok a, s₁) ∧ (f a).run s₁ = (.ok b, s') := by
  rw [run_bind] at h
  split at h
  · rename_i a s₁ hx
    exact ⟨a, s₁, hx, h⟩
  · cases h

/-- What every access preserves, the program preserves, whether it returns or stops. -/
theorem invariant {P : σ → Prop} (hA : ∀ s t, A s t → P s → P t) (x : Confined A ε α) (h : P s) :
    P (x.run s).2 := by
  have hrun := x.confined s
  generalize (x.run s).2 = t at hrun ⊢
  induction hrun with
  | refl => exact h
  | tail _ hstep ih => exact hA _ _ hstep ih

/-! ## Two runs -/

/-- Both runs return, with results related by `Q`, or both stop with the same error. -/
def Matches (Q : α → α → Prop) : Except ε α → Except ε α → Prop
  | .ok a, .ok b => Q a b
  | .error e, .error e' => e' = e
  | _, _ => False

/-- Started in states related by `R`, the two programs match and leave related states behind. -/
def Related (R : σ → σ → Prop) (Q : α → α → Prop) (x y : Confined A ε α) : Prop :=
  ∀ s t, R s t → Matches Q (x.run s).1 (y.run t).1 ∧ R (x.run s).2 (y.run t).2

section Related

variable {R : σ → σ → Prop} {Q : α → α → Prop} {Q' : β → β → Prop}

/-- Results that are related. -/
theorem related_pure {a b : α} (h : Q a b) : Related R Q (pure a : Confined A ε α) (pure b) :=
  fun _ _ hR => ⟨h, hR⟩

/-- The same stop. -/
theorem related_stop {e : ε} : Related R Q (stop e : Confined A ε α) (stop e) :=
  fun _ _ hR => ⟨rfl, hR⟩

/-- Related programs compose. -/
theorem Related.bind {x y : Confined A ε α} {f g : α → Confined A ε β} (hx : Related R Q x y)
    (hf : ∀ a b, Q a b → Related R Q' (f a) (g b)) : Related R Q' (x >>= f) (y >>= g) := by
  intro s t hR
  obtain ⟨hmatch, hR'⟩ := hx s t hR
  rw [run_bind, run_bind]
  rcases hxs : x.run s with ⟨e | a, s'⟩ <;> rcases hyt : y.run t with ⟨e' | b, t'⟩ <;>
    rw [hxs, hyt] at hmatch hR'
  · exact ⟨hmatch, hR'⟩
  · exact hmatch.elim
  · exact hmatch.elim
  · exact hf a b hmatch s' t' hR'

/-- The same branch is taken. -/
theorem related_ite {c : Prop} [Decidable c] {x x' y y' : Confined A ε α}
    (hx : c → Related R Q x y) (hy : ¬ c → Related R Q x' y') :
    Related R Q (if c then x else x') (if c then y else y') := by
  split
  · exact hx ‹_›
  · exact hy ‹_›

end Related

end Confined

end Nachos
