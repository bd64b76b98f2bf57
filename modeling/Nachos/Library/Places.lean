import Mathlib.Data.List.Nodup
import Mathlib.Logic.Function.Basic

/-!
# Things in places

Every thing is in one place, and some places keep a list of the things that are there. `Lists` says
that a list is right about its place; the lemmas say what happens to it when one thing moves.
-/

namespace Nachos.Places

variable {α β : Type*}

/-- The list holds the things that are at `p`, each of them once. -/
structure Lists (place : α → β) (p : β) (list : List α) : Prop where
  nodup : list.Nodup
  mem : ∀ a, a ∈ list ↔ place a = p

variable {place : α → β} {p q : β} {list rest : List α} {a : α}

theorem lists_nil (h : ∀ a, place a ≠ p) : Lists place p [] :=
  ⟨List.nodup_nil, by simpa using h⟩

/-- A list counts a thing that is at its place once. -/
theorem Lists.count_eq_one [DecidableEq α] (h : Lists place p list) (ha : place a = p) :
    list.count a = 1 :=
  List.count_eq_one_of_mem h.nodup ((h.mem a).mpr ha)

variable [DecidableEq α]

/-- A thing moves in, to the end of the list. -/
theorem Lists.append (h : Lists place p list) (ha : place a ≠ p) :
    Lists (Function.update place a p) p (list ++ [a]) where
  nodup := by
    have hnot : a ∉ list := fun hmem => ha ((h.mem a).mp hmem)
    exact h.nodup.append (List.nodup_singleton a) (by simpa using hnot)
  mem := fun b => by
    by_cases hb : b = a
    · simp [hb]
    · simp [hb, h.mem b]

/-- The first thing of the list moves out. -/
theorem Lists.tail (h : Lists place p (a :: rest)) (hq : q ≠ p) :
    Lists (Function.update place a q) p rest := by
  obtain ⟨hnot, hnodup⟩ := List.nodup_cons.mp h.nodup
  refine ⟨hnodup, fun b => ?_⟩
  by_cases hb : b = a
  · simp [hb, hnot, hq]
  · simp [hb, ← h.mem b]

/-- A thing moves between other places. -/
theorem Lists.other (h : Lists place p list) (ha : place a ≠ p) (hq : q ≠ p) :
    Lists (Function.update place a q) p list := by
  refine ⟨h.nodup, fun b => ?_⟩
  by_cases hb : b = a
  · simp [hb, h.mem a, ha, hq]
  · simp [hb, h.mem b]

end Nachos.Places
