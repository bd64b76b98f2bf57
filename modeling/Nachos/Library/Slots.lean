import Mathlib.Data.List.Perm.Subperm
import Mathlib.Logic.Function.Basic

/-!
# Tables of slots with owners

A table keeps an entry of some owner in each of its occupied slots. `Own table x l` says that `l`
lists the entries of `x`, each of them once. An owner that takes a free slot, changes its entry or
gives a slot back changes its own list and nobody else's. A table in which fewer slots are occupied
than there are has a free one (`exists_freeSlot`).
-/

namespace Nachos.Slots

open Function

variable {X E : Type*}

/-- The entries by their slots. -/
abbrev Table (X E : Type*) := Nat → Option (X × E)

/-- The list holds the entries of `x` with their slots. -/
structure Own (table : Table X E) (x : X) (l : List (Nat × E)) : Prop where
  nodup : (l.map Prod.fst).Nodup
  mem : ∀ i e, table i = some (x, e) ↔ (i, e) ∈ l

variable {table : Table X E} {x : X} {l l' : List (Nat × E)} {i : Nat} {e e' : E}

/-- The empty table. -/
theorem own_nil (h : ∀ i, table i = none) : Own table x [] :=
  ⟨List.nodup_nil, fun i e => by simp [h i]⟩

theorem Own.perm (h : Own table x l) (hperm : l.Perm l') : Own table x l' :=
  ⟨(hperm.map Prod.fst).nodup_iff.mp h.nodup, fun i e => (h.mem i e).trans hperm.mem_iff⟩

theorem Own.head (h : Own table x ((i, e) :: l)) : table i = some (x, e) :=
  (h.mem i e).mpr List.mem_cons_self

/-- A slot changes that is not, and does not become, one of the owner. -/
theorem Own.update_other (h : Own table x l) {entry : Option (X × E)}
    (hold : ∀ e, table i ≠ some (x, e)) (hnew : ∀ e, entry ≠ some (x, e)) :
    Own (update table i entry) x l := by
  refine ⟨h.nodup, fun j e => ?_⟩
  rw [update_apply]
  split
  · rename_i hj
    subst hj
    exact iff_of_false (hnew e) fun hmem => hold e ((h.mem j e).mpr hmem)
  · exact h.mem j e

/-- The owner takes a free slot. -/
theorem Own.insert (h : Own table x l) (hfree : table i = none) (e : E) :
    Own (update table i (some (x, e))) x ((i, e) :: l) := by
  have hnot : ∀ e, (i, e) ∉ l := by
    intro e hmem
    rw [(h.mem i e).mpr hmem] at hfree
    cases hfree
  refine ⟨?_, fun j e' => ?_⟩
  · refine List.nodup_cons.mpr ⟨?_, h.nodup⟩
    intro hmem
    obtain ⟨⟨j, e'⟩, hj, rfl⟩ := List.mem_map.mp hmem
    exact hnot e' hj
  · rw [update_apply]
    split
    · rename_i hj
      subst hj
      simp [hnot e', eq_comm]
    · rename_i hj
      simp [h.mem j e', hj]

/-- The owner gives a slot back. -/
theorem Own.erase (h : Own table x ((i, e) :: l)) : Own (update table i none) x l := by
  obtain ⟨hnot, hnodup⟩ := List.nodup_cons.mp h.nodup
  refine ⟨hnodup, fun j e' => ?_⟩
  rw [update_apply]
  split
  · rename_i hj
    subst hj
    exact iff_of_false (by simp) fun hmem => hnot (List.mem_map.mpr ⟨(j, e'), hmem, rfl⟩)
  · rename_i hj
    rw [h.mem j e', List.mem_cons, Prod.mk.injEq]
    exact or_iff_right fun heq => hj heq.1

/-- The owner changes an entry. -/
theorem Own.move (h : Own table x ((i, e) :: l)) (e' : E) :
    Own (update table i (some (x, e'))) x ((i, e') :: l) := by
  have hfree : update table i none i = none := update_self ..
  have hinsert := h.erase.insert hfree e'
  rwa [update_idem] at hinsert

/-! ## Free slots -/

/-- The first free one of the slots. -/
def freeSlot (table : Table X E) (slots : List Nat) : Option Nat :=
  slots.find? fun i => (table i).isNone

theorem freeSlot_free {slots : List Nat} (h : freeSlot table slots = some i) : table i = none := by
  simpa using List.find?_some h

/-- One of the slots is free when fewer are occupied. -/
theorem exists_freeSlot {slots occupied : List Nat} (hnodup : slots.Nodup)
    (hcover : ∀ i, table i ≠ none → i ∈ occupied) (hlt : occupied.length < slots.length) :
    ∃ i, freeSlot table slots = some i := by
  cases hfree : freeSlot table slots with
  | some i => exact ⟨i, rfl⟩
  | none =>
    have hsub : slots ⊆ occupied := by
      intro i hi
      apply hcover
      have hi' := List.find?_eq_none.mp hfree i hi
      simpa using hi'
    have hle := (hnodup.subperm hsub).length_le
    omega

end Nachos.Slots
