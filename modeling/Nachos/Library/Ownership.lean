import Mathlib.Data.List.Nodup

/-!
# Exclusive ownership of resources

`Owned held blocks` says that the list of blocks partitions the resources that are held: no
resource is in two blocks or twice in one, none is held without an owner, none is owned
without being held. `acquire` and `release` are the two ways an allocator may change the pair.
-/

namespace Nachos.Ownership

variable {α : Type*}

/-- The blocks partition the held resources. -/
structure Owned (held : α → Prop) (blocks : List (List α)) : Prop where
  nodup : blocks.flatten.Nodup
  held_iff : ∀ x, held x ↔ x ∈ blocks.flatten

variable {held held' : α → Prop} {blocks : List (List α)}

/-- With nothing held, nothing is owned. -/
theorem Owned.nil (h : ∀ x, ¬ held x) : Owned held [] where
  nodup := List.nodup_nil
  held_iff := fun x => iff_of_false (h x) List.not_mem_nil

/-- Handing out resources that were not held. -/
theorem Owned.acquire {fresh : List α} (h : Owned held blocks) (hnodup : fresh.Nodup)
    (hfree : ∀ x ∈ fresh, ¬ held x) (hheld : ∀ x, held' x ↔ x ∈ fresh ∨ held x) :
    Owned held' (blocks ++ [fresh]) where
  nodup := by
    rw [List.flatten_append, List.nodup_append']
    refine ⟨h.nodup, by simpa using hnodup, fun x hx hx' => ?_⟩
    exact hfree x (by simpa using hx') ((h.held_iff x).mpr hx)
  held_iff := fun x => by
    rw [hheld, h.held_iff, List.flatten_append, List.mem_append, or_comm]
    simp

/-- Taking back the resources of one block. -/
theorem Owned.release {before after : List (List α)} {block : List α}
    (h : Owned held (before ++ block :: after)) (hheld : ∀ x, held' x ↔ held x ∧ x ∉ block) :
    Owned held' (before ++ after) where
  nodup := by
    have hn := h.nodup
    rw [List.flatten_append, List.flatten_cons] at hn
    rw [List.flatten_append]
    exact hn.sublist ((List.Sublist.refl _).append (List.sublist_append_right _ _))
  held_iff := fun x => by
    have hn := h.nodup
    rw [List.flatten_append, List.flatten_cons, List.nodup_append', List.nodup_append'] at hn
    obtain ⟨-, ⟨-, -, hba⟩, hrest⟩ := hn
    have hdisj : x ∈ block → x ∉ before.flatten ∧ x ∉ after.flatten := fun hx =>
      ⟨fun hb => hrest hb (List.mem_append_left _ hx), fun ha => hba hx ha⟩
    rw [hheld, h.held_iff]
    simp only [List.flatten_append, List.flatten_cons, List.mem_append]
    tauto

/-- The order of the blocks does not matter. -/
theorem Owned.perm {blocks' : List (List α)} (h : Owned held blocks) (hperm : blocks.Perm blocks') :
    Owned held blocks' where
  nodup := hperm.flatten.nodup_iff.mp h.nodup
  held_iff := fun x => (h.held_iff x).trans hperm.flatten.mem_iff

/-- No block holds a resource twice. -/
theorem Owned.nodup_of_mem {block : List α} (h : Owned held blocks) (hb : block ∈ blocks) :
    block.Nodup :=
  (List.nodup_flatten.mp h.nodup).1 block hb

/-- Two blocks share no resource. -/
theorem Owned.pairwise_disjoint (h : Owned held blocks) : blocks.Pairwise List.Disjoint :=
  (List.nodup_flatten.mp h.nodup).2

end Nachos.Ownership
