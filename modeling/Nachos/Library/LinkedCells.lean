import Mathlib.Data.List.Nodup
import Mathlib.Logic.Function.Basic

/-!
# Singly linked lists in a memory of cells

A cell holds a value and the address of the next cell. `Segment cells p nodes q` says that the
links lead from `p` through `nodes` to `q`. `Chain` is a whole list with a pointer to its first
and to its last node: it ends, no node occurs twice, and outside the nodes the memory is what the
rest of the program left there. Inserting after a node, inserting at the front and removing the
first node are the changes of memory that keep a chain.
-/

namespace Nachos.LinkedCells

open Function

variable {Addr V : Type*}

/-- A memory of cells: the value and the next address of each allocated one. -/
abbrev Cells (Addr V : Type*) := Addr → Option (V × Option Addr)

/-- The links lead from `p` through the nodes to `q`. -/
def Segment (cells : Cells Addr V) : Option Addr → List (Addr × V) → Option Addr → Prop
  | p, [], q => p = q
  | p, (a, v) :: rest, q => p = some a ∧ ∃ r, cells a = some (v, r) ∧ Segment cells r rest q

/-- The addresses of the nodes. -/
def addrs (nodes : List (Addr × V)) : List Addr := nodes.map Prod.fst

@[simp] theorem addrs_nil : addrs ([] : List (Addr × V)) = [] := rfl

@[simp] theorem addrs_cons (a : Addr) (v : V) (nodes : List (Addr × V)) :
    addrs ((a, v) :: nodes) = a :: addrs nodes := rfl

@[simp] theorem addrs_append (xs ys : List (Addr × V)) :
    addrs (xs ++ ys) = addrs xs ++ addrs ys := List.map_append

/-! ## Segments -/

variable {cells cells' : Cells Addr V} {p q r : Option Addr} {xs ys : List (Addr × V)} {a : Addr}
  {v : V}

/-- Segments are put together at the pointer where one ends and the other begins. -/
theorem segment_append :
    Segment cells p (xs ++ ys) q ↔ ∃ r, Segment cells p xs r ∧ Segment cells r ys q := by
  induction xs generalizing p with
  | nil => simp [Segment]
  | cons node xs ih =>
    simp only [List.cons_append, Segment, ih]
    constructor
    · rintro ⟨hp, next, hcell, r, hxs, hys⟩
      exact ⟨r, ⟨hp, next, hcell, hxs⟩, hys⟩
    · rintro ⟨r, ⟨hp, next, hcell, hxs⟩, hys⟩
      exact ⟨hp, next, hcell, r, hxs, hys⟩

/-- A segment depends on its own cells only. -/
theorem Segment.frame (h : Segment cells p xs q) (hsame : ∀ a ∈ addrs xs, cells' a = cells a) :
    Segment cells' p xs q := by
  induction xs generalizing p with
  | nil => exact h
  | cons node xs ih =>
    obtain ⟨hp, next, hcell, hrest⟩ := h
    refine ⟨hp, next, ?_, ih hrest fun a ha => hsame a (List.mem_cons_of_mem _ ha)⟩
    rw [hsame node.1 List.mem_cons_self, hcell]

/-- The nodes of a segment are allocated. -/
theorem Segment.allocated (h : Segment cells p xs q) : ∀ a ∈ addrs xs, cells a ≠ none := by
  induction xs generalizing p with
  | nil => exact fun a ha => absurd ha List.not_mem_nil
  | cons node xs ih =>
    obtain ⟨-, next, hcell, hrest⟩ := h
    intro a ha
    cases List.mem_cons.mp ha with
    | inl heq => simp [heq, hcell]
    | inr hmem => exact ih hrest a hmem

theorem Segment.last_cell (h : Segment cells p (xs ++ [(a, v)]) q) : cells a = some (v, q) := by
  obtain ⟨r, -, -, next, hcell, rfl⟩ := segment_append.mp h
  exact hcell

/-- The addresses with a new node after the node at `a`. -/
theorem addrs_insertAfter_perm (xs ys : List (Addr × V)) (a b : Addr) (v w : V) :
    (addrs (xs ++ (a, v) :: (b, w) :: ys)).Perm (b :: addrs (xs ++ (a, v) :: ys)) := by
  have hmove : (addrs xs ++ [a] ++ b :: addrs ys).Perm (b :: (addrs xs ++ [a] ++ addrs ys)) :=
    List.perm_middle
  simpa using hmove

/-- What comes behind a node starts at its successor. -/
theorem Segment.behind {r : Option Addr} (h : Segment cells p (xs ++ (a, v) :: ys) q)
    (hsplit : Segment cells p (xs ++ [(a, v)]) r) : Segment cells r ys q := by
  rw [← List.singleton_append, ← List.append_assoc] at h
  obtain ⟨next, hbefore, hys⟩ := segment_append.mp h
  have hcell := hbefore.last_cell.symm.trans hsplit.last_cell
  simp only [Option.some.injEq, Prod.mk.injEq, true_and] at hcell
  exact hcell ▸ hys

/-! ## Chains -/

/-- The pointers of a list to its first and its last node; `rest` is the memory without the list. -/
structure Chain (rest cells : Cells Addr V) (first last : Option Addr) (nodes : List (Addr × V)) :
    Prop where
  links : Segment cells first nodes none
  nodup : (addrs nodes).Nodup
  last : last = (addrs nodes).getLast?
  own : ∀ a ∈ addrs nodes, rest a = none
  outside : ∀ a, a ∉ addrs nodes → cells a = rest a

variable {rest : Cells Addr V} {first last : Option Addr} {nodes : List (Addr × V)}
  {a b : Addr} {v w : V}

theorem chain_nil (rest : Cells Addr V) : Chain rest rest none none [] where
  links := rfl
  nodup := List.nodup_nil
  last := rfl
  own := fun _ ha => absurd ha List.not_mem_nil
  outside := fun _ _ => rfl

theorem Chain.first_eq (h : Chain rest cells first last nodes) :
    first = (addrs nodes).head? := by
  cases nodes with
  | nil => exact h.links
  | cons node nodes => exact h.links.1

/-- Both pointers are null exactly when the list is empty. -/
theorem Chain.null_iff (h : Chain rest cells first last nodes) :
    (first = none ↔ nodes = []) ∧ (last = none ↔ nodes = []) := by
  rw [h.first_eq, h.last]
  simp [addrs]

/-- The two pointers agree on a list of one node and on no longer one. -/
theorem Chain.first_eq_last_iff (h : Chain rest cells first last ((a, v) :: nodes)) :
    first = last ↔ nodes = [] := by
  rw [h.first_eq, h.last]
  cases nodes with
  | nil => simp
  | cons node nodes =>
    have hnot : a ∉ addrs (node :: nodes) := (List.nodup_cons.mp h.nodup).1
    have hlast : (addrs ((a, v) :: node :: nodes)).getLast? = (addrs (node :: nodes)).getLast? :=
      List.getLast?_cons_cons
    simp only [hlast, reduceCtorEq, iff_false]
    intro heq
    exact hnot (List.mem_of_getLast? heq.symm)

/-- A free cell belongs neither to the list nor to the rest. -/
theorem Chain.free (h : Chain rest cells first last nodes) (hfree : cells a = none) :
    a ∉ addrs nodes ∧ rest a = none := by
  have hnot : a ∉ addrs nodes := fun ha => h.links.allocated a ha hfree
  exact ⟨hnot, (h.outside a hnot).symm.trans hfree⟩

/-! ## Changes of the memory -/

variable [DecidableEq Addr]

/-- A change of a cell outside a segment does not matter to it. -/
theorem segment_update {c : Addr} (hnot : c ∉ addrs xs) (cell : Option (V × Option Addr)) :
    Segment (update cells c cell) p xs q ↔ Segment cells p xs q := by
  have hsame : ∀ b ∈ addrs xs, update cells c cell b = cells b := by
    intro b hb
    have hne : b ≠ c := fun heq => hnot (heq ▸ hb)
    rw [update_of_ne hne]
  exact ⟨fun h => h.frame fun b hb => (hsame b hb).symm, fun h => h.frame hsame⟩

/-- The last node of a segment gets another successor. -/
theorem Segment.retarget (h : Segment cells p (xs ++ [(a, v)]) q) (hnot : a ∉ addrs xs)
    (r : Option Addr) : Segment (update cells a (some (v, r))) p (xs ++ [(a, v)]) r := by
  obtain ⟨s, hxs, hs, -⟩ := segment_append.mp h
  exact segment_append.mpr ⟨s, (segment_update hnot _).mpr hxs, hs, r, by simp, rfl⟩

/-- A new node after the last one of a segment, in the order of the source: the new cell is linked
first, then the old one is redirected. -/
theorem Segment.linkAfter {b : Addr} {w : V} {r : Option Addr}
    (hfront : Segment cells p (xs ++ [(a, v)]) q) (hback : Segment cells q ys r)
    (ha : a ∉ addrs xs ∧ a ∉ addrs ys) (hb : b ∉ addrs (xs ++ (a, v) :: ys)) :
    Segment (update (update cells b (some (w, q))) a (some (v, some b))) p
      (xs ++ (a, v) :: (b, w) :: ys) r := by
  simp only [addrs_append, addrs_cons, List.mem_append, List.mem_cons, not_or] at hb
  obtain ⟨hbxs, hba, hbys⟩ := hb
  have hb' : b ∉ addrs (xs ++ [(a, v)]) := by simp [hbxs, hba]
  have hfront' := ((segment_update hb' (some (w, q))).mpr hfront).retarget ha.1 (some b)
  have hback' : Segment (update (update cells b (some (w, q))) a
      (some (v, some b))) (some b) ((b, w) :: ys) r := by
    refine ⟨rfl, q, by rw [update_of_ne hba]; simp, ?_⟩
    exact (segment_update ha.2 _).mpr ((segment_update hbys _).mpr hback)
  have hall := segment_append.mpr ⟨some b, hfront', hback'⟩
  rwa [List.append_assoc, List.singleton_append] at hall

/-- A new node in front of the list. -/
theorem Chain.prepend (h : Chain rest cells first last nodes) (hfree : cells b = none) :
    Chain rest (update cells b (some (w, first))) (some b)
      (if nodes = [] then some b else last) ((b, w) :: nodes) := by
  obtain ⟨hnot, hrest⟩ := h.free hfree
  have hsame : ∀ a, a ≠ b → update cells b (some (w, first)) a = cells a :=
    fun a ha => update_of_ne ha _ _
  refine ⟨⟨rfl, first, by simp, (segment_update hnot _).mpr h.links⟩, ?_, ?_, ?_, ?_⟩
  · exact List.nodup_cons.mpr ⟨hnot, h.nodup⟩
  · cases nodes with
    | nil => rfl
    | cons node nodes => exact h.last.trans List.getLast?_cons_cons.symm
  · intro a ha
    cases List.mem_cons.mp ha with
    | inl heq => exact heq ▸ hrest
    | inr hmem => exact h.own a hmem
  · intro a ha
    rw [addrs_cons, List.mem_cons, not_or] at ha
    rw [hsame a ha.1, h.outside a ha.2]

/-- A new node after the node at `a`. -/
theorem Chain.insertAfter (h : Chain rest cells first last (xs ++ (a, v) :: ys))
    (hsplit : Segment cells first (xs ++ [(a, v)]) q) (hfree : cells b = none) :
    Chain rest (update (update cells b (some (w, q))) a (some (v, some b)))
      first (if ys = [] then some b else last) (xs ++ (a, v) :: (b, w) :: ys) := by
  obtain ⟨hnot, hrest⟩ := h.free hfree
  have hperm := addrs_insertAfter_perm xs ys a b v w
  have hmem : ∀ c, c ∈ addrs (xs ++ (a, v) :: (b, w) :: ys) ↔
      c = b ∨ c ∈ addrs (xs ++ (a, v) :: ys) := fun c => hperm.mem_iff.trans List.mem_cons
  have hmid : a ∉ addrs xs ∧ a ∉ addrs ys := by
    have hnodup := h.nodup
    rw [addrs_append, addrs_cons] at hnodup
    obtain ⟨-, hcons, hdisj⟩ := List.nodup_append.mp hnodup
    exact ⟨fun ha => hdisj a ha a List.mem_cons_self rfl, (List.nodup_cons.mp hcons).1⟩
  refine ⟨hsplit.linkAfter (h.links.behind hsplit) hmid hnot, ?_, ?_, ?_, ?_⟩
  · exact hperm.nodup_iff.mpr (List.nodup_cons.mpr ⟨hnot, h.nodup⟩)
  · cases ys with
    | nil => simp [addrs]
    | cons node ys => simpa [addrs] using h.last
  · intro c hc
    cases (hmem c).mp hc with
    | inl heq => exact heq ▸ hrest
    | inr hold => exact h.own c hold
  · intro c hc
    rw [hmem, not_or] at hc
    have hca : c ≠ a := by
      rintro rfl
      exact hc.2 (by simp)
    rw [update_of_ne hca, update_of_ne hc.1]
    exact h.outside c hc.2

/-- The first node is taken out and its cell freed. -/
theorem Chain.removeFirst (h : Chain rest cells first last ((a, v) :: nodes)) :
    ∃ r, cells a = some (v, r) ∧ Chain rest (update cells a none) r
      (if nodes = [] then none else last) nodes := by
  obtain ⟨-, r, hcell, hlinks⟩ := h.links
  obtain ⟨hnot, hnodup⟩ := List.nodup_cons.mp h.nodup
  refine ⟨r, hcell, (segment_update hnot _).mpr hlinks, hnodup, ?_, ?_, ?_⟩
  · cases nodes with
    | nil => rfl
    | cons node nodes => exact h.last.trans List.getLast?_cons_cons
  · exact fun b hb => h.own b (List.mem_cons_of_mem _ hb)
  · intro b hb
    by_cases hba : b = a
    · subst hba
      rw [update_self, h.own b List.mem_cons_self]
    · rw [update_of_ne hba]
      exact h.outside b (by simp [hba, hb])

end Nachos.LinkedCells
