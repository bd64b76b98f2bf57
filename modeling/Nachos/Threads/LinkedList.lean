import Mathlib.Data.List.AList
import Mathlib.Data.List.Perm.Subperm
import Nachos.Library.LinkedCells
import Nachos.Library.Refinement
import Nachos.Machine.Interrupt

/-!
# The lists of `threads/list.cc`

`List` keeps items in a chain of `ListElement`s with a pointer to the first and to the last one.
The elements live in a heap. An address that `new` returns is any one that is not in use, and
`delete` makes it available again. Following a null pointer or a pointer to no element fails, and
so does a walk that visits more elements than there are, since it never ends.

`SeqCall` says what the operations do to a sequence of items with keys. The linked structure
refines it: no call fails, and the chain from `first` holds the sequence.
-/

namespace Nachos.LinkedList

open Transition Refinement LinkedCells Function

/-- The address of a `ListElement`. -/
abbrev Addr := Nat

/-- `ListElement`; a null item is `none`. -/
structure ListElement (α : Type) where
  item : Option α
  key : Int
  next : Option Addr
  deriving Repr, DecidableEq

/-- The allocated elements. -/
abbrev Heap (α : Type) := AList fun _ : Addr => ListElement α

/-- The fields of `List`, with the heap that its elements live in. -/
structure State (α : Type) where
  heap : Heap α
  first : Option Addr
  last : Option Addr

variable {α : Type} {heap : Heap α} {a : Addr} {seq : List (Option α × Int)} {v : Option α × Int}
  {next : Option Addr}

/-- `ListElement::ListElement`. -/
def ListElement.new (itemPtr : Option α) (sortKey : Int) : ListElement α where
  item := itemPtr
  key := sortKey
  next := none

/-- `List::List`, in a heap that may hold the elements of other lists. -/
def State.new (heap : Heap α) : State α where
  heap := heap
  first := none
  last := none

/-- `List::IsEmpty`. -/
def State.isEmpty (s : State α) : Bool := s.first.isNone

/-- `ptr->next = target`. -/
def setNext (heap : Heap α) (ptr target : Option Addr) : Option (Heap α) := do
  let address ← ptr
  let element ← heap.lookup address
  pure (heap.insert address { element with next := target })

/-- `List::Append`, where `new` returns `element`. -/
def append (s : State α) (item : Option α) (element : Addr) : Option (State α) :=
  let heap := s.heap.insert element (.new item 0)
  if s.isEmpty then some ⟨heap, some element, some element⟩
  else do
    let heap ← setNext heap s.last (some element)
    pure ⟨heap, s.first, some element⟩

/-- `List::Prepend`, where `new` returns `element`. -/
def prepend (s : State α) (item : Option α) (element : Addr) : Option (State α) :=
  let heap := s.heap.insert element (.new item 0)
  if s.isEmpty then some ⟨heap, some element, some element⟩
  else do
    let heap ← setNext heap (some element) s.first
    pure ⟨heap, some element, s.last⟩

/-- The loop of `List::SortedInsert`: the heap after the insertion, or `none` once `ptr` is the
last element. Each round visits another element, so `fuel` is their number. -/
def sortedLoop (sortKey : Int) (element : Addr) (heap : Heap α) :
    Nat → Addr → Option (Option (Heap α))
  | 0, _ => none
  | fuel + 1, ptr => do
    let current ← heap.lookup ptr
    match current.next with
    | none => pure none
    | some next =>
      let following ← heap.lookup next
      if sortKey < following.key then
        let heap₁ ← setNext heap (some element) (some next)
        let heap₂ ← setNext heap₁ (some ptr) (some element)
        pure (some heap₂)
      else sortedLoop sortKey element heap fuel next

/-- `List::SortedInsert`, where `new` returns `element`. -/
def sortedInsert (s : State α) (item : Option α) (sortKey : Int) (element : Addr) :
    Option (State α) :=
  let heap := s.heap.insert element (.new item sortKey)
  match s.first with
  | none => some ⟨heap, some element, some element⟩
  | some first => do
    let head ← heap.lookup first
    if sortKey < head.key then
      let heap ← setNext heap (some element) (some first)
      pure ⟨heap, some element, s.last⟩
    else
      let inserted ← sortedLoop sortKey element heap heap.keys.length first
      match inserted with
      | some heap => pure ⟨heap, some first, s.last⟩
      | none =>
        let heap ← setNext heap s.last (some element)
        pure ⟨heap, some first, some element⟩

/-- `List::SortedRemove`: the item, and the key if there is a place to store it. -/
def sortedRemove (s : State α) (keyPtr : Bool) :
    Option ((Option α × Option Int) × State α) :=
  match s.first with
  | none => some ((none, none), s)
  | some element => do
    let first ← s.heap.lookup element
    let thing := first.item
    let key := if keyPtr then some first.key else none
    let heap := s.heap.erase element
    if s.first = s.last then pure ((thing, key), ⟨heap, none, none⟩)
    else pure ((thing, key), ⟨heap, first.next, s.last⟩)

/-- `List::Remove`. -/
def remove (s : State α) : Option ((Option α × Option Int) × State α) := sortedRemove s false

/-- A call, with the address that its `new` returns. -/
inductive Request (α : Type) where
  | append (item : Option α) (element : Addr)
  | prepend (item : Option α) (element : Addr)
  | remove
  | sortedInsert (item : Option α) (sortKey : Int) (element : Addr)
  | sortedRemove (keyPtr : Bool)
  deriving Repr, DecidableEq

/-- What a call returns; the key is what it stores through `keyPtr`. -/
inductive Answer (α : Type) where
  | void
  | item (thing : Option α) (key : Option Int)
  deriving Repr, DecidableEq

/-- One call. -/
def call : Step (State α) (Request α) (Answer α)
  | s, .append item element => (append s item element).map fun t => ([.void], t)
  | s, .prepend item element => (prepend s item element).map fun t => ([.void], t)
  | s, .remove => (remove s).map fun r => ([.item r.1.1 r.1.2], r.2)
  | s, .sortedInsert item sortKey element =>
    (sortedInsert s item sortKey element).map fun t => ([.void], t)
  | s, .sortedRemove keyPtr => (sortedRemove s keyPtr).map fun r => ([.item r.1.1 r.1.2], r.2)

/-- `new` returns an address that is not in use. -/
def Fresh (s : State α) : Request α → Prop
  | .append _ element | .prepend _ element | .sortedInsert _ _ element => element ∉ s.heap
  | .remove | .sortedRemove _ => True

instance Fresh.decidable (s : State α) : ∀ request, Decidable (Fresh s request)
  | .append _ element | .prepend _ element | .sortedInsert _ _ element =>
    inferInstanceAs (Decidable (element ∉ s.heap))
  | .remove | .sortedRemove _ => .isTrue True.intro

/-! ## The sequence -/

/-- The new pair goes before the first pair with a greater key. -/
def insertSorted (x : Option α × Int) (seq : List (Option α × Int)) : List (Option α × Int) :=
  seq.takeWhile (fun y => decide (y.2 ≤ x.2)) ++ x :: seq.dropWhile (fun y => decide (y.2 ≤ x.2))

/-- The calls on a sequence of items with their keys. -/
inductive SeqCall : List (Option α × Int) → Request α → List (Answer α) →
    List (Option α × Int) → Prop where
  | append (seq item element) : SeqCall seq (.append item element) [.void] (seq ++ [(item, 0)])
  | prepend (seq item element) : SeqCall seq (.prepend item element) [.void] ((item, 0) :: seq)
  | sortedInsert (seq item sortKey element) :
      SeqCall seq (.sortedInsert item sortKey element) [.void] (insertSorted (item, sortKey) seq)
  | removeEmpty : SeqCall [] .remove [.item none none] []
  | remove (item key seq) : SeqCall ((item, key) :: seq) .remove [.item item none] seq
  | sortedRemoveEmpty (keyPtr) : SeqCall [] (.sortedRemove keyPtr) [.item none none] []
  | sortedRemove (item key seq keyPtr) :
      SeqCall ((item, key) :: seq) (.sortedRemove keyPtr)
        [.item item (if keyPtr then some key else none)] seq

/-- In increasing order of keys. -/
def Sorted (seq : List (Option α × Int)) : Prop := seq.Pairwise fun x y => x.2 ≤ y.2

theorem insertSorted_eq_orderedInsert (x : Option α × Int) (seq : List (Option α × Int)) :
    insertSorted x seq = seq.orderedInsert (fun a b => a.2 < b.2) x := by
  rw [List.orderedInsert_eq_take_drop, insertSorted]
  simp only [not_lt]

/-- Nothing is lost and nothing duplicated. -/
theorem insertSorted_perm (x : Option α × Int) (seq : List (Option α × Int)) :
    (insertSorted x seq).Perm (x :: seq) := by
  rw [insertSorted_eq_orderedInsert]
  exact List.perm_orderedInsert _ x seq

/-- In a sorted sequence the pairs before the new one are those with a key not above it. -/
theorem Sorted.insertSorted_eq (h : Sorted seq) (x : Option α × Int) :
    insertSorted x seq = seq.filter (fun y => decide (y.2 ≤ x.2)) ++
      x :: seq.filter (fun y => decide (x.2 < y.2)) := by
  induction seq with
  | nil => rfl
  | cons y seq ih =>
    obtain ⟨hy, hseq⟩ := List.pairwise_cons.mp h
    by_cases hle : y.2 ≤ x.2
    · have hstep : insertSorted x (y :: seq) = y :: insertSorted x seq := by
        simp [insertSorted, hle]
      rw [hstep, ih hseq]
      simp [hle]
    · -- All later keys are above the new one as well.
      have hgt : ∀ z ∈ y :: seq, x.2 < z.2 := by
        intro z hz
        cases List.mem_cons.mp hz with
        | inl heq => rw [heq]; omega
        | inr hmem => have := hy z hmem; omega
      have hnone : (y :: seq).filter (fun z => decide (z.2 ≤ x.2)) = [] := by
        refine List.filter_eq_nil_iff.mpr fun z hz => ?_
        have := hgt z hz
        simpa using this
      have hall : (y :: seq).filter (fun z => decide (x.2 < z.2)) = y :: seq :=
        List.filter_eq_self.mpr fun z hz => by simpa using hgt z hz
      rw [hnone, hall]
      simp [insertSorted, hle]

/-- A sorted sequence stays sorted. -/
theorem Sorted.insertSorted (h : Sorted seq) (x : Option α × Int) :
    Sorted (insertSorted x seq) := by
  rw [h.insertSorted_eq, Sorted, List.pairwise_append, List.pairwise_cons]
  refine ⟨h.filter _, ⟨?_, h.filter _⟩, ?_⟩
  · intro y hy
    have hlt := (List.mem_filter.mp hy).2
    simp only [decide_eq_true_eq] at hlt
    omega
  · intro y hy z hz
    have hle := (List.mem_filter.mp hy).2
    simp only [decide_eq_true_eq] at hle
    cases List.mem_cons.mp hz with
    | inl heq => rw [heq]; exact hle
    | inr hmem =>
      have hlt := (List.mem_filter.mp hmem).2
      simp only [decide_eq_true_eq] at hlt
      omega

/-! ## The heap as a memory of cells -/

/-- The elements as cells that hold an item and its key. -/
def cells (heap : Heap α) : Cells Addr (Option α × Int) :=
  fun a => (heap.lookup a).map fun element => ((element.item, element.key), element.next)

theorem cells_insert (heap : Heap α) (a : Addr) (element : ListElement α) :
    cells (heap.insert a element) =
      update (cells heap) a (some ((element.item, element.key), element.next)) := by
  funext b
  by_cases hb : b = a
  · subst hb
    simp [cells]
  · rw [update_of_ne hb, cells, cells, AList.lookup_insert_ne hb]

/-- The heap after `new ListElement(item, key)`. -/
theorem cells_new (heap : Heap α) (a : Addr) (item : Option α) (key : Int) :
    cells (heap.insert a (.new item key)) =
      update (cells heap) a (some ((item, key), none)) :=
  cells_insert heap a _

theorem cells_erase (heap : Heap α) (a : Addr) :
    cells (heap.erase a) = update (cells heap) a none := by
  funext b
  by_cases hb : b = a
  · subst hb
    simp [cells]
  · rw [update_of_ne hb, cells, cells, AList.lookup_erase_ne hb]

theorem cells_eq_none : cells heap a = none ↔ a ∉ heap := by
  rw [cells, Option.map_eq_none_iff, AList.lookup_eq_none]

theorem lookup_of_cells (h : cells heap a = some (v, next)) :
    heap.lookup a = some ⟨v.1, v.2, next⟩ := by
  obtain ⟨element, hlookup, heq⟩ := Option.map_eq_some_iff.mp h
  cases heq
  exact hlookup

/-- Redirecting an allocated element. -/
theorem setNext_of_cells (h : cells heap a = some (v, next)) (target : Option Addr) :
    ∃ heap', setNext heap (some a) target = some heap' ∧
      cells heap' = update (cells heap) a (some (v, target)) := by
  refine ⟨heap.insert a ⟨v.1, v.2, target⟩, ?_, cells_insert heap a _⟩
  simp [setNext, lookup_of_cells h]

section

variable {rest : Cells Addr (Option α × Int)} {heap : Heap α} {first last : Option Addr}
  {nodes : List (Addr × (Option α × Int))} {element : Addr} {a : Addr} {v w : Option α × Int}
  {key : Int} {s : State α} {d : Addr} {x : Option α × Int} {after : Option Addr}

/-- The chain has no more nodes than there are elements. -/
theorem length_le_keys (h : Chain rest (cells heap) first last nodes) :
    nodes.length ≤ heap.keys.length := by
  have hsub : addrs nodes ⊆ heap.keys := by
    intro a ha
    have hcell := h.links.allocated a ha
    rwa [Ne, cells_eq_none, not_not] at hcell
  simpa [addrs] using (List.subperm_of_subset h.nodup hsub).length_le

/-- So there is fuel for every node once the new element is there. -/
theorem length_lt_keys_insert (h : Chain rest (cells heap) first last nodes)
    (hfresh : element ∉ heap) (item : ListElement α) :
    nodes.length < (heap.insert element item).keys.length := by
  have hlen := length_le_keys h
  have hkeys : element ∉ heap.keys := hfresh
  rw [AList.keys_insert, List.erase_of_not_mem hkeys, List.length_cons]
  omega

/-- The chain is there after `new`, too. -/
theorem links_new (h : Chain rest (cells heap) first last nodes) (hfresh : element ∉ heap)
    (item : Option α) (key : Int) :
    Segment (cells (heap.insert element (.new item key))) first nodes none := by
  rw [cells_new, segment_update (h.free (cells_eq_none.mpr hfresh)).1]
  exact h.links

/-- The element that `new` returns. -/
theorem cells_new_self (heap : Heap α) (element : Addr) (item : Option α) (key : Int) :
    cells (heap.insert element (.new item key)) element = some ((item, key), none) := by
  rw [cells_new, update_self]

/-- The new element becomes the only one. -/
theorem link_only (item : Option α) (key : Int) (h : Chain rest (cells heap) first last [])
    (hfresh : element ∉ heap) :
    Chain rest (cells (heap.insert element (.new item key))) (some element) (some element)
      [(element, (item, key))] := by
  have hchain := h.prepend (w := (item, key)) (cells_eq_none.mpr hfresh)
  rw [h.null_iff.1.mpr rfl] at hchain
  rw [cells_new]
  exact hchain

/-- The new element is put in front of the others. -/
theorem link_first (item : Option α) (key : Int) (h : Chain rest (cells heap) first last nodes)
    (hne : nodes ≠ []) (hfresh : element ∉ heap) :
    ∃ heap', setNext (heap.insert element (.new item key)) (some element) first = some heap' ∧
      Chain rest (cells heap') (some element) last ((element, (item, key)) :: nodes) := by
  obtain ⟨heap', hset, hcells⟩ := setNext_of_cells (cells_new_self heap element item key) first
  refine ⟨heap', hset, ?_⟩
  rw [hcells, cells_new, update_idem]
  have hchain := h.prepend (w := (item, key)) (cells_eq_none.mpr hfresh)
  rwa [if_neg hne] at hchain

/-- The new element is put behind the last one. -/
theorem link_last (item : Option α) (key : Int) (h : Chain rest (cells heap) first last nodes)
    (hne : nodes ≠ []) (hfresh : element ∉ heap) :
    ∃ heap', setNext (heap.insert element (.new item key)) last (some element) = some heap' ∧
      Chain rest (cells heap') first (some element) (nodes ++ [(element, (item, key))]) := by
  obtain ⟨before, ⟨a, v⟩, rfl⟩ := (List.eq_nil_or_concat nodes).resolve_left hne
  rw [List.concat_eq_append] at h ⊢
  have hlast : last = some a := by simpa [addrs] using h.last
  have hold : cells heap a = some (v, none) := h.links.last_cell
  have hcell : cells (heap.insert element (.new item key)) a = some (v, none) := by
    have hne : a ≠ element := by
      rintro rfl
      rw [cells_eq_none.mpr hfresh] at hold
      cases hold
    rw [cells_new, update_of_ne hne, hold]
  obtain ⟨heap', hset, hcells⟩ := setNext_of_cells hcell (some element)
  refine ⟨heap', hlast ▸ hset, ?_⟩
  rw [hcells, cells_new]
  have hchain := h.insertAfter (w := (item, key)) h.links (cells_eq_none.mpr hfresh)
  simpa using hchain

/-- The new element is linked in front of the successor of `a`, and `a` redirected to it. -/
theorem link_between {next : Option Addr} (hnew : cells heap element = some (w, none))
    (hcell : cells heap a = some (v, next)) (hne : a ≠ element) :
    ∃ heap₁ heap₂, setNext heap (some element) next = some heap₁ ∧
      setNext heap₁ (some a) (some element) = some heap₂ ∧
      cells heap₂ = update (update (cells heap) element (some (w, next))) a
        (some (v, some element)) := by
  obtain ⟨heap₁, hset₁, hcells₁⟩ := setNext_of_cells hnew next
  have hcell₁ : cells heap₁ a = some (v, next) := by
    rw [hcells₁, update_of_ne hne, hcell]
  obtain ⟨heap₂, hset₂, hcells₂⟩ := setNext_of_cells hcell₁ (some element)
  exact ⟨heap₁, heap₂, hset₁, hset₂, by rw [hcells₂, hcells₁]⟩

/-- A round of the loop that stops in front of a greater key. -/
theorem sortedLoop_stop (hnew : cells heap element = some (w, none))
    (hcell : cells heap a = some (v, some d)) (hcell' : cells heap d = some (x, after))
    (hne : a ≠ element) (hlt : key < x.2) (fuel : Nat) :
    ∃ heap', sortedLoop key element heap (fuel + 1) a = some (some heap') ∧
      cells heap' = update (update (cells heap) element (some (w, some d))) a
        (some (v, some element)) := by
  obtain ⟨heap₁, heap₂, hset₁, hset₂, hcells⟩ := link_between hnew hcell hne
  refine ⟨heap₂, ?_, hcells⟩
  simp [sortedLoop, lookup_of_cells hcell, lookup_of_cells hcell', hlt, hset₁, hset₂]

/-- A round of the loop that goes on. -/
theorem sortedLoop_next (hcell : cells heap a = some (v, some d))
    (hcell' : cells heap d = some (x, after)) (hle : x.2 ≤ key) (fuel : Nat) :
    sortedLoop key element heap (fuel + 1) a = sortedLoop key element heap fuel d := by
  simp [sortedLoop, lookup_of_cells hcell, lookup_of_cells hcell', not_lt.mpr hle]

/-- The walk of `SortedInsert` from a node: it stops at the end when no later key is greater, and
otherwise links the new element in front of the first greater one. -/
theorem sortedLoop_spec (key : Int) {ys : List (Addr × (Option α × Int))} {fuel : Nat}
    (hseg : Segment (cells heap) (some a) ((a, v) :: ys) none)
    (hnew : cells heap element = some (w, none)) (hnot : element ∉ addrs ((a, v) :: ys))
    (hfuel : ys.length < fuel) :
    (ys.dropWhile (fun node => decide (node.2.2 ≤ key)) = [] ∧
      sortedLoop key element heap fuel a = some none) ∨
    ∃ before c u q heap',
      (a, v) :: ys.takeWhile (fun node => decide (node.2.2 ≤ key)) = before ++ [(c, u)] ∧
      Segment (cells heap) (some a) (before ++ [(c, u)]) q ∧
      ys.dropWhile (fun node => decide (node.2.2 ≤ key)) ≠ [] ∧
      sortedLoop key element heap fuel a = some (some heap') ∧
      cells heap' = update (update (cells heap) element (some (w, q))) c
        (some (u, some element)) := by
  induction ys generalizing a v fuel with
  | nil =>
    obtain ⟨-, next, hcell, rfl⟩ := hseg
    cases fuel with
    | zero => exact absurd hfuel (Nat.not_lt_zero _)
    | succ fuel => exact .inl ⟨rfl, by simp [sortedLoop, lookup_of_cells hcell]⟩
  | cons node ys ih =>
    obtain ⟨d, x⟩ := node
    obtain ⟨-, next, hcell, hrest⟩ := hseg
    obtain ⟨rfl, after, hcell', htail⟩ := hrest
    cases fuel with
    | zero => exact absurd hfuel (Nat.not_lt_zero _)
    | succ fuel =>
      have hane : a ≠ element := fun heq => hnot (heq ▸ List.mem_cons_self)
      by_cases hlt : key < x.2
      · -- The new element goes between `a` and `d`.
        obtain ⟨heap', hloop, hcells⟩ := sortedLoop_stop hnew hcell hcell' hane hlt fuel
        refine .inr ⟨[], a, v, some d, heap', ?_, ⟨rfl, some d, hcell, rfl⟩, ?_, hloop, hcells⟩
        · simp [hlt]
        · simp [hlt]
      · have hle : x.2 ≤ key := by omega
        have hnot' : element ∉ addrs ((d, x) :: ys) :=
          fun hmem => hnot (List.mem_cons_of_mem _ hmem)
        have hfuel' : ys.length < fuel := by simpa using hfuel
        rw [sortedLoop_next hcell hcell' hle]
        have hwalk := ih ⟨rfl, after, hcell', htail⟩ hnot' hfuel'
        rcases hwalk with ⟨hdrop, hloop⟩ | ⟨before, c, u, q, heap', htake, hsplit, hdrop, hloop⟩
        · exact .inl ⟨by simpa [hle] using hdrop, hloop⟩
        · refine .inr ⟨(a, v) :: before, c, u, q, heap', ?_, ?_, ?_, hloop⟩
          · simpa [hle] using htake
          · exact ⟨rfl, some d, hcell, hsplit⟩
          · simpa [hle] using hdrop

/-- `SortedInsert` once the new key is not below that of the first element. -/
theorem sortedInsert_behind {item : Option α}
    (h : Chain rest (cells s.heap) s.first s.last ((a, v) :: nodes)) (hfresh : element ∉ s.heap)
    (hle : v.2 ≤ key) :
    ∃ t, sortedInsert s item key element = some t ∧
      Chain rest (cells t.heap) t.first t.last
        ((a, v) :: nodes.takeWhile (fun node => decide (node.2.2 ≤ key)) ++
          (element, (item, key)) :: nodes.dropWhile (fun node => decide (node.2.2 ≤ key))) := by
  have hfree := cells_eq_none.mpr hfresh
  have hnot := (h.free hfree).1
  have hfirst : s.first = some a := h.first_eq
  have hlinks := links_new h hfresh item key
  rw [hfirst] at hlinks
  obtain ⟨next, hcell, -⟩ := hlinks.2
  have hhead := lookup_of_cells hcell
  have hge : ¬ key < v.2 := by omega
  have hnew := cells_new_self s.heap element item key
  have hfuel : nodes.length < (s.heap.insert element (.new item key)).keys.length :=
    Nat.lt_of_succ_lt (length_lt_keys_insert h hfresh _)
  rcases sortedLoop_spec key hlinks hnew hnot hfuel with
    ⟨hdrop, hloop⟩ | ⟨before, c, u, q, heap', htake, hsplit, hdrop, hloop, hcells⟩
  · -- The walk reached the last element.
    obtain ⟨heap', hset, hchain⟩ := link_last item key h (by simp) hfresh
    have hall : nodes.takeWhile (fun node => decide (node.2.2 ≤ key)) = nodes := by
      simpa [hdrop] using nodes.takeWhile_append_dropWhile
        (p := fun node => decide (node.2.2 ≤ key))
    refine ⟨⟨heap', s.first, some element⟩, ?_, ?_⟩
    · simp only [sortedInsert, hfirst, bind, Option.bind, hhead, if_neg hge, hloop, hset, pure]
    · rwa [hdrop, hall]
  · refine ⟨⟨heap', s.first, s.last⟩, ?_, ?_⟩
    · simp only [sortedInsert, hfirst, bind, Option.bind, hhead, if_neg hge, hloop, pure]
    · have hwhole : (a, v) :: nodes = before ++ (c, u) ::
          nodes.dropWhile (fun node => decide (node.2.2 ≤ key)) := by
        have := congrArg (· ++ nodes.dropWhile (fun node => decide (node.2.2 ≤ key))) htake
        simpa using this
      have hbefore : element ∉ addrs (before ++ [(c, u)]) := by
        intro hmem
        rw [hwhole] at hnot
        simp only [addrs_append, addrs_cons, addrs_nil, List.mem_append, List.mem_cons,
          List.not_mem_nil, or_false, not_or] at hmem hnot
        exact hmem.elim hnot.1 hnot.2.1
      rw [cells_new, segment_update hbefore, ← hfirst] at hsplit
      rw [hwhole] at h
      have hchain := h.insertAfter (w := (item, key)) hsplit hfree
      rw [if_neg hdrop] at hchain
      rw [hcells, cells_new, update_idem, htake, List.append_assoc]
      exact hchain

/-- `SortedInsert` puts the new element in front of the first one with a greater key. -/
theorem sortedInsert_spec (item : Option α) (key : Int)
    (h : Chain rest (cells s.heap) s.first s.last nodes) (hfresh : element ∉ s.heap) :
    ∃ t, sortedInsert s item key element = some t ∧
      Chain rest (cells t.heap) t.first t.last
        (nodes.takeWhile (fun node => decide (node.2.2 ≤ key)) ++ (element, (item, key)) ::
          nodes.dropWhile (fun node => decide (node.2.2 ≤ key))) := by
  cases nodes with
  | nil =>
    have hfirst := h.null_iff.1.mpr rfl
    exact ⟨⟨s.heap.insert element (.new item key), some element, some element⟩,
      by rw [sortedInsert, hfirst], link_only item key h hfresh⟩
  | cons node nodes =>
    obtain ⟨a, v⟩ := node
    by_cases hlt : key < v.2
    · have hfirst : s.first = some a := h.first_eq
      obtain ⟨-, next, hcell, -⟩ := links_new h hfresh item key
      have hhead := lookup_of_cells hcell
      obtain ⟨heap', hset, hchain⟩ := link_first item key h (by simp) hfresh
      rw [hfirst] at hset
      refine ⟨⟨heap', some element, s.last⟩, ?_, by simpa [hlt] using hchain⟩
      simp only [sortedInsert, hfirst, bind, Option.bind, hhead, if_pos hlt, hset, pure]
    · have hle : v.2 ≤ key := by omega
      simpa [hle] using sortedInsert_behind h hfresh hle

theorem append_spec (item : Option α) (h : Chain rest (cells s.heap) s.first s.last nodes)
    (hfresh : element ∉ s.heap) :
    ∃ t, append s item element = some t ∧
      Chain rest (cells t.heap) t.first t.last (nodes ++ [(element, (item, 0))]) := by
  by_cases hnil : nodes = []
  · subst hnil
    have hfirst := h.null_iff.1.mpr rfl
    refine ⟨⟨s.heap.insert element (.new item 0), some element, some element⟩, ?_,
      link_only item 0 h hfresh⟩
    simp [append, State.isEmpty, hfirst]
  · have hfirst : s.first ≠ none := fun heq => hnil (h.null_iff.1.mp heq)
    obtain ⟨heap', hset, hchain⟩ := link_last item 0 h hnil hfresh
    refine ⟨⟨heap', s.first, some element⟩, ?_, hchain⟩
    simp [append, State.isEmpty, hfirst, hset]

theorem prepend_spec (item : Option α) (h : Chain rest (cells s.heap) s.first s.last nodes)
    (hfresh : element ∉ s.heap) :
    ∃ t, prepend s item element = some t ∧
      Chain rest (cells t.heap) t.first t.last ((element, (item, 0)) :: nodes) := by
  by_cases hnil : nodes = []
  · subst hnil
    have hfirst := h.null_iff.1.mpr rfl
    refine ⟨⟨s.heap.insert element (.new item 0), some element, some element⟩, ?_,
      link_only item 0 h hfresh⟩
    simp [prepend, State.isEmpty, hfirst]
  · have hfirst : s.first ≠ none := fun heq => hnil (h.null_iff.1.mp heq)
    obtain ⟨heap', hset, hchain⟩ := link_first item 0 h hnil hfresh
    refine ⟨⟨heap', some element, s.last⟩, ?_, hchain⟩
    simp [prepend, State.isEmpty, hfirst, hset]

theorem sortedRemove_nil (h : Chain rest (cells s.heap) s.first s.last []) (keyPtr : Bool) :
    sortedRemove s keyPtr = some ((none, none), s) := by
  rw [sortedRemove, h.null_iff.1.mpr rfl]

theorem sortedRemove_cons (h : Chain rest (cells s.heap) s.first s.last ((a, v) :: nodes))
    (keyPtr : Bool) :
    ∃ t, sortedRemove s keyPtr = some ((v.1, if keyPtr then some v.2 else none), t) ∧
      Chain rest (cells t.heap) t.first t.last nodes := by
  have hfirst : s.first = some a := h.first_eq
  have hsingle := h.first_eq_last_iff
  obtain ⟨next, hcell, hchain⟩ := h.removeFirst
  rw [← cells_erase] at hchain
  by_cases hnil : nodes = []
  · subst hnil
    refine ⟨⟨s.heap.erase a, none, none⟩, ?_, ?_⟩
    · have hlast : s.last = some a := (hsingle.mpr rfl).symm.trans hfirst
      simp [sortedRemove, hfirst, lookup_of_cells hcell, hlast]
    · rwa [hchain.null_iff.1.mpr rfl, if_pos rfl] at hchain
  · refine ⟨⟨s.heap.erase a, next, s.last⟩, ?_, by rwa [if_neg hnil] at hchain⟩
    have hne : ¬ some a = s.last := fun heq => hnil (hsingle.mp (hfirst.trans heq))
    simp [sortedRemove, hfirst, lookup_of_cells hcell, hne]

end

/-! ## Runs -/

/-- The chain from `first` holds the sequence, in a memory that is otherwise `rest`. -/
def Represents (rest : Cells Addr (Option α × Int)) (s : State α)
    (seq : List (Option α × Int)) : Prop :=
  ∃ nodes, Chain rest (cells s.heap) s.first s.last nodes ∧ nodes.map Prod.snd = seq

/-- The linked structure refines the sequence. -/
theorem call_refines (rest : Cells Addr (Option α × Int)) :
    Refines call Fresh SeqCall (Represents rest) := by
  refine ⟨fun s seq request hrep hfresh => ?_⟩
  obtain ⟨nodes, hchain, rfl⟩ := hrep
  cases request with
  | append item element =>
    obtain ⟨t, heq, hchain'⟩ := append_spec item hchain hfresh
    refine ⟨[.void], t, _, by rw [call, heq]; rfl, .append _ item element, _, hchain', ?_⟩
    simp
  | prepend item element =>
    obtain ⟨t, heq, hchain'⟩ := prepend_spec item hchain hfresh
    exact ⟨[.void], t, _, by rw [call, heq]; rfl, .prepend _ item element, _, hchain', rfl⟩
  | sortedInsert item sortKey element =>
    obtain ⟨t, heq, hchain'⟩ := sortedInsert_spec item sortKey hchain hfresh
    refine ⟨[.void], t, _, by rw [call, heq]; rfl, .sortedInsert _ item sortKey element, _,
      hchain', ?_⟩
    simp [insertSorted, List.takeWhile_map, List.dropWhile_map, comp_def]
  | remove =>
    cases nodes with
    | nil =>
      exact ⟨_, s, [], by rw [call, remove, sortedRemove_nil hchain]; rfl, .removeEmpty, [],
        hchain, rfl⟩
    | cons node nodes =>
      obtain ⟨t, heq, hchain'⟩ := sortedRemove_cons hchain false
      exact ⟨_, t, _, by rw [call, remove, heq]; rfl, .remove _ _ _, nodes, hchain', rfl⟩
  | sortedRemove keyPtr =>
    cases nodes with
    | nil =>
      exact ⟨_, s, [], by rw [call, sortedRemove_nil hchain]; rfl, .sortedRemoveEmpty keyPtr,
        [], hchain, rfl⟩
    | cons node nodes =>
      obtain ⟨t, heq, hchain'⟩ := sortedRemove_cons hchain keyPtr
      exact ⟨_, t, _, by rw [call, heq]; rfl, .sortedRemove _ _ _ keyPtr, nodes, hchain', rfl⟩

/-- Every sequence of calls on a new list runs as on a sequence of pairs. The chain from `first`
ends, meets no element twice and ends in `last`; nothing else in the heap changes. `SortedInsert`
adds its pair and no other, and on a sorted list it keeps the order and puts the pair behind all
pairs with the same key. -/
theorem list_refines_sequence (heap : Heap α) (requests : List (Request α))
    (hfresh : Allowed call Fresh (.new heap) requests) :
    ∃ (answers : List (Answer α)) (s : State α) (seq : List (Option α × Int)),
      execute call (.new heap) requests = some (answers, s) ∧
      Conforms SeqCall [] requests answers seq ∧
      Represents (cells heap) s seq ∧
      (s.first = none ↔ seq = []) ∧ (s.last = none ↔ seq = []) ∧
      ∀ x, (insertSorted x seq).Perm (x :: seq) ∧
        (Sorted seq → Sorted (insertSorted x seq) ∧
          insertSorted x seq = seq.filter (fun y => decide (y.2 ≤ x.2)) ++
            x :: seq.filter (fun y => decide (x.2 < y.2))) := by
  have hstart : Represents (cells heap) (.new heap) [] := ⟨[], chain_nil _, rfl⟩
  obtain ⟨answers, s, seq, hexec, hconf, hrep⟩ := (call_refines (cells heap)).execute hstart hfresh
  refine ⟨answers, s, seq, hexec, hconf, hrep, ?_, ?_, fun x => ⟨insertSorted_perm x seq, ?_⟩⟩
  · obtain ⟨nodes, hchain, rfl⟩ := hrep
    rw [hchain.null_iff.1, List.map_eq_nil_iff]
  · obtain ⟨nodes, hchain, rfl⟩ := hrep
    rw [hchain.null_iff.2, List.map_eq_nil_iff]
  · intro hsorted
    exact ⟨hsorted.insertSorted x, hsorted.insertSorted_eq x⟩

/-- Calls of all five kinds; the address of a deleted element is used again. -/
theorem list_refines_sequence_reused_address :
    ∃ (answers : List (Answer Nat)) (s : State Nat) (seq : List (Option Nat × Int)),
      execute call (.new ∅)
        [.append (some 7) 100, .sortedInsert (some 8) 5 101, .sortedInsert (some 9) 0 102, .remove,
          .prepend (some 6) 100, .sortedRemove true] = some (answers, s) ∧
      Conforms SeqCall []
        [.append (some 7) 100, .sortedInsert (some 8) 5 101, .sortedInsert (some 9) 0 102, .remove,
          .prepend (some 6) 100, .sortedRemove true] answers seq ∧
      Represents (cells ∅) s seq ∧
      (s.first = none ↔ seq = []) ∧ (s.last = none ↔ seq = []) ∧
      ∀ x, (insertSorted x seq).Perm (x :: seq) ∧
        (Sorted seq → Sorted (insertSorted x seq) ∧
          insertSorted x seq = seq.filter (fun y => decide (y.2 ≤ x.2)) ++
            x :: seq.filter (fun y => decide (x.2 < y.2))) :=
  list_refines_sequence ∅ _ (by decide +kernel)

/-! ## The queue of pending interrupts -/

/-- `Interrupt::Schedule` keeps its queue in such a list, by the time at which each interrupt is
due: the insertion of the interrupt simulator is the one on the sequence. -/
theorem map_interrupt_sortedInsert {H : Type} (p : Interrupt.PendingInterrupt H)
    (pending : List (Interrupt.PendingInterrupt H)) :
    (Interrupt.sortedInsert p pending).map (fun q => (some q, q.when)) =
      insertSorted (some p, p.when) (pending.map fun q => (some q, q.when)) := by
  rw [insertSorted_eq_orderedInsert, Interrupt.sortedInsert]
  exact List.map_orderedInsert _ _ _ pending p (fun _ _ => Iff.rfl) fun _ _ => Iff.rfl

end Nachos.LinkedList
