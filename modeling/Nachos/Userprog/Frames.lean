import Nachos.Library.Ownership
import Nachos.Library.Transition
import Nachos.Userprog.AddrSpace

/-!
# Who owns which frame

The frame manager as a transition system: address spaces are constructed from arbitrary headers
and destroyed in any order, and live ones translate addresses in between. `ownership` is the
partition of the marked bits among the live page tables, on every run. Whether the frames exist
is a different matter: the bitmap has 256 bits and the memory `NumPhysPages` frames.
-/

namespace Nachos.Frames

open Transition Ownership AddrSpace

/-- `gPhysPageBitMap` and the address spaces that have been constructed and not destroyed. -/
structure State where
  gPhysPageBitMap : BitMap
  live : List AddrSpace

/-- The operations on address spaces. `construct` is the section of the constructor under
`addrLock`, taken as one step; `access` is one `Machine::Translate` by a live process. -/
inductive Act where
  | construct (h : NoffHeader)
  | destroy (i : Nat)
  | access (i : Nat) (virtAddr : BitVec 32) (size : Nat) (writing : Bool)

/-- The page table after a translation: an exception leaves it alone. -/
def afterAccess (sp : AddrSpace) (virtAddr : BitVec 32) (size : Nat) (writing : Bool) :
    Option AddrSpace :=
  match translate (linear sp.pageTable) virtAddr size writing with
  | .abort => none
  | .fault _ => some sp
  | .ok _ tables => tables.pageTable.map mk

/-- One operation. It is refused when the address space is not live or an `ASSERT` fails. -/
def step (s : State) : Act → Option (List Unit × State)
  | .construct h =>
    let result := allocate h s.gPhysPageBitMap
    some ([], ⟨result.2, s.live ++ [result.1]⟩)
  | .destroy i => do
    let sp ← s.live[i]?
    let bm ← sp.destroy s.gPhysPageBitMap
    pure ([], ⟨bm, s.live.eraseIdx i⟩)
  | .access i virtAddr size writing => do
    let sp ← s.live[i]?
    let sp' ← afterAccess sp virtAddr size writing
    pure ([], ⟨s.gPhysPageBitMap, s.live.set i sp'⟩)

/-- `Initialize` in `threads/system.cc`: `gPhysPageBitMap = new BitMap(256)`. -/
def initial (raw : Nat → BitVec 32) : State := ⟨BitMap.new 256 raw, []⟩

/-- The bit of a frame is marked. -/
def held (bm : BitMap) (f : Int) : Prop := 0 ≤ f ∧ f < bm.numBits ∧ bm.bit f.toNat = true

/-- The frames of the live address spaces, one block each. -/
def blocks (s : State) : List (List Int) := s.live.map (fun sp => frames sp.pageTable)

/-- The marked bits are partitioned among the live page tables. -/
def ownership (s : State) : Prop := Owned (held s.gPhysPageBitMap) (blocks s)

theorem initial_ownership (raw : Nat → BitVec 32) : ownership (initial raw) := by
  refine Owned.nil (fun f hf => ?_)
  obtain ⟨h0, hlt, hbit⟩ := hf
  simp only [initial, BitMap.new_numBits] at hlt hbit
  rw [BitMap.bit_new (by omega)] at hbit
  cases hbit

/-! ## What a step can do -/

variable {sp : AddrSpace} {s t : State} {act : Act} {events : List Unit}

theorem afterAccess_frames {sp' : AddrSpace} {virtAddr : BitVec 32} {size : Nat} {writing : Bool}
    (h : afterAccess sp virtAddr size writing = some sp') :
    frames sp'.pageTable = frames sp.pageTable := by
  unfold afterAccess at h
  split at h
  · cases h
  · cases h
    rfl
  · rename_i hok
    obtain ⟨e, he, -, rfl⟩ := translate_ok hok
    cases h
    exact frames_set_touch he writing

/-- The effect of each operation on the bitmap and on the blocks of frames. -/
theorem step_cases (h : step s act = some (events, t)) :
    (∃ header, act = .construct header ∧
      t.gPhysPageBitMap = (allocate header s.gPhysPageBitMap).2 ∧
      t.live = s.live ++ [(allocate header s.gPhysPageBitMap).1]) ∨
    (∃ i sp, act = .destroy i ∧ s.live[i]? = some sp ∧
      sp.destroy s.gPhysPageBitMap = some t.gPhysPageBitMap ∧ t.live = s.live.eraseIdx i) ∨
    (∃ i virtAddr size writing sp sp', act = .access i virtAddr size writing ∧
      s.live[i]? = some sp ∧ frames sp'.pageTable = frames sp.pageTable ∧
      t.gPhysPageBitMap = s.gPhysPageBitMap ∧ t.live = s.live.set i sp') := by
  cases act with
  | construct header =>
    simp only [step, Option.some.injEq, Prod.mk.injEq] at h
    obtain ⟨-, rfl⟩ := h
    exact .inl ⟨header, rfl, rfl, rfl⟩
  | destroy i =>
    simp only [step, bind, Option.bind_eq_some_iff, pure, Option.some.injEq] at h
    obtain ⟨sp, hsp, bm, hbm, h⟩ := h
    cases h
    exact .inr (.inl ⟨i, sp, rfl, hsp, hbm, rfl⟩)
  | access i virtAddr size writing =>
    simp only [step, bind, Option.bind_eq_some_iff, pure, Option.some.injEq] at h
    obtain ⟨sp, hsp, sp', hsp', h⟩ := h
    cases h
    exact .inr (.inr ⟨i, virtAddr, size, writing, sp, sp', rfl, hsp,
      afterAccess_frames hsp', rfl, rfl⟩)

theorem held_allocate (h : NoffHeader) (bm : BitMap) (f : Int) :
    held (allocate h bm).2 f ↔
      f ∈ frames (allocate h bm).1.pageTable ∨ held bm f := by
  simp only [held, allocate_numBits, allocate_bit,
    allocate_frames, newFrames, List.mem_map, Bool.or_eq_true,
    decide_eq_true_eq]
  constructor
  · rintro ⟨h0, hlt, hmem | hbit⟩
    · exact .inl ⟨f.toNat, hmem, by omega⟩
    · exact .inr ⟨h0, hlt, hbit⟩
  · rintro (⟨j, hj, rfl⟩ | ⟨h0, hlt, hbit⟩)
    · have hclear := BitMap.mem_clearBits.mp (List.mem_of_mem_take hj)
      exact ⟨by omega, by omega, .inl (by simpa using hj)⟩
    · exact ⟨h0, hlt, .inr hbit⟩

/-- The frames handed out were clear before. -/
theorem not_held_of_allocated {h : NoffHeader} {bm : BitMap} {f : Int}
    (hf : f ∈ frames (allocate h bm).1.pageTable) : ¬ held bm f := by
  rw [allocate_frames, newFrames, List.mem_map] at hf
  obtain ⟨j, hj, rfl⟩ := hf
  have hclear := BitMap.mem_clearBits.mp (List.mem_of_mem_take hj)
  rintro ⟨-, -, hbit⟩
  simp [hclear.2] at hbit

theorem allocated_nodup (h : NoffHeader) (bm : BitMap) :
    (frames (allocate h bm).1.pageTable).Nodup := by
  rw [allocate_frames, newFrames]
  exact (bm.clearBits_nodup.sublist (List.take_sublist _ _)).map
    (fun a b hab => Int.ofNat_inj.mp hab)

/-- Under ownership the destructor of a live address space never trips the `ASSERT` of
`BitMap::Clear`. -/
theorem destroy_of_ownership (h : ownership s) (hsp : sp ∈ s.live) :
    ∃ bm', sp.destroy s.gPhysPageBitMap = some bm' ∧
      ∀ f, held bm' f ↔ held s.gPhysPageBitMap f ∧ f ∉ frames sp.pageTable := by
  have hrange : ∀ f ∈ frames sp.pageTable, 0 ≤ f ∧ f < s.gPhysPageBitMap.numBits := by
    intro f hf
    have hheld := (h.held_iff f).mpr
      (List.mem_flatten.mpr ⟨_, List.mem_map_of_mem hsp, hf⟩)
    exact ⟨hheld.1, hheld.2.1⟩
  obtain ⟨bm', hdestroy, hbits, hbit⟩ := destroy_eq_some hrange
  refine ⟨bm', hdestroy, fun f => ?_⟩
  simp only [held, hbits, hbit, Bool.and_eq_true, Bool.not_eq_true', decide_eq_false_iff_not]
  constructor
  · rintro ⟨h0, hlt, hnot, hb⟩
    rw [Int.toNat_of_nonneg h0] at hnot
    exact ⟨⟨h0, hlt, hb⟩, hnot⟩
  · rintro ⟨⟨h0, hlt, hb⟩, hnot⟩
    rw [← Int.toNat_of_nonneg h0] at hnot
    exact ⟨h0, hlt, hnot, hb⟩

/-- Replacing one element by one with the same image leaves the mapped list alone. -/
theorem blocks_set {live : List AddrSpace} {i : Nat} {sp' : AddrSpace} (h : live[i]? = some sp)
    (hf : frames sp'.pageTable = frames sp.pageTable) :
    (live.set i sp').map (fun sp => frames sp.pageTable) =
      live.map (fun sp => frames sp.pageTable) := by
  obtain ⟨hlt, hget⟩ := List.getElem?_eq_some_iff.mp h
  apply List.ext_getElem?
  intro j
  rw [List.map_set, List.getElem?_set]
  split
  · rename_i hj
    subst hj
    simp [hlt, hget, hf]
  · rfl

/-- Every operation keeps the partition. -/
theorem step_ownership (h : ownership s) (hstep : step s act = some (events, t)) : ownership t := by
  obtain ⟨header, -, hbm, hlive⟩ | ⟨i, sp, -, hsp, hbm, hlive⟩ |
    ⟨i, va, size, w, sp, sp', -, hsp, hf, hbm, hlive⟩ := step_cases hstep
  · rw [ownership, blocks, hbm, hlive, List.map_append]
    exact h.acquire (allocated_nodup header _) (fun f hf => not_held_of_allocated hf)
      (fun f => held_allocate header _ f)
  · obtain ⟨bm', hdestroy, hheld⟩ := destroy_of_ownership h (List.mem_of_getElem? hsp)
    cases hdestroy.symm.trans hbm
    have hsplit : s.live = s.live.take i ++ sp :: s.live.drop (i + 1) := by
      obtain ⟨hlt, hget⟩ := List.getElem?_eq_some_iff.mp hsp
      rw [← hget, List.getElem_cons_drop, List.take_append_drop]
    rw [ownership, blocks, hlive, List.eraseIdx_eq_take_drop_succ, List.map_append]
    rw [ownership, blocks, hsplit, List.map_append, List.map_cons] at h
    exact h.release hheld
  · rw [ownership, blocks, hbm, hlive, blocks_set hsp hf]
    exact h

theorem run_ownership {raw : Nat → BitVec 32} {ok : State → Act → Prop} {trace : List Unit}
    (h : Run step ok (initial raw) trace s) : ownership s :=
  h.invariant (initial_ownership raw) (fun _ _ _ _ hown _ hstep => step_ownership hown hstep)

/-! ## Frame ownership -/

/-- On every run of constructions, destructions and accesses the page tables of the live address
spaces are injective and pairwise disjoint, hold no `-1`, and cover exactly the marked bits; and
no destructor of a live address space fails. -/
theorem frames_owned {raw : Nat → BitVec 32} {trace : List Unit} {s : State}
    (h : Run step anyAct (initial raw) trace s) :
    (∀ sp ∈ s.live, (frames sp.pageTable).Nodup ∧ -1 ∉ frames sp.pageTable) ∧
      s.live.Pairwise (fun a b => List.Disjoint (frames a.pageTable) (frames b.pageTable)) ∧
      (∀ f : Int, held s.gPhysPageBitMap f ↔ ∃ sp ∈ s.live, f ∈ frames sp.pageTable) ∧
      (∀ i < s.live.length, ∃ t, step s (.destroy i) = some ([], t)) := by
  have hown : ownership s := run_ownership h
  have hheld : ∀ f, held s.gPhysPageBitMap f ↔ ∃ sp ∈ s.live, f ∈ frames sp.pageTable := by
    intro f
    rw [hown.held_iff]
    simp [blocks]
  refine ⟨fun sp hsp => ⟨hown.nodup_of_mem (List.mem_map_of_mem hsp), fun hneg => ?_⟩, ?_, hheld,
    fun i hi => ?_⟩
  · have hm := (hheld (-1)).mpr ⟨sp, hsp, hneg⟩
    exact absurd hm.1 (by decide)
  · exact List.pairwise_map.mp hown.pairwise_disjoint
  · obtain ⟨bm', hdestroy, -⟩ := destroy_of_ownership hown (List.getElem_mem hi)
    exact ⟨⟨bm', s.live.eraseIdx i⟩, by simp [step, hi, hdestroy]⟩

/-- A header for a program of one code byte: three pages with its stack. -/
def smallHeader : NoffHeader :=
  ⟨NOFFMAGIC, ⟨0, 40, 1⟩, ⟨0, 0, 0⟩, ⟨0, 0, 0⟩⟩

/-- Two constructions and a destruction in between leave the second address space its three
frames. -/
theorem frames_owned_reuse :
    ∃ s, Run step anyAct (initial fun _ => 0) [] s ∧
      s.live.map (fun sp => frames sp.pageTable) = [[3, 4, 5], [0, 1, 2]] ∧
      (∀ f : Int, held s.gPhysPageBitMap f ↔ ∃ sp ∈ s.live, f ∈ frames sp.pageTable) := by
  have hrun : (execute step (initial fun _ => 0)
      [.construct smallHeader, .construct smallHeader, .destroy 0, .construct smallHeader]).map
        (fun r => (r.1, blocks r.2)) = some ([], [[3, 4, 5], [0, 1, 2]]) := by decide +kernel
  obtain ⟨s, hexec, hlive⟩ := execute_observed blocks hrun
  have h : Run step anyAct (initial fun _ => 0) [] s := run_of_execute hexec (allowed_anyAct _ _)
  exact ⟨s, h, hlive, (frames_owned h).2.2.1⟩

/-! ## Which frames exist -/

/-- Every frame of a live address space is a frame of `mainMemory`, so that `Translate` reports
no bus error below `pageTableSize * PageSize` and the loader stays inside `MemorySize` as far as
the frame number goes. -/
def FramesExist (s : State) : Prop :=
  ∀ sp ∈ s.live,
    (∀ f ∈ frames sp.pageTable, 0 ≤ f ∧ f < NumPhysPages) ∧
    (∀ (virtAddr : BitVec 32) (size : Nat) (writing : Bool),
      virtAddr.toNat < sp.numPages * PageSize →
        translate (linear sp.pageTable) virtAddr size writing ≠ .fault .BusErrorException) ∧
    (∀ f ∈ frames sp.pageTable, f * PageSize + PageSize ≤ MemorySize)

/-- The number of clear bits that stand for frames of `mainMemory`. -/
def freeFrames (bm : BitMap) : Nat := bm.clearBits.countP (fun f => decide (f < NumPhysPages))

/-- A construction asks for no more pages than there are existing free frames, unless it asks
for so many that it fails. -/
def Fits (s : State) : Act → Prop
  | .construct h =>
    s.gPhysPageBitMap.numClear < h.numPages ∨ h.numPages ≤ freeFrames s.gPhysPageBitMap
  | _ => True

instance (s : State) (act : Act) : Decidable (Fits s act) := by
  cases act <;> unfold Fits <;> infer_instance

/-- In an increasing list the first `n` elements are below `m` when there are `n` such. -/
theorem take_lt_iff {l : List Nat} (hs : l.Pairwise (· < ·)) {n m : Nat} (hn : n ≤ l.length) :
    (∀ x ∈ l.take n, x < m) ↔ n ≤ l.countP (fun x => decide (x < m)) := by
  induction l generalizing n with
  | nil => simp_all
  | cons a l ih =>
    obtain ⟨hlt, hs⟩ := List.pairwise_cons.mp hs
    cases n with
    | zero => simp
    | succ n =>
      have ihn := @ih hs n (by simpa using hn)
      by_cases ha : a < m
      · simp only [List.take_succ_cons, List.mem_cons, forall_eq_or_imp, ha, true_and, ihn,
          List.countP_cons, decide_true, if_true]
        omega
      · have hnone : l.countP (fun x => decide (x < m)) = 0 := by
          rw [List.countP_eq_zero]
          intro x hx
          have := hlt x hx
          simp only [decide_eq_true_eq]
          omega
        simp [List.take_succ_cons, ha, hnone]

/-- It is enough that the frame numbers are in range. -/
theorem framesExist_iff (s : State) :
    FramesExist s ↔ ∀ b ∈ blocks s, ∀ f ∈ b, 0 ≤ f ∧ f < NumPhysPages := by
  simp only [blocks, List.mem_map, forall_exists_index, and_imp, forall_apply_eq_imp_iff₂]
  constructor
  · exact fun h sp hsp => (h sp hsp).1
  · intro h sp hsp
    refine ⟨h sp hsp, fun va size w _ => translate_ne_bus (h sp hsp) va size w, fun f hf => ?_⟩
    have hlt := (h sp hsp f hf).2
    simp only [MemorySize, NumPhysPages, PageSize, SectorSize] at hlt ⊢
    omega

/-- A construction hands out existing frames exactly when it fits. -/
theorem allocated_exist_iff (h : NoffHeader) (bm : BitMap) :
    (∀ f ∈ frames (allocate h bm).1.pageTable, 0 ≤ f ∧ f < NumPhysPages) ↔
      bm.numClear < h.numPages ∨ h.numPages ≤ freeFrames bm := by
  have hframes : (∀ f ∈ frames (allocate h bm).1.pageTable, 0 ≤ f ∧ f < NumPhysPages) ↔
      ∀ f ∈ bm.clearBits.take (pagesGranted h bm), f < NumPhysPages := by
    rw [allocate_frames, newFrames, List.forall_mem_map]
    exact forall₂_congr (fun f _ => by omega)
  rw [hframes, take_lt_iff bm.clearBits_sorted (pagesGranted_le h bm),
    pagesGranted, ← freeFrames]
  split
  · rename_i hlt
    simp [hlt]
  · rename_i hge
    simp [hge]

/-- From a state whose frames exist, a step leads to such a state exactly when it fits. -/
theorem step_framesExist (h : FramesExist s) (hstep : step s act = some (events, t)) :
    FramesExist t ↔ Fits s act := by
  rw [framesExist_iff] at h ⊢
  obtain ⟨header, rfl, -, hlive⟩ | ⟨i, sp, rfl, -, -, hlive⟩ |
    ⟨i, va, size, w, sp, sp', rfl, hsp, hf, -, hlive⟩ := step_cases hstep
  · rw [Fits, ← allocated_exist_iff, blocks, hlive, List.map_append]
    constructor
    · intro hall
      exact hall _ (List.mem_append_right _ (by simp))
    · intro hnew b hb
      rcases List.mem_append.mp hb with hold | hlast
      · exact h b hold
      · rw [List.map_singleton, List.mem_singleton] at hlast
        rw [hlast]
        exact hnew
  · refine iff_of_true (fun b hb => h b ?_) trivial
    rw [blocks, hlive] at hb
    exact ((List.eraseIdx_sublist _ _).map _).subset hb
  · refine iff_of_true (fun b hb => h b ?_) trivial
    rwa [blocks, hlive, blocks_set hsp hf] at hb

/-- Along every run whose constructions all fit, the frames of the live address spaces exist;
and from there a step keeps this exactly when it fits. -/
theorem frames_exist_iff_fits {raw : Nat → BitVec 32} {trace : List Unit} {s : State}
    (h : Run step Fits (initial raw) trace s) :
    FramesExist s ∧ ∀ act events t, step s act = some (events, t) →
      (FramesExist t ↔ Fits s act) := by
  have hs : FramesExist s := h.invariant (fun sp hsp => absurd hsp List.not_mem_nil)
    (fun _ _ _ _ hinv hfits hstep => (step_framesExist hinv hstep).mpr hfits)
  exact ⟨hs, fun act events t hstep => step_framesExist hs hstep⟩

/-- Two small processes fit. -/
theorem frames_exist_two_small :
    ∃ s, Run step Fits (initial fun _ => 0) [] s ∧ s.live.length = 2 ∧ FramesExist s := by
  have hrun : (execute step (initial fun _ => 0)
      [.construct smallHeader, .construct smallHeader]).map
        (fun r => (r.1, r.2.live.length)) = some ([], 2) := by decide +kernel
  have hfits : Allowed step Fits (initial fun _ => 0)
      [.construct smallHeader, .construct smallHeader] := by decide +kernel
  obtain ⟨s, hexec, hlive⟩ := execute_observed (fun s : State => s.live.length) hrun
  have h := run_of_execute hexec hfits
  exact ⟨s, h, hlive, (frames_exist_iff_fits h).1⟩

/-- A header for 129 pages: 65024 bytes of code and the stack. -/
def largeHeader : NoffHeader :=
  ⟨NOFFMAGIC, ⟨0, 40, 65024⟩, ⟨0, 0, 0⟩, ⟨0, 0, 0⟩⟩

/-- One process of 129 pages is admitted on the empty machine and gets frame 128, which
`mainMemory` does not have. -/
theorem large_process_gets_missing_frame :
    ¬ ∀ (raw : Nat → BitVec 32) (trace : List Unit) (s : State),
      Run step anyAct (initial raw) trace s → FramesExist s := by
  intro hall
  have hstep : step (initial fun _ => 0) (.construct largeHeader) =
      some ([], ⟨(allocate largeHeader (initial fun _ => 0).gPhysPageBitMap).2,
        (initial fun _ => 0).live ++
          [(allocate largeHeader (initial fun _ => 0).gPhysPageBitMap).1]⟩) := rfl
  have hexist := hall (fun _ => 0) _ _ (.snoc .refl trivial hstep)
  have hnone : FramesExist (initial fun _ => 0) := fun sp hsp => absurd hsp List.not_mem_nil
  have hfits := (step_framesExist hnone hstep).mp hexist
  exact absurd hfits (by decide +kernel)

end Nachos.Frames
