import Nachos.Userprog.Loader
import Nachos.Userprog.UserCopy

/-!
# What the loader leaves in the address space

Both loops of `AddrSpace::AddrSpace(char*)` add the virtual address of a segment to the start of a
physical frame, page by page, and they read whole pages as long as there are page table entries. So
where a byte of a segment ends up depends on the frames, and a later read may overwrite it. Which
page is the last one to reach an address, and which position of the file it takes the byte from, is
known from the header and the frames alone (`WritesLast`). `loader_correct_iff` says that the
program is loaded, whatever the bytes of the file are, exactly if these are the right positions.
-/

namespace Nachos.Loader

open Transition BlockWrite AddrSpace

/-! ## Where a byte comes from -/

/-- The position in a file of `n` bytes that a read takes the byte for the address `p` from. -/
def Read.source (n : Nat) (r : Read) (p : Int) : Option Nat :=
  if r.into ≤ p ∧ p < r.into + PageSize ∧ r.position.toNat + (p - r.into).toNat < n then
    some (r.position.toNat + (p - r.into).toNat)
  else none

/-- The position for the last read that reaches the address. -/
def lastSource (n : Nat) : List Read → Int → Option Nat
  | [], _ => none
  | r :: rs, p => (lastSource n rs p).or (r.source n p)

/-- The later of two loops comes first. -/
theorem lastSource_append (n : Nat) (rs rs' : List Read) (p : Int) :
    lastSource n (rs ++ rs') p = (lastSource n rs' p).or (lastSource n rs p) := by
  induction rs with
  | nil => simp [lastSource]
  | cons r rs ih => rw [List.cons_append, lastSource, ih, lastSource, Option.or_assoc]

/-- No read reaches the address. -/
theorem lastSource_eq_none {n : Nat} {rs : List Read} {p : Int} :
    lastSource n rs p = none ↔ ∀ r ∈ rs, r.source n p = none := by
  induction rs with
  | nil => simp [lastSource]
  | cons r rs ih => rw [lastSource, Option.or_eq_none_iff, ih, List.forall_mem_cons, and_comm]

/-- The last read of a loop that reaches the address, by its number. -/
theorem lastSource_range {read : Nat → Read} {n m : Nat} {p : Int} {q : Nat} :
    lastSource n ((List.range m).map read) p = some q ↔ ∃ i < m, (read i).source n p = some q ∧
      ∀ j < m, i < j → (read j).source n p = none := by
  induction m with
  | zero => simp [lastSource]
  | succ m ih =>
    rw [List.range_succ, List.map_append, lastSource_append, Option.or_eq_some_iff, ih]
    simp only [List.map_cons, List.map_nil, lastSource, Option.none_or]
    constructor
    · rintro (hlast | ⟨hnone, i, hi, hsource, hlater⟩)
      · exact ⟨m, by omega, hlast, fun j hj hmj => by omega⟩
      · refine ⟨i, by omega, hsource, fun j hj hij => ?_⟩
        rcases Nat.lt_succ_iff_lt_or_eq.mp hj with hj | rfl
        · exact hlater j hj hij
        · exact hnone
    · rintro ⟨i, hi, hsource, hlater⟩
      rcases Nat.lt_succ_iff_lt_or_eq.mp hi with hi | rfl
      · exact .inr ⟨hlater m (by omega) hi, i, hi, hsource, fun j hj => hlater j (by omega)⟩
      · exact .inl hsource

/-- What a read takes its byte from. -/
theorem block_get? (file : List (BitVec 8)) (r : Read) (p : Int) :
    (r.block file).get? p = (r.source file.length p).map fun q => file.getD q 0 := by
  unfold Block.get? Read.source Read.block
  dsimp only
  by_cases hlow : r.into ≤ p
  · rw [if_pos hlow, List.getElem?_take, List.getElem?_drop]
    by_cases hhigh : p < r.into + PageSize
    · have hoffset : (p - r.into).toNat < PageSize := by omega
      rw [if_pos hoffset]
      by_cases hend : r.position.toNat + (p - r.into).toNat < file.length
      · rw [if_pos ⟨hlow, hhigh, hend⟩, Option.map_some, List.getD_eq_getElem?_getD,
          List.getElem?_eq_getElem hend, Option.getD_some]
      · rw [if_neg (fun h => hend h.2.2), Option.map_none, List.getElem?_eq_none_iff]
        omega
    · rw [if_neg (by omega), if_neg (fun h => hhigh h.2.1), Option.map_none]
  · rw [if_neg hlow, if_neg (fun h => hlow h.1), Option.map_none]

/-- The last of the reads takes its byte from there. -/
theorem last_map_block (file : List (BitVec 8)) (rs : List Read) (p : Int) :
    last (rs.map (Read.block file)) p =
      (lastSource file.length rs p).map fun q => file.getD q 0 := by
  induction rs with
  | nil => rfl
  | cons r rs ih =>
    rw [List.map_cons, last, ih, block_get?, lastSource]
    cases lastSource file.length rs p <;> rfl

variable {h : NoffHeader} {bm : BitMap}

/-- Memory after loops that run to their end. -/
theorem load_apply {sp : AddrSpace} (hcompletes : Completes (loadReads h (frames sp.pageTable)))
    (file : List (BitVec 8)) (mem : Memory) (p : Int) :
    load h file sp mem p =
      ((lastSource file.length (loadReads h (frames sp.pageTable)) p).map
        fun q => file.getD q 0).getD (mem p) := by
  rw [load, writeAll_apply, loadBlocks, performed_of_completes hcompletes, last_map_block]

/-! ## Where a byte belongs -/

/-- The physical address of a virtual one, for the frames of a page table. -/
def physical (fs : List Int) (a : Nat) : Int :=
  fs.getD (a / PageSize) 0 * PageSize + (a % PageSize : Nat)

/-- `Translate` through a new page table. -/
theorem lookup_allocate (hexist : ∀ f ∈ newFrames h bm, 0 ≤ f ∧ f < NumPhysPages)
    {a : BitVec 32} (ha : a.toNat / PageSize < (newFrames h bm).length) :
    ∃ p : Nat, lookup (allocate h bm).1.pageTable a = .ok p ∧
      (p : Int) = physical (newFrames h bm) a.toNat := by
  obtain ⟨f, hf⟩ : ∃ f, (newFrames h bm)[a.toNat / PageSize]? = some f :=
    ⟨_, List.getElem?_eq_getElem ha⟩
  obtain ⟨hlow, hhigh⟩ := hexist f (List.mem_of_getElem? hf)
  have hframe : ((BitVec.ofInt 32 f).toNat : Int) = f := by
    rw [BitVec.toNat_ofInt]
    simp only [NumPhysPages] at hhigh
    omega
  refine ⟨(BitVec.ofInt 32 f).toNat * PageSize + a.toNat % PageSize, ?_, ?_⟩
  · simp only [lookup, allocate_getElem?, hf, Option.map_some, newEntry,
      Bool.not_true, Bool.false_eq_true, if_false]
    rw [if_neg (by omega)]
  · rw [physical, List.getD_eq_getElem?_getD, hf, Option.getD_some, Int.natCast_add,
      Int.natCast_mul, hframe]

/-! ## Loading -/

/-- The segments that are loaded. -/
def segments (h : NoffHeader) : List Segment := [h.code, h.initData]

/-- The constructor returns, and at each virtual address of the two segments stands the byte of the
file. -/
def Loaded (h : NoffHeader) (file : List (BitVec 8)) (sp : AddrSpace) (mem : Memory) : Prop :=
  Completes (loadReads h (frames sp.pageTable)) ∧
    ∀ seg ∈ segments h, ∀ k < seg.size.toNat,
      Syscall.byteAt sp.pageTable (load h file sp mem)
        (seg.virtualAddr + BitVec.ofNat 32 k) = .ok (file.getD (seg.inFileAddr.toNat + k) 0)

/-- The segments that are not empty lie in the file of `n` bytes, behind the header. -/
def InFile (h : NoffHeader) (n : Nat) : Prop :=
  ∀ seg ∈ segments h, 0 < seg.size.toNat →
    40 ≤ seg.inFileAddr.toNat ∧ seg.inFileAddr.toNat + seg.size.toNat ≤ n

/-- Page `i` of a segment, read from a file of `n` bytes, reaches the address `p`. -/
def Writes (fs : List Int) (n : Nat) (seg : Segment) (i : Nat) (p : Int) : Prop :=
  start seg fs i ≤ p ∧ p < start seg fs i + PageSize ∧
    (position seg i).toNat + (p - start seg fs i).toNat < n

instance (fs : List Int) (n : Nat) (seg : Segment) (i : Nat) (p : Int) :
    Decidable (Writes fs n seg i p) := inferInstanceAs (Decidable (_ ∧ _))

/-- The last page of a segment that reaches the address `p` takes its byte from position `q`. -/
def WritesLast (fs : List Int) (n : Nat) (seg : Segment) (p : Int) (q : Nat) : Prop :=
  0 < seg.size.toInt ∧ ∃ i < fs.length, Writes fs n seg i p ∧
    (position seg i).toNat + (p - start seg fs i).toNat = q ∧
    ∀ j < fs.length, i < j → ¬ Writes fs n seg j p

instance (fs : List Int) (n : Nat) (seg : Segment) (p : Int) (q : Nat) :
    Decidable (WritesLast fs n seg p q) := inferInstanceAs (Decidable (_ ∧ _))

/-- No file position of the loops is too large for an `int`, and the last page that reaches a byte
of a segment takes it from its position in the file: a page of the data, or a page of the code if
no page of the data reaches the byte. -/
structure LaysOut (h : NoffHeader) (fs : List Int) (n : Nat) : Prop where
  small : ∀ seg ∈ segments h, 0 < seg.size.toNat → ∀ i < fs.length,
    seg.inFileAddr.toNat + i * PageSize < 2147483648
  sources : ∀ seg ∈ segments h, ∀ k < seg.size.toNat,
    let p := physical fs (seg.virtualAddr.toNat + k)
    WritesLast fs n h.initData p (seg.inFileAddr.toNat + k) ∨
      (0 < h.initData.size.toInt → ∀ i < fs.length, ¬ Writes fs n h.initData i p) ∧
        WritesLast fs n h.code p (seg.inFileAddr.toNat + k)

/-- The last read of a segment is the one of its last page. -/
theorem lastSource_segment {n : Nat} {fs : List Int} {seg : Segment} {p : Int} :
    (∀ q, lastSource n (segmentReads seg fs) p = some q ↔ WritesLast fs n seg p q) ∧
      (lastSource n (segmentReads seg fs) p = none ↔
        (0 < seg.size.toInt → ∀ i < fs.length, ¬ Writes fs n seg i p)) := by
  have hsource : ∀ i q, (⟨start seg fs i, position seg i⟩ : Read).source n p = some q ↔
      Writes fs n seg i p ∧ (position seg i).toNat + (p - start seg fs i).toNat = q := by
    intro i q
    rw [Read.source, Option.ite_none_right_eq_some, Option.some_inj, Writes]
  have hnone : ∀ i, (⟨start seg fs i, position seg i⟩ : Read).source n p = none ↔
      ¬ Writes fs n seg i p := by
    intro i
    simp only [Read.source, Writes, ite_eq_right_iff, reduceCtorEq, imp_false]
  rw [segmentReads_eq]
  split
  · rename_i hsize
    simp only [lastSource_range, lastSource_eq_none, List.forall_mem_map, List.mem_range, hsource,
      hnone, WritesLast, hsize, true_and, true_imp_iff, and_assoc, implies_true]
  · rename_i hsize
    simp [lastSource, WritesLast, hsize]

/-- The condition, as one on the last read. -/
theorem lastSource_iff {h : NoffHeader} {fs : List Int} {n : Nat} {p : Int} {q : Nat} :
    lastSource n (loadReads h fs) p = some q ↔ WritesLast fs n h.initData p q ∨
      (0 < h.initData.size.toInt → ∀ i < fs.length, ¬ Writes fs n h.initData i p) ∧
        WritesLast fs n h.code p q := by
  rw [loadReads, lastSource_append, Option.or_eq_some_iff, lastSource_segment.1,
    lastSource_segment.1, lastSource_segment.2]

/-- A position of the loops as an `int`. -/
theorem position_nonneg_iff {seg : Segment} {i : Nat} (hi : i < NumPhysPages)
    (ha : seg.inFileAddr.toNat < 2147483648) :
    0 ≤ position seg i ↔ seg.inFileAddr.toNat + i * PageSize < 2147483648 := by
  simp only [position, NumPhysPages, PageSize, SectorSize] at hi ⊢
  rw [BitVec.toInt_eq_toNat_cond, BitVec.toNat_add, BitVec.toNat_ofNat]
  split <;> omega

/-- The loop of a segment runs to its end exactly if its positions are small. -/
theorem completes_segmentReads_iff {seg : Segment} (hsize : 0 ≤ seg.size.toInt) {fs : List Int}
    (hfs : fs.length ≤ NumPhysPages) :
    Completes (segmentReads seg fs) ↔ (0 < seg.size.toNat → ∀ i < fs.length,
      seg.inFileAddr.toNat + i * PageSize < 2147483648) := by
  have hsize' : seg.size.toInt = seg.size.toNat := by
    rw [BitVec.toInt_eq_toNat_cond] at hsize ⊢
    split at hsize <;> omega
  rw [completes_segmentReads, hsize', Int.natCast_pos]
  refine forall_congr' fun hpos => ⟨fun h i hi => ?_, fun h i hi => ?_⟩
  · -- the first position is the address itself
    have hfirst := h 0 (by omega)
    rw [position, Nat.zero_mul, BitVec.toInt_eq_toNat_cond] at hfirst
    simp only [BitVec.add_zero] at hfirst
    have ha : seg.inFileAddr.toNat < 2147483648 := by
      have := seg.inFileAddr.isLt
      split at hfirst <;> omega
    exact (position_nonneg_iff (by omega) ha).mp (h i hi)
  · have hfirst := h 0 (by omega)
    exact (position_nonneg_iff (by omega) (by omega)).mpr (h i hi)

/-- The header is in the first forty bytes. -/
theorem readHeader_set (host : Host) (file : List (BitVec 8)) {q : Nat} (hq : 40 ≤ q)
    (b : BitVec 8) : readHeader host (file.set q b) = readHeader host file := by
  have hbyte : ∀ i < 40, (file.set q b).getD i 0 = file.getD i 0 := by
    intro i hi
    rw [List.getD_eq_getElem?_getD, List.getElem?_set_ne (by omega), List.getD_eq_getElem?_getD]
  have hword : ∀ i < 10, fileWord host (file.set q b) i = fileWord host file i := by
    intro i hi
    rw [fileWord, fileWord, hbyte _ (by omega), hbyte _ (by omega), hbyte _ (by omega),
      hbyte _ (by omega)]
  have hsegment : ∀ i < 8, fileSegment host (file.set q b) i = fileSegment host file i := by
    intro i hi
    rw [fileSegment, fileSegment, hword _ (by omega), hword _ (by omega), hword _ (by omega)]
  unfold readHeader
  rw [List.length_set, hword 0 (by omega), hsegment 1 (by omega), hsegment 4 (by omega),
    hsegment 7 (by omega)]

/-- The frames of a construction that fits. -/
theorem newFrames_fits (hfits : h.numPages ≤ Frames.freeFrames bm) :
    (∀ f ∈ newFrames h bm, 0 ≤ f ∧ f < NumPhysPages) ∧
      (newFrames h bm).length = h.numPages ∧ h.numPages ≤ NumPhysPages := by
  have hexist := (Frames.allocated_exist_iff h bm).mpr (.inr hfits)
  rw [allocate_frames] at hexist
  have hclear : h.numPages ≤ bm.clearBits.length := hfits.trans List.countP_le_length
  have hlength : (newFrames h bm).length = h.numPages := by
    have hgranted : pagesGranted h bm = h.numPages := by
      rw [pagesGranted, bm.numClear_eq_length, if_neg (by omega)]
    rw [newFrames, List.length_map, List.length_take, hgranted]
    omega
  have hnodup : (newFrames h bm).Nodup := by
    rw [← allocate_frames]
    exact Frames.allocated_nodup h bm
  have hsub : newFrames h bm ⊆
      (List.range NumPhysPages).map (fun f : Nat => (f : Int)) := by
    intro f hf
    obtain ⟨hlow, hhigh⟩ := hexist f hf
    exact List.mem_map.mpr ⟨f.toNat, List.mem_range.mpr (by omega), by omega⟩
  refine ⟨hexist, hlength, ?_⟩
  have hle := (hnodup.subperm hsub).length_le
  rwa [hlength, List.length_map, List.length_range] at hle

/-- The byte at a virtual address of a segment. -/
theorem byteAt_segment (hfits : h.numPages ≤ Frames.freeFrames bm) (hinside : SegmentsInside h)
    {seg : Segment} (hseg : seg ∈ segments h) {k : Nat} (hk : k < seg.size.toNat) (mem : Memory) :
    Syscall.byteAt (allocate h bm).1.pageTable mem
        (seg.virtualAddr + BitVec.ofNat 32 k) =
      .ok (mem (physical (newFrames h bm) (seg.virtualAddr.toNat + k))) := by
  obtain ⟨hexist, hlength, hpages⟩ := newFrames_fits hfits
  have hmem : seg ∈ [h.code, h.initData, h.uninitData] := by
    rcases List.mem_cons.mp hseg with rfl | hseg
    · simp
    · rw [List.mem_singleton.mp hseg]
      simp
  obtain ⟨haddr, hsize, hend⟩ := hinside seg hmem
  simp only [NumPhysPages, PageSize, SectorSize] at hpages hend
  have haddr' : (seg.virtualAddr.toInt : Int) = seg.virtualAddr.toNat := by
    rw [BitVec.toInt_eq_toNat_cond] at haddr ⊢
    split at haddr <;> omega
  have hsize' : (seg.size.toInt : Int) = seg.size.toNat := by
    rw [BitVec.toInt_eq_toNat_cond] at hsize ⊢
    split at hsize <;> omega
  have ha : (seg.virtualAddr + BitVec.ofNat 32 k).toNat = seg.virtualAddr.toNat + k := by
    rw [BitVec.toNat_add, BitVec.toNat_ofNat]
    omega
  obtain ⟨p, hlookup, hp⟩ := @lookup_allocate h bm hexist (seg.virtualAddr + BitVec.ofNat 32 k)
    (by rw [ha, hlength, PageSize, SectorSize]; omega)
  rw [Syscall.byteAt, hlookup, ← ha, ← hp]
  rfl

/-- Both loops run to their end exactly if their positions are small. -/
theorem completes_iff (hinside : SegmentsInside h) {fs : List Int}
    (hfs : fs.length ≤ NumPhysPages) :
    Completes (loadReads h fs) ↔ ∀ seg ∈ segments h, 0 < seg.size.toNat → ∀ i < fs.length,
      seg.inFileAddr.toNat + i * PageSize < 2147483648 := by
  have hcode := completes_segmentReads_iff (hinside h.code (by simp)).2.1 hfs
  have hdata := completes_segmentReads_iff (hinside h.initData (by simp)).2.1 hfs
  have happend : Completes (loadReads h fs) ↔
      Completes (segmentReads h.code fs) ∧ Completes (segmentReads h.initData fs) :=
    List.forall_mem_append
  rw [happend, hcode, hdata, segments, List.forall_mem_cons, List.forall_mem_singleton]

/-- The value of `lastSource` is known when every file of this length has the right byte there. -/
theorem lastSource_eq_of_load {rs : List Read} {file : List (BitVec 8)} {p : Int} {q : Nat}
    (hsame : ∀ b : BitVec 8, ∀ v : BitVec 8,
      ((lastSource file.length rs p).map fun q' => (file.set q b).getD q' 0).getD v = b) :
    lastSource file.length rs p = some q := by
  cases hlast : lastSource file.length rs p with
  | none =>
    -- nothing is read, and memory is arbitrary
    rw [hlast] at hsame
    have hvalue : (1 : BitVec 8) = 0 := hsame 0 1
    exact absurd hvalue (by decide)
  | some q' =>
    rw [hlast] at hsame
    by_contra hne
    have hother : ∀ b : BitVec 8, (file.set q b).getD q' 0 = file.getD q' 0 := by
      intro b
      rw [List.getD_eq_getElem?_getD, List.getElem?_set_ne (fun h => hne (by rw [h])),
        List.getD_eq_getElem?_getD]
    have h0 := hsame 0 0
    have h1 := hsame 1 0
    simp only [Option.map_some, Option.getD_some, hother] at h0 h1
    exact absurd (h0.symm.trans h1) (by decide)

/-- For a header whose segments lie in its address space, and a bitmap with enough frames: if the
header and the frames that are handed out lay the program out, every executable of this length with
this header is loaded into every memory; if the segments lie in the file, only then. -/
theorem loader_correct_iff (host : Host) {file : List (BitVec 8)} {h : NoffHeader}
    (hheader : readHeader host file = some h) (hinside : SegmentsInside h) (bm : BitMap)
    (hfits : h.numPages ≤ Frames.freeFrames bm) :
    (LaysOut h (newFrames h bm) file.length →
      ∀ file' mem, file'.length = file.length → readHeader host file' = some h →
        Loaded h file' (allocate h bm).1 mem) ∧
    (InFile h file.length →
      ((∀ file' mem, file'.length = file.length → readHeader host file' = some h →
          Loaded h file' (allocate h bm).1 mem) ↔
        LaysOut h (newFrames h bm) file.length)) := by
  obtain ⟨-, hlength, hpages⟩ := newFrames_fits hfits
  have hcompletes := completes_iff hinside (hlength ▸ hpages)
  have hloaded : LaysOut h (newFrames h bm) file.length →
      ∀ file' mem, file'.length = file.length → readHeader host file' = some h →
        Loaded h file' (allocate h bm).1 mem := by
    intro hlays file' mem hsize _
    have hends := hcompletes.mpr hlays.small
    rw [← allocate_frames] at hends
    refine ⟨hends, fun seg hseg k hk => ?_⟩
    rw [byteAt_segment hfits hinside hseg hk, load_apply hends, allocate_frames, hsize,
      lastSource_iff.mpr (hlays.sources seg hseg k hk)]
    rfl
  refine ⟨hloaded, fun hfile => ⟨fun hall => ?_, hloaded⟩⟩
  have hends : Completes (loadReads h (newFrames h bm)) := by
    rw [← allocate_frames]
    exact (hall file (fun _ => 0) rfl hheader).1
  refine ⟨hcompletes.mp hends, fun seg hseg k hk => ?_⟩
  obtain ⟨hbehind, hend⟩ := hfile seg hseg (by omega)
  apply lastSource_iff.mp
  apply lastSource_eq_of_load
  intro b v
  have hload := (hall (file.set (seg.inFileAddr.toNat + k) b) (fun _ => v) (List.length_set ..)
    ((readHeader_set host file (by omega) b).trans hheader)).2 seg hseg k hk
  rw [byteAt_segment hfits hinside hseg hk, load_apply (by rwa [allocate_frames]),
    allocate_frames, List.length_set] at hload
  rw [Except.ok.inj hload, List.getD_eq_getElem?_getD, List.getElem?_set_self (by omega)]
  rfl

/-- 600 bytes of code at address 0 and 100 bytes of initialised data behind them. -/
def pairHeader : NoffHeader :=
  ⟨NOFFMAGIC, ⟨0, 40, 600⟩, ⟨600, 640, 100⟩, ⟨700, 0, 0⟩⟩

/-- The executable with that header. -/
def pairFile : List (BitVec 8) := headerBytes .littleEndian pairHeader ++ List.replicate 700 1

/-- On the empty machine the frames are consecutive, and the program is loaded. -/
theorem loader_correct_pair :
    Loaded pairHeader pairFile
      (allocate pairHeader (Frames.initial fun _ => 0).gPhysPageBitMap).1 fun _ => 0 := by
  have hheader : readHeader .littleEndian pairFile = some pairHeader := by decide +kernel
  refine (loader_correct_iff .littleEndian hheader (by decide +kernel) _
    (by decide +kernel)).1 ⟨?_, ?_⟩ pairFile _ rfl hheader <;> decide +kernel

/-- No two segments of the header have an address in common. -/
def SegmentsDisjoint (h : NoffHeader) : Prop :=
  [h.code, h.initData, h.uninitData].Pairwise fun a b => a.size.toNat = 0 ∨ b.size.toNat = 0 ∨
    a.virtualAddr.toNat + a.size.toNat ≤ b.virtualAddr.toNat ∨
    b.virtualAddr.toNat + b.size.toNat ≤ a.virtualAddr.toNat

instance (h : NoffHeader) : Decidable (SegmentsDisjoint h) :=
  inferInstanceAs (Decidable (List.Pairwise _ _))

/-- A program without segments: two pages for its stack. -/
def emptyHeader : NoffHeader :=
  ⟨NOFFMAGIC, ⟨0, 0, 0⟩, ⟨0, 0, 0⟩, ⟨0, 0, 0⟩⟩

/-- One byte of code in the third page. -/
def thirdPageHeader : NoffHeader :=
  ⟨NOFFMAGIC, ⟨1024, 40, 1⟩, ⟨0, 0, 0⟩, ⟨0, 0, 0⟩⟩

/-- After a first process has left a gap below a second one the frames are 0, 1 and 4. The byte
meant for virtual address 1024 goes to physical address 1024, and frame 4 is left as it was. -/
theorem loader_misses_page :
    ¬ ∀ (raw : Nat → BitVec 32) (trace : List Unit) (s : Frames.State) (host : Host)
      (file : List (BitVec 8)) (h : NoffHeader) (mem : Memory),
      Run Frames.step anyAct (Frames.initial raw) trace s → readHeader host file = some h →
        SegmentsInside h → SegmentsDisjoint h → InFile h file.length →
        h.numPages ≤ Frames.freeFrames s.gPhysPageBitMap →
        Loaded h file (allocate h s.gPhysPageBitMap).1 mem := by
  intro hall
  have hrun : (execute Frames.step (Frames.initial fun _ => 0)
      [.construct emptyHeader, .construct emptyHeader, .destroy 0]).map
        (fun r => (r.1, newFrames thirdPageHeader r.2.gPhysPageBitMap,
          Frames.freeFrames r.2.gPhysPageBitMap)) = some ([], [0, 1, 4], 126) := by decide +kernel
  obtain ⟨s, hexec, hstate⟩ := execute_observed
    (fun s : Frames.State => (newFrames thirdPageHeader s.gPhysPageBitMap,
      Frames.freeFrames s.gPhysPageBitMap)) hrun
  obtain ⟨hframes, hfree⟩ := Prod.mk.inj hstate
  have hs : Run Frames.step anyAct (Frames.initial fun _ => 0) [] s :=
    run_of_execute hexec (allowed_anyAct _ _)
  have hinside : SegmentsInside thirdPageHeader := by decide +kernel
  have hfits : thirdPageHeader.numPages ≤ Frames.freeFrames s.gPhysPageBitMap := by
    rw [hfree]
    decide +kernel
  obtain ⟨hends, hbytes⟩ := hall _ _ s .littleEndian
    (headerBytes .littleEndian thirdPageHeader ++ [1]) _
    (fun _ => 0) hs (by decide +kernel) hinside (by decide +kernel)
    (by unfold InFile; decide +kernel) hfits
  have hbyte := hbytes thirdPageHeader.code (by simp [segments]) 0 (by decide)
  rw [byteAt_segment hfits hinside (by simp [segments]) (by decide), load_apply hends,
    allocate_frames, hframes] at hbyte
  exact absurd (Except.ok.inj hbyte) (by decide +kernel)

end Nachos.Loader
