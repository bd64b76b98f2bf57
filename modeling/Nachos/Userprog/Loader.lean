import Mathlib.Data.List.TakeWhile
import Nachos.Library.BlockWrite
import Nachos.Userprog.Frames

/-!
# Loading a program

The rest of `AddrSpace::AddrSpace(char*)`: reading the NOFF header and the two loops that copy
the code and initialised data into memory. Each iteration is one
`executable->ReadAt(into, PageSize, position)` with `into` computed as
`&mainMemory[virtualAddr] + physicalPage * PageSize`. Memory is addressed by the offset from
`mainMemory`, so an offset outside `[0, MemorySize)` is host memory of something else.
-/

namespace Nachos.Loader

open Transition BlockWrite AddrSpace

/-- Host memory by the offset from `mainMemory`. -/
abbrev Memory := Store (BitVec 8)

/-- The `i`th word of the file as the host reads it. -/
def fileWord (host : Host) (file : List (BitVec 8)) (i : Nat) : BitVec 32 :=
  hostWord host (file.getD (4 * i) 0) (file.getD (4 * i + 1) 0) (file.getD (4 * i + 2) 0)
    (file.getD (4 * i + 3) 0)

/-- The segment stored in three words. -/
def fileSegment (host : Host) (file : List (BitVec 8)) (i : Nat) : Segment :=
  ⟨fileWord host file i, fileWord host file (i + 1), fileWord host file (i + 2)⟩

/-- `SwapHeader` on one segment. -/
def swapSegment (host : Host) (s : Segment) : Segment :=
  ⟨wordToHost host s.virtualAddr, wordToHost host s.inFileAddr, wordToHost host s.size⟩

/-- `SwapHeader`. -/
def swapHeader (host : Host) (h : NoffHeader) : NoffHeader :=
  ⟨wordToHost host h.noffMagic, swapSegment host h.code, swapSegment host h.initData,
    swapSegment host h.uninitData⟩

/-- Reading and checking the header. `none` is the failing `ASSERT` on the magic number; a file
too short for a header is not a NOFF file either. -/
def readHeader (host : Host) (file : List (BitVec 8)) : Option NoffHeader :=
  if file.length < 40 then none
  else
    let raw : NoffHeader := ⟨fileWord host file 0, fileSegment host file 1,
      fileSegment host file 4, fileSegment host file 7⟩
    let h := if raw.noffMagic ≠ NOFFMAGIC ∧ wordToHost host raw.noffMagic = NOFFMAGIC then
      swapHeader host raw else raw
    if h.noffMagic = NOFFMAGIC then some h else none

/-- One call `executable->ReadAt(into, PageSize, position)` of the load loops. -/
structure Read where
  into : Int
  position : Int
  deriving DecidableEq, Repr

/-- What `ReadAt` of the UNIX stub delivers from an existing position: a short count at the end
of the file. -/
def Read.block (file : List (BitVec 8)) (r : Read) : Block (BitVec 8) where
  addr := r.into
  data := (file.drop r.position.toNat).take PageSize

/-- The loop for one segment. The file position is computed in unsigned arithmetic and passed as
an `int`. -/
def segmentReads (seg : Segment) (fs : List Int) : List Read :=
  if 0 < seg.size.toInt then
    fs.zipIdx.map fun p =>
      { into := seg.virtualAddr.toInt + p.1 * PageSize
        position := (seg.inFileAddr + BitVec.ofNat 32 (p.2 * PageSize)).toInt }
  else []

/-- The reads of both loops, in order. -/
def loadReads (h : NoffHeader) (fs : List Int) : List Read :=
  segmentReads h.code fs ++ segmentReads h.initData fs

/-- The reads that are performed: the `ASSERT` in `Lseek` stops the machine at the first
negative position. -/
def performed (rs : List Read) : List Read := rs.takeWhile (fun r => decide (0 ≤ r.position))

/-- Both loops run to their end. -/
def Completes (rs : List Read) : Prop := ∀ r ∈ rs, 0 ≤ r.position

instance (rs : List Read) : Decidable (Completes rs) := List.decidableBAll _ _

/-- What the loops write. -/
def loadBlocks (h : NoffHeader) (file : List (BitVec 8)) (sp : AddrSpace) :
    List (Block (BitVec 8)) :=
  (performed (loadReads h (frames sp.pageTable))).map (Read.block file)

/-- Memory after the loops. -/
def load (h : NoffHeader) (file : List (BitVec 8)) (sp : AddrSpace) (mem : Memory) : Memory :=
  writeAll mem (loadBlocks h file sp)

theorem performed_of_completes {rs : List Read} (h : Completes rs) : performed rs = rs :=
  List.takeWhile_eq_self_iff.mpr (fun r hr => decide_eq_true (h r hr))

/-! ## Isolation -/

/-- The loader writes only bytes of `mainMemory` in frames it has just allocated, and no byte in
a frame of another live address space changes. -/
def Isolated (s : Frames.State) (h : NoffHeader) (file : List (BitVec 8)) (mem : Memory) : Prop :=
  let sp := (allocate h s.gPhysPageBitMap).1
  (∀ a : Int, (∃ b ∈ loadBlocks h file sp, b.Covers a) →
    0 ≤ a ∧ a < MemorySize ∧ a / PageSize ∈ frames sp.pageTable) ∧
  (∀ other ∈ s.live, ∀ a : Int, a / PageSize ∈ frames other.pageTable →
    load h file sp mem a = mem a)

/-- Where page `i` of a segment is put: its address is not translated. -/
def start (seg : Segment) (fs : List Int) (i : Nat) : Int :=
  seg.virtualAddr.toInt + fs.getD i 0 * PageSize

/-- Where page `i` of a segment is in the file, as an `int`. -/
def position (seg : Segment) (i : Nat) : Int :=
  (seg.inFileAddr + BitVec.ofNat 32 (i * PageSize)).toInt

/-- The loop of a segment, by the numbers of the pages. -/
theorem segmentReads_eq (seg : Segment) (fs : List Int) :
    segmentReads seg fs = if 0 < seg.size.toInt then
      (List.range fs.length).map fun i => ⟨start seg fs i, position seg i⟩ else [] := by
  unfold segmentReads
  congr 1
  apply List.ext_getElem?
  intro i
  rw [List.getElem?_map, List.getElem?_map, List.getElem?_zipIdx]
  by_cases hi : i < fs.length
  · simp [start, position, hi, List.getD_eq_getElem?_getD]
  · rw [List.getElem?_eq_none (by omega), List.getElem?_eq_none (by simpa using hi)]
    rfl

/-- The loop of a segment runs to its end. -/
theorem completes_segmentReads {seg : Segment} {fs : List Int} :
    Completes (segmentReads seg fs) ↔
      (0 < seg.size.toInt → ∀ i < fs.length, 0 ≤ position seg i) := by
  rw [segmentReads_eq, Completes]
  split <;> simp_all

/-- The loop of a segment gets to page `i`: no position up to there is negative. -/
def Reaches (seg : Segment) (i : Nat) : Prop :=
  0 < seg.size.toInt ∧ ∀ j < i + 1, 0 ≤ position seg j

instance (seg : Segment) (i : Nat) : Decidable (Reaches seg i) :=
  inferInstanceAs (Decidable (_ ∧ _))

/-- What of page `i` is in a file of `n` bytes starts and ends in the frames, inside
`mainMemory`. -/
def PageInside (n : Nat) (fs : List Int) (seg : Segment) (i : Nat) : Prop :=
  let length := min PageSize (n - (position seg i).toNat)
  0 < length → start seg fs i / PageSize ∈ fs ∧ (start seg fs i + length - 1) / PageSize ∈ fs ∧
    start seg fs i + length ≤ MemorySize

instance (n : Nat) (fs : List Int) (seg : Segment) (i : Nat) : Decidable (PageInside n fs seg i) :=
  inferInstanceAs (Decidable (_ → _))

/-- Each page that a loop gets to is put into the frames `fs`, the first clear bits of the bitmap.
The loop of the data begins if the loop of the code has run to its end. -/
structure KeepsInside (h : NoffHeader) (fs : List Int) (n : Nat) : Prop where
  code : ∀ i < fs.length, Reaches h.code i → PageInside n fs h.code i
  data : (0 < h.code.size.toInt → ∀ i < fs.length, 0 ≤ position h.code i) →
    ∀ i < fs.length, Reaches h.initData i → PageInside n fs h.initData i

/-- What is performed of two loops. -/
theorem mem_performed_append {rs rs' : List Read} {r : Read} :
    r ∈ performed (rs ++ rs') ↔ r ∈ performed rs ∨ Completes rs ∧ r ∈ performed rs' := by
  induction rs with
  | nil => simp [performed, Completes]
  | cons first rest ih =>
    unfold performed Completes at ih ⊢
    by_cases hfirst : 0 ≤ first.position
    · simp [hfirst, ih, or_assoc]
    · simp [hfirst]

/-- What is performed of the first `n` calls of a loop. -/
theorem mem_performed_range {read : Nat → Read} {n : Nat} {r : Read} :
    r ∈ performed ((List.range n).map read) ↔
      ∃ i < n, (∀ j < i + 1, 0 ≤ (read j).position) ∧ r = read i := by
  induction n with
  | zero => simp [performed]
  | succ n ih =>
    rw [List.range_succ, List.map_append, mem_performed_append, ih]
    constructor
    · rintro (⟨i, hi, hall⟩ | ⟨hall, hr⟩)
      · exact ⟨i, by omega, hall⟩
      · simp only [Completes, List.forall_mem_map, List.mem_range] at hall
        simp only [performed, List.map_cons, List.map_nil, List.takeWhile_cons] at hr
        split at hr
        · rename_i hlast
          refine ⟨n, by omega, fun j hj => ?_, by simpa using hr⟩
          rcases Nat.lt_succ_iff_lt_or_eq.mp hj with hj | rfl
          · exact hall j hj
          · simpa using hlast
        · cases hr
    · rintro ⟨i, hi, hall, rfl⟩
      rcases Nat.lt_succ_iff_lt_or_eq.mp hi with hi | rfl
      · exact .inl ⟨i, hi, hall, rfl⟩
      · refine .inr ⟨?_, ?_⟩
        · simp only [Completes, List.forall_mem_map, List.mem_range]
          exact fun j hj => hall j (by omega)
        · simp [performed, hall i (by omega)]

/-- What a read writes is in `mainMemory`, in the frames. -/
def Inside (file : List (BitVec 8)) (fs : List Int) (r : Read) : Prop :=
  ∀ a, (r.block file).Covers a → 0 ≤ a ∧ a < MemorySize ∧ a / PageSize ∈ fs

/-- A page-sized block lies in the frame it starts in and the frame it ends in. -/
theorem pageInside_iff {file : List (BitVec 8)} {fs : List Int} (hfs : ∀ f ∈ fs, 0 ≤ f)
    (seg : Segment) (i : Nat) :
    PageInside file.length fs seg i ↔ Inside file fs ⟨start seg fs i, position seg i⟩ := by
  unfold PageInside Inside Block.Covers
  simp only [Read.block, List.length_take, List.length_drop]
  have hlen : min PageSize (file.length - (position seg i).toNat) ≤ PageSize := Nat.min_le_left ..
  generalize min PageSize (file.length - (position seg i).toNat) = n at hlen ⊢
  generalize start seg fs i = into
  simp only [PageSize, SectorSize] at hlen ⊢
  constructor
  · intro h a hcovers
    obtain ⟨hlo, hhi⟩ := hcovers
    obtain ⟨hfirst, hlast, hend⟩ := h (by omega)
    have hpos := hfs _ hfirst
    refine ⟨by omega, by omega, ?_⟩
    -- at most 512 bytes: the frame of `a` is the first or the last one
    by_cases hsame : a / (512 : Nat) = into / (512 : Nat)
    · rwa [hsame]
    · rwa [show a / ((512 : Nat) : Int) = (into + n - 1) / ((512 : Nat) : Int) by omega]
  · intro h hn
    have hfirst := h into ⟨by omega, by omega⟩
    have hlast := h (into + n - 1) ⟨by omega, by omega⟩
    exact ⟨hfirst.2.2, hlast.2.2, by omega⟩

/-- The reads of one loop, by the numbers of the pages. -/
theorem inside_segment_iff (file : List (BitVec 8)) {fs : List Int} (hfs : ∀ f ∈ fs, 0 ≤ f)
    (seg : Segment) :
    (∀ r ∈ performed (segmentReads seg fs), Inside file fs r) ↔
      ∀ i < fs.length, Reaches seg i → PageInside file.length fs seg i := by
  rw [segmentReads_eq]
  split
  · rename_i hsize
    constructor
    · intro hall i hi hreach
      apply (pageInside_iff hfs seg i).mpr
      exact hall _ (mem_performed_range.mpr ⟨i, hi, hreach.2, rfl⟩)
    · intro hall r hr
      obtain ⟨i, hi, hreach, rfl⟩ := mem_performed_range.mp hr
      exact (pageInside_iff hfs seg i).mp (hall i hi ⟨hsize, hreach⟩)
  · rename_i hsize
    exact iff_of_true (fun r hr => by cases hr) fun i _ hreach => absurd hreach.1 hsize

/-- The reads of both loops, by the numbers of the pages. -/
theorem keepsInside_iff {h : NoffHeader} {file : List (BitVec 8)} {fs : List Int}
    (hfs : ∀ f ∈ fs, 0 ≤ f) :
    KeepsInside h fs file.length ↔ ∀ r ∈ performed (loadReads h fs), Inside file fs r := by
  have hcode := inside_segment_iff file hfs h.code
  have hdata := inside_segment_iff file hfs h.initData
  simp only [loadReads, mem_performed_append, or_imp, forall_and, completes_segmentReads]
  constructor
  · rintro ⟨hfirst, hsecond⟩
    exact ⟨hcode.mpr hfirst, fun r hr => hdata.mpr (hsecond hr.1) r hr.2⟩
  · rintro ⟨hfirst, hsecond⟩
    exact ⟨hcode.mp hfirst, fun hends => hdata.mp fun r hr => hsecond r ⟨hends, hr⟩⟩

/-- Isolation comes down to where the pages are put. -/
theorem isolated_iff {s : Frames.State} (hown : Frames.ownership s) (h : NoffHeader)
    (file : List (BitVec 8)) (mem : Memory) :
    Isolated s h file mem ↔
      KeepsInside h (newFrames h s.gPhysPageBitMap) file.length := by
  have hnonneg : ∀ f ∈ newFrames h s.gPhysPageBitMap, 0 ≤ f := by
    intro f hf
    obtain ⟨j, -, rfl⟩ := List.mem_map.mp hf
    omega
  rw [keepsInside_iff hnonneg]
  simp only [Isolated, load, loadBlocks, allocate_frames, List.mem_map,
    exists_exists_and_eq_and]
  constructor
  · rintro ⟨hin, -⟩ r hr a ha
    exact hin a ⟨r, hr, ha⟩
  · intro hall
    refine ⟨fun a ⟨r, hr, ha⟩ => hall r hr a ha,
      fun other hother a ha => writeAll_of_not_covered ?_ mem⟩
    intro b hb hcovers
    obtain ⟨r, hr, rfl⟩ := List.mem_map.mp hb
    have hnew := (hall r hr a hcovers).2.2
    rw [← allocate_frames] at hnew
    exact Frames.not_held_of_allocated hnew ((hown.held_iff _).mpr
      (List.mem_flatten.mpr ⟨_, List.mem_map_of_mem hother, ha⟩))

/-- In every reachable state of the frame manager, for every header and file, the load is
isolated exactly when each page that the loops get to is put into frames that the construction
takes from the bitmap. -/
theorem loader_isolated_iff {raw : Nat → BitVec 32} {trace : List Unit} {s : Frames.State}
    (hrun : Run Frames.step anyAct (Frames.initial raw) trace s) (h : NoffHeader)
    (file : List (BitVec 8)) (mem : Memory) :
    Isolated s h file mem ↔
      KeepsInside h (newFrames h s.gPhysPageBitMap) file.length :=
  isolated_iff (Frames.run_ownership hrun) h file mem

/-- The words of a segment in the header. -/
def segmentWords (seg : Segment) : List (BitVec 32) := [seg.virtualAddr, seg.inFileAddr, seg.size]

/-- The forty bytes of a header as the host stores them. -/
def headerBytes (host : Host) (h : NoffHeader) : List (BitVec 8) :=
  (h.noffMagic :: (segmentWords h.code ++ segmentWords h.initData ++
    segmentWords h.uninitData)).flatMap (hostWordBytes host)

/-- A program with one byte of code loads in isolation on the empty machine. -/
theorem loader_isolated_small :
    Isolated (Frames.initial fun _ => 0) Frames.smallHeader
      (headerBytes .littleEndian Frames.smallHeader ++ [1]) (fun _ => 0) := by
  have hrun : Run Frames.step anyAct (Frames.initial fun _ => 0) [] (Frames.initial fun _ => 0) :=
    .refl
  refine (loader_isolated_iff hrun _ _ _).mpr ⟨?_, ?_⟩ <;> decide +kernel

/-- The segments of the header lie inside the address space. -/
def SegmentsInside (h : NoffHeader) : Prop :=
  ∀ seg ∈ [h.code, h.initData, h.uninitData], 0 ≤ seg.virtualAddr.toInt ∧ 0 ≤ seg.size.toInt ∧
    seg.virtualAddr.toInt + seg.size.toInt ≤ h.numPages * PageSize

instance (h : NoffHeader) : Decidable (SegmentsInside h) := List.decidableBAll _ _

/-- 1600 bytes of code and 100 bytes of initialised data behind them. -/
def spillHeader : NoffHeader :=
  ⟨NOFFMAGIC, ⟨0, 40, 1600⟩, ⟨1600, 1640, 100⟩, ⟨1700, 0, 0⟩⟩

/-- The executable with that header. -/
def spillFile : List (BitVec 8) :=
  headerBytes .littleEndian spillHeader ++ List.replicate 1700 1

/-- After a first process has left a gap below a second one, loading the program writes its data
into a frame of the second process: the six frames are 0, 1, 2, 6, 7, 8, and the data meant for
virtual address 1600 goes to physical address 1600, in frame 3. -/
theorem loader_spills_into_neighbour :
    ¬ ∀ (raw : Nat → BitVec 32) (trace : List Unit) (s : Frames.State) (host : Host)
      (file : List (BitVec 8)) (h : NoffHeader) (mem : Memory),
      Run Frames.step anyAct (Frames.initial raw) trace s → readHeader host file = some h →
        SegmentsInside h → Isolated s h file mem := by
  intro hall
  have hrun : (execute Frames.step (Frames.initial fun _ => 0)
      [.construct Frames.smallHeader, .construct Frames.smallHeader, .destroy 0]).map
        (fun r => (r.1, newFrames spillHeader r.2.gPhysPageBitMap)) =
          some ([], [0, 1, 2, 6, 7, 8]) := by decide +kernel
  obtain ⟨s, hexec, hframes⟩ := execute_observed
    (fun s : Frames.State => newFrames spillHeader s.gPhysPageBitMap) hrun
  have hs : Run Frames.step anyAct (Frames.initial fun _ => 0) [] s :=
    run_of_execute hexec (allowed_anyAct _ _)
  have hheader : readHeader .littleEndian spillFile = some spillHeader := by decide +kernel
  have hiso := hall _ _ s _ _ _ (fun _ => 0) hs hheader (by decide +kernel)
  rw [isolated_iff (Frames.run_ownership hs), hframes] at hiso
  exact absurd (hiso.data (by decide +kernel)) (by decide +kernel)

end Nachos.Loader
