import Nachos.Userprog.Bitmap
import Nachos.Machine.Translate

/-!
# Address spaces: headers, frames, destruction

The parts of `userprog/addrspace.cc` that decide which frames an address space gets: the size
computation from the NOFF header, the section of `AddrSpace::AddrSpace(char*)` between
`addrLock->P()` and `addrLock->V()`, and `AddrSpace::~AddrSpace`. `allocate_frames` says that a
new page table holds the least clear bits of the bitmap, `destroy_eq_some` that the destructor
clears exactly the frames of the table.
-/

namespace Nachos

/-- A `Segment` of `bin/noff.h`; the fields are C `int`s. -/
structure Segment where
  virtualAddr : BitVec 32
  inFileAddr : BitVec 32
  size : BitVec 32
  deriving DecidableEq, Repr

/-- A `NoffHeader` of `bin/noff.h`. -/
structure NoffHeader where
  noffMagic : BitVec 32
  code : Segment
  initData : Segment
  uninitData : Segment
  deriving DecidableEq, Repr

/-- `NOFFMAGIC` of `bin/noff.h`. -/
def NOFFMAGIC : BitVec 32 := 0xbadfad#32

/-- `UserStackSize` of `addrspace.h`. -/
def UserStackSize : BitVec 32 := 1024#32

/-- `size` of the constructor: the sum wraps around at 32 bits. -/
def NoffHeader.size (h : NoffHeader) : BitVec 32 :=
  h.code.size + h.initData.size + h.uninitData.size + UserStackSize

/-- The pages a process needs: `numPages = divRoundUp(size, PageSize)`. -/
def NoffHeader.numPages (h : NoffHeader) : Nat := divRoundUp h.size.toNat PageSize

/-- An `AddrSpace`; `numPages` is the length of its page table. -/
structure AddrSpace where
  pageTable : List TranslationEntry
  deriving DecidableEq, Repr

namespace AddrSpace

/-- `numPages` of a constructed address space. -/
def numPages (sp : AddrSpace) : Nat := sp.pageTable.length

/-- The entry the constructor writes for virtual page `i`. -/
def newEntry (i : Nat) (slot : Int) : TranslationEntry where
  virtualPage := i
  physicalPage := slot
  valid := true
  readOnly := false
  use := false
  dirty := false

/-- The loop that sets up the translation, from virtual page `i` on. -/
def setUpTranslation : Nat → Nat → BitMap → List TranslationEntry × BitMap
  | 0, _, bm => ([], bm)
  | n + 1, i, bm =>
    let (slot, bm') := bm.findFreeSlot
    let (rest, bm'') := setUpTranslation n (i + 1) bm'
    (newEntry i slot :: rest, bm'')

/-- `numPages` after the memory check: a process that does not fit gets no page. The comparison
is unsigned; `numclear` is never negative. -/
def pagesGranted (h : NoffHeader) (bm : BitMap) : Nat :=
  if bm.numClear < h.numPages then 0 else h.numPages

/-- The section of `AddrSpace::AddrSpace(char*)` between `addrLock->P()` and the last
`addrLock->V()`. -/
def allocate (h : NoffHeader) (bm : BitMap) : AddrSpace × BitMap :=
  let result := setUpTranslation (pagesGranted h bm) 0 bm
  (⟨result.1⟩, result.2)

/-- `AddrSpace::~AddrSpace`; `none` is a failing `ASSERT` in `BitMap::Clear`. -/
def destroy (sp : AddrSpace) (bm : BitMap) : Option BitMap :=
  sp.pageTable.foldlM (fun bm e => bm.clear e.physicalPage) bm

/-! ## Construction -/

theorem pagesGranted_le (h : NoffHeader) (bm : BitMap) :
    pagesGranted h bm ≤ bm.clearBits.length := by
  rw [← bm.numClear_eq_length, pagesGranted]
  split <;> omega

/-- The loop takes the least clear bits, in order, and marks them. -/
theorem setUpTranslation_eq {n i : Nat} {bm : BitMap} (hn : n ≤ bm.clearBits.length) :
    (setUpTranslation n i bm).1 =
        ((bm.clearBits.take n).zipIdx i).map (fun p => newEntry p.2 p.1) ∧
      (setUpTranslation n i bm).2.numBits = bm.numBits ∧
      (setUpTranslation n i bm).2.clearBits = bm.clearBits.drop n ∧
      ∀ j, (setUpTranslation n i bm).2.bit j = (decide (j ∈ bm.clearBits.take n) || bm.bit j) := by
  induction n generalizing i bm with
  | zero => simp [setUpTranslation]
  | succ n ih =>
    cases hc : bm.clearBits with
    | nil => simp [hc] at hn
    | cons f rest =>
      have hf : f < bm.numBits := (BitMap.mem_clearBits.mp (hc ▸ List.mem_cons_self)).1
      have hrest := BitMap.clearBits_markBit hc
      obtain ⟨htable, hbits, hclear, hbit⟩ := @ih (i + 1) (bm.markBit f)
        (by rw [hrest]; simpa [hc] using hn)
      simp only [setUpTranslation, BitMap.findFreeSlot_cons hc]
      rw [hrest] at htable hclear hbit
      refine ⟨by simp [htable], hbits, by simpa using hclear, fun j => ?_⟩
      rw [hbit, BitMap.bit_markBit hf]
      by_cases hj : j = f <;> simp [hj]

/-- The frames a construction will hand out: as many of the least clear bits as it is granted. -/
def newFrames (h : NoffHeader) (bm : BitMap) : List Int :=
  (bm.clearBits.take (pagesGranted h bm)).map (fun f : Nat => (f : Int))

/-- The entries of a new page table. -/
theorem allocate_getElem? (h : NoffHeader) (bm : BitMap) (k : Nat) :
    (allocate h bm).1.pageTable[k]? = ((newFrames h bm)[k]?).map (newEntry k) := by
  have hs := (setUpTranslation_eq (i := 0) (pagesGranted_le h bm)).1
  simp only [allocate, hs, newFrames, List.getElem?_map, List.getElem?_zipIdx]
  cases (bm.clearBits.take (pagesGranted h bm))[k]? <;> simp

/-- The frames of a new address space are the least clear bits. -/
theorem allocate_frames (h : NoffHeader) (bm : BitMap) :
    frames (allocate h bm).1.pageTable = newFrames h bm := by
  apply List.ext_getElem?
  intro k
  rw [frames, List.getElem?_map, allocate_getElem?]
  cases (newFrames h bm)[k]? <;> rfl

@[simp] theorem allocate_numBits (h : NoffHeader) (bm : BitMap) :
    (allocate h bm).2.numBits = bm.numBits := by
  obtain ⟨-, hbits, -, -⟩ := setUpTranslation_eq (i := 0) (pagesGranted_le h bm)
  rw [allocate, hbits]

/-- Construction marks the frames of the new address space and no other bit. -/
theorem allocate_bit (h : NoffHeader) (bm : BitMap) (j : Nat) :
    (allocate h bm).2.bit j =
      (decide (j ∈ bm.clearBits.take (pagesGranted h bm)) || bm.bit j) := by
  obtain ⟨-, -, -, hbit⟩ := setUpTranslation_eq (i := 0) (pagesGranted_le h bm)
  rw [allocate, hbit]

theorem allocate_numPages (h : NoffHeader) (bm : BitMap) :
    (allocate h bm).1.numPages = pagesGranted h bm := by
  have hl := congrArg List.length (allocate_frames h bm)
  have hle := pagesGranted_le h bm
  simp only [frames, newFrames, List.length_map, List.length_take] at hl
  rw [numPages, hl]
  omega

-- From here on construction is known by the lemmas above only.
attribute [irreducible] allocate

/-! ## Destruction -/

theorem foldlM_clear {table : List TranslationEntry} {bm : BitMap}
    (hrange : ∀ f ∈ frames table, 0 ≤ f ∧ f < bm.numBits) :
    ∃ bm', table.foldlM (fun bm e => bm.clear e.physicalPage) bm = some bm' ∧
      bm'.numBits = bm.numBits ∧
      ∀ j : Nat, bm'.bit j = (!decide ((j : Int) ∈ frames table) && bm.bit j) := by
  induction table generalizing bm with
  | nil => exact ⟨bm, rfl, rfl, fun j => by simp [frames]⟩
  | cons e table ih =>
    have he : 0 ≤ e.physicalPage ∧ e.physicalPage < bm.numBits :=
      hrange e.physicalPage (by simp [frames])
    have hclear : bm.clear e.physicalPage = some (bm.clearBit e.physicalPage.toNat) := by
      simp [BitMap.clear, he]
    have hlt : e.physicalPage.toNat < bm.numBits := by omega
    have htail : ∀ f ∈ frames table, 0 ≤ f ∧ f < (bm.clearBit e.physicalPage.toNat).numBits :=
      fun f hf => hrange f (List.mem_cons_of_mem _ hf)
    obtain ⟨bm', hfold, hbits, hbit⟩ := ih htail
    refine ⟨bm', by simp [List.foldlM_cons, hclear, hfold], hbits, fun j => ?_⟩
    have hj : j = e.physicalPage.toNat ↔ (j : Int) = e.physicalPage := by omega
    rw [hbit, BitMap.bit_clearBit hlt]
    simp only [frames, List.map_cons, List.mem_cons, hj]
    by_cases hje : (j : Int) = e.physicalPage <;> simp [hje]

/-- When its frames are bits of the bitmap, the destructor runs through and clears exactly
them. -/
theorem destroy_eq_some {sp : AddrSpace} {bm : BitMap}
    (hrange : ∀ f ∈ frames sp.pageTable, 0 ≤ f ∧ f < bm.numBits) :
    ∃ bm', sp.destroy bm = some bm' ∧ bm'.numBits = bm.numBits ∧
      ∀ j : Nat, bm'.bit j = (!decide ((j : Int) ∈ frames sp.pageTable) && bm.bit j) :=
  foldlM_clear hrange

end AddrSpace
end Nachos
