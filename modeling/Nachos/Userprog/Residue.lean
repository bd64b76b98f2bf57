import Nachos.Userprog.Loader

/-!
# What a new process can see of old memory

The first memory image of a process is what `Machine::Translate` reaches through its page table
after the load. The loops write some bytes of the frames and leave the others as earlier
processes left them. `no_residue_iff` says when nothing is left: every byte of an existing frame
is covered by a read, and the last byte read into uninitialised data is zero.
-/

namespace Nachos.Loader

open BlockWrite AddrSpace BitMap

/-- The byte a process sees at a virtual address, when the translation succeeds. -/
def visible (sp : AddrSpace) (mem : Memory) (v : BitVec 32) : Option (BitVec 8) :=
  match translate (linear sp.pageTable) v 1 false with
  | .ok physAddr _ => some (mem physAddr)
  | _ => none

/-- The address is in the uninitialised-data segment. -/
def InUninitData (h : NoffHeader) (a : Int) : Prop :=
  h.uninitData.virtualAddr.toInt ≤ a ∧
    a < h.uninitData.virtualAddr.toInt + h.uninitData.size.toInt

/-- The image of a process that starts does not depend on memory before the load, and its
uninitialised data is zero. -/
def NoResidue (h : NoffHeader) (file : List (BitVec 8)) (bm : BitMap) : Prop :=
  let sp := (allocate h bm).1
  Completes (loadReads h (frames sp.pageTable)) →
    ∀ (mem mem' : Memory) (v : BitVec 32), v.toNat < sp.numPages * PageSize →
      visible sp (load h file sp mem) v = visible sp (load h file sp mem') v ∧
      (InUninitData h v.toNat → visible sp (load h file sp mem) v = some 0)

/-- Byte `o` of every frame the construction takes is covered by a read of the loops if the frame
exists; in uninitialised data the frame exists and the last read there delivers a zero. -/
def Determined (h : NoffHeader) (file : List (BitVec 8)) (bm : BitMap) : Prop :=
  let rs := loadReads h (newFrames h bm)
  Completes rs →
    ∀ (j : Nat) (f : Int), (newFrames h bm)[j]? = some f → ∀ o < PageSize,
      (f < NumPhysPages → ∃ r ∈ rs, (r.block file).Covers (f * PageSize + o)) ∧
      (InUninitData h ((j * PageSize + o : Nat) : Int) → f < NumPhysPages ∧
        last (rs.map (Read.block file)) (f * PageSize + o) = some 0)

variable {h : NoffHeader} {bm : BitMap} {f : Int} {file : List (BitVec 8)}

theorem newFrames_length (h : NoffHeader) (bm : BitMap) :
    (newFrames h bm).length = (allocate h bm).1.numPages := by
  rw [← allocate_frames, frames, List.length_map, numPages]

/-- Through a new page table a virtual address reaches the byte with its offset in its frame. -/
theorem visible_new (hbits : bm.numBits = 256) {j o : Nat}
    (hf : (newFrames h bm)[j]? = some f) (ho : o < PageSize) {v : BitVec 32}
    (hv : v.toNat = j * PageSize + o) (mem : Memory) :
    visible (allocate h bm).1 mem v =
      if f < NumPhysPages then some (mem (f * PageSize + o)) else none := by
  have hrange : 0 ≤ f ∧ f < bm.numBits := by
    obtain ⟨i, hi, rfl⟩ := List.mem_map.mp (List.mem_of_getElem? hf)
    have := (mem_clearBits.mp (List.mem_of_mem_take hi)).1
    omega
  have hentry : (allocate h bm).1.pageTable[j]? = some (newEntry j f) := by
    rw [allocate_getElem?, hf, Option.map_some]
  have hvpn : v.toNat / PageSize = j := by
    simp only [PageSize, SectorSize] at ho hv ⊢
    omega
  have hoff : v.toNat % PageSize = o := by
    simp only [PageSize, SectorSize] at ho hv ⊢
    omega
  have hframe : (BitVec.ofInt 32 f).toNat = f.toNat := by
    rw [BitVec.toNat_ofInt]
    omega
  simp only [visible, translate, linear, misaligned, hvpn, hoff, hentry, translateEntry,
    newEntry, hframe]
  by_cases hlt : f < NumPhysPages
  · have hle : ¬ NumPhysPages ≤ f.toNat := by omega
    have hmem : f.toNat * PageSize + o + 1 ≤ MemorySize := by
      simp only [MemorySize, NumPhysPages, PageSize, SectorSize] at ho hle ⊢
      omega
    have hcast : ((f.toNat * PageSize + o : Nat) : Int) = f * PageSize + o := by
      simp only [PageSize, SectorSize]
      omega
    simp [hlt, hle, hmem, hcast]
  · have hle : NumPhysPages ≤ f.toNat := by omega
    simp [hlt, hle]

theorem load_of_completes (hc : Completes (loadReads h (newFrames h bm)))
    (file : List (BitVec 8)) (mem : Memory) :
    load h file (allocate h bm).1 mem =
      writeAll mem ((loadReads h (newFrames h bm)).map (Read.block file)) := by
  rw [load, loadBlocks, allocate_frames, performed_of_completes hc]

instance nontrivial_byte : Nontrivial (BitVec 8) := ⟨0, 1, by decide⟩

/-- A covered byte is the same after both loads. -/
theorem load_congr {a : Int} (hc : Completes (loadReads h (newFrames h bm)))
    (hcover : ∃ r ∈ loadReads h (newFrames h bm), (r.block file).Covers a)
    (mem mem' : Memory) :
    load h file (allocate h bm).1 mem a =
      load h file (allocate h bm).1 mem' a := by
  rw [load_of_completes hc, load_of_completes hc]
  obtain ⟨r, hr, ha⟩ := hcover
  exact independent_iff.mpr ⟨_, List.mem_map_of_mem hr, ha⟩ mem mem'

/-- Every pair of a page and an offset is a virtual address of the process. -/
theorem exists_virtAddr (hbits : bm.numBits = 256) {j o : Nat}
    (hf : (newFrames h bm)[j]? = some f) (ho : o < PageSize) :
    ∃ v : BitVec 32, v.toNat = j * PageSize + o ∧
      v.toNat < (allocate h bm).1.numPages * PageSize := by
  have hj : j < (newFrames h bm).length := (List.getElem?_eq_some_iff.mp hf).1
  have hle := pagesGranted_le h bm
  have hclear : bm.clearBits.length ≤ bm.numBits := by
    simpa [BitMap.clearBits] using
      List.length_filter_le (fun i => !bm.bit i) (List.range bm.numBits)
  rw [newFrames_length, allocate_numPages] at hj
  have hv : (BitVec.ofNat 32 (j * PageSize + o)).toNat = j * PageSize + o := by
    simp only [PageSize, SectorSize, BitVec.toNat_ofNat] at ho ⊢
    omega
  refine ⟨BitVec.ofNat 32 (j * PageSize + o), hv, ?_⟩
  rw [hv, allocate_numPages]
  calc j * PageSize + o < (j + 1) * PageSize := by rw [Nat.add_mul]; omega
    _ ≤ _ := Nat.mul_le_mul_right _ hj

/-- An image that never depends on old memory is determined by the reads: two memories that
differ everywhere tell the covered bytes from the others. -/
theorem determined_of_noResidue (hbits : bm.numBits = 256) (hsame : NoResidue h file bm) :
    Determined h file bm := by
  simp only [NoResidue, allocate_frames] at hsame
  intro hc j f hf o ho
  obtain ⟨v, hv, hlt⟩ := exists_virtAddr hbits hf ho
  refine ⟨fun hexists => ?_, fun huninit => ?_⟩
  · have hind : ∀ m m' : Memory,
        writeAll m ((loadReads h (newFrames h bm)).map (Read.block file))
            (f * PageSize + o) =
          writeAll m' ((loadReads h (newFrames h bm)).map (Read.block file))
            (f * PageSize + o) := by
      intro m m'
      have heq := (hsame hc m m' v hlt).1
      rw [visible_new hbits hf ho hv, visible_new hbits hf ho hv, if_pos hexists,
        if_pos hexists, load_of_completes hc, load_of_completes hc] at heq
      exact Option.some.inj heq
    obtain ⟨b, hb, hcovers⟩ := independent_iff.mp hind
    obtain ⟨r, hr, rfl⟩ := List.mem_map.mp hb
    exact ⟨r, hr, hcovers⟩
  · -- memory full of ones shows that the zero comes from the file
    have hzero := (hsame hc (fun _ => 1) (fun _ => 1) v hlt).2 (by rwa [hv])
    rw [visible_new hbits hf ho hv, load_of_completes hc, writeAll_apply] at hzero
    split at hzero
    · rename_i hexists
      refine ⟨hexists, ?_⟩
      cases hl : last ((loadReads h (newFrames h bm)).map (Read.block file))
          (f * PageSize + o) with
      | none => rw [hl] at hzero; exact absurd hzero (by decide)
      | some b => rw [hl] at hzero; exact hzero
    · cases hzero

/-- Conversely, reads that determine every existing byte leave nothing of old memory. -/
theorem noResidue_of_determined (hbits : bm.numBits = 256) (hdet : Determined h file bm) :
    NoResidue h file bm := by
  simp only [NoResidue, allocate_frames]
  intro hc mem mem' v hv
  rw [← newFrames_length] at hv
  have hj : v.toNat / PageSize < (newFrames h bm).length :=
    Nat.div_lt_of_lt_mul (by rwa [Nat.mul_comm] at hv)
  have hf := List.getElem?_eq_getElem hj
  have ho : v.toNat % PageSize < PageSize := Nat.mod_lt _ (by decide)
  have hsplit : v.toNat = v.toNat / PageSize * PageSize + v.toNat % PageSize :=
    (Nat.div_add_mod' _ _).symm
  obtain ⟨hcover, hzero⟩ := hdet hc _ _ hf _ ho
  rw [visible_new hbits hf ho hsplit, visible_new hbits hf ho hsplit]
  refine ⟨?_, fun huninit => ?_⟩
  · split
    · rename_i hexists
      exact congrArg some (load_congr hc (hcover hexists) mem mem')
    · rfl
  · obtain ⟨hexists, hlast⟩ := hzero (by rwa [← hsplit])
    rw [if_pos hexists, load_of_completes hc, writeAll_apply, hlast]
    rfl

/-- For every header, file and frame bitmap, a new process sees nothing of the memory before its
load exactly when the reads of the loops determine its image. -/
theorem no_residue_iff (h : NoffHeader) (file : List (BitVec 8)) (bm : BitMap)
    (hbits : bm.numBits = 256) : NoResidue h file bm ↔ Determined h file bm :=
  ⟨determined_of_noResidue hbits, noResidue_of_determined hbits⟩

/-- 512 bytes of code, no data, no bss: three pages with the stack. -/
def fullHeader : NoffHeader :=
  ⟨NOFFMAGIC, ⟨0, 40, 512⟩, ⟨0, 0, 0⟩, ⟨0, 0, 0⟩⟩

/-- An executable padded so that the file has a byte for every byte of the three pages. -/
def fullFile : List (BitVec 8) := headerBytes .littleEndian fullHeader ++ List.replicate 1536 1

/-- Loaded from the padded file, the process sees only bytes of the file. -/
theorem no_residue_full :
    (BitMap.new 256 fun _ => 0).numBits = 256 ∧
      NoResidue fullHeader fullFile (BitMap.new 256 fun _ => 0) := by
  refine ⟨new_numBits _ _, (no_residue_iff _ _ _ (new_numBits _ _)).mpr ?_⟩
  have hframes : newFrames fullHeader (BitMap.new 256 fun _ => 0) = [0, 1, 2] := by
    decide +kernel
  have hreads : loadReads fullHeader [0, 1, 2] = [⟨0, 40⟩, ⟨512, 552⟩, ⟨1024, 1064⟩] := by
    decide +kernel
  have hfull : ∀ r ∈ [(⟨0, 40⟩ : Read), ⟨512, 552⟩, ⟨1024, 1064⟩],
      (r.block fullFile).data.length = 512 := by decide +kernel
  simp only [Determined, hframes, hreads]
  intro _ j f hf o ho
  simp only [PageSize, SectorSize] at ho ⊢
  have huninit : ¬ InUninitData fullHeader ((j * 512 + o : Nat) : Int) := by
    simp [InUninitData, fullHeader]
  have hread : (⟨f * 512, 40 + 512 * f⟩ : Read) ∈
      [(⟨0, 40⟩ : Read), ⟨512, 552⟩, ⟨1024, 1064⟩] := by
    have hmem : f = 0 ∨ f = 1 ∨ f = 2 := by simpa using List.mem_of_getElem? hf
    rcases hmem with rfl | rfl | rfl <;> decide
  refine ⟨fun _ => ⟨_, hread, ?_, ?_⟩, fun h => absurd h huninit⟩
  · show f * 512 ≤ f * 512 + o
    omega
  · rw [hfull _ hread]
    show f * 512 + (o : Int) < f * 512 + (512 : Nat)
    omega

/-- One byte of code and four bytes of uninitialised data on the second page. -/
def bssHeader : NoffHeader :=
  ⟨NOFFMAGIC, ⟨0, 40, 1⟩, ⟨0, 0, 0⟩, ⟨512, 0, 4⟩⟩

/-- The executable `coff2noff` writes for it: the header and the code byte. -/
def bssFile : List (BitVec 8) := headerBytes .littleEndian bssHeader ++ [1]

/-- No read reaches the uninitialised data of this program, so the process finds there what the
previous owner of the frame left. -/
theorem bss_keeps_old_memory :
    ¬ ∀ (host : Host) (file : List (BitVec 8)) (h : NoffHeader) (bm : BitMap),
      readHeader host file = some h → bm.numBits = 256 → NoResidue h file bm := by
  intro hall
  have hheader : readHeader .littleEndian bssFile = some bssHeader := by decide +kernel
  have hres := determined_of_noResidue (new_numBits _ _)
    (hall _ _ _ (BitMap.new 256 fun _ => 0) hheader (new_numBits _ _))
  have hframes : newFrames bssHeader (BitMap.new 256 fun _ => 0) = [0, 1, 2] := by
    decide +kernel
  simp only [Determined, hframes] at hres
  have hlast := (hres (by decide +kernel) 1 1 rfl 0 (by decide)).2
    ⟨by decide, by decide⟩
  exact absurd hlast.2 (by decide +kernel)

end Nachos.Loader
