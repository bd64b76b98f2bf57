import Nachos.Library.WordBytes
import Nachos.Machine.Translate
import Nachos.Userprog.Bitmap

/-!
# The disk, file headers and open files

`FileHeader` and `OpenFile` of `filesys/filehdr.cc` and `filesys/openfile.cc` in the build with
`FILESYS`, over a disk of sectors. Headers are written to the disk as they are in memory. An open
file is known here by its header, which it read when it was opened. Memory that `new` delivers
holds anything (`raw`).
-/

namespace Nachos.Filesys

open WordBytes Function

/-- `NumSectors` of `machine/disk.h`. -/
def NumSectors : Nat := 1024

/-- `NumDirect` of `filehdr.h`. -/
def NumDirect : Nat := (SectorSize - 2 * 4) / 4

/-- `MaxFileSize` of `filehdr.h`. -/
def MaxFileSize : Nat := NumDirect * SectorSize

/-- The contents of the sectors. Only the first `SectorSize` bytes of each mean anything. -/
abbrev Disk := Int → Bytes

/-- Why an operation does not return. -/
inductive Failure where
  /-- The assertion on the sector number in `Disk::ReadRequest` and `Disk::WriteRequest`. -/
  | disk
  /-- An assertion on the bit number in `BitMap`. -/
  | bitmap
  /-- The assertion in `FileHeader::Deallocate`. -/
  | deallocate
  /-- The assertions in the constructor of `FileSystem` that there is space for its files. -/
  | format
  /-- An index outside an array. -/
  | bounds
  /-- A sum that does not fit in an `int`. -/
  | overflow
  deriving DecidableEq, Repr

theorem ok_bind {α β : Type} (a : α) (f : α → Except Failure β) : (Except.ok a >>= f) = f a := rfl

/-- `SynchDisk::ReadSector`. -/
def readSector (disk : Disk) (sector : Int) : Except Failure Bytes :=
  if 0 ≤ sector ∧ sector < NumSectors then .ok (disk sector) else .error .disk

/-- `SynchDisk::WriteSector`. -/
def writeSector (disk : Disk) (sector : Int) (data : Bytes) : Except Failure Disk :=
  if 0 ≤ sector ∧ sector < NumSectors then .ok (update disk sector data)
  else .error .disk

/-- The number of sectors for `n` bytes. -/
theorem divRoundUp_sectorSize (n : Nat) : divRoundUp n SectorSize = (n + 511) / 512 := by
  unfold divRoundUp SectorSize
  by_cases hrest : 0 < n % 512
  · rw [if_pos hrest]
    omega
  · rw [if_neg hrest]
    omega

/-! ## File headers -/

/-- `FileHeader`. Only the first `NumDirect` data sectors are there. -/
structure FileHeader where
  numBytes : Int
  numSectors : Int
  dataSectors : Nat → Int

namespace FileHeader

/-- The data sectors of the file. -/
def sectors (h : FileHeader) : List Int := (List.range h.numSectors.toNat).map h.dataSectors

/-- The words of a header in memory. -/
def words (h : FileHeader) : Nat → BitVec 32
  | 0 => BitVec.ofInt 32 h.numBytes
  | 1 => BitVec.ofInt 32 h.numSectors
  | i + 2 => BitVec.ofInt 32 (h.dataSectors i)

/-- The header in a sector. -/
def ofBytes (b : Bytes) : FileHeader where
  numBytes := (unpack b 0).toInt
  numSectors := (unpack b 1).toInt
  dataSectors := fun i => (unpack b (i + 2)).toInt

/-- `FileHeader::FetchFrom`. -/
def fetchFrom (disk : Disk) (sector : Int) : Except Failure FileHeader := do
  let b ← readSector disk sector
  pure (ofBytes b)

/-- `FileHeader::WriteBack`. -/
def writeBack (h : FileHeader) (disk : Disk) (sector : Int) : Except Failure Disk :=
  writeSector disk sector (pack h.words)

/-- `FileHeader::ByteToSector`. -/
def byteToSector (h : FileHeader) (offset : Nat) : Except Failure Int :=
  if offset / SectorSize < NumDirect then .ok (h.dataSectors (offset / SectorSize))
  else .error .bounds

/-- A header that describes a file: its length, as many sectors as it needs, on the disk. -/
structure Formed (h : FileHeader) : Prop where
  length : 0 ≤ h.numBytes ∧ h.numBytes ≤ MaxFileSize
  size : h.numSectors = divRoundUp h.numBytes.toNat SectorSize
  onDisk : ∀ x ∈ h.sectors, 0 ≤ x ∧ x < NumSectors

/-- Two headers of the same file; the data sectors that are not used may differ. -/
structure Same (h h' : FileHeader) : Prop where
  numBytes : h.numBytes = h'.numBytes
  numSectors : h.numSectors = h'.numSectors
  sectors : h.sectors = h'.sectors

/-- A header that is the same is well formed. -/
theorem Same.formed {h h' : FileHeader} (hsame : Same h h') (hf : Formed h') : Formed h :=
  ⟨hsame.numBytes ▸ hf.length, by rw [hsame.numSectors, hsame.numBytes]; exact hf.size,
    by rw [hsame.sectors]; exact hf.onDisk⟩

/-- A file has at most `NumDirect` sectors. -/
theorem divRoundUp_le {n : Nat} (hn : n ≤ MaxFileSize) : divRoundUp n SectorSize ≤ NumDirect := by
  rw [divRoundUp_sectorSize]
  simp only [MaxFileSize, NumDirect, SectorSize] at *
  omega

/-- So does its header say. -/
theorem Formed.numSectors_le {h : FileHeader} (hf : Formed h) : h.numSectors.toNat ≤ NumDirect := by
  have hle := divRoundUp_le (n := h.numBytes.toNat) (by have := hf.length; omega)
  rw [hf.size]
  simpa using hle

/-- A header comes back from the disk as it was written. -/
theorem ofBytes_pack {h : FileHeader} (hf : Formed h) : Same (ofBytes (pack h.words)) h := by
  have hlength := hf.length
  have hsectors := hf.numSectors_le
  have hsize := hf.size
  have hnum : (ofBytes (pack h.words)).numSectors = h.numSectors := by
    simp only [ofBytes, unpack_pack, words]
    refine toInt_ofInt_of_fits ⟨by omega, ?_⟩
    simp only [NumDirect, SectorSize] at hsectors
    omega
  refine ⟨?_, hnum, ?_⟩
  · simp only [ofBytes, unpack_pack, words]
    refine toInt_ofInt_of_fits ⟨by omega, ?_⟩
    simp only [MaxFileSize, NumDirect, SectorSize] at hlength
    omega
  · rw [sectors, hnum, sectors]
    refine List.map_congr_left fun i hi => ?_
    have honDisk := hf.onDisk (h.dataSectors i) (List.mem_map_of_mem hi)
    simp only [NumSectors] at honDisk
    simp only [ofBytes, unpack_pack, words]
    exact toInt_ofInt_of_fits ⟨by omega, by omega⟩

end FileHeader

/-! ## Open files -/

/-- The loop of `OpenFile::ReadAt`. -/
def readSectors (disk : Disk) (hdr : FileHeader) (l : List Nat) : Except Failure (List Bytes) :=
  l.mapM fun i => do
    let sector ← hdr.byteToSector (i * SectorSize)
    readSector disk sector

/-- The loop of `OpenFile::WriteAt`, with the part of the buffer for each sector. -/
def writeSectors (disk : Disk) (hdr : FileHeader) (l : List Nat) (data : Nat → Bytes) :
    Except Failure Disk :=
  l.foldlM (fun disk i => do
    let sector ← hdr.byteToSector (i * SectorSize)
    writeSector disk sector (data i)) disk

/-- A byte of a buffer that has been filled sector by sector. -/
def bufferByte (buf : List Bytes) (o : Nat) : BitVec 8 :=
  buf.getD (o / SectorSize) (fun _ => 0) (o % SectorSize)

/-- `OpenFile::ReadAt`: the bytes of the file are put over those of the buffer. -/
def readAt (disk : Disk) (hdr : FileHeader) (into : Bytes) (numBytes position : Int) :
    Except Failure (Int × Bytes) :=
  let fileLength := hdr.numBytes
  if numBytes ≤ 0 ∨ fileLength ≤ position then .ok (0, into)
  else if position < 0 then .error .bounds
  else if 2147483648 ≤ position + numBytes then .error .overflow
  else do
    let numBytes := if fileLength < position + numBytes then fileLength - position else numBytes
    let firstSector := position.toNat / SectorSize
    let lastSector := (position.toNat + numBytes.toNat - 1) / SectorSize
    let buf ← readSectors disk hdr (List.range' firstSector (1 + lastSector - firstSector))
    pure (numBytes, fun j =>
      if j < numBytes.toNat then bufferByte buf (position.toNat - firstSector * SectorSize + j)
      else into j)

/-- A call of `ReadAt` in `WriteAt`, for a sector that is to be partially modified. -/
def readPartial (disk : Disk) (hdr : FileHeader) (into : Bytes) (needed : Bool) (sector : Nat) :
    Except Failure Bytes :=
  if needed then (readAt disk hdr into SectorSize (sector * SectorSize : Nat)).map Prod.snd
  else .ok into

/-- The buffer of `OpenFile::WriteAt` for `numBytes` bytes at `position`, before it is written back.
Its memory was `raw`. -/
def writeBuffer (disk : Disk) (hdr : FileHeader) (source raw : Bytes) (numBytes position : Nat) :
    Except Failure Bytes := do
  let firstSector := position / SectorSize
  let lastSector := (position + numBytes - 1) / SectorSize
  let firstAligned := decide (position = firstSector * SectorSize)
  let lastAligned := decide (position + numBytes = (lastSector + 1) * SectorSize)
  -- read in first and last sector, if they are to be partially modified
  let buf ← readPartial disk hdr raw (!firstAligned) firstSector
  let lastStart := (lastSector - firstSector) * SectorSize
  let rest ← readPartial disk hdr (fun j => buf (lastStart + j))
    (!lastAligned && (firstSector != lastSector || firstAligned)) lastSector
  -- copy in the bytes we want to change
  let start := position - firstSector * SectorSize
  pure fun j =>
    if start ≤ j ∧ j < start + numBytes then source (j - start)
    else if j < lastStart then buf j else rest (j - lastStart)

/-- `OpenFile::WriteAt`. -/
def writeAt (disk : Disk) (hdr : FileHeader) (source raw : Bytes) (numBytes position : Int) :
    Except Failure (Int × Disk) :=
  let fileLength := hdr.numBytes
  if numBytes ≤ 0 ∨ fileLength ≤ position then .ok (0, disk)
  else if position < 0 then .error .bounds
  else if 2147483648 ≤ position + numBytes then .error .overflow
  else do
    let numBytes := if fileLength < position + numBytes then fileLength - position else numBytes
    let firstSector := position.toNat / SectorSize
    let lastSector := (position.toNat + numBytes.toNat - 1) / SectorSize
    let buf ← writeBuffer disk hdr source raw numBytes.toNat position.toNat
    -- write modified sectors back
    let disk ← writeSectors disk hdr (List.range' firstSector (1 + lastSector - firstSector))
      fun i o => buf ((i - firstSector) * SectorSize + o)
    pure (numBytes, disk)

section OpenFile

variable {disk : Disk} {hdr : FileHeader} {into source raw : Bytes} {numBytes position : Int}
  {sector : Int} {i n p : Nat} {l : List Nat}

/-- A sector on the disk is read. -/
theorem readSector_ok (h : 0 ≤ sector ∧ sector < NumSectors) :
    readSector disk sector = .ok (disk sector) := if_pos h

/-- A sector on the disk is written. -/
theorem writeSector_ok {data : Bytes} (h : 0 ≤ sector ∧ sector < NumSectors) :
    writeSector disk sector data = .ok (update disk sector data) := if_pos h

/-- A sector of the file. -/
theorem byteToSector_ok (hf : hdr.Formed) (hi : i < hdr.numSectors.toNat) :
    hdr.byteToSector (i * SectorSize) = .ok (hdr.dataSectors i) ∧
      hdr.dataSectors i ∈ hdr.sectors := by
  have hle := hf.numSectors_le
  have hdiv : i * SectorSize / SectorSize = i := Nat.mul_div_cancel _ (by decide)
  refine ⟨?_, List.mem_map_of_mem (List.mem_range.mpr hi)⟩
  rw [FileHeader.byteToSector, hdiv, if_pos (by omega)]

/-- Reading sectors of the file. -/
theorem readSectors_ok (hf : hdr.Formed) (hl : ∀ i ∈ l, i < hdr.numSectors.toNat) :
    readSectors disk hdr l = .ok (l.map fun i => disk (hdr.dataSectors i)) := by
  induction l with
  | nil => rfl
  | cons i rest ih =>
    obtain ⟨hsector, hmem⟩ := byteToSector_ok hf (hl i List.mem_cons_self)
    have hrest := ih fun j hj => hl j (List.mem_cons_of_mem _ hj)
    unfold readSectors at hrest ⊢
    rw [List.mapM_cons, hrest, hsector]
    simp only [bind, Except.bind, readSector_ok (hf.onDisk _ hmem)]
    rfl

/-- Writing sectors of the file changes only these. -/
theorem writeSectors_spec (hf : hdr.Formed) (data : Nat → Bytes)
    (hl : ∀ i ∈ l, i < hdr.numSectors.toNat) :
    ∃ disk', writeSectors disk hdr l data = .ok disk' ∧
      ∀ x, x ∉ hdr.sectors → disk' x = disk x := by
  induction l generalizing disk with
  | nil => exact ⟨disk, rfl, fun _ _ => rfl⟩
  | cons i rest ih =>
    obtain ⟨hsector, hmem⟩ := byteToSector_ok hf (hl i List.mem_cons_self)
    obtain ⟨disk', hrest, hframe⟩ := @ih (update disk (hdr.dataSectors i) (data i))
      fun j hj => hl j (List.mem_cons_of_mem _ hj)
    refine ⟨disk', ?_, fun x hx => ?_⟩
    · unfold writeSectors at hrest ⊢
      rw [List.foldlM_cons, hsector]
      simp only [bind, Except.bind, writeSector_ok (hf.onDisk _ hmem)]
      exact hrest
    · have hne : x ≠ hdr.dataSectors i := fun heq => hx (heq ▸ hmem)
      rw [hframe x hx, update_of_ne hne]

/-- The length of a request after it has been cut to the file. -/
theorem cut_spec {fileLength : Int} (hposition : 0 ≤ position)
    (hcheck : ¬ (numBytes ≤ 0 ∨ fileLength ≤ position)) :
    ∃ n p : Nat, position = p ∧ 0 < n ∧ (p : Int) + n ≤ fileLength ∧
      (if fileLength < position + numBytes then fileLength - position else numBytes) = n := by
  refine ⟨(if fileLength < position + numBytes then fileLength - position else numBytes).toNat,
    position.toNat, by omega, ?_⟩
  split <;> omega

/-- The sectors of a request are sectors of the file. -/
theorem request_inside (hf : hdr.Formed) (hn : 0 < n) (hend : (p : Int) + n ≤ hdr.numBytes)
    (hi : i ∈ List.range' (p / SectorSize) (1 + (p + n - 1) / SectorSize - p / SectorSize)) :
    i < hdr.numSectors.toNat := by
  have hlast : (p + n - 1) / SectorSize < hdr.numSectors.toNat := by
    rw [hf.size, Int.toNat_natCast, divRoundUp_sectorSize]
    unfold SectorSize
    omega
  rw [List.mem_range'_1] at hi
  omega

/-- Reading does not fail. -/
theorem readAt_ok (hf : hdr.Formed) (hposition : 0 ≤ position)
    (hfits : position + numBytes < 2147483648) :
    ∃ r, readAt disk hdr into numBytes position = .ok r := by
  unfold readAt
  dsimp only
  split
  · exact ⟨_, rfl⟩
  rename_i hcheck
  rw [if_neg (not_lt.mpr hposition), if_neg (not_le.mpr hfits)]
  obtain ⟨n, p, rfl, hn, hend, hcut⟩ := cut_spec hposition hcheck
  simp only [hcut, Int.toNat_natCast]
  rw [readSectors_ok hf fun i hi => request_inside hf hn hend hi]
  exact ⟨_, rfl⟩

/-- A partial sector is read. -/
theorem readPartial_ok (hf : hdr.Formed) {needed : Bool} {sector : Nat}
    (hsector : sector ≤ NumDirect) : ∃ b, readPartial disk hdr into needed sector = .ok b := by
  unfold readPartial
  split
  · have hfits : ((sector * SectorSize : Nat) : Int) + SectorSize < 2147483648 := by
      simp only [NumDirect, SectorSize] at *
      omega
    obtain ⟨r, hr⟩ := readAt_ok hf (Int.natCast_nonneg (sector * SectorSize)) hfits
    exact ⟨r.2, by rw [hr]; rfl⟩
  · exact ⟨into, rfl⟩

/-- The buffer holds the new bytes where they belong. -/
theorem writeBuffer_spec (hf : hdr.Formed) (hend : (p : Int) + n ≤ hdr.numBytes) :
    ∃ buf, writeBuffer disk hdr source raw n p = .ok buf ∧
      ∀ j < n, buf (p - p / SectorSize * SectorSize + j) = source j := by
  have hlength := hf.length.2
  have hsectors : p / SectorSize ≤ NumDirect ∧ (p + n - 1) / SectorSize ≤ NumDirect := by
    simp only [MaxFileSize, NumDirect, SectorSize] at *
    omega
  unfold writeBuffer
  dsimp only
  obtain ⟨first, hfirst⟩ := readPartial_ok hf hsectors.1
  rw [hfirst]
  simp only [bind, Except.bind]
  obtain ⟨rest, hrest⟩ := readPartial_ok hf hsectors.2
  rw [hrest]
  refine ⟨_, rfl, fun j hj => ?_⟩
  rw [if_pos (by omega), Nat.add_sub_cancel_left]

/-- Writing does not fail and changes only sectors of the file. -/
theorem writeAt_spec (hf : hdr.Formed) (hposition : 0 ≤ position)
    (hfits : position + numBytes < 2147483648) :
    ∃ n disk', writeAt disk hdr source raw numBytes position = .ok (n, disk') ∧
      ∀ x, x ∉ hdr.sectors → disk' x = disk x := by
  unfold writeAt
  dsimp only
  split
  · exact ⟨_, _, rfl, fun _ _ => rfl⟩
  rename_i hcheck
  rw [if_neg (not_lt.mpr hposition), if_neg (not_le.mpr hfits)]
  obtain ⟨n, p, rfl, hn, hend, hcut⟩ := cut_spec hposition hcheck
  simp only [hcut, Int.toNat_natCast]
  obtain ⟨buf, hbuf, -⟩ := writeBuffer_spec hf hend
  obtain ⟨disk', hwrite, hframe⟩ := writeSectors_spec hf
    (fun i o => buf ((i - p / SectorSize) * SectorSize + o))
    fun i hi => request_inside hf hn hend hi
  refine ⟨n, disk', ?_, hframe⟩
  rw [hbuf]
  simp only [bind, Except.bind]
  rw [hwrite]
  rfl

/-- A write that has returned has changed only sectors of the file. -/
theorem writeAt_frame (hf : hdr.Formed) {n : Int} {disk' : Disk}
    (h : writeAt disk hdr source raw numBytes position = .ok (n, disk')) {x : Int}
    (hx : x ∉ hdr.sectors) : disk' x = disk x := by
  by_cases hrequest : 0 ≤ position ∧ position + numBytes < 2147483648
  · obtain ⟨n', written, heq, hframe⟩ := writeAt_spec hf hrequest.1 hrequest.2
    cases heq.symm.trans h
    exact hframe x hx
  · unfold writeAt at h
    dsimp only at h
    split at h
    · cases h
      rfl
    · split at h
      · cases h
      · rw [if_pos (by omega)] at h
        cases h

/-! ### Files that fit in one sector -/

/-- A header for such a file: `n` bytes in the sector `d`. -/
structure FileHeader.OneSector (h : FileHeader) (n : Nat) (d : Int) : Prop extends Formed h where
  numBytes : h.numBytes = n
  sector : h.dataSectors 0 = d
  short : 0 < n ∧ n ≤ SectorSize

variable {n : Nat} {d : Int}

/-- The one sector. -/
theorem FileHeader.OneSector.byteToSector (h : hdr.OneSector n d) :
    hdr.byteToSector (0 * SectorSize) = .ok d := by
  rw [FileHeader.byteToSector, Nat.zero_mul, Nat.zero_div, if_pos (by decide), h.sector]

theorem FileHeader.OneSector.last (h : hdr.OneSector n d) : (0 + n - 1) / SectorSize = 0 := by
  have := h.short
  exact Nat.div_eq_of_lt (by omega)

/-- There is no other. -/
theorem FileHeader.OneSector.sectors_eq (h : hdr.OneSector n d) : hdr.sectors = [d] := by
  have hshort := h.short
  have hone : hdr.numSectors = 1 := by
    rw [h.size, h.numBytes, Int.toNat_natCast, divRoundUp_sectorSize]
    unfold SectorSize at hshort
    omega
  simp [FileHeader.sectors, hone, h.sector]

/-- It is on the disk. -/
theorem FileHeader.OneSector.sector_onDisk (h : hdr.OneSector n d) : 0 ≤ d ∧ d < NumSectors :=
  h.onDisk d (by simp [h.sectors_eq])

theorem FileHeader.OneSector.fits (h : hdr.OneSector n d) :
    ¬ (2147483648 : Int) ≤ 0 + (n : Int) := by
  have hshort := h.short
  simp only [SectorSize] at hshort
  omega

theorem FileHeader.OneSector.end_le (h : hdr.OneSector n d) :
    ((0 : Nat) : Int) + n ≤ hdr.numBytes := by
  rw [h.numBytes]
  omega

/-- Reading such a file. -/
theorem readAt_whole (h : hdr.OneSector n d) :
    readAt disk hdr into n 0 = .ok ((n : Int), fun j => if j < n then disk d j else into j) := by
  have hshort := h.short
  have hread : readSectors disk hdr [0] = .ok [disk d] := by
    unfold readSectors
    rw [List.mapM_cons, h.byteToSector]
    simp only [bind, Except.bind, readSector_ok h.sector_onDisk]
    rfl
  unfold readAt
  dsimp only
  rw [h.numBytes, if_neg (by omega), if_neg (by omega), if_neg h.fits, if_neg (by omega),
    Int.toNat_natCast, Int.toNat_zero, Nat.zero_div, h.last, List.range'_one, hread]
  refine congrArg Except.ok (Prod.ext rfl (funext fun j => ?_))
  dsimp only
  split
  · have hj : j < SectorSize := by omega
    simp [bufferByte, Nat.div_eq_of_lt hj, Nat.mod_eq_of_lt hj]
  · rfl

/-- Writing such a file. What comes behind the file in the sector is not kept. -/
theorem writeAt_whole (disk : Disk) (source raw : Bytes) (h : hdr.OneSector n d) :
    ∃ data : Bytes, (∀ j < n, data j = source j) ∧
      writeAt disk hdr source raw n 0 = .ok ((n : Int), update disk d data) := by
  have hshort := h.short
  obtain ⟨buf, hbuf, hsource⟩ := writeBuffer_spec (p := 0) h.toFormed h.end_le
  have hwrite : writeSectors disk hdr [0] (fun i o => buf ((i - 0) * SectorSize + o)) =
      .ok (update disk d buf) := by
    unfold writeSectors
    rw [List.foldlM_cons, h.byteToSector]
    simp only [bind, Except.bind, writeSector_ok h.sector_onDisk, Nat.sub_self, Nat.zero_mul,
      Nat.zero_add]
    rfl
  refine ⟨buf, fun j hj => by simpa using hsource j hj, ?_⟩
  unfold writeAt
  dsimp only
  rw [h.numBytes, if_neg (by omega), if_neg (by omega), if_neg h.fits, if_neg (by omega),
    Int.toNat_natCast, Int.toNat_zero, Nat.zero_div, h.last, List.range'_one, hbuf]
  simp only [bind, Except.bind]
  rw [hwrite]
  rfl

end OpenFile

end Nachos.Filesys
