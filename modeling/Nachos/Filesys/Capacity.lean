import Nachos.Filesys.Consistency

/-!
# The capacity of a header

A header has room for `NumDirect` data sectors. `FileHeader::Allocate` compares the sectors that a
file needs with the free sectors of the disk only, so between the two limits it writes behind its
array. `capacity_iff` says that this is the only way in which it fails, and that `Create` fails with
it exactly when the name, the directory and the disk leave room for such a file.
-/

namespace Nachos.Filesys

open WordBytes Transition

/-- What `Allocate` promises when it returns `TRUE`: the header has as many sectors as the file
needs, which are entries it has, and as many bits that were clear have been marked. -/
structure Granted (freeMap : BitMap) (fileSize : Nat) (hdr : FileHeader) (freeMap' : BitMap) :
    Prop where
  numBytes : hdr.numBytes = fileSize
  numSectors : hdr.numSectors = (fileSize ⌈/⌉ SectorSize : Nat)
  fits : hdr.numSectors ≤ NumDirect
  numBits : freeMap'.numBits = freeMap.numBits
  marked : ∃ taken : List Nat, (taken.length : Int) = hdr.numSectors ∧ taken.Nodup ∧
    (∀ i ∈ taken, i < freeMap.numBits ∧ freeMap.bit i = false) ∧
    ∀ i < freeMap.numBits, freeMap'.bit i = true ↔ i ∈ taken ∨ freeMap.bit i = true

/-- `Allocate` writes inside its array and does what it promises. When it returns `FALSE` there is
no new bitmap: the source has not come to the first `FindFreeSlot`. -/
def AllocatesWell (h : FileHeader) (freeMap : BitMap) (fileSize : Nat) : Prop :=
  h.allocate freeMap fileSize = .ok none ∨
    ∃ hdr freeMap', h.allocate freeMap fileSize = .ok (some (hdr, freeMap')) ∧
      Granted freeMap fileSize hdr freeMap'

/-- `Create` returns, and a header that it has stored has a sector for every byte of the file. -/
def CreatesWell (s : State) (raw : Heap) (name : CString) (fileSize : Nat) : Prop :=
  ∃ result disk', s.fs.create s.disk raw name fileSize = .ok (result, disk') ∧
    ∀ sector, result = some sector → ∀ offset : Nat, offset < (headerOn disk' sector).numBytes →
      ∃ x, (headerOn disk' sector).byteToSector offset = .ok x

namespace FileHeader

variable {n : Nat} {h : FileHeader}

/-- The loop of `Allocate` leaves the array when there are more rounds than entries. -/
theorem allocateSectors_bounds {i : Nat} (dataSectors : Nat → Int) (freeMap : BitMap)
    (hi : i ≤ NumDirect) (hn : NumDirect < i + n) :
    allocateSectors n i dataSectors freeMap = .error .bounds := by
  induction n generalizing i dataSectors freeMap with
  | zero => omega
  | succ n ih =>
    rw [allocateSectors]
    split
    · exact ih _ _ (by omega) (by omega)
    · rfl

/-- A file that is too large for a header and not too large for the disk. -/
theorem allocate_bounds {freeMap : BitMap} (hlarge : NumDirect < divRoundUp n SectorSize)
    (hroom : divRoundUp n SectorSize ≤ freeMap.clearBits.length) :
    h.allocate freeMap n = .error .bounds := by
  unfold allocate
  dsimp only
  rw [divRoundUpInt_natCast, freeMap.numClear_eq_length,
    if_neg (by exact_mod_cast not_lt.mpr hroom), Int.toNat_natCast,
    allocateSectors_bounds _ _ (Nat.zero_le _) (by omega)]
  rfl

theorem allocate_granted {freeMap : BitMap} (hsmall : divRoundUp n SectorSize ≤ NumDirect)
    (hroom : divRoundUp n SectorSize ≤ freeMap.clearBits.length) :
    ∃ hdr freeMap', h.allocate freeMap n = .ok (some (hdr, freeMap')) ∧
      Granted freeMap n hdr freeMap' := by
  obtain ⟨dataSectors, freeMap', heq, -, -, hbits, hclear⟩ :=
    @allocateSectors_spec (divRoundUp n SectorSize) 0 h.dataSectors freeMap hroom (by omega)
  refine ⟨⟨n, divRoundUp n SectorSize, dataSectors⟩, freeMap', ?_, rfl, ?_, ?_, hbits,
    freeMap.clearBits.take (divRoundUp n SectorSize), ?_, ?_, ?_, ?_⟩
  · unfold allocate
    dsimp only
    rw [divRoundUpInt_natCast, freeMap.numClear_eq_length,
      if_neg (by exact_mod_cast not_lt.mpr hroom), Int.toNat_natCast, heq]
    rfl
  · rw [divRoundUp_eq_ceilDiv]
  · exact Int.ofNat_le.mpr hsmall
  · rw [List.length_take, Nat.min_eq_left hroom]
  · exact freeMap.clearBits_nodup.sublist (List.take_sublist _ _)
  · intro i hi
    have hclear := BitMap.mem_clearBits.mp (List.mem_of_mem_take hi)
    simpa using hclear
  · intro i hi
    have hheld := held_taken (List.take_append_drop _ _).symm hclear hbits i
    rw [show (i : Int) = Int.ofNat i from rfl, List.mem_map_of_injective Int.ofNat_injective]
      at hheld
    simpa [Frames.held, hbits, hi] using hheld

/-- `Allocate` keeps its promise exactly when the file fits in a header or not on the disk. -/
theorem allocatesWell_iff (h : FileHeader) (freeMap : BitMap) (n : Nat) :
    AllocatesWell h freeMap n ↔
      divRoundUp n SectorSize ≤ NumDirect ∨ freeMap.numClear < divRoundUp n SectorSize := by
  rw [freeMap.numClear_eq_length]
  by_cases hfew : freeMap.clearBits.length < divRoundUp n SectorSize
  · exact iff_of_true (.inl (allocate_none hfew)) (.inr hfew)
  · have hroom := not_lt.mp hfew
    by_cases hsmall : divRoundUp n SectorSize ≤ NumDirect
    · exact iff_of_true (.inr (allocate_granted hsmall hroom)) (.inl hsmall)
    · have hbounds : h.allocate freeMap n = .error .bounds :=
        allocate_bounds (not_le.mp hsmall) hroom
      refine iff_of_false ?_ (not_or.mpr ⟨hsmall, hfew⟩)
      unfold AllocatesWell
      rw [hbounds]
      simp

/-- A header of a file has a sector for each of its bytes. -/
theorem Formed.byteToSector (hf : h.Formed) {offset : Nat} (hoffset : offset < h.numBytes) :
    ∃ x, h.byteToSector offset = .ok x := by
  have hlength := hf.length.2
  have hindex : offset / SectorSize < NumDirect := by
    simp only [MaxFileSize, NumDirect, SectorSize] at *
    omega
  exact ⟨_, if_pos hindex⟩

end FileHeader

/-- The middle of `Create` for a file that is too large for a header. -/
theorem reserve_bounds {directory : Directory} {freeMap : BitMap} {name : CString} {n : Nat}
    (raw : Bytes) (hindex : directory.findIndex name = none)
    (hlarge : NumDirect < divRoundUp n SectorSize) :
    (directory.files.length < directory.length ∧
        divRoundUp n SectorSize < freeMap.clearBits.length ∧
        reserve directory freeMap raw name n = .error .bounds) ∨
      (¬ (directory.files.length < directory.length ∧
        divRoundUp n SectorSize < freeMap.clearBits.length) ∧
        reserve directory freeMap raw name n = .ok none) := by
  rcases @reserve_cases name directory freeMap raw n hindex with
    ⟨hfull, hreserve⟩ | ⟨i, rest, directory', hclear, hrest, hadd, hreserve⟩
  · exact .inr ⟨fun hroom => hfull ⟨hroom.1, by omega⟩, hreserve⟩
  by_cases hfew : rest.length < divRoundUp n SectorSize
  · refine .inr ⟨fun hroom => ?_, ?_⟩
    · have hmore := hroom.2
      rw [hclear, List.length_cons] at hmore
      omega
    · rw [hreserve, FileHeader.allocate_none (hrest.symm ▸ hfew)]
      rfl
  · refine .inl ⟨Directory.add_room hadd, ?_, ?_⟩
    · rw [hclear, List.length_cons]
      omega
    · rw [hreserve, FileHeader.allocate_bounds hlarge (by rw [hrest]; omega)]
      rfl

/-- `Create` of a file that is too large for a header leaves the array of the header exactly when
there is room for the file otherwise. -/
theorem create_large {fs : FileSystem} {disk : Disk} (h : Sound fs disk) (raw : Heap)
    (name : CString) {n : Nat} (hlarge : NumDirect < divRoundUp n SectorSize) :
    (Room disk name n ∧ fs.create disk raw name n = .error .bounds) ∨
      (¬ Room disk name n ∧ fs.create disk raw name n = .ok (none, disk)) := by
  have hlength : (directoryOn disk).length = NumDirEntries := Directory.length_ofBytes _ _
  rw [FileSystem.create, FileSystem.planCreate, fetch_directory h.directoryFile, ok_bind]
  rcases h.find_cases name with ⟨hfind, hindex, hnew⟩ | ⟨hfind, -, hmem⟩
  · rw [if_neg (not_not.mpr hfind), fetch_freeMap h.mapFile, ok_bind]
    rcases @reserve_bounds (directoryOn disk) (freeMapOn disk) name n (raw 2) hindex hlarge with
      ⟨hentry, hroom, hreserve⟩ | ⟨hfull, hreserve⟩
    · rw [hreserve]
      exact .inl ⟨⟨hnew, hlength ▸ hentry, hroom⟩, rfl⟩
    · rw [hreserve, ok_bind]
      exact .inr ⟨fun hroom => hfull ⟨hlength ▸ hroom.2.1, hroom.2.2⟩, rfl⟩
  · rw [if_pos hfind]
    exact .inr ⟨fun hroom => hroom.1 _ hmem rfl, rfl⟩

/-- `Create` does its work exactly when the file fits in a header or is refused. -/
theorem createsWell_iff {s : State} (h : Sound s.fs s.disk) (raw : Heap) (name : CString)
    (n : Nat) : CreatesWell s raw name n ↔
      divRoundUp n SectorSize ≤ NumDirect ∨ ¬ Room s.disk name n := by
  by_cases hsmall : divRoundUp n SectorSize ≤ NumDirect
  · refine iff_of_true ?_ (.inl hsmall)
    have hn : n ≤ MaxFileSize := by
      rw [divRoundUp_sectorSize] at hsmall
      simp only [MaxFileSize, NumDirect, SectorSize] at *
      omega
    rcases create_spec h raw name hn with ⟨-, heq⟩ | ⟨-, sector, disk', heq, hcreated⟩
    · exact ⟨none, s.disk, heq, fun _ hnone => by cases hnone⟩
    · refine ⟨some sector, disk', heq, fun x hx offset hoffset => ?_⟩
      cases hx
      exact hcreated.formed.byteToSector hoffset
  · rcases create_large h raw name (not_le.mp hsmall) with ⟨hroom, heq⟩ | ⟨hfull, heq⟩
    · refine iff_of_false ?_ (not_or.mpr ⟨hsmall, not_not.mpr hroom⟩)
      rintro ⟨result, disk', hok, -⟩
      cases heq.symm.trans hok
    · exact iff_of_true ⟨none, s.disk, heq, fun _ hnone => by cases hnone⟩ (.inr hfull)

/-- For every bitmap and size, `Allocate` keeps to its array and its promises exactly when the file
fits in a header or not on the disk. In every state that `Create` and `Remove` reach from a
formatted disk, `Create` stores no header without a sector for some byte exactly when the file fits
in a header or there is no room for it. -/
theorem capacity_iff (disk : Disk) (raw : Heap) :
    (∀ (h : FileHeader) (freeMap : BitMap) (fileSize : Nat), AllocatesWell h freeMap fileSize ↔
      fileSize ⌈/⌉ SectorSize ≤ NumDirect ∨ freeMap.numClear < fileSize ⌈/⌉ SectorSize) ∧
    ∃ fs start, format disk raw = .ok (fs, start) ∧
      ∀ trace s, Run step Sized ⟨fs, start⟩ trace s → ∀ memory name fileSize,
        CreatesWell s memory name fileSize ↔
          fileSize ⌈/⌉ SectorSize ≤ NumDirect ∨ ¬ Room s.disk name fileSize := by
  obtain ⟨fs, start, hformat, hsound, -⟩ := format_spec disk raw
  refine ⟨fun h freeMap n => ?_, fs, start, hformat, fun trace s hrun memory name n => ?_⟩
  · rw [← divRoundUp_eq_ceilDiv]
    exact FileHeader.allocatesWell_iff h freeMap n
  · rw [← divRoundUp_eq_ceilDiv]
    exact createsWell_iff (sound_run hsound hrun) memory name n

/-- The largest file that fits in a header, on a formatted disk of zeros. -/
theorem capacity_reached : ∃ fs start,
    format (fun _ _ => 0) (fun _ _ => 0) = .ok (fs, start) ∧
      AllocatesWell (headerOn start 0) (freeMapOn start) 64512 ∧
      CreatesWell ⟨fs, start⟩ (fun _ _ => 0) ⟨[97], by decide⟩ 64512 := by
  obtain ⟨hallocate, fs, start, hformat, hcreate⟩ := capacity_iff (fun _ _ => 0) fun _ _ => 0
  have hfits : 64512 ⌈/⌉ SectorSize ≤ NumDirect := by
    rw [← divRoundUp_eq_ceilDiv]
    decide
  exact ⟨fs, start, hformat, (hallocate _ _ _).mpr (.inl hfits),
    (hcreate [] _ .refl _ _ _).mpr (.inl hfits)⟩

/-- One byte more: `Allocate` writes behind the array, and `Create` with it. -/
theorem capacity_exceeded : ∃ fs start,
    format (fun _ _ => 0) (fun _ _ => 0) = .ok (fs, start) ∧
      ¬ AllocatesWell (headerOn start 0) (freeMapOn start) 64513 ∧
      fs.create start (fun _ _ => 0) ⟨[97], by decide⟩ (64513 : Nat) = .error .bounds ∧
      ¬ CreatesWell ⟨fs, start⟩ (fun _ _ => 0) ⟨[97], by decide⟩ 64513 := by
  obtain ⟨fs, start, hformat, hsound, hfiles, hclear, -⟩ := format_spec (fun _ _ => 0) fun _ _ => 0
  have hlarge : NumDirect < divRoundUp 64513 SectorSize := by decide
  have hmore : divRoundUp 64513 SectorSize < (freeMapOn start).clearBits.length := by
    rw [hclear, List.length_range']
    decide
  have hroom : Room start ⟨[97], by decide⟩ 64513 :=
    ⟨by simp [hfiles], by simp [hfiles, NumDirEntries], hmore⟩
  refine ⟨fs, start, hformat, fun hwell => ?_, ?_, fun hwell => ?_⟩
  · rw [FileHeader.allocatesWell_iff, BitMap.numClear_eq_length] at hwell
    omega
  · rcases create_large hsound (fun _ _ => 0) ⟨[97], by decide⟩ hlarge with ⟨-, heq⟩ | ⟨hfull, -⟩
    · exact heq
    · exact absurd hroom hfull
  · rcases (createsWell_iff hsound _ _ _).mp hwell with hfits | hfull
    · omega
    · exact hfull hroom

end Nachos.Filesys
