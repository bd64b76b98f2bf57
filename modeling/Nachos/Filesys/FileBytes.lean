import Nachos.Filesys.Disk

/-!
# Open files as byte arrays

`OpenFile::ReadAt` and `OpenFile::WriteAt` move whole sectors. Seen from outside, a file is an array
of bytes: `fileByte` is the byte at an offset, and `moved` the number of bytes that a request moves,
after it has been cut to the length of the file. `ReadAt` delivers these bytes and `WriteAt` changes
them and nothing else, wherever the request starts and ends within a sector.
-/

namespace Nachos.Filesys

open WordBytes

/-- The byte of a file at an offset. -/
def fileByte (disk : Disk) (hdr : FileHeader) (offset : Nat) : BitVec 8 :=
  disk (hdr.dataSectors (offset / SectorSize)) (offset % SectorSize)

/-- The number of bytes that a request moves. -/
def moved (hdr : FileHeader) (numBytes position : Int) : Int :=
  max 0 (min numBytes (hdr.numBytes - position))

variable {hdr : FileHeader} {numBytes position : Int}

/-- A request that is refused moves nothing. -/
theorem moved_eq_zero (h : numBytes ≤ 0 ∨ hdr.numBytes ≤ position) :
    moved hdr numBytes position = 0 := by
  unfold moved
  omega

/-- Any other request moves what is left after it has been cut to the file. -/
theorem moved_eq_cut (h : ¬ (numBytes ≤ 0 ∨ hdr.numBytes ≤ position)) :
    moved hdr numBytes position =
      if hdr.numBytes < position + numBytes then hdr.numBytes - position else numBytes := by
  unfold moved
  split <;> omega

/-! ## Reading -/

/-- A byte of the buffer into which the sectors of a request have been read. -/
theorem bufferByte_sectors (disk : Disk) {first count o : Nat} (ho : first * SectorSize ≤ o)
    (hlast : o / SectorSize < first + count) :
    bufferByte ((List.range' first count).map fun i => disk (hdr.dataSectors i))
      (o - first * SectorSize) = fileByte disk hdr o := by
  have hdiv : (o - first * SectorSize) / SectorSize = o / SectorSize - first := by
    unfold SectorSize at *
    omega
  have hmod : (o - first * SectorSize) % SectorSize = o % SectorSize := by
    unfold SectorSize at *
    omega
  have hsector : first + (o / SectorSize - first) = o / SectorSize := by
    unfold SectorSize at *
    omega
  unfold bufferByte fileByte
  rw [hdiv, hmod, List.getD_eq_getElem?_getD, List.getElem?_map, List.getElem?_range' (by omega)]
  simp only [Option.map_some, Option.getD_some, Nat.one_mul, hsector]

/-- `ReadAt` delivers the bytes of the file and leaves the rest of the buffer alone. -/
theorem readAt_bytes (disk : Disk) (into : Bytes) (hf : hdr.Formed) (hposition : 0 ≤ position)
    (hfits : position + numBytes < 2147483648) :
    readAt disk hdr into numBytes position = .ok (moved hdr numBytes position, fun j =>
      if j < (moved hdr numBytes position).toNat then fileByte disk hdr (position.toNat + j)
      else into j) := by
  unfold readAt
  dsimp only
  split
  · rename_i hcheck
    rw [moved_eq_zero hcheck]
    rfl
  rename_i hcheck
  rw [if_neg (not_lt.mpr hposition), if_neg (not_le.mpr hfits), moved_eq_cut hcheck]
  obtain ⟨n, p, rfl, hn, hend, hcut⟩ := cut_spec hposition hcheck
  simp only [hcut, Int.toNat_natCast]
  rw [readSectors_ok hf fun i hi => request_inside hf hn hend hi, ok_bind]
  refine congrArg Except.ok (Prod.ext rfl (funext fun j => ?_))
  dsimp only
  split
  · have hfirst : p / SectorSize * SectorSize ≤ p := Nat.div_mul_le_self p SectorSize
    have hlast : (p + j) / SectorSize < p / SectorSize +
        (1 + (p + n - 1) / SectorSize - p / SectorSize) := by
      unfold SectorSize
      omega
    rw [← Nat.sub_add_comm hfirst]
    exact bufferByte_sectors disk (by omega) hlast
  · rfl

/-! ## Writing -/

/-- A sector that is read before it is partially modified holds the bytes of the file. -/
theorem readPartial_bytes (disk : Disk) (into : Bytes) (needed : Bool) (hf : hdr.Formed)
    {sector : Nat} (hsector : sector ≤ NumDirect) :
    ∃ b, readPartial disk hdr into needed sector = .ok b ∧ (needed = false → b = into) ∧
      (needed = true → ∀ j < SectorSize, (sector * SectorSize + j : Nat) < hdr.numBytes →
        b j = fileByte disk hdr (sector * SectorSize + j)) := by
  cases needed with
  | false => exact ⟨into, rfl, fun _ => rfl, fun h => by cases h⟩
  | true =>
    have hfits : ((sector * SectorSize : Nat) : Int) + SectorSize < 2147483648 := by
      simp only [NumDirect, SectorSize] at *
      omega
    have hread := readAt_bytes disk into hf (Int.natCast_nonneg (sector * SectorSize)) hfits
    rw [Int.toNat_natCast] at hread
    refine ⟨fun j => if j < (moved hdr SectorSize (sector * SectorSize : Nat)).toNat then
      fileByte disk hdr (sector * SectorSize + j) else into j, ?_, fun h => ?_,
      fun _ j hj hlength => ?_⟩
    · show (readAt disk hdr into SectorSize (sector * SectorSize : Nat)).map Prod.snd = _
      rw [hread]
      rfl
    · cases h
    · refine if_pos ?_
      unfold moved
      push_cast at hlength ⊢
      omega

/-- The buffer of `WriteAt`: the new bytes, and around them the old ones of the file. -/
theorem writeBuffer_bytes (disk : Disk) (source raw : Bytes) (hf : hdr.Formed) {n p : Nat}
    (hend : (p : Int) + n ≤ hdr.numBytes) :
    ∃ buf, writeBuffer disk hdr source raw n p = .ok buf ∧
      ∀ o : Nat, p / SectorSize ≤ o / SectorSize → o / SectorSize ≤ (p + n - 1) / SectorSize →
        (o : Int) < hdr.numBytes →
        buf (o - p / SectorSize * SectorSize) =
          if p ≤ o ∧ o < p + n then source (o - p) else fileByte disk hdr o := by
  have hlength := hf.length.2
  have hsectors : p / SectorSize ≤ NumDirect ∧ (p + n - 1) / SectorSize ≤ NumDirect := by
    simp only [MaxFileSize, NumDirect, SectorSize] at *
    omega
  unfold writeBuffer
  dsimp only
  obtain ⟨first, hfirst, -, hreadFirst⟩ := readPartial_bytes disk raw
    (!decide (p = p / SectorSize * SectorSize)) hf hsectors.1
  rw [hfirst, ok_bind]
  obtain ⟨rest, hrest, hkept, hreadLast⟩ := readPartial_bytes disk
    (fun j => first (((p + n - 1) / SectorSize - p / SectorSize) * SectorSize + j))
    (!decide (p + n = ((p + n - 1) / SectorSize + 1) * SectorSize) &&
      (p / SectorSize != (p + n - 1) / SectorSize || decide (p = p / SectorSize * SectorSize)))
    hf hsectors.2
  rw [hrest, ok_bind]
  refine ⟨_, rfl, fun o hlow hhigh ho => ?_⟩
  have hstart : p / SectorSize * SectorSize ≤ o := by
    unfold SectorSize at *
    omega
  have hp := Nat.div_mul_le_self p SectorSize
  by_cases hnew : p ≤ o ∧ o < p + n
  · rw [if_pos (by omega), if_pos hnew]
    congr 1
    omega
  · have hold : ¬ (p - p / SectorSize * SectorSize ≤ o - p / SectorSize * SectorSize ∧
        o - p / SectorSize * SectorSize < p - p / SectorSize * SectorSize + n) := by omega
    rw [if_neg hold, if_neg hnew]
    -- an old byte of the first sector, when that one is read
    have hinFirst : o / SectorSize = p / SectorSize → p ≠ p / SectorSize * SectorSize →
        first (o - p / SectorSize * SectorSize) = fileByte disk hdr o := by
      intro hsame hunaligned
      have hoffset : p / SectorSize * SectorSize + (o - p / SectorSize * SectorSize) = o := by omega
      have hread := hreadFirst (by simpa using hunaligned) (o - p / SectorSize * SectorSize)
        (by unfold SectorSize at *; omega) (by rw [hoffset]; exact ho)
      rwa [hoffset] at hread
    split
    · -- before the last sector there are old bytes only in front of the new ones
      refine hinFirst ?_ ?_ <;> (unfold SectorSize at *; omega)
    · rename_i hlast
      have hsector : o / SectorSize = (p + n - 1) / SectorSize := by
        unfold SectorSize at *
        omega
      cases hneeded : (!decide (p + n = ((p + n - 1) / SectorSize + 1) * SectorSize) &&
          (p / SectorSize != (p + n - 1) / SectorSize ||
            decide (p = p / SectorSize * SectorSize))) with
      | true =>
        have hoffset : (p + n - 1) / SectorSize * SectorSize + (o - p / SectorSize * SectorSize -
            ((p + n - 1) / SectorSize - p / SectorSize) * SectorSize) = o := by
          unfold SectorSize at *
          omega
        have hread := hreadLast hneeded (o - p / SectorSize * SectorSize -
          ((p + n - 1) / SectorSize - p / SectorSize) * SectorSize)
          (by unfold SectorSize at *; omega) (by rw [hoffset]; exact ho)
        rwa [hoffset] at hread
      | false =>
        -- the last sector is the first one, or all of it is new
        rw [hkept hneeded]
        simp only [Bool.and_eq_false_iff, Bool.not_eq_false', decide_eq_true_eq,
          Bool.or_eq_false_iff, bne_eq_false_iff_eq, decide_eq_false_iff_not] at hneeded
        have hoffset : ((p + n - 1) / SectorSize - p / SectorSize) * SectorSize +
            (o - p / SectorSize * SectorSize -
              ((p + n - 1) / SectorSize - p / SectorSize) * SectorSize) =
            o - p / SectorSize * SectorSize := by
          unfold SectorSize at *
          omega
        dsimp only
        rw [hoffset]
        refine hinFirst ?_ ?_ <;> (unfold SectorSize at *; omega)

/-- Different sectors of the file are different sectors of the disk. -/
theorem dataSectors_inj (hdistinct : hdr.sectors.Nodup) {i j : Nat}
    (hi : i < hdr.numSectors.toNat) (hj : j < hdr.numSectors.toNat)
    (h : hdr.dataSectors i = hdr.dataSectors j) : i = j :=
  List.inj_on_of_nodup_map hdistinct (List.mem_range.mpr hi) (List.mem_range.mpr hj) h

/-- Writing sectors of the file one after the other gives each of them its part of the buffer. -/
theorem writeSectors_bytes (disk : Disk) (data : Nat → Bytes) (hf : hdr.Formed)
    (hdistinct : hdr.sectors.Nodup) {l : List Nat} (hl : ∀ i ∈ l, i < hdr.numSectors.toNat) :
    ∃ disk', writeSectors disk hdr l data = .ok disk' ∧
      ∀ i < hdr.numSectors.toNat, (i ∈ l → disk' (hdr.dataSectors i) = data i) ∧
        (i ∉ l → disk' (hdr.dataSectors i) = disk (hdr.dataSectors i)) := by
  induction l generalizing disk with
  | nil => exact ⟨disk, rfl, fun i _ => by simp⟩
  | cons k rest ih =>
    have hk := hl k List.mem_cons_self
    obtain ⟨hsector, hmem⟩ := byteToSector_ok hf hk
    obtain ⟨disk', hrest, hdata⟩ := ih (Function.update disk (hdr.dataSectors k) (data k))
      fun j hj => hl j (List.mem_cons_of_mem _ hj)
    refine ⟨disk', ?_, fun i hi => ?_⟩
    · unfold writeSectors at hrest ⊢
      rw [List.foldlM_cons, hsector, ok_bind, writeSector_ok (hf.onDisk _ hmem), ok_bind]
      exact hrest
    · obtain ⟨hin, hout⟩ := hdata i hi
      by_cases hik : i = k
      · subst hik
        refine ⟨fun _ => ?_, fun hnot => absurd List.mem_cons_self hnot⟩
        by_cases hmore : i ∈ rest
        · exact hin hmore
        · rw [hout hmore, Function.update_self]
      · have hne : hdr.dataSectors i ≠ hdr.dataSectors k := fun heq =>
          hik (dataSectors_inj hdistinct hi hk heq)
        rw [Function.update_of_ne hne] at hout
        simpa [hik] using ⟨hin, hout⟩

/-- `WriteAt` changes the bytes of the request and no other byte of the file. -/
theorem writeAt_bytes (disk : Disk) (source raw : Bytes) (hf : hdr.Formed)
    (hdistinct : hdr.sectors.Nodup) (hposition : 0 ≤ position)
    (hfits : position + numBytes < 2147483648) :
    ∃ disk', writeAt disk hdr source raw numBytes position =
        .ok (moved hdr numBytes position, disk') ∧
      ∀ o : Nat, (o : Int) < hdr.numBytes → fileByte disk' hdr o =
        if position ≤ o ∧ o < position + moved hdr numBytes position
        then source (o - position.toNat) else fileByte disk hdr o := by
  unfold writeAt
  dsimp only
  split
  · rename_i hcheck
    rw [moved_eq_zero hcheck]
    refine ⟨disk, rfl, fun o _ => ?_⟩
    rw [if_neg (by omega)]
  rename_i hcheck
  rw [if_neg (not_lt.mpr hposition), if_neg (not_le.mpr hfits), moved_eq_cut hcheck]
  obtain ⟨n, p, rfl, hn, hend, hcut⟩ := cut_spec hposition hcheck
  simp only [hcut, Int.toNat_natCast]
  obtain ⟨buf, hbuf, hbytes⟩ := writeBuffer_bytes disk source raw hf hend
  obtain ⟨disk', hwrite, hdata⟩ := writeSectors_bytes disk
    (fun i o => buf ((i - p / SectorSize) * SectorSize + o)) hf hdistinct
    fun i hi => request_inside hf hn hend hi
  refine ⟨disk', ?_, fun o ho => ?_⟩
  · rw [hbuf, ok_bind, hwrite, ok_bind]
    rfl
  · have hsector : o / SectorSize < hdr.numSectors.toNat := by
      rw [hf.size, Int.toNat_natCast, divRoundUp_sectorSize]
      unfold SectorSize
      omega
    obtain ⟨hwritten, hother⟩ := hdata _ hsector
    rw [List.mem_range'_1] at hwritten hother
    by_cases hin : p / SectorSize ≤ o / SectorSize ∧
        o / SectorSize < p / SectorSize + (1 + (p + n - 1) / SectorSize - p / SectorSize)
    · have hoffset : (o / SectorSize - p / SectorSize) * SectorSize + o % SectorSize =
          o - p / SectorSize * SectorSize := by
        unfold SectorSize at *
        omega
      rw [fileByte, hwritten hin]
      show buf ((o / SectorSize - p / SectorSize) * SectorSize + o % SectorSize) = _
      rw [hoffset, hbytes o hin.1 (by omega) ho]
      simp only [Int.ofNat_le, ← Int.natCast_add, Int.ofNat_lt]
    · rw [fileByte, hother hin, if_neg, fileByte]
      unfold SectorSize at hin
      omega

/-! ## The array of bytes -/

/-- For a header of a file and a disk with any contents, `WriteAt` moves `moved` bytes, changes
exactly these bytes of the file to those of its buffer, and touches no sector of another file.
`ReadAt` moves as many and delivers exactly these bytes. -/
theorem open_file_bytes (disk : Disk) (source raw into : Bytes) (hf : hdr.Formed)
    (hdistinct : hdr.sectors.Nodup) (hposition : 0 ≤ position)
    (hfits : position + numBytes < 2147483648) :
    (∃ disk', writeAt disk hdr source raw numBytes position =
        .ok (max 0 (min numBytes (hdr.numBytes - position)), disk') ∧
      (∀ j : Nat, (j : Int) < max 0 (min numBytes (hdr.numBytes - position)) →
        fileByte disk' hdr (position.toNat + j) = source j) ∧
      (∀ o : Nat, (o : Int) < hdr.numBytes → (o < position ∨
          position + max 0 (min numBytes (hdr.numBytes - position)) ≤ o) →
        fileByte disk' hdr o = fileByte disk hdr o) ∧
      ∀ x, x ∉ hdr.sectors → disk' x = disk x) ∧
    ∃ into', readAt disk hdr into numBytes position =
        .ok (max 0 (min numBytes (hdr.numBytes - position)), into') ∧
      (∀ j : Nat, (j : Int) < max 0 (min numBytes (hdr.numBytes - position)) →
        into' j = fileByte disk hdr (position.toNat + j)) ∧
      ∀ j : Nat, max 0 (min numBytes (hdr.numBytes - position)) ≤ j → into' j = into j := by
  obtain ⟨disk', hwrite, hbytes⟩ := writeAt_bytes disk source raw hf hdistinct hposition hfits
  have hread := readAt_bytes disk into hf hposition hfits
  unfold moved at hwrite hbytes hread
  refine ⟨⟨disk', hwrite, fun j hj => ?_, fun o ho hout => ?_, fun x hx => ?_⟩,
    _, hread, fun j hj => ?_, fun j hj => ?_⟩
  · rw [hbytes _ (by omega), if_pos (by omega)]
    congr 1
    omega
  · rw [hbytes o ho, if_neg (by omega)]
  · exact writeAt_frame hf hwrite hx
  · exact if_pos (by omega)
  · exact if_neg (by omega)

/-- A file of 600 bytes in the sectors 5 and 6. -/
def acrossHeader : FileHeader := ⟨600, 2, fun i => 5 + i⟩

/-- Four bytes across the boundary of its two sectors. -/
theorem open_file_bytes_across : acrossHeader.Formed ∧ acrossHeader.sectors.Nodup ∧
    ∃ disk', writeAt (fun _ _ => 0) acrossHeader (fun _ => 1) (fun _ => 2) 4 510 = .ok (4, disk') ∧
      (∀ j : Nat, (j : Int) < 4 → fileByte disk' acrossHeader (510 + j) = 1) ∧
      ∀ o : Nat, (o : Int) < 600 → ((o : Int) < 510 ∨ 514 ≤ (o : Int)) →
        fileByte disk' acrossHeader o = 0 := by
  have hf : acrossHeader.Formed := ⟨by decide, by decide, by decide⟩
  have hdistinct : acrossHeader.sectors.Nodup := by decide
  obtain ⟨⟨disk', hwrite, hnew, hold, -⟩, -⟩ := open_file_bytes (fun _ _ => 0) (fun _ => 1)
    (fun _ => 2) (fun _ => 0) hf hdistinct (show (0 : Int) ≤ 510 by decide)
    (show (510 : Int) + 4 < 2147483648 by decide)
  exact ⟨hf, hdistinct, disk', hwrite, hnew, hold⟩

end Nachos.Filesys
