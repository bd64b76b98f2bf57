import Nachos.Filesys.Disk
import Nachos.Userprog.Frames

/-!
# Allocation of sectors

The bitmap of free sectors in its file, and `FileHeader::Allocate` and `FileHeader::Deallocate`
over it. `Allocate` takes the least clear bits of the bitmap for the data sectors of a file, and
`Deallocate` clears them again.
-/

namespace Nachos

open WordBytes Filesys Function

/-! ## The bitmap in its file -/

namespace BitMap

/-- The words of a bitmap in memory. -/
def words (b : BitMap) : Nat → BitVec 32 := fun k => b.map.getD k 0

/-- The bitmap with other words. -/
def load (b : BitMap) (words : Nat → BitVec 32) : BitMap where
  numBits := b.numBits
  map := (List.range b.map.length).map words
  numWords := by rw [List.length_map, List.length_range, b.numWords]

/-- `BitMap::FetchFrom`. -/
def fetchFrom (b : BitMap) (disk : Disk) (file : FileHeader) : Except Failure BitMap := do
  let r ← readAt disk file (pack b.words) (b.map.length * 4 : Nat) 0
  pure (b.load (unpack r.2))

/-- `BitMap::WriteBack`. -/
def writeBack (b : BitMap) (disk : Disk) (file : FileHeader) (raw : Bytes) :
    Except Failure Disk := do
  let r ← writeAt disk file (pack b.words) raw (b.map.length * 4 : Nat) 0
  pure r.2

/-- The bitmap of `numBits` bits in memory. -/
def ofBytes (numBits : Nat) (b : Bytes) : BitMap where
  numBits := numBits
  map := (List.range (divRoundUp numBits BitsInWord)).map (unpack b)
  numWords := by simp

variable {b : BitMap} {disk : Disk} {file : FileHeader} {raw : Bytes} {d : Int}

/-- Reading the bitmap from its file. -/
theorem fetchFrom_eq (h : file.OneSector (b.map.length * 4) d) :
    b.fetchFrom disk file = .ok (ofBytes b.numBits (disk d)) := by
  have hwords : (List.range b.map.length).map
      (unpack fun j => if j < b.map.length * 4 then disk d j else pack b.words j) =
        (List.range (divRoundUp b.numBits BitsInWord)).map (unpack (disk d)) := by
    rw [← b.numWords]
    refine List.map_congr_left fun k hk => wordOf_congr fun j hj => if_pos ?_
    have hk := List.mem_range.mp hk
    omega
  rw [fetchFrom, readAt_whole h]
  simp only [bind, Except.bind, pure, Except.pure, load, ofBytes, hwords]

/-- A bitmap that has been through memory. -/
theorem ofBytes_words {data : Bytes} (h : ∀ j < b.map.length * 4, data j = pack b.words j) :
    ofBytes b.numBits data = b := by
  have hmap : (List.range (divRoundUp b.numBits BitsInWord)).map (unpack data) = b.map := by
    rw [← b.numWords]
    refine List.ext_getElem (by simp) fun k hk hk' => ?_
    rw [List.getElem_map, List.getElem_range]
    have hword : unpack data k = b.words k :=
      unpack_eq fun j hj => h _ (by omega)
    rw [hword, words]
    simp [hk']
  cases b
  simp only [ofBytes, hmap]

/-- Writing the bitmap to its file. -/
theorem writeBack_spec (disk : Disk) (raw : Bytes) (h : file.OneSector (b.map.length * 4) d) :
    ∃ data, b.writeBack disk file raw = .ok (update disk d data) ∧
      ofBytes b.numBits data = b := by
  obtain ⟨data, hdata, hwrite⟩ := writeAt_whole disk (pack b.words) raw h
  refine ⟨data, ?_, ofBytes_words hdata⟩
  rw [writeBack, hwrite]
  rfl

end BitMap

namespace Filesys

open Frames (held)

/-- A bit is marked when it is not clear. -/
theorem held_iff_clearBits (b : BitMap) (x : Int) :
    held b x ↔ 0 ≤ x ∧ x < b.numBits ∧ x.toNat ∉ b.clearBits := by
  rw [held, BitMap.mem_clearBits]
  refine and_congr_right fun h0 => and_congr_right fun hlt => ?_
  have hnat : x.toNat < b.numBits := by omega
  simp [hnat]

/-- Taking the first of the clear bits marks these. -/
theorem held_taken {b b' : BitMap} {taken rest : List Nat} (h : b.clearBits = taken ++ rest)
    (h' : b'.clearBits = rest) (hbits : b'.numBits = b.numBits) (x : Int) :
    held b' x ↔ x ∈ taken.map Int.ofNat ∨ held b x := by
  have hnodup := b.clearBits_nodup
  rw [h, List.nodup_append'] at hnodup
  rw [held_iff_clearBits, held_iff_clearBits, h, h', hbits, List.mem_append, List.mem_map]
  constructor
  · rintro ⟨h0, hlt, hrest⟩
    by_cases htaken : x.toNat ∈ taken
    · exact .inl ⟨x.toNat, htaken, Int.toNat_of_nonneg h0⟩
    · exact .inr ⟨h0, hlt, fun hmem => hmem.elim htaken hrest⟩
  · rintro (⟨j, hj, rfl⟩ | ⟨h0, hlt, hboth⟩)
    · have hmem : j ∈ b.clearBits := h ▸ List.mem_append_left _ hj
      have hlt := (BitMap.mem_clearBits.mp hmem).1
      exact ⟨Int.natCast_nonneg j, Int.ofNat_lt.mpr hlt, fun hrest => hnodup.2.2 hj hrest⟩
    · exact ⟨h0, hlt, fun hrest => hboth (.inr hrest)⟩

/-! ## `Allocate` and `Deallocate` -/

/-- `divRoundUp` of a signed number. -/
def divRoundUpInt (n : Int) (s : Nat) : Int := n.tdiv s + if 0 < n.tmod s then 1 else 0

namespace FileHeader

/-- The loop of `FileHeader::Allocate` from the `i`th data sector on, `n` times. -/
def allocateSectors : Nat → Nat → (Nat → Int) → BitMap → Except Failure ((Nat → Int) × BitMap)
  | 0, _, dataSectors, freeMap => .ok (dataSectors, freeMap)
  | n + 1, i, dataSectors, freeMap =>
    if i < NumDirect then
      let (slot, freeMap) := freeMap.findFreeSlot
      allocateSectors n (i + 1) (update dataSectors i slot) freeMap
    else .error .bounds

/-- `FileHeader::Allocate`; `none` stands for `FALSE`. -/
def allocate (h : FileHeader) (freeMap : BitMap) (fileSize : Int) :
    Except Failure (Option (FileHeader × BitMap)) :=
  let numSectors := divRoundUpInt fileSize SectorSize
  if (freeMap.numClear : Int) < numSectors then .ok none
  else do
    let (dataSectors, freeMap) ← allocateSectors numSectors.toNat 0 h.dataSectors freeMap
    pure (some (⟨fileSize, numSectors, dataSectors⟩, freeMap))

/-- The body of the loop of `FileHeader::Deallocate`. -/
def deallocateSector (freeMap : BitMap) (sector : Int) : Except Failure BitMap :=
  match freeMap.test sector with
  | none => .error .bitmap
  | some false => .error .deallocate
  | some true => match freeMap.clear sector with
      | none => .error .bitmap
      | some freeMap => .ok freeMap

/-- `FileHeader::Deallocate`. -/
def deallocate (h : FileHeader) (freeMap : BitMap) : Except Failure BitMap :=
  (List.range h.numSectors.toNat).foldlM (fun freeMap i =>
    if i < NumDirect then deallocateSector freeMap (h.dataSectors i) else .error .bounds) freeMap

theorem divRoundUpInt_natCast (n s : Nat) : divRoundUpInt n s = divRoundUp n s := by
  unfold divRoundUpInt divRoundUp
  rw [Int.tdiv_eq_ediv_of_nonneg (Int.natCast_nonneg n),
    Int.tmod_eq_emod_of_nonneg (Int.natCast_nonneg n), ← Int.natCast_ediv, ← Int.natCast_emod]
  by_cases hrest : 0 < n % s
  · rw [if_pos (by exact_mod_cast hrest), if_pos hrest]
    rfl
  · rw [if_neg (by exact_mod_cast hrest), if_neg hrest]
    rfl

/-- The loop takes the least clear bits, in order, and marks them. -/
theorem allocateSectors_spec {n i : Nat} {dataSectors : Nat → Int} {freeMap : BitMap}
    (hn : n ≤ freeMap.clearBits.length) (hi : i + n ≤ NumDirect) :
    ∃ dataSectors' freeMap',
      allocateSectors n i dataSectors freeMap = .ok (dataSectors', freeMap') ∧
      (List.range' i n).map dataSectors' = (freeMap.clearBits.take n).map Int.ofNat ∧
      (∀ j < i, dataSectors' j = dataSectors j) ∧ freeMap'.numBits = freeMap.numBits ∧
      freeMap'.clearBits = freeMap.clearBits.drop n := by
  induction n generalizing i dataSectors freeMap with
  | zero => exact ⟨dataSectors, freeMap, rfl, by simp, fun _ _ => rfl, rfl, rfl⟩
  | succ n ih =>
    cases hc : freeMap.clearBits with
    | nil => simp [hc] at hn
    | cons f rest =>
      have hrest := BitMap.clearBits_markBit hc
      obtain ⟨dataSectors', freeMap', heq, hsectors, hold, hbits, hclear⟩ :=
        @ih (i + 1) (update dataSectors i f) (freeMap.markBit f)
          (by rw [hrest]; simpa [hc] using hn) (by omega)
      rw [hrest] at hsectors hclear
      refine ⟨dataSectors', freeMap', ?_, ?_, fun j hj => ?_, hbits, hclear⟩
      · rw [allocateSectors, if_pos (by omega), BitMap.findFreeSlot_cons hc]
        exact heq
      · rw [List.range'_succ, List.map_cons, hsectors, hold i (by omega),
          update_self]
        rfl
      · rw [hold j (by omega), update_of_ne (by omega)]

/-- The sectors `Allocate` takes for a file of `n` bytes. -/
def allotted (freeMap : BitMap) (n : Nat) : List Int :=
  (freeMap.clearBits.take (divRoundUp n SectorSize)).map Int.ofNat

theorem allocate_none {h : FileHeader} {freeMap : BitMap} {n : Nat}
    (hfew : freeMap.clearBits.length < divRoundUp n SectorSize) :
    h.allocate freeMap n = .ok none := by
  unfold allocate
  dsimp only
  rw [divRoundUpInt_natCast, freeMap.numClear_eq_length, if_pos (by exact_mod_cast hfew)]

/-- `Allocate` makes a header for the file and marks its sectors. -/
theorem allocate_some {h : FileHeader} {freeMap : BitMap} {n : Nat} (hn : n ≤ MaxFileSize)
    (hbits : freeMap.numBits = NumSectors)
    (hroom : divRoundUp n SectorSize ≤ freeMap.clearBits.length) :
    ∃ hdr freeMap', h.allocate freeMap n = .ok (some (hdr, freeMap')) ∧ hdr.Formed ∧
      hdr.numBytes = n ∧ hdr.sectors = allotted freeMap n ∧
      freeMap'.numBits = freeMap.numBits ∧
      freeMap'.clearBits = freeMap.clearBits.drop (divRoundUp n SectorSize) := by
  have hlarge := divRoundUp_le hn
  obtain ⟨dataSectors, freeMap', heq, hsectors, -, hnum, hclear⟩ :=
    @allocateSectors_spec (divRoundUp n SectorSize) 0 h.dataSectors freeMap hroom (by omega)
  have hdata : (FileHeader.mk n (divRoundUp n SectorSize) dataSectors).sectors =
      allotted freeMap n := by
    rw [sectors, Int.toNat_natCast, List.range_eq_range', hsectors, allotted]
  refine ⟨⟨n, divRoundUp n SectorSize, dataSectors⟩, freeMap', ?_, ⟨?_, ?_, ?_⟩, rfl, hdata,
    hnum, hclear⟩
  · unfold allocate
    dsimp only
    rw [divRoundUpInt_natCast, freeMap.numClear_eq_length,
      if_neg (by exact_mod_cast not_lt.mpr hroom), Int.toNat_natCast, heq]
    rfl
  · exact ⟨Int.natCast_nonneg n, Int.ofNat_le.mpr hn⟩
  · simp
  · intro x hx
    rw [hdata, allotted, List.mem_map] at hx
    obtain ⟨j, hj, rfl⟩ := hx
    have hlt := (BitMap.mem_clearBits.mp (List.mem_of_mem_take hj)).1
    rw [hbits] at hlt
    exact ⟨Int.natCast_nonneg j, Int.ofNat_lt.mpr hlt⟩

theorem deallocateSector_ok {freeMap : BitMap} {sector : Int} (h : held freeMap sector) :
    deallocateSector freeMap sector = .ok (freeMap.clearBit sector.toNat) := by
  obtain ⟨h0, hlt, hbit⟩ := h
  simp [deallocateSector, BitMap.test, BitMap.clear, h0, hlt, hbit]

theorem held_clearBit {freeMap : BitMap} {sector : Int} (h : held freeMap sector) (x : Int) :
    held (freeMap.clearBit sector.toNat) x ↔ held freeMap x ∧ x ≠ sector := by
  obtain ⟨h0, hlt, -⟩ := h
  simp only [held, BitMap.clearBit_numBits]
  constructor
  · rintro ⟨hx, hxlt, hbit⟩
    rw [BitMap.bit_clearBit (by omega)] at hbit
    simp only [Bool.and_eq_true, Bool.not_eq_true', decide_eq_false_iff_not] at hbit
    exact ⟨⟨hx, hxlt, hbit.2⟩, fun heq => hbit.1 (by rw [heq])⟩
  · rintro ⟨⟨hx, hxlt, hbit⟩, hne⟩
    refine ⟨hx, hxlt, ?_⟩
    rw [BitMap.bit_clearBit (by omega), hbit]
    have hne : ¬ x.toNat = sector.toNat := by omega
    simp [hne]

/-- Marked sectors that are pairwise distinct are cleared one after the other. -/
theorem foldlM_deallocate {h : FileHeader} {freeMap : BitMap} {l : List Nat}
    (hl : ∀ i ∈ l, i < NumDirect) (hnodup : (l.map h.dataSectors).Nodup)
    (hheld : ∀ x ∈ l.map h.dataSectors, held freeMap x) :
    ∃ freeMap', l.foldlM (fun freeMap i =>
        if i < NumDirect then deallocateSector freeMap (h.dataSectors i) else .error .bounds)
          freeMap = .ok freeMap' ∧
      freeMap'.numBits = freeMap.numBits ∧
      ∀ x, held freeMap' x ↔ held freeMap x ∧ x ∉ l.map h.dataSectors := by
  induction l generalizing freeMap with
  | nil => exact ⟨freeMap, rfl, rfl, by simp⟩
  | cons i rest ih =>
    rw [List.map_cons, List.nodup_cons] at hnodup
    have hi := hheld (h.dataSectors i) (by simp)
    obtain ⟨freeMap', hfold, hbits, hheld'⟩ :=
      @ih (freeMap.clearBit (h.dataSectors i).toNat)
        (fun j hj => hl j (List.mem_cons_of_mem _ hj)) hnodup.2 fun x hx =>
          (held_clearBit hi x).mpr ⟨hheld x (by simp [hx]), fun heq => hnodup.1 (heq ▸ hx)⟩
    refine ⟨freeMap', ?_, hbits, fun x => ?_⟩
    · rw [List.foldlM_cons, if_pos (hl i List.mem_cons_self), deallocateSector_ok hi]
      exact hfold
    · rw [hheld', held_clearBit hi, List.map_cons, List.mem_cons, not_or, and_assoc]

/-- `Deallocate` clears the sectors of a file whose sectors are marked and distinct. -/
theorem deallocate_spec {h : FileHeader} {freeMap : BitMap} (hf : h.Formed)
    (hnodup : h.sectors.Nodup) (hheld : ∀ x ∈ h.sectors, held freeMap x) :
    ∃ freeMap', h.deallocate freeMap = .ok freeMap' ∧ freeMap'.numBits = freeMap.numBits ∧
      ∀ x, held freeMap' x ↔ held freeMap x ∧ x ∉ h.sectors :=
  foldlM_deallocate (fun i hi => by have := List.mem_range.mp hi; have := hf.numSectors_le; omega)
    hnodup hheld

end FileHeader

end Filesys

end Nachos
