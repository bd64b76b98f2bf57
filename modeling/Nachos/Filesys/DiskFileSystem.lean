import Nachos.Filesys.Allocation
import Nachos.Filesys.Directory

/-!
# The file system on the disk

`FileSystem` of `filesys/filesys.cc` in the build with `FILESYS`: the branch of the constructor that
formats the disk, `Create` and `Remove`. The constructor also calls `Create` and `Open` before it
has opened its two files; a run starts here with the disk that the branch has written.

`Sound` is the invariant of the disk: the marked bits of the bitmap are partitioned among the file
system itself and the files in the directory.
-/

namespace Nachos.Filesys

open WordBytes Ownership Function FileHeader BitMap
open Frames (held)

/-- `FreeMapSector` of `filesys.cc`. -/
def FreeMapSector : Int := 0

/-- `DirectorySector` of `filesys.cc`. -/
def DirectorySector : Int := 1

/-- `FreeMapFileSize` of `filesys.cc`. -/
def FreeMapFileSize : Nat := NumSectors / 8

/-- `DirectoryFileSize` of `filesys.cc`. -/
def DirectoryFileSize : Nat := entrySize * NumDirEntries

/-- What the memory holds that `new` delivers in one operation, call by call. -/
abbrev Heap := Nat → Bytes

/-- `FileSystem`: the two files that are left open, by their headers in memory. -/
structure FileSystem where
  freeMapFile : FileHeader
  directoryFile : FileHeader

/-- A value that an assertion asks for. -/
def asserted {α : Type} (failure : Failure) : Option α → Except Failure α
  | some a => .ok a
  | none => .error failure

/-- The first half of formatting, in memory: the headers of the bitmap and the directory and the
bitmap in which their sectors are marked. -/
def prepare (raw : Heap) : Except Failure (FileHeader × FileHeader × BitMap) := do
  let freeMap := BitMap.new NumSectors (unpack (raw 0))
  -- first, allocate space for the headers of the directory and bitmap
  let freeMap ← asserted .bitmap (freeMap.mark FreeMapSector)
  let freeMap ← asserted .bitmap (freeMap.mark DirectorySector)
  -- second, allocate space for the data blocks of the two files
  let r ← (FileHeader.ofBytes (raw 2)).allocate freeMap FreeMapFileSize
  let (mapHdr, freeMap) ← asserted .format r
  let r ← (FileHeader.ofBytes (raw 3)).allocate freeMap DirectoryFileSize
  let (dirHdr, freeMap) ← asserted .format r
  pure (mapHdr, dirHdr, freeMap)

/-- `FileSystem::FileSystem`, the branch that formats the disk. The four calls for `stdin` and
`stdout` before it, which use files that are not open yet, are left out. -/
def format (disk : Disk) (raw : Heap) : Except Failure (FileSystem × Disk) := do
  let directory := Directory.new NumDirEntries (raw 1)
  let (mapHdr, dirHdr, freeMap) ← prepare raw
  -- flush the headers back to disk
  let disk ← mapHdr.writeBack disk FreeMapSector
  let disk ← dirHdr.writeBack disk DirectorySector
  -- open the bitmap and directory files
  let freeMapFile ← FileHeader.fetchFrom disk FreeMapSector
  let directoryFile ← FileHeader.fetchFrom disk DirectorySector
  -- write the initial version of each file back to disk
  let disk ← freeMap.writeBack disk freeMapFile (raw 4)
  let disk ← directory.writeBack disk directoryFile (raw 5)
  pure (⟨freeMapFile, directoryFile⟩, disk)

/-- The middle of `FileSystem::Create`, in memory: a sector for the header, an entry in the
directory, sectors for the data. `none` when one of them is not to be had. -/
def reserve (directory : Directory) (freeMap : BitMap) (raw : Bytes) (name : CString)
    (initialSize : Int) : Except Failure (Option (Int × Directory × FileHeader × BitMap)) :=
  let (sector, freeMap) := freeMap.findFreeSlot
  if sector = -1 then .ok none
  else match directory.add name sector with
    | none => .ok none
    | some directory => do
      let r ← (FileHeader.ofBytes raw).allocate freeMap initialSize
      pure (r.map fun (hdr, freeMap) => (sector, directory, hdr, freeMap))

/-- The end of `FileSystem::Create`: everything worked, flush all changes back to disk. -/
def FileSystem.flush (fs : FileSystem) (disk : Disk) (raw : Heap) (sector : Int)
    (directory : Directory) (hdr : FileHeader) (freeMap : BitMap) : Except Failure Disk := do
  let disk ← hdr.writeBack disk sector
  let disk ← directory.writeBack disk fs.directoryFile (raw 3)
  freeMap.writeBack disk fs.freeMapFile (raw 4)

/-- `FileSystem::Create` up to its first write: what it is going to write. -/
def FileSystem.planCreate (fs : FileSystem) (disk : Disk) (raw : Heap) (name : CString)
    (initialSize : Int) : Except Failure (Option (Int × Directory × FileHeader × BitMap)) := do
  let directory ← (Directory.new NumDirEntries (raw 0)).fetchFrom disk fs.directoryFile
  if directory.find name ≠ -1 then pure none
  else
    let freeMap ← (BitMap.new NumSectors (unpack (raw 1))).fetchFrom disk fs.freeMapFile
    reserve directory freeMap (raw 2) name initialSize

/-- `FileSystem::Create`. The result is `none` for `FALSE`, and for `TRUE` the sector of the
header, which the source forgets. -/
def FileSystem.create (fs : FileSystem) (disk : Disk) (raw : Heap) (name : CString)
    (initialSize : Int) : Except Failure (Option Int × Disk) := do
  match ← fs.planCreate disk raw name initialSize with
  | none => pure (none, disk)
  | some (sector, directory, hdr, freeMap) =>
    let disk ← fs.flush disk raw sector directory hdr freeMap
    pure (some sector, disk)

/-- `FileSystem::Remove` up to its first write. -/
def FileSystem.planRemove (fs : FileSystem) (disk : Disk) (raw : Heap) (name : CString) :
    Except Failure (Option (Int × BitMap × Directory)) := do
  let directory ← (Directory.new NumDirEntries (raw 0)).fetchFrom disk fs.directoryFile
  let sector := directory.find name
  if sector = -1 then pure none
  else
    let fileHdr ← FileHeader.fetchFrom disk sector
    let freeMap ← (BitMap.new NumSectors (unpack (raw 1))).fetchFrom disk fs.freeMapFile
    let freeMap ← fileHdr.deallocate freeMap
    let freeMap ← asserted .bitmap (freeMap.clear sector)
    -- the result of `Directory::Remove` is not looked at
    pure (some (sector, freeMap, (directory.remove name).getD directory))

/-- `FileSystem::Remove`, with the same kind of result. -/
def FileSystem.remove (fs : FileSystem) (disk : Disk) (raw : Heap) (name : CString) :
    Except Failure (Option Int × Disk) := do
  match ← fs.planRemove disk raw name with
  | none => pure (none, disk)
  | some (sector, freeMap, directory) =>
    let disk ← freeMap.writeBack disk fs.freeMapFile (raw 2)
    let disk ← directory.writeBack disk fs.directoryFile (raw 3)
    pure (some sector, disk)

/-! ## Sound disks -/

/-- The sector of the bitmap. -/
def FreeMapData : Int := 2

/-- The sector of the directory. -/
def DirectoryData : Int := 3

/-- The sectors of the file system itself: two headers, the bitmap and the directory. -/
def systemSectors : List Int := [FreeMapSector, DirectorySector, FreeMapData, DirectoryData]

/-- The bitmap on the disk. -/
def freeMapOn (disk : Disk) : BitMap := BitMap.ofBytes NumSectors (disk FreeMapData)

/-- The directory on the disk. -/
def directoryOn (disk : Disk) : Directory := Directory.ofBytes (disk DirectoryData) NumDirEntries

/-- The header in a sector. -/
def headerOn (disk : Disk) (sector : Int) : FileHeader := FileHeader.ofBytes (disk sector)

/-- The files on the disk. -/
def filesOn (disk : Disk) : List (Key × Int) := (directoryOn disk).files

/-- The sectors of a file: its header and its data. -/
def fileSectors (disk : Disk) (f : Key × Int) : List Int := f.2 :: (headerOn disk f.2).sectors

/-- A disk as the file system keeps it. -/
structure Sound (fs : FileSystem) (disk : Disk) : Prop where
  mapFile : fs.freeMapFile.OneSector FreeMapFileSize FreeMapData
  directoryFile : fs.directoryFile.OneSector DirectoryFileSize DirectoryData
  mapHeader : (headerOn disk FreeMapSector).OneSector FreeMapFileSize FreeMapData
  directoryHeader : (headerOn disk DirectorySector).OneSector DirectoryFileSize DirectoryData
  owned : Owned (held (freeMapOn disk)) (systemSectors :: (filesOn disk).map (fileSectors disk))
  formed : ∀ f ∈ filesOn disk, (headerOn disk f.2).Formed
  keys : ((filesOn disk).map Prod.fst).Nodup

variable {b : BitMap} {file : FileHeader} {table : Directory} {h : FileHeader} {n i : Nat}
  {rest : List Nat}

theorem freeMapSize (h : b.numBits = NumSectors) : b.map.length * 4 = FreeMapFileSize := by
  rw [b.numWords, h]
  decide

theorem directorySize (h : table.length = NumDirEntries) :
    table.length * entrySize = DirectoryFileSize := by
  rw [h]
  decide

/-- The bitmap is fetched from its file. -/
theorem fetch_freeMap (h : file.OneSector FreeMapFileSize FreeMapData) (disk : Disk)
    (raw : Nat → BitVec 32) :
    (BitMap.new NumSectors raw).fetchFrom disk file = .ok (freeMapOn disk) := by
  have hbits : (BitMap.new NumSectors raw).numBits = NumSectors := new_numBits _ _
  rw [← freeMapSize hbits] at h
  rw [fetchFrom_eq h, hbits]
  rfl

/-- The directory is fetched from its file. -/
theorem fetch_directory (h : file.OneSector DirectoryFileSize DirectoryData) (disk : Disk)
    (raw : Bytes) :
    (Directory.new NumDirEntries raw).fetchFrom disk file = .ok (directoryOn disk) := by
  have hlength := Directory.length_new NumDirEntries raw
  rw [← directorySize hlength] at h
  rw [Directory.fetchFrom_eq h, hlength]
  rfl

/-- A header is fetched from its sector. -/
theorem fetch_header {disk : Disk} {sector : Int} (h : 0 ≤ sector ∧ sector < NumSectors) :
    FileHeader.fetchFrom disk sector = .ok (headerOn disk sector) := by
  rw [FileHeader.fetchFrom, readSector_ok h]
  rfl

theorem write_freeMap (h : file.OneSector FreeMapFileSize FreeMapData) (disk : Disk) (raw : Bytes)
    (hb : b.numBits = NumSectors) :
    ∃ data, b.writeBack disk file raw = .ok (update disk FreeMapData data) ∧
      BitMap.ofBytes NumSectors data = b := by
  rw [← freeMapSize hb] at h
  obtain ⟨data, hwrite, hdata⟩ := writeBack_spec disk raw h
  exact ⟨data, hwrite, hb ▸ hdata⟩

theorem write_directory (h : file.OneSector DirectoryFileSize DirectoryData) (disk : Disk)
    (raw : Bytes) (htable : table.length = NumDirEntries)
    (hfiles : ∀ f ∈ table.files, 0 ≤ f.2 ∧ f.2 < NumSectors) :
    ∃ data, table.writeBack disk file raw = .ok (update disk DirectoryData data) ∧
      (Directory.ofBytes data NumDirEntries).files = table.files := by
  rw [← directorySize htable] at h
  obtain ⟨data, hwrite, hdata⟩ := Directory.writeBack_spec disk raw h hfiles
  exact ⟨data, hwrite, htable ▸ hdata⟩

namespace Sound

variable {fs : FileSystem} {disk disk' : Disk} {f : Key × Int}

/-- The sectors of a file are marked, and they are not those of the file system. -/
theorem marked (h : Sound fs disk) (hf : f ∈ filesOn disk) {x : Int} (hx : x ∈ fileSectors disk f) :
    held (freeMapOn disk) x ∧ x ∉ systemSectors := by
  have hblock := List.mem_map_of_mem (f := fileSectors disk) hf
  refine ⟨(h.owned.held_iff x).mpr ?_, fun hsystem => ?_⟩
  · exact List.mem_flatten.mpr ⟨_, List.mem_cons_of_mem _ hblock, hx⟩
  · exact (List.pairwise_cons.mp h.owned.pairwise_disjoint).1 _ hblock hsystem hx

theorem sectors_nodup (h : Sound fs disk) (hf : f ∈ filesOn disk) : (fileSectors disk f).Nodup :=
  h.owned.nodup_of_mem (List.mem_cons_of_mem _ (List.mem_map_of_mem hf))

/-- A file in the directory has its header on the disk. -/
theorem header_onDisk (h : Sound fs disk) (hf : f ∈ filesOn disk) : 0 ≤ f.2 ∧ f.2 < NumSectors := by
  obtain ⟨⟨h0, hlt, -⟩, -⟩ := h.marked hf List.mem_cons_self
  exact ⟨h0, hlt⟩

/-- Only the sectors of the file system and the headers count. -/
theorem congr (h : Sound fs disk) (hsystem : ∀ x ∈ systemSectors, disk' x = disk x)
    (hheaders : ∀ f ∈ filesOn disk, disk' f.2 = disk f.2) : Sound fs disk' := by
  have hmap : freeMapOn disk' = freeMapOn disk := by
    rw [freeMapOn, hsystem FreeMapData (by decide), freeMapOn]
  have hfiles : filesOn disk' = filesOn disk := by
    rw [filesOn, directoryOn, hsystem DirectoryData (by decide), filesOn, directoryOn]
  have hheader : ∀ x, disk' x = disk x → headerOn disk' x = headerOn disk x := fun x hx => by
    rw [headerOn, hx, headerOn]
  have hblocks : (filesOn disk).map (fileSectors disk') =
      (filesOn disk).map (fileSectors disk) := by
    refine List.map_congr_left fun f hf => ?_
    rw [fileSectors, hheader f.2 (hheaders f hf), fileSectors]
  refine ⟨h.mapFile, h.directoryFile, ?_, ?_, ?_, fun f hf => ?_, by rw [hfiles]; exact h.keys⟩
  · rw [hheader _ (hsystem FreeMapSector (by decide))]
    exact h.mapHeader
  · rw [hheader _ (hsystem DirectorySector (by decide))]
    exact h.directoryHeader
  · rw [hmap, hfiles, hblocks]
    exact h.owned
  · rw [hfiles] at hf
    rw [hheader f.2 (hheaders f hf)]
    exact h.formed f hf

end Sound

/-! ## What the operations do to a sound disk -/

/-- The disk after a `Create` that has returned `TRUE`. -/
structure Created (disk : Disk) (name : CString) (n : Nat) (sector : Int) (disk' : Disk) :
    Prop where
  new : ∀ f ∈ filesOn disk, f.1 ≠ name.key
  taken : ∃ taken, (freeMapOn disk).clearBits = taken ++ (freeMapOn disk').clearBits ∧
    taken.map Int.ofNat = fileSectors disk' (name.key, sector)
  formed : (headerOn disk' sector).Formed
  numBytes : (headerOn disk' sector).numBytes = n
  files : ∃ before after, filesOn disk = before ++ after ∧
    filesOn disk' = before ++ (name.key, sector) :: after
  frame : ∀ x, x ≠ sector → x ≠ FreeMapData → x ≠ DirectoryData → disk' x = disk x

/-- The disk after a `Remove` that has returned `TRUE`. -/
structure Removed (disk : Disk) (name : CString) (sector : Int) (disk' : Disk) : Prop where
  files : ∃ before after, filesOn disk = before ++ (name.key, sector) :: after ∧
    filesOn disk' = before ++ after
  cleared : ∀ x, held (freeMapOn disk') x ↔
    held (freeMapOn disk) x ∧ x ∉ fileSectors disk (name.key, sector)
  frame : ∀ x, x ≠ FreeMapData → x ≠ DirectoryData → disk' x = disk x

/-- There is room for a file: its name is new, an entry is not in use, and there are sectors for the
header and the data. -/
def Room (disk : Disk) (name : CString) (n : Nat) : Prop :=
  (∀ f ∈ filesOn disk, f.1 ≠ name.key) ∧ (filesOn disk).length < NumDirEntries ∧
    divRoundUp n SectorSize < (freeMapOn disk).clearBits.length

/-- A header with one short sector. -/
theorem FileHeader.Formed.oneSector {d : Int} (hf : h.Formed) (hnum : h.numBytes = n)
    (hsectors : h.sectors = [d]) (hshort : 0 < n ∧ n ≤ SectorSize) : h.OneSector n d := by
  have hone : h.numSectors.toNat = 1 := by
    have hlength := congrArg List.length hsectors
    simpa [sectors] using hlength
  refine ⟨hf, hnum, ?_, hshort⟩
  rw [sectors, hone] at hsectors
  simpa using hsectors

section Operations

variable {fs : FileSystem} {disk disk' : Disk} {name : CString} {n : Nat} {sector : Int} {x : Int}
  {f : Key × Int}

/-- The sectors that have been taken were clear. -/
theorem Created.fresh (hc : Created disk name n sector disk')
    (hx : x ∈ fileSectors disk' (name.key, sector)) : ¬ held (freeMapOn disk) x := by
  obtain ⟨taken, hclear, htaken⟩ := hc.taken
  intro hmarked
  rw [← htaken, List.mem_map] at hx
  obtain ⟨j, hj, rfl⟩ := hx
  exact ((held_iff_clearBits _ _).mp hmarked).2.2 (hclear ▸ List.mem_append_left _ hj)

/-- What is marked stays where it is, apart from the bitmap and the directory. -/
theorem Created.kept (hc : Created disk name n sector disk') (hx : held (freeMapOn disk) x)
    (hmap : x ≠ FreeMapData) (hdirectory : x ≠ DirectoryData) :
    headerOn disk' x = headerOn disk x := by
  have hne : x ≠ sector := fun heq => hc.fresh List.mem_cons_self (heq ▸ hx)
  rw [headerOn, hc.frame x hne hmap hdirectory, headerOn]

/-- The bitmap and the directory are not in sectors of files. -/
theorem Sound.not_system (h : Sound fs disk) (hf : f ∈ filesOn disk) (hx : x ∈ fileSectors disk f) :
    x ≠ FreeMapData ∧ x ≠ DirectoryData := by
  obtain ⟨-, hnot⟩ := h.marked hf hx
  exact ⟨fun heq => hnot (heq ▸ by decide), fun heq => hnot (heq ▸ by decide)⟩

/-- The files after a `Create`. -/
theorem Created.mem_files (hc : Created disk name n sector disk') (f : Key × Int) :
    f ∈ filesOn disk' ↔ f = (name.key, sector) ∨ f ∈ filesOn disk := by
  obtain ⟨before, after, hfiles, hfiles'⟩ := hc.files
  rw [hfiles, hfiles', List.mem_append, List.mem_append, List.mem_cons, or_left_comm]

theorem Removed.mem (hr : Removed disk name sector disk') :
    (name.key, sector) ∈ filesOn disk := by
  obtain ⟨before, after, hfiles, -⟩ := hr.files
  exact hfiles ▸ List.mem_append_right _ List.mem_cons_self

/-- The files after a `Remove`. -/
theorem Removed.mem_files (hr : Removed disk name sector disk') (h : Sound fs disk)
    (f : Key × Int) : f ∈ filesOn disk' ↔ f ∈ filesOn disk ∧ f.1 ≠ name.key := by
  obtain ⟨before, after, hfiles, hfiles'⟩ := hr.files
  have hkeys := h.keys
  rw [hfiles, List.map_append, List.map_cons, List.nodup_middle, List.nodup_cons,
    ← List.map_append] at hkeys
  rw [hfiles, hfiles', List.mem_append, List.mem_append, List.mem_cons]
  constructor
  · intro hmem
    exact ⟨hmem.imp_right .inr, fun heq =>
      hkeys.1 (List.mem_map.mpr ⟨f, List.mem_append.mpr hmem, heq⟩)⟩
  · rintro ⟨hmem | rfl | hmem, hne⟩
    · exact .inl hmem
    · exact absurd rfl hne
    · exact .inr hmem

theorem Sound.created_header (h : Sound fs disk) (hc : Created disk name n sector disk')
    (hf : f ∈ filesOn disk) : headerOn disk' f.2 = headerOn disk f.2 := by
  have hnot := h.not_system hf List.mem_cons_self
  exact hc.kept (h.marked hf List.mem_cons_self).1 hnot.1 hnot.2

theorem Sound.removed_header (h : Sound fs disk) (hr : Removed disk name sector disk')
    (hf : f ∈ filesOn disk) : headerOn disk' f.2 = headerOn disk f.2 := by
  have hnot := h.not_system hf List.mem_cons_self
  rw [headerOn, headerOn, hr.frame f.2 hnot.1 hnot.2]

theorem Sound.created (h : Sound fs disk) (hc : Created disk name n sector disk') :
    Sound fs disk' := by
  obtain ⟨taken, hclear, htaken⟩ := hc.taken
  obtain ⟨before, after, hfiles, hfiles'⟩ := hc.files
  have hheld := held_taken hclear rfl rfl
  rw [htaken] at hheld
  have hnodup : (fileSectors disk' (name.key, sector)).Nodup := by
    have hbits := (freeMapOn disk).clearBits_nodup
    rw [hclear] at hbits
    rw [← htaken]
    exact (List.nodup_append.mp hbits).1.map Int.ofNat_injective
  have hsystem : ∀ x ∈ systemSectors, held (freeMapOn disk) x := fun x hx =>
    (h.owned.held_iff x).mpr (List.mem_flatten.mpr ⟨_, List.mem_cons_self, hx⟩)
  have hother : ∀ f ∈ filesOn disk, headerOn disk' f.2 = headerOn disk f.2 := fun f hf =>
    h.created_header hc hf
  have hblocks : ∀ l : List (Key × Int), (∀ f ∈ l, f ∈ filesOn disk) →
      l.map (fileSectors disk') = l.map (fileSectors disk) := fun l hl =>
    List.map_congr_left fun f hf => by rw [fileSectors, hother f (hl f hf), fileSectors]
  refine ⟨h.mapFile, h.directoryFile, ?_, ?_, ?_, fun f hf => ?_, ?_⟩
  · rw [hc.kept (hsystem _ (by decide)) (by decide) (by decide)]
    exact h.mapHeader
  · rw [hc.kept (hsystem _ (by decide)) (by decide) (by decide)]
    exact h.directoryHeader
  · have hacquired := h.owned.acquire hnodup (fun x hx => hc.fresh hx) hheld
    refine hacquired.perm ?_
    rw [hfiles', hfiles, List.map_append, List.map_append, List.map_cons,
      hblocks before fun f hf => hfiles ▸ List.mem_append_left _ hf,
      hblocks after fun f hf => hfiles ▸ List.mem_append_right _ hf, List.cons_append,
      List.append_assoc]
    refine List.Perm.cons _ (List.Perm.append_left _ ?_)
    exact List.perm_append_comm
  · rcases (hc.mem_files f).mp hf with rfl | hf
    · exact hc.formed
    · rw [hother f hf]
      exact h.formed f hf
  · have hkeys := h.keys
    have hnew : ∀ f ∈ before ++ after, f.1 ≠ name.key := hfiles ▸ hc.new
    rw [hfiles] at hkeys
    rw [hfiles', List.map_append, List.map_cons, List.nodup_middle, List.nodup_cons,
      ← List.map_append]
    refine ⟨fun hmem => ?_, hkeys⟩
    obtain ⟨f, hf, heq⟩ := List.mem_map.mp hmem
    exact hnew f hf heq

theorem Sound.removed (h : Sound fs disk) (hr : Removed disk name sector disk') :
    Sound fs disk' := by
  obtain ⟨before, after, hfiles, hfiles'⟩ := hr.files
  have hsub : ∀ f ∈ filesOn disk', f ∈ filesOn disk := fun f hf =>
    ((hr.mem_files h f).mp hf).1
  have hother : ∀ f ∈ filesOn disk, headerOn disk' f.2 = headerOn disk f.2 := fun f hf =>
    h.removed_header hr hf
  have hsystem : ∀ x, x ≠ FreeMapData → x ≠ DirectoryData →
      headerOn disk' x = headerOn disk x := fun x hmap hdirectory => by
    rw [headerOn, hr.frame x hmap hdirectory, headerOn]
  refine ⟨h.mapFile, h.directoryFile, ?_, ?_, ?_, fun f hf => ?_, ?_⟩
  · rw [hsystem _ (by decide) (by decide)]
    exact h.mapHeader
  · rw [hsystem _ (by decide) (by decide)]
    exact h.directoryHeader
  · have howned := h.owned
    have hblocks : (filesOn disk').map (fileSectors disk') =
        (filesOn disk').map (fileSectors disk) :=
      List.map_congr_left fun f hf => by rw [fileSectors, hother f (hsub f hf), fileSectors]
    rw [hfiles, List.map_append, List.map_cons, ← List.cons_append] at howned
    rw [hblocks, hfiles', List.map_append, ← List.cons_append]
    exact howned.release hr.cleared
  · rw [hother f (hsub f hf)]
    exact h.formed f (hsub f hf)
  · refine h.keys.sublist ?_
    rw [hfiles, hfiles', List.map_append, List.map_append, List.map_cons]
    exact (List.Sublist.refl _).append (List.sublist_cons_self _ _)

/-- What is known of the name from the directory. -/
theorem Sound.find_cases (h : Sound fs disk) (name : CString) :
    ((directoryOn disk).find name = -1 ∧ (directoryOn disk).findIndex name = none ∧
      ∀ f ∈ filesOn disk, f.1 ≠ name.key) ∨
    ((directoryOn disk).find name ≠ -1 ∧ (directoryOn disk).findIndex name ≠ none ∧
      (name.key, (directoryOn disk).find name) ∈ filesOn disk) := by
  rcases Directory.find_cases (directoryOn disk) name with ⟨hfind, hindex⟩ | ⟨hmem, i, hindex⟩
  · exact .inl ⟨hfind, hindex, Directory.findIndex_eq_none hindex⟩
  · have honDisk := h.header_onDisk hmem
    exact .inr ⟨by omega, by simp [hindex], hmem⟩

/-- A key stands for one file. -/
theorem Sound.sector_unique (h : Sound fs disk) {key : Key} {y : Int}
    (hx : (key, x) ∈ filesOn disk) (hy : (key, y) ∈ filesOn disk) : x = y :=
  (Prod.mk.inj (List.inj_on_of_nodup_map h.keys hx hy rfl)).2

/-- `Find` of a file that is there. -/
theorem Sound.find_eq (h : Sound fs disk) (hmem : (name.key, sector) ∈ filesOn disk) :
    (directoryOn disk).find name = sector := by
  rcases h.find_cases name with ⟨-, -, hnew⟩ | ⟨-, -, hfound⟩
  · exact absurd rfl (hnew _ hmem)
  · exact h.sector_unique hfound hmem

/-- What the middle of `Create` has made in memory. -/
structure Reserved (directory : Directory) (freeMap : BitMap) (name : CString) (n : Nat)
    (sector : Int) (directory' : Directory) (hdr : FileHeader) (freeMap' : BitMap) : Prop where
  room : divRoundUp n SectorSize < freeMap.clearBits.length
  add : directory.add name sector = some directory'
  formed : hdr.Formed
  numBytes : hdr.numBytes = n
  numBits : freeMap'.numBits = freeMap.numBits
  taken : ∃ taken, freeMap.clearBits = taken ++ freeMap'.clearBits ∧
    taken.map Int.ofNat = sector :: hdr.sectors

section Reserve

variable {directory directory' : Directory} {freeMap freeMap' : BitMap} {hdr : FileHeader}

/-- The middle of `Create` fails without a sector for the header or an entry in the directory, and
otherwise goes on to `Allocate`. -/
theorem reserve_cases (raw : Bytes) (n : Nat) (hindex : directory.findIndex name = none) :
    (¬ (directory.files.length < directory.length ∧ 0 < freeMap.clearBits.length) ∧
      reserve directory freeMap raw name n = .ok none) ∨
    ∃ (i : Nat) (rest : List Nat) (directory' : Directory), freeMap.clearBits = i :: rest ∧
      (freeMap.markBit i).clearBits = rest ∧ directory.add name i = some directory' ∧
      reserve directory freeMap raw name n =
        ((FileHeader.ofBytes raw).allocate (freeMap.markBit i) n >>= fun r =>
          .ok (r.map fun (hdr, freeMap) => ((i : Int), directory', hdr, freeMap))) := by
  unfold reserve
  cases hclear : freeMap.clearBits with
  | nil =>
    refine .inl ⟨fun hroom => by simp at hroom, ?_⟩
    rw [findFreeSlot_nil hclear]
    exact if_pos rfl
  | cons i rest =>
    have hsector : ¬ (i : Int) = -1 := by omega
    rw [findFreeSlot_cons hclear]
    simp only [hsector, if_false]
    cases hadd : directory.add name i with
    | none =>
      refine .inl ⟨fun hroom => ?_, rfl⟩
      obtain ⟨directory', hsome⟩ := Directory.add_ok hindex hroom.1
      cases hadd.symm.trans hsome
    | some directory' =>
      exact .inr ⟨i, rest, directory', rfl, clearBits_markBit hclear, hadd, rfl⟩

/-- The middle of `Create` fails when there is no room, and otherwise takes the least clear bits. -/
theorem reserve_spec (raw : Bytes) (hbits : freeMap.numBits = NumSectors) (hn : n ≤ MaxFileSize)
    (hindex : directory.findIndex name = none) :
    (¬ (directory.files.length < directory.length ∧
        divRoundUp n SectorSize < freeMap.clearBits.length) ∧
      reserve directory freeMap raw name n = .ok none) ∨
    ∃ sector directory' hdr freeMap',
      reserve directory freeMap raw name n = .ok (some (sector, directory', hdr, freeMap')) ∧
      Reserved directory freeMap name n sector directory' hdr freeMap' := by
  rcases @reserve_cases name directory freeMap raw n hindex with
    ⟨hfull, hreserve⟩ | ⟨i, rest, directory', hclear, hrest, hadd, hreserve⟩
  · exact .inl ⟨fun hroom => hfull ⟨hroom.1, by omega⟩, hreserve⟩
  by_cases hfew : rest.length < divRoundUp n SectorSize
  · refine .inl ⟨fun hroom => ?_, ?_⟩
    · have hlarge := hroom.2
      rw [hclear, List.length_cons] at hlarge
      omega
    · rw [hreserve, allocate_none (hrest.symm ▸ hfew)]
      rfl
  · obtain ⟨hdr, freeMap', halloc, hformed, hnum, hsectors, hbits', hclear'⟩ :=
      @allocate_some (FileHeader.ofBytes raw) (freeMap.markBit i) n hn hbits
        (by rw [hrest]; omega)
    refine .inr ⟨i, directory', hdr, freeMap', ?_, ?_, hadd, hformed, hnum, hbits',
      i :: rest.take (divRoundUp n SectorSize), ?_, ?_⟩
    · rw [hreserve, halloc]
      rfl
    · rw [hclear, List.length_cons]
      omega
    · rw [hclear, hclear', hrest, List.cons_append, List.take_append_drop]
    · rw [hsectors, FileHeader.allotted, hrest]
      rfl

/-- The sector of the header was clear. -/
theorem Reserved.clear (hr : Reserved directory freeMap name n sector directory' hdr freeMap') :
    ∃ j : Nat, sector = j ∧ j ∈ freeMap.clearBits := by
  obtain ⟨taken, hclear, htaken⟩ := hr.taken
  cases taken with
  | nil => cases htaken
  | cons j rest =>
    rw [List.map_cons, List.cons.injEq] at htaken
    exact ⟨j, htaken.1.symm, hclear ▸ List.mem_append_left _ List.mem_cons_self⟩

/-- A sector that is clear belongs to nobody. -/
theorem Sound.clear_onDisk (h : Sound fs disk) {j : Nat} (hj : j ∈ (freeMapOn disk).clearBits) :
    (0 ≤ (j : Int) ∧ (j : Int) < NumSectors) ∧ (j : Int) ∉ systemSectors := by
  refine ⟨⟨Int.natCast_nonneg j, Int.ofNat_lt.mpr (mem_clearBits.mp hj).1⟩, fun hmem => ?_⟩
  have hheld := (h.owned.held_iff j).mpr (List.mem_flatten.mpr ⟨_, List.mem_cons_self, hmem⟩)
  exact ((held_iff_clearBits _ _).mp hheld).2.2 hj

/-- The end of `Create` puts on the disk what has been made in memory. -/
theorem flush_spec (h : Sound fs disk) (raw : Heap)
    (hr : Reserved (directoryOn disk) (freeMapOn disk) name n sector directory' hdr freeMap') :
    ∃ disk', fs.flush disk raw sector directory' hdr freeMap' = .ok disk' ∧
      Created disk name n sector disk' := by
  obtain ⟨hnew, hlength, before, after, hfiles, hfiles'⟩ := Directory.add_spec hr.add
  obtain ⟨taken, hclear, htaken⟩ := hr.taken
  have hsector : (0 ≤ sector ∧ sector < NumSectors) ∧ sector ∉ systemSectors := by
    obtain ⟨j, rfl, hj⟩ := hr.clear
    exact h.clear_onDisk hj
  have hnotMap : sector ≠ FreeMapData := fun heq => hsector.2 (heq ▸ by decide)
  have hnotDirectory : sector ≠ DirectoryData := fun heq => hsector.2 (heq ▸ by decide)
  have hranges : ∀ f ∈ directory'.files, 0 ≤ f.2 ∧ f.2 < NumSectors := by
    intro f hf
    have hold : f ∈ before ++ after → 0 ≤ f.2 ∧ f.2 < NumSectors := fun hmem =>
      h.header_onDisk (show f ∈ (directoryOn disk).files from hfiles ▸ hmem)
    rw [hfiles', List.mem_append, List.mem_cons] at hf
    rcases hf with hf | rfl | hf
    · exact hold (List.mem_append_left _ hf)
    · exact hsector.1
    · exact hold (List.mem_append_right _ hf)
  obtain ⟨table, hwriteTable, htable⟩ := write_directory h.directoryFile
    (update disk sector (pack hdr.words)) (raw 3)
    (hlength.trans (Directory.length_ofBytes _ _)) hranges
  obtain ⟨map, hwriteMap, hmap⟩ := write_freeMap h.mapFile
    (update (update disk sector (pack hdr.words)) DirectoryData table) (raw 4)
    hr.numBits
  have hheader := ofBytes_pack hr.formed
  have hheaderOn : headerOn (update (update (update disk sector
      (pack hdr.words)) DirectoryData table) FreeMapData map) sector =
        FileHeader.ofBytes (pack hdr.words) := by
    rw [headerOn, update_of_ne hnotMap, update_of_ne hnotDirectory,
      update_self]
  have hflush : fs.flush disk raw sector directory' hdr freeMap' = .ok (update
      (update (update disk sector (pack hdr.words)) DirectoryData table)
        FreeMapData map) := by
    rw [FileSystem.flush, FileHeader.writeBack, writeSector_ok hsector.1]
    simp only [bind, Except.bind]
    rw [hwriteTable]
    exact hwriteMap
  refine ⟨_, hflush, hnew, ⟨taken, ?_, ?_⟩, ?_, ?_, ⟨before, after, hfiles, ?_⟩,
    fun x hx hxmap hxdirectory => ?_⟩
  · rw [hclear, freeMapOn, update_self, hmap]
  · rw [htaken, fileSectors, hheaderOn, hheader.sectors]
  · rw [hheaderOn]
    exact hheader.formed hr.formed
  · rw [hheaderOn, hheader.numBytes, hr.numBytes]
  · rw [filesOn, directoryOn, update_of_ne (by decide), update_self, htable,
      hfiles']
  · rw [update_of_ne hxmap, update_of_ne hxdirectory, update_of_ne hx]

end Reserve

/-- `Create` succeeds exactly when there is room, and leaves the disk alone otherwise. -/
theorem create_spec (h : Sound fs disk) (raw : Heap) (name : CString) (hn : n ≤ MaxFileSize) :
    (¬ Room disk name n ∧ fs.create disk raw name n = .ok (none, disk)) ∨
      (Room disk name n ∧ ∃ sector disk', fs.create disk raw name n = .ok (some sector, disk') ∧
        Created disk name n sector disk') := by
  have hlength : (directoryOn disk).length = NumDirEntries := Directory.length_ofBytes _ _
  rw [FileSystem.create, FileSystem.planCreate, fetch_directory h.directoryFile, ok_bind]
  rcases h.find_cases name with ⟨hfind, hindex, hnew⟩ | ⟨hfind, -, hmem⟩
  · rw [if_neg (not_not.mpr hfind), fetch_freeMap h.mapFile, ok_bind]
    rcases @reserve_spec name n (directoryOn disk) (freeMapOn disk) (raw 2) rfl hn hindex with
      ⟨hfull, hreserve⟩ | ⟨sector, directory', hdr, freeMap', hreserve, hr⟩
    · rw [hreserve, ok_bind]
      exact .inl ⟨fun hroom => hfull ⟨hlength ▸ hroom.2.1, hroom.2.2⟩, rfl⟩
    · obtain ⟨disk', hflush, hcreated⟩ := flush_spec h raw hr
      refine .inr ⟨⟨hnew, ?_, hr.room⟩, sector, disk', ?_, hcreated⟩
      · exact hlength ▸ Directory.add_room hr.add
      · rw [hreserve, ok_bind]
        dsimp only
        rw [hflush]
        rfl
  · rw [if_pos hfind]
    exact .inl ⟨fun hroom => hroom.1 _ hmem rfl, rfl⟩

/-- `Remove` succeeds exactly when the name is in the directory, and leaves the disk alone
otherwise. No assertion fails. -/
theorem remove_spec (h : Sound fs disk) (raw : Heap) (name : CString) :
    ((∀ f ∈ filesOn disk, f.1 ≠ name.key) ∧ fs.remove disk raw name = .ok (none, disk)) ∨
      ∃ sector disk', fs.remove disk raw name = .ok (some sector, disk') ∧
        Removed disk name sector disk' := by
  rw [FileSystem.remove, FileSystem.planRemove, fetch_directory h.directoryFile, ok_bind]
  rcases h.find_cases name with ⟨hfind, -, hnew⟩ | ⟨hfind, hindex, hmem⟩
  · rw [if_pos hfind]
    exact .inl ⟨hnew, rfl⟩
  · obtain ⟨directory', hremove, hlength', before, after, hfiles, hfiles'⟩ :=
      Directory.remove_spec hindex
    generalize (directoryOn disk).find name = sector at *
    have hlength : (directoryOn disk).length = NumDirEntries := Directory.length_ofBytes _ _
    have honDisk := h.header_onDisk hmem
    have hnodup := h.sectors_nodup hmem
    rw [fileSectors, List.nodup_cons] at hnodup
    obtain ⟨freeMap, hdeallocate, hbits, hheld⟩ := deallocate_spec (h.formed _ hmem)
      hnodup.2 fun x hx => (h.marked hmem (List.mem_cons_of_mem _ hx)).1
    have hsector : held freeMap sector :=
      (hheld sector).mpr ⟨(h.marked hmem List.mem_cons_self).1, hnodup.1⟩
    have hclear : freeMap.clear sector = some (freeMap.clearBit sector.toNat) :=
      if_pos ⟨hsector.1, hsector.2.1⟩
    have hranges : ∀ f ∈ directory'.files, 0 ≤ f.2 ∧ f.2 < NumSectors := fun f hf => by
      refine h.header_onDisk (?_ : f ∈ filesOn disk)
      rw [hfiles', List.mem_append] at hf
      rw [filesOn, hfiles, List.mem_append, List.mem_cons]
      exact hf.imp_right .inr
    obtain ⟨map, hwriteMap, hmap⟩ := write_freeMap h.mapFile disk (raw 2)
      (b := freeMap.clearBit sector.toNat) hbits
    obtain ⟨table, hwriteTable, htable⟩ := write_directory h.directoryFile
      (update disk FreeMapData map) (raw 3) (hlength'.trans hlength) hranges
    refine .inr ⟨sector, update (update disk FreeMapData map) DirectoryData table,
      ?_, ⟨before, after, hfiles, ?_⟩, fun x => ?_, fun x hxmap hxdirectory => ?_⟩
    · rw [if_neg hfind, fetch_header honDisk, ok_bind, fetch_freeMap h.mapFile, ok_bind,
        hdeallocate, ok_bind, hclear, asserted, ok_bind, hremove, pure_bind, Option.getD_some]
      dsimp only
      rw [hwriteMap, ok_bind, hwriteTable]
      rfl
    · rw [filesOn, directoryOn, update_self, htable, hfiles']
    · rw [freeMapOn, update_of_ne (by decide), update_self, hmap,
        held_clearBit hsector, hheld, fileSectors, List.mem_cons, not_or, and_assoc,
        and_comm (a := x ∉ _)]
    · rw [update_of_ne hxdirectory, update_of_ne hxmap]

/-- `Create` takes the least clear bits. -/
theorem Created.fileSectors_eq (hc : Created disk name n sector disk') :
    fileSectors disk' (name.key, sector) =
      ((freeMapOn disk).clearBits.take (divRoundUp n SectorSize + 1)).map Int.ofNat := by
  obtain ⟨taken, hclear, htaken⟩ := hc.taken
  have hlength : taken.length = divRoundUp n SectorSize + 1 := by
    have hsectors := congrArg List.length htaken
    rw [fileSectors, List.length_cons, FileHeader.sectors, List.length_map, List.length_map,
      List.length_range, hc.formed.size, hc.numBytes] at hsectors
    simpa using hsectors
  rw [← htaken, hclear, ← hlength, List.take_left']
  rfl

/-- The first file in the directory. -/
theorem Created.first_file (hc : Created disk name n sector disk') (hfiles : filesOn disk = []) :
    filesOn disk' = [(name.key, sector)] := by
  obtain ⟨before, after, hbefore, hafter⟩ := hc.files
  rw [hfiles, eq_comm, List.append_eq_nil_iff] at hbefore
  rw [hafter, hbefore.1, hbefore.2, List.nil_append]

/-- A file of one whole sector. -/
theorem Created.whole_sector (hc : Created disk name SectorSize sector disk') {i j : Nat}
    {rest : List Nat} (hclear : (freeMapOn disk).clearBits = i :: j :: rest) :
    sector = i ∧ (headerOn disk' i).OneSector SectorSize j := by
  have hsectors := hc.fileSectors_eq
  rw [hclear, show divRoundUp SectorSize SectorSize + 1 = 2 by decide] at hsectors
  obtain ⟨rfl, hdata⟩ : sector = i ∧ (headerOn disk' sector).sectors = [(j : Int)] :=
    List.cons.inj hsectors
  exact ⟨rfl, hc.formed.oneSector hc.numBytes hdata (by decide)⟩

/-- The bits are known by what is marked. -/
theorem clearBits_eq {b b' : BitMap} (hbits : b.numBits = b'.numBits)
    (h : ∀ x, held b x ↔ held b' x) : b.clearBits = b'.clearBits := by
  rw [BitMap.clearBits, BitMap.clearBits, hbits]
  refine List.filter_congr fun i hi => ?_
  have hi := List.mem_range.mp hi
  have hbit : b.bit i = true ↔ b'.bit i = true := by
    simpa [held, hbits, hi] using h i
  rw [Bool.eq_iff_iff.mpr hbit]

/-- A file that is created and removed leaves the bitmap as it was. -/
theorem Removed.restored (hc : Created disk name n sector disk') {disk'' : Disk}
    (hr : Removed disk' name sector disk'') :
    (freeMapOn disk'').clearBits = (freeMapOn disk).clearBits := by
  obtain ⟨taken, hclear, htaken⟩ := hc.taken
  have hheld := held_taken hclear rfl rfl
  rw [htaken] at hheld
  refine clearBits_eq rfl fun x => ?_
  rw [hr.cleared, hheld]
  constructor
  · rintro ⟨hnew | hold, hnot⟩
    · exact absurd hnew hnot
    · exact hold
  · exact fun hold => ⟨.inr hold, fun hnew => hc.fresh hnew hold⟩

end Operations

/-! ## The formatted disk -/

/-- A header that `Allocate` has made for a short file, on the disk. -/
theorem oneSector_allocated {freeMap : BitMap} (hshort : 0 < n ∧ n ≤ SectorSize)
    (hbits : freeMap.numBits = NumSectors) (hclear : freeMap.clearBits = i :: rest) :
    ∃ hdr freeMap', h.allocate freeMap n = .ok (some (hdr, freeMap')) ∧
      (FileHeader.ofBytes (pack hdr.words)).OneSector n i ∧ freeMap'.numBits = NumSectors ∧
      freeMap'.clearBits = rest := by
  have hone : divRoundUp n SectorSize = 1 := by
    rw [divRoundUp_sectorSize]
    unfold SectorSize at hshort
    omega
  have hlarge : n ≤ MaxFileSize := hshort.2.trans (by decide)
  obtain ⟨hdr, freeMap', halloc, hformed, hnum, hsectors, hbits', hclear'⟩ :=
    allocate_some (h := h) hlarge hbits (by rw [hone, hclear]; simp)
  have hsame := ofBytes_pack hformed
  have hdata : hdr.sectors = [(i : Int)] := by
    rw [hsectors, FileHeader.allotted, hone, hclear]
    rfl
  refine ⟨hdr, freeMap', halloc, ?_, hbits'.trans hbits, ?_⟩
  · exact (hsame.formed hformed).oneSector (hsame.numBytes.trans hnum)
      (hsame.sectors.trans hdata) hshort
  · rw [hclear', hone, hclear]
    rfl

theorem clearBits_new (n : Nat) (raw : Nat → BitVec 32) :
    (BitMap.new n raw).clearBits = List.range n := by
  rw [BitMap.clearBits, new_numBits]
  exact List.filter_eq_self.mpr fun i hi => by rw [bit_new (List.mem_range.mp hi)]; rfl

theorem mark_clear (h : b.clearBits = i :: rest) : b.mark i = some (b.markBit i) := by
  have hi := (mem_clearBits.mp (h ▸ List.mem_cons_self : i ∈ b.clearBits)).1
  exact if_pos ⟨Int.natCast_nonneg i, Int.ofNat_lt.mpr hi⟩

/-- The first four sectors are taken for the file system. -/
theorem prepare_spec (raw : Heap) :
    ∃ mapHdr dirHdr freeMap, prepare raw = .ok (mapHdr, dirHdr, freeMap) ∧
      (FileHeader.ofBytes (pack mapHdr.words)).OneSector FreeMapFileSize FreeMapData ∧
      (FileHeader.ofBytes (pack dirHdr.words)).OneSector DirectoryFileSize DirectoryData ∧
      freeMap.numBits = NumSectors ∧ freeMap.clearBits = List.range' 4 1020 := by
  have hnew : (BitMap.new NumSectors (unpack (raw 0))).clearBits = 0 :: List.range' 1 1023 := by
    rw [clearBits_new, List.range_eq_range']
    rfl
  have hfirst := clearBits_markBit hnew
  rw [show List.range' 1 1023 = 1 :: List.range' 2 1022 from rfl] at hfirst
  have hsecond := clearBits_markBit hfirst
  rw [show List.range' 2 1022 = 2 :: List.range' 3 1021 from rfl] at hsecond
  obtain ⟨mapHdr, freeMap, hmapHdr, hmapFile, hbits, hclear⟩ :=
    oneSector_allocated (h := FileHeader.ofBytes (raw 2)) (n := FreeMapFileSize) (by decide)
      (by rw [markBit_numBits, markBit_numBits, new_numBits]) hsecond
  rw [show List.range' 3 1021 = 3 :: List.range' 4 1020 from rfl] at hclear
  obtain ⟨dirHdr, freeMap', hdirHdr, hdirFile, hbits', hclear'⟩ :=
    oneSector_allocated (h := FileHeader.ofBytes (raw 3)) (n := DirectoryFileSize) (by decide)
      hbits hclear
  have hmarkFirst := mark_clear hnew
  have hmarkSecond := mark_clear hfirst
  refine ⟨mapHdr, dirHdr, freeMap', ?_, hmapFile, hdirFile, hbits', hclear'⟩
  unfold prepare
  dsimp only
  rw [show FreeMapSector = ((0 : Nat) : Int) from rfl, hmarkFirst]
  simp only [asserted, bind, Except.bind, pure, Except.pure]
  rw [show DirectorySector = ((1 : Nat) : Int) from rfl, hmarkSecond]
  dsimp only
  rw [hmapHdr]
  dsimp only
  rw [hdirHdr]

/-- Formatting does not fail. The disk is sound and has no files, and the sectors that are not those
of the file system keep their contents. -/
theorem format_spec (disk : Disk) (raw : Heap) :
    ∃ fs start, format disk raw = .ok (fs, start) ∧ Sound fs start ∧ filesOn start = [] ∧
      (freeMapOn start).clearBits = List.range' 4 1020 ∧
      ∀ x, x ∉ systemSectors → start x = disk x := by
  obtain ⟨mapHdr, dirHdr, freeMap, hprepare, hmapFile, hdirFile, hbits, hclear⟩ := prepare_spec raw
  obtain ⟨map, hwriteMap, hmap⟩ := write_freeMap hmapFile
    (update (update disk FreeMapSector (pack mapHdr.words)) DirectorySector
      (pack dirHdr.words)) (raw 4) hbits
  obtain ⟨table, hwriteTable, htable⟩ := write_directory hdirFile
    (update (update (update disk FreeMapSector (pack mapHdr.words))
      DirectorySector (pack dirHdr.words)) FreeMapData map) (raw 5)
    (Directory.length_new NumDirEntries (raw 1)) (by simp [Directory.files_new])
  rw [Directory.files_new] at htable
  have hformat : format disk raw =
      .ok (⟨FileHeader.ofBytes (pack mapHdr.words), FileHeader.ofBytes (pack dirHdr.words)⟩,
        update (update (update (update disk FreeMapSector
          (pack mapHdr.words)) DirectorySector (pack dirHdr.words)) FreeMapData map)
            DirectoryData table) := by
    rw [format, hprepare]
    simp only [bind, Except.bind, pure, Except.pure]
    rw [FileHeader.writeBack, writeSector_ok (by decide)]
    dsimp only
    rw [FileHeader.writeBack, writeSector_ok (by decide)]
    dsimp only
    rw [FileHeader.fetchFrom, readSector_ok (by decide), FileHeader.fetchFrom,
      readSector_ok (by decide)]
    simp only [bind, Except.bind, pure, Except.pure]
    rw [update_of_ne (by decide), update_self, update_self, hwriteMap]
    dsimp only
    rw [hwriteTable]
  generalize hstart : update (update (update (update disk
    FreeMapSector (pack mapHdr.words)) DirectorySector (pack dirHdr.words)) FreeMapData map)
      DirectoryData table = start at hformat
  have hmapOn : freeMapOn start = freeMap := by
    rw [freeMapOn, ← hstart, update_of_ne (by decide), update_self, hmap]
  have hfiles : filesOn start = [] := by
    rw [filesOn, directoryOn, ← hstart, update_self, htable]
  refine ⟨_, start, hformat, ⟨hmapFile, hdirFile, ?_, ?_, ?_, by simp [hfiles], by simp [hfiles]⟩,
    hfiles, by rw [hmapOn, hclear], fun x hx => ?_⟩
  · rw [headerOn, ← hstart, update_of_ne (by decide), update_of_ne (by decide),
      update_of_ne (by decide), update_self]
    exact hmapFile
  · rw [headerOn, ← hstart, update_of_ne (by decide), update_of_ne (by decide),
      update_self]
    exact hdirFile
  · rw [hfiles, List.map_nil]
    refine ⟨by decide, fun x => ?_⟩
    rw [hmapOn, held_iff_clearBits, hclear, hbits, List.mem_range'_1]
    simp only [systemSectors, FreeMapSector, DirectorySector, FreeMapData, DirectoryData,
      NumSectors, List.flatten_cons, List.flatten_nil, List.append_nil, List.mem_cons,
      List.not_mem_nil, or_false]
    omega
  · simp only [systemSectors, List.mem_cons, List.not_mem_nil, or_false, not_or] at hx
    rw [← hstart, update_of_ne hx.2.2.2, update_of_ne hx.2.2.1,
      update_of_ne hx.2.1, update_of_ne hx.1]

end Nachos.Filesys
