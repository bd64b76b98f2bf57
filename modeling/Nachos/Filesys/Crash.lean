import Nachos.Filesys.OpenFiles
import Nachos.Filesys.TransferSizes

/-!
# Crashes of the file system

`Create` writes three sectors, the header, the directory and the bitmap, and `Remove` two, the
bitmap and the directory. When Nachos ends between two of these writes and is started again on the
disk as it is then, the other files are what they were. But in either operation there is one point
at which the directory names a file whose sectors the bitmap has free, and at no other point is the
disk unsound (`crash_sound_iff`).
-/

namespace Nachos.Filesys.Crash

open WordBytes Transition
open Frames (held)

/-- The branch of `FileSystem::FileSystem` for a disk that is not to be formatted: the files of the
bitmap and of the directory are opened. As with `format`, the calls for `stdin` and `stdout` before
it, which use these files already, are left out. -/
def mount (disk : Disk) : Except Failure FileSystem := do
  let freeMapFile ← FileHeader.fetchFrom disk FreeMapSector
  let directoryFile ← FileHeader.fetchFrom disk DirectorySector
  pure ⟨freeMapFile, directoryFile⟩

/-- The first `k` of several writes. -/
def performed (writes : List (Disk → Except Failure Disk)) (k : Nat) (disk : Disk) :
    Except Failure Disk :=
  (writes.take k).foldlM (fun disk write => write disk) disk

/-- The writes at the end of `FileSystem::Create`. -/
def createWrites (fs : FileSystem) (raw : Heap) (sector : Int) (directory : Directory)
    (hdr : FileHeader) (freeMap : BitMap) : List (Disk → Except Failure Disk) :=
  [fun disk => hdr.writeBack disk sector,
    fun disk => directory.writeBack disk fs.directoryFile (raw 3),
    fun disk => freeMap.writeBack disk fs.freeMapFile (raw 4)]

/-- The disk when `FileSystem::Create` is interrupted after `k` writes. -/
def createUpTo (fs : FileSystem) (disk : Disk) (raw : Heap) (name : CString) (initialSize : Int)
    (k : Nat) : Except Failure Disk := do
  match ← fs.planCreate disk raw name initialSize with
  | none => pure disk
  | some (sector, directory, hdr, freeMap) =>
    performed (createWrites fs raw sector directory hdr freeMap) k disk

/-- The writes at the end of `FileSystem::Remove`. -/
def removeWrites (fs : FileSystem) (raw : Heap) (directory : Directory) (freeMap : BitMap) :
    List (Disk → Except Failure Disk) :=
  [fun disk => freeMap.writeBack disk fs.freeMapFile (raw 2),
    fun disk => directory.writeBack disk fs.directoryFile (raw 3)]

/-- The disk when `FileSystem::Remove` is interrupted after `k` writes. -/
def removeUpTo (fs : FileSystem) (disk : Disk) (raw : Heap) (name : CString) (k : Nat) :
    Except Failure Disk := do
  match ← fs.planRemove disk raw name with
  | none => pure disk
  | some (_, freeMap, directory) => performed (removeWrites fs raw directory freeMap) k disk

/-- The disk when an operation is interrupted after `k` writes. -/
def interrupted (s : Filesys.State) (k : Nat) : Filesys.Act → Except Failure Disk
  | .create raw name initialSize => createUpTo s.fs s.disk raw name initialSize k
  | .remove raw name => removeUpTo s.fs s.disk raw name k

/-! ## The files on the disk -/

/-- The contents of a file. -/
def contents (disk : Disk) (hdr : FileHeader) : List (BitVec 8) :=
  (List.range hdr.numBytes.toNat).map (fileByte disk hdr)

/-- The files on the disk, with their contents. -/
def fileMap (disk : Disk) (key : Key) : Option (List (BitVec 8)) :=
  ((filesOn disk).find? fun f => f.1 == key).map fun f => contents disk (headerOn disk f.2)

section Files

variable {fs : FileSystem} {disk disk' : Disk} {hdr : FileHeader} {key : Key} {sector : Int}

/-- The contents of a file are in its data sectors. -/
theorem contents_congr (hf : hdr.Formed) (h : ∀ x ∈ hdr.sectors, disk' x = disk x) :
    contents disk' hdr = contents disk hdr := by
  refine List.map_congr_left fun o ho => ?_
  have ho := List.mem_range.mp ho
  have hsector : o / SectorSize < hdr.numSectors.toNat := by
    rw [hf.size, Int.toNat_natCast, divRoundUp_sectorSize]
    unfold SectorSize
    omega
  rw [fileByte, h _ (List.mem_map_of_mem (List.mem_range.mpr hsector)), fileByte]

/-- A name has the same contents on two disks with the same entry for it and the same sectors. -/
theorem fileMap_kept (h : Sound fs disk)
    (hfind : ((filesOn disk').find? fun f => f.1 == key) =
      (filesOn disk).find? fun f => f.1 == key)
    (hkept : ∀ f ∈ filesOn disk, ∀ x ∈ fileSectors disk f, disk' x = disk x) :
    fileMap disk' key = fileMap disk key := by
  rw [fileMap, hfind, fileMap]
  refine Option.map_congr fun f hf => ?_
  have hmem := List.mem_of_find?_eq_some hf
  have hheader : headerOn disk' f.2 = headerOn disk f.2 :=
    congrArg FileHeader.ofBytes (hkept f hmem _ List.mem_cons_self)
  rw [hheader]
  exact contents_congr (h.formed f hmem) fun x hx => hkept f hmem x (List.mem_cons_of_mem _ hx)

/-- An entry for another name does not matter. -/
theorem find?_middle {before after : List (Key × Int)} {f : Key × Int} (hf : f.1 ≠ key) :
    (before ++ f :: after).find? (fun g => g.1 == key) =
      (before ++ after).find? fun g => g.1 == key := by
  rw [List.find?_append, List.find?_append, List.find?_cons_of_neg (by simpa using hf)]

variable {name : CString} {n : Nat}

/-- `Create` leaves the other files alone. -/
theorem fileMap_created (h : Sound fs disk) (hc : Created disk name n sector disk')
    (hkey : key ≠ name.key) : fileMap disk' key = fileMap disk key := by
  refine fileMap_kept h ?_ fun f hf x hx => ?_
  · obtain ⟨before, after, hbefore, hafter⟩ := hc.files
    rw [hbefore, hafter, find?_middle hkey.symm]
  · obtain ⟨hmap, hdirectory⟩ := h.not_system hf hx
    have hne : x ≠ sector := fun heq =>
      hc.fresh List.mem_cons_self (heq ▸ (h.marked hf hx).1)
    exact hc.frame x hne hmap hdirectory

/-- `Remove` leaves the other files alone. -/
theorem fileMap_removed (h : Sound fs disk) (hr : Removed disk name sector disk')
    (hkey : key ≠ name.key) : fileMap disk' key = fileMap disk key := by
  refine fileMap_kept h ?_ fun f hf x hx => ?_
  · obtain ⟨before, after, hbefore, hafter⟩ := hr.files
    rw [hbefore, hafter, find?_middle hkey.symm]
  · obtain ⟨hmap, hdirectory⟩ := h.not_system hf hx
    exact hr.frame x hmap hdirectory

end Files

/-! ## The writes one by one -/

section Writes

variable {fs : FileSystem} {disk disk' : Disk} {name : CString} {sector : Int} {n : Nat}

theorem writeBack_frame {hdr : FileHeader} (h : hdr.writeBack disk sector = .ok disk') :
    ∀ x, x ≠ sector → disk' x = disk x := by
  unfold FileHeader.writeBack writeSector at h
  split at h
  · cases h
    exact fun x hx => Function.update_of_ne hx _ _
  · cases h

/-- The directory or the bitmap is written to its file. -/
theorem writeBack_file_frame {file : FileHeader} {size : Nat} {data : Int} {source raw : Bytes}
    {numBytes : Int} (hfile : file.OneSector size data)
    (h : (do let r ← writeAt disk file source raw numBytes 0; pure r.2) = .ok disk') :
    ∀ x, x ≠ data → disk' x = disk x := by
  intro x hx
  obtain ⟨⟨m, written⟩, hwrite, hresult⟩ := ok_of_bind h
  cases hresult
  refine writeAt_frame hfile.toFormed hwrite ?_
  rw [hfile.sectors_eq]
  simpa using hx

/-- The disks that `Create` goes through. -/
structure CreateStages (disk : Disk) (name : CString) (n : Nat) (sector : Int)
    (header directory final : Disk) : Prop where
  created : Created disk name n sector final
  headerWritten : ∀ x, x ≠ sector → header x = disk x
  directoryWritten : ∀ x, x ≠ DirectoryData → directory x = header x
  mapWritten : ∀ x, x ≠ FreeMapData → final x = directory x

/-- An interrupted `Create` has written the header, then the directory, then the bitmap. -/
theorem createUpTo_spec (h : Sound fs disk) (raw : Heap) (name : CString) (hn : n ≤ MaxFileSize) :
    (fs.create disk raw name n = .ok (none, disk) ∧
      ∀ k, createUpTo fs disk raw name n k = .ok disk) ∨
    ∃ sector header directory final,
      fs.create disk raw name n = .ok (some sector, final) ∧
      CreateStages disk name n sector header directory final ∧
      createUpTo fs disk raw name n 0 = .ok disk ∧
      createUpTo fs disk raw name n 1 = .ok header ∧
      createUpTo fs disk raw name n 2 = .ok directory ∧
      ∀ k, createUpTo fs disk raw name n (k + 3) = .ok final := by
  unfold FileSystem.create createUpTo FileSystem.planCreate
  rw [fetch_directory h.directoryFile]
  simp only [ok_bind]
  rcases h.find_cases name with ⟨hfind, hindex, -⟩ | ⟨hfind, -, -⟩
  · simp only [if_neg (not_not.mpr hfind), fetch_freeMap h.mapFile, ok_bind]
    rcases @reserve_spec name n (directoryOn disk) (freeMapOn disk) (raw 2) rfl hn hindex with
      ⟨-, hreserve⟩ | ⟨sector, directory', hdr, freeMap', hreserve, hr⟩
    · simp only [hreserve, ok_bind]
      exact .inl ⟨rfl, fun _ => rfl⟩
    · obtain ⟨final, hflush, hcreated⟩ := flush_spec h raw hr
      obtain ⟨header, hheader, hrest⟩ := ok_of_bind hflush
      obtain ⟨directory, hdirectory, hmap⟩ := ok_of_bind hrest
      simp only [hreserve, ok_bind, hflush, performed, createWrites]
      refine .inr ⟨sector, header, directory, final, rfl, ⟨hcreated, writeBack_frame hheader,
        writeBack_file_frame h.directoryFile hdirectory,
        writeBack_file_frame h.mapFile hmap⟩, rfl, ?_, ?_, fun k => ?_⟩
      · simp [hheader]
      · simp [hheader, ok_bind, hdirectory]
      · simp [hheader, ok_bind, hdirectory, hmap]
  · simp only [if_pos hfind]
    exact .inl ⟨rfl, fun _ => rfl⟩

/-- The disks that `Remove` goes through. -/
structure RemoveStages (disk : Disk) (name : CString) (sector : Int) (freeMap final : Disk) :
    Prop where
  removed : Removed disk name sector final
  mapWritten : ∀ x, x ≠ FreeMapData → freeMap x = disk x
  directoryWritten : ∀ x, x ≠ DirectoryData → final x = freeMap x

/-- An interrupted `Remove` has written the bitmap, then the directory. -/
theorem removeUpTo_spec (h : Sound fs disk) (raw : Heap) (name : CString) :
    (fs.remove disk raw name = .ok (none, disk) ∧
      ∀ k, removeUpTo fs disk raw name k = .ok disk) ∨
    ∃ sector freeMap final,
      fs.remove disk raw name = .ok (some sector, final) ∧
      RemoveStages disk name sector freeMap final ∧
      removeUpTo fs disk raw name 0 = .ok disk ∧
      removeUpTo fs disk raw name 1 = .ok freeMap ∧
      ∀ k, removeUpTo fs disk raw name (k + 2) = .ok final := by
  rcases remove_spec h raw name with ⟨hnew, hremove⟩ | ⟨sector, final, hremove, hremoved⟩
  · refine .inl ⟨hremove, fun k => ?_⟩
    obtain ⟨plan, hplan, hrest⟩ := ok_of_bind hremove
    rw [removeUpTo, hplan]
    cases plan with
    | none => rfl
    | some plan =>
      obtain ⟨_, _, hrest⟩ := ok_of_bind hrest
      obtain ⟨_, _, hrest⟩ := ok_of_bind hrest
      cases hrest
  · obtain ⟨plan, hplan, hrest⟩ := ok_of_bind hremove
    cases plan with
    | none => cases hrest
    | some plan =>
      obtain ⟨cleared, hwriteMap, hrest⟩ := ok_of_bind hrest
      obtain ⟨written, hwriteDirectory, hrest⟩ := ok_of_bind hrest
      cases hrest
      refine .inr ⟨_, cleared, final, hremove, ⟨hremoved,
        writeBack_file_frame h.mapFile hwriteMap,
        writeBack_file_frame h.directoryFile hwriteDirectory⟩, ?_⟩
      simp only [removeUpTo, hplan, ok_bind, performed, removeWrites]
      refine ⟨rfl, ?_, fun k => ?_⟩
      · simp [hwriteMap]
      · simp [hwriteMap, ok_bind, hwriteDirectory]

end Writes

/-! ## The disk that is left -/

section Left

variable {fs : FileSystem} {disk crashed : Disk} {name : CString} {sector : Int} {n : Nat}

/-- The file system is started on any disk. -/
theorem mount_eq (disk : Disk) :
    mount disk = .ok ⟨headerOn disk FreeMapSector, headerOn disk DirectorySector⟩ := by
  rw [mount, fetch_header ⟨by decide, by decide⟩, ok_bind, fetch_header ⟨by decide, by decide⟩]
  rfl

/-- A sector that `Create` takes is not one of the file system. -/
theorem created_not_system {final : Disk} (h : Sound fs disk)
    (hc : Created disk name n sector final) : sector ∉ systemSectors := by
  intro hsystem
  exact hc.fresh List.mem_cons_self
    ((h.owned.held_iff _).mpr (List.mem_flatten.mpr ⟨_, List.mem_cons_self, hsystem⟩))

/-- A disk stays sound when the file system is started on it. -/
theorem sound_mounted (h : Sound fs disk) :
    Sound ⟨headerOn disk FreeMapSector, headerOn disk DirectorySector⟩ disk :=
  ⟨h.mapHeader, h.directoryHeader, h.mapHeader, h.directoryHeader, h.owned, h.formed, h.keys⟩

/-- The directory names a file whose header is in a sector that the bitmap has free. -/
def Dangling (disk : Disk) (key : Key) : Prop :=
  ∃ sector : Int, (key, sector) ∈ filesOn disk ∧ sector.toNat ∈ (freeMapOn disk).clearBits

/-- A sound disk has no such name. -/
theorem not_sound_of_dangling {key : Key} (h : Dangling disk key) : ¬ Sound fs disk := by
  obtain ⟨sector, hmem, hclear⟩ := h
  intro hsound
  have hheld := (hsound.marked hmem List.mem_cons_self).1
  exact ((held_iff_clearBits _ _).mp hheld).2.2 hclear

/-- What an interrupted operation leaves: the other files as they were, and a sound disk unless a
name dangles. -/
structure Survived (disk crashed : Disk) (key : Key) (dangling : Prop) : Prop where
  others : ∀ other, other ≠ key → fileMap crashed other = fileMap disk other
  sound : ¬ dangling →
    Sound ⟨headerOn crashed FreeMapSector, headerOn crashed DirectorySector⟩ crashed
  dangles : dangling → Dangling crashed key

/-- Without a dangling name. -/
theorem survived_sound {key : Key} (hsound : Sound fs crashed)
    (hothers : ∀ other, other ≠ key → fileMap crashed other = fileMap disk other) :
    Survived disk crashed key False :=
  ⟨hothers, fun _ => sound_mounted hsound, False.elim⟩

variable {header directory freeMap final : Disk}

/-- After its first write `Create` has changed a sector that nobody owns. -/
theorem survived_header (h : Sound fs disk)
    (st : CreateStages disk name n sector header directory final) :
    Survived disk header name.key False := by
  have hfresh := st.created.fresh List.mem_cons_self
  have hsystem : ∀ x ∈ systemSectors, header x = disk x := fun x hx =>
    st.headerWritten x fun heq => created_not_system h st.created (heq ▸ hx)
  have hkept : ∀ f ∈ filesOn disk, ∀ x ∈ fileSectors disk f, header x = disk x :=
    fun f hf x hx => st.headerWritten x fun heq => hfresh (heq ▸ (h.marked hf hx).1)
  have hsound := h.congr hsystem fun f hf => hkept f hf _ List.mem_cons_self
  refine survived_sound hsound fun other _ => fileMap_kept h ?_ hkept
  rw [OpenFiles.filesOn_congr hsystem]

/-- After its second write the new file is in the directory, and its sectors are free. -/
theorem survived_directory (h : Sound fs disk)
    (st : CreateStages disk name n sector header directory final) :
    Survived disk directory name.key True := by
  have hfresh := st.created.fresh List.mem_cons_self
  have hnot := created_not_system h st.created
  have hfiles : filesOn directory = filesOn final := by
    rw [filesOn, directoryOn, ← st.mapWritten DirectoryData (by decide), filesOn, directoryOn]
  have hmap : freeMapOn directory = freeMapOn disk := by
    have hne : FreeMapData ≠ sector := fun heq => hnot (heq ▸ by decide)
    rw [freeMapOn, st.directoryWritten _ (by decide), st.headerWritten _ hne, freeMapOn]
  refine ⟨fun other hother => fileMap_kept h ?_ fun f hf x hx => ?_, fun hfalse => ?_, fun _ => ?_⟩
  · obtain ⟨before, after, hbefore, hafter⟩ := st.created.files
    rw [hfiles, hafter, hbefore, find?_middle (Ne.symm hother)]
  · have hdirectory := (h.not_system hf hx).2
    rw [st.directoryWritten x hdirectory,
      st.headerWritten x fun heq => hfresh (heq ▸ (h.marked hf hx).1)]
  · exact absurd trivial hfalse
  · refine ⟨sector, hfiles ▸ (st.created.mem_files _).mpr (.inl rfl), ?_⟩
    rw [hmap]
    obtain ⟨taken, hclear, htaken⟩ := st.created.taken
    cases taken with
    | nil => cases htaken
    | cons j rest =>
      rw [List.map_cons, fileSectors, List.cons.injEq] at htaken
      have hj : (j : Int) = sector := htaken.1
      rw [← hj, Int.toNat_natCast, hclear]
      exact List.mem_cons_self

/-- After its first write `Remove` has freed the sectors of a file that is in the directory. -/
theorem survived_freeMap (h : Sound fs disk)
    (st : RemoveStages disk name sector freeMap final) :
    Survived disk freeMap name.key True := by
  have hfiles : filesOn freeMap = filesOn disk := by
    rw [filesOn, directoryOn, st.mapWritten DirectoryData (by decide), filesOn, directoryOn]
  have hmap : freeMapOn freeMap = freeMapOn final := by
    rw [freeMapOn, ← st.directoryWritten FreeMapData (by decide), freeMapOn]
  refine ⟨fun other _ => fileMap_kept h (by rw [hfiles]) fun f hf x hx =>
    st.mapWritten x (h.not_system hf hx).1, fun hfalse => absurd trivial hfalse, fun _ => ?_⟩
  refine ⟨sector, hfiles ▸ st.removed.mem, ?_⟩
  have honDisk := h.header_onDisk st.removed.mem
  have hnot : ¬ held (freeMapOn final) sector := fun hheld =>
    ((st.removed.cleared sector).mp hheld).2 List.mem_cons_self
  rw [hmap]
  by_contra hmarked
  exact hnot ((held_iff_clearBits _ _).mpr ⟨honDisk.1, honDisk.2, hmarked⟩)

end Left

/-! ## Every crash -/

/-- What counts of the name that an operation is about. -/
def keyOf : Filesys.Act → Key
  | .create _ name _ | .remove _ name => name.key

/-- The number of writes after which an operation must not be interrupted. -/
def gap : Filesys.Act → Nat
  | .create _ _ _ => 2
  | .remove _ _ => 1

/-- An interrupted operation on a sound disk. -/
theorem interrupted_spec {s : Filesys.State} (h : Sound s.fs s.disk) {act : Filesys.Act}
    (hsized : Sized s act) (k : Nat) :
    ∃ event final crashed, perform s act = .ok (event, final) ∧
      interrupted s k act = .ok crashed ∧ (gap act < k → crashed = final) ∧
      Survived s.disk crashed (keyOf act) (event ≠ none ∧ k = gap act) := by
  cases act with
  | create raw name initialSize =>
    obtain ⟨n, rfl⟩ := Int.eq_ofNat_of_zero_le hsized.1
    rcases createUpTo_spec h raw name (Int.ofNat_le.mp hsized.2) with
      ⟨hcreate, hupTo⟩ | ⟨sector, header, directory, final, hcreate, st, h0, h1, h2, h3⟩
    · refine ⟨none, s.disk, s.disk, by rw [perform, hcreate]; rfl, hupTo k, fun _ => rfl, ?_⟩
      simpa [keyOf] using survived_sound h fun _ _ => rfl
    · have hperform : perform s (.create raw name n) =
          .ok (some (.created name sector), final) := by
        rw [perform, hcreate]
        rfl
      rcases k with _ | _ | _ | k
      · exact ⟨_, final, s.disk, hperform, h0, by simp [gap],
          by simpa [gap, keyOf] using survived_sound h fun _ _ => rfl⟩
      · exact ⟨_, final, header, hperform, h1, by simp [gap],
          by simpa [gap, keyOf] using survived_header h st⟩
      · exact ⟨_, final, directory, hperform, h2, by simp [gap],
          by simpa [gap, keyOf] using survived_directory h st⟩
      · exact ⟨_, final, final, hperform, h3 k, fun _ => rfl,
          by simpa [gap, keyOf] using survived_sound (h.created st.created) fun _ =>
            fileMap_created h st.created⟩
  | remove raw name =>
    rcases removeUpTo_spec h raw name with
      ⟨hremove, hupTo⟩ | ⟨sector, freeMap, final, hremove, st, h0, h1, h2⟩
    · refine ⟨none, s.disk, s.disk, by rw [perform, hremove]; rfl, hupTo k, fun _ => rfl, ?_⟩
      simpa [keyOf] using survived_sound h fun _ _ => rfl
    · have hperform : perform s (.remove raw name) =
          .ok (some (.removed name sector), final) := by
        rw [perform, hremove]
        rfl
      rcases k with _ | _ | k
      · exact ⟨_, final, s.disk, hperform, h0, by simp [gap],
          by simpa [gap, keyOf] using survived_sound h fun _ _ => rfl⟩
      · exact ⟨_, final, freeMap, hperform, h1, by simp [gap],
          by simpa [gap, keyOf] using survived_freeMap h st⟩
      · exact ⟨_, final, final, hperform, h2 k, fun _ => rfl,
          by simpa [gap, keyOf] using survived_sound (h.removed st.removed) fun _ =>
            fileMap_removed h st.removed⟩

/-- From a formatted disk, after any run of `Create` and `Remove`, the next operation may be
interrupted after any number of its writes and Nachos started again. The other files are what they
were. The disk is sound if and only if the operation would have returned `FALSE` or was not
interrupted at its gap; there, the name of the operation is in the directory while the sector of its
header is free. -/
theorem crash_sound_iff (disk : Disk) (raw : Heap) :
    ∃ fs start, format disk raw = .ok (fs, start) ∧
      ∀ trace s, Run Filesys.step Sized ⟨fs, start⟩ trace s → ∀ act, Sized s act → ∀ k,
        ∃ event final crashed fs', perform s act = .ok (event, final) ∧
          interrupted s k act = .ok crashed ∧ (gap act < k → crashed = final) ∧
          mount crashed = .ok fs' ∧
          (∀ other, other ≠ keyOf act → fileMap crashed other = fileMap s.disk other) ∧
          (Sound fs' crashed ↔ event = none ∨ k ≠ gap act) ∧
          (¬ Sound fs' crashed → Dangling crashed (keyOf act)) := by
  obtain ⟨fs, start, hformat, hsound, -⟩ := format_spec disk raw
  refine ⟨fs, start, hformat, fun trace s hrun act hsized k => ?_⟩
  obtain ⟨event, final, crashed, hperform, hinterrupted, hlate, hsurvived⟩ :=
    interrupted_spec (sound_run hsound hrun) hsized k
  have hiff : ¬ (event ≠ none ∧ k = gap act) ↔ event = none ∨ k ≠ gap act := by
    rw [not_and_or, not_not]
  refine ⟨event, final, crashed,
    ⟨headerOn crashed FreeMapSector, headerOn crashed DirectorySector⟩, hperform, hinterrupted,
    hlate, mount_eq crashed, hsurvived.others,
    ⟨fun hs => ?_, fun hsafe => hsurvived.sound (hiff.mpr hsafe)⟩, fun hnot => ?_⟩
  · exact hiff.mp fun hgap => not_sound_of_dangling (hsurvived.dangles hgap) hs
  · by_contra hdangling
    exact hnot (hsurvived.sound (mt hsurvived.dangles hdangling))

/-- A `Create` on a formatted disk of zeros is interrupted before the bitmap is written. -/
theorem crash_sound_gap :
    ∃ fs start crashed fs', format (fun _ _ => 0) (fun _ _ => 0) = .ok (fs, start) ∧
      interrupted ⟨fs, start⟩ 2 (.create (fun _ _ => 0) OpenFiles.nameA 600) = .ok crashed ∧
      mount crashed = .ok fs' ∧ ¬ Sound fs' crashed ∧ Dangling crashed OpenFiles.nameA.key := by
  obtain ⟨fs, start, hformat, hall⟩ := crash_sound_iff (fun _ _ => 0) fun _ _ => 0
  obtain ⟨fs', start', hformat', hsound, hfiles, hclear, -⟩ :=
    format_spec (fun _ _ => 0) fun _ _ => 0
  cases hformat.symm.trans hformat'
  have hn : 600 ≤ MaxFileSize := by decide
  obtain ⟨event, final, crashed, fs', hperform, hinterrupted, -, hmount, -, hiff, hdangling⟩ :=
    hall [] ⟨fs, start⟩ .refl (.create (fun _ _ => 0) OpenFiles.nameA 600)
      ⟨by decide, by decide⟩ 2
  have hroom := room_formatted OpenFiles.nameA hn hfiles hclear
  have hevent : event ≠ none := by
    rintro rfl
    rcases create_spec hsound (fun _ _ => 0) OpenFiles.nameA hn with
      ⟨hfull, -⟩ | ⟨-, sector, disk', heq, -⟩
    · exact hfull hroom
    · have hsome : perform ⟨fs, start⟩ (.create (fun _ _ => 0) OpenFiles.nameA (600 : Nat)) =
          .ok (some (.created OpenFiles.nameA sector), disk') := by
        rw [perform, heq]
        rfl
      cases hperform.symm.trans hsome
  have hnot : ¬ Sound fs' crashed := fun hs => by
    rcases hiff.mp hs with hnone | hk
    · exact hevent hnone
    · exact hk rfl
  exact ⟨fs, start, crashed, fs', hformat, hinterrupted, hmount, hnot, hdangling hnot⟩

end Nachos.Filesys.Crash
