import Mathlib.Algebra.Order.Floor.Div
import Nachos.Library.Transition
import Nachos.Filesys.DiskFileSystem

/-!
# The disk is consistent

Runs of `Create` and `Remove` from a formatted disk. Bitmap, directory and headers are three
structures on the disk that each operation fetches, changes and flushes one by one.
`disk_consistent` says that they agree between the operations, that no assertion fails, and that an
operation that returns `FALSE` has written nothing.
-/

namespace Nachos.Filesys

open WordBytes Ownership Transition
open Frames (held)

/-- The file system and its disk. -/
structure State where
  fs : FileSystem
  disk : Disk

/-- The operations, with the memory they get. -/
inductive Act where
  | create (raw : Heap) (name : CString) (initialSize : Int)
  | remove (raw : Heap) (name : CString)

/-- What operations that return `TRUE` have done. -/
inductive Event where
  /-- A file whose header is in the sector. -/
  | created (name : CString) (sector : Int)
  | removed (name : CString) (sector : Int)

/-- One operation; without an event it has returned `FALSE`. -/
def perform (s : State) : Act → Except Failure (Option Event × Disk)
  | .create raw name initialSize =>
    (s.fs.create s.disk raw name initialSize).map fun r => (r.1.map (Event.created name), r.2)
  | .remove raw name =>
    (s.fs.remove s.disk raw name).map fun r => (r.1.map (Event.removed name), r.2)

/-- One step; it is refused when an assertion fails. -/
def step (s : State) (act : Act) : Option (List Event × State) :=
  match perform s act with
  | .ok (event, disk) => some (event.toList, ⟨s.fs, disk⟩)
  | .error _ => none

/-- Files are created with a size that a header can describe. -/
def Sized (_ : State) : Act → Prop
  | .create _ _ initialSize => 0 ≤ initialSize ∧ initialSize ≤ MaxFileSize
  | .remove _ _ => True

/-- What an operation on a sound disk does. -/
inductive Effect (s : State) : Option Event → Disk → Prop where
  | failed : Effect s none s.disk
  | created {name : CString} {n : Nat} {sector : Int} {disk' : Disk} :
      Created s.disk name n sector disk' → Effect s (some (.created name sector)) disk'
  | removed {name : CString} {sector : Int} {disk' : Disk} :
      Removed s.disk name sector disk' → Effect s (some (.removed name sector)) disk'

variable {s : State} {disk : Disk}

theorem perform_spec {act : Act} (h : Sound s.fs s.disk) (hsized : Sized s act) :
    ∃ event disk', perform s act = .ok (event, disk') ∧ Effect s event disk' := by
  cases act with
  | create raw name initialSize =>
    obtain ⟨n, rfl⟩ := Int.eq_ofNat_of_zero_le hsized.1
    rcases create_spec h raw name (Int.ofNat_le.mp hsized.2) with
      ⟨-, heq⟩ | ⟨-, sector, disk', heq, hcreated⟩
    · exact ⟨none, s.disk, by rw [perform, heq]; rfl, .failed⟩
    · exact ⟨_, disk', by rw [perform, heq]; rfl, .created hcreated⟩
  | remove raw name =>
    rcases remove_spec h raw name with ⟨-, heq⟩ | ⟨sector, disk', heq, hremoved⟩
    · exact ⟨none, s.disk, by rw [perform, heq]; rfl, .failed⟩
    · exact ⟨_, disk', by rw [perform, heq]; rfl, .removed hremoved⟩

theorem Sound.effect {event : Option Event} {disk' : Disk} (h : Sound s.fs s.disk)
    (he : Effect s event disk') : Sound s.fs disk' := by
  cases he with
  | failed => exact h
  | created hc => exact h.created hc
  | removed hr => exact h.removed hr

/-- What a step of the system does. -/
theorem step_effect {t : State} {act : Act} {events : List Event} (h : Sound s.fs s.disk)
    (hsized : Sized s act) (hstep : step s act = some (events, t)) :
    ∃ event disk', Effect s event disk' ∧ events = event.toList ∧ t = ⟨s.fs, disk'⟩ := by
  obtain ⟨event, disk', hperform, heffect⟩ := perform_spec h hsized
  rw [step, hperform] at hstep
  cases hstep
  exact ⟨event, disk', heffect, rfl, rfl⟩

/-- A file is created when there is room. -/
theorem step_create (h : Sound s.fs s.disk) (raw : Heap) {name : CString} {n : Nat}
    (hn : n ≤ MaxFileSize) (hroom : Room s.disk name n) :
    ∃ sector disk', step s (.create raw name n) = some ([.created name sector], ⟨s.fs, disk'⟩) ∧
      Created s.disk name n sector disk' := by
  rcases create_spec h raw name hn with ⟨hfull, -⟩ | ⟨-, sector, disk', heq, hcreated⟩
  · exact absurd hroom hfull
  · exact ⟨sector, disk', by rw [step, perform, heq]; rfl, hcreated⟩

/-- A file that is there is removed. -/
theorem step_remove (h : Sound s.fs s.disk) (raw : Heap) {name : CString} {x : Int}
    (hmem : (name.key, x) ∈ filesOn s.disk) :
    ∃ disk', step s (.remove raw name) = some ([.removed name x], ⟨s.fs, disk'⟩) ∧
      Removed s.disk name x disk' := by
  rcases remove_spec h raw name with ⟨hnew, -⟩ | ⟨sector, disk', heq, hremoved⟩
  · exact absurd rfl (hnew _ hmem)
  · cases h.sector_unique hmem hremoved.mem
    exact ⟨disk', by rw [step, perform, heq]; rfl, hremoved⟩

/-- There is room for a file on a disk without files. -/
theorem room_formatted (name : CString) {n : Nat} (hn : n ≤ MaxFileSize)
    (hfiles : filesOn disk = []) (hclear : (freeMapOn disk).clearBits = List.range' 4 1020) :
    Room disk name n := by
  have hle := FileHeader.divRoundUp_le hn
  refine ⟨by simp [hfiles], by simp [hfiles, NumDirEntries], ?_⟩
  rw [hclear, List.length_range']
  exact hle.trans_lt (by decide)

/-- Every run keeps the disk sound. -/
theorem sound_run {t : State} {trace : List Event} (h : Sound s.fs s.disk)
    (hrun : Run step Sized s trace t) : Sound t.fs t.disk := by
  apply hrun.invariant h
  intro s act events t hs hsized hstep
  obtain ⟨event, disk', heffect, -, rfl⟩ := step_effect hs hsized hstep
  exact hs.effect heffect

/-! ## Consistency -/

/-- The sectors that have an owner: the headers and the data of the bitmap and the directory, and
for each entry in use the header and the data of the file. -/
def ownedSectors (disk : Disk) (directory : Directory) : List Int :=
  FreeMapSector :: DirectorySector ::
    ((headerOn disk FreeMapSector).sectors ++ (headerOn disk DirectorySector).sectors ++
      directory.files.flatMap (fileSectors disk))

/-- The bitmap, the directory and the headers agree. -/
structure Consistent (disk : Disk) (freeMap : BitMap) (directory : Directory) : Prop where
  marked : ∀ x : Nat, x < NumSectors →
    (freeMap.bit x = true ↔ (x : Int) ∈ ownedSectors disk directory)
  inside : ∀ x ∈ ownedSectors disk directory, 0 ≤ x ∧ x < NumSectors
  distinct : (ownedSectors disk directory).Nodup
  sizes : ∀ x ∈ FreeMapSector :: DirectorySector :: directory.files.map Prod.snd,
    0 ≤ (headerOn disk x).numBytes ∧
      (headerOn disk x).numSectors = ((headerOn disk x).numBytes.toNat ⌈/⌉ SectorSize : Nat)
  names : directory.files.Pairwise fun f g => f.1 ≠ g.1

theorem divRoundUp_eq_ceilDiv (n : Nat) : divRoundUp n SectorSize = n ⌈/⌉ SectorSize := by
  rw [Nat.ceilDiv_eq_add_pred_div, divRoundUp_sectorSize]
  rfl

theorem FileHeader.Formed.ceil {h : FileHeader} (hf : h.Formed) :
    0 ≤ h.numBytes ∧ h.numSectors = (h.numBytes.toNat ⌈/⌉ SectorSize : Nat) :=
  ⟨hf.length.1, by rw [hf.size, divRoundUp_eq_ceilDiv]⟩

theorem Sound.ownedSectors_eq {fs : FileSystem} (h : Sound fs disk) :
    ownedSectors disk (directoryOn disk) =
      (systemSectors :: (filesOn disk).map (fileSectors disk)).flatten := by
  rw [ownedSectors, h.mapHeader.sectors_eq, h.directoryHeader.sectors_eq, List.flatMap_def]
  rfl

theorem Sound.consistent {fs : FileSystem} (h : Sound fs disk) :
    Consistent disk (freeMapOn disk) (directoryOn disk) := by
  refine ⟨fun x hx => ?_, fun x hx => ?_, ?_, fun x hx => ?_, ?_⟩
  · rw [h.ownedSectors_eq, ← h.owned.held_iff]
    exact ⟨fun hbit => ⟨Int.natCast_nonneg x, Int.ofNat_lt.mpr hx, hbit⟩, fun hheld => hheld.2.2⟩
  · rw [h.ownedSectors_eq, ← h.owned.held_iff] at hx
    exact ⟨hx.1, hx.2.1⟩
  · rw [h.ownedSectors_eq]
    exact h.owned.nodup
  · rw [List.mem_cons, List.mem_cons] at hx
    rcases hx with rfl | rfl | hx
    · exact h.mapHeader.toFormed.ceil
    · exact h.directoryHeader.toFormed.ceil
    · obtain ⟨f, hf, rfl⟩ := List.mem_map.mp hx
      exact (h.formed f hf).ceil
  · exact List.pairwise_map.mp h.keys

/-- In every disk that `Create` and `Remove` can make of a formatted one the bitmap marks exactly
the sectors that have an owner, no sector has two, headers have as many sectors as their files need
and no two names in use have the same beginning. The next operation returns, and if it returns
`FALSE` it has changed no sector. -/
theorem disk_consistent (disk : Disk) (raw : Heap) :
    ∃ fs start, format disk raw = .ok (fs, start) ∧
      ∀ trace s, Run step Sized ⟨fs, start⟩ trace s →
        (∃ freeMap directory,
          (∀ words, (BitMap.new NumSectors words).fetchFrom s.disk
            (headerOn s.disk FreeMapSector) = .ok freeMap) ∧
          (∀ bytes, (Directory.new NumDirEntries bytes).fetchFrom s.disk
            (headerOn s.disk DirectorySector) = .ok directory) ∧
          Consistent s.disk freeMap directory) ∧
        ∀ act, Sized s act → ∃ event disk', perform s act = .ok (event, disk') ∧
          (event = none → disk' = s.disk) := by
  obtain ⟨fs, start, hformat, hsound, -⟩ := format_spec disk raw
  refine ⟨fs, start, hformat, fun trace s hrun => ?_⟩
  have hs := sound_run hsound hrun
  refine ⟨⟨freeMapOn s.disk, directoryOn s.disk, fetch_freeMap hs.mapHeader s.disk,
    fetch_directory hs.directoryHeader s.disk, hs.consistent⟩, fun act hsized => ?_⟩
  obtain ⟨event, disk', hperform, heffect⟩ := perform_spec hs hsized
  refine ⟨event, disk', hperform, fun hnone => ?_⟩
  cases heffect with
  | failed => rfl
  | created _ => cases hnone
  | removed _ => cases hnone

/-- A file `a` of 600 bytes on a formatted disk of zeros. -/
theorem disk_consistent_created :
    ∃ fs start sector s freeMap directory,
      format (fun _ _ => 0) (fun _ _ => 0) = .ok (fs, start) ∧
      Run step Sized ⟨fs, start⟩ [.created ⟨[97], by decide⟩ sector] s ∧
      Consistent s.disk freeMap directory := by
  obtain ⟨fs, start, hformat, hall⟩ := disk_consistent (fun _ _ => 0) fun _ _ => 0
  obtain ⟨fs', start', hformat', hsound, hfiles, hclear, -⟩ :=
    format_spec (fun _ _ => 0) fun _ _ => 0
  cases hformat.symm.trans hformat'
  have hn : 600 ≤ MaxFileSize := by decide
  obtain ⟨sector, disk', hstep, -⟩ := @step_create ⟨fs, start⟩ hsound (fun _ _ => 0)
    ⟨[97], by decide⟩ 600 hn (room_formatted _ hn hfiles hclear)
  have hsized : Sized ⟨fs, start⟩ (.create (fun _ _ => 0) ⟨[97], by decide⟩ (600 : Nat)) :=
    ⟨by decide, by decide⟩
  have hrun := Run.snoc .refl hsized hstep
  obtain ⟨⟨freeMap, directory, -, -, hconsistent⟩, -⟩ := hall _ _ hrun
  exact ⟨fs, start, sector, _, freeMap, directory, hformat, hrun, hconsistent⟩

end Nachos.Filesys
