import Nachos.Filesys.FileBytes
import Nachos.Library.Transition

/-!
# The sizes of a transfer

`ReadFile` and `WriteFile` hand the count of the user program down to `OpenFile::Read` and
`OpenFile::Write`, which add it to the cursor of the file. `ReadAt` and `WriteAt` cut the request to
the length of the file, but the test `(position + numBytes) > fileLength` adds the two numbers
first. The sum does not fit in an `int` when the cursor is not at the start and the count is close
to the greatest `int`; nothing else can overflow (`transfer_sizes_iff`).
-/

namespace Nachos.Filesys

open WordBytes Transition

/-- `OpenFile`: the header, and where the next `Read` or `Write` starts. -/
structure OpenFile where
  hdr : FileHeader
  seekPosition : Int

namespace OpenFile

/-- `OpenFile::Read`. -/
def read (f : OpenFile) (disk : Disk) (into : Bytes) (numBytes : Int) :
    Except Failure (Int × Bytes × OpenFile) := do
  let (result, into) ← readAt disk f.hdr into numBytes f.seekPosition
  pure (result, into, { f with seekPosition := f.seekPosition + result })

/-- `OpenFile::Write`. -/
def write (f : OpenFile) (disk : Disk) (source raw : Bytes) (numBytes : Int) :
    Except Failure (Int × Disk × OpenFile) := do
  let (result, disk) ← writeAt disk f.hdr source raw numBytes f.seekPosition
  pure (result, disk, { f with seekPosition := f.seekPosition + result })

/-- The check for the end of the file in `handle_SC_ReadFile` and `handle_SC_WriteFile`. -/
def rewind (f : OpenFile) (nbytes : Int) : OpenFile :=
  if nbytes = 0 then { f with seekPosition := 0 } else f

end OpenFile

/-! ## Sessions on one open file -/

/-- The disk and an open file. -/
structure Session where
  disk : Disk
  file : OpenFile

/-- A system call on the file, with the count that is passed down. -/
inductive Transfer where
  | readFile (into : Bytes) (count : BitVec 32)
  | writeFile (source raw : Bytes) (count : BitVec 32)

/-- One system call; the event is the number of bytes. -/
def transfer : Step Session Transfer Int
  | s, .readFile into count => match s.file.read s.disk into count.toInt with
      | .error _ => none
      | .ok (nbytes, _, file) => some ([nbytes], { s with file := file.rewind nbytes })
  | s, .writeFile source raw count => match s.file.write s.disk source raw count.toInt with
      | .error _ => none
      | .ok (nbytes, disk, file) => some ([nbytes], ⟨disk, file.rewind nbytes⟩)

/-! ## The numbers of a request -/

/-- The first sector of a request. -/
def firstSector (position : Int) : Int := position.tdiv SectorSize

/-- The length of a request after it has been cut to the file. -/
def transferred (fileLength numBytes position : Int) : Int :=
  if fileLength < position + numBytes then fileLength - position else numBytes

/-- The last sector of a request. -/
def lastSector (fileLength numBytes position : Int) : Int :=
  (position + transferred fileLength numBytes position - 1).tdiv SectorSize

/-- The request passes the check at the beginning of `ReadAt` and `WriteAt`. -/
def Accepted (fileLength numBytes position : Int) : Prop :=
  ¬ (numBytes ≤ 0 ∨ fileLength ≤ position)

/-- The sums, differences and products that `ReadAt`, `WriteAt`, `Read` and `Write` compute for a
request that passes the check, with the size of the buffer and the offsets in it. -/
def sizes (fileLength numBytes position : Int) : List Int :=
  let n := transferred fileLength numBytes position
  let first := firstSector position
  let last := lastSector fileLength numBytes position
  let numSectors := 1 + last - first
  [position + numBytes, n, position + n, position + n - 1, first, last, 1 + last, numSectors,
    numSectors * SectorSize, first * SectorSize, position - first * SectorSize,
    last * SectorSize, last - first, (last - first) * SectorSize, last + 1,
    (last + 1) * SectorSize]

/-- What a transfer of `numBytes` bytes at the cursor should be: no number overflows, the sectors
are sectors of the file, and reading and writing move some number of bytes between 0 and what is
left of the file. -/
structure SoundSizes (disk : Disk) (f : OpenFile) (numBytes : Int) : Prop where
  sizes : Accepted f.hdr.numBytes numBytes f.seekPosition →
    ∀ v ∈ sizes f.hdr.numBytes numBytes f.seekPosition, FitsInt v
  sectors : Accepted f.hdr.numBytes numBytes f.seekPosition →
    0 ≤ firstSector f.seekPosition ∧
      firstSector f.seekPosition ≤ lastSector f.hdr.numBytes numBytes f.seekPosition ∧
      lastSector f.hdr.numBytes numBytes f.seekPosition < f.hdr.numSectors
  reads : ∀ into, ∃ n into' f', f.read disk into numBytes = .ok (n, into', f') ∧
    0 ≤ n ∧ n ≤ f.hdr.numBytes - f.seekPosition
  writes : ∀ source raw, ∃ n disk' f', f.write disk source raw numBytes = .ok (n, disk', f') ∧
    0 ≤ n ∧ n ≤ f.hdr.numBytes - f.seekPosition

/-! ## The cursor -/

/-- The cursor is inside the file or at its end. -/
structure OpenFile.Inside (f : OpenFile) : Prop where
  formed : f.hdr.Formed
  position : 0 ≤ f.seekPosition ∧ f.seekPosition ≤ f.hdr.numBytes

namespace OpenFile

variable {f : OpenFile} {disk : Disk} {numBytes : Int}

/-- What a transfer moves is what is left of the file at most. -/
theorem Inside.moved_le (h : f.Inside) (numBytes : Int) : 0 ≤ moved f.hdr numBytes f.seekPosition ∧
    moved f.hdr numBytes f.seekPosition ≤ f.hdr.numBytes - f.seekPosition := by
  have hposition := h.position
  unfold moved
  omega

/-- The number of bytes that `WriteAt` reports. -/
theorem writeAt_count {hdr : FileHeader} {source raw : Bytes} {position n : Int} {disk' : Disk}
    (h : writeAt disk hdr source raw numBytes position = .ok (n, disk')) :
    n = moved hdr numBytes position := by
  unfold writeAt at h
  dsimp only at h
  split at h
  · rename_i hcheck
    cases h
    exact (moved_eq_zero hcheck).symm
  rename_i hcheck
  rw [moved_eq_cut hcheck]
  split at h
  · cases h
  split at h
  · cases h
  obtain ⟨buf, -, h⟩ := ok_of_bind h
  obtain ⟨written, -, h⟩ := ok_of_bind h
  cases h
  rfl

/-- The number of bytes of a read that returns. -/
theorem read_eq (disk : Disk) (h : f.Inside) (numBytes : Int) (into : Bytes)
    (hfits : Accepted f.hdr.numBytes numBytes f.seekPosition →
      f.seekPosition + numBytes < 2147483648) :
    ∃ into', f.read disk into numBytes = .ok (moved f.hdr numBytes f.seekPosition, into',
      { f with seekPosition := f.seekPosition + moved f.hdr numBytes f.seekPosition }) := by
  by_cases hcheck : numBytes ≤ 0 ∨ f.hdr.numBytes ≤ f.seekPosition
  · refine ⟨into, ?_⟩
    rw [read, readAt, if_pos hcheck, moved_eq_zero hcheck]
    rfl
  · exact ⟨_, by rw [read, readAt_bytes disk into h.formed h.position.1 (hfits hcheck)]; rfl⟩

/-- The number of bytes of a write that returns. -/
theorem write_eq (disk : Disk) (h : f.Inside) (numBytes : Int) (source raw : Bytes)
    (hfits : Accepted f.hdr.numBytes numBytes f.seekPosition →
      f.seekPosition + numBytes < 2147483648) :
    ∃ disk', f.write disk source raw numBytes = .ok (moved f.hdr numBytes f.seekPosition, disk',
      { f with seekPosition := f.seekPosition + moved f.hdr numBytes f.seekPosition }) := by
  by_cases hcheck : numBytes ≤ 0 ∨ f.hdr.numBytes ≤ f.seekPosition
  · refine ⟨disk, ?_⟩
    rw [write, writeAt, if_pos hcheck, moved_eq_zero hcheck]
    rfl
  · obtain ⟨n, disk', hwrite, -⟩ := writeAt_spec h.formed h.position.1 (hfits hcheck)
    exact ⟨disk', by rw [write, hwrite, writeAt_count hwrite]; rfl⟩

/-- The cursor stays inside the file. -/
theorem Inside.moved (h : f.Inside) :
    Inside { f with seekPosition := f.seekPosition + moved f.hdr numBytes f.seekPosition } := by
  have hposition := h.position
  have hmoved := h.moved_le numBytes
  refine ⟨h.formed, ?_⟩
  dsimp only
  omega

theorem Inside.rewind (h : f.Inside) (nbytes : Int) : (f.rewind nbytes).Inside := by
  unfold OpenFile.rewind
  split
  · exact ⟨h.formed, le_refl _, h.formed.length.1⟩
  · exact h

/-- A request whose sum overflows does not return. -/
theorem overflow (h : f.Inside) (hcheck : Accepted f.hdr.numBytes numBytes f.seekPosition)
    (hsum : 2147483648 ≤ f.seekPosition + numBytes) (into source raw : Bytes) :
    f.read disk into numBytes = .error .overflow ∧
      f.write disk source raw numBytes = .error .overflow := by
  have hposition := not_lt.mpr h.position.1
  constructor
  · rw [read, readAt, if_neg hcheck, if_neg hposition, if_pos hsum]
    rfl
  · rw [write, writeAt, if_neg hcheck, if_neg hposition, if_pos hsum]
    rfl

end OpenFile

/-- What one system call keeps. -/
theorem inside_transfer {s t : Session} {act : Transfer} {events : List Int} (h : s.file.Inside)
    (hs : transfer s act = some (events, t)) : t.file.Inside := by
  have hfits : ∀ {numBytes : Int}, ¬ (Accepted s.file.hdr.numBytes numBytes s.file.seekPosition ∧
      2147483648 ≤ s.file.seekPosition + numBytes) →
      Accepted s.file.hdr.numBytes numBytes s.file.seekPosition →
        s.file.seekPosition + numBytes < 2147483648 :=
    fun hnot hcheck => not_le.mp fun hsum => hnot ⟨hcheck, hsum⟩
  cases act with
  | readFile into count =>
    by_cases hover : Accepted s.file.hdr.numBytes count.toInt s.file.seekPosition ∧
        2147483648 ≤ s.file.seekPosition + count.toInt
    · rw [transfer, (OpenFile.overflow h hover.1 hover.2 into into into).1] at hs
      cases hs
    · obtain ⟨into', hread⟩ := OpenFile.read_eq s.disk h _ into (hfits hover)
      rw [transfer, hread] at hs
      cases hs
      exact h.moved.rewind _
  | writeFile source raw count =>
    by_cases hover : Accepted s.file.hdr.numBytes count.toInt s.file.seekPosition ∧
        2147483648 ≤ s.file.seekPosition + count.toInt
    · rw [transfer, (OpenFile.overflow h hover.1 hover.2 source source raw).2] at hs
      cases hs
    · obtain ⟨disk', hwrite⟩ := OpenFile.write_eq s.disk h _ source raw (hfits hover)
      rw [transfer, hwrite] at hs
      cases hs
      exact h.moved.rewind _

/-- The cursor of a file that has just been opened stays inside the file. -/
theorem inside_run {start s : Session} {trace : List Int} (hf : start.file.hdr.Formed)
    (hstart : start.file.seekPosition = 0) (hrun : Run transfer anyAct start trace s) :
    s.file.Inside := by
  refine hrun.invariant ⟨hf, ?_⟩
    fun _ _ _ _ h _ hs => inside_transfer h hs
  rw [hstart]
  exact ⟨le_refl _, hf.length.1⟩

/-! ## The sizes -/

/-- The numbers of a request that has been cut to a file. -/
theorem sectors_of_transferred {hdr : FileHeader} {position numBytes : Int} (hf : hdr.Formed)
    (hposition : 0 ≤ position) (hcheck : Accepted hdr.numBytes numBytes position) :
    0 < transferred hdr.numBytes numBytes position ∧
      position + transferred hdr.numBytes numBytes position ≤ hdr.numBytes ∧
      0 ≤ firstSector position ∧
      firstSector position ≤ lastSector hdr.numBytes numBytes position ∧
      lastSector hdr.numBytes numBytes position < hdr.numSectors := by
  have hlength := hf.length
  have hcut : 0 < transferred hdr.numBytes numBytes position ∧
      position + transferred hdr.numBytes numBytes position ≤ hdr.numBytes := by
    unfold Accepted at hcheck
    unfold transferred
    split <;> omega
  refine ⟨hcut.1, hcut.2, ?_⟩
  have hsize : hdr.numSectors = ((hdr.numBytes.toNat + 511) / 512 : Nat) := by
    rw [hf.size, divRoundUp_sectorSize]
  unfold firstSector lastSector
  generalize transferred hdr.numBytes numBytes position = n at hcut ⊢
  rw [Int.tdiv_eq_ediv_of_nonneg hposition, Int.tdiv_eq_ediv_of_nonneg (by omega), hsize]
  simp only [SectorSize]
  omega

/-- The numbers of a request that passes the check fit if its sum does. -/
theorem sizes_fit {f : OpenFile} {numBytes : Int} (h : f.Inside) (hbytes : FitsInt numBytes)
    (hcheck : Accepted f.hdr.numBytes numBytes f.seekPosition)
    (hsum : f.seekPosition + numBytes < 2147483648) :
    ∀ v ∈ sizes f.hdr.numBytes numBytes f.seekPosition, FitsInt v := by
  intro v hv
  have hposition := h.position
  have hlength := h.formed.length.2
  obtain ⟨hn, hend, hfirst, hle, hlast⟩ := sectors_of_transferred h.formed h.position.1 hcheck
  have hsectors : f.hdr.numSectors ≤ NumDirect := by
    have := h.formed.numSectors_le
    omega
  unfold FitsInt at hbytes ⊢
  have hcheck' : 0 < numBytes := by
    unfold Accepted at hcheck
    omega
  simp only [sizes, List.mem_cons, List.not_mem_nil, or_false] at hv
  generalize transferred f.hdr.numBytes numBytes f.seekPosition = n at *
  generalize firstSector f.seekPosition = first at *
  generalize lastSector f.hdr.numBytes numBytes f.seekPosition = last at *
  simp only [MaxFileSize, NumDirect, SectorSize] at *
  omega

/-- A request that passes the check is sound exactly if its sum fits. -/
theorem soundSizes_iff {disk : Disk} {f : OpenFile} {numBytes : Int} (h : f.Inside)
    (hbytes : FitsInt numBytes) :
    SoundSizes disk f numBytes ↔ numBytes ≤ 0 ∨ f.hdr.numBytes ≤ f.seekPosition ∨
      f.seekPosition + numBytes < 2147483648 := by
  constructor
  · intro hsound
    by_contra hnot
    push Not at hnot
    have hcheck : Accepted f.hdr.numBytes numBytes f.seekPosition := by
      unfold Accepted
      omega
    have hsum : FitsInt (f.seekPosition + numBytes) :=
      hsound.sizes hcheck _ List.mem_cons_self
    exact absurd hsum.2 (not_lt.mpr hnot.2.2)
  · intro hcond
    have hfits : Accepted f.hdr.numBytes numBytes f.seekPosition →
        f.seekPosition + numBytes < 2147483648 := by
      unfold Accepted
      omega
    constructor
    · intro hcheck
      exact sizes_fit h hbytes hcheck (hfits hcheck)
    · intro hcheck
      exact (sectors_of_transferred h.formed h.position.1 hcheck).2.2
    · intro into
      obtain ⟨into', hread⟩ := OpenFile.read_eq disk h _ into hfits
      exact ⟨_, into', _, hread, h.moved_le _⟩
    · intro source raw
      obtain ⟨disk', hwrite⟩ := OpenFile.write_eq disk h _ source raw hfits
      exact ⟨_, disk', _, hwrite, h.moved_le _⟩

/-- In every session on a well-formed file, a transfer of any count is sound exactly if the request
is refused or the sum of cursor and count fits in an `int`. -/
theorem transfer_sizes_iff {start s : Session} {trace : List Int} (hf : start.file.hdr.Formed)
    (hstart : start.file.seekPosition = 0) (hrun : Run transfer anyAct start trace s)
    (count : BitVec 32) :
    SoundSizes s.disk s.file count.toInt ↔ count.toInt ≤ 0 ∨
      s.file.hdr.numBytes ≤ s.file.seekPosition ∨
      s.file.seekPosition + count.toInt < 2147483648 :=
  soundSizes_iff (inside_run hf hstart hrun) (fitsInt_toInt count)

/-- A session on the file of 600 bytes. -/
def acrossSession : Session := ⟨fun _ _ => 0, ⟨acrossHeader, 0⟩⟩

theorem formed_acrossHeader : acrossHeader.Formed := ⟨by decide, by decide, by decide⟩

/-- One byte of the file is read; then the cursor is at 1. -/
theorem acrossSession_read : ∃ trace s, Run transfer anyAct acrossSession trace s ∧
    s.file = ⟨acrossHeader, 1⟩ := by
  have hinside : acrossSession.file.Inside := ⟨formed_acrossHeader, by decide⟩
  obtain ⟨into, hread⟩ := OpenFile.read_eq acrossSession.disk hinside 1 (fun _ => 0)
    fun _ => by decide
  have hcount : (1 : BitVec 32).toInt = 1 := by decide
  have hstep : transfer acrossSession (.readFile (fun _ => 0) 1) =
      some ([1], ⟨acrossSession.disk, ⟨acrossHeader, 1⟩⟩) := by
    rw [transfer, hcount, hread]
    rfl
  exact ⟨_, _, Run.refl.snoc trivial hstep, rfl⟩

/-- At the cursor 1, a transfer of 4096 bytes is sound. -/
theorem transfer_sizes_across : ∃ trace s, Run transfer anyAct acrossSession trace s ∧
    s.file.seekPosition = 1 ∧ SoundSizes s.disk s.file 4096 := by
  obtain ⟨trace, s, hrun, hs⟩ := acrossSession_read
  have hsound := (transfer_sizes_iff formed_acrossHeader rfl hrun 4096).mpr
    (.inr (.inr (by rw [hs]; decide)))
  exact ⟨trace, s, hrun, by rw [hs], hsound⟩

/-- At the cursor 1, a transfer of the greatest `int` overflows in the test that should have cut
it. -/
theorem transfer_overflows : ∃ trace s, Run transfer anyAct acrossSession trace s ∧
    s.file.seekPosition = 1 ∧ ¬ SoundSizes s.disk s.file (0x7fffffff : BitVec 32).toInt := by
  obtain ⟨trace, s, hrun, hs⟩ := acrossSession_read
  have hinside := inside_run formed_acrossHeader rfl hrun
  refine ⟨trace, s, hrun, by rw [hs], fun hsound => ?_⟩
  have hcond := (soundSizes_iff hinside (by decide)).mp hsound
  rw [hs] at hcond
  revert hcond
  decide

end Nachos.Filesys
