import Nachos.Userprog.Kernel

/-!
# The stub file system

`FileSystem` and `OpenFile` of `filesys/filesys.h` and `filesys/openfile.h` as the kernel with user
programs is built (`FILESYS_STUB`): files are files of the host, and the kernel keeps a table of
open ones.
-/

namespace Nachos.FileSystem

variable {host : Host} {W : Type} {advances : Bool}

/-- `"stdin"`. -/
def stdinName : List Byte := [0x73, 0x74, 0x64, 0x69, 0x6e]

/-- `"stdout"`. -/
def stdoutName : List Byte := [0x73, 0x74, 0x64, 0x6f, 0x75, 0x74]

/-- `FileSystem::getIdxFreeSlot`; `none` stands for `-1`. -/
def getIdxFreeSlot (table : FileTable) : Option (Fin N_FILES_IN_TABLE) :=
  (List.finRange N_FILES_IN_TABLE).find? fun i => decide (2 ≤ i.val) && (table i).isNone

/-- `FileSystem::Create`: `1` for `TRUE`, `0` for `FALSE`. The `ASSERT` of `OpenForWrite` comes
before the test for `-1`. -/
def create (env : Env W) (name : List Byte) : Sys host W advances Int := do
  let (fileDescriptor, _) ← Sys.call env (.openForWrite name)
  if fileDescriptor < 0 then .stop .abort
  else if fileDescriptor = -1 then pure 0
  else do
    let _ ← Sys.call env (.close fileDescriptor)
    pure 1

/-- `FileSystem::Open(char*)`: the descriptor in the new `OpenFile`, or `none` for `NULL`. -/
def openFile (env : Env W) (name : List Byte) : Sys host W advances (Option Int) := do
  let (fileDescriptor, _) ← Sys.call env (.openForReadWrite name)
  if fileDescriptor = -1 then pure none else pure (some fileDescriptor)

/-- The slot of `stdin`. -/
abbrev stdinSlot : Fin N_FILES_IN_TABLE := 0

/-- The slot of `stdout`. -/
abbrev stdoutSlot : Fin N_FILES_IN_TABLE := 1

/-- The slot `FileSystem::Open(char*, int)` takes for a type. -/
def slotFor (table : FileTable) (type : Int) : Option (Fin N_FILES_IN_TABLE) :=
  if type = 2 then some stdinSlot
  else if type = 3 then some stdoutSlot
  else if type = 0 ∨ type = 1 then getIdxFreeSlot table
  else none

/-- `FileSystem::Open(char*, int)`. -/
def openTyped (env : Env W) (name : List Byte) (type : Int) : Sys host W advances Int := do
  let table ← Sys.fileTable
  match slotFor table type with
  | none => pure (-1)
  | some freeslot => do
    let (fileDescriptor, _) ← Sys.call env (.openForReadWrite name)
    if fileDescriptor = -1 then pure (-1)
    else do
      Sys.setFile freeslot (some ⟨fileDescriptor, 0, type⟩)
      pure freeslot

/-- The constructor. -/
def construct (env : Env W) : Sys host W advances Unit := do
  Confined.update (fun k => { k with fileTable := fun _ => none })
    fun k => .single (.fileTable k _)
  let _ ← create env stdinName
  let _ ← create env stdoutName
  let _ ← openTyped env stdinName 2
  let _ ← openTyped env stdoutName 3

/-- `OpenFile::Read` on the entry `f` in slot `id`: the return value and the bytes read. -/
def read (env : Env W) (id : Fin N_FILES_IN_TABLE) (f : OpenFile) (numBytes : Int) :
    Sys host W advances (Int × List Byte) := do
  let (numRead, data) ← Sys.call env (.readAt f.file numBytes f.currentOffset)
  Sys.setFile id (some { f with currentOffset := f.currentOffset + numRead })
  pure (numRead, data.take numRead.toNat)

/-- `OpenFile::Write` on the entry `f` in slot `id`. -/
def write (env : Env W) (id : Fin N_FILES_IN_TABLE) (f : OpenFile) (bytes : List Byte) :
    Sys host W advances Int := do
  let _ ← Sys.call env (.writeAt f.file bytes f.currentOffset)
  Sys.setFile id (some { f with currentOffset := f.currentOffset + bytes.length })
  pure bytes.length

/-- The index of a file descriptor in the table, unless it is out of range. -/
def slot? (fileid : Int) : Option (Fin N_FILES_IN_TABLE) :=
  if h : 0 ≤ fileid ∧ fileid < N_FILES_IN_TABLE then some ⟨fileid.toNat, by omega⟩ else none

/-! ## The free slot -/

/-- The free slot is the least free index from 2 on. -/
theorem getIdxFreeSlot_eq_some {table : FileTable} {i : Fin N_FILES_IN_TABLE} :
    getIdxFreeSlot table = some i ↔
      2 ≤ i.val ∧ table i = none ∧ ∀ j : Fin N_FILES_IN_TABLE, 2 ≤ j.val → j < i →
        table j ≠ none := by
  simp only [getIdxFreeSlot, List.find?_eq_some_iff_getElem, List.getElem_finRange,
    List.length_finRange, Bool.and_eq_true, decide_eq_true_eq, Option.isNone_iff_eq_none,
    and_assoc, and_congr_right_iff]
  intro _ _
  constructor
  · rintro ⟨n, hn, rfl, hmin⟩ j hj hlt hfree
    simpa [hj, hfree] using hmin j.val hlt
  · intro hmin
    refine ⟨i.val, i.isLt, rfl, fun j hlt => ?_⟩
    by_cases hj : 2 ≤ j
    · simpa [hj, Option.isSome_iff_ne_none] using hmin ⟨j, by omega⟩ hj hlt
    · simp [hj]

end Nachos.FileSystem
