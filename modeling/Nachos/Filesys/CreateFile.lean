import Mathlib.Data.List.TakeWhile
import Nachos.Filesys.Consistency
import Nachos.Userprog.UserCopy

/-!
# What `CreateFile` reports

`handle_SC_CreateFile` of `userprog/exception.cc` in the build with `FILESYS`, over the file system
on the disk. `FileSystem::Create` returns a `bool`, and the handler compares it with -1; what it
writes to `r2` then is overwritten in the next line anyway. So the result of a call with a name is
0, and it is the truth exactly when there was room for the file.
-/

namespace Nachos.Filesys

open Syscall Transition

variable {W : Type} {host : Host} {k : Kernel W} {s : State} {buffer : List Byte} {name : CString}
  {table : List TranslationEntry} {env : Env W} {raw : Heap} {k₁ : Kernel W} {disk' : Disk}

/-- Why the handler does not return. -/
inductive Interrupted where
  | kernel (stop : Stop)
  | filesys (failure : Failure)
  deriving DecidableEq, Repr

/-- `machine->WriteRegister(2, value)`. -/
def writeResult (k : Kernel W) (value : Int) : Kernel W :=
  { k with machine := k.machine.writeRegister R2 (BitVec.ofInt 32 value) }

/-- The C string in a buffer. -/
def CString.ofBuffer (buffer : List Byte) : CString where
  chars := cString buffer
  noNul := by
    intro hmem
    have hall := List.all_takeWhile (p := fun c : Byte => decide (c ≠ 0)) (l := buffer)
    simpa using List.all_eq_true.mp hall 0 hmem

/-- A `bool` as an `int`. -/
def boolToInt (b : Bool) : Int := if b then 1 else 0

/-- `fileSystem->Create(fname, 0)` on the disk. -/
def createOnDisk (fs : FileSystem) (raw : Heap) (fname : List Byte) :
    StateT (Kernel W × Disk) (Except Failure) Int := fun (k, disk) => do
  let (result, disk) ← fs.create disk raw (CString.ofBuffer fname) 0
  pure (boolToInt result.isSome, k, disk)

/-- `handle_SC_CreateFile` with `fileSystem->Create` on the disk. -/
def handleCreateFile (host : Host) (env : Env W) (s : State) (raw : Heap) (k : Kernel W) :
    Except Interrupted (Kernel W × Disk) :=
  match (Sys.user2System env (k.machine.registers R4) MAX_FILENAME_LEN :
      Sys host W true _).run k with
  | (.error stop, _) => .error (.kernel stop)
  | (.ok buffer, k) =>
    match createFile (createOnDisk s.fs raw)
        (fun value (k, disk) => .ok ((), writeResult k value, disk)) buffer (k, s.disk) with
    | .error failure => .error (.filesys failure)
    | .ok ((), result) => .ok result

/-- A file of that name has been added to the directory. -/
def NewlyAdded (disk disk' : Disk) (name : Key) : Prop :=
  (∀ f ∈ filesOn disk, f.1 ≠ name) ∧ ∃ sector, (name, sector) ∈ filesOn disk'

/-- The truth about a call for the file `name`: the result is 0 if a file has been added, and
otherwise it is -1 and the disk is as it was. -/
def ReportsTruth (disk : Disk) (name : Key) (k' : Kernel W) (disk' : Disk) : Prop :=
  (k'.machine.registers R2 = 0 ↔ NewlyAdded disk disk' name) ∧
    (¬ NewlyAdded disk disk' name → k'.machine.registers R2 = -1 ∧ disk' = disk)

@[simp] theorem writeResult_R2 (k : Kernel W) (value : Int) :
    (writeResult k value).machine.registers R2 = BitVec.ofInt 32 value :=
  Machine.writeRegister_self ..

/-- The buffer holds the first characters of the name. -/
theorem user2System_name (host : Host) (env : Env W) (htab : k.machine.tables = linear table)
    (hset : k.machine.Settled) {virtAddr : BitVec 32} {name : List Byte}
    (hname : Holds (fun i => byteAt table k.machine.mainMemory (virtAddr + BitVec.ofNat 32 i)) 0
      name) :
    ∃ buffer k', (Sys.user2System env virtAddr MAX_FILENAME_LEN : Sys host W true _).run k =
      (.ok buffer, k') ∧ cString buffer = name.take 200 := by
  obtain ⟨k', hrun, -⟩ := user2System_run host true env htab hset virtAddr MAX_FILENAME_LEN
    (by decide) (by decide)
  have hcopy := cString_copyText (MAX_FILENAME_LEN.toNat) hname (env.uninit k.world)
  obtain ⟨buffer, hbuffer, htext⟩ := Option.map_eq_some_iff.mp hcopy
  rw [hbuffer] at hrun
  exact ⟨buffer, k', hrun, htext⟩

/-- With a name, the handler reports 0, whatever `Create` returns. -/
theorem handleCreateFile_named
    (hcopy : (Sys.user2System env (k.machine.registers R4) MAX_FILENAME_LEN :
      Sys host W true _).run k = (.ok buffer, k₁)) (hne : cString buffer ≠ [])
    {result : Option Int}
    (hcreate : s.fs.create s.disk raw (CString.ofBuffer (cString buffer)) 0 =
      .ok (result, disk')) :
    ∃ k', handleCreateFile host env s raw k = .ok (k', disk') ∧ k'.machine.registers R2 = 0 := by
  have hsucc : boolToInt result.isSome ≠ -1 := by unfold boolToInt; split <;> decide
  have hrun : (createOnDisk s.fs raw (cString buffer) :
      StateT (Kernel W × Disk) (Except Failure) Int) (k₁, s.disk) =
        .ok (boolToInt result.isSome, k₁, disk') := by
    rw [createOnDisk, hcreate]
    rfl
  rw [handleCreateFile, hcopy]
  simp only [createFile, List.length_eq_zero_iff, hne, if_false, bind, StateT.bind, hrun,
    Except.bind, hsucc]
  exact ⟨_, rfl, writeResult_R2 _ 0⟩

/-- Without a name, the handler reports -1. -/
theorem handleCreateFile_empty
    (hcopy : (Sys.user2System env (k.machine.registers R4) MAX_FILENAME_LEN :
      Sys host W true _).run k = (.ok buffer, k₁)) (hempty : cString buffer = []) :
    handleCreateFile host env s raw k = .ok (writeResult k₁ (-1), s.disk) := by
  rw [handleCreateFile, hcopy]
  simp only [createFile, hempty, List.length_nil, if_true]

/-- The handler passes on what counts of the name. -/
theorem key_ofBuffer (h : cString buffer = name.chars.take 200) :
    (CString.ofBuffer (cString buffer)).key = name.key := by
  show (cString (cString buffer)).take FileNameMaxLen = name.chars.take FileNameMaxLen
  rw [cString, cString, List.takeWhile_idem]
  rw [cString] at h
  rw [h, List.take_take]
  rfl

/-- A file that has been created has been added. -/
theorem Created.newlyAdded {disk : Disk} {n : Nat} {sector : Int}
    (h : Created disk name n sector disk') : NewlyAdded disk disk' name.key :=
  ⟨h.new, sector, (h.mem_files _).mpr (.inl rfl)⟩

theorem not_newlyAdded (disk : Disk) (name : Key) : ¬ NewlyAdded disk disk name := by
  intro h
  obtain ⟨hnew, sector, hmem⟩ := h
  exact hnew _ hmem rfl

/-- On a sound disk the handler returns and tells the truth exactly when the name is empty or there
is room for the file. -/
theorem reportsTruth_iff (h : Sound s.fs s.disk) (host : Host) (env : Env W) (raw : Heap)
    (htab : k.machine.tables = linear table) (hset : k.machine.Settled)
    (hname : Holds (fun i => byteAt table k.machine.mainMemory
      (k.machine.registers R4 + BitVec.ofNat 32 i)) 0 name.chars) :
    ∃ k' disk', handleCreateFile host env s raw k = .ok (k', disk') ∧
      (ReportsTruth s.disk name.key k' disk' ↔ name.chars = [] ∨ Room s.disk name 0) := by
  obtain ⟨buffer, k₁, hcopy, htext⟩ := user2System_name host env htab hset hname
  by_cases hempty : name.chars = []
  · rw [hempty, List.take_nil] at htext
    refine ⟨_, _, handleCreateFile_empty hcopy htext, iff_of_true ?_ (.inl hempty)⟩
    have hnot := not_newlyAdded s.disk name.key
    refine ⟨iff_of_false ?_ hnot, fun _ => ⟨writeResult_R2 _ _, rfl⟩⟩
    rw [writeResult_R2]
    decide
  · have hne : cString buffer ≠ [] := by
      rw [htext]
      simpa using hempty
    have hkey := key_ofBuffer htext
    rcases create_spec h raw (CString.ofBuffer (cString buffer)) (Nat.zero_le _) with
      ⟨hfull, heq⟩ | ⟨hroom, sector, disk', heq, hcreated⟩
    · obtain ⟨k', hhandle, hR2⟩ := handleCreateFile_named hcopy hne heq
      refine ⟨k', s.disk, hhandle, iff_of_false (fun htruth => ?_) ?_⟩
      · exact not_newlyAdded s.disk name.key (htruth.1.mp hR2)
      · rw [Room, hkey] at hfull
        exact not_or.mpr ⟨hempty, hfull⟩
    · obtain ⟨k', hhandle, hR2⟩ := handleCreateFile_named hcopy hne heq
      have hadded := hcreated.newlyAdded
      rw [hkey] at hadded
      rw [Room, hkey] at hroom
      exact ⟨k', disk', hhandle, iff_of_true
        ⟨iff_of_true hR2 hadded, fun hnot => absurd hadded hnot⟩ (.inr hroom)⟩

/-- In every state that `Create` and `Remove` reach from a formatted disk, and for every name in
user memory, `CreateFile` returns. It reports the truth exactly when the name is empty or the file
system has room for the file. -/
theorem create_file_reports_iff (disk : Disk) (memory : Heap) :
    ∃ fs start, format disk memory = .ok (fs, start) ∧
      ∀ trace s, Run step Sized ⟨fs, start⟩ trace s →
      ∀ (host : Host) (env : Env W) (raw : Heap) (k : Kernel W) (table : List TranslationEntry)
        (name : CString), k.machine.tables = linear table → k.machine.Settled →
        Holds (fun i => byteAt table k.machine.mainMemory
          (k.machine.registers R4 + BitVec.ofNat 32 i)) 0 name.chars →
        ∃ k' disk', handleCreateFile host env s raw k = .ok (k', disk') ∧
          (ReportsTruth s.disk name.key k' disk' ↔ name.chars = [] ∨ Room s.disk name 0) := by
  obtain ⟨fs, start, hformat, hsound, -⟩ := format_spec disk memory
  refine ⟨fs, start, hformat, fun trace s hrun host env raw k table name htab hset hname => ?_⟩
  exact reportsTruth_iff (sound_run hsound hrun) host env raw htab hset hname

/-- A kernel whose caller has the name `"a"` at address 0. -/
def nameKernel : Kernel Unit where
  machine := ⟨fun _ => 0, fun p => if p = 0 then 97 else 0,
    linear onePage⟩
  fileTable := fun _ => none
  world := ()
  log := []

theorem nameKernel_holds : Holds (fun i => byteAt onePage
    nameKernel.machine.mainMemory (nameKernel.machine.registers R4 + BitVec.ofNat 32 i)) 0
      [97] := by
  refine ⟨fun i hi => ?_, by decide, ?_⟩
  · obtain rfl : i = 0 := by simpa using hi
    show byteAt _ _ (0 + BitVec.ofNat 32 0) = .ok 97
    rw [byteAt, lookup_onePage (by decide)]
    rfl
  · show byteAt _ _ (0 + BitVec.ofNat 32 1) = .ok 0
    rw [byteAt, lookup_onePage (by decide)]
    rfl

/-- The first file on a formatted disk of zeros. -/
theorem create_file_reports_first : ∃ fs start k' disk',
    format (fun _ _ => 0) (fun _ _ => 0) = .ok (fs, start) ∧
      handleCreateFile .littleEndian (answering 0) ⟨fs, start⟩ (fun _ _ => 0) nameKernel =
        .ok (k', disk') ∧ ReportsTruth start [97] k' disk' := by
  obtain ⟨fs, start, hformat, hall⟩ := create_file_reports_iff (W := Unit) (fun _ _ => 0)
    fun _ _ => 0
  obtain ⟨fs', start', hformat', -, hfiles, hclear, -⟩ := format_spec (fun _ _ => 0) fun _ _ => 0
  cases hformat.symm.trans hformat'
  obtain ⟨k', disk', hhandle, hiff⟩ := hall [] ⟨fs, start⟩ .refl .littleEndian (answering 0)
    (fun _ _ => 0) nameKernel _ ⟨[97], by decide⟩ rfl ⟨rfl, rfl, rfl⟩ nameKernel_holds
  exact ⟨fs, start, k', disk', hformat, hhandle,
    hiff.mpr (.inr (room_formatted _ (Nat.zero_le _) hfiles hclear))⟩

/-- The second call with the same name: nothing is created, and the result is 0. -/
theorem create_file_misreports : ∃ fs start sector s k' disk',
    format (fun _ _ => 0) (fun _ _ => 0) = .ok (fs, start) ∧
      Run step Sized ⟨fs, start⟩ [.created ⟨[97], by decide⟩ sector] s ∧
      handleCreateFile .littleEndian (answering 0) s (fun _ _ => 0) nameKernel = .ok (k', disk') ∧
      k'.machine.registers R2 = 0 ∧ disk' = s.disk ∧ ¬ ReportsTruth s.disk [97] k' disk' := by
  obtain ⟨fs, start, hformat, hsound, hfiles, hclear, -⟩ := format_spec (fun _ _ => 0) fun _ _ => 0
  have hempty : 0 ≤ MaxFileSize := Nat.zero_le _
  obtain ⟨sector, disk', hstep, hcreated⟩ := @step_create ⟨fs, start⟩ hsound (fun _ _ => 0)
    ⟨[97], by decide⟩ 0 hempty (room_formatted _ hempty hfiles hclear)
  have hsized : Sized ⟨fs, start⟩ (.create (fun _ _ => 0) ⟨[97], by decide⟩ (0 : Nat)) :=
    ⟨by decide, by decide⟩
  have hrun := Run.snoc .refl hsized hstep
  have hs := sound_run hsound hrun
  have hset : nameKernel.machine.Settled := ⟨rfl, rfl, rfl⟩
  obtain ⟨buffer, k₁, hcopy, htext⟩ := user2System_name .littleEndian (answering 0) rfl hset
    nameKernel_holds
  have hkey : (CString.ofBuffer (cString buffer)).key = [97] :=
    @key_ofBuffer buffer ⟨[97], by decide⟩ htext
  have hmem : ([97], sector) ∈ filesOn disk' := (hcreated.mem_files _).mpr (.inl rfl)
  rcases create_spec hs (fun _ _ => 0) (CString.ofBuffer (cString buffer)) hempty with
    ⟨-, heq⟩ | ⟨hroom, -⟩
  · obtain ⟨k', hhandle, hR2⟩ := handleCreateFile_named hcopy (by rw [htext]; decide) heq
    refine ⟨fs, start, sector, _, k', disk', hformat, hrun, hhandle, hR2, rfl, fun htruth => ?_⟩
    exact not_newlyAdded disk' [97] (htruth.1.mp hR2)
  · exact absurd (hkey ▸ rfl) (hroom.1 _ hmem)

end Nachos.Filesys
