import Nachos.Library.Transition
import Nachos.Userprog.UserCopy

/-!
# The table of open files

The system calls `OpenFile`, `CloseFile`, `ReadFile` and `WriteFile` are made one after the other,
each by a program of its own with its own registers, memory and page table, on the table that the
constructor of `FileSystem` has left. What one call does to the table is stated by `OpenSpec`,
`CloseSpec` and `CursorsMoved`; along a run slots 0 and 1 stay as they are, and the descriptors
handed out and not yet closed are all different and are exactly the occupied slots from 2 on.
-/

namespace Nachos.FileSystem

open Syscall Transition Function Confined Sys

variable {host : Host} {W : Type} {advances : Bool} {α β : Type} {v n : Int} {env : Env W}
  {virtAddr : BitVec 32} {k k' : Kernel W} {id i : Fin N_FILES_IN_TABLE} {table start : FileTable}
  {x : Sys host W advances α} {e : Stop} {c : Call} {bytes name : List Byte} {r : Int × List Byte}
  {w type fileid result : BitVec 32} {fname : Option (List Byte)} {m : Machine} {table' : FileTable}

/-! ## Code that leaves the table alone -/

/-- The program does not change the table. -/
def KeepsFiles (x : Sys host W advances α) : Prop :=
  ∀ k, (x.run k).2.fileTable = k.fileTable

/-- Programs that leave the table alone compose. -/
theorem KeepsFiles.bind {f : α → Sys host W advances β} (hx : KeepsFiles x)
    (hf : ∀ a, KeepsFiles (f a)) : KeepsFiles (x >>= f) := by
  intro k
  have hk := hx k
  rw [run_bind]
  split
  · rename_i a k₁ hrun
    rw [hrun] at hk
    exact (hf a k₁).trans hk
  · rename_i e k₁ hrun
    rwa [hrun] at hk

theorem keepsFiles_pure {a : α} : KeepsFiles (pure a : Sys host W advances α) := fun _ => rfl

theorem keepsFiles_stop : KeepsFiles (.stop e : Sys host W advances α) := fun _ => rfl

/-- `r2` is not part of the table. -/
theorem keepsFiles_setR2 : KeepsFiles (Sys.setR2 v : Sys host W advances Unit) :=
  fun _ => rfl

/-- Nor is the host. -/
theorem keepsFiles_call : KeepsFiles (Sys.call env c : Sys host W advances _) := by
  intro k
  simp only [Sys.call]
  split <;> rfl

/-- A trap leaves the table alone. -/
theorem keepsFiles_trap {which : ExceptionType} {a : BitVec 32} :
    KeepsFiles (Sys.trap which a : Sys host W advances Unit) := by
  refine KeepsFiles.bind (fun _ => rfl) fun _ => ?_
  cases which
  case PageFaultException => exact keepsFiles_stop
  all_goals exact keepsFiles_pure

/-- So does an access to user memory. -/
theorem keepsFiles_access {x : Cpu host α} {h : ∀ m, (x.run m).2.registers = m.registers} :
    KeepsFiles (Sys.access x h : Sys host W advances _) := by
  refine KeepsFiles.bind (fun _ => rfl) fun outcome => ?_
  split
  · exact keepsFiles_pure
  · exact keepsFiles_trap.bind fun _ => keepsFiles_pure
  · exact keepsFiles_stop
  · exact keepsFiles_stop

/-- So does the loop of `User2System`. -/
theorem keepsFiles_copyIn (virtAddr : BitVec 32) (n idx : Nat) (oneChar : BitVec 32) :
    KeepsFiles (Sys.copyIn virtAddr n idx oneChar : Sys host W advances _) := by
  induction n generalizing idx oneChar with
  | zero => exact keepsFiles_pure
  | succ n ih =>
    refine keepsFiles_access.bind fun read => ?_
    dsimp only
    split
    · exact keepsFiles_pure
    · exact (ih _ _).bind fun _ => keepsFiles_pure

/-- So does `User2System`. -/
theorem keepsFiles_user2System {limit : Int} :
    KeepsFiles (Sys.user2System env virtAddr limit : Sys host W advances _) := by
  unfold Sys.user2System
  split
  · exact keepsFiles_stop
  · exact KeepsFiles.bind (fun _ => rfl) fun _ => keepsFiles_copyIn _ _ _ _

/-- So does the loop of `System2User`. -/
theorem keepsFiles_copyOut (virtAddr : BitVec 32) (buffer : List Byte) (n i : Nat) :
    KeepsFiles (Sys.copyOut virtAddr buffer n i : Sys host W advances _) := by
  induction n generalizing i with
  | zero => exact keepsFiles_pure
  | succ n ih =>
    refine keepsFiles_access.bind fun _ => ?_
    split
    · exact keepsFiles_pure
    · exact ih _

/-- So does `System2User`. -/
theorem keepsFiles_system2User {len : Int} {buffer : List Byte} :
    KeepsFiles (Sys.system2User virtAddr len buffer : Sys host W advances _) := by
  unfold Sys.system2User
  split
  · exact keepsFiles_pure
  · split
    · exact keepsFiles_pure
    · exact keepsFiles_copyOut _ _ _ _

/-- An answered call is the last entry of the log. -/
theorem call_log (h : (Sys.call env c : Sys host W advances _).run k = (.ok r, k')) :
    k'.log = k.log ++ [(c, r.1)] := by
  simp only [Sys.call] at h
  split at h
  · cases h
  · cases h
    rfl

/-- The table after a program that leaves it alone. -/
theorem KeepsFiles.eq (hx : KeepsFiles x) {r : Except Stop α} (h : x.run k = (r, k')) :
    k'.fileTable = k.fileTable := by
  have hk := hx k
  rwa [h] at hk

/-! ## The four calls -/

theorem toInt_ofNat_slot (id : Fin N_FILES_IN_TABLE) :
    (BitVec.ofNat 32 id.val).toInt = id.val := by
  have hid : id.val < 100 := id.isLt
  rw [BitVec.toInt_eq_toNat_of_lt] <;> rw [BitVec.toNat_ofNat] <;> omega

/-- A descriptor in a register names the slot with that number. -/
theorem slot?_eq_some : slot? w.toInt = some id ↔ w = BitVec.ofNat 32 id.val := by
  constructor
  · intro h
    unfold slot? at h
    split at h
    · rename_i hrange
      cases h
      apply BitVec.eq_of_toInt_eq
      rw [toInt_ofNat_slot]
      exact (Int.toNat_of_nonneg hrange.1).symm
    · cases h
  · rintro rfl
    rw [toInt_ofNat_slot, slot?, dif_pos (by omega)]
    rfl

/-- Only cursors have moved, and those of slots 0 and 1 have not. -/
def CursorsMoved (table table' : FileTable) : Prop :=
  ∀ i, (i.val < 2 → table' i = table i) ∧
    (table' i).map (fun f => (f.file, f.type)) = (table i).map (fun f => (f.file, f.type))

/-- Nothing has moved. -/
theorem CursorsMoved.refl (table : FileTable) : CursorsMoved table table :=
  fun _ => ⟨fun _ => rfl, rfl⟩

/-- Moves add up. -/
theorem CursorsMoved.trans {t₁ t₂ t₃ : FileTable} (h₁ : CursorsMoved t₁ t₂)
    (h₂ : CursorsMoved t₂ t₃) : CursorsMoved t₁ t₃ :=
  fun i => ⟨fun hi => ((h₂ i).1 hi).trans ((h₁ i).1 hi), (h₂ i).2.trans (h₁ i).2⟩

/-- A new cursor in an entry from slot 2 on. -/
theorem cursorsMoved_update {f : OpenFile} (hid : 2 ≤ id.val) (hf : table id = some f)
    (offset : Int) :
    CursorsMoved table (update table id (some { f with currentOffset := offset })) := by
  intro i
  by_cases hi : i = id
  · subst hi
    exact ⟨fun hlt => absurd hlt (by omega), by simp [hf]⟩
  · simp [update_of_ne hi]

/-- `OpenFile::Read` moves the cursor of its entry. -/
theorem read_cursors {f : OpenFile} (hid : 2 ≤ id.val) (hf : k.fileTable id = some f)
    (h : (read env id f n : Sys host W advances _).run k = (.ok r, k')) :
    CursorsMoved k.fileTable k'.fileTable ∧ (k'.fileTable id).isSome := by
  obtain ⟨reply, k₁, hcall, h⟩ := ok_of_bind h
  have hk₁ := keepsFiles_call.eq hcall
  cases h
  change CursorsMoved k.fileTable (update k₁.fileTable id _) ∧ _
  rw [hk₁]
  exact ⟨cursorsMoved_update hid hf _, by simp⟩

/-- `OpenFile::Write` moves the cursor of its entry. -/
theorem write_cursors {f : OpenFile} {r : Int} (hid : 2 ≤ id.val) (hf : k.fileTable id = some f)
    (h : (write env id f bytes : Sys host W advances _).run k = (.ok r, k')) :
    CursorsMoved k.fileTable k'.fileTable := by
  obtain ⟨reply, k₁, hcall, h⟩ := ok_of_bind h
  have hk₁ := keepsFiles_call.eq hcall
  cases h
  change CursorsMoved k.fileTable (update k₁.fileTable id _)
  rw [hk₁]
  exact cursorsMoved_update hid hf _

/-- The end of `ReadFile` and `WriteFile` at most moves a cursor back. -/
theorem reportBytes_cursors (id : Option (Fin N_FILES_IN_TABLE)) (hid : ∀ i ∈ id, 2 ≤ i.val)
    {r : Except Stop Unit} (h : (reportBytes id n : Sys host W advances Unit).run k = (r, k')) :
    CursorsMoved k.fileTable k'.fileTable := by
  unfold reportBytes at h
  split at h
  · cases id with
    | none =>
      cases h
      exact .refl _
    | some i =>
      cases h
      change CursorsMoved k.fileTable (update k.fileTable i
        ((k.fileTable i).map fun f => { f with currentOffset := 0 }))
      cases hf : k.fileTable i with
      | none =>
        rw [Option.map_none, ← hf, update_eq_self]
        exact .refl _
      | some f => exact cursorsMoved_update (hid i rfl) hf 0
  · cases h
    exact .refl _

/-- A descriptor other than 0 and 1 names a slot from 2 on. -/
theorem two_le_slot (h : slot? w.toInt = some id) (h0 : w ≠ 0) (h1 : w ≠ 1) : 2 ≤ id.val := by
  rw [slot?_eq_some] at h
  subst h
  by_contra hlt
  have hcases : id.val = 0 ∨ id.val = 1 := by omega
  rcases hcases with hid | hid <;> simp [hid] at h0 h1

/-- The end of `ReadFile`. -/
theorem report_and_copy_cursors (id : Option (Fin N_FILES_IN_TABLE)) (hid : ∀ i ∈ id, 2 ≤ i.val)
    {data : List Byte} (h : (do
      reportBytes id n
      let _ ← Sys.system2User virtAddr n data : Sys host W advances Unit).run k = (.ok (), k')) :
    CursorsMoved k.fileTable k'.fileTable := by
  obtain ⟨_, k₁, hreport, h⟩ := ok_of_bind h
  obtain ⟨_, k₂, hcopy, h⟩ := ok_of_bind h
  cases h
  rw [keepsFiles_system2User.eq hcopy]
  exact reportBytes_cursors id hid hreport

/-- `ReadFile` moves cursors only. -/
theorem handleReadFile_cursors
    (h : (handleReadFile env : Sys host W advances Unit).run k = (.ok (), k')) :
    CursorsMoved k.fileTable k'.fileTable := by
  rw [handleReadFile, run_reg_bind, run_reg_bind, run_reg_bind] at h
  split at h
  · split at h
    · cases h
    · obtain ⟨line, k₁, hline, h⟩ := ok_of_bind h
      have hk₁ := KeepsFiles.eq (keepsFiles_call.bind fun _ => keepsFiles_pure) hline
      rw [← hk₁]
      exact report_and_copy_cursors none (by simp) h
  split at h
  · rw [keepsFiles_setR2.eq h]
    exact .refl _
  rename_i h0 h1
  rw [run_fileTable_bind] at h
  split at h
  · rw [keepsFiles_setR2.eq h]
    exact .refl _
  · rename_i id hslot
    split at h
    · rw [keepsFiles_setR2.eq h]
      exact .refl _
    · rename_i f hf
      split at h
      · rw [keepsFiles_setR2.eq h]
        exact .refl _
      · have hid := two_le_slot hslot h0 h1
        obtain ⟨data, k₁, hread, h⟩ := ok_of_bind h
        have hk₁ := read_cursors hid hf hread
        dsimp only at h
        split at h
        · cases h
        · exact hk₁.1.trans (report_and_copy_cursors (some id) (by simpa using hid) h)

/-- `WriteFile` moves cursors only. -/
theorem handleWriteFile_cursors
    (h : (handleWriteFile env : Sys host W advances Unit).run k = (.ok (), k')) :
    CursorsMoved k.fileTable k'.fileTable := by
  rw [handleWriteFile, run_reg_bind, run_reg_bind, run_reg_bind] at h
  obtain ⟨buffer, k₁, hcopy, h⟩ := ok_of_bind h
  rw [← keepsFiles_user2System.eq hcopy]
  split at h
  · rw [keepsFiles_setR2.eq h]
    exact .refl _
  split at h
  · obtain ⟨n, k₂, hwrite, h⟩ := ok_of_bind h
    rw [← KeepsFiles.eq (keepsFiles_call.bind fun _ => keepsFiles_pure) hwrite]
    exact reportBytes_cursors none (by simp) h
  rename_i h0 h1
  rw [run_fileTable_bind] at h
  split at h
  · rw [keepsFiles_setR2.eq h]
    exact .refl _
  · rename_i id hslot
    split at h
    · rw [keepsFiles_setR2.eq h]
      exact .refl _
    · rename_i f hf
      have hid := two_le_slot hslot h0 h1
      obtain ⟨n, k₂, hwrite, h⟩ := ok_of_bind h
      exact (write_cursors hid hf hwrite).trans
        (reportBytes_cursors (some id) (by simpa using hid) h)

/-- What `CloseFile` does to the table. -/
def CloseSpec (table : FileTable) (fileid result : BitVec 32) (table' : FileTable) : Prop :=
  (∃ i : Fin N_FILES_IN_TABLE, fileid = BitVec.ofNat 32 i.val ∧ 2 ≤ i.val ∧ table i ≠ none ∧
    result = 0 ∧ table' = update table i none) ∨
  ((∀ i : Fin N_FILES_IN_TABLE, fileid = BitVec.ofNat 32 i.val → 2 ≤ i.val → table i = none) ∧
    result = -1 ∧ table' = table)

/-- What `OpenFile` does to the table. -/
structure OpenSpec (table : FileTable) (fname : Option (List Byte)) (type result : BitVec 32)
    (table' : FileTable) : Prop where
  stdin : result = 0 ↔ fname = some stdinName ∧ type = 2
  stdout : result = 1 ↔ fname = some stdoutName ∧ type = 3
  console : result = 0 ∨ result = 1 → table' = table
  other : result ≠ 0 → result ≠ 1 → result = -1 ∧ table' = table ∨
    ∃ (i : Fin N_FILES_IN_TABLE) (file : Int), result = BitVec.ofNat 32 i.val ∧ 2 ≤ i.val ∧
      table i = none ∧ (∀ j : Fin N_FILES_IN_TABLE, 2 ≤ j.val → j < i → table j ≠ none) ∧
      table' = update table i (some ⟨file, 0, type.toInt⟩)

/-- The name that `OpenFile` copies from user memory; with a wrong type it copies none. -/
def openName (host : Host) (env : Env W) (k : Kernel W) : Option (List Byte) :=
  if k.machine.registers R5 ∈ [0#32, 1#32, 2#32, 3#32] then
    match (Sys.user2System env (k.machine.registers R4) MAX_FILENAME_LEN :
        Sys host W true _).run k with
    | (.ok buffer, _) => some (cString buffer)
    | (.error _, _) => none
  else none

/-- For a name in mapped memory it is the first `MAX_FILENAME_LEN` characters of the name. -/
theorem openName_of_holds {table : List TranslationEntry} (htab : k.machine.tables = linear table)
    (hset : k.machine.Settled) (htype : k.machine.registers R5 ∈ [0#32, 1#32, 2#32, 3#32])
    (hname : Holds (fun i => byteAt table k.machine.mainMemory
      (k.machine.registers R4 + BitVec.ofNat 32 i)) 0 name) :
    openName host env k = some (name.take 200) := by
  obtain ⟨k', hcopy, -⟩ := user2System_run host true env htab hset (k.machine.registers R4)
    MAX_FILENAME_LEN (by decide) (by decide)
  have htext := cString_copyText 200 hname (env.uninit k.world)
  obtain ⟨buffer, hbuffer, hstring⟩ := Option.map_eq_some_iff.mp htext
  rw [openName, if_pos htype, hcopy]
  change (match (orHalt (copyText _ 200 0 _), k') with
    | (.ok buffer, _) => some (cString buffer)
    | (.error _, _) => none) = _
  rw [hbuffer, ← hstring]
  rfl

/-- What `WriteRegister(2, ...)` leaves. -/
theorem setR2_run {r : Except Stop Unit}
    (h : (Sys.setR2 v : Sys host W advances Unit).run k = (r, k')) :
    k'.machine.registers R2 = BitVec.ofInt 32 v ∧ k'.fileTable = k.fileTable := by
  cases h
  exact ⟨Machine.writeRegister_self .., rfl⟩

/-- Descriptors name different slots. -/
theorem ofNat_slot_inj {j : Fin N_FILES_IN_TABLE}
    (h : BitVec.ofNat 32 i.val = BitVec.ofNat 32 j.val) : i = j := by
  have hi := slot?_eq_some.mpr h.symm
  rw [slot?_eq_some.mpr rfl] at hi
  exact (Option.some.inj hi).symm

/-- A descriptor from 2 on is not one of the console, nor -1. -/
theorem ofNat_slot_ne (hi : 2 ≤ i.val) :
    BitVec.ofNat 32 i.val ≠ 0 ∧ BitVec.ofNat 32 i.val ≠ 1 ∧ BitVec.ofNat 32 i.val ≠ -1 := by
  refine ⟨fun h => ?_, fun h => ?_, fun h => ?_⟩
  · have := congrArg Fin.val (ofNat_slot_inj (i := i) (j := 0) h)
    simp_all
  · have := congrArg Fin.val (ofNat_slot_inj (i := i) (j := 1) h)
    simp_all
  · have := congrArg BitVec.toInt h
    rw [toInt_ofNat_slot] at this
    have hneg : (-1 : BitVec 32).toInt = -1 := by decide
    omega

/-- What `CloseFile` does. -/
theorem handleCloseFile_spec
    (h : (handleCloseFile env : Sys host W advances Unit).run k = (.ok (), k')) :
    CloseSpec k.fileTable (k.machine.registers R4) (k'.machine.registers R2) k'.fileTable := by
  rw [handleCloseFile, run_reg_bind] at h
  split at h
  · rename_i h0
    obtain ⟨hr, ht⟩ := setR2_run h
    refine .inr ⟨fun i hi h2 => ?_, hr, ht⟩
    exact absurd (hi.symm.trans h0) (ofNat_slot_ne h2).1
  split at h
  · rename_i h1
    obtain ⟨hr, ht⟩ := setR2_run h
    refine .inr ⟨fun i hi h2 => ?_, hr, ht⟩
    exact absurd (hi.symm.trans h1) (ofNat_slot_ne h2).2.1
  rename_i h0 h1
  rw [run_fileTable_bind] at h
  split at h
  · rename_i hslot
    obtain ⟨hr, ht⟩ := setR2_run h
    refine .inr ⟨fun i hi _ => ?_, hr, ht⟩
    rw [slot?_eq_some.mpr hi] at hslot
    cases hslot
  · rename_i id hslot
    have hid := two_le_slot hslot h0 h1
    have hfileid := slot?_eq_some.mp hslot
    split at h
    · rename_i hnone
      obtain ⟨hr, ht⟩ := setR2_run h
      refine .inr ⟨fun i hi _ => ?_, hr, ht⟩
      rwa [← ofNat_slot_inj (hfileid.symm.trans hi)]
    · rename_i f hf
      obtain ⟨_, k₁, hclose, h⟩ := ok_of_bind h
      obtain ⟨_, k₂, hset, h⟩ := ok_of_bind h
      obtain ⟨hr, ht⟩ := setR2_run h
      refine .inl ⟨id, hfileid, hid, by simp [hf], hr, ht.trans ?_⟩
      cases hset
      exact congrArg (update · id none) (keepsFiles_call.eq hclose)

/-- A refused `OpenFile`. -/
theorem openSpec_refused (hin : ¬ (fname = some stdinName ∧ type = 2))
    (hout : ¬ (fname = some stdoutName ∧ type = 3)) :
    OpenSpec table fname type (-1) table where
  stdin := iff_of_false (by decide) hin
  stdout := iff_of_false (by decide) hout
  console := fun _ => rfl
  other := fun _ _ => .inl ⟨rfl, rfl⟩

/-- A call that ends with its result in `r2` has the specification of that result. -/
theorem OpenSpec.of_setR2 (h : (Sys.setR2 v : Sys host W advances Unit).run k = (.ok (), k'))
    (hspec : OpenSpec table fname type (BitVec.ofInt 32 v) k.fileTable) :
    OpenSpec table fname type (k'.machine.registers R2) k'.fileTable := by
  obtain ⟨hr, ht⟩ := setR2_run h
  rwa [hr, ht]

/-- For types other than 2 and 3 the slot is a free one. -/
theorem slotFor_eq_some (h2 : type ≠ 2) (h3 : type ≠ 3) (h : slotFor table type.toInt = some i) :
    getIdxFreeSlot table = some i := by
  have hne2 : type.toInt ≠ 2 := fun heq => h2 (BitVec.eq_of_toInt_eq heq)
  have hne3 : type.toInt ≠ 3 := fun heq => h3 (BitVec.eq_of_toInt_eq heq)
  rw [slotFor, if_neg hne2, if_neg hne3] at h
  split at h
  · exact h
  · cases h

/-- `FileSystem::Open` once it has a slot: the host's answer `fd` decides. -/
theorem openTyped_run {fname : List Byte} {type f : Int}
    (hslot : slotFor k.fileTable type = some i)
    (h : (openTyped env fname type : Sys host W advances _).run k = (.ok f, k')) :
    ∃ fd, k'.log = k.log ++ [(.openForReadWrite fname, fd)] ∧
      f = (if fd = -1 then -1 else (i.val : Int)) ∧
      k'.fileTable = if fd = -1 then k.fileTable
        else update k.fileTable i (some ⟨fd, 0, type⟩) := by
  rw [openTyped, run_fileTable_bind, hslot] at h
  obtain ⟨⟨fd, data⟩, k₁, hcall, h⟩ := ok_of_bind h
  have hk₁ := keepsFiles_call.eq hcall
  have hlog := call_log hcall
  refine ⟨fd, ?_⟩
  dsimp only at h
  split at h
  · rename_i hfd
    cases h
    simp only [hfd, if_true]
    exact ⟨hfd ▸ hlog, trivial, hk₁⟩
  · rename_i hfd
    cases h
    simp only [hfd, if_false]
    exact ⟨hlog, trivial, congrArg (update · i (some ⟨fd, 0, type⟩)) hk₁⟩

/-- `FileSystem::Open` with a type for files. -/
theorem openTyped_spec {fname : List Byte} {f : Int} (h2 : type ≠ 2) (h3 : type ≠ 3)
    (h : (openTyped env fname type.toInt : Sys host W advances _).run k = (.ok f, k')) :
    f = -1 ∧ k'.fileTable = k.fileTable ∨
      ∃ (i : Fin N_FILES_IN_TABLE) (file : Int), f = i.val ∧ 2 ≤ i.val ∧ k.fileTable i = none ∧
        (∀ j : Fin N_FILES_IN_TABLE, 2 ≤ j.val → j < i → k.fileTable j ≠ none) ∧
        k'.fileTable = update k.fileTable i (some ⟨file, 0, type.toInt⟩) := by
  cases hslot : slotFor k.fileTable type.toInt with
  | none =>
    rw [openTyped, run_fileTable_bind, hslot] at h
    cases h
    exact .inl ⟨rfl, rfl⟩
  | some i =>
    obtain ⟨hi, hfree, hleast⟩ := getIdxFreeSlot_eq_some.mp (slotFor_eq_some h2 h3 hslot)
    obtain ⟨fd, -, hf, ht⟩ := openTyped_run hslot h
    split at ht
    · rename_i hfd
      exact .inl ⟨by rw [hf, if_pos hfd], ht⟩
    · rename_i hfd
      exact .inr ⟨i, fd, by rw [hf, if_neg hfd], hi, hfree, hleast, ht⟩

/-- What `OpenFile` does. -/
theorem handleOpenFile_spec (h : (handleOpenFile env : Sys host W true Unit).run k = (.ok (), k')) :
    OpenSpec k.fileTable (openName host env k) (k.machine.registers R5)
      (k'.machine.registers R2) k'.fileTable := by
  generalize htypeDef : k.machine.registers R5 = type
  rw [handleOpenFile, run_reg_bind, run_reg_bind, htypeDef] at h
  split at h
  · rename_i htype
    have hname : openName host env k = none := by
      rw [openName, htypeDef, if_neg (by simp; tauto)]
    rw [hname]
    exact .of_setR2 h (openSpec_refused (by simp) (by simp))
  rename_i htype
  obtain ⟨buffer, k₁, hcopy, h⟩ := ok_of_bind h
  have hname : openName host env k = some (cString buffer) := by
    rw [openName, htypeDef, if_pos (by simp; tauto), hcopy]
  rw [hname, ← keepsFiles_user2System.eq hcopy]
  dsimp only at h
  generalize cString buffer = fname at h ⊢
  split at h
  · split at h
    · rename_i hboth
      rw [hboth.1, hboth.2]
      exact .of_setR2 h ⟨by simp, by decide, fun _ => rfl, fun h0 => absurd rfl h0⟩
    · rename_i hone hboth
      refine .of_setR2 h (openSpec_refused (by simpa using hboth) ?_)
      rintro ⟨hfname, rfl⟩
      cases hfname
      exact absurd hone (by decide)
  rename_i hstdin
  split at h
  · split at h
    · rename_i hboth
      rw [hboth.1, hboth.2]
      exact .of_setR2 h ⟨by decide, by simp, fun _ => rfl, fun _ h1 => absurd rfl h1⟩
    · rename_i hboth
      exact .of_setR2 h (openSpec_refused (by simpa using fun h _ => hstdin (.inl h))
        (by simpa using hboth))
  rename_i hstdout
  have h2 : type ≠ 2 := fun h => hstdin (.inr h)
  have h3 : type ≠ 3 := fun h => hstdout (.inr h)
  obtain ⟨f, k₂, hopen, h⟩ := ok_of_bind h
  rcases openTyped_spec h2 h3 hopen with ⟨rfl, ht⟩ | ⟨i, file, rfl, hi, hfree, hleast, ht⟩
  · rw [if_pos rfl] at h
    rw [← ht]
    exact .of_setR2 h (openSpec_refused (fun h => h2 h.2) (fun h => h3 h.2))
  · rw [if_neg (by omega)] at h
    have hne := ofNat_slot_ne hi
    refine .of_setR2 h ?_
    rw [ht]
    exact ⟨iff_of_false hne.1 fun h => h2 h.2, iff_of_false hne.2.1 fun h => h3 h.2,
      fun h => (h.elim hne.1 hne.2.1).elim,
      fun _ _ => .inr ⟨i, file, rfl, hi, hfree, hleast, rfl⟩⟩

/-! ## Calls that come back -/

/-- The host answers the call `c` of a program with machine `m`. -/
def Answers (env : Env W) (k : Kernel W) (m : Machine) (c : Call) : Prop :=
  ∃ reply, env.serve c k.world m.mainMemory = .ok reply

/-- The call then returns. -/
theorem Answers.run (h : Answers env k k.machine c) :
    ∃ r k', (Sys.call env c : Sys host W advances _).run k = (.ok r, k') := by
  obtain ⟨reply, hreply⟩ := h
  exact ⟨_, _, call_run hreply⟩

/-- `OpenFile::Read` then returns what the host has given. -/
theorem read_answered {i : Fin N_FILES_IN_TABLE} {f : OpenFile} {n : Int} {reply : Reply W}
    (h : env.serve (.readAt f.file n f.currentOffset) k.world k.machine.mainMemory = .ok reply) :
    ∃ k', (read env i f n : Sys host W advances _).run k =
        (.ok (reply.result, reply.data.take reply.result.toNat), k') ∧
      k'.machine.tables = k.machine.tables := by
  have htables := k.answered_tables (.readAt f.file n f.currentOffset) reply
  rw [read, run_bind_ok (call_run h)]
  exact ⟨_, rfl, htables⟩

/-- `CloseFile` comes back when the host answers the `close` of an open file. -/
theorem handleCloseFile_returns
    (h : ∀ (i : Fin N_FILES_IN_TABLE) f, k.machine.registers R4 = BitVec.ofNat 32 i.val →
      2 ≤ i.val → k.fileTable i = some f → Answers env k k.machine (.close f.file)) :
    ∃ k', (handleCloseFile env : Sys host W advances Unit).run k = (.ok (), k') := by
  rw [handleCloseFile, run_reg_bind]
  split
  · exact ⟨_, rfl⟩
  split
  · exact ⟨_, rfl⟩
  rename_i h0 h1
  rw [run_fileTable_bind]
  split
  · exact ⟨_, rfl⟩
  · rename_i id hslot
    split
    · exact ⟨_, rfl⟩
    · rename_i f hf
      obtain ⟨r, k₁, hcall⟩ := (h id f (slot?_eq_some.mp hslot) (two_le_slot hslot h0 h1) hf).run
      rw [run_bind_ok hcall]
      exact ⟨_, rfl⟩

/-- `OpenFile` comes back with a wrong type, and for a name in mapped memory when the host answers
the `open`. -/
theorem handleOpenFile_returns (table : List TranslationEntry) (name : List Byte)
    (h : k.machine.registers R5 ∉ [0#32, 1#32, 2#32, 3#32] ∨
      k.machine.tables = linear table ∧ k.machine.Settled ∧
      Holds (fun i => byteAt table k.machine.mainMemory
        (k.machine.registers R4 + BitVec.ofNat 32 i)) 0 name ∧
      (k.machine.registers R5 ∈ [0#32, 1#32] →
        Answers env k k.machine (.openForReadWrite (name.take 200)))) :
    ∃ k', (handleOpenFile env : Sys host W advances Unit).run k = (.ok (), k') := by
  rw [handleOpenFile, run_reg_bind, run_reg_bind]
  split
  · exact ⟨_, rfl⟩
  rename_i htype
  rcases h with h | ⟨htab, hset, hname, hanswers⟩
  · exact absurd (by simpa using h) htype
  obtain ⟨k₁, hcopy, hsame⟩ := user2System_run host advances env htab hset
    (k.machine.registers R4) MAX_FILENAME_LEN (by decide) (by decide)
  obtain ⟨buffer, hbuffer, hstring⟩ := Option.map_eq_some_iff.mp
    (cString_copyText 200 hname (env.uninit k.world))
  change _ = (orHalt (copyText _ 200 0 _), _) at hcopy
  rw [hbuffer] at hcopy
  rw [run_bind_ok hcopy]
  dsimp only
  rw [hstring]
  split
  · split <;> exact ⟨_, rfl⟩
  rename_i hstdin
  split
  · split <;> exact ⟨_, rfl⟩
  rename_i hstdout
  have hanswers := hanswers (by simp at htype ⊢; tauto)
  rw [openTyped, bind_assoc, run_fileTable_bind]
  split
  · exact ⟨_, rfl⟩
  · obtain ⟨reply, hreply⟩ := hanswers
    rw [← hsame.world, ← hsame.mainMemory] at hreply
    obtain ⟨r, k₂, hcall⟩ := Answers.run ⟨reply, hreply⟩
    rw [bind_assoc, run_bind_ok hcall]
    dsimp only
    split
    · exact ⟨_, rfl⟩
    · rw [bind_assoc]
      exact ⟨_, rfl⟩

/-- A `ReadFile` that delivers more than the buffer of the handler holds does not come back: from
the console a count above its size is enough, and a file has to have as many bytes. -/
theorem handleReadFile_overruns
    (h : k.machine.registers R6 = 0 ∧ MAX_FILECONTENT_LEN < (k.machine.registers R5).toInt ∨
      ∃ (i : Fin N_FILES_IN_TABLE) (f : OpenFile) (reply : Reply W), 2 ≤ i.val ∧
        k.machine.registers R6 = BitVec.ofNat 32 i.val ∧ k.fileTable i = some f ∧ f.type = 0 ∧
        env.serve (.readAt f.file (k.machine.registers R5).toInt f.currentOffset) k.world
          k.machine.mainMemory = .ok reply ∧
        MAX_FILECONTENT_LEN < (reply.data.take reply.result.toNat).length) :
    ∃ k', (handleReadFile env : Sys host W advances Unit).run k = (.error .undefined, k') := by
  rw [handleReadFile, run_reg_bind, run_reg_bind, run_reg_bind]
  rcases h with ⟨hid, hlong⟩ | ⟨i, f, reply, hi, hid, hf, htype, hreply, hlong⟩
  · rw [if_pos hid, if_pos hlong]
    exact ⟨_, rfl⟩
  · obtain ⟨h0, h1, -⟩ := ofNat_slot_ne hi
    rw [if_neg (hid ▸ h0), if_neg (hid ▸ h1), run_fileTable_bind, slot?_eq_some.mpr hid]
    dsimp only
    rw [hf]
    dsimp only
    obtain ⟨k₁, hread, -⟩ := read_answered hreply
    rw [if_neg (by simp [htype]), run_bind_ok hread]
    dsimp only
    rw [if_pos hlong]
    exact ⟨_, rfl⟩

/-! ## The constructor -/

/-- `Create` of the stub leaves the table alone. -/
theorem keepsFiles_create : KeepsFiles (create env name : Sys host W advances _) := by
  refine keepsFiles_call.bind fun reply => ?_
  dsimp only
  split
  · exact keepsFiles_stop
  · split
    · exact keepsFiles_pure
    · exact keepsFiles_call.bind fun _ => keepsFiles_pure

/-- The entry that the constructor makes when the host answers `fd`. -/
def entry (fd type : Int) : Option OpenFile := if fd = -1 then none else some ⟨fd, 0, type⟩

/-- The table after the constructor. -/
def constructed (fd₀ fd₁ : Int) : FileTable :=
  update (update (fun _ => none) stdinSlot (entry fd₀ 2)) stdoutSlot
    (entry fd₁ 3)

/-- What the constructor leaves. -/
theorem construct_spec {k₀ : Kernel W}
    (h : (construct env : Sys host W advances Unit).run k₀ = (.ok (), k)) :
    ∃ fd₀ fd₁, k.fileTable = constructed fd₀ fd₁ ∧
      [(.openForReadWrite stdinName, fd₀), (.openForReadWrite stdoutName, fd₁)] <:+ k.log := by
  obtain ⟨_, k₁, hclear, h⟩ := ok_of_bind h
  obtain ⟨_, k₂, hin, h⟩ := ok_of_bind h
  obtain ⟨_, k₃, hout, h⟩ := ok_of_bind h
  obtain ⟨_, k₄, hopenIn, h⟩ := ok_of_bind h
  obtain ⟨_, k₅, hopenOut, h⟩ := ok_of_bind h
  cases h
  have hk₃ : k₃.fileTable = fun _ => none := by
    rw [keepsFiles_create.eq hout, keepsFiles_create.eq hin]
    cases hclear
    rfl
  obtain ⟨fd₀, hlog₀, -, ht₀⟩ := openTyped_run (i := 0) rfl hopenIn
  obtain ⟨fd₁, hlog₁, -, ht₁⟩ := openTyped_run (i := 1) rfl hopenOut
  refine ⟨fd₀, fd₁, ?_, k₃.log, by rw [hlog₁, hlog₀]; simp⟩
  have hin : k₄.fileTable = update (fun _ => none) 0 (entry fd₀ 2) := by
    rw [ht₀, hk₃, entry]
    split
    · exact (update_eq_self (f := fun _ => none) 0).symm
    · rfl
  rw [ht₁, hin, constructed, show entry fd₁ 3 = if fd₁ = -1 then none else _ from rfl]
  split
  · funext i
    by_cases hi : i = 1
    · subst hi
      rfl
    · rw [update_of_ne hi]
  · rfl

/-! ## Sequences of calls -/

/-- The four calls on the table. -/
inductive FileCall where
  | OpenFile
  | CloseFile
  | ReadFile
  | WriteFile
  deriving DecidableEq, Repr

/-- The handler of a call. -/
def FileCall.handle (env : Env W) : FileCall → Sys host W true Unit
  | .OpenFile => handleOpenFile env
  | .CloseFile => handleCloseFile env
  | .ReadFile => handleReadFile env
  | .WriteFile => handleWriteFile env

/-- A call that has returned, with its first argument and its result. -/
structure FileEvent where
  call : FileCall
  fileid : BitVec 32
  result : BitVec 32
  deriving DecidableEq, Repr

/-- One call by a program whose machine is given. A call that does not return ends the sequence. -/
def step (host : Host) (env : Env W) : Step (Kernel W) (FileCall × Machine) FileEvent
  | k, (call, m) =>
    match (call.handle env : Sys host W true Unit).run { k with machine := m } with
    | (.ok (), k') => some ([⟨call, m.registers R4, k'.machine.registers R2⟩], k')
    | (.error _, _) => none

/-- What the call does to the table, as a whole. -/
def StepSpec (host : Host) (env : Env W) (k : Kernel W) (m : Machine) (k' : Kernel W) :
    FileCall → Prop
  | .OpenFile => OpenSpec k.fileTable (openName host env { k with machine := m })
      (m.registers R5) (k'.machine.registers R2) k'.fileTable
  | .CloseFile => CloseSpec k.fileTable (m.registers R4) (k'.machine.registers R2) k'.fileTable
  | .ReadFile | .WriteFile => CursorsMoved k.fileTable k'.fileTable

variable {call : FileCall} {events : List FileEvent}

/-- What one call does. -/
theorem step_spec (h : step host env k (call, m) = some (events, k')) :
    events = [⟨call, m.registers R4, k'.machine.registers R2⟩] ∧ StepSpec host env k m k' call := by
  simp only [step] at h
  split at h
  · rename_i k₁ hrun
    cases h
    refine ⟨rfl, ?_⟩
    cases call with
    | OpenFile =>
      have hspec := handleOpenFile_spec hrun
      exact hspec
    | CloseFile =>
      have hspec := handleCloseFile_spec hrun
      exact hspec
    | ReadFile =>
      have hspec := handleReadFile_cursors hrun
      exact hspec
    | WriteFile =>
      have hspec := handleWriteFile_cursors hrun
      exact hspec
  · cases h

/-- Which calls return. `CloseFile` does when the host answers the `close` of an open file, so for
every other descriptor in any case; `OpenFile` does with a wrong type, and for a name in mapped
memory when the host answers the `open`. A `ReadFile` that overruns its buffer ends the sequence. -/
structure Returns (host : Host) (env : Env W) (k : Kernel W) (m : Machine) : Prop where
  close : (∀ (i : Fin N_FILES_IN_TABLE) f, m.registers R4 = BitVec.ofNat 32 i.val → 2 ≤ i.val →
      k.fileTable i = some f → Answers env k m (.close f.file)) →
    ∃ events k', step host env k (.CloseFile, m) = some (events, k')
  wrongType : m.registers R5 ∉ [0#32, 1#32, 2#32, 3#32] →
    ∃ events k', step host env k (.OpenFile, m) = some (events, k')
  opens : ∀ (table : List TranslationEntry) (name : List Byte), m.tables = linear table →
    m.Settled → Holds (fun i => byteAt table m.mainMemory
      (m.registers R4 + BitVec.ofNat 32 i)) 0 name →
    (m.registers R5 ∈ [0#32, 1#32] → Answers env k m (.openForReadWrite (name.take 200))) →
    ∃ events k', step host env k (.OpenFile, m) = some (events, k')
  console : m.registers R6 = 0 → MAX_FILECONTENT_LEN < (m.registers R5).toInt →
    step host env k (.ReadFile, m) = none
  overrun : ∀ (i : Fin N_FILES_IN_TABLE) (f : OpenFile) (reply : Reply W), 2 ≤ i.val →
    m.registers R6 = BitVec.ofNat 32 i.val → k.fileTable i = some f → f.type = 0 →
    env.serve (.readAt f.file (m.registers R5).toInt f.currentOffset) k.world m.mainMemory =
      .ok reply →
    MAX_FILECONTENT_LEN < (reply.data.take reply.result.toNat).length →
    step host env k (.ReadFile, m) = none

/-- A call whose handler comes back is a step. -/
theorem step_of_run
    (h : ∃ k', (call.handle env : Sys host W true Unit).run { k with machine := m } =
      (.ok (), k')) : ∃ events k', step host env k (call, m) = some (events, k') := by
  obtain ⟨k', hrun⟩ := h
  exact ⟨[⟨call, m.registers R4, k'.machine.registers R2⟩], k', by simp only [step, hrun]⟩

/-- A call whose handler does not come back is no step. -/
theorem step_eq_none
    (h : ∃ k', (call.handle env : Sys host W true Unit).run { k with machine := m } =
      (.error e, k')) : step host env k (call, m) = none := by
  obtain ⟨k', hrun⟩ := h
  simp only [step, hrun]

/-- The conditions under which calls return are enough. -/
theorem returns (host : Host) (env : Env W) (k : Kernel W) (m : Machine) :
    Returns host env k m where
  close h := step_of_run (handleCloseFile_returns h)
  wrongType h := step_of_run (handleOpenFile_returns [] [] (.inl h))
  opens table name htab hset hname h :=
    step_of_run (handleOpenFile_returns table name (.inr ⟨htab, hset, hname, h⟩))
  console hid hlong := step_eq_none (handleReadFile_overruns (.inl ⟨hid, hlong⟩))
  overrun i f reply hi hid hf htype hreply hlong := step_eq_none
    (handleReadFile_overruns (.inr ⟨i, f, reply, hi, hid, hf, htype, hreply, hlong⟩))

/-- The descriptors held after one more call: an `OpenFile` of a file hands one out, a successful
`CloseFile` takes one back. -/
def hold (held : List (BitVec 32)) (event : FileEvent) : List (BitVec 32) :=
  match event.call with
  | .OpenFile =>
    if event.result ∈ [-1#32, 0#32, 1#32] then held else event.result :: held
  | .CloseFile => if event.result = 0 then held.erase event.fileid else held
  | .ReadFile | .WriteFile => held

/-- The descriptors handed out and not yet closed. -/
def held (trace : List FileEvent) : List (BitVec 32) := trace.foldl hold []

/-- The table along a run that began with `start`. -/
structure TableInv (start : FileTable) (trace : List FileEvent) (k : Kernel W) : Prop where
  reserved : ∀ i : Fin N_FILES_IN_TABLE, i.val < 2 → k.fileTable i = start i
  distinct : (held trace).Nodup
  occupied : ∀ w, w ∈ held trace ↔ ∃ i : Fin N_FILES_IN_TABLE, 2 ≤ i.val ∧
    w = BitVec.ofNat 32 i.val ∧ k.fileTable i ≠ none

variable {trace : List FileEvent}

/-- `OpenFile` keeps the invariant: what it hands out was free. -/
theorem tableInv_open (h : TableInv start trace k)
    (hspec : OpenSpec k.fileTable fname type result table') (hk' : k'.fileTable = table') :
    TableInv start (trace ++ [⟨.OpenFile, fileid, result⟩]) k' := by
  have hheld : held (trace ++ [⟨.OpenFile, fileid, result⟩]) =
      if result ∈ [-1#32, 0#32, 1#32] then held trace else result :: held trace := by
    simp [held, hold]
  subst hk'
  by_cases hconsole : result = 0 ∨ result = 1
  · have hin : result ∈ [-1#32, 0#32, 1#32] := by
      rcases hconsole with rfl | rfl <;> decide
    have ht := hspec.console hconsole
    exact ⟨ht ▸ h.reserved, by rw [hheld, if_pos hin]; exact h.distinct,
      by rw [hheld, if_pos hin, ht]; exact h.occupied⟩
  · rcases hspec.other (fun h0 => hconsole (.inl h0)) (fun h1 => hconsole (.inr h1)) with
      ⟨rfl, ht⟩ | ⟨i, file, rfl, hi, hfree, -, ht⟩
    · exact ⟨ht ▸ h.reserved, by rw [hheld, if_pos (by decide)]; exact h.distinct,
        by rw [hheld, if_pos (by decide), ht]; exact h.occupied⟩
    · have hne := ofNat_slot_ne hi
      have hin : BitVec.ofNat 32 i.val ∉ [-1#32, 0#32, 1#32] := by
        simpa using ⟨hne.2.2, hne.1, hne.2.1⟩
      rw [if_neg hin] at hheld
      refine ⟨fun j hj => ?_, ?_, fun w => ?_⟩
      · rw [ht, update_of_ne (by rintro rfl; omega)]
        exact h.reserved j hj
      · -- the slot was free, so its number was not held
        rw [hheld, List.nodup_cons]
        refine ⟨fun hmem => ?_, h.distinct⟩
        obtain ⟨j, -, hj, hopen⟩ := (h.occupied _).mp hmem
        exact hopen (ofNat_slot_inj hj ▸ hfree)
      · rw [hheld, List.mem_cons, h.occupied, ht]
        constructor
        · rintro (rfl | ⟨j, hj, rfl, hopen⟩)
          · exact ⟨i, hi, rfl, by simp⟩
          · refine ⟨j, hj, rfl, ?_⟩
            rwa [update_of_ne (by rintro rfl; exact hopen hfree)]
        · rintro ⟨j, hj, rfl, hopen⟩
          by_cases hji : j = i
          · exact .inl (by rw [hji])
          · rw [update_of_ne hji] at hopen
            exact .inr ⟨j, hj, rfl, hopen⟩

/-- `CloseFile` keeps the invariant: what it takes back is free. -/
theorem tableInv_close (h : TableInv start trace k)
    (hspec : CloseSpec k.fileTable fileid result table') (hk' : k'.fileTable = table') :
    TableInv start (trace ++ [⟨.CloseFile, fileid, result⟩]) k' := by
  have hheld : held (trace ++ [⟨.CloseFile, fileid, result⟩]) =
      if result = 0 then (held trace).erase fileid else held trace := by
    simp [held, hold]
  subst hk'
  rcases hspec with ⟨i, rfl, hi, hopen, rfl, ht⟩ | ⟨-, rfl, ht⟩
  · rw [if_pos rfl] at hheld
    refine ⟨fun j hj => ?_, ?_, fun w => ?_⟩
    · rw [ht, update_of_ne (by rintro rfl; omega)]
      exact h.reserved j hj
    · rw [hheld]
      exact h.distinct.erase _
    · rw [hheld, h.distinct.mem_erase_iff, h.occupied, ht]
      constructor
      · rintro ⟨hne, j, hj, rfl, hjopen⟩
        refine ⟨j, hj, rfl, ?_⟩
        rwa [update_of_ne (by rintro rfl; exact hne rfl)]
      · rintro ⟨j, hj, rfl, hjopen⟩
        have hji : j ≠ i := by
          rintro rfl
          simp at hjopen
        rw [update_of_ne hji] at hjopen
        exact ⟨fun heq => hji (ofNat_slot_inj heq), j, hj, rfl, hjopen⟩
  · rw [if_neg (by decide)] at hheld
    exact ⟨ht ▸ h.reserved, by rw [hheld]; exact h.distinct,
      by rw [hheld, ht]; exact h.occupied⟩

/-- Moving cursors keeps the invariant. -/
theorem tableInv_cursors {event : FileEvent} (h : TableInv start trace k)
    (hevent : event.call = .ReadFile ∨ event.call = .WriteFile)
    (hspec : CursorsMoved k.fileTable k'.fileTable) : TableInv start (trace ++ [event]) k' := by
  have hheld : held (trace ++ [event]) = held trace := by
    rcases hevent with hcall | hcall <;> simp [held, hold, hcall]
  have hsame : ∀ i, k'.fileTable i = none ↔ k.fileTable i = none := by
    intro i
    have hi := congrArg Option.isNone (hspec i).2
    simp only [Option.isNone_map] at hi
    rw [← Option.isNone_iff_eq_none, ← Option.isNone_iff_eq_none, hi]
  refine ⟨fun i hi => ((hspec i).1 hi).trans (h.reserved i hi), hheld ▸ h.distinct, fun w => ?_⟩
  simp only [hheld, h.occupied, ne_eq, hsame]

/-- What one call keeps. -/
theorem tableInv_step {act : FileCall × Machine} (h : TableInv start trace k)
    (hstep : step host env k act = some (events, k')) : TableInv start (trace ++ events) k' := by
  obtain ⟨call, m⟩ := act
  obtain ⟨rfl, hspec⟩ := step_spec hstep
  cases call with
  | OpenFile => exact tableInv_open h hspec rfl
  | CloseFile => exact tableInv_close h hspec rfl
  | ReadFile => exact tableInv_cursors h (.inl rfl) hspec
  | WriteFile => exact tableInv_cursors h (.inr rfl) hspec

/-- After the constructor and any sequence of calls slots 0 and 1 hold what the constructor put
there, the descriptors handed out and not closed are different and are the occupied slots from 2
on. The next call acts on the table as specified if it returns, as `CloseFile` and `OpenFile` do
unless the host fails them or the name is not mapped. -/
theorem file_table (host : Host) (env : Env W) (k₀ k k' : Kernel W) (trace : List FileEvent)
    (hstart : (construct env : Sys host W true Unit).run k₀ = (.ok (), k))
    (hrun : Run (step host env) anyAct k trace k') :
    (∃ fd₀ fd₁,
      [(.openForReadWrite stdinName, fd₀), (.openForReadWrite stdoutName, fd₁)] <:+ k.log ∧
      k'.fileTable 0 = entry fd₀ 2 ∧ k'.fileTable 1 = entry fd₁ 3) ∧
    (held trace).Nodup ∧
    (∀ w, w ∈ held trace ↔ ∃ i : Fin N_FILES_IN_TABLE, 2 ≤ i.val ∧
      w = BitVec.ofNat 32 i.val ∧ k'.fileTable i ≠ none) ∧
    (∀ call m events k'', step host env k' (call, m) = some (events, k'') →
      StepSpec host env k' m k'' call) ∧
    ∀ m, Returns host env k' m := by
  obtain ⟨fd₀, fd₁, hconstructed, hlog⟩ := construct_spec hstart
  have hinit : TableInv k.fileTable [] k := by
    refine ⟨fun _ _ => rfl, List.nodup_nil, fun w => ?_⟩
    refine iff_of_false (by simp [held]) ?_
    rintro ⟨i, hi, -, hopen⟩
    apply hopen
    rw [hconstructed, constructed, update_of_ne (by rintro rfl; simp at hi),
      update_of_ne (by rintro rfl; simp at hi)]
  have hinv : TableInv k.fileTable trace k' := by
    apply hrun.traceInvariant hinit
    intro tr s act events t hs _ hstep
    exact tableInv_step hs hstep
  refine ⟨⟨fd₀, fd₁, hlog, ?_, ?_⟩, hinv.distinct, hinv.occupied,
    fun call m events k'' hstep => (step_spec hstep).2, returns host env k'⟩
  · rw [hinv.reserved 0 (by decide), hconstructed]
    rfl
  · rw [hinv.reserved 1 (by decide), hconstructed]
    rfl

/-- A kernel before the constructor. -/
def blank : Kernel Unit where
  machine :=
    { registers := fun _ => 0
      mainMemory := fun _ => 0
      tables := linear onePage }
  fileTable := fun _ => none
  world := ()
  log := []

/-- Opening a file hands out descriptor 2, whose slot is then the one occupied. -/
theorem file_table_opened : ∃ k k',
    (construct (answering 5) : Sys .littleEndian Unit true Unit).run blank = (.ok (), k) ∧
    Run (step .littleEndian (answering 5)) anyAct k [⟨.OpenFile, 0, 2⟩] k' ∧
    ∃ i : Fin N_FILES_IN_TABLE, 2 ≤ i.val ∧ 2#32 = BitVec.ofNat 32 i.val ∧
      k'.fileTable i ≠ none := by
  have hact : ∀ k : Kernel Unit, anyAct k (FileCall.OpenFile, blank.machine) := fun _ => trivial
  refine ⟨_, _, rfl, .snoc .refl (hact _) rfl, ?_⟩
  exact ((file_table .littleEndian (answering 5) blank _ _ _ rfl
    (.snoc .refl (hact _) rfl)).2.2.1 2).mp (by decide)

end Nachos.FileSystem
