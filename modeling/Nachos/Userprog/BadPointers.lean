import Nachos.Userprog.UserCopy

/-!
# Bad user pointers

The eight system calls that read user memory through `User2System` ignore whether `ReadMem` has
failed. What a call with a bad pointer does is decided by the text that the copy leaves in the
buffer: `UserCall.decision` says, for each call, whether it refuses that text by itself, grants
it, or leaves the decision to the rest of the system. `bad_pointer_rejected_iff` states when such
a call is rejected without effect.
-/

namespace Nachos.Syscall

open FileSystem Sys

variable {host : Host} {W : Type} {advances : Bool} {k k' : Kernel W} {c : Call}
  {table : List TranslationEntry}

/-- The system calls that read a string or a buffer through `User2System`. -/
inductive UserCall where
  | CreateFile
  | OpenFile
  | WriteFile
  | Exec
  | CreateSemaphore
  | Up
  | Down
  | PrintString
  deriving DecidableEq, Repr

namespace UserCall

/-- The code of the call. -/
def sc : UserCall → SC
  | CreateFile => .CreateFile
  | OpenFile => .OpenFile
  | WriteFile => .WriteFile
  | Exec => .Exec
  | CreateSemaphore => .CreateSemaphore
  | Up => .Up
  | Down => .Down
  | PrintString => .PrintString

/-- The limit the call passes to `User2System`. -/
def limit (m : Machine) : UserCall → Int
  | CreateFile | OpenFile | Exec => MAX_FILENAME_LEN
  | WriteFile => (m.registers R5).toInt
  | CreateSemaphore => MAX_FILENAME_LEN + 1
  | Up | Down => MaxFileLength + 1
  | PrintString => 255

/-- The call gets as far as the loop of `User2System`. -/
def Copies (m : Machine) (c : UserCall) : Prop :=
  (c = OpenFile → m.registers R5 ∈ [0#32, 1#32, 2#32, 3#32]) ∧
    -1 ≤ c.limit m ∧ c.limit m ≠ 2 ^ 31 - 1

/-- What the loop finds at each index. -/
def read (table : List TranslationEntry) (m : Machine) (i : Nat) : Except ExceptionType Byte :=
  byteAt table m.mainMemory (m.registers R4 + BitVec.ofNat 32 i)

/-- The copy reads the byte at index `j`, and it is the first one that is not mapped. -/
def BadAt (table : List TranslationEntry) (m : Machine) (j : Nat) (c : UserCall) : Prop :=
  c.Copies m ∧ (j : Int) < c.limit m ∧ (∀ i < j, ∃ b, read table m i = .ok b ∧ b ≠ 0) ∧
    ∃ e, read table m j = .error e

/-- The buffer, unless a page fault halts the machine. -/
def buffer (env : Env W) (table : List TranslationEntry) (k : Kernel W) (c : UserCall) :
    Option (List Byte) :=
  copyText (read table k.machine) (c.limit k.machine).toNat 0 (env.uninit k.world)

end UserCall

/-! ## Effects -/

/-- The answer means that something was created, opened, written, signalled or executed. -/
def effective : Call → Int → Bool
  | .openForWrite _, result => 0 ≤ result
  | .openForReadWrite _, result => result ≠ -1
  | .consoleWrite _, _ => true
  | .writeAt _ _ _, _ => true
  | .semCreate _ _, result => result ≠ -1
  | .semWait _, result => result ≠ -1
  | .semSignal _, result => result ≠ -1
  | .execUpdate _, result => result ≠ -1
  | _, _ => false

/-- No call since `k` has had an effect. -/
def Clean (k k' : Kernel W) : Prop :=
  ∀ entry ∈ k'.log.drop k.log.length, effective entry.1 entry.2 = false

/-- The call has stopped the machine or returned `-1`, and has had no effect. -/
def Rejected (k : Kernel W) (after : Except Stop Unit × Kernel W) : Prop :=
  ((after.1 = .error .halt ∨ after.1 = .error .abort) ∨
    after.1 = .ok () ∧ after.2.machine.registers R2 = -1) ∧ Clean k after.2

/-- What becomes of a call once its text is copied. -/
inductive Decision where
  | refuse
  | grant
  | ask (c : Call)

/-- The decision on the text in the buffer. -/
def UserCall.decision (k : Kernel W) (buffer : List Byte) : UserCall → Decision
  | .CreateFile =>
    if cString buffer = [] then .refuse else .ask (.openForWrite (cString buffer))
  | .OpenFile =>
    let fname := cString buffer
    let type := k.machine.registers R5
    if fname = stdinName ∨ type = 2 then
      if fname = stdinName ∧ type = 2 then .grant else .refuse
    else if fname = stdoutName ∨ type = 3 then
      if fname = stdoutName ∧ type = 3 then .grant else .refuse
    else if slotFor k.fileTable type.toInt = none then .refuse
    else .ask (.openForReadWrite fname)
  | .WriteFile =>
    let fileid := k.machine.registers R6
    let count := (k.machine.registers R5).toInt + 1
    if fileid = 0 then .refuse
    else if fileid = 1 then
      .ask (.consoleWrite ((List.range count.toNat).map (buffer.getD · 0)))
    else match (slot? fileid.toInt).bind k.fileTable with
      | none => .refuse
      | some f =>
        let text := cString buffer
        .ask (.writeAt f.file (text.take (min count.toNat text.length)) f.currentOffset)
  | .Exec => .ask (.openForReadWrite (cString buffer))
  | .CreateSemaphore =>
    .ask (.semCreate (cString buffer) (k.machine.registers R5).toInt)
  | .Up => .ask (.semSignal (cString buffer))
  | .Down => .ask (.semWait (cString buffer))
  | .PrintString =>
    .ask (.consoleWrite
      ((List.range ((cString buffer).length + 1)).map (buffer.getD · 0)))

/-- The decision is against the call: a call to the rest of the system stops the machine or is
answered without effect. -/
def Refused (env : Env W) (k : Kernel W) : Decision → Prop
  | .refuse => True
  | .grant => False
  | .ask c => match env.serve c k.world k.machine.mainMemory with
      | .error stop => stop = .halt ∨ stop = .abort
      | .ok r => effective c r.result = false

/-! ## Rejection, step by step -/

/-- The log only grows. -/
theorem log_grows {α : Type} (x : Sys host W advances α) (k : Kernel W) :
    k.log <+: (x.run k).2.log := by
  refine Confined.invariant (P := fun s => k.log <+: s.log) ?_ x (List.prefix_refl _)
  intro s t hstep hs
  cases hstep with
  | call c r => exact hs.trans (List.prefix_append _ _)
  | _ => exact hs

/-- A program whose state shows an effect is not rejected, however it goes on. -/
theorem not_rejected_of_effective {k₁ : Kernel W} {result : Int}
    (hlog : k₁.log = k.log ++ [(c, result)]) (heff : effective c result = true)
    (x : Sys host W advances Unit) : ¬ Rejected k (x.run k₁) := by
  rintro ⟨-, hnone⟩
  obtain ⟨rest, hrest⟩ := log_grows x k₁
  have hmem : (c, result) ∈ (x.run k₁).2.log.drop k.log.length := by
    rw [← hrest, hlog]
    simp
  rw [hnone _ hmem] at heff
  cases heff

/-- Nothing has been asked for. -/
theorem clean_of_log_eq (h : k'.log = k.log) : Clean k k' := by
  simp [Clean, h]

/-- One call has been answered, without effect. -/
theorem clean_answered {r : Reply W} (h : k'.log = k.log) (heff : effective c r.result = false) :
    Clean k (k'.answered c r) := by
  simp [Clean, Kernel.answered, h, heff]

/-- A call that had no effect is rejected exactly if it returns `-1`. -/
theorem rejected_setR2 (h : Clean k k') (v : Int) :
    Rejected k ((Sys.setR2 v : Sys host W advances Unit).run k') ↔ BitVec.ofInt 32 v = -1 := by
  have hr : (k'.machine.writeRegister R2 (BitVec.ofInt 32 v)).registers R2 = BitVec.ofInt 32 v :=
    Machine.writeRegister_self ..
  constructor
  · rintro ⟨(h | h) | ⟨-, h⟩, -⟩
    · cases h
    · cases h
    · exact hr.symm.trans h
  · exact fun hv => ⟨.inr ⟨rfl, hr.trans hv⟩, h⟩

/-- A call that fails early. -/
theorem rejected_failed (h : Clean k k') :
    Rejected k ((Sys.setR2 (-1) : Sys host W advances Unit).run k') :=
  (rejected_setR2 h _).mpr rfl

/-- A call to the rest of the system after the copy decides, provided that an answer without
effect leads to a rejection. -/
theorem rejected_ask (hk' : Untouched table k k') (env : Env W) (c : Call)
    (f : Int × List Byte → Sys host W advances Unit)
    (hf : ∀ r : Reply W, effective c r.result = false →
      Rejected k ((f (r.result, r.data)).run (k'.answered c r))) :
    Rejected k ((Sys.call env c >>= f).run k') ↔ Refused env k (.ask c) := by
  rw [Refused, ← hk'.world, ← hk'.mainMemory]
  cases hserve : env.serve c k'.world k'.machine.mainMemory with
  | error stop =>
    have hcall : (Sys.call env c : Sys host W advances _).run k' = (.error stop, k') := by
      simp only [Sys.call, hserve]
    rw [Confined.run_bind_error hcall]
    simp [Rejected, clean_of_log_eq hk'.log]
  | ok r =>
    rw [Confined.run_bind_ok (call_run hserve)]
    dsimp only
    cases heff : effective c r.result with
    | false => exact iff_of_true (hf r heff) rfl
    | true =>
      refine iff_of_false (not_rejected_of_effective ?_ heff _) (by simp)
      rw [Kernel.answered, hk'.log]

/-- A call that begins with the copy. -/
theorem rejected_copy (htab : k.machine.tables = linear table) (hset : k.machine.Settled)
    (env : Env W) {c : UserCall}
    (hlimit : -1 ≤ c.limit k.machine ∧ c.limit k.machine ≠ 2 ^ 31 - 1)
    (f : List Byte → Sys host W advances Unit) {Q : List Byte → Prop}
    (hf : ∀ buffer k', Untouched table k k' → (Rejected k ((f buffer).run k') ↔ Q buffer)) :
    Rejected k ((Sys.user2System env (k.machine.registers R4) (c.limit k.machine) >>= f).run k) ↔
      ∀ buffer, c.buffer env table k = some buffer → Q buffer := by
  obtain ⟨k', hcopy, hk'⟩ := user2System_run host advances env htab hset (k.machine.registers R4)
    _ hlimit.1 hlimit.2
  change _ = (orHalt (c.buffer env table k), k') at hcopy
  cases hbuffer : c.buffer env table k with
  | none =>
    rw [hbuffer] at hcopy
    rw [Confined.run_bind_error hcopy]
    simp [Rejected, clean_of_log_eq hk'.log]
  | some buffer =>
    rw [hbuffer] at hcopy
    rw [Confined.run_bind_ok hcopy, hf buffer k' hk']
    simp

/-! ## The eight calls -/

/-- The call is rejected exactly if its decision on the copied text is against it. -/
def Decides (env : Env W) (table : List TranslationEntry) (k : Kernel W) (c : UserCall)
    (after : Except Stop Unit × Kernel W) : Prop :=
  Rejected k after ↔
    ∀ buffer, c.buffer env table k = some buffer → Refused env k (c.decision k buffer)

section Calls

variable {table : List TranslationEntry} {k k' : Kernel W} (env : Env W)

/-- A text is written to the console, unless that call is refused. -/
theorem rejected_consoleWrite (hk' : Untouched table k k') (bytes : List Byte) (n : Int)
    (f : Int → Sys host W advances Unit) :
    Rejected k ((Sys.consoleWrite env bytes n >>= f).run k') ↔
      Refused env k (.ask (.consoleWrite ((List.range n.toNat).map (bytes.getD · 0)))) := by
  rw [Sys.consoleWrite, bind_assoc]
  exact rejected_ask hk' env _ _ fun r heff => by cases heff

variable (htab : k.machine.tables = linear table) (hset : k.machine.Settled)
include htab hset

/-- An answer `-1` makes a semaphore call return `-1`. -/
theorem semaphoreCall_decides (c : UserCall) (request : List Byte → Call)
    (hlimit : -1 ≤ c.limit k.machine ∧ c.limit k.machine ≠ 2 ^ 31 - 1)
    (hdecision : ∀ buffer, c.decision k buffer = .ask (request (cString buffer)))
    (hrequest : ∀ name result, effective (request name) result = false → result = -1) :
    Decides env table k c
      ((semaphoreCall env (c.limit k.machine) request : Sys host W advances Unit).run k) := by
  rw [Decides, semaphoreCall, run_reg_bind]
  refine rejected_copy htab hset env hlimit _ fun buffer k' hk' => ?_
  rw [hdecision]
  refine rejected_ask hk' env _ _ fun r heff => ?_
  dsimp only
  rw [if_pos (hrequest _ _ heff), rejected_setR2 (clean_answered hk'.log heff)]
  rfl

/-- `CreateSemaphore` acts on the decision. -/
theorem handleCreateSemaphore_decides (hcopies : UserCall.CreateSemaphore.Copies k.machine) :
    Decides env table k .CreateSemaphore
      ((handleCreateSemaphore env : Sys host W advances Unit).run k) := by
  rw [handleCreateSemaphore, run_reg_bind]
  exact semaphoreCall_decides env htab hset .CreateSemaphore
    (fun name => .semCreate name (k.machine.registers R5).toInt) hcopies.2 (fun _ => rfl)
    fun _ _ h => by simpa [effective] using h

/-- `Up` acts on the decision. -/
theorem handleUp_decides (hcopies : UserCall.Up.Copies k.machine) :
    Decides env table k .Up ((handleUp env : Sys host W advances Unit).run k) := by
  rw [handleUp]
  exact semaphoreCall_decides env htab hset .Up .semSignal hcopies.2 (fun _ => rfl)
    fun _ _ h => by simpa [effective] using h

/-- `Down` acts on the decision. -/
theorem handleDown_decides (hcopies : UserCall.Down.Copies k.machine) :
    Decides env table k .Down ((handleDown env : Sys host W advances Unit).run k) := by
  rw [handleDown]
  exact semaphoreCall_decides env htab hset .Down .semWait hcopies.2 (fun _ => rfl)
    fun _ _ h => by simpa [effective] using h

/-- `PrintString` acts on the decision. -/
theorem handlePrintString_decides (hcopies : UserCall.PrintString.Copies k.machine) :
    Decides env table k .PrintString
      ((handlePrintString env : Sys host W advances Unit).run k) := by
  rw [Decides, handlePrintString, run_reg_bind]
  refine rejected_copy (c := .PrintString) htab hset env hcopies.2 _ fun buffer k' hk' => ?_
  exact rejected_consoleWrite env hk' _ _ _

/-- `CreateFile` acts on the decision. -/
theorem handleCreateFile_decides (hcopies : UserCall.CreateFile.Copies k.machine) :
    Decides env table k .CreateFile
      ((handleCreateFile env : Sys host W advances Unit).run k) := by
  rw [Decides, handleCreateFile, run_reg_bind]
  refine rejected_copy (c := .CreateFile) htab hset env hcopies.2 _ fun buffer k' hk' => ?_
  simp only [createFile, UserCall.decision, List.length_eq_zero_iff]
  split
  · exact iff_of_true (rejected_failed (clean_of_log_eq hk'.log)) trivial
  · rw [create, bind_assoc]
    refine rejected_ask hk' env _ _ fun r heff => ?_
    have hneg : r.result < 0 := by simpa [effective] using heff
    dsimp only
    rw [if_pos hneg]
    exact ⟨.inl (.inr rfl), clean_answered hk'.log heff⟩

/-- `Exec` acts on the decision. -/
theorem handleExec_decides (hcopies : UserCall.Exec.Copies k.machine) :
    Decides env table k .Exec ((handleExec env : Sys host W advances Unit).run k) := by
  rw [Decides, handleExec, run_reg_bind]
  refine rejected_copy (c := .Exec) htab hset env hcopies.2 _ fun buffer k' hk' => ?_
  dsimp only
  rw [openFile, bind_assoc]
  refine rejected_ask hk' env _ _ fun r heff => ?_
  have hfail : r.result = -1 := by simpa [effective] using heff
  dsimp only
  rw [if_pos hfail, pure_bind, rejected_setR2 (clean_answered hk'.log heff)]
  rfl

/-- `WriteFile` acts on the decision. -/
theorem handleWriteFile_decides (hcopies : UserCall.WriteFile.Copies k.machine) :
    Decides env table k .WriteFile ((handleWriteFile env : Sys host W advances Unit).run k) := by
  rw [Decides, handleWriteFile, run_reg_bind, run_reg_bind, run_reg_bind]
  refine rejected_copy (c := .WriteFile) htab hset env hcopies.2 _ fun buffer k' hk' => ?_
  have hclean := clean_of_log_eq hk'.log
  simp only [UserCall.decision]
  split
  · exact iff_of_true (rejected_failed hclean) trivial
  split
  · exact rejected_consoleWrite env hk' _ _ _
  rw [run_fileTable_bind, hk'.fileTable]
  cases slot? (k.machine.registers R6).toInt with
  | none =>
    exact iff_of_true (rejected_failed hclean) trivial
  | some id =>
    simp only [Option.bind_some]
    cases k.fileTable id with
    | none =>
      exact iff_of_true (rejected_failed hclean) trivial
    | some f =>
      dsimp only
      rw [write, bind_assoc]
      exact rejected_ask hk' env _ _ fun r heff => by cases heff

/-- `OpenFile` acts on the decision. -/
theorem handleOpenFile_decides (hcopies : UserCall.OpenFile.Copies k.machine) :
    Decides env table k .OpenFile ((handleOpenFile env : Sys host W advances Unit).run k) := by
  have htype := hcopies.1 rfl
  simp only [List.mem_cons, List.not_mem_nil, or_false] at htype
  rw [Decides, handleOpenFile, run_reg_bind, run_reg_bind, if_neg (by tauto)]
  refine rejected_copy (c := .OpenFile) htab hset env hcopies.2 _ fun buffer k' hk' => ?_
  have hclean := clean_of_log_eq hk'.log
  simp only [UserCall.decision]
  split
  · split
    · rw [rejected_setR2 hclean]
      exact iff_of_false (by decide) id
    · exact iff_of_true (rejected_failed hclean) trivial
  split
  · split
    · rw [rejected_setR2 hclean]
      exact iff_of_false (by decide) id
    · exact iff_of_true (rejected_failed hclean) trivial
  rw [openTyped, bind_assoc, run_fileTable_bind, hk'.fileTable]
  cases slotFor k.fileTable (k.machine.registers R5).toInt with
  | none =>
    dsimp only
    rw [pure_bind, if_pos rfl, rejected_setR2 hclean]
    exact iff_of_true rfl trivial
  | some freeslot =>
    dsimp only
    rw [bind_assoc]
    refine rejected_ask hk' env _ _ fun r heff => ?_
    have hfail : r.result = -1 := by simpa [effective] using heff
    dsimp only
    rw [if_pos hfail, pure_bind, if_pos rfl, rejected_setR2 (clean_answered hk'.log heff)]
    rfl

/-- Each of the eight handlers acts on the decision. -/
theorem handler_decides (c : UserCall) {handle : Sys host W true Unit}
    (hhandle : handler env c.sc = some handle) (hcopies : c.Copies k.machine) :
    Decides env table k c (handle.run k) := by
  cases c
  all_goals
    cases hhandle
    rw [run_plain]
  case CreateFile => exact handleCreateFile_decides env htab hset hcopies
  case OpenFile => exact handleOpenFile_decides env htab hset hcopies
  case WriteFile => exact handleWriteFile_decides env htab hset hcopies
  case Exec => exact handleExec_decides env htab hset hcopies
  case CreateSemaphore => exact handleCreateSemaphore_decides env htab hset hcopies
  case Up => exact handleUp_decides env htab hset hcopies
  case Down => exact handleDown_decides env htab hset hcopies
  case PrintString => exact handlePrintString_decides env htab hset hcopies

end Calls

/-- `IncrementR` does not touch what `Rejected` looks at. -/
theorem rejected_incrementR (k : Kernel W) (handle : Sys host W true Unit) :
    Rejected k ((do
      handle
      Sys.incrementR : Sys host W true Unit).run k) ↔ Rejected k (handle.run k) := by
  rw [Confined.run_bind]
  split
  · rename_i k' hrun
    rw [hrun]
    rfl
  · rename_i stop k' hrun
    rw [hrun]

/-- A system call whose copy reads an unmapped byte, the first such at index `j`, is rejected
without effect if and only if a page fault halts the machine during the copy or the decision on
the text in the buffer is against the call; in that text the unmapped byte repeats the character
before it. -/
theorem bad_pointer_rejected_iff (host : Host) (env : Env W) (c : UserCall) (j : Nat)
    (table : List TranslationEntry) (k : Kernel W) (htab : k.machine.tables = linear table)
    (hset : k.machine.Settled) (hcode : SC.ofCode (k.machine.registers R2) = some c.sc)
    (hbad : c.BadAt table k.machine j) :
    (Rejected k ((exceptionHandler env .SyscallException : Sys host W true Unit).run k) ↔
      ∀ buffer, c.buffer env table k = some buffer → Refused env k (c.decision k buffer)) ∧
    ∀ buffer, c.buffer env table k = some buffer →
      buffer[j]? =
        some ((staleChar (UserCall.read table k.machine) (env.uninit k.world) j).setWidth 8) := by
  obtain ⟨hcopies, hj, hmapped, e, he⟩ := hbad
  constructor
  · obtain ⟨handle, hhandle⟩ : ∃ handle : Sys host W true Unit,
        handler env c.sc = some handle := by
      cases c <;> exact ⟨_, rfl⟩
    rw [exceptionHandler, run_reg_bind, hcode, Option.bind_some, hhandle]
    exact (rejected_incrementR k handle).trans (handler_decides env htab hset c hhandle hcopies)
  · intro buffer hbuffer
    have hstale := copyText_stale j 0 (by omega) (by simpa using hmapped)
      (by simpa using he) hbuffer
    simpa using hstale

/-- A program with one page, filled with the letter `a`, that passes the address of its last byte
to the call `r2`. -/
def badPointer (r2 : BitVec 32) : Kernel Unit where
  machine :=
    { registers := fun r => if r = R2 then r2 else if r = R4 then 511 else 0
      mainMemory := fun _ => 0x61
      tables := linear onePage }
  fileTable := fun _ => none
  world := ()
  log := []

/-- The second byte is not mapped. -/
theorem badPointer_badAt (r2 : BitVec 32) (c : UserCall)
    (hcopies : c.Copies (badPointer r2).machine) (hlimit : 1 < c.limit (badPointer r2).machine) :
    c.BadAt onePage (badPointer r2).machine 1 := by
  have haddress : (badPointer r2).machine.registers R4 = 511 := rfl
  refine ⟨hcopies, hlimit, fun i hi => ⟨0x61, ?_, by decide⟩, .AddressErrorException, ?_⟩
  · obtain rfl : i = 0 := by omega
    rw [UserCall.read, haddress]
    rfl
  · rw [UserCall.read, haddress]
    rfl

/-- `Up` is rejected when no semaphore has the name that the copy makes up. -/
theorem up_bad_pointer_rejected :
    Rejected (badPointer 25)
      ((exceptionHandler (answering (-1)) .SyscallException : Sys .littleEndian Unit true Unit).run
        (badPointer 25)) :=
  (bad_pointer_rejected_iff .littleEndian (answering (-1)) .Up 1 _ (badPointer 25) rfl
    ⟨rfl, rfl, rfl⟩ rfl
    (badPointer_badAt 25 .Up ⟨by decide, by decide, by decide⟩ (by decide))).1.mpr
      fun _ _ => rfl

set_option maxRecDepth 4000 in
theorem createFile_badPointer_run :
    ((exceptionHandler (answering 0) .SyscallException : Sys .littleEndian Unit true Unit).run
      (badPointer 19)).2.machine.registers R2 = 0 ∧
    ((exceptionHandler (answering 0) .SyscallException : Sys .littleEndian Unit true Unit).run
      (badPointer 19)).2.log = [(.openForWrite (List.replicate 200 0x61), 0), (.close 0, 0)] := by
  constructor <;> decide +kernel

/-- `CreateFile` does not notice: it creates a file named by two hundred times `a` and returns
zero. -/
theorem createFile_bad_pointer :
    UserCall.CreateFile.BadAt onePage (badPointer 19).machine 1 ∧
    ((exceptionHandler (answering 0) .SyscallException : Sys .littleEndian Unit true Unit).run
      (badPointer 19)).2.machine.registers R2 = 0 ∧
    ((exceptionHandler (answering 0) .SyscallException : Sys .littleEndian Unit true Unit).run
      (badPointer 19)).2.log = [(.openForWrite (List.replicate 200 0x61), 0), (.close 0, 0)] :=
  ⟨badPointer_badAt 19 .CreateFile ⟨by decide, by decide, by decide⟩ (by decide),
    createFile_badPointer_run⟩

end Nachos.Syscall
