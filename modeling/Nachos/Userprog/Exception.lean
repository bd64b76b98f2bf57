import Nachos.Userprog.Syscalls

/-!
# `ExceptionHandler`

The dispatcher of `userprog/exception.cc` over the codes of `userprog/syscall.h`, and where it
leaves the program counters. A handler may write `r2` and nothing else of the register file, since
`KernelAccess` allows nothing else and traps during its memory accesses find no load pending; so
after an implemented call `IncrementR` has been executed exactly once, with the one exception of
`PrintFloat`. A code without a `case` is not advanced over at all.
-/

namespace Nachos

/-- The codes `SC_*` of `syscall.h`. -/
inductive SC where
  | Halt | Exit | Exec | Join | Create | Open | Read | Write | Close | Fork | Yield
  | ReadInt | PrintInt | ReadFloat | PrintFloat | ReadChar | PrintChar | ReadString | PrintString
  | CreateFile | OpenFile | ReadFile | WriteFile | CloseFile
  | CreateSemaphore | Up | Down
  deriving DecidableEq, Repr

/-- The codes in the order of their numbers, from 0 on. -/
def SC.codes : List SC :=
  [.Halt, .Exit, .Exec, .Join, .Create, .Open, .Read, .Write, .Close, .Fork, .Yield,
   .ReadInt, .PrintInt, .ReadFloat, .PrintFloat, .ReadChar, .PrintChar, .ReadString, .PrintString,
   .CreateFile, .OpenFile, .ReadFile, .WriteFile, .CloseFile, .CreateSemaphore, .Up, .Down]

/-- The code in `r2`, if it is one. -/
def SC.ofCode (r2 : BitVec 32) : Option SC := SC.codes[r2.toNat]?

namespace Syscall

variable {host : Host} {W : Type} {m m' : Machine} {k k' : Kernel W} {env : Env W}

/-- The handler of a code; `none` when the `switch` has no `case` for it. -/
def handler (env : Env W) : SC → Option (Sys host W true Unit)
  | .Halt => some (.stop .halt)
  | .CreateFile => some (Sys.plain (handleCreateFile env))
  | .OpenFile => some (Sys.plain (handleOpenFile env))
  | .CloseFile => some (Sys.plain (handleCloseFile env))
  | .ReadFile => some (Sys.plain (handleReadFile env))
  | .WriteFile => some (Sys.plain (handleWriteFile env))
  | .ReadInt => some (Sys.plain (handleReadInt env))
  | .PrintInt => some (Sys.plain (handlePrintInt env))
  | .ReadFloat => some (handleReadFloat env)
  | .PrintFloat => some (handlePrintFloat env)
  | .ReadChar => some (Sys.plain (handleReadChar env))
  | .PrintChar => some (Sys.plain (handlePrintChar env))
  | .ReadString => some (Sys.plain (handleReadString env))
  | .PrintString => some (Sys.plain (handlePrintString env))
  | .Join => some (Sys.plain (handleJoin env))
  | .Exit => some (Sys.plain (handleExit env))
  | .CreateSemaphore => some (Sys.plain (handleCreateSemaphore env))
  | .Up => some (Sys.plain (handleUp env))
  | .Down => some (Sys.plain (handleDown env))
  | .Exec => some (Sys.plain (handleExec env))
  | .Create | .Open | .Read | .Write | .Close | .Fork | .Yield => none

/-- `ExceptionHandler`. -/
def exceptionHandler (env : Env W) (which : ExceptionType) : Sys host W true Unit :=
  match which with
  | .SyscallException => do
    let type ← Sys.reg R2
    match (SC.ofCode type).bind (handler env) with
    | none => pure ()
    | some handle => do
      handle
      Sys.incrementR
  | which => Sys.otherException which

/-! ## What a handler leaves alone -/

/-- The registers are the same, but for `r2` and `BadVAddrReg`. -/
def Kept (m m' : Machine) : Prop :=
  ∀ r : Reg, r ≠ R2 → r ≠ BadVAddrReg → m'.registers r = m.registers r

theorem Kept.settled (h : Kept m m') (hm : m.Settled) : m'.Settled := by
  obtain ⟨hload, hvalue, hzero⟩ := hm
  refine ⟨?_, ?_, ?_⟩
  · rw [h LoadReg (by decide) (by decide), hload]
  · rw [h LoadValueReg (by decide) (by decide), hvalue]
  · rw [h 0 (by decide) (by decide), hzero]

/-- With no load pending, `DelayedLoad(0, 0)` changes nothing. -/
theorem delayedLoad_of_settled (h : m.Settled) : m.delayedLoad 0 0 = m := by
  obtain ⟨hload, hvalue, hzero⟩ := h
  have hregs : (m.delayedLoad 0 0).registers = m.registers := by
    funext r
    rw [Machine.delayedLoad_apply, Machine.commitLoad_apply, hload, hvalue]
    split_ifs with h0 h38 h37 hr
    · rw [h0, hzero]
    · rw [h38, hvalue]
    · rw [h37, hload]
    · exact absurd (Fin.ext hr.symm) h0
    · rfl
  rw [Machine.delayedLoad_eq, hregs]

theorem enter_settled (m : Machine) (badVAddr : BitVec 32) : (m.enter badVAddr).Settled := by
  refine ⟨?_, ?_, ?_⟩ <;> rw [Machine.enter, Machine.delayedLoad_apply] <;> rfl

/-- A trap during a handler changes `BadVAddrReg` only. -/
theorem enter_of_settled (h : m.Settled) (badVAddr : BitVec 32) :
    m.enter badVAddr = m.writeRegister BadVAddrReg badVAddr :=
  delayedLoad_of_settled h

theorem Kept.trans {m₁ m₂ m₃ : Machine} (h₁ : Kept m₁ m₂) (h₂ : Kept m₂ m₃) : Kept m₁ m₃ :=
  fun r h2 hbad => (h₂ r h2 hbad).trans (h₁ r h2 hbad)

/-- What kernel code without `IncrementR` does to the registers in one go. -/
theorem kept_access (h : KernelAccess host W false k k') (hk : k.machine.Settled) :
    Kept k.machine k'.machine := by
  intro r h2 hbad
  cases h with
  | result v => exact Machine.writeRegister_of_ne _ _ h2
  | memory _ hreg => exact congrFun hreg r
  | trap badVAddr =>
    rw [Kernel.enter, enter_of_settled hk]
    exact Machine.writeRegister_of_ne _ _ hbad
  | fileTable table => rfl
  | call c reply =>
    have hm : ({ k.machine with mainMemory := reply.memory } : Machine).Settled := hk
    simp only [Kernel.answered, delayedLoad_of_settled hm, ite_self]
  | advance h => cases h

/-- Kernel code without `IncrementR` writes `r2` and `BadVAddrReg` at most. -/
theorem kept_run {α : Type} (x : Sys host W false α) (hk : k.machine.Settled) :
    Kept k.machine (x.run k).2.machine := by
  refine Confined.invariant (P := fun s => Kept k.machine s.machine) ?_ x fun _ _ _ => rfl
  intro s t hstep hs
  exact hs.trans (kept_access hstep (hs.settled hk))

theorem kept_plain {α : Type} {x : Sys host W false α} {r : Except Stop α}
    (hk : k.machine.Settled) (h : (Sys.plain x).run k = (r, k')) : Kept k.machine k'.machine := by
  have hrun := kept_run x hk
  rwa [show x.run k = (r, k') from h] at hrun

/-! ## Advancing over the call -/

/-- The program has been moved on by one instruction, and no general register but `r2` has
changed. -/
def Advanced (m m' : Machine) : Prop :=
  m'.registers PrevPCReg = m.registers PCReg ∧
  m'.registers PCReg = m.registers NextPCReg ∧
  m'.registers NextPCReg = m.registers NextPCReg + 4 ∧
  ∀ r : Reg, r.val < NumGPRegs → r ≠ R2 → m'.registers r = m.registers r

/-- The registers after `IncrementR`. -/
theorem incrementR_apply (m : Machine) (r : Reg) :
    m.incrementR.registers r =
      if r = NextPCReg then m.registers NextPCReg + 4
      else if r = PCReg then m.registers NextPCReg
      else if r = PrevPCReg then m.registers PCReg else m.registers r := by
  simp only [Machine.incrementR, Machine.writeRegister_apply]
  rfl

/-- One `IncrementR` advances a machine whose handler has kept the registers. -/
theorem Kept.advanced (h : Kept m m') : Advanced m m'.incrementR := by
  refine ⟨?_, ?_, ?_, ?_⟩
  · exact (incrementR_apply ..).trans (h PCReg (by decide) (by decide))
  · exact (incrementR_apply ..).trans (h NextPCReg (by decide) (by decide))
  · rw [incrementR_apply, if_pos rfl, h NextPCReg (by decide) (by decide)]
  · intro r hr h2
    have hne : r ≠ NextPCReg ∧ r ≠ PCReg ∧ r ≠ PrevPCReg ∧ r ≠ BadVAddrReg := by
      refine ⟨?_, ?_, ?_, ?_⟩ <;> rintro rfl <;> exact absurd hr (by decide)
    rw [incrementR_apply, if_neg hne.1, if_neg hne.2.1, if_neg hne.2.2.1, h r h2 hne.2.2.2]

/-- A machine whose program counters stand still is not advanced. -/
theorem not_advanced_refl (m : Machine) : ¬ Advanced m m := by
  intro h
  have := h.2.2.1
  bv_omega

/-- Two calls of `IncrementR` go too far. -/
theorem Kept.not_advanced_twice (h : Kept m m') : ¬ Advanced m m'.incrementR.incrementR := by
  intro hadv
  have hnext := hadv.2.2.1
  rw [incrementR_apply, if_pos rfl, incrementR_apply, if_pos rfl,
    h NextPCReg (by decide) (by decide)] at hnext
  bv_omega

/-- `ReadFloat` returns only where it has not called `IncrementR`. -/
theorem handleReadFloat_kept (hk : k.machine.Settled)
    (h : (handleReadFloat env : Sys host W true Unit).run k = (.ok (), k')) :
    Kept k.machine k'.machine := by
  obtain ⟨⟨line, numbytes⟩, k₁, hread, h⟩ := Confined.ok_of_bind h
  have hk₁ := kept_plain hk hread
  dsimp only at h
  generalize scanFloat 0 _ = valid at h
  cases valid
  · cases h
  · exact hk₁.trans (kept_plain (hk₁.settled hk) h)

/-- `PrintFloat` keeps the registers for a number other than zero. -/
theorem handlePrintFloat_kept (hk : k.machine.Settled) (hnum : k.machine.registers R4 ≠ 0)
    (h : (handlePrintFloat env : Sys host W true Unit).run k = (.ok (), k')) :
    Kept k.machine k'.machine := by
  obtain ⟨number, k₁, hreg, h⟩ := Confined.ok_of_bind h
  cases hreg
  rw [if_neg hnum] at h
  obtain ⟨n, k₂, hwrite, h⟩ := Confined.ok_of_bind h
  cases h
  exact kept_plain hk hwrite

/-- For zero, `PrintFloat` calls `IncrementR` itself. -/
theorem handlePrintFloat_zero (hk : k.machine.Settled) (hnum : k.machine.registers R4 = 0)
    (h : (handlePrintFloat env : Sys host W true Unit).run k = (.ok (), k')) :
    ∃ m, Kept k.machine m ∧ k'.machine = m.incrementR := by
  obtain ⟨number, k₁, hreg, h⟩ := Confined.ok_of_bind h
  cases hreg
  rw [if_pos hnum] at h
  obtain ⟨n, k₂, hwrite, h⟩ := Confined.ok_of_bind h
  cases h
  exact ⟨k₂.machine, kept_plain hk hwrite, rfl⟩

/-- A handler that returns has kept the registers, unless it is `PrintFloat` of zero. -/
theorem handler_kept {sc : SC} {handle : Sys host W true Unit}
    (hsc : handler env sc = some handle) (hk : k.machine.Settled)
    (hfloat : ¬ (sc = .PrintFloat ∧ k.machine.registers R4 = 0)) (h : handle.run k = (.ok (), k')) :
    Kept k.machine k'.machine := by
  cases sc
  case ReadFloat =>
    cases hsc
    exact handleReadFloat_kept hk h
  case PrintFloat =>
    cases hsc
    exact handlePrintFloat_kept hk (fun h0 => hfloat ⟨rfl, h0⟩) h
  case Halt =>
    cases hsc
    cases h
  all_goals
    cases hsc
    try exact kept_plain hk h

/-- The code in `r2` has a `case` in `ExceptionHandler`. -/
def Implemented (r2 : BitVec 32) : Prop :=
  ∃ sc, SC.ofCode r2 = some sc ∧
    sc ∉ [SC.Create, .Open, .Read, .Write, .Close, .Fork, .Yield]

theorem isSome_handler_iff (env : Env W) (sc : SC) :
    (handler env sc : Option (Sys host W true Unit)).isSome ↔
      sc ∉ [SC.Create, .Open, .Read, .Write, .Close, .Fork, .Yield] := by
  cases sc <;> simp [handler]

theorem implemented_iff (host : Host) (env : Env W) {r2 : BitVec 32} :
    Implemented r2 ↔
      ((SC.ofCode r2).bind (handler env : SC → Option (Sys host W true Unit))).isSome := by
  cases hsc : SC.ofCode r2 with
  | none => simp [Implemented, hsc]
  | some sc => simp only [Implemented, hsc, Option.some.injEq, exists_eq_left', Option.bind_some,
      isSome_handler_iff]

/-- A system call that returns to its caller has advanced the program by exactly one instruction
and kept all general registers but `r2` if and only if its code is implemented and it is not
`PrintFloat` of zero. -/
theorem syscall_advances_iff (env : Env W) (k k' : Kernel W) (badVAddr : BitVec 32)
    (h : (exceptionHandler env .SyscallException : Sys host W true Unit).run (k.enter badVAddr) =
      (.ok (), k')) :
    Advanced (k.enter badVAddr).machine k'.machine ↔
      Implemented ((k.enter badVAddr).machine.registers R2) ∧
        ¬ (SC.ofCode ((k.enter badVAddr).machine.registers R2) = some .PrintFloat ∧
          (k.enter badVAddr).machine.registers R4 = 0) := by
  have hk : (k.enter badVAddr).machine.Settled := enter_settled ..
  generalize k.enter badVAddr = k at h hk ⊢
  obtain ⟨type, k₁, hreg, h⟩ := Confined.ok_of_bind h
  cases hreg
  rw [implemented_iff host env]
  cases hhandler : (SC.ofCode (k.machine.registers R2)).bind
      (handler env : SC → Option (Sys host W true Unit)) with
  | none =>
    -- no `case`: nothing happens
    simp only [hhandler] at h
    cases h
    simp [not_advanced_refl]
  | some handle =>
    simp only [hhandler] at h
    obtain ⟨sc, hsc, hsome⟩ := Option.bind_eq_some_iff.mp hhandler
    obtain ⟨_, k₂, hhandle, h⟩ := Confined.ok_of_bind h
    cases h
    rw [hsc, Option.some.injEq, Option.isSome_some]
    by_cases hfloat : sc = .PrintFloat ∧ k.machine.registers R4 = 0
    · obtain ⟨rfl, hzero⟩ := hfloat
      cases hsome
      obtain ⟨m, hkept, hm⟩ := handlePrintFloat_zero hk hzero hhandle
      simpa [hzero, hm] using hkept.not_advanced_twice
    · exact iff_of_true (handler_kept hsome hk hfloat hhandle).advanced ⟨rfl, hfloat⟩

/-- A rest of the system that gives every call the same result, at once. -/
def answering (result : Int) : Env Unit where
  serve _ world memory := .ok ⟨result, [], world, memory, false⟩
  uninit _ := 0
  floatValue _ _ := 0
  floatText _ := []

/-- A kernel in which the program at address 0 makes the call `r2` with the argument `r4`. -/
def calling (r2 r4 : BitVec 32) : Kernel Unit where
  machine :=
    { registers := fun r =>
        if r = R2 then r2 else if r = R4 then r4 else if r = NextPCReg then 4 else 0
      mainMemory := fun _ => 0
      tables := linear [] }
  fileTable := fun _ => none
  world := ()
  log := []

/-- `Up` returns to its caller, one instruction further on. -/
theorem up_advances :
    Advanced ((calling 25 0).enter 0).machine
      ((exceptionHandler (answering 0) .SyscallException : Sys .littleEndian Unit true Unit).run
        ((calling 25 0).enter 0)).2.machine :=
  (syscall_advances_iff (answering 0) (calling 25 0) _ 0 rfl).mpr
    ⟨⟨.Up, by decide, by decide⟩, by decide⟩

/-- A declared code without a handler (`SC_Yield`) and an unknown one leave the program counters
alone, so the program makes the same call again; `PrintFloat` of zero skips an instruction. -/
theorem call_repeated_or_skipped :
    (∀ r2 ∈ [10#32, 27#32], ∃ k',
      (exceptionHandler (answering 0) .SyscallException : Sys .littleEndian Unit true Unit).run
        ((calling r2 0).enter 0) = (.ok (), k') ∧
      k'.machine.registers PCReg = 0 ∧ ¬ Advanced ((calling r2 0).enter 0).machine k'.machine) ∧
    ∃ k', (exceptionHandler (answering 0) .SyscallException : Sys .littleEndian Unit true Unit).run
        ((calling 14 0).enter 0) = (.ok (), k') ∧
      k'.machine.registers PCReg = 8 ∧ ¬ Advanced ((calling 14 0).enter 0).machine k'.machine := by
  constructor
  · intro r2 hr2
    simp only [List.mem_cons, List.not_mem_nil, or_false] at hr2
    rcases hr2 with rfl | rfl <;> exact ⟨_, rfl, rfl, not_advanced_refl _⟩
  · refine ⟨_, rfl, rfl, fun h => ?_⟩
    exact absurd h.2.1 (by decide)

end Syscall

end Nachos
