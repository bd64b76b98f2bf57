import Nachos.Machine.Precise
import Nachos.Userprog.Exception

/-!
# Faulting instructions

The loop of `Machine::Run` with `RaiseException` and `ExceptionHandler`. For an exception other
than a system call the handler halts the machine on a page fault and otherwise does nothing: it
returns, the program counter still at the instruction, and the loop executes it again.
-/

namespace Nachos.Syscall

variable {host : Host} {W : Type}

/-- `Machine::RaiseException`. -/
def raiseException (env : Env W) (which : ExceptionType) (badVAddr : BitVec 32) :
    Sys host W true Unit := do
  Confined.update (·.enter badVAddr) fun k => .single (.trap k badVAddr)
  exceptionHandler env which

/-- One round of the loop in `Machine::Run`: `OneInstruction`, and an interrupt that comes due in
`OneTick` or not. -/
def round (host : Host) (env : Env W) (due : Bool) (k : Kernel W) :
    Except Stop Unit × Kernel W :=
  let (outcome, m) := (Cpu.oneInstruction : Cpu host Unit).run k.machine
  let k := { k with machine := m }
  let tick (k : Kernel W) : Kernel W :=
    if due then { k with machine := k.machine.delayedLoad 0 0 } else k
  match outcome with
  | .ok () => (.ok (), tick k)
  | .error (.raise which badVAddr) =>
    match (raiseException env which badVAddr : Sys host W true Unit).run k with
    | (.ok (), k') => (.ok (), tick k')
    | (.error stop, k') => (.error stop, k')
  | .error .abort => (.error .abort, k)
  | .error .undefined => (.error .undefined, k)

/-- As many rounds as the list is long. -/
def runLoop (host : Host) (env : Env W) : List Bool → Kernel W → Except Stop Unit × Kernel W
  | [], k => (.ok (), k)
  | due :: rest, k => match round host env due k with
      | (.ok (), k') => runLoop host env rest k'
      | (.error stop, k') => (.error stop, k')

/-- The machine has been halted, the process terminated, or the program counter changed. -/
def Resolved (k : Kernel W) (after : Except Stop Unit × Kernel W) : Prop :=
  after.1 = .error .halt ∨ after.1 = .error .finish ∨
    after.2.machine.registers PCReg ≠ k.machine.registers PCReg

/-- What `RaiseException` does with an exception that is neither a system call nor a page
fault. -/
theorem raiseException_other (env : Env W) {which : ExceptionType} (badVAddr : BitVec 32)
    (k : Kernel W) (hsys : which ≠ .SyscallException) (hfault : which ≠ .PageFaultException) :
    (raiseException env which badVAddr : Sys host W true Unit).run k =
      (.ok (), k.enter badVAddr) := by
  cases which
  case SyscallException => exact absurd rfl hsys
  case PageFaultException => exact absurd rfl hfault
  all_goals rfl

theorem raiseException_pageFault (env : Env W) (badVAddr : BitVec 32) (k : Kernel W) :
    (raiseException env .PageFaultException badVAddr : Sys host W true Unit).run k =
      (.error .halt, k.enter badVAddr) := rfl

/-- On entry to the kernel the program counter changes only if it is the target of the pending
load. -/
theorem enter_PCReg_ne_iff (m : Machine) (badVAddr : BitVec 32) :
    (m.enter badVAddr).registers PCReg ≠ m.registers PCReg ↔
      m.registers LoadReg = 34 ∧ m.registers LoadValueReg ≠ m.registers PCReg := by
  rw [Machine.enter, Machine.delayedLoad_apply, if_neg (by decide), if_neg (by decide),
    if_neg (by decide), Machine.commitLoad_apply]
  simp only [Machine.writeRegister_of_ne _ _ (show LoadReg ≠ BadVAddrReg by decide),
    Machine.writeRegister_of_ne _ _ (show LoadValueReg ≠ BadVAddrReg by decide),
    Machine.writeRegister_of_ne _ _ (show PCReg ≠ BadVAddrReg by decide)]
  have hload : (m.registers LoadReg).toNat = PCReg.val ↔ m.registers LoadReg = 34 := by
    rw [← BitVec.toNat_inj]
    rfl
  split_ifs with h
  · exact ⟨fun hne => ⟨hload.mp h, hne⟩, fun hr => hr.2⟩
  · exact iff_of_false (fun hne => hne rfl) fun hr => h (hload.mpr hr.1)

/-- An instruction that raises an exception other than a system call halts the machine, terminates
the process or changes the program counter if and only if the exception is a page fault, or the
pending load goes to the program counter; and unless it is a page fault `RaiseException` returns
with a machine that differs in the committed load, `BadVAddrReg` and table bits only. -/
theorem fault_resolved_iff (env : Env W) (k : Kernel W) (which : ExceptionType)
    (badVAddr : BitVec 32) (m : Machine)
    (hraise : (Cpu.oneInstruction : Cpu host Unit).run k.machine =
      (.error (.raise which badVAddr), m))
    (hsys : which ≠ .SyscallException) :
    (Resolved k ((raiseException env which badVAddr : Sys host W true Unit).run
        { k with machine := m }) ↔
      which = .PageFaultException ∨
        (k.machine.registers LoadReg = 34 ∧
          k.machine.registers LoadValueReg ≠ k.machine.registers PCReg)) ∧
    (which ≠ .PageFaultException → ∃ tables,
      (raiseException env which badVAddr : Sys host W true Unit).run { k with machine := m } =
        (.ok (), { k with machine := (k.machine.touched tables).enter badVAddr })) := by
  obtain ⟨tables, rfl⟩ := Cpu.precise_oneInstruction _ _ _ _ hraise
  by_cases hfault : which = .PageFaultException
  · subst hfault
    rw [raiseException_pageFault]
    exact ⟨iff_of_true (.inl rfl) (.inl rfl), fun h => absurd rfl h⟩
  · rw [raiseException_other env badVAddr _ hsys hfault]
    refine ⟨?_, fun _ => ⟨tables, rfl⟩⟩
    have hpc := enter_PCReg_ne_iff (k.machine.touched tables) badVAddr
    simpa [Resolved, Kernel.enter, hfault] using hpc

/-- A program at address 0 in an address space of one page, valid or not, whose bytes are all
`0xff`: an illegal instruction. -/
def illegal (valid : Bool) : Kernel Unit where
  machine :=
    { registers := fun _ => 0
      mainMemory := fun _ => 0xff
      tables := linear [⟨0, 0, valid, false, true, false⟩] }
  fileTable := fun _ => none
  world := ()
  log := []

/-- A page fault halts the machine. -/
theorem pageFault_resolved :
    Resolved (illegal false)
      ((raiseException (answering 0) .PageFaultException 0 : Sys .littleEndian Unit true Unit).run
        (illegal false)) :=
  (fault_resolved_iff (answering 0) (illegal false) .PageFaultException 0
    (illegal false).machine rfl (by decide)).1.mpr (.inl rfl)

theorem oneInstruction_illegal :
    (Cpu.oneInstruction : Cpu .littleEndian Unit).run (illegal true).machine =
      (.error (.raise .IllegalInstrException 0), (illegal true).machine) := rfl

theorem illegal_settled : (illegal true).machine.Settled := ⟨rfl, rfl, rfl⟩

/-- `RaiseException` hands the machine back as it was. -/
theorem raiseException_illegal :
    (raiseException (answering 0) .IllegalInstrException 0 : Sys .littleEndian Unit true Unit).run
      (illegal true) = (.ok (), illegal true) := by
  have henter : (illegal true).enter 0 = illegal true := by
    rw [Kernel.enter, enter_of_settled illegal_settled, Machine.writeRegister]
    exact congrArg (fun registers => { illegal true with
      machine := { (illegal true).machine with registers := registers } })
      (Function.update_eq_self BadVAddrReg (illegal true).machine.registers)
  rw [raiseException_other _ _ _ (by decide) (by decide), henter]

/-- Each round ends where it began. -/
theorem runLoop_illegal (dues : List Bool) :
    runLoop .littleEndian (answering 0) dues (illegal true) = (.ok (), illegal true) := by
  have hround : ∀ due, round .littleEndian (answering 0) due (illegal true) =
      (.ok (), illegal true) := by
    intro due
    unfold round
    rw [oneInstruction_illegal]
    dsimp only
    rw [raiseException_illegal]
    dsimp only
    rw [delayedLoad_of_settled illegal_settled]
    cases due <;> rfl
  induction dues with
  | nil => rfl
  | cons due rest ih =>
    rw [runLoop, hround]
    exact ih

/-- An illegal instruction is not resolved: the loop executes it over and over. -/
theorem illegal_spins :
    (Cpu.oneInstruction : Cpu .littleEndian Unit).run (illegal true).machine =
      (.error (.raise .IllegalInstrException 0), (illegal true).machine) ∧
    ¬ Resolved (illegal true)
      ((raiseException (answering 0) .IllegalInstrException 0 :
        Sys .littleEndian Unit true Unit).run (illegal true)) ∧
    ∀ dues, runLoop .littleEndian (answering 0) dues (illegal true) = (.ok (), illegal true) := by
  refine ⟨oneInstruction_illegal, ?_, runLoop_illegal⟩
  rw [raiseException_illegal]
  simp [Resolved]

end Nachos.Syscall
