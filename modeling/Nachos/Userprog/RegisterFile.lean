import Nachos.Library.Transition
import Nachos.Machine.Endings
import Nachos.Machine.Restart
import Nachos.Userprog.AddrSpace
import Nachos.Userprog.Faults

/-!
# The register file of a running process

`AddrSpace::InitRegisters` sets the registers of a new process. From there on they are changed by
user instructions, by interrupts, which run `DelayedLoad(0, 0)`, and by the handlers of system
calls. Instructions may write `r0` and leave the `switch` in the middle, but behind every step `r0`
is zero and `LoadReg` holds the number of a general register. So `DelayedLoad`, which writes to the
register whose number it finds there, never writes `HiReg`, `LoReg` or a program counter.
-/

namespace Nachos

open Relation BlockWrite

/-- `AddrSpace::InitRegisters`. -/
def AddrSpace.initRegisters (sp : AddrSpace) (m : Machine) : Machine :=
  let zeroed := (List.finRange 40).foldl (fun m i => m.writeRegister i 0) m
  ((zeroed.writeRegister PCReg 0).writeRegister NextPCReg 4).writeRegister StackReg
    (BitVec.ofInt 32 (sp.numPages * PageSize - 16))

variable {host : Host} {W : Type} {m m' : Machine} {k k' : Kernel W}

/-- What changes the registers of a process: an instruction, an exception with the first lines of
`RaiseException`, an interrupt, and kernel code of a system call. -/
inductive UserStep (host : Host) : Kernel W → Kernel W → Prop where
  | instruction {k : Kernel W} {m : Machine}
      (h : (Cpu.oneInstruction : Cpu host Unit).run k.machine = (.ok (), m)) :
      UserStep host k { k with machine := m }
  | exception {k : Kernel W} {m : Machine} {which : ExceptionType} {badVAddr : BitVec 32}
      (h : (Cpu.oneInstruction : Cpu host Unit).run k.machine =
        (.error (.raise which badVAddr), m)) :
      UserStep host k ({ k with machine := m }.enter badVAddr)
  | interrupt (k : Kernel W) :
      UserStep host k { k with machine := k.machine.delayedLoad 0 0 }
  | handler {k k' : Kernel W} (h : KernelAccess host W true k k') : UserStep host k k'

/-- A step from the first machine calls `DelayedLoad` on the second. -/
inductive DelayedLoadAt (host : Host) : Machine → Machine → Prop where
  /-- At the end of `OneInstruction`, or in the `RaiseException` of an instruction. -/
  | instruction {m m' : Machine} (h : m' ∈ Cpu.delaying host m) : DelayedLoadAt host m m'
  /-- In `RaiseException`, called by an access of the kernel to user memory. -/
  | trap (m : Machine) (badVAddr : BitVec 32) :
      DelayedLoadAt host m (m.writeRegister BadVAddrReg badVAddr)
  /-- In `CheckIfDue`, during an instruction or a blocking call, when memory may have changed. -/
  | interrupt (m : Machine) (memory : Store Byte) :
      DelayedLoadAt host m { m with mainMemory := memory }

/-! ## Single steps -/

theorem registers_foldl_zero (l : List Reg) (m : Machine) (r : Reg) :
    (l.foldl (fun m i => m.writeRegister i 0) m).registers r =
      if r ∈ l then 0 else m.registers r := by
  induction l generalizing m with
  | nil => simp
  | cons i l ih =>
    rw [List.foldl_cons, ih, Machine.writeRegister_apply]
    by_cases hr : r = i <;> simp [hr]

/-- A new process has nothing pending. -/
theorem proper_initRegisters (sp : AddrSpace) (m : Machine) : (sp.initRegisters m).Proper := by
  have hzero : ∀ r, r ≠ StackReg → r ≠ NextPCReg → r ≠ PCReg →
      (sp.initRegisters m).registers r = 0 := by
    intro r hstack hnext hpc
    simp only [AddrSpace.initRegisters, Machine.writeRegister_apply, if_neg hstack, if_neg hnext,
      if_neg hpc]
    rw [registers_foldl_zero, if_pos (List.mem_finRange r)]
  constructor
  · exact hzero R0 (by decide) (by decide) (by decide)
  · rw [hzero LoadReg (by decide) (by decide) (by decide)]
    decide

/-- `DelayedLoad(0, 0)` leaves nothing pending, whatever was. -/
theorem proper_delayedLoad (m : Machine) : (m.delayedLoad 0 0).Proper := by
  constructor
  · rw [Machine.delayedLoad_apply, if_pos rfl]
  · rw [Machine.delayedLoad_apply, if_neg (by decide), if_neg (by decide), if_pos rfl]
    decide

/-- Properity is about two registers. -/
theorem Machine.Proper.of_registers (h : m.Proper) (hzero : m'.registers R0 = m.registers R0)
    (hload : m'.registers LoadReg = m.registers LoadReg) : m'.Proper :=
  ⟨hzero.trans h.zero, hload ▸ h.load⟩

theorem proper_kernelAccess {advances : Bool} (h : KernelAccess host W advances k k')
    (hk : k.machine.Proper) : k'.machine.Proper := by
  cases h with
  | result v =>
    exact hk.of_registers (Machine.writeRegister_of_ne _ _ (by decide))
      (Machine.writeRegister_of_ne _ _ (by decide))
  | memory h hreg => exact hk.of_registers (congrFun hreg R0) (congrFun hreg LoadReg)
  | trap badVAddr => exact proper_enter k.machine badVAddr
  | fileTable table => exact hk
  | call c r =>
    rw [Kernel.answered]
    dsimp only
    split
    · exact proper_delayedLoad _
    · exact hk.of_registers rfl rfl
  | advance h =>
    refine hk.of_registers ?_ ?_
    · rw [Syscall.incrementR_apply, if_neg (by decide), if_neg (by decide), if_neg (by decide)]
    · rw [Syscall.incrementR_apply, if_neg (by decide), if_neg (by decide), if_neg (by decide)]

/-- Every step re-establishes what it may have broken inside. -/
theorem proper_userStep (h : UserStep host k k') (hk : k.machine.Proper) : k'.machine.Proper := by
  cases h with
  | instruction h => exact proper_oneInstruction h
  | exception h => exact proper_enter _ _
  | interrupt => exact proper_delayedLoad k.machine
  | handler h => exact proper_kernelAccess h hk

/-- Nothing before a call of `DelayedLoad` writes `LoadReg`. -/
theorem loadReg_delayedLoadAt (h : DelayedLoadAt host m m') :
    m'.registers LoadReg = m.registers LoadReg := by
  cases h with
  | instruction h => exact Cpu.delaying_loadReg h
  | trap badVAddr => exact Machine.writeRegister_of_ne _ _ (by decide)
  | interrupt memory => rfl

/-- The load that comes to its end goes to a general register. -/
theorem Machine.Proper.commitLoad_kept (hm : m.Proper) (h : DelayedLoadAt host m m') :
    (m'.registers LoadReg).toNat < NumGPRegs ∧
      ∀ r : Reg, NumGPRegs ≤ r.val → m'.commitLoad.registers r = m'.registers r := by
  have hload : (m'.registers LoadReg).toNat < NumGPRegs := by
    rw [loadReg_delayedLoadAt h]
    exact hm.load
  refine ⟨hload, fun r hr => ?_⟩
  rw [Machine.commitLoad_apply, if_neg]
  exact fun heq => absurd (heq ▸ hload) (not_lt.mpr hr)

/-! ## Runs -/

theorem proper_run (h : ReflTransGen (UserStep host) k k') (hk : k.machine.Proper) :
    k'.machine.Proper := by
  induction h with
  | refl => exact hk
  | tail _ hstep ih => exact proper_userStep hstep ih

theorem Machine.Proper.toInt_loadReg (h : m.Proper) :
    0 ≤ (m.registers LoadReg).toInt ∧ (m.registers LoadReg).toInt ≤ 31 := by
  have hload : (m.registers LoadReg).toNat < 32 := h.load
  rw [BitVec.toInt_eq_toNat_cond]
  split <;> omega

/-- From `InitRegisters` on, behind every instruction, exception, interrupt and access of a system
call, `r0` is zero and the load that is pending goes to one of the 32 general registers; and so
the write of `DelayedLoad`, wherever it is called next, leaves `HiReg`, `LoReg` and the program
counters alone. -/
theorem register_file_invariant (sp : AddrSpace) (m : Machine) {start k : Kernel W}
    (hstart : start.machine = sp.initRegisters m) (hrun : ReflTransGen (UserStep host) start k) :
    k.machine.registers R0 = 0 ∧
    0 ≤ (k.machine.registers LoadReg).toInt ∧ (k.machine.registers LoadReg).toInt ≤ 31 ∧
    ∀ m', DelayedLoadAt host k.machine m' → (m'.registers LoadReg).toNat < NumGPRegs ∧
      ∀ r : Reg, NumGPRegs ≤ r.val → m'.commitLoad.registers r = m'.registers r := by
  have hproper := proper_run hrun (hstart ▸ proper_initRegisters sp m)
  have hload := hproper.toInt_loadReg
  exact ⟨hproper.zero, hload.1, hload.2, fun m' h => hproper.commitLoad_kept h⟩

/-- A new process of one page whose first instruction is `lw r1, 16(r0)`, before it. -/
def loading : Kernel Unit where
  machine := AddrSpace.initRegisters ⟨onePage⟩
    { registers := fun _ => 7
      mainMemory := fun a => if a = 0 then 0x10 else if a = 2 then 0x01 else
        if a = 3 then 0x8c else 0
      tables := linear onePage }
  fileTable := fun _ => none
  world := ()
  log := []

/-- Behind the load, the pending value is for `r1`. -/
theorem register_file_invariant_load : ∃ k : Kernel Unit,
    ReflTransGen (UserStep .littleEndian) loading k ∧ k.machine.registers LoadReg = 1 ∧
    (k.machine.registers R0 = 0 ∧
      0 ≤ (k.machine.registers LoadReg).toInt ∧ (k.machine.registers LoadReg).toInt ≤ 31 ∧
      ∀ m', DelayedLoadAt .littleEndian k.machine m' → (m'.registers LoadReg).toNat < NumGPRegs ∧
        ∀ r : Reg, NumGPRegs ≤ r.val → m'.commitLoad.registers r = m'.registers r) := by
  have houtcome : ((Cpu.oneInstruction : Cpu .littleEndian Unit).run loading.machine).1 =
      .ok () := Transition.ok_of_toOption (by decide +kernel)
  have hrun : ReflTransGen (UserStep .littleEndian) loading _ :=
    .single (.instruction (Prod.ext houtcome rfl))
  exact ⟨_, hrun, by decide +kernel, register_file_invariant _ _ rfl hrun⟩

namespace Syscall

/-- The handler of an exception is kernel code. -/
theorem userSteps_exceptionHandler (env : Env W) (which : ExceptionType) (k : Kernel W) :
    ReflTransGen (UserStep host) k
      ((exceptionHandler env which : Sys host W true Unit).run k).2 :=
  ReflTransGen.mono (fun _ _ h => .handler h) k _
    ((exceptionHandler env which : Sys host W true Unit).confined k)

variable {env : Env W} {k k' : Kernel W} {ticks : List Bool}

/-- A round of `Machine::Run` that goes on consists of such steps. -/
theorem userSteps_round {due : Bool} (h : round host env due k = (.ok (), k')) :
    ReflTransGen (UserStep host) k k' := by
  have htick : ∀ k₁ : Kernel W, ReflTransGen (UserStep host) k₁
      (if due then { k₁ with machine := k₁.machine.delayedLoad 0 0 } else k₁) := by
    intro k₁
    split
    · exact .single (.interrupt k₁)
    · exact .refl
  unfold round at h
  cases hstep : (Cpu.oneInstruction : Cpu host Unit).run k.machine with
  | mk outcome m =>
    rw [hstep] at h
    cases outcome with
    | ok _ =>
      cases h
      exact .head (.instruction hstep) (htick _)
    | error trap =>
      cases trap with
      | abort => cases h
      | undefined => cases h
      | raise which badVAddr =>
        have hhandler : ReflTransGen (UserStep host) _ _ :=
          userSteps_exceptionHandler env which ({ k with machine := m }.enter badVAddr)
        have hraise : (raiseException env which badVAddr : Sys host W true Unit).run
            { k with machine := m } = (exceptionHandler env which : Sys host W true Unit).run
              ({ k with machine := m }.enter badVAddr) := rfl
        dsimp only at h
        rw [hraise] at h
        split at h
        · rename_i k₁ hrun
          cases h
          rw [hrun] at hhandler
          exact .head (.exception hstep) (hhandler.trans (htick k₁))
        · cases h

/-- The loop of `Machine::Run`, over any number of rounds. -/
theorem userSteps_runLoop (h : runLoop host env ticks k = (.ok (), k')) :
    ReflTransGen (UserStep host) k k' := by
  induction ticks generalizing k with
  | nil =>
    cases h
    exact .refl
  | cons due rest ih =>
    rw [runLoop] at h
    split at h
    · rename_i k₁ hround
      exact (userSteps_round hround).trans (ih h)
    · cases h

/-- However long a process has run, its register file is proper. -/
theorem proper_runLoop (sp : AddrSpace) (m : Machine) {start : Kernel W}
    (hstart : start.machine = sp.initRegisters m) (h : runLoop host env ticks start = (.ok (), k)) :
    k.machine.Proper :=
  proper_run (userSteps_runLoop h) (hstart ▸ proper_initRegisters sp m)

end Syscall

end Nachos
