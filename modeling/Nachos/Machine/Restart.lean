import Nachos.Machine.Mapping
import Nachos.Machine.Steps
import Nachos.Userprog.Kernel

/-!
# Restarting an instruction

When `OneInstruction` raises an exception, nothing of the instruction has happened: memory, the
program counters and the registers are as before, but for the load that was pending, which
`RaiseException` brings to its end (`exceptions_precise`). The tables map what they mapped before,
so that the same word is fetched when the instruction is executed again.
-/

namespace Nachos

open Machine Cpu

/-! ## The register file between instructions -/

/-- `RaiseException` leaves nothing pending. -/
theorem proper_enter (m : Machine) (badVAddr : BitVec 32) : (m.enter badVAddr).Proper := by
  constructor
  · rw [Machine.enter, delayedLoad_apply, if_pos rfl]
  · rw [Machine.enter, delayedLoad_apply, if_neg (by decide), if_neg (by decide),
      if_pos rfl]
    decide

namespace Cpu

variable {host : Host} {α β : Type} {P : α → Prop} {x : Cpu host α} {pcAfter : BitVec 32}

/-- What the program returns, if it does, has the property. -/
def Returns (P : α → Prop) (x : Cpu host α) : Prop :=
  ∀ m a m', x.run m = (.ok a, m') → P a

theorem returns_bind {P : β → Prop} {f : α → Cpu host β} (hf : ∀ a, Returns P (f a)) :
    Returns P (x >>= f) := by
  intro m b m' h
  obtain ⟨a, m₁, -, hrest⟩ := Confined.ok_of_bind h
  exact hf a m₁ b m' hrest

theorem returns_stop {e : Trap} : Returns P (.stop e : Cpu host α) := by
  intro m a m' h
  cases h

theorem returns_ite {c : Prop} [Decidable c] {y : Cpu host α} (hx : Returns P x)
    (hy : Returns P y) : Returns P (if c then x else y) := by
  split
  · exact hx
  · exact hy

/-- The next load goes to a general register. -/
def LoadsGeneral (next : Next) : Prop := next.nextLoadReg.toNat < NumGPRegs

theorem loads_go : Returns LoadsGeneral (go pcAfter : Cpu host _) := by
  intro m next m' h
  cases h
  show (0 : BitVec 32).toNat < 32
  decide

/-- The field of an instruction is the number of a general register. -/
theorem setWidth_lt (rt : BitVec 5) : (rt.setWidth 32).toNat < NumGPRegs := by
  have := rt.isLt
  simp only [BitVec.toNat_setWidth, NumGPRegs]
  omega

theorem loads_load {rt : BitVec 5} {value : BitVec 32} :
    Returns LoadsGeneral (load rt value pcAfter : Cpu host _) := by
  intro m next m' h
  cases h
  exact setWidth_lt rt

theorem loads_assign {r : BitVec 5} {v : BitVec 32} :
    Returns LoadsGeneral (assign r v pcAfter : Cpu host _) :=
  returns_bind fun _ => loads_go

theorem loads_assignHiLo {hi lo : BitVec 32} :
    Returns LoadsGeneral (assignHiLo hi lo pcAfter : Cpu host _) :=
  returns_bind fun _ => returns_bind fun _ => loads_go

/-- No instruction leaves a load behind that goes elsewhere than to a general register. -/
theorem loads_execute {instr : Instruction} :
    Returns LoadsGeneral (execute instr : Cpu host _) := by
  refine returns_bind fun nextPC => returns_bind fun rs => returns_bind fun rt => ?_
  dsimp only
  generalize instr.opCode = opCode
  cases opCode
  all_goals dsimp only
  case ADD | ADDI | SUB => exact returns_ite returns_stop loads_assign
  case DIVU => exact returns_ite loads_assignHiLo loads_assignHiLo
  case DIV => exact returns_ite loads_assignHiLo (returns_ite returns_stop loads_assignHiLo)
  case BGEZAL | BLTZAL | JALR => exact returns_bind fun _ => returns_bind fun _ => loads_go
  case JAL | MTHI | MTLO | SB | SH | SW | SWL | SWR => exact returns_bind fun _ => loads_go
  case MFHI | MFLO => exact returns_bind fun _ => loads_assign
  case LB | LBU | LWL | LWR => exact returns_bind fun _ => loads_load
  case LH | LHU | LW => exact returns_ite returns_stop (returns_bind fun _ => loads_load)
  case MULT | MULTU => exact loads_assignHiLo
  case BEQ | BGEZ | BGTZ | BLEZ | BLTZ | BNE | J | JR => exact loads_go
  case SYSCALL | RES | UNIMP | RFE | SPECIAL | BCOND => exact returns_stop
  all_goals exact loads_assign

end Cpu

variable {host : Host} {m m' : Machine}

/-- An instruction that comes to its end leaves the register file proper. -/
theorem proper_oneInstruction
    (h : (Cpu.oneInstruction : Cpu host _).run m = (.ok (), m')) : m'.Proper := by
  obtain ⟨word, tables, next, m₁, -, hexecute, rfl⟩ := oneInstruction_cases h
  refine ⟨installed_zero .., ?_⟩
  rw [installed_loadReg]
  exact loads_execute _ _ _ hexecute

/-! ## Exceptions -/

/-- The registers after the first two lines of `RaiseException`. -/
theorem enter_apply (hm : m.Proper) (badVAddr : BitVec 32) (r : Reg) :
    (m.enter badVAddr).registers r =
      if r = 0 then 0 else if r = LoadValueReg then 0 else if r = LoadReg then 0
      else if r = BadVAddrReg then badVAddr
      else if r.val = (m.registers LoadReg).toNat then m.registers LoadValueReg
      else m.registers r := by
  have hload : (m.registers LoadReg).toNat ≠ BadVAddrReg.val :=
    ne_of_lt (lt_trans hm.load (by decide))
  rw [Machine.enter, delayedLoad_apply, commitLoad_apply,
    writeRegister_of_ne _ _ (show LoadReg ≠ BadVAddrReg by decide),
    writeRegister_of_ne _ _ (show LoadValueReg ≠ BadVAddrReg by decide),
    writeRegister_apply]
  by_cases hbad : r = BadVAddrReg
  · subst hbad
    rw [if_neg hload]
    rfl
  · rw [if_neg hbad, if_neg hbad]
    simp only [eq_comm]

/-- The registers that are neither the target of the load nor written by `RaiseException`. -/
theorem enter_kept (hm : m.Proper) (badVAddr : BitVec 32) {r : Reg}
    (hr : r ∉ [LoadReg, LoadValueReg, BadVAddrReg]) (hne : r.val ≠ (m.registers LoadReg).toNat) :
    (m.enter badVAddr).registers r = m.registers r := by
  simp only [List.mem_cons, List.not_mem_nil, or_false, not_or] at hr
  rw [enter_apply hm, if_neg hr.2.1, if_neg hr.1, if_neg hr.2.2, if_neg hne]
  split
  · rename_i h0
    rw [h0]
    exact hm.zero.symm
  · rfl

/-- An exception finds the machine as it was before the instruction, but for the load that was
pending, which has come to its end, and `BadVAddrReg`; and the instruction is fetched again with the
same outcome. -/
theorem exceptions_precise (hm : m.Proper) {which : ExceptionType} {badVAddr : BitVec 32}
    (h : (Cpu.oneInstruction : Cpu host _).run m = (.error (.raise which badVAddr), m')) :
    (m'.enter badVAddr).mainMemory = m.mainMemory ∧
    (∀ r ∈ [PCReg, NextPCReg, PrevPCReg, HiReg, LoReg],
      (m'.enter badVAddr).registers r = m.registers r) ∧
    (∀ r : Reg, r.val < NumGPRegs → r.val ≠ (m.registers LoadReg).toNat →
      (m'.enter badVAddr).registers r = m.registers r) ∧
    (∀ r : Reg, r.val = (m.registers LoadReg).toNat →
      (m'.enter badVAddr).registers r = if r = 0 then 0 else m.registers LoadValueReg) ∧
    (m'.enter badVAddr).registers LoadReg = 0 ∧
    (m'.enter badVAddr).registers BadVAddrReg = badVAddr ∧
    ((Cpu.readMem ((m'.enter badVAddr).registers PCReg) 4 : Cpu host _).run
      (m'.enter badVAddr)).1 = ((Cpu.readMem (m.registers PCReg) 4 : Cpu host _).run m).1 := by
  have hmapping := mapping_run (Cpu.oneInstruction : Cpu host _) m
  rw [h] at hmapping
  obtain ⟨tables, rfl⟩ := precise_oneInstruction m _ _ _ h
  have hm' : (m.touched tables).Proper := ⟨hm.zero, hm.load⟩
  have hcounters : ∀ r ∈ [PCReg, NextPCReg, PrevPCReg, HiReg, LoReg],
      ((m.touched tables).enter badVAddr).registers r = m.registers r := by
    intro r hr
    refine enter_kept hm' badVAddr ?_ (ne_of_gt (lt_of_lt_of_le hm.load ?_)) <;> revert r <;> decide
  have hgeneral : ∀ r : Reg, r.val < NumGPRegs → r ∉ [LoadReg, LoadValueReg, BadVAddrReg] := by
    decide
  refine ⟨delayedLoad_mainMemory .., hcounters, fun r hr hne => ?_, fun r hr => ?_, ?_, ?_,
    ?_⟩
  · exact enter_kept hm' badVAddr (hgeneral r hr) hne
  · have hspecial := hgeneral r (hr ▸ hm.load)
    simp only [List.mem_cons, List.not_mem_nil, or_false, not_or] at hspecial
    rw [enter_apply hm', if_neg hspecial.2.1, if_neg hspecial.1, if_neg hspecial.2.2,
      touched_registers, if_pos hr]
  · rw [enter_apply hm', if_neg (by decide), if_neg (by decide), if_pos rfl]
  · rw [enter_apply hm', if_neg (by decide), if_neg (by decide), if_neg (by decide), if_pos rfl]
  · rw [hcounters PCReg (by decide)]
    refine readMem_outcome _ _ (delayedLoad_mainMemory ..) ?_
    rw [Machine.enter, delayedLoad_tables]
    exact hmapping

/-- `LW r2, 4096(r0)` with a load of 7 into `r3` pending: the address is outside the page table, and
`r3` holds 7 when the kernel sees the exception. -/
theorem exceptions_precise_load : ∃ m',
    (Cpu.oneInstruction : Cpu .littleEndian _).run (Cpu.loaded 0x8c021000#32
      fun r => if r = LoadReg then 3 else if r = LoadValueReg then 7 else 0) =
      (.error (.raise .AddressErrorException 4096), m') ∧
    (m'.enter 4096).registers 3 = 7 ∧ (m'.enter 4096).registers PCReg = 0 ∧
    (m'.enter 4096).registers BadVAddrReg = 4096 := by
  refine ⟨_, oneInstruction_error (fetch_loaded _ _) rfl, ?_⟩
  obtain ⟨-, hcounters, -, htarget, -, hbad, -⟩ := exceptions_precise
    (m := Cpu.loaded 0x8c021000#32
      fun r => if r = LoadReg then 3 else if r = LoadValueReg then 7 else 0)
    ⟨rfl, by decide⟩ (oneInstruction_error (fetch_loaded _ _) rfl)
  exact ⟨htarget 3 rfl, hcounters PCReg (by decide), hbad⟩

end Nachos
