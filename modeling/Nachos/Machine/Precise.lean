import Nachos.Machine.Mipssim

/-!
# Exceptions are raised before anything is written

When `OneInstruction` calls `RaiseException`, the instruction has written neither a register nor
memory: the machine differs from the one before the instruction in the `use` and `dirty` bits of
its table at most. A program that only looks at the machine (`Quiet`) may precede one that is
precise, and one that never raises (`Calm`) may follow it; every instruction is of that form.
-/

namespace Nachos.Cpu

variable {host : Host} {α β : Type} {x : Cpu host α} {f : α → Cpu host β} {r : Reg}
  {pcAfter : BitVec 32} {a : α} {addr value v tmp : BitVec 32} {size : Nat} {rt : BitVec 5}

/-- Whatever happens, only table bits change. -/
def Quiet (x : Cpu host α) : Prop := ∀ m, ∃ tables, (x.run m).2 = m.touched tables

/-- The program raises no exception. -/
def Calm (x : Cpu host α) : Prop :=
  ∀ m which badVAddr m', x.run m ≠ (.error (.raise which badVAddr), m')

/-- When the program raises an exception, only table bits have changed. -/
def Precise (x : Cpu host α) : Prop :=
  ∀ m which badVAddr m', x.run m = (.error (.raise which badVAddr), m') →
    ∃ tables, m' = m.touched tables

/-- Quiet programs are precise. -/
theorem Quiet.precise (h : Quiet x) : Precise x := by
  intro m which badVAddr m' hrun
  obtain ⟨tables, ht⟩ := h m
  exact ⟨tables, by rw [← ht, hrun]⟩

/-- So are calm ones. -/
theorem Calm.precise (h : Calm x) : Precise x :=
  fun m which badVAddr m' hrun => absurd hrun (h m which badVAddr m')

/-- Quiet programs may come first. -/
theorem Quiet.bind (hx : Quiet x) (hf : ∀ a, Precise (f a)) : Precise (x >>= f) := by
  intro m which badVAddr m' hrun
  obtain ⟨tables, ht⟩ := hx m
  rw [Confined.run_bind] at hrun
  split at hrun
  · rename_i a m₁ hm₁
    rw [hm₁] at ht
    obtain ⟨tables', ht'⟩ := hf a m₁ which badVAddr m' hrun
    refine ⟨tables', ?_⟩
    rw [ht', show m₁ = _ from ht]
    rfl
  · rename_i e m₁ hm₁
    cases hrun
    rw [hm₁] at ht
    exact ⟨tables, ht⟩

/-- Calm programs may come last. -/
theorem Precise.bind (hx : Precise x) (hf : ∀ a, Calm (f a)) : Precise (x >>= f) := by
  intro m which badVAddr m' hrun
  rw [Confined.run_bind] at hrun
  split at hrun
  · rename_i a m₁ _
    exact absurd hrun (hf a m₁ which badVAddr m')
  · rename_i e m₁ hm₁
    cases hrun
    exact hx m which badVAddr m' hm₁

/-- Calm programs compose. -/
theorem Calm.bind (hx : Calm x) (hf : ∀ a, Calm (f a)) : Calm (x >>= f) := by
  intro m which badVAddr m' hrun
  rw [Confined.run_bind] at hrun
  split at hrun
  · rename_i a m₁ _
    exact hf a m₁ which badVAddr m' hrun
  · rename_i e m₁ hm₁
    cases hrun
    exact hx m which badVAddr m' hm₁

/-! ## The primitives -/

/-- A value changes nothing. -/
theorem quiet_pure : Quiet (pure a : Cpu host α) := fun m => ⟨m.tables, rfl⟩

/-- Nor does a stop. -/
theorem quiet_stop {e : Trap} : Quiet (.stop e : Cpu host α) := fun m => ⟨m.tables, rfl⟩

/-- Reading a register is quiet. -/
theorem quiet_reg : Quiet (reg r : Cpu host _) := fun m => ⟨m.tables, rfl⟩

/-- `ReadMem` changes only the bits of the page table. -/
theorem quiet_readMem : Quiet (readMem addr size : Cpu host _) := by
  intro m
  simp only [readMem]
  split
  · exact ⟨m.tables, rfl⟩
  · exact ⟨m.tables, rfl⟩
  · split <;> exact ⟨_, rfl⟩

/-- `WriteMem` writes only when it does not raise. -/
theorem precise_writeMem : Precise (writeMem addr size value : Cpu host _) := by
  intro m which badVAddr m' hrun
  simp only [writeMem] at hrun
  split at hrun
  · cases hrun
  · cases hrun
    exact ⟨m.tables, rfl⟩
  · split at hrun <;> cases hrun

/-- A value raises nothing. -/
theorem calm_pure : Calm (pure a : Cpu host α) := fun _ _ _ _ h => by cases h

/-- Reading a register raises nothing. -/
theorem calm_reg : Calm (reg r : Cpu host _) := fun _ _ _ _ h => by cases h

/-- Writing a register raises nothing. -/
theorem calm_setReg : Calm (setReg r v : Cpu host _) :=
  fun _ _ _ _ h => by cases h

/-- Choosing the next instruction raises nothing. -/
theorem calm_go : Calm (go pcAfter : Cpu host _) := calm_pure

/-- Announcing a delayed load raises nothing. -/
theorem calm_load :
    Calm (load rt value pcAfter : Cpu host _) := calm_pure

/-- A result in a register raises nothing. -/
theorem calm_assign {r : BitVec 5} : Calm (assign r v pcAfter : Cpu host _) :=
  calm_setReg.bind fun _ => calm_go

/-- A result in `hi` and `lo` raises nothing. -/
theorem calm_assignHiLo {hi lo : BitVec 32} : Calm (assignHiLo hi lo pcAfter : Cpu host _) :=
  calm_setReg.bind fun _ => calm_setReg.bind fun _ => calm_go

/-- The end of `OneInstruction` raises nothing. -/
theorem calm_install {next : Next} : Calm (install next : Cpu host _) :=
  Calm.bind (fun _ _ _ _ h => by cases h) fun _ => calm_reg.bind fun _ =>
    calm_setReg.bind fun _ => calm_reg.bind fun _ => calm_setReg.bind fun _ => calm_setReg

/-- An `ASSERT` changes nothing. -/
theorem quiet_assert {cond : Bool} : Quiet (assert cond : Cpu host _) := by
  cases cond
  · exact quiet_stop
  · exact quiet_pure

/-- `LWL` and `LWR` raise before they change anything. -/
theorem precise_unalignedLoad : Precise (unalignedLoad tmp rt : Cpu host _) := by
  refine quiet_assert.bind fun _ => quiet_readMem.bind fun _ => quiet_reg.bind fun _ => ?_
  dsimp only
  split <;> exact quiet_reg.bind fun _ => calm_pure.precise

/-- `SWL` and `SWR` raise before they change anything. -/
theorem precise_unalignedStore {rt : BitVec 32}
    {merge : BitVec 32 → BitVec 32 → BitVec 32 → BitVec 32} :
    Precise (unalignedStore tmp rt merge : Cpu host _) :=
  quiet_assert.bind fun _ => quiet_readMem.bind fun _ => precise_writeMem

/-! ## Every instruction -/

/-- Both branches of a condition have to be precise. -/
theorem precise_ite {c : Prop} [Decidable c] {y : Cpu host α} (hx : Precise x) (hy : Precise y) :
    Precise (if c then x else y) := by
  split
  · exact hx
  · exact hy

/-- No instruction writes before it raises. -/
theorem precise_execute {instr : Instruction} : Precise (execute instr : Cpu host _) := by
  refine quiet_reg.bind fun nextPC => quiet_reg.bind fun rs => quiet_reg.bind fun rt => ?_
  dsimp only
  generalize instr.opCode = opCode
  cases opCode
  all_goals dsimp only
  case ADD | ADDI | SUB => exact precise_ite quiet_stop.precise calm_assign.precise
  case DIVU => exact precise_ite calm_assignHiLo.precise calm_assignHiLo.precise
  case DIV =>
    exact precise_ite calm_assignHiLo.precise
      (precise_ite quiet_stop.precise calm_assignHiLo.precise)
  case BGEZAL | BLTZAL | JALR =>
    exact (calm_setReg.bind fun _ => calm_reg.bind fun _ => calm_go).precise
  case JAL | MTHI | MTLO => exact (calm_setReg.bind fun _ => calm_go).precise
  case MFHI | MFLO => exact quiet_reg.bind fun _ => calm_assign.precise
  case LB | LBU => exact quiet_readMem.bind fun _ => calm_load.precise
  case LH | LHU | LW =>
    exact precise_ite quiet_stop.precise (quiet_readMem.bind fun _ => calm_load.precise)
  case LWL | LWR => exact precise_unalignedLoad.bind fun _ => calm_load
  case SB | SH | SW => exact precise_writeMem.bind fun _ => calm_go
  case SWL | SWR => exact precise_unalignedStore.bind fun _ => calm_go
  case MULT | MULTU => exact calm_assignHiLo.precise
  case BEQ | BGEZ | BGTZ | BLEZ | BLTZ | BNE | J | JR => exact calm_go.precise
  case SYSCALL | RES | UNIMP | RFE | SPECIAL | BCOND => exact quiet_stop.precise
  all_goals exact calm_assign.precise

/-- An instruction that raises an exception has written no register and no memory. -/
theorem precise_oneInstruction : Precise (oneInstruction : Cpu host _) :=
  quiet_reg.bind fun _ => quiet_readMem.bind fun _ =>
    precise_execute.bind fun _ => calm_install

end Nachos.Cpu
