import Nachos.Machine.Restart
import Nachos.Userprog.Faults

/-!
# Interrupts and load delays

A load of `OneInstruction` reaches its register one instruction late, and an interrupt commits it
at once: `CheckIfDue` calls `DelayedLoad(0, 0)`. An instruction that neither reads nor writes the
register of the pending load does not notice. The loop of `Machine::Run` is compared with itself
without interrupts: `Early` relates a machine to one whose pending load may have been committed
already, every instruction without a hazard keeps the two together, and after it the register
files are equal again. The only trace is in `LoadValueReg` behind an `LWR` into `r0`, which merges
its word into the pending value even when that value goes to `r0`.
-/

namespace Nachos

open Machine

/-! ## Hazards -/

/-- The registers an instruction reads as operands. `LWL` and `LWR` also want the register they
load, but look for it in the pending load first; `OR` reads `rs` twice. -/
def Instruction.operands (instr : Instruction) : List Reg :=
  match instr.opCode with
  | .ADD | .ADDU | .AND | .BEQ | .BNE | .DIV | .DIVU | .MULT | .MULTU | .NOR | .SLLV | .SLT
  | .SLTU | .SRAV | .SRLV | .SUB | .SUBU | .XOR | .SB | .SH | .SW | .SWL | .SWR =>
    [gpr instr.rs, gpr instr.rt]
  | .ADDI | .ADDIU | .ANDI | .BGEZ | .BGEZAL | .BGTZ | .BLEZ | .BLTZ | .BLTZAL | .JALR | .JR
  | .LB | .LBU | .LH | .LHU | .LW | .LWL | .LWR | .MTHI | .MTLO | .OR | .ORI | .SLTI | .SLTIU
  | .XORI => [gpr instr.rs]
  | .SLL | .SRA | .SRL => [gpr instr.rt]
  | _ => []

/-- The general register an instruction writes directly, not by a delayed load. -/
def Instruction.target (instr : Instruction) : Option Reg :=
  match instr.opCode with
  | .ADD | .ADDU | .AND | .JALR | .MFHI | .MFLO | .NOR | .OR | .SLL | .SLLV | .SLT | .SLTU | .SRA
  | .SRAV | .SRL | .SRLV | .SUB | .SUBU | .XOR => some (gpr instr.rd)
  | .ADDI | .ADDIU | .ANDI | .LUI | .ORI | .SLTI | .SLTIU | .XORI => some (gpr instr.rt)
  | .BGEZAL | .BLTZAL | .JAL => some RetAddrReg
  | _ => none

/-- With `load` in `LoadReg`, a load into the register is pending. A load into `r0` is none. -/
def Pending (load : BitVec 32) (r : Reg) : Prop := load ≠ 0 ∧ load.toNat = r.val

instance (load : BitVec 32) (r : Reg) : Decidable (Pending load r) :=
  inferInstanceAs (Decidable (_ ∧ _))

/-- The instruction neither reads nor directly writes the register of the pending load. -/
def HazardFree (load : BitVec 32) (instr : Instruction) : Prop :=
  (∀ r ∈ instr.operands, ¬ Pending load r) ∧ ∀ r ∈ instr.target, ¬ Pending load r

instance (load : BitVec 32) (instr : Instruction) : Decidable (HazardFree load instr) :=
  inferInstanceAs (Decidable (_ ∧ _))

/-- The next instruction has no hazard. -/
def Machine.HazardFree (host : Host) (m : Machine) : Prop :=
  ∀ instr ∈ (Cpu.fetched host m).map decode, Nachos.HazardFree (m.registers LoadReg) instr

instance (host : Host) (m : Machine) : Decidable (m.HazardFree host) :=
  inferInstanceAs (Decidable (∀ instr ∈ (Cpu.fetched host m).map decode, _))

/-- An `LWR` into `r0` with no load into another register pending. -/
def MergesIntoZero (load : BitVec 32) (instr : Instruction) : Prop :=
  load = 0 ∧ instr.opCode = .LWR ∧ instr.rt = 0

/-- The next instruction is such an `LWR`. -/
def Machine.MergesIntoZero (host : Host) (m : Machine) : Prop :=
  ∃ instr ∈ (Cpu.fetched host m).map decode, Nachos.MergesIntoZero (m.registers LoadReg) instr

/-- A settled machine is proper. -/
theorem Machine.Settled.proper {m : Machine} (h : m.Settled) : m.Proper := by
  refine ⟨h.2.2, ?_⟩
  rw [h.1]
  decide

/-! ## Two machines -/

/-- Only general registers can be pending. -/
theorem not_pending_of_le {load : BitVec 32} (hload : load.toNat < NumGPRegs) {r : Reg}
    (h : 32 ≤ r.val) : ¬ Pending load r := by
  rintro ⟨-, hr⟩
  simp only [NumGPRegs] at hload
  omega

/-- The second machine is the first, except that its pending load may have been committed. `clean`
says that `r0` has not been written since the last `DelayedLoad`. -/
structure Early (load : BitVec 32) (clean : Prop) (m m' : Machine) : Prop where
  memory : m'.mainMemory = m.mainMemory
  tables : m'.tables = m.tables
  below : load.toNat < NumGPRegs
  loadReg : m.registers LoadReg = load
  loadReg' : m'.registers LoadReg = load ∨ m'.registers LoadReg = 0
  others : ∀ r, r ≠ LoadReg → r ≠ LoadValueReg → ¬ Pending load r →
    m'.registers r = m.registers r
  pending : load ≠ 0 → m'.registers LoadReg = load →
    m'.registers LoadValueReg = m.registers LoadValueReg
  committed : load ≠ 0 → m'.registers LoadReg = 0 → m'.registers LoadValueReg = 0 ∧
    ∀ r, Pending load r → m'.registers r = m.registers LoadValueReg
  zero : clean → m.registers R0 = 0

namespace Early

variable {load : BitVec 32} {clean clean' : Prop} {m m' : Machine}

theorem mono (h : Early load clean m m') (himp : clean' → clean) : Early load clean' m m' :=
  { h with zero := fun hc => h.zero (himp hc) }

/-- Table bits do not matter. -/
theorem touched (h : Early load clean m m') (tables : Tables) :
    Early load clean (m.touched tables) (m'.touched tables) :=
  { h with tables := rfl }

/-- A store goes to both machines. -/
theorem store (h : Early load clean m m') (p : Int) (bytes : List (BitVec 8)) :
    Early load clean (m.store p bytes) (m'.store p bytes) :=
  { h with memory := by simp only [Machine.store, h.memory] }

/-- A register that is not the target of the pending load, written in both. -/
theorem writeRegister (h : Early load clean m m') {r : Reg} (hload : r ≠ LoadReg)
    (hvalue : r ≠ LoadValueReg) (hr : ¬ Pending load r) (hclean : ¬ clean) (v : BitVec 32) :
    Early load clean (m.writeRegister r v) (m'.writeRegister r v) := by
  refine ⟨h.memory, h.tables, h.below, ?_, ?_, ?_, ?_, ?_, fun hc => absurd hc hclean⟩
  · rw [writeRegister_of_ne _ _ hload.symm, h.loadReg]
  · rw [writeRegister_of_ne _ _ hload.symm]
    exact h.loadReg'
  · intro r' h37 h38 hr'
    rw [writeRegister_apply, writeRegister_apply, h.others r' h37 h38 hr']
  · rw [writeRegister_of_ne _ _ hload.symm, writeRegister_of_ne _ _ hvalue.symm,
      writeRegister_of_ne _ _ hvalue.symm]
    exact h.pending
  · rw [writeRegister_of_ne _ _ hload.symm, writeRegister_of_ne _ _ hvalue.symm,
      writeRegister_of_ne _ _ hvalue.symm]
    intro hne hzero
    refine ⟨(h.committed hne hzero).1, ?_⟩
    intro r' hr'
    have hne' : r' ≠ r := fun heq => hr (heq ▸ hr')
    rw [writeRegister_of_ne _ _ hne']
    exact (h.committed hne hzero).2 r' hr'

/-- Committed loads are equal. -/
theorem commitLoad (h : Early load clean m m') {r : Reg} (h0 : r ≠ 0) (h37 : r ≠ LoadReg)
    (h38 : r ≠ LoadValueReg) : m'.commitLoad.registers r = m.commitLoad.registers r := by
  rw [commitLoad_apply, commitLoad_apply, h.loadReg]
  have hpos : (0 : BitVec 32).toNat ≠ r.val := fun heq => h0 (Fin.ext heq.symm)
  by_cases hr : Pending load r
  · rw [if_pos hr.2]
    rcases h.loadReg' with hload | hload
    · rw [hload, if_pos hr.2, h.pending hr.1 hload]
    · rw [hload, if_neg hpos, (h.committed hr.1 hload).2 r hr]
  · have hne : load.toNat ≠ r.val := by
      intro heq
      refine hr ⟨?_, heq⟩
      rintro rfl
      exact hpos heq
    rw [if_neg hne]
    rcases h.loadReg' with hload | hload
    · rw [hload, if_neg hne, h.others r h37 h38 hr]
    · rw [hload, if_neg hpos, h.others r h37 h38 hr]

/-- After the next `DelayedLoad` the register files differ in what is put into `LoadValueReg`
only. -/
theorem delayedLoad (h : Early load clean m m') (nextReg : BitVec 32) {v v' : BitVec 32} {r : Reg}
    (hr : r = LoadValueReg → v' = v) :
    (m'.delayedLoad nextReg v').registers r = (m.delayedLoad nextReg v).registers r := by
  rw [delayedLoad_apply, delayedLoad_apply]
  split_ifs with h0 h38 h37
  · rfl
  · exact hr h38
  · rfl
  · exact h.commitLoad h0 h37 h38

/-- On entry to the kernel the two machines are equal. -/
theorem enter (h : Early load clean m m') (badVAddr : BitVec 32) :
    m'.enter badVAddr = m.enter badVAddr := by
  have hbad := (h.mono False.elim).writeRegister (r := BadVAddrReg) (by decide) (by decide)
    (not_pending_of_le h.below (by decide)) id badVAddr
  have hregs : (m'.enter badVAddr).registers = (m.enter badVAddr).registers :=
    funext fun r => hbad.delayedLoad 0 fun _ => rfl
  unfold Machine.enter at hregs ⊢
  rw [delayedLoad_eq, hregs, delayedLoad_eq (m.writeRegister _ _), hbad.memory,
    hbad.tables]

end Early

/-- The machines agree after an instruction; `e` is the condition under which `LoadValueReg` may
be different. -/
structure Agree (e : Prop) (m m' : Machine) : Prop where
  memory : m'.mainMemory = m.mainMemory
  tables : m'.tables = m.tables
  others : ∀ r, r ≠ LoadValueReg → m'.registers r = m.registers r
  value : m'.registers LoadValueReg = m.registers LoadValueReg ∨ m.registers LoadReg = 0 ∧ e

namespace Agree

variable {e : Prop} {m m' : Machine}

theorem refl (e : Prop) (m : Machine) : Agree e m m := ⟨rfl, rfl, fun _ _ => rfl, .inl rfl⟩

/-- No interrupt comes in between. -/
theorem early (h : Agree e m m') (hm : m.Proper) : Early (m.registers LoadReg) True m m' where
  memory := h.memory
  tables := h.tables
  below := hm.load
  loadReg := rfl
  loadReg' := .inl (h.others LoadReg (by decide))
  others r _ h38 _ := h.others r h38
  pending hload _ := h.value.resolve_right fun hzero => hload hzero.1
  committed hload hzero := by
    rw [h.others LoadReg (by decide)] at hzero
    exact absurd hzero hload
  zero _ := hm.zero

/-- An interrupt commits the pending load of the second machine. -/
theorem early_delayedLoad (h : Agree e m m') (hm : m.Proper) :
    Early (m.registers LoadReg) True m (m'.delayedLoad 0 0) where
  memory := by rw [delayedLoad_mainMemory, h.memory]
  tables := by rw [delayedLoad_tables, h.tables]
  below := hm.load
  loadReg := rfl
  loadReg' := .inr (delayedLoad_apply ..)
  others r h37 h38 hr := by
    rw [delayedLoad_apply, commitLoad_apply, h.others LoadReg (by decide),
      if_neg h38, if_neg h37, h.others r h38]
    split_ifs with h0 heq
    · rw [h0]
      exact hm.zero.symm
    · -- the load goes to `r0`, which is another register
      have hzero : m.registers LoadReg = 0 := by
        by_contra hne
        exact hr ⟨hne, heq⟩
      rw [hzero] at heq
      exact absurd (Fin.ext heq.symm) h0
    · rfl
  pending hload hzero := by
    rw [delayedLoad_apply] at hzero
    exact absurd hzero.symm hload
  committed hload _ := by
    refine ⟨delayedLoad_apply .., ?_⟩
    intro r hr
    have h37 : r ≠ LoadReg := fun heq => not_pending_of_le hm.load (by rw [heq]; decide) hr
    have h38 : r ≠ LoadValueReg := fun heq => not_pending_of_le hm.load (by rw [heq]; decide) hr
    have h0 : r ≠ 0 := by
      rintro rfl
      exact hload (BitVec.eq_of_toNat_eq hr.2)
    rw [delayedLoad_apply, commitLoad_apply, h.others LoadReg (by decide),
      if_neg h0, if_neg h38, if_neg h37, if_pos hr.2]
    exact h.value.resolve_right fun hzero => hload hzero.1
  zero _ := hm.zero

end Agree

/-! ## One instruction -/

/-- What two runs of the `switch` hand to its end; `e` is the condition under which the values to
load may be different. -/
structure NextAlike (e : Prop) (next next' : Next) : Prop where
  pcAfter : next'.pcAfter = next.pcAfter
  nextLoadReg : next'.nextLoadReg = next.nextLoadReg
  value : next'.nextLoadValue = next.nextLoadValue ∨ next.nextLoadReg = 0 ∧ e

namespace Cpu

open Confined

variable {host : Host} {load : BitVec 32} {clean e : Prop} {v addr value pcAfter tmp : BitVec 32}
  {r rt : BitVec 5} {size : Nat} {m m' : Machine}

/-- Both read the same, unless it is pending. -/
theorem related_reg {r : Reg} (h37 : r ≠ LoadReg) (h38 : r ≠ LoadValueReg) :
    Related (Early load clean) (fun a b => ¬ Pending load r → b = a) (reg r : Cpu host _)
      (reg r) :=
  fun _ _ h => ⟨h.others r h37 h38, h⟩

/-- Both write a register that is not pending. -/
theorem related_setReg {r : Reg} (h37 : r ≠ LoadReg) (h38 : r ≠ LoadValueReg)
    (hr : ¬ Pending load r) (hclean : ¬ clean) :
    Related (Early load clean) (fun _ _ => True) (setReg r v : Cpu host _) (setReg r v) :=
  fun _ _ h => ⟨trivial, h.writeRegister h37 h38 hr hclean v⟩

/-- A general register is neither `LoadReg` nor `LoadValueReg`. -/
theorem related_gpr :
    Related (Early load clean) (fun a b => ¬ Pending load (gpr r) → b = a)
      (reg (gpr r) : Cpu host _) (reg (gpr r)) :=
  related_reg (gpr_ne _ (by decide)).symm (gpr_ne _ (by decide)).symm

/-- The same for a general register. -/
theorem related_setGpr (hr : ¬ Pending load (gpr r)) (hclean : ¬ clean) :
    Related (Early load clean) (fun _ _ => True) (setReg (gpr r) v : Cpu host _)
      (setReg (gpr r) v) :=
  related_setReg (gpr_ne _ (by decide)).symm (gpr_ne _ (by decide)).symm hr hclean

/-- Both read the same memory. -/
theorem related_readMem :
    Related (Early load clean) (fun a b => b = a) (readMem addr size : Cpu host _)
      (readMem addr size) := by
  intro m m' h
  simp only [readMem, h.tables, h.memory]
  split
  · exact ⟨rfl, h⟩
  · exact ⟨rfl, h⟩
  · split <;> exact ⟨rfl, h.touched _⟩

/-- Both write the same memory. -/
theorem related_writeMem :
    Related (Early load clean) (fun _ _ => True) (writeMem addr size value : Cpu host _)
      (writeMem addr size value) := by
  intro m m' h
  simp only [writeMem, h.tables]
  split
  · exact ⟨rfl, h⟩
  · exact ⟨rfl, h⟩
  · split
    · exact ⟨rfl, h.touched _⟩
    · exact ⟨trivial, (h.touched _).store _ _⟩

/-- Both pass the same `ASSERT`. -/
theorem related_assert {cond : Bool} :
    Related (Early load clean) (fun _ _ => cond = true) (assert cond : Cpu host _)
      (assert cond) := by
  cases cond
  · exact related_stop
  · exact related_pure rfl

/-- Both go on. -/
theorem related_go :
    Related (Early load clean) (NextAlike e) (go pcAfter : Cpu host _) (go pcAfter) :=
  related_pure ⟨rfl, rfl, .inl rfl⟩

/-- Both announce the same load. -/
theorem related_load {value' : BitVec 32} (h : value' = value ∨ rt.setWidth 32 = 0#32 ∧ e) :
    Related (Early load clean) (NextAlike e) (Cpu.load rt value pcAfter : Cpu host _)
      (Cpu.load rt value' pcAfter) :=
  related_pure ⟨rfl, rfl, h⟩

/-- Both assign to a register that is not pending. -/
theorem related_assign (hr : ¬ Pending load (gpr r)) (hclean : ¬ clean) :
    Related (Early load clean) (NextAlike e) (assign r v pcAfter : Cpu host _)
      (assign r v pcAfter) :=
  (related_setGpr hr hclean).bind fun _ _ _ => related_go

/-- Both assign to `hi` and `lo`. -/
theorem related_assignHiLo {hi lo : BitVec 32} (hload : load.toNat < NumGPRegs) (hclean : ¬ clean) :
    Related (Early load clean) (NextAlike e) (assignHiLo hi lo pcAfter : Cpu host _)
      (assignHiLo hi lo pcAfter) :=
  (related_setReg (by decide) (by decide) (not_pending_of_le hload (by decide)) hclean).bind
    fun _ _ _ => (related_setReg (by decide) (by decide) (not_pending_of_le hload (by decide))
      hclean).bind fun _ _ _ => related_go

/-- `SWL` and `SWR`. -/
theorem related_unalignedStore {rt : BitVec 32}
    {merge : BitVec 32 → BitVec 32 → BitVec 32 → BitVec 32} :
    Related (Early load clean) (fun _ _ => True) (unalignedStore tmp rt merge : Cpu host _)
      (unalignedStore tmp rt merge) := by
  refine related_assert.bind fun _ _ _ => related_readMem.bind fun value value' hvalue => ?_
  subst hvalue
  exact related_writeMem

/-- The register an `LWL` or `LWR` merges into, through the pending load or not. -/
def merged (m : Machine) (rt : BitVec 5) : BitVec 32 :=
  if m.registers LoadReg = rt.setWidth 32 then m.registers LoadValueReg else m.registers (gpr rt)

/-- The register of the pending load. -/
theorem pending_gpr_iff (hload : load ≠ 0) : Pending load (gpr rt) ↔ load = rt.setWidth 32 := by
  have hrt : (rt.setWidth 32).toNat = (gpr rt).val := by
    have := rt.isLt
    simp only [BitVec.toNat_setWidth, gpr]
    omega
  rw [Pending, ← hrt, BitVec.toNat_inj]
  exact and_iff_right hload

theorem setWidth_eq_zero_iff (rt : BitVec 5) : rt.setWidth 32 = (0 : BitVec 32) ↔ rt = 0 := by
  revert rt
  decide

/-- A load into another register than `r0` has the same value, committed or not; and so has `r0`
while a load into another register is pending. -/
theorem merged_eq (h : Early load clean m m') (hrt : ¬ (rt = 0 ∧ (load = 0 ∨ ¬ clean))) :
    merged m' rt = merged m rt := by
  have h37 : gpr rt ≠ LoadReg := (gpr_ne _ (by decide)).symm
  have h38 : gpr rt ≠ LoadValueReg := (gpr_ne _ (by decide)).symm
  unfold merged
  rw [h.loadReg]
  by_cases hload : load = 0
  · -- nothing is pending, and the register is not `r0`
    subst hload
    have hne : rt.setWidth 32 ≠ (0 : BitVec 32) :=
      fun heq => hrt ⟨(setWidth_eq_zero_iff rt).mp heq, .inl rfl⟩
    have hload' : m'.registers LoadReg = 0 := h.loadReg'.elim id id
    rw [hload', if_neg hne.symm, if_neg hne.symm]
    exact h.others _ h37 h38 fun hp => hp.1 rfl
  · by_cases hp : Pending load (gpr rt)
    · have heq : load = rt.setWidth 32 := (pending_gpr_iff hload).mp hp
      rw [if_pos heq]
      rcases h.loadReg' with hload' | hload'
      · rw [hload', if_pos heq, h.pending hload hload']
      · rw [hload', if_neg fun h0 => hload (heq.trans h0.symm)]
        exact (h.committed hload hload').2 _ hp
    · have hne : load ≠ rt.setWidth 32 := fun heq => hp ((pending_gpr_iff hload).mpr heq)
      rw [if_neg hne]
      rcases h.loadReg' with hload' | hload'
      · rw [hload', if_neg hne]
        exact h.others _ h37 h38 hp
      · rw [hload']
        split_ifs with h0
        · -- `r0` itself: the second machine has a cleared `LoadValueReg`
          have hrt0 : rt = 0 := (setWidth_eq_zero_iff rt).mp h0.symm
          have hclean : clean := by
            by_contra hclean
            exact hrt ⟨hrt0, .inr hclean⟩
          rw [(h.committed hload hload').1, hrt0]
          exact (h.zero hclean).symm
        · exact h.others _ h37 h38 hp

/-- `LWL` and `LWR`, which look at the pending load. -/
theorem related_unalignedLoad :
    Related (Early load clean)
      (fun p q => tmp &&& 3#32 = 0 ∧ q.2 = p.2 ∧
        (¬ (rt = 0 ∧ (load = 0 ∨ ¬ clean)) → q.1 = p.1))
      (unalignedLoad tmp rt : Cpu host _) (unalignedLoad tmp rt) := by
  refine related_assert.bind fun _ _ haligned => related_readMem.bind fun value value' hvalue => ?_
  subst hvalue
  intro m m' h
  have hrun : ∀ m : Machine, (do
      let loadReg ← reg LoadReg
      let old ← if loadReg = rt.setWidth 32 then reg LoadValueReg else reg (gpr rt)
      pure (old, value') : Cpu host (BitVec 32 × BitVec 32)).run m =
        (.ok (merged m rt, value'), m) := by
    intro m
    have hreg : (reg LoadReg : Cpu host _).run m = (.ok (m.registers LoadReg), m) := rfl
    rw [run_bind_ok hreg]
    unfold merged
    split <;> rfl
  rw [hrun m, hrun m']
  exact ⟨⟨by simpa using haligned, rfl, merged_eq h⟩, h⟩

/-- An aligned `LWL` loads the whole word. -/
theorem mergeLWL_aligned (h : tmp &&& 3#32 = 0) (old value : BitVec 32) :
    mergeLWL tmp old value = value := by
  rw [mergeLWL, h]
  rfl

/-- One `switch`, on a machine and on one whose pending load has been committed early. -/
theorem related_execute {instr : Instruction} (hload : load.toNat < NumGPRegs)
    (hfree : HazardFree load instr) :
    Related (Early load (instr.opCode = .LWR)) (NextAlike (MergesIntoZero load instr))
      (execute instr : Cpu host _) (execute instr) := by
  obtain ⟨opCode, rs, rt, rd, extra⟩ := instr
  refine (related_reg (by decide) (by decide)).bind fun nextPC nextPC' hpc => ?_
  refine related_gpr.bind fun a a' ha => ?_
  refine related_gpr.bind fun b b' hb => ?_
  obtain rfl := hpc (not_pending_of_le hload (by decide))
  obtain ⟨hread, hwrite⟩ := hfree
  have hhi : ¬ Pending load HiReg := not_pending_of_le hload (by decide)
  have hlo : ¬ Pending load LoReg := not_pending_of_le hload (by decide)
  dsimp only at ha hb ⊢
  cases opCode
  all_goals
    simp only [Instruction.operands, Instruction.target, List.mem_cons, List.not_mem_nil, or_false,
      forall_eq_or_imp, forall_eq, Option.mem_def, Option.some.injEq, forall_eq',
      false_implies, implies_true, reduceCtorEq] at hread hwrite
    dsimp only
  -- nothing is read, or the general registers are read after the link is written
  case J => exact related_go
  case SYSCALL | RES | UNIMP | RFE | SPECIAL | BCOND => exact related_stop
  case JAL =>
    exact (related_setReg (by decide) (by decide) hwrite (by decide)).bind fun _ _ _ => related_go
  case BGEZAL | BLTZAL =>
    refine (related_setReg (by decide) (by decide) hwrite (by decide)).bind fun _ _ _ => ?_
    refine related_gpr.bind fun c c' hc => ?_
    obtain rfl := hc hread
    exact related_go
  case JALR =>
    refine (related_setGpr hwrite (by decide)).bind fun _ _ _ => ?_
    refine related_gpr.bind fun c c' hc => ?_
    obtain rfl := hc hread
    exact related_go
  case LUI => exact related_assign hwrite (by decide)
  case MFHI | MFLO =>
    refine (related_reg (by decide) (by decide)).bind fun c c' hc => ?_
    obtain rfl := hc (by assumption)
    exact related_assign hwrite (by decide)
  -- `rt` is read
  case SLL | SRA | SRL =>
    obtain rfl := hb hread
    exact related_assign hwrite (by decide)
  -- both are read
  case ADD | SUB =>
    obtain rfl := ha hread.1
    obtain rfl := hb hread.2
    exact related_ite (fun _ => related_stop) fun _ => related_assign hwrite (by decide)
  case ADDU | AND | NOR | SLLV | SLT | SLTU | SRAV | SRLV | SUBU | XOR =>
    obtain rfl := ha hread.1
    obtain rfl := hb hread.2
    exact related_assign hwrite (by decide)
  case BEQ | BNE =>
    obtain rfl := ha hread.1
    obtain rfl := hb hread.2
    exact related_go
  case DIV =>
    obtain rfl := ha hread.1
    obtain rfl := hb hread.2
    exact related_ite (fun _ => related_assignHiLo hload (by decide)) fun _ =>
      related_ite (fun _ => related_stop) fun _ => related_assignHiLo hload (by decide)
  case DIVU =>
    obtain rfl := ha hread.1
    obtain rfl := hb hread.2
    exact related_ite (fun _ => related_assignHiLo hload (by decide)) fun _ =>
      related_assignHiLo hload (by decide)
  case MULT | MULTU =>
    obtain rfl := ha hread.1
    obtain rfl := hb hread.2
    exact related_assignHiLo hload (by decide)
  case SB | SH | SW =>
    obtain rfl := ha hread.1
    obtain rfl := hb hread.2
    exact related_writeMem.bind fun _ _ _ => related_go
  case SWL | SWR =>
    obtain rfl := ha hread.1
    obtain rfl := hb hread.2
    exact related_unalignedStore.bind fun _ _ _ => related_go
  -- `rs` is read
  all_goals obtain rfl := ha hread
  case ADDI => exact related_ite (fun _ => related_stop) fun _ => related_assign hwrite (by decide)
  case BGEZ | BGTZ | BLEZ | BLTZ | JR => exact related_go
  case MTHI | MTLO =>
    exact (related_setReg (by decide) (by decide) (by assumption) (by decide)).bind
      fun _ _ _ => related_go
  case LB | LBU =>
    refine related_readMem.bind fun c c' hc => ?_
    subst hc
    exact related_load (.inl rfl)
  case LH | LHU | LW =>
    refine related_ite (fun _ => related_stop) fun _ => related_readMem.bind fun c c' hc => ?_
    subst hc
    exact related_load (.inl rfl)
  case LWL =>
    refine related_unalignedLoad.bind fun p q hpq => ?_
    obtain ⟨old, value⟩ := p
    obtain ⟨old', value'⟩ := q
    obtain ⟨haligned, rfl, -⟩ := hpq
    refine related_load (.inl ?_)
    rw [mergeLWL_aligned haligned, mergeLWL_aligned haligned]
  case LWR =>
    refine related_unalignedLoad.bind fun p q hpq => ?_
    obtain ⟨old, value⟩ := p
    obtain ⟨old', value'⟩ := q
    obtain ⟨-, rfl, hold⟩ := hpq
    apply related_load
    by_cases hrt : rt = 0 ∧ load = 0
    · exact .inr ⟨(setWidth_eq_zero_iff rt).mpr hrt.1, hrt.2, rfl, hrt.1⟩
    · refine .inl (congrArg (mergeLWR _ · _) (hold fun h => hrt ⟨h.1, ?_⟩))
      exact h.2.resolve_right fun hclean => hclean rfl
  all_goals exact related_assign hwrite (by decide)

/-- Behind the instruction the machines agree. -/
theorem installed_agree (h : Early load clean m m') {next next' : Next}
    (hnext : NextAlike e next next') : Agree e (m.installed next) (m'.installed next') := by
  have hregs : ∀ r, r ≠ LoadValueReg →
      (m'.delayedLoad next'.nextLoadReg next'.nextLoadValue).registers r =
        (m.delayedLoad next.nextLoadReg next.nextLoadValue).registers r := by
    intro r hr
    rw [hnext.nextLoadReg]
    exact h.delayedLoad _ fun heq => absurd heq hr
  refine ⟨?_, ?_, ?_, ?_⟩
  · rw [(m.installed_memory _).1, (m'.installed_memory _).1, h.memory]
  · rw [(m.installed_memory _).2, (m'.installed_memory _).2, h.tables]
  · intro r hr
    rw [installed_apply, installed_apply, hregs r hr, hregs NextPCReg (by decide),
      hregs PCReg (by decide), hnext.pcAfter]
  · rw [installed_loadReg, installed_loadValueReg, installed_loadValueReg]
    exact hnext.value

/-- One instruction, on a machine and on one whose pending load has been committed early. -/
theorem oneInstruction_alike (h : Early (m.registers LoadReg) True m m')
    (hfree : m.HazardFree host) :
    (∃ n n', (oneInstruction : Cpu host Unit).run m = (.ok (), n) ∧
      (oneInstruction : Cpu host Unit).run m' = (.ok (), n') ∧ n.Proper ∧
      Agree (m.MergesIntoZero host) n n') ∨
    ∃ trap n n', (oneInstruction : Cpu host Unit).run m = (.error trap, n) ∧
      (oneInstruction : Cpu host Unit).run m' = (.error trap, n') ∧
      Early (m.registers LoadReg) False n n' := by
  have hpc : m'.registers PCReg = m.registers PCReg :=
    h.others PCReg (by decide) (by decide) (not_pending_of_le h.below (by decide))
  have hrun : ∀ m : Machine, (oneInstruction : Cpu host Unit).run m =
      (readMem (m.registers PCReg) 4 >>= fun raw => execute (decode raw) >>= install :
        Cpu host Unit).run m := fun _ => rfl
  rw [hrun m, hrun m', hpc]
  obtain ⟨hmatch, hearly⟩ := @related_readMem host _ _ (m.registers PCReg) 4 m m' h
  rcases hm : (readMem (m.registers PCReg) 4 : Cpu host _).run m with ⟨trap | raw, m₁⟩ <;>
    rcases hm' : (readMem (m.registers PCReg) 4 : Cpu host _).run m' with ⟨trap' | raw', m₁'⟩ <;>
    rw [hm, hm'] at hmatch hearly
  · obtain rfl : trap' = trap := hmatch
    exact .inr ⟨trap', m₁, m₁', run_bind_error hm, run_bind_error hm', hearly.mono False.elim⟩
  · exact hmatch.elim
  · exact hmatch.elim
  obtain rfl : raw' = raw := hmatch
  have hfetch : (fetched host m).map decode = some (decode raw') := by rw [fetched_eq, hm]; rfl
  rw [run_bind_ok hm, run_bind_ok hm']
  obtain ⟨hmatch, hearly⟩ := @related_execute host _ _ h.below (hfree _ hfetch) m₁ m₁'
    (hearly.mono fun _ => trivial)
  rcases hx : (execute (decode raw') : Cpu host _).run m₁ with ⟨trap | next, m₂⟩ <;>
    rcases hx' : (execute (decode raw') : Cpu host _).run m₁' with ⟨trap' | next', m₂'⟩ <;>
    rw [hx, hx'] at hmatch hearly
  · obtain rfl : trap' = trap := hmatch
    exact .inr ⟨trap', m₂, m₂', run_bind_error hx, run_bind_error hx', hearly.mono False.elim⟩
  · exact hmatch.elim
  · exact hmatch.elim
  · have hnext : NextAlike _ next next' := hmatch
    have hproper : (m₂.installed next).Proper :=
      ⟨m₂.installed_zero next, by rw [installed_loadReg]; exact loads_execute _ _ _ hx⟩
    refine .inl ⟨_, _, run_bind_ok hx, run_bind_ok hx', hproper, ?_⟩
    obtain ⟨hmem, htab, hothers, hvalue⟩ := installed_agree hearly hnext
    exact ⟨hmem, htab, hothers, hvalue.imp_right fun hz => ⟨hz.1, _, hfetch, hz.2⟩⟩

end Cpu

/-! ## The loop -/

namespace Syscall

variable {host : Host} {W : Type} {clean e : Prop} {k k' : Kernel W}

/-- The two kernels differ in the registers at most, as `Early` says. -/
structure Together (clean : Prop) (k k' : Kernel W) : Prop where
  fileTable : k'.fileTable = k.fileTable
  world : k'.world = k.world
  log : k'.log = k.log
  machine : Early (k.machine.registers LoadReg) clean k.machine k'.machine

/-- The same memory, the same program counters and the same state of the kernel. -/
structure SamePlace (k k' : Kernel W) : Prop where
  fileTable : k'.fileTable = k.fileTable
  world : k'.world = k.world
  log : k'.log = k.log
  memory : k'.machine.mainMemory = k.machine.mainMemory
  tables : k'.machine.tables = k.machine.tables
  pc : k'.machine.registers PCReg = k.machine.registers PCReg
  nextPC : k'.machine.registers NextPCReg = k.machine.registers NextPCReg
  prevPC : k'.machine.registers PrevPCReg = k.machine.registers PrevPCReg

/-- Machines that are together are at the same place. -/
theorem Together.samePlace (h : Together clean k k') : SamePlace k k' := by
  have hregs : ∀ r : Reg, 32 ≤ r.val → r ≠ LoadReg → r ≠ LoadValueReg →
      k'.machine.registers r = k.machine.registers r :=
    fun r hr h37 h38 => h.machine.others r h37 h38 (not_pending_of_le h.machine.below hr)
  exact ⟨h.fileTable, h.world, h.log, h.machine.memory, h.machine.tables,
    hregs _ (by decide) (by decide) (by decide), hregs _ (by decide) (by decide) (by decide),
    hregs _ (by decide) (by decide) (by decide)⟩

/-- No handler leaves a load pending. -/
theorem settled_run {α : Type} (x : Sys host W true α) (hk : k.machine.Settled) :
    (x.run k).2.machine.Settled := by
  refine Confined.invariant (P := fun s => s.machine.Settled) ?_ x hk
  intro s t hstep hs
  cases hstep with
  | result v => exact (@kept_access host W _ _ (.result s v) hs).settled hs
  | memory h hreg => exact (kept_access (.memory h hreg) hs).settled hs
  | trap badVAddr => exact enter_settled ..
  | fileTable table => exact hs
  | call c r => exact (@kept_access host W _ _ (.call s c r) hs).settled hs
  | advance h =>
    obtain ⟨hload, hvalue, hzero⟩ := hs
    exact ⟨(incrementR_apply ..).trans hload, (incrementR_apply ..).trans hvalue,
      (incrementR_apply ..).trans hzero⟩

/-- An interrupt that comes due, or none. -/
theorem together_tick (hmachine : Agree e k.machine k'.machine) (hk : k.machine.Proper)
    (hfile : k'.fileTable = k.fileTable) (hworld : k'.world = k.world) (hlog : k'.log = k.log)
    (due : Bool) :
    Together True k
      (if due then { k' with machine := k'.machine.delayedLoad 0 0 } else k') := by
  cases due with
  | false => exact ⟨hfile, hworld, hlog, hmachine.early hk⟩
  | true => exact ⟨hfile, hworld, hlog, hmachine.early_delayedLoad hk⟩

theorem Together.mono {clean' : Prop} (h : Together clean k k') (himp : clean' → clean) :
    Together clean' k k' :=
  { h with machine := h.machine.mono himp }

/-- What a round without an interrupt and one with or without leave behind. -/
structure Alike (e : Prop) (due : Bool) (p p' : Except Stop Unit × Kernel W) : Prop where
  outcome : p'.1 = p.1
  together : Together False p.2 p'.2
  proper : p.1 = .ok () → p.2.machine.Proper ∧ Together True p.2 p'.2
  agree : p.1 = .ok () → due = false → Agree e p.2.machine p'.2.machine

/-- Both stop. -/
theorem Alike.error {due : Bool} {stop : Stop} (h : Together False k k') :
    Alike e due (.error stop, k) (.error stop, k') :=
  ⟨rfl, h, (fun hok => by cases hok), (fun hok => by cases hok)⟩

/-- One round of the loop. -/
theorem round_alike (env : Env W) (h : Together True k k') (hfree : k.machine.HazardFree host)
    (due : Bool) :
    Alike (k.machine.MergesIntoZero host) due (round host env false k)
      (round host env due k') := by
  obtain ⟨hfile, hworld, hlog, hmachine⟩ := h
  rcases Cpu.oneInstruction_alike hmachine hfree with
    ⟨n, n', hn, hn', hproper, hagree⟩ | ⟨trap, n, n', hn, hn', hearly⟩
  · -- the instruction is executed
    have htick := @together_tick W _ { k with machine := n } { k' with machine := n' } hagree
      hproper hfile hworld hlog due
    unfold round
    rw [hn, hn']
    refine ⟨rfl, htick.mono False.elim, fun _ => ⟨hproper, htick⟩, ?_⟩
    rintro - rfl
    exact hagree
  cases trap with
  | abort | undefined =>
    unfold round
    rw [hn, hn']
    have hload : n.registers LoadReg = k.machine.registers LoadReg := hearly.loadReg
    exact .error ⟨hfile, hworld, hlog, hload.symm ▸ hearly⟩
  | raise which badVAddr =>
    -- the handler starts from the same kernel
    have henter : ({ k' with machine := n' } : Kernel W).enter badVAddr =
        ({ k with machine := n } : Kernel W).enter badVAddr := by
      simp only [Kernel.enter, hearly.enter badVAddr, hfile, hworld, hlog]
    have hraise : (raiseException env which badVAddr : Sys host W true Unit).run
          { k' with machine := n' } =
        (raiseException env which badVAddr : Sys host W true Unit).run
          { k with machine := n } := by
      exact congrArg (exceptionHandler env which).run henter
    have hsettled : ((raiseException env which badVAddr : Sys host W true Unit).run
        { k with machine := n }).2.machine.Settled :=
      settled_run (exceptionHandler env which) (enter_settled n badVAddr)
    unfold round
    rw [hn, hn']
    dsimp only
    rw [hraise]
    rcases hk₁ : (raiseException env which badVAddr : Sys host W true Unit).run
      { k with machine := n } with ⟨stop | _, k₁⟩ <;> rw [hk₁] at hsettled
    · have htick := together_tick (Agree.refl True k₁.machine) hsettled.proper rfl rfl rfl false
      exact .error (htick.mono False.elim)
    · have htick := together_tick (Agree.refl True k₁.machine) hsettled.proper rfl rfl rfl due
      refine ⟨rfl, htick.mono False.elim, fun _ => ⟨hsettled.proper, htick⟩, ?_⟩
      rintro - rfl
      exact Agree.refl _ _

/-- No instruction of the first `n` rounds without interrupts has a hazard. -/
def HazardFreeRun (host : Host) (env : Env W) (n : Nat) (k : Kernel W) : Prop :=
  ∀ j < n, ∀ k', runLoop host env (List.replicate j false) k = (.ok (), k') →
    k'.machine.HazardFree host

/-- Any number of rounds. -/
theorem runLoop_alike (env : Env W) (dues : List Bool) (hproper : k.machine.Proper)
    (h : Together True k k') (hfree : HazardFreeRun host env dues.length k) :
    Alike True true (runLoop host env (List.replicate dues.length false) k)
      (runLoop host env dues k') := by
  induction dues generalizing k k' with
  | nil => exact ⟨rfl, h.mono False.elim, fun _ => ⟨hproper, h⟩, fun _ hdue => by cases hdue⟩
  | cons due rest ih =>
    have hround := round_alike env h (hfree 0 (by simp) k rfl) due
    rw [List.length_cons, List.replicate_succ, runLoop, runLoop]
    rcases hk : round host env false k with ⟨stop | ⟨⟩, k₁⟩ <;>
      rcases hk' : round host env due k' with ⟨stop' | ⟨⟩, k₁'⟩ <;> rw [hk, hk'] at hround
    · cases hround.outcome
      exact .error hround.together
    · cases hround.outcome
    · cases hround.outcome
    · obtain ⟨hproper₁, htogether₁⟩ := hround.proper rfl
      refine ih hproper₁ htogether₁ ?_
      intro j hj k₂ hrun
      apply hfree (j + 1) (by simpa using hj) k₂
      rw [List.replicate_succ, runLoop, hk]
      exact hrun

/-- Interrupts between the instructions of a program without hazards change neither memory nor the
program counters, and behind the next instruction the register file is the same, except for
`LoadValueReg` behind an `LWR` into `r0`. -/
theorem interrupts_invisible (env : Env W) (k : Kernel W) (hproper : k.machine.Proper)
    (dues : List Bool) (hfree : HazardFreeRun host env (dues.length + 1) k) :
    ∃ outcome k₁ k₁',
      runLoop host env (List.replicate dues.length false) k = (outcome, k₁) ∧
      runLoop host env dues k = (outcome, k₁') ∧ SamePlace k₁ k₁' ∧
      (outcome = .ok () → ∃ outcome' k₂ k₂',
        round host env false k₁ = (outcome', k₂) ∧ round host env false k₁' = (outcome', k₂') ∧
        SamePlace k₂ k₂' ∧
        (outcome' = .ok () →
          ∀ r, r ≠ LoadValueReg ∨ ¬ k₁.machine.MergesIntoZero host →
            k₂'.machine.registers r = k₂.machine.registers r)) := by
  have hstart : Together True k k :=
    together_tick (Agree.refl True k.machine) hproper rfl rfl rfl false
  have hloop := runLoop_alike env dues hproper hstart fun j hj => hfree j (by omega)
  rcases hk₁ : runLoop host env (List.replicate dues.length false) k with ⟨outcome, k₁⟩
  rcases hk₁' : runLoop host env dues k with ⟨outcome', k₁'⟩
  rw [hk₁, hk₁'] at hloop
  obtain rfl : outcome' = outcome := hloop.outcome
  refine ⟨outcome', k₁, k₁', rfl, rfl, hloop.together.samePlace, ?_⟩
  rintro rfl
  have hlast := hfree dues.length (by omega) k₁ hk₁
  have hround := round_alike env (hloop.proper rfl).2 hlast false
  rcases hk₂ : round host env false k₁ with ⟨outcome, k₂⟩
  rcases hk₂' : round host env false k₁' with ⟨outcome', k₂'⟩
  rw [hk₂, hk₂'] at hround
  obtain rfl : outcome' = outcome := hround.outcome
  refine ⟨outcome', k₂, k₂', rfl, rfl, hround.together.samePlace, ?_⟩
  intro hok' r hr
  have hagree := hround.agree hok' rfl
  by_cases h38 : r = LoadValueReg
  · rw [h38]
    exact hagree.value.resolve_right fun hz => hr.elim (· h38) (· hz.2)
  · exact hagree.others r h38

/-- Three words at address 0 of an address space of one page. -/
def program (bytes : List Byte) : Kernel Unit where
  machine :=
    { registers := fun r => if r = NextPCReg then 4 else 0
      mainMemory := fun p => bytes.getD p.toNat 0
      tables := linear onePage }
  fileTable := fun _ => none
  world := ()
  log := []

/-- `LW r1, 8(r0)` and `ADDU r2, r3, r3`. -/
def loadAndAdd : Kernel Unit := program [8, 0, 0x01, 0x8c, 0x21, 0x10, 0x63, 0, 7, 0, 0, 0]

/-- `LW r0, 8(r3)` and `LWR r0, 8(r3)`. -/
def loadIntoZero : Kernel Unit := program [8, 0, 0x60, 0x8c, 8, 0, 0x60, 0x98, 0, 0xff, 0, 0]

/-- No load is pending at the start. -/
theorem program_proper (bytes : List Byte) : (program bytes).machine.Proper :=
  ⟨rfl, by show 0 < 32; omega⟩

/-- Two rounds without hazards. -/
theorem hazardFreeRun_two {env : Env W} (h₀ : k.machine.HazardFree host)
    (h₁ : (round host env false k).2.machine.HazardFree host) : HazardFreeRun host env 2 k := by
  intro j hj k' hrun
  obtain rfl | rfl : j = 0 ∨ j = 1 := by omega
  · cases hrun
    exact h₀
  · rw [List.replicate_one, runLoop] at hrun
    rcases hk : round host env false k with ⟨stop | ⟨⟩, k₁⟩ <;> rw [hk] at hrun h₁
    · cases hrun
    · cases hrun
      exact h₁

/-- An interrupt between a load and the next instruction. -/
theorem interrupts_invisible_load :
    (runLoop .littleEndian (answering 0) [true] loadAndAdd).1 = .ok () ∧
    ∃ outcome k₁ k₁',
      runLoop .littleEndian (answering 0) [false] loadAndAdd = (outcome, k₁) ∧
      runLoop .littleEndian (answering 0) [true] loadAndAdd = (outcome, k₁') ∧
      SamePlace k₁ k₁' ∧
      (outcome = .ok () → ∃ outcome' k₂ k₂',
        round .littleEndian (answering 0) false k₁ = (outcome', k₂) ∧
        round .littleEndian (answering 0) false k₁' = (outcome', k₂') ∧ SamePlace k₂ k₂' ∧
        (outcome' = .ok () →
          ∀ r, r ≠ LoadValueReg ∨ ¬ k₁.machine.MergesIntoZero .littleEndian →
            k₂'.machine.registers r = k₂.machine.registers r)) :=
  ⟨rfl, interrupts_invisible (answering 0) loadAndAdd (program_proper _) [true]
    (hazardFreeRun_two (by decide +kernel) (by decide +kernel))⟩

/-- The value of a load into `r0` is merged into by an `LWR` into `r0`, unless an interrupt has
come in between. -/
theorem interrupt_clears_load_into_zero :
    loadIntoZero.machine.Proper ∧
    HazardFreeRun .littleEndian (answering 0) 2 loadIntoZero ∧
    (runLoop .littleEndian (answering 0) [false, false] loadIntoZero).2.machine.registers
      LoadValueReg = 0xff00 ∧
    (runLoop .littleEndian (answering 0) [true, false] loadIntoZero).2.machine.registers
      LoadValueReg = 0 :=
  ⟨program_proper _, hazardFreeRun_two (by decide +kernel) (by decide +kernel), by decide +kernel,
    by decide +kernel⟩

end Syscall

end Nachos
