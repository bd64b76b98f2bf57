import Nachos.Library.WordBytes
import Nachos.Machine.Precise

/-!
# One instruction, from fetch to the program counters

`OneInstruction` fetches a word, executes it and installs what it has left behind: the delayed load
and the program counters (`Machine.installed`). With no load pending, the registers behind a step
are those the `switch` has written, with `r0` back at zero. The opcode decides which field of the
instruction word `Decode` stores in `extra` (`decode_extra`).
-/

namespace Nachos

/-- A machine between two instructions: `r0` is zero and the load that is pending goes to a general
register. -/
structure Machine.Proper (m : Machine) : Prop where
  zero : m.registers R0 = 0
  load : (m.registers LoadReg).toNat < NumGPRegs

/-- The machine after the last lines of `OneInstruction`. -/
def Machine.installed (m : Machine) (next : Next) : Machine :=
  let m₁ := m.delayedLoad next.nextLoadReg next.nextLoadValue
  let m₂ := m₁.writeRegister PrevPCReg (m₁.registers PCReg)
  (m₂.writeRegister PCReg (m₂.registers NextPCReg)).writeRegister NextPCReg next.pcAfter

namespace Machine

variable {m : Machine} {next : Next}

/-- The program counters behind a step; every other register is left by `DelayedLoad`. -/
theorem installed_apply (m : Machine) (next : Next) (r : Reg) :
    (m.installed next).registers r =
      if r = NextPCReg then next.pcAfter
      else if r = PCReg then
        (m.delayedLoad next.nextLoadReg next.nextLoadValue).registers NextPCReg
      else if r = PrevPCReg then
        (m.delayedLoad next.nextLoadReg next.nextLoadValue).registers PCReg
      else (m.delayedLoad next.nextLoadReg next.nextLoadValue).registers r := by
  simp only [installed, writeRegister_apply]
  rfl

/-- Memory and the page table are left alone. -/
theorem installed_memory (m : Machine) (next : Next) :
    (m.installed next).mainMemory = m.mainMemory ∧ (m.installed next).tables = m.tables :=
  ⟨m.delayedLoad_mainMemory next.nextLoadReg next.nextLoadValue,
    m.delayedLoad_tables next.nextLoadReg next.nextLoadValue⟩

/-- With no load pending, `DelayedLoad` writes `r0` and the two registers of the next load. -/
theorem delayedLoad_of_none (hload : m.registers LoadReg = 0) {nextReg nextValue : BitVec 32}
    {r : Reg} (h0 : r ≠ 0) (hvalue : r ≠ LoadValueReg) (hreg : r ≠ LoadReg) :
    (m.delayedLoad nextReg nextValue).registers r = m.registers r := by
  rw [delayedLoad_apply, if_neg h0, if_neg hvalue, if_neg hreg, commitLoad_apply, hload, if_neg]
  exact fun h => h0 (Fin.ext h.symm)

/-- The instruction behind a step is the one that was to be next. -/
theorem installed_pc (hload : m.registers LoadReg = 0) :
    (m.installed next).registers PCReg = m.registers NextPCReg := by
  rw [installed_apply, if_neg (by decide), if_pos rfl,
    delayedLoad_of_none hload (by decide) (by decide) (by decide)]

/-- The instruction after that is the one the `switch` has chosen. -/
theorem installed_nextPC : (m.installed next).registers NextPCReg = next.pcAfter := by
  rw [installed_apply, if_pos rfl]

/-- The register of the load that is now pending. -/
theorem installed_loadReg : (m.installed next).registers LoadReg = next.nextLoadReg := by
  rw [installed_apply, if_neg (by decide), if_neg (by decide), if_neg (by decide),
    delayedLoad_apply, if_neg (by decide), if_neg (by decide), if_pos rfl]

/-- The value it brings. -/
theorem installed_loadValueReg :
    (m.installed next).registers LoadValueReg = next.nextLoadValue := by
  rw [installed_apply, if_neg (by decide), if_neg (by decide), if_neg (by decide),
    delayedLoad_apply, if_neg (by decide), if_pos rfl]

/-- The general registers behind a step. -/
theorem installed_gpr (hload : m.registers LoadReg = 0) {r : Reg} (hr : r.val < NumGPRegs)
    (h0 : r ≠ 0) : (m.installed next).registers r = m.registers r := by
  have hne : ∀ n : Reg, NumGPRegs ≤ n.val → r ≠ n := by
    rintro n hn rfl
    exact absurd hr (not_lt.mpr hn)
  rw [installed_apply, if_neg (hne _ (by decide)), if_neg (hne _ (by decide)),
    if_neg (hne _ (by decide)),
    delayedLoad_of_none hload h0 (hne _ (by decide)) (hne _ (by decide))]

/-- `r0` is zero behind every step. -/
theorem installed_zero (m : Machine) (next : Next) : (m.installed next).registers 0 = 0 := by
  simp only [installed, writeRegister_apply, delayedLoad_apply]
  rfl

end Machine

theorem gpr_eq_zero_iff (r : BitVec 5) : gpr r = 0 ↔ r = 0 := by
  rw [Fin.ext_iff, ← BitVec.toNat_inj]
  rfl

namespace Cpu

variable {host : Host} {α β : Type} {m m₁ m₂ : Machine} {word : BitVec 32} {next : Next}

/-- The instruction word at the program counter, if it can be read. -/
def fetched (host : Host) (m : Machine) : Option (BitVec 32) :=
  match translate m.tables (m.registers PCReg) 4 false with
  | .ok p _ => readBytes host m.mainMemory p 4
  | _ => none

/-- It is the word that `OneInstruction` reads. -/
theorem fetched_eq (host : Host) (m : Machine) :
    fetched host m = ((readMem (m.registers PCReg) 4 : Cpu host _).run m).1.toOption := by
  unfold fetched readMem
  dsimp only
  cases translate m.tables (m.registers PCReg) 4 false with
  | ok p tables =>
    dsimp only
    cases readBytes host m.mainMemory p 4 <;> rfl
  | fault which => rfl
  | abort => rfl

/-- A read leaves the registers and memory alone. -/
theorem readMem_touched {addr : BitVec 32} {size : Nat}
    (h : (readMem addr size : Cpu host _).run m = (.ok word, m₁)) :
    ∃ tables, m₁ = m.touched tables := by
  obtain ⟨tables, ht⟩ := (quiet_readMem : Quiet (readMem addr size : Cpu host _)) m
  exact ⟨tables, by rw [← ht, h]⟩

/-- An instruction that is fetched is executed. -/
theorem oneInstruction_fetched
    (hfetch : (readMem (m.registers PCReg) 4 : Cpu host _).run m = (.ok word, m₁)) :
    (oneInstruction : Cpu host _).run m =
      (execute (decode word) >>= install : Cpu host _).run m₁ :=
  Confined.run_bind_ok hfetch

/-- An instruction that leaves the `switch` by a `break`. -/
theorem oneInstruction_ok
    (hfetch : (readMem (m.registers PCReg) 4 : Cpu host _).run m = (.ok word, m₁))
    (hexecute : (execute (decode word) : Cpu host _).run m₁ = (.ok next, m₂)) :
    (oneInstruction : Cpu host _).run m = (.ok (), m₂.installed next) := by
  rw [oneInstruction_fetched hfetch, Confined.run_bind_ok hexecute]
  rfl

/-- An instruction that does not leave the `switch`. -/
theorem oneInstruction_error {trap : Trap}
    (hfetch : (readMem (m.registers PCReg) 4 : Cpu host _).run m = (.ok word, m₁))
    (hexecute : (execute (decode word) : Cpu host _).run m₁ = (.error trap, m₂)) :
    (oneInstruction : Cpu host _).run m = (.error trap, m₂) := by
  rw [oneInstruction_fetched hfetch, Confined.run_bind_error hexecute]

/-! ## What the `switch` leaves alone -/

/-- The program leaves the register alone. -/
def Keeps (r : Reg) (x : Cpu host α) : Prop := ∀ m, (x.run m).2.registers r = m.registers r

section Keeps

variable {r : Reg} {x : Cpu host α} {pcAfter : BitVec 32} {v addr : BitVec 32} {size : Nat}

/-- Programs that keep a register compose. -/
theorem Keeps.bind {f : α → Cpu host β} (hx : Keeps r x) (hf : ∀ a, Keeps r (f a)) :
    Keeps r (x >>= f) := by
  intro m
  have hm := hx m
  rw [Confined.run_bind]
  split
  · rename_i a m₁ hrun
    rw [hrun] at hm
    exact (hf a m₁).trans hm
  · rename_i e m₁ hrun
    rwa [hrun] at hm

/-- Quiet programs keep every register. -/
theorem Quiet.keeps (h : Quiet x) : Keeps r x := by
  intro m
  obtain ⟨tables, ht⟩ := h m
  rw [ht]
  rfl

/-- Both branches have to keep it. -/
theorem keeps_ite {c : Prop} [Decidable c] {y : Cpu host α} (hx : Keeps r x) (hy : Keeps r y) :
    Keeps r (if c then x else y) := by
  split
  · exact hx
  · exact hy

/-- Writing another register keeps it. -/
theorem keeps_setReg {r' : Reg} (hr : r ≠ r') : Keeps r (setReg r' v : Cpu host _) :=
  fun m => Machine.writeRegister_of_ne m v hr

theorem keeps_go : Keeps r (go pcAfter : Cpu host _) := fun _ => rfl

/-- Reading memory keeps it. -/
theorem keeps_readMem : Keeps r (readMem addr size : Cpu host _) :=
  fun m => congrFun (readMem_registers addr size m) r

/-- So does writing memory. -/
theorem keeps_writeMem {value : BitVec 32} : Keeps r (writeMem addr size value : Cpu host _) :=
  fun m => congrFun (writeMem_registers addr size value m) r

/-- Results go to the general registers. -/
theorem keeps_assign (hr : PCReg ≤ r) {r' : BitVec 5} :
    Keeps r (assign r' v pcAfter : Cpu host _) :=
  (keeps_setReg (gpr_ne r' (le_trans (by decide) hr))).bind fun _ => keeps_go

/-- Or to `hi` and `lo`. -/
theorem keeps_assignHiLo (hr : PCReg ≤ r) {hi lo : BitVec 32} :
    Keeps r (assignHiLo hi lo pcAfter : Cpu host _) :=
  (keeps_setReg (ne_of_gt (lt_of_lt_of_le (by decide) hr))).bind fun _ =>
    (keeps_setReg (ne_of_gt (lt_of_lt_of_le (by decide) hr))).bind fun _ => keeps_go

/-- An instruction field is the number of a general register, so the `switch` writes general
registers, `HiReg` and `LoReg` only. -/
theorem keeps_execute (hr : PCReg ≤ r) {instr : Instruction} :
    Keeps r (execute instr : Cpu host _) := by
  have hlink : r ≠ RetAddrReg := ne_of_gt (lt_of_lt_of_le (by decide) hr)
  refine quiet_reg.keeps.bind fun nextPC => quiet_reg.keeps.bind fun rs =>
    quiet_reg.keeps.bind fun rt => ?_
  dsimp only
  generalize instr.opCode = opCode
  cases opCode
  all_goals dsimp only
  case ADD | ADDI | SUB => exact keeps_ite quiet_stop.keeps (keeps_assign hr)
  case DIVU => exact keeps_ite (keeps_assignHiLo hr) (keeps_assignHiLo hr)
  case DIV =>
    exact keeps_ite (keeps_assignHiLo hr) (keeps_ite quiet_stop.keeps (keeps_assignHiLo hr))
  case BGEZAL | BLTZAL =>
    exact (keeps_setReg hlink).bind fun _ => quiet_reg.keeps.bind fun _ => keeps_go
  case JALR =>
    exact (keeps_setReg (gpr_ne _ (le_trans (by decide) hr))).bind fun _ =>
      quiet_reg.keeps.bind fun _ => keeps_go
  case JAL => exact (keeps_setReg hlink).bind fun _ => keeps_go
  case MTHI | MTLO =>
    exact (keeps_setReg (ne_of_gt (lt_of_lt_of_le (by decide) hr))).bind fun _ => keeps_go
  case MFHI | MFLO => exact quiet_reg.keeps.bind fun _ => keeps_assign hr
  case LB | LBU => exact keeps_readMem.bind fun _ => quiet_pure.keeps
  case LH | LHU | LW =>
    exact keeps_ite quiet_stop.keeps (keeps_readMem.bind fun _ => quiet_pure.keeps)
  case LWL | LWR =>
    refine Keeps.bind ?_ fun _ => quiet_pure.keeps
    refine quiet_assert.keeps.bind fun _ => keeps_readMem.bind fun _ =>
      quiet_reg.keeps.bind fun _ => ?_
    dsimp only
    split <;> exact quiet_reg.keeps.bind fun _ => quiet_pure.keeps
  case SB | SH | SW => exact keeps_writeMem.bind fun _ => keeps_go
  case SWL | SWR =>
    refine Keeps.bind ?_ fun _ => keeps_go
    exact quiet_assert.keeps.bind fun _ => keeps_readMem.bind fun _ => keeps_writeMem
  case MULT | MULTU => exact keeps_assignHiLo hr
  case BEQ | BGEZ | BGTZ | BLEZ | BLTZ | BNE | J | JR => exact keeps_go
  case SYSCALL | RES | UNIMP | RFE | SPECIAL | BCOND => exact quiet_stop.keeps
  all_goals exact keeps_assign hr

end Keeps

/-- An instruction that comes to its end has executed a word and installed the next. -/
theorem oneInstruction_cases (h : (oneInstruction : Cpu host _).run m = (.ok (), m₂)) :
    ∃ word tables next m₁,
      (readMem (m.registers PCReg) 4 : Cpu host _).run m = (.ok word, m.touched tables) ∧
      (execute (decode word) : Cpu host _).run (m.touched tables) = (.ok next, m₁) ∧
      m₂ = m₁.installed next := by
  obtain ⟨pc, m₀, hpc, hrest⟩ := Confined.ok_of_bind h
  cases hpc
  obtain ⟨word, m₁, hfetch, hrest⟩ := Confined.ok_of_bind hrest
  obtain ⟨next, m₃, hexecute, hinstall⟩ := Confined.ok_of_bind hrest
  obtain ⟨tables, rfl⟩ := readMem_touched hfetch
  cases hinstall
  exact ⟨word, tables, next, m₃, hfetch, hexecute, rfl⟩

/-- Whatever the instruction is, the next one is at `NextPCReg`. -/
theorem oneInstruction_pc (hload : m.registers LoadReg = 0)
    (h : (oneInstruction : Cpu host _).run m = (.ok (), m₂)) :
    m₂.registers PCReg = m.registers NextPCReg := by
  obtain ⟨word, tables, next, m₁, -, hexecute, rfl⟩ := oneInstruction_cases h
  have hkeeps : ∀ r : Reg, PCReg ≤ r → m₁.registers r = m.registers r := by
    intro r hr
    have := (keeps_execute hr : Keeps r (execute (decode word) : Cpu host _)) (m.touched tables)
    rwa [hexecute] at this
  rw [Machine.installed_pc ((hkeeps LoadReg (by decide)).trans hload), hkeeps _ (by decide)]

/-- A machine about to execute `raw`, with the given registers, the program counter 0 and one
page. -/
def loaded (raw : BitVec 32) (registers : Reg → BitVec 32) : Machine where
  registers := Function.update registers PCReg 0
  mainMemory := fun p => (hostWordBytes .littleEndian raw).getD p.toNat 0
  tables := linear onePage

/-- The instruction at address 0 is fetched. -/
theorem fetch_loaded (raw : BitVec 32) (registers : Reg → BitVec 32) :
    (readMem ((loaded raw registers).registers PCReg) 4 : Cpu .littleEndian _).run
        (loaded raw registers) =
      (.ok raw, (loaded raw registers).touched (linear [⟨0, 0, true, false, true, false⟩])) := by
  have hpc : (loaded raw registers).registers PCReg = 0 := by
    simp only [loaded, Function.update_self]
  have hword : wordToHost .littleEndian (hostWord .littleEndian
      ((loaded raw registers).mainMemory 0) ((loaded raw registers).mainMemory 1)
      ((loaded raw registers).mainMemory 2) ((loaded raw registers).mainMemory 3)) = raw :=
    WordBytes.wordOf_byteOf raw
  rw [hpc]
  exact congrArg (fun word => (Except.ok word, _)) hword

end Cpu

/-! ## The fields of an instruction -/

/-- Bits 25 to 21. -/
def rsField (word : BitVec 32) : BitVec 5 := word.extractLsb' 21 5

/-- Bits 20 to 16. -/
def rtField (word : BitVec 32) : BitVec 5 := word.extractLsb' 16 5

/-- Bits 15 to 11. -/
def rdField (word : BitVec 32) : BitVec 5 := word.extractLsb' 11 5

/-- The shift amount, bits 10 to 6. -/
def shamtField (word : BitVec 32) : BitVec 5 := word.extractLsb' 6 5

/-- The immediate operand, bits 15 to 0. -/
def immediateField (word : BitVec 32) : BitVec 16 := word.extractLsb' 0 16

/-- The index of a jump, bits 25 to 0. -/
def indexField (word : BitVec 32) : BitVec 26 := word.extractLsb' 0 26

/-- A field of a word is what a shift and a mask leave of it. -/
theorem setWidth_ushiftRight (word : BitVec 32) (start len : Nat) :
    (word >>> start).setWidth len = word.extractLsb' start len := by
  apply BitVec.eq_of_toNat_eq
  rw [BitVec.toNat_setWidth, BitVec.toNat_ushiftRight, BitVec.extractLsb'_toNat]

/-- The field `rs`. -/
theorem decode_rs (word : BitVec 32) : (decode word).rs = rsField word :=
  setWidth_ushiftRight word 21 5

/-- The field `rt`. -/
theorem decode_rt (word : BitVec 32) : (decode word).rt = rtField word :=
  setWidth_ushiftRight word 16 5

/-- The field `rd`. -/
theorem decode_rd (word : BitVec 32) : (decode word).rd = rdField word :=
  setWidth_ushiftRight word 11 5

/-- A mask of ones keeps the low bits. -/
theorem and_ones (x : BitVec 32) {k : Nat} (hk : k < 32) :
    x &&& BitVec.ofNat 32 (2 ^ k - 1) = (x.setWidth k).setWidth 32 := by
  have hpow : 2 ^ k < 2 ^ 32 := Nat.pow_lt_pow_right (by decide) hk
  apply BitVec.eq_of_toNat_eq
  have hmod : x.toNat % 2 ^ k < 2 ^ k := Nat.mod_lt _ (Nat.two_pow_pos k)
  rw [BitVec.toNat_and, BitVec.toNat_ofNat, Nat.mod_eq_of_lt (show 2 ^ k - 1 < 2 ^ 32 by omega),
    Nat.and_two_pow_sub_one_eq_mod, BitVec.toNat_setWidth, BitVec.toNat_setWidth,
    Nat.mod_eq_of_lt (lt_trans hmod hpow)]

/-- The sign extension of `Decode`. -/
theorem extend_immediate (imm : BitVec 16) :
    (if imm.setWidth 32 &&& 0x8000#32 ≠ 0 then imm.setWidth 32 ||| 0xffff0000#32
      else imm.setWidth 32) = imm.signExtend 32 := by
  have hwidth : (imm.setWidth 32).toNat = imm.toNat := by
    rw [BitVec.toNat_setWidth, Nat.mod_eq_of_lt (lt_trans imm.isLt (by decide))]
  have hbit : imm.setWidth 32 &&& 0x8000#32 = if imm.msb then 0x8000#32 else 0 := by
    rw [show (0x8000#32) = BitVec.twoPow 32 15 from rfl, BitVec.and_twoPow,
      BitVec.msb_eq_getLsbD_last, BitVec.getLsbD_setWidth]
    rfl
  apply BitVec.eq_of_toNat_eq
  rw [hbit, BitVec.toNat_signExtend, hwidth]
  cases imm.msb with
  | false => exact hwidth
  | true =>
    rw [if_pos (by decide), BitVec.toNat_or, hwidth, Nat.or_comm]
    exact (Nat.shiftLeft_add_eq_or_of_lt imm.isLt 0xffff).symm.trans (Nat.add_comm _ _)

/-- The opcodes with an immediate operand, those behind `BCOND` included. -/
def immediateOps : List OpCode :=
  [.BLTZ, .BGEZ, .BLTZAL, .BGEZAL, .BEQ, .BNE, .BLEZ, .BGTZ, .ADDI, .ADDIU, .SLTI, .SLTIU,
   .ANDI, .ORI, .XORI, .LUI, .LB, .LH, .LWL, .LW, .LBU, .LHU, .LWR, .SB, .SH, .SWL, .SW, .SWR,
   .UNIMP, .RES]

/-- An entry of `opTable`: the opcodes of one format. -/
theorem opTable_cases (i : Nat) :
    opTable.getD i ⟨.RES, .IFMT⟩ = ⟨.SPECIAL, .RFMT⟩ ∨
    opTable.getD i ⟨.RES, .IFMT⟩ = ⟨.BCOND, .IFMT⟩ ∨
    (∃ op ∈ immediateOps, opTable.getD i ⟨.RES, .IFMT⟩ = ⟨op, .IFMT⟩) ∨
    ∃ op ∈ [OpCode.J, .JAL], opTable.getD i ⟨.RES, .IFMT⟩ = ⟨op, .JFMT⟩ := by
  rcases Nat.lt_or_ge i 64 with hi | hi
  · revert i
    decide
  · have hnone : opTable[i]? = none := List.getElem?_eq_none hi
    rw [List.getD_eq_getElem?_getD, hnone]
    exact .inr (.inr (.inl ⟨.RES, by decide, rfl⟩))

theorem branchOpCode_mem (i : BitVec 32) : branchOpCode i ∈ immediateOps := by
  unfold branchOpCode
  split_ifs <;> decide

theorem specialTable_mem (i : Nat) : specialTable.getD i .RES ∈ specialTable := by
  rcases Nat.lt_or_ge i 64 with hi | hi
  · revert i
    decide
  · have hnone : specialTable[i]? = none := List.getElem?_eq_none hi
    rw [List.getD_eq_getElem?_getD, hnone]
    decide

/-- What `Decode` stores in `extra`, by the table the opcode comes from. -/
theorem decode_extra (word : BitVec 32) :
    ((decode word).opCode ∈ specialTable ∧
      (decode word).extra = (shamtField word).setWidth 32) ∨
    ((decode word).opCode ∈ immediateOps ∧
      (decode word).extra = (immediateField word).signExtend 32) ∨
    ((decode word).opCode ∈ [OpCode.J, .JAL] ∧
      (decode word).extra = (indexField word).setWidth 32) := by
  have himm := extend_immediate (immediateField word)
  rw [immediateField, ← setWidth_ushiftRight, BitVec.ushiftRight_zero,
    ← and_ones word (by decide)] at himm
  unfold decode
  rcases opTable_cases ((word >>> 26) &&& 0x3f#32).toNat with h | h | ⟨op, hop, h⟩ | ⟨op, hop, h⟩
  · refine .inl ?_
    dsimp only
    rw [h]
    refine ⟨specialTable_mem _, ?_⟩
    rw [shamtField, ← setWidth_ushiftRight]
    exact and_ones _ (by decide : 5 < 32)
  · refine .inr (.inl ?_)
    dsimp only
    rw [h]
    exact ⟨branchOpCode_mem _, himm⟩
  · refine .inr (.inl ?_)
    dsimp only
    rw [h]
    refine ⟨?_, himm⟩
    cases op <;> first | exact hop | exact absurd hop (by decide)
  · refine .inr (.inr ?_)
    dsimp only
    rw [h]
    refine ⟨?_, ?_⟩
    · cases op <;> first | exact hop | exact absurd hop (by decide)
    · rw [indexField, ← setWidth_ushiftRight, BitVec.ushiftRight_zero]
      exact and_ones _ (by decide : 26 < 32)

/-- The operand of an instruction with an immediate field. -/
theorem extra_immediate {word : BitVec 32} (hspecial : (decode word).opCode ∉ specialTable)
    (hjump : (decode word).opCode ∉ [OpCode.J, .JAL]) :
    (decode word).extra = (immediateField word).signExtend 32 := by
  rcases decode_extra word with ⟨hop, -⟩ | ⟨-, hextra⟩ | ⟨hop, -⟩
  · exact absurd hop hspecial
  · exact hextra
  · exact absurd hop hjump

/-- The operand of a shift by a constant amount. -/
theorem extra_shamt {word : BitVec 32} (himmediate : (decode word).opCode ∉ immediateOps)
    (hjump : (decode word).opCode ∉ [OpCode.J, .JAL]) :
    (decode word).extra = (shamtField word).setWidth 32 := by
  rcases decode_extra word with ⟨-, hextra⟩ | ⟨hop, -⟩ | ⟨hop, -⟩
  · exact hextra
  · exact absurd hop himmediate
  · exact absurd hop hjump

/-- The operand of a jump. -/
theorem extra_index {word : BitVec 32} (hspecial : (decode word).opCode ∉ specialTable)
    (himmediate : (decode word).opCode ∉ immediateOps) :
    (decode word).extra = (indexField word).setWidth 32 := by
  rcases decode_extra word with ⟨hop, -⟩ | ⟨hop, -⟩ | ⟨-, hextra⟩
  · exact absurd hop hspecial
  · exact absurd hop himmediate
  · exact hextra

end Nachos
