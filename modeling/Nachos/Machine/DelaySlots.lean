import Nachos.Library.DoubleWord
import Nachos.Machine.Steps

/-!
# Branches, jumps and their delay slot

A branch or jump does not change `PCReg` but what `NextPCReg` will be: the instruction behind it is
executed next in any case, and the one after that is the target or the second instruction behind
(`delay_slot`). `mipsBranch` is the MIPS-I definition of the branches and jumps. The source works on
`NextPCReg`, writes the link register before it tests the condition and lets the linking forms fall
through into the others.
-/

namespace Nachos

open DoubleWord

/-- What a branch or jump does: whether it is taken, where it goes then, and the register that gets
the return address. -/
structure Branch where
  taken : Bool
  target : BitVec 32
  link : Option (BitVec 5)
  deriving DecidableEq, Repr

/-- The branches and jumps as the MIPS-I defines them, on the address of the instruction and the
values of the registers `rs` and `rt`; `none` for the other instructions. -/
def mipsBranch (word pc rs rt : BitVec 32) : Option Branch :=
  let offset := pc + 4 + BitVec.ofInt 32 (4 * (immediateField word).toInt)
  let index := (indexField word).setWidth 32 <<< 2
  match (decode word).opCode with
  | .BEQ => some ⟨rs = rt, offset, none⟩
  | .BNE => some ⟨rs ≠ rt, offset, none⟩
  | .BGEZ => some ⟨0 ≤ rs.toInt, offset, none⟩
  | .BGEZAL => some ⟨0 ≤ rs.toInt, offset, some 31⟩
  | .BGTZ => some ⟨0 < rs.toInt, offset, none⟩
  | .BLEZ => some ⟨rs.toInt ≤ 0, offset, none⟩
  | .BLTZ => some ⟨rs.toInt < 0, offset, none⟩
  | .BLTZAL => some ⟨rs.toInt < 0, offset, some 31⟩
  | .J => some ⟨true, index, none⟩
  | .JAL => some ⟨true, index, some 31⟩
  | .JR => some ⟨true, rs, none⟩
  | .JALR => some ⟨true, rs, some (rdField word)⟩
  | _ => none

/-- The same instructions as the `switch` of `OneInstruction` computes them, from `NextPCReg`. -/
def codeBranch (instr : Instruction) (nextPC rs rt : BitVec 32) : Option Branch :=
  let offset := nextPC + indexToAddr instr.extra
  let index := ((nextPC + 4) &&& 0xf0000000#32) ||| indexToAddr instr.extra
  match instr.opCode with
  | .BEQ => some ⟨rs = rt, offset, none⟩
  | .BNE => some ⟨rs ≠ rt, offset, none⟩
  | .BGEZ => some ⟨rs &&& SIGN_BIT = 0, offset, none⟩
  | .BGEZAL => some ⟨rs &&& SIGN_BIT = 0, offset, some 31⟩
  | .BGTZ => some ⟨BitVec.slt 0 rs, offset, none⟩
  | .BLEZ => some ⟨BitVec.sle rs 0, offset, none⟩
  | .BLTZ => some ⟨rs &&& SIGN_BIT ≠ 0, offset, none⟩
  | .BLTZAL => some ⟨rs &&& SIGN_BIT ≠ 0, offset, some 31⟩
  | .J => some ⟨true, index, none⟩
  | .JAL => some ⟨true, index, some 31⟩
  | .JR => some ⟨true, rs, none⟩
  | .JALR => some ⟨true, rs, some instr.rd⟩
  | _ => none

/-- The linking forms that read `rs` read another register than the one they write. -/
def LinkApart (instr : Instruction) : Prop :=
  match instr.opCode with
  | .BGEZAL | .BLTZAL => instr.rs ≠ 31
  | .JALR => instr.rs ≠ instr.rd
  | _ => True

/-- The machine after the return address has been stored. -/
def Machine.linked (m : Machine) (link : Option (BitVec 5)) (value : BitVec 32) : Machine :=
  match link with
  | none => m
  | some l => m.writeRegister (gpr l) value

/-! ## The `switch` -/

variable {host : Host} {m m₁ : Machine} {instr : Instruction} {word pc : BitVec 32} {b : Branch}

/-- Different fields name different registers. -/
theorem gpr_inj {r r' : BitVec 5} (h : gpr r = gpr r') : r = r' :=
  BitVec.eq_of_toNat_eq (show (gpr r).val = (gpr r').val by rw [h])

/-- The `switch` stores the return address and chooses the instruction behind the delay slot. -/
theorem execute_codeBranch (hapart : LinkApart instr)
    (h : codeBranch instr (m.registers NextPCReg) (m.registers (gpr instr.rs))
      (m.registers (gpr instr.rt)) = some b) :
    (Cpu.execute instr : Cpu host _).run m =
      (.ok ⟨if b.taken then b.target else m.registers NextPCReg + 4, 0, 0⟩,
        m.linked b.link (m.registers NextPCReg + 4)) := by
  -- a link register is written before `rs` is read
  have hkeep : ∀ (l : BitVec 5) (v : BitVec 32), instr.rs ≠ l →
      (m.writeRegister (gpr l) v).registers (gpr instr.rs) = m.registers (gpr instr.rs) :=
    fun l v hne => Machine.writeRegister_of_ne m v fun heq => hne (gpr_inj heq)
  obtain ⟨op, rs, rt, rd, extra⟩ := instr
  cases op
  all_goals cases h
  case BGEZAL | BLTZAL =>
    have hrs := hkeep 31 (m.registers NextPCReg + 4) hapart
    dsimp only at hrs ⊢
    rw [← hrs]
    rfl
  case JALR =>
    have hrs := hkeep rd (m.registers NextPCReg + 4) hapart
    dsimp only at hrs ⊢
    rw [← hrs]
    rfl
  all_goals rfl

/-! ## The comparison -/

/-- The sign bit and the sign. -/
theorem and_signBit_eq_zero_iff_toInt (x : BitVec 32) : x &&& SIGN_BIT = 0 ↔ 0 ≤ x.toInt := by
  rw [SIGN_BIT, and_signBit_eq_zero_iff, BitVec.msb_eq_toInt, decide_eq_false_iff_not, not_lt]

/-- A distance in instructions, in bytes. -/
theorem indexToAddr_signExtend (imm : BitVec 16) :
    indexToAddr (imm.signExtend 32) = BitVec.ofInt 32 (4 * imm.toInt) := by
  rw [indexToAddr, BitVec.shiftLeft_eq_mul_twoPow, BitVec.ofInt_mul, BitVec.mul_comm]
  rfl

/-- Within the first 256 megabytes a jump goes where its index says. -/
theorem region_or {pc : BitVec 32} (hpc : pc.toNat < 268435456) (index : BitVec 32) :
    (pc &&& 0xf0000000#32) ||| index = index := by
  have hzero : pc &&& 0xf0000000#32 = 0#32 := by
    have hmask : (0xf0000000#32) = 15#32 <<< 28 := rfl
    ext i hi
    rw [BitVec.getElem_and, hmask, BitVec.getElem_shiftLeft]
    by_cases hlow : i < 28
    · simp [hlow]
    · have hbit : pc[i] = false := by
        rw [← BitVec.getLsbD_eq_getElem, ← BitVec.testBit_toNat]
        have hpow : 2 ^ 28 ≤ 2 ^ i := Nat.pow_le_pow_right (by decide) (not_lt.mp hlow)
        exact Nat.testBit_lt_two_pow (lt_of_lt_of_le hpc hpow)
      simp [hbit]
  rw [hzero, BitVec.zero_or]

/-- The code agrees with the definition on all branches and jumps. -/
theorem codeBranch_decode {rs rt : BitVec 32} (hpc : pc.toNat < 268435448)
    (hb : mipsBranch word pc rs rt = some b) :
    codeBranch (decode word) (pc + 4) rs rt = some b := by
  have himmediate (hspecial : (decode word).opCode ∉ specialTable)
      (hjump : (decode word).opCode ∉ [OpCode.J, .JAL]) :
      indexToAddr (decode word).extra = BitVec.ofInt 32 (4 * (immediateField word).toInt) := by
    rw [extra_immediate hspecial hjump, indexToAddr_signExtend]
  have hindex (hspecial : (decode word).opCode ∉ specialTable)
      (hbranch : (decode word).opCode ∉ immediateOps) :
      indexToAddr (decode word).extra = (indexField word).setWidth 32 <<< 2 := by
    rw [extra_index hspecial hbranch, indexToAddr]
  have hregion : (pc + 4 + 4).toNat < 268435456 := by
    rw [BitVec.toNat_add, BitVec.toNat_add, show (4 : BitVec 32).toNat = 4 from rfl]
    omega
  unfold codeBranch
  unfold mipsBranch at hb
  cases hop : (decode word).opCode
  all_goals
    rw [hop] at hb
    cases hb
  all_goals dsimp only
  case JALR => rw [decode_rd]
  case J | JAL => rw [region_or hregion, hindex (by rw [hop]; decide) (by rw [hop]; decide)]
  all_goals rw [himmediate (by rw [hop]; decide) (by rw [hop]; decide)]
  case BGEZ | BGEZAL => rw [decide_eq_decide.mpr (and_signBit_eq_zero_iff_toInt rs)]
  case BLTZ | BLTZAL =>
    rw [decide_eq_decide.mpr ((and_signBit_eq_zero_iff_toInt rs).not.trans not_le)]
  all_goals rfl

/-! ## Two steps -/

/-- A return address is stored in a general register. -/
theorem linked_of_ge (link : Option (BitVec 5)) (value : BitVec 32) {r : Reg}
    (hr : NumGPRegs ≤ r.val) : (m.linked link value).registers r = m.registers r := by
  cases link with
  | none => rfl
  | some l => exact Machine.writeRegister_of_ne _ _ (gpr_ne l hr)

/-- After a branch or jump the instruction behind it comes next; when that one is completed, the
target follows if the condition held, and the second instruction behind the branch if not. A linking
form has stored the address of that one, unless its link register is `r0`. -/
theorem delay_slot
    (hfetch : (Cpu.readMem (m.registers PCReg) 4 : Cpu host _).run m = (.ok word, m₁))
    (hload : m.registers LoadReg = 0)
    (hnext : m.registers NextPCReg = m.registers PCReg + 4)
    (hpc : (m.registers PCReg).toNat < 268435448) (hapart : LinkApart (decode word))
    (hb : mipsBranch word (m.registers PCReg) (m.registers (gpr (rsField word)))
      (m.registers (gpr (rtField word))) = some b) :
    ∃ m', (Cpu.oneInstruction : Cpu host _).run m = (.ok (), m') ∧
      m'.registers PCReg = m.registers PCReg + 4 ∧
      (∀ l, b.link = some l → l ≠ 0 → m'.registers (gpr l) = m.registers PCReg + 8) ∧
      ∀ m'', (Cpu.oneInstruction : Cpu host _).run m' = (.ok (), m'') →
        m''.registers PCReg = if b.taken then b.target else m.registers PCReg + 8 := by
  obtain ⟨tables, rfl⟩ := Cpu.readMem_touched hfetch
  have hcode := codeBranch_decode hpc hb
  rw [← decode_rs, ← decode_rt, ← hnext] at hcode
  have hexecute := @execute_codeBranch host (m.touched tables) _ _ hapart hcode
  have height : m.registers NextPCReg + 4 = m.registers PCReg + 8 := by
    rw [hnext, BitVec.add_assoc]
    rfl
  rw [Machine.touched_registers, height] at hexecute
  have hload₂ : ((m.touched tables).linked b.link (m.registers PCReg + 8)).registers LoadReg = 0 :=
    (linked_of_ge _ _ (by decide)).trans hload
  refine ⟨_, Cpu.oneInstruction_ok hfetch hexecute, ?_, ?_, ?_⟩
  · rw [Machine.installed_pc hload₂, linked_of_ge _ _ (by decide)]
    exact hnext
  · intro l hl hne
    rw [Machine.installed_gpr hload₂ (gpr_lt l) (mt (gpr_eq_zero_iff l).mp hne), hl]
    exact Machine.writeRegister_self ..
  · intro m'' hsecond
    rw [Cpu.oneInstruction_pc Machine.installed_loadReg hsecond, Machine.installed_nextPC]

/-- `BNE r1, r2, -1` at address 0, with different values: the delay slot is at 4, and the branch
goes back to itself. -/
theorem delay_slot_bne : ∃ m',
    (Cpu.oneInstruction : Cpu .littleEndian _).run (Cpu.loaded 0x1422ffff#32
      fun r => if r = 1 then 1 else if r = NextPCReg then 4 else 0) = (.ok (), m') ∧
    m'.registers PCReg = 4 ∧
    ∀ m'', (Cpu.oneInstruction : Cpu .littleEndian _).run m' = (.ok (), m'') →
      m''.registers PCReg = 0 := by
  obtain ⟨m', hrun, hpc, -, hsecond⟩ := @delay_slot .littleEndian _ _ _ ⟨true, 0, none⟩
    (Cpu.fetch_loaded 0x1422ffff#32
      fun r => if r = 1 then 1 else if r = NextPCReg then 4 else 0) rfl rfl (by decide) trivial
    (by decide)
  exact ⟨m', hrun, hpc, hsecond⟩

end Nachos
