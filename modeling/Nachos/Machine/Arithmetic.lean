import Nachos.Library.DoubleWord
import Nachos.Machine.Steps

/-!
# Arithmetic and logic instructions

`mipsAlu` is the MIPS-I definition of the arithmetic and logic instructions, on the fields of the
instruction word and the values of two registers; `codeAlu` is what the `switch` of `OneInstruction`
computes. They agree but for `OR`, which the source writes with `rs` on both sides, and for `SRL`
and `SRLV`, whose `tmp` is an `int`, so that the shift fills with the sign
(`alu_follows_mips_iff`).
-/

namespace Nachos

open DoubleWord Cpu

/-- What an arithmetic or logic instruction does: the register it writes and the value, or that it
overflows instead. -/
structure Alu where
  dest : BitVec 5
  result : BitVec 32
  overflow : Bool
  deriving DecidableEq, Repr

/-- A sum or difference that no 32-bit register can hold. -/
def outOfRange (v : Int) : Bool := v < -2147483648 || 2147483648 ≤ v

/-- The arithmetic and logic instructions as the MIPS-I defines them, on the values of the registers
`rs` and `rt`; `none` for the other instructions. -/
def mipsAlu (word rs rt : BitVec 32) : Option Alu :=
  let signed := (immediateField word).signExtend 32
  let unsigned := (immediateField word).setWidth 32
  let shamt := (shamtField word).toNat
  let amount := rs.toNat % 32
  let toRd (result : BitVec 32) : Option Alu := some ⟨rdField word, result, false⟩
  let toRt (result : BitVec 32) : Option Alu := some ⟨rtField word, result, false⟩
  match (decode word).opCode with
  | .ADD => some ⟨rdField word, rs + rt, outOfRange (rs.toInt + rt.toInt)⟩
  | .ADDI => some ⟨rtField word, rs + signed, outOfRange (rs.toInt + signed.toInt)⟩
  | .SUB => some ⟨rdField word, rs - rt, outOfRange (rs.toInt - rt.toInt)⟩
  | .ADDU => toRd (rs + rt)
  | .ADDIU => toRt (rs + signed)
  | .SUBU => toRd (rs - rt)
  | .AND => toRd (rs &&& rt)
  | .OR => toRd (rs ||| rt)
  | .XOR => toRd (rs ^^^ rt)
  | .NOR => toRd (~~~(rs ||| rt))
  | .ANDI => toRt (rs &&& unsigned)
  | .ORI => toRt (rs ||| unsigned)
  | .XORI => toRt (rs ^^^ unsigned)
  | .LUI => toRt (unsigned <<< 16)
  | .SLT => toRd (if rs.toInt < rt.toInt then 1 else 0)
  | .SLTI => toRt (if rs.toInt < signed.toInt then 1 else 0)
  | .SLTU => toRd (if rs.toNat < rt.toNat then 1 else 0)
  | .SLTIU => toRt (if rs.toNat < signed.toNat then 1 else 0)
  | .SLL => toRd (rt <<< shamt)
  | .SLLV => toRd (rt <<< amount)
  | .SRL => toRd (rt >>> shamt)
  | .SRLV => toRd (rt >>> amount)
  | .SRA => toRd (rt.sshiftRight shamt)
  | .SRAV => toRd (rt.sshiftRight amount)
  | _ => none

/-- The same instructions as the `switch` of `OneInstruction` computes them. -/
def codeAlu (instr : Instruction) (rs rt : BitVec 32) : Option Alu :=
  let extra := instr.extra
  let amount := (rs &&& 0x1f#32).toNat
  let toRd (result : BitVec 32) : Option Alu := some ⟨instr.rd, result, false⟩
  let toRt (result : BitVec 32) : Option Alu := some ⟨instr.rt, result, false⟩
  match instr.opCode with
  | .ADD => some ⟨instr.rd, rs + rt, !signsDiffer rs rt && signsDiffer rs (rs + rt)⟩
  | .ADDI => some ⟨instr.rt, rs + extra, !signsDiffer rs extra && signsDiffer extra (rs + extra)⟩
  | .SUB => some ⟨instr.rd, rs - rt, signsDiffer rs rt && signsDiffer rs (rs - rt)⟩
  | .ADDU => toRd (rs + rt)
  | .ADDIU => toRt (rs + extra)
  | .SUBU => toRd (rs - rt)
  | .AND => toRd (rs &&& rt)
  | .OR => toRd (rs ||| rs)
  | .XOR => toRd (rs ^^^ rt)
  | .NOR => toRd (~~~(rs ||| rt))
  | .ANDI => toRt (rs &&& (extra &&& 0xffff#32))
  | .ORI => toRt (rs ||| (extra &&& 0xffff#32))
  | .XORI => toRt (rs ^^^ (extra &&& 0xffff#32))
  | .LUI => toRt (extra <<< 16)
  | .SLT => toRd (if rs.slt rt then 1 else 0)
  | .SLTI => toRt (if rs.slt extra then 1 else 0)
  | .SLTU => toRd (if rs.ult rt then 1 else 0)
  | .SLTIU => toRt (if rs.ult extra then 1 else 0)
  | .SLL => toRd (rt <<< extra.toNat)
  | .SLLV => toRd (rt <<< amount)
  | .SRL | .SRA => toRd (rt.sshiftRight extra.toNat)
  | .SRLV | .SRAV => toRd (rt.sshiftRight amount)
  | _ => none

/-! ## The `switch` -/

variable {host : Host} {m m₁ : Machine} {instr : Instruction} {alu : Alu}

/-- The `switch` assigns the result and goes on behind the instruction, or raises the exception. -/
theorem execute_codeAlu
    (h : codeAlu instr (m.registers (gpr instr.rs)) (m.registers (gpr instr.rt)) = some alu) :
    (execute instr : Cpu host _).run m =
      if alu.overflow then (.error (.raise .OverflowException 0), m)
      else (.ok ⟨m.registers NextPCReg + 4, 0, 0⟩,
        m.writeRegister (gpr alu.dest) alu.result) := by
  have hite : ∀ (c : Bool) (dest : BitVec 5) (result pcAfter : BitVec 32),
      (if c = true then raise .OverflowException 0 else assign dest result pcAfter :
        Cpu host Next).run m =
      if c = true then (.error (.raise .OverflowException 0), m)
      else (.ok ⟨pcAfter, 0, 0⟩, m.writeRegister (gpr dest) result) := by
    intro c dest result pcAfter
    cases c <;> rfl
  obtain ⟨op, rs, rt, rd, extra⟩ := instr
  cases op
  all_goals cases h
  case ADD | ADDI | SUB => exact hite ..
  all_goals rfl

/-! ## Signs and overflow -/

/-- The test of `OneInstruction` for the sign bits of two words. -/
theorem signsDiffer_eq (a b : BitVec 32) : signsDiffer a b = (a.msb ^^ b.msb) := by
  have h := and_signBit_eq_zero_iff (a ^^^ b)
  rw [BitVec.msb_xor] at h
  unfold signsDiffer SIGN_BIT
  cases hx : (a.msb ^^ b.msb) <;> simp_all

/-- The test of `ADD`. -/
theorem add_overflow (a b : BitVec 32) :
    (!signsDiffer a b && signsDiffer a (a + b)) = outOfRange (a.toInt + b.toInt) := by
  have h : outOfRange (a.toInt + b.toInt) = a.saddOverflow b := by
    unfold outOfRange BitVec.saddOverflow
    rw [Bool.or_comm]
    rfl
  rw [h, BitVec.saddOverflow_eq, signsDiffer_eq, signsDiffer_eq]
  cases a.msb <;> cases b.msb <;> cases (a + b).msb <;> rfl

/-- The test of `ADDI`, which looks at the sign of the other operand. -/
theorem addi_overflow (a b : BitVec 32) :
    (!signsDiffer a b && signsDiffer b (a + b)) = outOfRange (a.toInt + b.toInt) := by
  rw [← add_overflow]
  simp only [signsDiffer_eq]
  cases a.msb <;> cases b.msb <;> cases (a + b).msb <;> rfl

/-- The test of `SUB`. -/
theorem sub_overflow (a b : BitVec 32) :
    (signsDiffer a b && signsDiffer a (a - b)) = outOfRange (a.toInt - b.toInt) := by
  have h : outOfRange (a.toInt - b.toInt) = a.ssubOverflow b := by
    unfold outOfRange BitVec.ssubOverflow
    rw [Bool.or_comm]
    rfl
  rw [h, BitVec.ssubOverflow_eq, signsDiffer_eq, signsDiffer_eq]
  cases a.msb <;> cases b.msb <;> cases (a - b).msb <;> rfl


/-! ## Operands -/

/-- The low half of a sign-extended operand. -/
theorem signExtend_and_mask (imm : BitVec 16) :
    imm.signExtend 32 &&& 0xffff#32 = imm.setWidth 32 := by
  have hlow : (imm.signExtend 32).setWidth 16 = imm := by
    apply BitVec.eq_of_toNat_eq
    rw [BitVec.toNat_setWidth, BitVec.toNat_signExtend, BitVec.toNat_setWidth]
    have := imm.isLt
    split <;> omega
  have h : imm.signExtend 32 &&& BitVec.ofNat 32 (2 ^ 16 - 1) = _ := and_ones _ (by decide)
  rw [hlow] at h
  exact h

/-- `LUI` shifts the bits out that the extension has filled in. -/
theorem signExtend_shiftLeft (imm : BitVec 16) :
    imm.signExtend 32 <<< 16 = imm.setWidth 32 <<< 16 := by
  apply BitVec.eq_of_toNat_eq
  rw [BitVec.toNat_shiftLeft, BitVec.toNat_shiftLeft, BitVec.toNat_signExtend,
    BitVec.toNat_setWidth, Nat.shiftLeft_eq, Nat.shiftLeft_eq]
  split <;> omega

/-- The shift amount in a register. -/
theorem amount_eq (rs : BitVec 32) : (rs &&& 0x1f#32).toNat = rs.toNat % 32 := by
  rw [BitVec.toNat_and]
  exact Nat.and_two_pow_sub_one_eq_mod rs.toNat 5

/-- A union is its first part when the second has no bit of its own. -/
theorem or_eq_left_iff (rs rt : BitVec 32) : rs = rs ||| rt ↔ rt &&& ~~~rs = 0 := by
  have hbit : ∀ i : Nat, ∀ hi : i < 32,
      (rs[i] = (rs ||| rt)[i] ↔ (rt &&& ~~~rs)[i] = (0 : BitVec 32)[i]) := by
    intro i hi
    simp only [BitVec.getElem_or, BitVec.getElem_and, BitVec.getElem_not]
    cases rs[i] <;> cases rt[i] <;> simp
  constructor
  · intro h
    ext i hi
    exact (hbit i hi).mp (by rw [← h])
  · intro h
    ext i hi
    exact (hbit i hi).mpr (by rw [h])

/-- The two right shifts fill with the same bits. -/
theorem sshiftRight_eq_ushiftRight_iff (x : BitVec 32) {k : Nat} (hk : k < 32) :
    x.sshiftRight k = x >>> k ↔ x.msb = false ∨ k = 0 := by
  constructor
  · intro h
    have hmsb := congrArg BitVec.msb h
    rw [BitVec.msb_sshiftRight, BitVec.msb_ushiftRight] at hmsb
    rcases Nat.eq_zero_or_pos k with h0 | h0
    · exact .inr h0
    · left
      simpa [h0] using hmsb
  · rintro (h | rfl)
    · exact BitVec.sshiftRight_eq_of_msb_false h
    · simp


/-! ## The comparison -/

/-- The operands on which the code computes what the MIPS-I defines: all of them, but for three
opcodes. -/
def Agrees (word rs rt : BitVec 32) : Prop :=
  match (decode word).opCode with
  | .OR => rdField word = 0 ∨ rt &&& ~~~rs = 0
  | .SRL => rdField word = 0 ∨ rt.msb = false ∨ shamtField word = 0
  | .SRLV => rdField word = 0 ∨ rt.msb = false ∨ rs.toNat % 32 = 0
  | _ => True

/-- The code agrees with the definition about the register and the overflow; the results differ
where `Agrees` says so. -/
theorem codeAlu_of_mipsAlu {word rs rt : BitVec 32} (h : mipsAlu word rs rt = some alu) :
    ∃ result, codeAlu (decode word) rs rt = some { alu with result } ∧
      ((alu.dest = 0 ∨ result = alu.result) ↔ Agrees word rs rt) ∧
      (alu.overflow = true → Agrees word rs rt) := by
  have hrd := decode_rd word
  have hrt := decode_rt word
  have himmediate := @extra_immediate word
  have hshamt : (decode word).opCode ∉ immediateOps → (decode word).opCode ∉ [OpCode.J, .JAL] →
      (decode word).extra.toNat = (shamtField word).toNat := by
    intro hspecial hjump
    rw [extra_shamt hspecial hjump, BitVec.toNat_setWidth, Nat.mod_eq_of_lt]
    exact lt_trans (shamtField word).isLt (by decide)
  unfold codeAlu Agrees
  unfold mipsAlu at h
  cases hop : (decode word).opCode
  all_goals
    rw [hop] at h
    cases h
  all_goals dsimp only
  case ADD =>
    rw [hrd, add_overflow]
    exact ⟨_, rfl, iff_of_true (.inr rfl) trivial, fun _ => trivial⟩
  case SUB =>
    rw [hrd, sub_overflow]
    exact ⟨_, rfl, iff_of_true (.inr rfl) trivial, fun _ => trivial⟩
  case ADDI =>
    rw [hrt, himmediate (by rw [hop]; decide) (by rw [hop]; decide), addi_overflow]
    exact ⟨_, rfl, iff_of_true (.inr rfl) trivial, fun _ => trivial⟩
  case ADDIU | SLTI | SLTIU =>
    rw [hrt, himmediate (by rw [hop]; decide) (by rw [hop]; decide)]
    refine ⟨_, rfl, iff_of_true (.inr ?_) trivial, fun _ => trivial⟩
    simp [BitVec.slt_eq_decide, BitVec.ult_eq_decide]
  case ANDI | ORI | XORI =>
    rw [hrt, himmediate (by rw [hop]; decide) (by rw [hop]; decide), signExtend_and_mask]
    exact ⟨_, rfl, iff_of_true (.inr rfl) trivial, fun _ => trivial⟩
  case LUI =>
    rw [hrt, himmediate (by rw [hop]; decide) (by rw [hop]; decide), signExtend_shiftLeft]
    exact ⟨_, rfl, iff_of_true (.inr rfl) trivial, fun _ => trivial⟩
  case SLL | SRA =>
    rw [hrd, hshamt (by rw [hop]; decide) (by rw [hop]; decide)]
    exact ⟨_, rfl, iff_of_true (.inr rfl) trivial, fun _ => trivial⟩
  case SLLV | SRAV =>
    rw [hrd, amount_eq]
    exact ⟨_, rfl, iff_of_true (.inr rfl) trivial, fun _ => trivial⟩
  case OR =>
    rw [hrd]
    refine ⟨_, rfl, ?_, fun h => by cases h⟩
    rw [BitVec.or_self, or_eq_left_iff]
  case SRL =>
    rw [hrd, hshamt (by rw [hop]; decide) (by rw [hop]; decide)]
    refine ⟨_, rfl, ?_, fun h => by cases h⟩
    rw [sshiftRight_eq_ushiftRight_iff rt (shamtField word).isLt]
    simp only [← BitVec.toNat_inj]
    rfl
  case SRLV =>
    rw [hrd, amount_eq]
    refine ⟨_, rfl, ?_, fun h => by cases h⟩
    rw [sshiftRight_eq_ushiftRight_iff rt (Nat.mod_lt _ (by decide))]
  all_goals
    rw [hrd]
    refine ⟨_, rfl, iff_of_true (.inr ?_) trivial, fun _ => trivial⟩
    simp [BitVec.slt_eq_decide, BitVec.ult_eq_decide]

/-- `OneInstruction` has done what the MIPS-I defines: it has raised `OverflowException` and written
no general register, or it has written the result to its register, unless that is `r0`, and no other
general register. -/
def Performed (alu : Alu) (m : Machine) (outcome : Except Trap Unit × Machine) : Prop :=
  if alu.overflow then
    outcome.1 = .error (.raise .OverflowException 0) ∧
      ∀ r : Reg, r.val < NumGPRegs → outcome.2.registers r = m.registers r
  else
    outcome.1 = .ok () ∧ outcome.2.registers R0 = 0 ∧
      ∀ r : Reg, r.val < NumGPRegs → r ≠ R0 →
        outcome.2.registers r = if r = gpr alu.dest then alu.result else m.registers r

/-- For every instruction word of an arithmetic or logic instruction, every register file and no
load pending, `OneInstruction` does what the MIPS-I defines if and only if it is not an `OR` with a
bit of `rt` that `rs` does not have, or a logical right shift of a negative word by a positive
amount, into a register other than `r0`. -/
theorem alu_follows_mips_iff {word : BitVec 32}
    (hfetch : (readMem (m.registers PCReg) 4 : Cpu host _).run m = (.ok word, m₁))
    (hload : m.registers LoadReg = 0)
    (halu : mipsAlu word (m.registers (gpr (rsField word))) (m.registers (gpr (rtField word))) =
      some alu) :
    Performed alu m ((oneInstruction : Cpu host _).run m) ↔
      Agrees word (m.registers (gpr (rsField word))) (m.registers (gpr (rtField word))) := by
  obtain ⟨tables, rfl⟩ := readMem_touched hfetch
  obtain ⟨result, hcode, hagrees, hoverflow⟩ := codeAlu_of_mipsAlu halu
  rw [← decode_rs, ← decode_rt] at hcode
  have hexecute := @execute_codeAlu host (m.touched tables) _ _ hcode
  unfold Performed
  cases h : alu.overflow with
  | true =>
    rw [h] at hexecute
    rw [oneInstruction_error hfetch hexecute]
    exact iff_of_true ⟨rfl, fun r _ => rfl⟩ (hoverflow h)
  | false =>
    rw [h] at hexecute
    rw [oneInstruction_ok hfetch hexecute, ← hagrees]
    have hload₂ : ((m.touched tables).writeRegister (gpr alu.dest) result).registers LoadReg =
        0 := by
      rw [Machine.writeRegister_of_ne _ _ (gpr_ne _ (by decide))]
      exact hload
    have hregs : ∀ r : Reg, r.val < NumGPRegs → r ≠ 0 →
        (((m.touched tables).writeRegister (gpr alu.dest) result).installed
          ⟨(m.touched tables).registers NextPCReg + 4, 0, 0⟩).registers r =
        if r = gpr alu.dest then result else m.registers r := by
      intro r hr h0
      rw [Machine.installed_gpr hload₂ hr h0, Machine.writeRegister_apply]
      rfl
    constructor
    · rintro ⟨-, -, hall⟩
      by_cases hdest : alu.dest = 0
      · exact .inl hdest
      · have hwritten := hall (gpr alu.dest) (gpr_lt _) (mt (gpr_eq_zero_iff _).mp hdest)
        rw [hregs _ (gpr_lt _) (mt (gpr_eq_zero_iff _).mp hdest), if_pos rfl, if_pos rfl]
          at hwritten
        exact .inr hwritten
    · intro hresult
      refine ⟨rfl, Machine.installed_zero .., fun r hr h0 => ?_⟩
      rw [hregs r hr h0]
      split
      · rename_i hrd
        rcases hresult with hdest | hresult
        · exact absurd (hrd.trans ((gpr_eq_zero_iff _).mpr hdest)) h0
        · exact hresult
      · rfl

/-- The registers `r1` and `r2`. -/
def twoRegisters (r1 r2 : BitVec 32) : Reg → BitVec 32 :=
  fun r => if r = gpr 1#5 then r1 else if r = gpr 2#5 then r2 else 0

/-- `ADD r3, r1, r2` adds. -/
theorem alu_follows_mips_add :
    Performed ⟨3, 5, false⟩ (loaded 0x00221820#32 (twoRegisters 2 3))
      ((oneInstruction : Cpu .littleEndian _).run
        (loaded 0x00221820#32 (twoRegisters 2 3))) :=
  (alu_follows_mips_iff (fetch_loaded _ _) rfl (by decide)).mpr trivial

/-- `OR r3, r1, r2` of 0 and 1 leaves 0 in `r3`, and `SRL r3, r2, 1` shifts the sign of a negative
word in. -/
theorem or_and_srl_deviate :
    (mipsAlu 0x00221825#32 0 1 = some ⟨3, 1, false⟩ ∧
      ∃ m', (oneInstruction : Cpu .littleEndian _).run
          (loaded 0x00221825#32 (twoRegisters 0 1)) = (.ok (), m') ∧ m'.registers 3 = 0) ∧
    mipsAlu 0x00021842#32 0 0x80000000#32 = some ⟨3, 0x40000000#32, false⟩ ∧
      ∃ m', (oneInstruction : Cpu .littleEndian _).run
          (loaded 0x00021842#32 (twoRegisters 0 0x80000000#32)) = (.ok (), m') ∧
        m'.registers 3 = 0xc0000000#32 := by
  refine ⟨⟨by decide, _, oneInstruction_ok (fetch_loaded _ _) rfl, by decide⟩,
    by decide, _, oneInstruction_ok (fetch_loaded _ _) rfl, by decide⟩

end Nachos
