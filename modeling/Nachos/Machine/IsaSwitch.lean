import Nachos.Machine.Endings
import Nachos.Machine.Isa
import Nachos.Machine.Multiply

/-!
# The `switch` of `OneInstruction` and the MIPS-I

Between fetching an instruction and installing what it leaves behind, `OneInstruction` executes the
`switch`. `Shows` relates the machine to the abstract one there, when no load is pending.
Wherever the source keeps to the definition (`Follows`), the `switch` does what the abstract machine
does: one lemma for each kind of instruction, put together in `simulated_execute`.
-/

namespace Nachos

open Machine

namespace Isa

/-! ## Where the simulator follows the definition -/

/-- The instruction has a meaning that the simulator gives it too. It is no branch in a delay slot
or at the end of the first 256 megabytes, no division without a quotient, no link register that is
read as well, none of the four accesses to unaligned words, and none of the cases of `OR`, `SRL` and
`SRLV` that the source gets wrong. -/
structure Follows (a : Isa) (word : BitVec 32) : Prop where
  agrees : Agrees word (a.gpr (rsField word)) (a.gpr (rtField word))
  apart : LinkApart (decode word)
  aligned : (decode word).opCode ∉ [OpCode.LWL, .LWR, .SWL, .SWR]
  divisor : (decode word).opCode ∈ [OpCode.DIV, .DIVU] → a.gpr (rtField word) ≠ 0
  quotient : (decode word).opCode = .DIV →
    ¬ (a.gpr (rsField word) = SIGN_BIT ∧ a.gpr (rtField word) = -1#32)
  slot : (mipsBranch word a.pc (a.gpr (rsField word)) (a.gpr (rtField word))).isSome →
    a.nextPC = a.pc + 4 ∧ a.pc.toNat < 268435448

/-- The opcodes with conditions of their own. -/
def delicateOps : List OpCode :=
  [.OR, .SRL, .SRLV, .LWL, .LWR, .SWL, .SWR, .DIV, .DIVU, .BGEZAL, .BLTZAL, .JALR, .BEQ, .BNE,
   .BGEZ, .BGTZ, .BLEZ, .BLTZ, .J, .JAL, .JR]

/-- The other opcodes are always as defined. -/
theorem follows_of_plain {a : Isa} {word : BitVec 32} (hop : (decode word).opCode ∉ delicateOps) :
    a.Follows word := by
  have hne : ∀ op ∈ delicateOps, (decode word).opCode ≠ op := fun op hmem heq => hop (heq ▸ hmem)
  refine ⟨?_, ?_, ?_, ?_, ?_, ?_⟩
  · unfold Agrees
    split
    · exact absurd ‹_› (hne _ (by decide))
    · exact absurd ‹_› (hne _ (by decide))
    · exact absurd ‹_› (hne _ (by decide))
    · trivial
  · unfold LinkApart
    split
    · exact absurd ‹_› (hne _ (by decide))
    · exact absurd ‹_› (hne _ (by decide))
    · exact absurd ‹_› (hne _ (by decide))
    · trivial
  · exact fun hmem =>
      hop ((by decide : [OpCode.LWL, .LWR, .SWL, .SWR] ⊆ delicateOps) hmem)
  · exact fun hmem => absurd ((by decide : [OpCode.DIV, .DIVU] ⊆ delicateOps) hmem) hop
  · exact fun heq => absurd heq (hne _ (by decide))
  · intro hbranch
    have hmem : (decode word).opCode ∈ delicateOps := by
      unfold mipsBranch at hbranch
      cases h : (decode word).opCode
      all_goals first | decide | (rw [h] at hbranch; cases hbranch)
    exact absurd hmem hop

/-! ## The relation -/

/-- The machine has no load pending that matters, and shows the state of the abstract one. -/
structure Shows (table : List TranslationEntry) (m : Machine) (a : Isa) : Prop where
  gpr : ∀ r : BitVec 5, r ≠ 0 → m.registers (Nachos.gpr r) = a.gpr r
  hi : m.registers HiReg = a.hi
  lo : m.registers LoReg = a.lo
  pc : m.registers PCReg = a.pc
  nextPC : m.registers NextPCReg = a.nextPC
  memory : userMemory m = a.memory
  mapping : m.tables.mapping = (linear table).mapping

/-! ## Loads of less than a word -/

/-- The sign is extended from the low part of a word. -/
theorem extend_low (v : BitVec 32) {low sign high : BitVec 32} (hsign : low &&& sign = sign)
    (hhigh : low ||| high = BitVec.allOnes 32) :
    (if v &&& sign ≠ 0 then v ||| high else v &&& low) =
      if (v &&& low) &&& sign ≠ 0 then (v &&& low) ||| high else v &&& low := by
  have hor : (v &&& low) ||| high = v ||| high := by
    ext i hi
    have hone : (low ||| high)[i] = true := by rw [hhigh, BitVec.getElem_allOnes]
    rw [BitVec.getElem_or] at hone
    rw [BitVec.getElem_or, BitVec.getElem_or, BitVec.getElem_and]
    revert hone
    cases v[i] <;> cases low[i] <;> cases high[i] <;> simp
  rw [BitVec.and_assoc, hsign, hor]

theorem extend_byte (v : BitVec 32) :
    (if v &&& 0x80#32 ≠ 0 then v ||| 0xffffff00#32 else v &&& 0xff#32) = extend 1 true v := by
  have hbyte : ∀ b : BitVec 8, (if b.setWidth 32 &&& 0x80#32 ≠ 0 then
      b.setWidth 32 ||| 0xffffff00#32 else b.setWidth 32) = b.signExtend 32 := by
    decide
  rw [extend_low v rfl rfl, show v &&& 0xff#32 = _ from and_ones v (by decide : 8 < 32)]
  exact hbyte _

theorem extend_half (v : BitVec 32) :
    (if v &&& 0x8000#32 ≠ 0 then v ||| 0xffff0000#32 else v &&& 0xffff#32) =
      extend 2 true v := by
  rw [extend_low v rfl rfl, show v &&& 0xffff#32 = _ from and_ones v (by decide : 16 < 32)]
  exact extend_immediate _

/-- `LW` loads the word as it is. -/
theorem extend_word (v : BitVec 32) : extend 4 false v = v := by
  show (v.setWidth 32).setWidth 32 = v
  rw [BitVec.setWidth_eq, BitVec.setWidth_eq]

variable {host : Host} {instr : Instruction}

/-- A misaligned read. -/
theorem readMem_misaligned {addr : BitVec 32} {size : Nat} (h : misaligned addr size = true)
    (m : Machine) : (Cpu.readMem addr size : Cpu host _).run m =
      (.error (.raise .AddressErrorException addr), m) := by
  simp [Cpu.readMem, translate, h]

/-- A load of `OneInstruction`. The alignment it tests is tested again by `Translate`, which raises
the same exception. -/
theorem execute_load {size : Nat} {signed : Bool} (h : mipsLoad instr.opCode = some (size, signed))
    (m : Machine) :
    (Cpu.execute instr : Cpu host _).run m =
      (Cpu.readMem (m.registers (Nachos.gpr instr.rs) + instr.extra) size >>= fun v =>
        Cpu.load instr.rt (extend size signed v) (m.registers NextPCReg + 4) :
          Cpu host _).run m := by
  have htest : ∀ (addr : BitVec 32) (size : Nat) (c : Prop) [Decidable c]
      (f : BitVec 32 → Cpu host Next),
      (c → misaligned addr size = true) →
      (if c then Cpu.raise .AddressErrorException addr else Cpu.readMem addr size >>= f :
        Cpu host Next).run m = (Cpu.readMem addr size >>= f).run m := by
    intro addr size c _ f hc
    split
    · rename_i hcond
      rw [Confined.run_bind_error (readMem_misaligned (hc hcond) m)]
      rfl
    · rfl
  obtain ⟨op, rs, rt, rd, extra⟩ := instr
  cases op
  all_goals cases h
  case LB => simp only [← extend_byte]; rfl
  case LBU =>
    simp only [show ∀ v, extend 1 false v = v &&& 0xff#32 from
      fun v => (and_ones v (by decide : 8 < 32)).symm]
    rfl
  case LH =>
    simp only [← extend_half]
    exact htest _ _ _ _ (by simp [misaligned])
  case LHU =>
    simp only [show ∀ v, extend 2 false v = v &&& 0xffff#32 from
      fun v => (and_ones v (by decide : 16 < 32)).symm]
    exact htest _ _ _ _ (by simp [misaligned])
  case LW =>
    simp only [extend_word]
    exact htest _ _ _ _ (by simp [misaligned])

variable {table : List TranslationEntry} {m m₁ : Machine} {a b : Isa} {r : BitVec 5}
  {v : BitVec 32}

theorem write_zero (a : Isa) (v : BitVec 32) : a.write 0 v = a := by
  refine Isa.ext (funext fun r => ?_) rfl rfl rfl rfl rfl rfl
  by_cases h0 : r = 0
  · rw [h0, (a.write 0 v).zero, a.zero]
  · exact a.write_of_ne v h0

/-- What is shown depends on the registers up to `NextPCReg` except `r0`, on user memory and on what
is mapped. -/
theorem Shows.congr (h : Shows table m a)
    (hregs : ∀ r : Reg, r ≠ 0 → r ≤ NextPCReg → m₁.registers r = m.registers r)
    (hmemory : userMemory m₁ = userMemory m) (hmapping : m₁.tables.mapping = m.tables.mapping) :
    Shows table m₁ a where
  gpr r h0 := (hregs _ (mt (gpr_eq_zero_iff r).mp h0)
    (Fin.le_def.mpr (le_of_lt (lt_trans (gpr_lt r) (by decide))))).trans (h.gpr r h0)
  hi := (hregs _ (by decide) (by decide)).trans h.hi
  lo := (hregs _ (by decide) (by decide)).trans h.lo
  pc := (hregs _ (by decide) (by decide)).trans h.pc
  nextPC := (hregs _ (by decide) (by decide)).trans h.nextPC
  memory := hmemory.trans h.memory
  mapping := hmapping.trans h.mapping

/-- A general register is written. -/
theorem Shows.write (h : Shows table m a) (r : BitVec 5) (v : BitVec 32) :
    Shows table (m.writeRegister (Nachos.gpr r) v) (a.write r v) where
  gpr r' h0 := by
    by_cases hr : r' = r
    · subst hr
      rw [writeRegister_self, a.write_self v h0]
    · rw [writeRegister_of_ne _ _ fun heq => hr (gpr_inj heq), a.write_of_ne v hr,
        h.gpr r' h0]
  hi := (writeRegister_of_ne _ _ (gpr_ne r (by decide))).trans h.hi
  lo := (writeRegister_of_ne _ _ (gpr_ne r (by decide))).trans h.lo
  pc := (writeRegister_of_ne _ _ (gpr_ne r (by decide))).trans h.pc
  nextPC := (writeRegister_of_ne _ _ (gpr_ne r (by decide))).trans h.nextPC
  memory := h.memory
  mapping := h.mapping

/-- A return address is stored. -/
theorem Shows.link (h : Shows table m a) (l : Option (BitVec 5)) (v : BitVec 32) :
    Shows table (m.linked l v) (a.link l v) := by
  cases l with
  | none => exact h
  | some r => exact h.write r v

/-- `HiReg` and `LoReg` are written. -/
theorem Shows.writeHiLo (h : Shows table m a) (hi lo : BitVec 32) :
    Shows table ((m.writeRegister LoReg lo).writeRegister HiReg hi) (a.writeHiLo hi lo) := by
  have hother : ∀ r : Reg, r ≠ HiReg → r ≠ LoReg →
      ((m.writeRegister LoReg lo).writeRegister HiReg hi).registers r = m.registers r := by
    intro r hhi hlo
    rw [writeRegister_of_ne _ _ hhi, writeRegister_of_ne _ _ hlo]
  exact ⟨fun r h0 =>
      (hother _ (gpr_ne r (by decide)).symm (gpr_ne r (by decide)).symm).trans (h.gpr r h0),
    writeRegister_self ..,
    (writeRegister_of_ne _ _ (by decide)).trans (writeRegister_self ..),
    (hother _ (by decide) (by decide)).trans h.pc,
    (hother _ (by decide) (by decide)).trans h.nextPC, h.memory, h.mapping⟩

/-! ## Memory -/

/-- A read of the simulator is a read of the array. -/
theorem readMem_read (hflat : Flat table) (h : Shows table m a) (addr : BitVec 32) {size : Nat}
    (hsize : size = 1 ∨ size = 2 ∨ size = 4) :
    (∃ v tables, a.read (accessFault table) addr size = .ok v ∧
      (Cpu.readMem addr size : Cpu host _).run m = (.ok v, m.touched tables) ∧
      Shows table (m.touched tables) a) ∨
    ∃ x, a.read (accessFault table) addr size = .error (x, addr) ∧
      (Cpu.readMem addr size : Cpu host _).run m = (.error (.raise x addr), m) := by
  obtain ⟨table', htables, hmap⟩ := linear_of_mapping h.mapping
  unfold Isa.read
  rw [← accessFault_congr hmap]
  cases hfault : accessFault table' addr size false with
  | some x => exact .inr ⟨x, rfl, (access_of_fault host htables hsize).1 hfault⟩
  | none =>
    obtain ⟨v, m', hrun, hread, -, huser⟩ :=
      readMem_of_allowed host htables (hflat.congr hmap) hsize hfault
    have hmapping := mapping_run (Cpu.readMem addr size : Cpu host _) m
    obtain ⟨tables, rfl⟩ := Cpu.readMem_touched hrun
    rw [hrun] at hmapping
    refine .inl ⟨v, tables, ?_, hrun, h.congr (fun _ _ _ => rfl) huser hmapping⟩
    rw [← h.memory, hread]
    rfl

/-- A write of the simulator is a write to the array. -/
theorem writeMem_store (hflat : Flat table) (h : Shows table m a) (addr : BitVec 32) {size : Nat}
    (hsize : size = 1 ∨ size = 2 ∨ size = 4) (value : BitVec 32) :
    (∃ m', a.store (accessFault table) addr size value = .ok (advance
        { a with memory := a.memory.write addr.toNat (littleEndianBytes value size) }
          (a.nextPC + 4) 0) ∧
      (Cpu.writeMem addr size value : Cpu host _).run m = (.ok (), m') ∧
      Shows table m'
        { a with memory := a.memory.write addr.toNat (littleEndianBytes value size) }) ∨
    ∃ x, a.store (accessFault table) addr size value = .error (x, addr) ∧
      (Cpu.writeMem addr size value : Cpu host _).run m = (.error (.raise x addr), m) := by
  obtain ⟨table', htables, hmap⟩ := linear_of_mapping h.mapping
  unfold Isa.store
  rw [← accessFault_congr hmap]
  cases hfault : accessFault table' addr size true with
  | some x => exact .inr ⟨x, rfl, (access_of_fault host htables hsize).2 hfault value⟩
  | none =>
    obtain ⟨m', hrun, huser, -⟩ :=
      writeMem_of_allowed host htables (hflat.congr hmap) hsize hfault value
    have hmapping := mapping_run (Cpu.writeMem addr size value : Cpu host _) m
    have hregs := @Cpu.writeMem_registers host addr size value m
    rw [hrun] at hmapping hregs
    refine .inl ⟨m', rfl, hrun, ?_⟩
    have hregs : ∀ r : Reg, m'.registers r = m.registers r := congrFun hregs
    exact ⟨fun r h0 => (hregs _).trans (h.gpr r h0), (hregs _).trans h.hi, (hregs _).trans h.lo,
      (hregs _).trans h.pc, (hregs _).trans h.nextPC, by rw [huser, h.memory],
      hmapping.trans h.mapping⟩

/-! ## The `switch` -/

/-- What the `switch` leaves behind is what the abstract machine does, once the load is
committed. -/
inductive Simulated (table : List TranslationEntry) (a : Isa) :
    Except Trap Next × Machine → Except Exception Isa → Prop where
  | ok {n : Machine} {b : Isa} (pcAfter : BitVec 32) (r : BitVec 5) (v : BitVec 32)
      (h : Shows table n b) : Simulated table a (.ok ⟨pcAfter, r.setWidth 32, v⟩, n)
        (.ok ((b.write r v).advance pcAfter r))
  | error {n : Machine} {x : ExceptionType} {v : BitVec 32} (h : Shows table n a) :
      Simulated table a (.error (.raise x v), n) (.error (x, v))

/-- An instruction that is no load. -/
theorem Simulated.go {n : Machine} (pcAfter : BitVec 32) (h : Shows table n b) :
    Simulated table a (.ok ⟨pcAfter, 0, 0⟩, n) (.ok (b.advance pcAfter 0)) := by
  have hgo := Simulated.ok (a := a) pcAfter 0 0 h
  rw [write_zero] at hgo
  exact hgo

/-- A load. -/
theorem simulated_load (hflat : Flat table) (h : Shows table m a) (addr : BitVec 32) {size : Nat}
    (hsize : size = 1 ∨ size = 2 ∨ size = 4) (signed : Bool) (r : BitVec 5) :
    Simulated table a ((Cpu.readMem addr size >>= fun v =>
        Cpu.load r (extend size signed v) (a.nextPC + 4) : Cpu host _).run m)
      (a.load (accessFault table) addr size signed r) := by
  unfold Isa.load
  rcases @readMem_read host _ _ _ hflat h addr _ hsize with
    ⟨v, tables, hread, hrun, hshows⟩ | ⟨x, hread, hrun⟩
  · rw [hread, Confined.run_bind_ok hrun]
    exact .ok _ _ _ hshows
  · rw [hread, Confined.run_bind_error hrun]
    exact .error h

/-- A store. -/
theorem simulated_store (hflat : Flat table) (h : Shows table m a) (addr : BitVec 32) {size : Nat}
    (hsize : size = 1 ∨ size = 2 ∨ size = 4) (value : BitVec 32) :
    Simulated table a ((Cpu.writeMem addr size value >>= fun _ =>
        Cpu.go (a.nextPC + 4) : Cpu host _).run m)
      (a.store (accessFault table) addr size value) := by
  rcases @writeMem_store host _ _ _ hflat h addr _ hsize value with
    ⟨m', hstore, hrun, hshows⟩ | ⟨x, hstore, hrun⟩
  · rw [hstore, Confined.run_bind_ok hrun]
    exact .go _ hshows
  · rw [hstore, Confined.run_bind_error hrun]
    exact .error h

/-- The words of `Mult` are those of the product. -/
theorem mult_eq (x y : BitVec 32) (signed : Bool) (p : BitVec 64)
    (h : operand x signed * operand y signed = p) :
    mult x y signed = (p.extractLsb' 32 32, p.extractLsb' 0 32) := by
  rw [← h, ← mult_operands, BitVec.extractLsb'_append_eq_left, BitVec.extractLsb'_append_eq_right]

theorem operand_signed (x : BitVec 32) : operand x true = x.signExtend 64 := by
  rw [operand, BitVec.signExtend, ofInt_toInt, Bool.true_and]

theorem operand_unsigned (x : BitVec 32) : operand x false = x.setWidth 64 := by
  rw [operand, Bool.false_and, if_neg (by decide), BitVec.ofNat_toNat]

variable {word : BitVec 32}

/-- A store of `OneInstruction`. -/
theorem execute_store {size : Nat} (h : mipsStore instr.opCode = some size) (m : Machine) :
    (Cpu.execute instr : Cpu host _).run m =
      (Cpu.writeMem (m.registers (Nachos.gpr instr.rs) + instr.extra) size
        (m.registers (Nachos.gpr instr.rt)) >>= fun _ =>
          Cpu.go (m.registers NextPCReg + 4) : Cpu host _).run m := by
  obtain ⟨op, rs, rt, rd, extra⟩ := instr
  cases op
  all_goals cases h
  all_goals rfl

/-- A multiplication, division or move to `HiReg` or `LoReg` that has a result. -/
theorem execute_hiLo {hi lo : BitVec 32}
    (hdivisor : instr.opCode ∈ [OpCode.DIV, .DIVU] → m.registers (Nachos.gpr instr.rt) ≠ 0)
    (hquotient : instr.opCode = .DIV → ¬ (m.registers (Nachos.gpr instr.rs) = SIGN_BIT ∧
      m.registers (Nachos.gpr instr.rt) = -1#32))
    (h : mipsHiLo instr.opCode (m.registers (Nachos.gpr instr.rs))
      (m.registers (Nachos.gpr instr.rt)) (m.registers HiReg) (m.registers LoReg) = some (hi, lo)) :
    (Cpu.execute instr : Cpu host _).run m =
      (.ok ⟨m.registers NextPCReg + 4, 0, 0⟩,
        (m.writeRegister LoReg lo).writeRegister HiReg hi) := by
  have hmult : ∀ {x y : BitVec 32} {signed : Bool} {p : BitVec 64},
      operand x signed * operand y signed = p →
      (Cpu.assignHiLo (mult x y signed).1 (mult x y signed).2 (m.registers NextPCReg + 4) :
        Cpu host _).run m = (.ok ⟨m.registers NextPCReg + 4, 0, 0⟩,
          (m.writeRegister LoReg (p.extractLsb' 0 32)).writeRegister HiReg
            (p.extractLsb' 32 32)) := by
    intro x y signed p hp
    rw [mult_eq x y signed p hp]
    rfl
  obtain ⟨op, rs, rt, rd, extra⟩ := instr
  cases op
  all_goals cases h
  case MULT => exact hmult (by rw [operand_signed, operand_signed])
  case MULTU => exact hmult (by rw [operand_unsigned, operand_unsigned])
  case DIV =>
    dsimp only at hdivisor hquotient
    refine Eq.trans (b := (Cpu.assignHiLo _ _ _ : Cpu host _).run m) ?_ rfl
    show Confined.run (if _ then _ else if _ then _ else _) m = _
    rw [if_neg (hdivisor (by decide)), if_neg (hquotient rfl)]
  case DIVU =>
    dsimp only at hdivisor
    refine Eq.trans (b := (Cpu.assignHiLo _ _ _ : Cpu host _).run m) ?_ rfl
    show Confined.run (if _ then _ else _) m = _
    rw [if_neg (hdivisor (by decide))]
  case MTHI =>
    have hlo : m.writeRegister LoReg (m.registers LoReg) = m := by
      simp only [Machine.writeRegister, Function.update_eq_self]
    rw [hlo]
    rfl
  case MTLO =>
    have hhi : ∀ v, (m.writeRegister LoReg v).writeRegister HiReg (m.registers HiReg) =
        m.writeRegister LoReg v := by
      intro v
      rw [← writeRegister_of_ne m v (show HiReg ≠ LoReg by decide)]
      simp only [Machine.writeRegister, Function.update_eq_self]
    rw [hhi]
    rfl

/-- With `r0` zero, all general registers are shown. -/
theorem Shows.register (h : Shows table m a) (hzero : m.registers R0 = 0) (r : BitVec 5) :
    m.registers (Nachos.gpr r) = a.gpr r := by
  by_cases h0 : r = 0
  · rw [h0, a.zero]
    exact hzero
  · exact h.gpr r h0

/-- An instruction by its opcode. -/
theorem execute_opCode {op : OpCode} (h : instr.opCode = op) :
    (Cpu.execute instr : Cpu host _) =
      Cpu.execute ⟨op, instr.rs, instr.rt, instr.rd, instr.extra⟩ := by
  subst h
  rfl

/-- The loads and stores have an immediate operand and access one, two or four bytes. -/
theorem mipsLoad_spec {op : OpCode} {size : Nat} {signed : Bool}
    (h : mipsLoad op = some (size, signed)) :
    op ∉ specialTable ∧ op ∉ [OpCode.J, .JAL] ∧ (size = 1 ∨ size = 2 ∨ size = 4) := by
  cases op
  all_goals cases h
  all_goals decide

theorem mipsStore_spec {op : OpCode} {size : Nat} (h : mipsStore op = some size) :
    op ∉ specialTable ∧ op ∉ [OpCode.J, .JAL] ∧ (size = 1 ∨ size = 2 ∨ size = 4) := by
  cases op
  all_goals cases h
  all_goals decide

/-- Loads, stores, moves from `HiReg` and `LoReg` and traps. -/
theorem simulated_other (hflat : Flat table) (h : Shows table m a) (hzero : m.registers R0 = 0)
    (haligned : (decode word).opCode ∉ [OpCode.LWL, .LWR, .SWL, .SWR])
    (halu : mipsAlu word (a.gpr (rsField word)) (a.gpr (rtField word)) = none)
    (hbranch : mipsBranch word a.pc (a.gpr (rsField word)) (a.gpr (rtField word)) = none)
    (hhiLo : mipsHiLo (decode word).opCode (a.gpr (rsField word)) (a.gpr (rtField word)) a.hi a.lo =
      none) :
    Simulated table a ((Cpu.execute (decode word) : Cpu host _).run m)
      (a.executeOther (accessFault table) word) := by
  have hrs := h.register hzero (rsField word)
  have hrt := h.register hzero (rtField word)
  have hmove : ∀ v : BitVec 32, Simulated table a
      ((Cpu.assign (decode word).rd v (m.registers NextPCReg + 4) : Cpu host _).run m)
      (.ok ((a.write (rdField word) v).advance (a.nextPC + 4) 0)) := by
    intro v
    rw [decode_rd, h.nextPC]
    exact .go _ (h.write _ v)
  have htrap : ∀ x : ExceptionType, Simulated table a
      ((Cpu.raise x 0 : Cpu host Next).run m) (.error (x, 0)) := fun x => .error h
  unfold Isa.executeOther
  cases hload : mipsLoad (decode word).opCode with
  | some kind =>
    obtain ⟨size, signed⟩ := kind
    obtain ⟨hspecial, hjump, hsize⟩ := mipsLoad_spec hload
    rw [execute_load hload, decode_rs, decode_rt, hrs, extra_immediate hspecial hjump, h.nextPC]
    exact simulated_load hflat h _ hsize signed _
  | none =>
    cases hstore : mipsStore (decode word).opCode with
    | some size =>
      obtain ⟨hspecial, hjump, hsize⟩ := mipsStore_spec hstore
      rw [execute_store hstore, decode_rs, decode_rt, hrs, hrt,
        extra_immediate hspecial hjump, h.nextPC]
      exact simulated_store hflat h _ hsize _
    | none =>
      dsimp only
      cases hop : (decode word).opCode
      all_goals rw [hop] at hload hstore hhiLo haligned
      case MFHI =>
        rw [execute_opCode hop, ← h.hi]
        exact hmove _
      case MFLO =>
        rw [execute_opCode hop, ← h.lo]
        exact hmove _
      case SYSCALL | RES | UNIMP =>
        rw [execute_opCode hop]
        exact htrap _
      case RFE => exact absurd hop (Cpu.decode_opCode_ne word).1
      case SPECIAL => exact absurd hop (Cpu.decode_opCode_ne word).2.1
      case BCOND => exact absurd hop (Cpu.decode_opCode_ne word).2.2
      case LWL | LWR | SWL | SWR => exact absurd (by decide) haligned
      case LB | LBU | LH | LHU | LW => cases hload
      case SB | SH | SW => cases hstore
      case MULT | MULTU | DIV | DIVU | MTHI | MTLO => cases hhiLo
      case BEQ | BGEZ | BGEZAL | BGTZ | BLEZ | BLTZ | BLTZAL | BNE | J | JAL | JALR | JR =>
        unfold mipsBranch at hbranch
        rw [hop] at hbranch
        cases hbranch
      all_goals
        unfold mipsAlu at halu
        rw [hop] at halu
        cases halu

/-- Whatever the instruction is, the `switch` follows the definition where `Follows` says so. -/
theorem simulated_execute (hflat : Flat table) (h : Shows table m a) (hzero : m.registers R0 = 0)
    (hfollows : a.Follows word) :
    Simulated table a ((Cpu.execute (decode word) : Cpu host _).run m)
      (a.execute (accessFault table) word) := by
  have hrs : m.registers (Nachos.gpr (decode word).rs) = a.gpr (rsField word) := by
    rw [decode_rs, h.register hzero]
  have hrt : m.registers (Nachos.gpr (decode word).rt) = a.gpr (rtField word) := by
    rw [decode_rt, h.register hzero]
  unfold Isa.execute
  dsimp only
  cases halu : mipsAlu word (a.gpr (rsField word)) (a.gpr (rtField word)) with
  | some alu =>
    obtain ⟨result, hcode, hagrees, -⟩ := codeAlu_of_mipsAlu halu
    rw [← hrs, ← hrt] at hcode
    rw [execute_codeAlu hcode]
    dsimp only
    split
    · exact .error h
    · rw [h.nextPC]
      refine .go _ ?_
      rcases hagrees.mpr hfollows.agrees with hdest | hresult
      · -- a result for `r0` is dropped by both
        rw [hdest, write_zero, ← write_zero a result]
        exact h.write 0 result
      · rw [← hresult]
        exact h.write _ _
  | none =>
    dsimp only
    cases hbranch : mipsBranch word a.pc (a.gpr (rsField word)) (a.gpr (rtField word)) with
    | some b =>
      obtain ⟨hnext, hpc⟩ := hfollows.slot (by rw [hbranch]; rfl)
      have hcode := codeBranch_decode hpc hbranch
      rw [← hrs, ← hrt, ← hnext, ← h.nextPC] at hcode
      rw [execute_codeBranch hfollows.apart hcode, h.nextPC]
      exact .go _ (h.link _ _)
    | none =>
      dsimp only
      cases hhiLo : mipsHiLo (decode word).opCode (a.gpr (rsField word)) (a.gpr (rtField word))
          a.hi a.lo with
      | some words =>
        obtain ⟨hi, lo⟩ := words
        have hcode := hhiLo
        rw [← hrs, ← hrt, ← h.hi, ← h.lo] at hcode
        rw [execute_hiLo (hrt ▸ hfollows.divisor) (hrs ▸ hrt ▸ hfollows.quotient) hcode,
          h.nextPC]
        exact .go _ (h.writeHiLo hi lo)
      | none => exact simulated_other hflat h hzero hfollows.aligned halu hbranch hhiLo

end Isa

end Nachos
