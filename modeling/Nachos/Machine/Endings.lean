import Nachos.Machine.Steps

/-!
# How an instruction ends

An instruction completes, is reported to the kernel by `RaiseException`, or brings the simulator
down: by a failing `ASSERT`, by a division that the host cannot do, or by an index outside the
register file. `instructionEnding` says which, from the decoded instruction and the machine before
it, and `ending_oneInstruction` that `OneInstruction` ends that way for every word at the program
counter. The only index that is not an instruction field is the one in `DelayedLoad`.
-/

namespace Nachos.Cpu

variable {host : Host} {α β : Type} {x : Cpu host α} {m : Machine} {addr : BitVec 32} {size : Nat}
  {table : List TranslationEntry} {tables : Tables} {f : α → Cpu host β} {writing : Bool} {p : Nat}
  {rt : BitVec 5} {pcAfter tmp : BitVec 32}

/-- How a program on the machine ends. -/
inductive Ending where
  | completes
  | raises (which : ExceptionType) (badVAddr : BitVec 32)
  /-- The simulator is down. -/
  | fatal
  deriving DecidableEq, Repr

/-- The ending behind a result. -/
def Ending.of : Except Trap α → Ending
  | .ok _ => .completes
  | .error (.raise which badVAddr) => .raises which badVAddr
  | .error .abort => .fatal
  | .error .undefined => .fatal

/-- One program after the other. -/
def Ending.andThen : Ending → Ending → Ending
  | .completes, next => next
  | ending, _ => ending

/-- How an access to memory ends. -/
def accessEnding (tables : Tables) (addr : BitVec 32) (size : Nat) (writing : Bool) : Ending :=
  match translate tables addr size writing with
  | .ok _ _ => .completes
  | .fault which => .raises which addr
  | .abort => .fatal

/-- How a decoded instruction ends. Reserved and unimplemented codes, overflows and accesses that
cannot be translated are reported. -/
def instructionEnding (m : Machine) (instr : Instruction) : Ending :=
  let rs := m.registers (gpr instr.rs)
  let rt := m.registers (gpr instr.rt)
  let addr := rs + instr.extra
  let overflow (b : Bool) : Ending := if b then .raises .OverflowException 0 else .completes
  match instr.opCode with
  | .RES | .UNIMP => .raises .IllegalInstrException 0
  | .SYSCALL => .raises .SyscallException 0
  | .ADD => overflow (rs.saddOverflow rt)
  | .ADDI => overflow (rs.saddOverflow instr.extra)
  | .SUB => overflow (rs.ssubOverflow rt)
  | .LB | .LBU => accessEnding m.tables addr 1 false
  | .LH | .LHU => accessEnding m.tables addr 2 false
  | .LW => accessEnding m.tables addr 4 false
  | .SB => accessEnding m.tables addr 1 true
  | .SH => accessEnding m.tables addr 2 true
  | .SW => accessEnding m.tables addr 4 true
  | .LWL | .LWR => if addr &&& 3#32 = 0 then accessEnding m.tables addr 4 false else .fatal
  | .SWL | .SWR =>
    if addr &&& 3#32 = 0 then
      (accessEnding m.tables addr 4 false).andThen (accessEnding m.tables addr 4 true)
    else .fatal
  | .DIV => if rs = SIGN_BIT ∧ rt = -1#32 then .fatal else .completes
  | .RFE | .SPECIAL | .BCOND => .fatal
  | _ => .completes

/-- How `OneInstruction` ends. -/
def stepEnding (host : Host) (m : Machine) : Ending :=
  match fetched host m with
  | some raw => instructionEnding m (decode raw)
  | none => accessEnding m.tables (m.registers PCReg) 4 false

/-! ## Sequences -/

variable {next : Ending}

/-- A program and what follows it when it completes. -/
theorem ending_bind (hf : ∀ a m', x.run m = (.ok a, m') → Ending.of ((f a).run m').1 = next) :
    Ending.of ((x >>= f).run m).1 = (Ending.of (x.run m).1).andThen next := by
  rw [Confined.run_bind]
  cases hx : x.run m with
  | mk result m' =>
    cases result with
    | ok a => exact hf a m' hx
    | error e => cases e <;> rfl

theorem andThen_eq_fatal {first : Ending} :
    first.andThen next = .fatal ↔ first = .fatal ∨ first = .completes ∧ next = .fatal := by
  cases first <;> simp [Ending.andThen]

/-- What follows always completes. -/
theorem ending_bind_of_completes (hf : ∀ a m', Ending.of ((f a).run m').1 = .completes) :
    Ending.of ((x >>= f).run m).1 = Ending.of (x.run m).1 := by
  rw [ending_bind fun a m' _ => hf a m']
  cases Ending.of (x.run m).1 <;> rfl

/-- Reading a register changes nothing. -/
theorem run_reg_bind (r : Reg) (f : BitVec 32 → Cpu host α) (m : Machine) :
    (reg r >>= f).run m = (f (m.registers r)).run m := rfl

/-! ## Accesses -/

/-- An aligned access does not leave its frame. -/
theorem offset_add_size_le (hsize : size = 1 ∨ size = 2 ∨ size = 4)
    (h : misaligned addr size = false) : addr.toNat % PageSize + size ≤ PageSize := by
  unfold PageSize SectorSize
  rcases hsize with rfl | rfl | rfl
  · omega
  · have hlow : addr &&& 1#32 = 0 := by simpa [misaligned] using h
    have hmod := congrArg BitVec.toNat hlow
    rw [BitVec.toNat_and, show (1#32).toNat = 2 ^ 1 - 1 from rfl, Nat.and_two_pow_sub_one_eq_mod]
      at hmod
    change addr.toNat % _ = 0 at hmod
    omega
  · have hlow : addr &&& 3#32 = 0 := by simpa [misaligned] using h
    have hmod := congrArg BitVec.toNat hlow
    rw [BitVec.toNat_and, show (3#32).toNat = 2 ^ 2 - 1 from rfl, Nat.and_two_pow_sub_one_eq_mod]
      at hmod
    change addr.toNat % _ = 0 at hmod
    omega

/-- An access that stays in its page is not aborted. -/
theorem translateEntry_ne_abort {e : TranslationEntry} {offset : Nat}
    (h : offset + size ≤ PageSize) (writing : Bool) (update : TranslationEntry → Tables) :
    translateEntry e offset size writing update ≠ .abort := by
  unfold translateEntry
  split
  · simp
  · dsimp only
    split
    · simp
    · rename_i hframe
      rw [if_pos]
      · simp
      · -- the frame is one of the machine, and the access stays within it
        have hlt : (BitVec.ofInt 32 e.physicalPage).toNat + 1 ≤ NumPhysPages := by omega
        have hle := Nat.mul_le_mul_right PageSize hlt
        rw [Nat.add_mul, Nat.one_mul] at hle
        unfold MemorySize
        omega

/-- Through a page table `Translate`'s check of the physical address never fails, whatever the
frame numbers are: one that does not exist is reported before. -/
theorem translate_ne_abort (table : List TranslationEntry) (addr : BitVec 32)
    (hsize : size = 1 ∨ size = 2 ∨ size = 4) (writing : Bool) :
    translate (linear table) addr size writing ≠ .abort := by
  unfold translate linear
  split
  · simp
  · rename_i haligned
    dsimp only
    split
    · simp
    · split
      · simp
      · exact translateEntry_ne_abort (offset_add_size_le hsize (by simpa using haligned)) _ _

/-- How a read ends. -/
theorem ending_readMem (addr : BitVec 32) (hsize : size = 1 ∨ size = 2 ∨ size = 4) :
    Ending.of ((readMem addr size : Cpu host _).run m).1 =
      accessEnding m.tables addr size false := by
  simp only [readMem, accessEnding]
  cases translate m.tables addr size false with
  | abort => rfl
  | fault which => rfl
  | ok p tables => rcases hsize with rfl | rfl | rfl <;> rfl

/-- How a write ends. -/
theorem ending_writeMem (addr value : BitVec 32) (hsize : size = 1 ∨ size = 2 ∨ size = 4) :
    Ending.of ((writeMem addr size value : Cpu host _).run m).1 =
      accessEnding m.tables addr size true := by
  simp only [writeMem, accessEnding]
  cases translate m.tables addr size true with
  | abort => rfl
  | fault which => rfl
  | ok p tables => rcases hsize with rfl | rfl | rfl <;> rfl

/-- How an access ends once its entry has been found. -/
def entryEnding (e : TranslationEntry) (addr : BitVec 32) (size : Nat) (writing : Bool) : Ending :=
  let pageFrame := (BitVec.ofInt 32 e.physicalPage).toNat
  if !e.valid then .raises .PageFaultException addr
  else if e.readOnly && writing then .raises .ReadOnlyException addr
  else if NumPhysPages ≤ pageFrame then .raises .BusErrorException addr
  else if pageFrame * PageSize + addr.toNat % PageSize + size ≤ MemorySize then .completes
  else .fatal

/-- How an access through a page table ends. -/
theorem accessEnding_linear (table : List TranslationEntry) (addr : BitVec 32) (size : Nat)
    (writing : Bool) :
    accessEnding (linear table) addr size writing =
      if misaligned addr size then .raises .AddressErrorException addr
      else match table[addr.toNat / PageSize]? with
        | none => .raises .AddressErrorException addr
        | some e => entryEnding e addr size writing := by
  unfold accessEnding translate linear
  split_ifs
  · rfl
  · dsimp only
    cases table[addr.toNat / PageSize]? with
    | none => rfl
    | some e =>
      unfold entryEnding translateEntry
      dsimp only
      split_ifs <;> rfl

/-- A translation sees nothing of the bits an earlier one has set. -/
theorem accessEnding_touched {addr' : BitVec 32} {size' : Nat} {writing' : Bool}
    (h : translate (linear table) addr size writing = .ok p tables) :
    accessEnding tables addr' size' writing' =
      accessEnding (linear table) addr' size' writing' := by
  obtain ⟨e, he, -, rfl⟩ := translate_ok h
  rw [accessEnding_linear, accessEnding_linear]
  by_cases hpage : addr.toNat / PageSize = addr'.toNat / PageSize
  · rw [← hpage, List.getElem?_set_self', he]
    rfl
  · rw [List.getElem?_set_ne hpage]

/-! ## Instructions -/

theorem sign_and_ne_zero (a : BitVec 32) : (a &&& SIGN_BIT ≠ 0) ↔ a.msb = true := by
  have hbit : SIGN_BIT = BitVec.twoPow 32 31 := BitVec.eq_of_toNat_eq (by simp [SIGN_BIT])
  rw [hbit, BitVec.and_twoPow, BitVec.msb_eq_getLsbD_last, ← hbit]
  cases a.getLsbD 31 <;> simp [SIGN_BIT]

/-- The signs differ if the sign bits do. -/
theorem signsDiffer_eq (a b : BitVec 32) : signsDiffer a b = (a.msb != b.msb) := by
  rw [Bool.eq_iff_iff, signsDiffer, decide_eq_true_iff, sign_and_ne_zero, BitVec.msb_xor]

/-- The test of `ADD` is the overflow of a signed sum. -/
theorem add_overflow_eq (a b : BitVec 32) :
    (!signsDiffer a b && signsDiffer a (a + b)) = a.saddOverflow b := by
  rw [signsDiffer_eq, signsDiffer_eq, BitVec.saddOverflow_eq]
  cases a.msb <;> cases b.msb <;> cases (a + b).msb <;> rfl

/-- The test of `ADDI`, which looks at the sign of the other operand. -/
theorem addi_overflow_eq (a b : BitVec 32) :
    (!signsDiffer a b && signsDiffer b (a + b)) = a.saddOverflow b := by
  rw [signsDiffer_eq, signsDiffer_eq, BitVec.saddOverflow_eq]
  cases a.msb <;> cases b.msb <;> cases (a + b).msb <;> rfl

/-- The test of `SUB` is the overflow of a signed difference. -/
theorem sub_overflow_eq (a b : BitVec 32) :
    (signsDiffer a b && signsDiffer a (a - b)) = a.ssubOverflow b := by
  rw [signsDiffer_eq, signsDiffer_eq, BitVec.ssubOverflow_eq]
  cases a.msb <;> cases b.msb <;> cases (a - b).msb <;> rfl

theorem accessEnding_misaligned (h : misaligned addr size = true) :
    accessEnding tables addr size writing = .raises .AddressErrorException addr := by
  rw [accessEnding, translate, if_pos h]

/-- A load ends as its access does. -/
theorem ending_load {x : Cpu host (BitVec 32)} {f : BitVec 32 → BitVec 32} :
    Ending.of ((x >>= fun value => load rt (f value) pcAfter).run m).1 = Ending.of (x.run m).1 :=
  ending_bind_of_completes fun _ _ => rfl

/-- So does a store. -/
theorem ending_go {x : Cpu host Unit} :
    Ending.of ((x >>= fun _ => go pcAfter).run m).1 = Ending.of (x.run m).1 :=
  ending_bind_of_completes fun _ _ => rfl

/-- The alignment test of a load in `OneInstruction` does what `Translate` would do. -/
theorem ending_alignedLoad {mask : BitVec 32}
    (hmask : addr &&& mask ≠ 0 → misaligned addr size = true)
    (hx : Ending.of (x.run m).1 = accessEnding m.tables addr size false) :
    Ending.of ((if addr &&& mask ≠ 0 then raise .AddressErrorException addr else x).run m).1 =
      accessEnding m.tables addr size false := by
  split
  · rename_i h
    rw [accessEnding_misaligned (hmask h)]
    rfl
  · exact hx

/-- `LWL` and `LWR` end in the `ASSERT` or as their access. -/
theorem ending_unalignedLoad :
    Ending.of ((unalignedLoad tmp rt : Cpu host _).run m).1 =
      if tmp &&& 3#32 = 0 then accessEnding m.tables tmp 4 false else .fatal := by
  unfold unalignedLoad assert
  by_cases h : tmp &&& 3#32 = 0
  · simp only [h, decide_true, if_true, pure_bind]
    rw [ending_bind_of_completes, ending_readMem tmp (.inr (.inr rfl))]
    intro value m'
    rw [run_reg_bind]
    split <;> rfl
  · simp only [h, decide_false, if_false]
    rfl

/-- So do `SWL` and `SWR`, with two accesses. -/
theorem ending_unalignedStore {rt : BitVec 32}
    {merge : BitVec 32 → BitVec 32 → BitVec 32 → BitVec 32} (htab : m.tables = linear table) :
    Ending.of ((unalignedStore tmp rt merge : Cpu host _).run m).1 =
      if tmp &&& 3#32 = 0 then
        (accessEnding m.tables tmp 4 false).andThen (accessEnding m.tables tmp 4 true)
      else .fatal := by
  unfold unalignedStore assert
  by_cases h : tmp &&& 3#32 = 0
  · have hmask : tmp &&& ~~~3#32 = tmp := by
      have hsplit : (tmp &&& 3#32) ||| (tmp &&& ~~~3#32) = tmp := by
        rw [← BitVec.and_or_distrib_left]
        exact BitVec.and_allOnes
      rw [h] at hsplit
      exact (BitVec.zero_or).symm.trans hsplit
    simp only [h, decide_true, if_true, pure_bind, hmask]
    have hstore : ∀ value m', (readMem tmp 4 : Cpu host _).run m = (.ok value, m') →
        Ending.of ((writeMem tmp 4 (merge tmp value rt) : Cpu host _).run m').1 =
          accessEnding m.tables tmp 4 true := by
      intro value m' hread
      rw [ending_writeMem tmp _ (.inr (.inr rfl))]
      -- the read has only set the `use` bit
      simp only [readMem] at hread
      split at hread
      · cases hread
      · cases hread
      · rename_i p tables htranslate
        split at hread
        · cases hread
        · cases hread
          rw [htab] at htranslate ⊢
          exact accessEnding_touched htranslate
    rw [ending_bind hstore, ending_readMem tmp (.inr (.inr rfl))]
  · simp only [h, decide_false, if_false]
    rfl

/-- Every instruction ends as specified. -/
theorem ending_execute (host : Host) (instr : Instruction) (htab : m.tables = linear table) :
    Ending.of ((execute instr : Cpu host _).run m).1 = instructionEnding m instr := by
  rw [execute, run_reg_bind, run_reg_bind, run_reg_bind]
  obtain ⟨opCode, rs, rt, rd, extra⟩ := instr
  unfold instructionEnding
  cases opCode
  all_goals dsimp only
  case ADD =>
    rw [add_overflow_eq]
    split <;> rfl
  case ADDI =>
    rw [addi_overflow_eq]
    split <;> rfl
  case SUB =>
    rw [sub_overflow_eq]
    split <;> rfl
  case DIV =>
    by_cases hrt : m.registers (gpr rt) = 0
    · rw [if_pos hrt, if_neg (fun h => absurd (hrt.symm.trans h.2) (by decide))]
      rfl
    · rw [if_neg hrt]
      split <;> rfl
  case DIVU => split <;> rfl
  case LB | LBU => rw [ending_load, ending_readMem _ (.inl rfl)]
  case LH | LHU =>
    refine ending_alignedLoad (fun h => by simpa [misaligned] using h) ?_
    rw [ending_load, ending_readMem _ (.inr (.inl rfl))]
  case LW =>
    refine ending_alignedLoad (fun h => by simpa [misaligned] using h) ?_
    rw [ending_load, ending_readMem _ (.inr (.inr rfl))]
  case LWL | LWR => rw [ending_bind_of_completes fun _ _ => rfl, ending_unalignedLoad]
  case SB => rw [ending_go, ending_writeMem _ _ (.inl rfl)]
  case SH => rw [ending_go, ending_writeMem _ _ (.inr (.inl rfl))]
  case SW => rw [ending_go, ending_writeMem _ _ (.inr (.inr rfl))]
  case SWL | SWR => rw [ending_go, ending_unalignedStore htab]
  all_goals rfl

theorem getD_of_forall {γ : Type} {p : γ → Prop} {l : List γ} {d : γ} (hl : ∀ x ∈ l, p x)
    (hd : p d) (i : Nat) : p (l.getD i d) := by
  rw [List.getD_eq_getElem?_getD]
  cases h : l[i]? with
  | none => exact hd
  | some x => exact hl x (List.mem_of_getElem? h)

/-- `Decode` gives no opcode that the `switch` has no case for. -/
theorem decode_opCode_ne (value : BitVec 32) :
    (decode value).opCode ≠ .RFE ∧ (decode value).opCode ≠ .SPECIAL ∧
      (decode value).opCode ≠ .BCOND := by
  have hop : ∀ i, (opTable.getD i ⟨.RES, .IFMT⟩).opCode ≠ .RFE :=
    fun i => getD_of_forall (p := fun info : OpInfo => info.opCode ≠ .RFE) (by decide) (by decide) i
  have hspecial : ∀ i, specialTable.getD i .RES ≠ .RFE ∧ specialTable.getD i .RES ≠ .SPECIAL ∧
      specialTable.getD i .RES ≠ .BCOND :=
    fun i => getD_of_forall (p := fun opCode : OpCode => opCode ≠ .RFE ∧
      opCode ≠ .SPECIAL ∧ opCode ≠ .BCOND) (by decide) (by decide) i
  unfold decode
  dsimp only
  split
  · exact hspecial _
  · unfold branchOpCode
    split_ifs <;> decide
  · rename_i hnotSpecial hnotBranch
    exact ⟨hop _, hnotSpecial, hnotBranch⟩

/-- The instructions that bring the simulator down: the four for words that may be misaligned, when
the address is, and a signed division whose quotient does not fit. -/
def Fatal (m : Machine) (instr : Instruction) : Prop :=
  instr.opCode ∈ [.LWL, .LWR, .SWL, .SWR] ∧
      (m.registers (gpr instr.rs) + instr.extra) &&& 3#32 ≠ 0 ∨
    instr.opCode = .DIV ∧ m.registers (gpr instr.rs) = SIGN_BIT ∧
      m.registers (gpr instr.rt) = -1#32

/-- No access aborts. -/
theorem accessEnding_ne_fatal (table : List TranslationEntry) (addr : BitVec 32)
    (hsize : size = 1 ∨ size = 2 ∨ size = 4) (writing : Bool) :
    accessEnding (linear table) addr size writing ≠ .fatal := by
  have habort := translate_ne_abort table addr hsize writing
  unfold accessEnding
  split
  · simp
  · simp
  · contradiction

/-- The instructions that abort are the fatal ones. -/
theorem instructionEnding_eq_fatal (htab : m.tables = linear table) (value : BitVec 32) :
    instructionEnding m (decode value) = .fatal ↔ Fatal m (decode value) := by
  obtain ⟨hrfe, hspecial, hbcond⟩ := decode_opCode_ne value
  generalize decode value = instr at *
  obtain ⟨opCode, rs, rt, rd, extra⟩ := instr
  have hbyte := fun addr => accessEnding_ne_fatal table addr (.inl rfl)
  have hshort := fun addr => accessEnding_ne_fatal table addr (.inr (.inl rfl))
  have hword := fun addr => accessEnding_ne_fatal table addr (.inr (.inr rfl))
  unfold instructionEnding Fatal
  rw [htab]
  cases opCode
  all_goals dsimp only at *
  case RFE | SPECIAL | BCOND => contradiction
  case LWL | LWR | SWL | SWR =>
    split_ifs with haligned
    · simp [haligned, hword, andThen_eq_fatal]
    · exact iff_of_true rfl (.inl ⟨by decide, haligned⟩)
  case DIV =>
    split_ifs with hquotient
    · exact iff_of_true rfl (.inr ⟨rfl, hquotient⟩)
    · exact iff_of_false (by simp) (by simpa using hquotient)
  case ADD | ADDI | SUB => split_ifs <;> simp
  all_goals simp [hbyte, hshort, hword]

/-- `OneInstruction` up to `DelayedLoad`. -/
def fetchAndExecute : Cpu host Next := do
  let pc ← reg PCReg
  let raw ← readMem pc 4
  execute (decode raw)

/-- The bits that a fetch sets do not matter to the instruction. -/
theorem instructionEnding_touched (htab : m.tables = linear table)
    (h : translate m.tables addr 4 false = .ok p tables) (instr : Instruction) :
    instructionEnding (m.touched tables) instr = instructionEnding m instr := by
  rw [htab] at h
  have haccess : accessEnding tables = accessEnding m.tables := by
    funext addr size writing
    rw [htab, accessEnding_touched h]
  unfold instructionEnding
  rw [← haccess]
  rfl

/-- How fetching and executing ends. -/
theorem ending_fetchAndExecute (htab : m.tables = linear table) :
    Ending.of ((fetchAndExecute : Cpu host _).run m).1 = stepEnding host m := by
  rw [fetchAndExecute, run_reg_bind, stepEnding, fetched]
  cases htranslate : translate m.tables (m.registers PCReg) 4 false with
  | abort => simp [Confined.run_bind, readMem, accessEnding, htranslate, Ending.of]
  | fault which => simp [Confined.run_bind, readMem, accessEnding, htranslate, Ending.of]
  | ok p tables =>
    have htouched : ∃ table', (m.touched tables).tables = linear table' := by
      rw [htab] at htranslate
      obtain ⟨e, -, -, htables⟩ := translate_ok htranslate
      exact ⟨_, htables⟩
    obtain ⟨table', htab'⟩ := htouched
    obtain ⟨raw, hraw⟩ : ∃ raw, readBytes host m.mainMemory p 4 = some raw := ⟨_, rfl⟩
    dsimp only
    rw [hraw]
    dsimp only
    rw [← instructionEnding_touched htab htranslate, ← ending_execute host (decode raw) htab']
    simp [Confined.run_bind, readMem, htranslate, hraw]

/-- `OneInstruction` ends as specified, for every page table and every word. -/
theorem ending_oneInstruction (host : Host) (htab : m.tables = linear table) :
    Ending.of ((oneInstruction : Cpu host _).run m).1 = stepEnding host m := by
  rw [show (oneInstruction : Cpu host Unit) = fetchAndExecute >>= install by
    simp [oneInstruction, fetchAndExecute], ending_bind_of_completes fun _ _ => rfl,
    ending_fetchAndExecute htab]

/-! ## The index of `DelayedLoad` -/

/-- The program leaves `LoadReg` alone. -/
def KeepsLoadReg (x : Cpu host α) : Prop :=
  ∀ m, (x.run m).2.registers LoadReg = m.registers LoadReg

/-- An instruction field is the number of a general register, so no instruction writes
`LoadReg`. -/
theorem keepsLoadReg_execute {instr : Instruction} :
    KeepsLoadReg (execute instr : Cpu host _) := keeps_execute (by decide)

/-- Until `DelayedLoad`, `LoadReg` is kept. -/
theorem keepsLoadReg_fetchAndExecute (host : Host) :
    KeepsLoadReg (fetchAndExecute : Cpu host _) :=
  quiet_reg.keeps.bind fun _ => keeps_readMem.bind fun _ => keepsLoadReg_execute

/-- The machine in which the step calls `DelayedLoad`: at its end, or in `RaiseException`. -/
def delaying (host : Host) (m : Machine) : Option Machine :=
  match (fetchAndExecute : Cpu host Next).run m with
  | (.ok _, m₁) => some m₁
  | (.error (.raise _ badVAddr), m₁) => some (m₁.writeRegister BadVAddrReg badVAddr)
  | (.error _, _) => none

/-- The step comes to its end or is reported to the kernel, and the index in `DelayedLoad` is
inside the register file. -/
def Survives (host : Host) (m : Machine) : Prop :=
  Ending.of ((oneInstruction : Cpu host Unit).run m).1 ≠ .fatal ∧
    ∀ m₁ ∈ delaying host m, (m₁.registers LoadReg).toNat < NumTotalRegs

/-- So `DelayedLoad` finds it as it was. -/
theorem delaying_loadReg {m₁ : Machine} (h : m₁ ∈ delaying host m) :
    m₁.registers LoadReg = m.registers LoadReg := by
  have hkeeps := keepsLoadReg_fetchAndExecute host m
  rw [Option.mem_def, delaying] at h
  split at h
  · rename_i hrun
    cases h
    rwa [hrun] at hkeeps
  · rename_i badVAddr m' hrun
    cases h
    rw [hrun] at hkeeps
    rw [Machine.writeRegister_of_ne _ _ (by decide)]
    exact hkeeps
  · cases h

/-- `DelayedLoad` is reached, unless the simulator stops. -/
theorem delaying_isSome (h : Ending.of ((fetchAndExecute : Cpu host Next).run m).1 ≠ .fatal) :
    ∃ m₁, m₁ ∈ delaying host m := by
  unfold delaying
  cases hrun : (fetchAndExecute : Cpu host Next).run m with
  | mk result m' =>
    rw [hrun] at h
    cases result with
    | ok next => exact ⟨_, rfl⟩
    | error e =>
      cases e with
      | raise which badVAddr => exact ⟨_, rfl⟩
      | abort => exact absurd rfl h
      | undefined => exact absurd rfl h

/-- For every page table, register file, memory and instruction word: the step brings the simulator
down exactly if the pending load names no register or the instruction is one of the fatal ones, and
otherwise it completes or raises the exception that `stepEnding` gives, in particular for every
reserved or unimplemented code, overflow and failed translation. -/
theorem one_instruction_survives_iff (host : Host) {m : Machine} {table : List TranslationEntry}
    (htab : m.tables = linear table) :
    (Survives host m ↔ (m.registers LoadReg).toNat < NumTotalRegs ∧
      ∀ raw ∈ fetched host m, ¬ Fatal m (decode raw)) ∧
    Ending.of ((oneInstruction : Cpu host Unit).run m).1 = stepEnding host m := by
  have hending := ending_oneInstruction host htab
  refine ⟨?_, hending⟩
  have hfatal : stepEnding host m ≠ .fatal ↔ ∀ raw ∈ fetched host m, ¬ Fatal m (decode raw) := by
    unfold stepEnding
    cases fetched host m with
    | none =>
      rw [htab]
      simp [accessEnding_ne_fatal table _ (.inr (.inr rfl))]
    | some raw => simp [instructionEnding_eq_fatal htab]
  rw [Survives, hending, hfatal]
  constructor
  · rintro ⟨hnot, hindex⟩
    refine ⟨?_, hnot⟩
    have hends : Ending.of ((fetchAndExecute : Cpu host Next).run m).1 ≠ .fatal := by
      rw [ending_fetchAndExecute htab]
      exact hfatal.mpr hnot
    obtain ⟨m₁, hm₁⟩ := delaying_isSome hends
    rw [← delaying_loadReg hm₁]
    exact hindex m₁ hm₁
  · rintro ⟨hindex, hnot⟩
    refine ⟨hnot, fun m₁ hm₁ => ?_⟩
    rwa [delaying_loadReg hm₁]

/-- `ADD r3, r1, r2` completes. -/
theorem one_instruction_survives_add :
    Survives .littleEndian (loaded 0x00221820#32 fun _ => 0) := by
  refine (one_instruction_survives_iff .littleEndian rfl).1.mpr ⟨by decide, ?_⟩
  intro raw hraw
  cases hraw
  rintro (⟨hop, -⟩ | ⟨hop, -⟩) <;> revert hop <;> decide

/-- `LWL r1, 1(r0)` fails an `ASSERT`; `DIV r4, r5` of the least `int` by -1 traps on the host; and
with 40 in `LoadReg` even `SLL r0, r0, 0` writes outside the register file. -/
theorem one_instruction_fatal :
    ¬ Survives .littleEndian (loaded 0x88010001#32 fun _ => 0) ∧
    ¬ Survives .littleEndian
      (loaded 0x0085001a#32 fun r => if r = R4 then SIGN_BIT else if r = R5 then -1#32 else 0) ∧
    ¬ Survives .littleEndian (loaded 0 fun r => if r = LoadReg then 40 else 0) := by
  refine ⟨fun h => h.1 rfl, fun h => h.1 rfl, fun h => ?_⟩
  exact absurd (h.2 _ rfl) (by decide)

end Nachos.Cpu
