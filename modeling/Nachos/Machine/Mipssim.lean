import Nachos.Machine.Machine

/-!
# The instruction interpreter

`Instruction::Decode`, `Mult` and `Machine::OneInstruction` of `machine/mipssim.cc` with the opcode
tables of `machine/mipssim.h`. An `int` register is a word; the arithmetic of the host wraps around
and its right shift of an `int` is arithmetic. `OneInstruction` is a program of type `Cpu`, so
whatever the instruction is, it only writes registers and accesses memory through `Translate`.
-/

namespace Nachos

/-- The opcodes, with the two values of `opTable` that ask for further decoding. -/
inductive OpCode where
  | ADD | ADDI | ADDIU | ADDU | AND | ANDI
  | BEQ | BGEZ | BGEZAL | BGTZ | BLEZ | BLTZ | BLTZAL | BNE
  | DIV | DIVU | J | JAL | JALR | JR
  | LB | LBU | LH | LHU | LUI | LW | LWL | LWR
  | MFHI | MFLO | MTHI | MTLO | MULT | MULTU
  | NOR | OR | ORI | RFE | SB | SH
  | SLL | SLLV | SLT | SLTI | SLTIU | SLTU | SRA | SRAV | SRL | SRLV
  | SUB | SUBU | SW | SWL | SWR | XOR | XORI
  | SYSCALL | UNIMP | RES
  | SPECIAL | BCOND
  deriving DecidableEq, Repr

/-- The instruction formats. -/
inductive Format where
  | IFMT
  | JFMT
  | RFMT
  deriving DecidableEq, Repr

/-- `OpInfo`. -/
structure OpInfo where
  opCode : OpCode
  format : Format
  deriving DecidableEq, Repr

/-- `opTable`, indexed by bits 31 to 26 of the instruction. -/
def opTable : List OpInfo :=
  [⟨.SPECIAL, .RFMT⟩, ⟨.BCOND, .IFMT⟩, ⟨.J, .JFMT⟩, ⟨.JAL, .JFMT⟩,
   ⟨.BEQ, .IFMT⟩, ⟨.BNE, .IFMT⟩, ⟨.BLEZ, .IFMT⟩, ⟨.BGTZ, .IFMT⟩,
   ⟨.ADDI, .IFMT⟩, ⟨.ADDIU, .IFMT⟩, ⟨.SLTI, .IFMT⟩, ⟨.SLTIU, .IFMT⟩,
   ⟨.ANDI, .IFMT⟩, ⟨.ORI, .IFMT⟩, ⟨.XORI, .IFMT⟩, ⟨.LUI, .IFMT⟩,
   ⟨.UNIMP, .IFMT⟩, ⟨.UNIMP, .IFMT⟩, ⟨.UNIMP, .IFMT⟩, ⟨.UNIMP, .IFMT⟩,
   ⟨.RES, .IFMT⟩, ⟨.RES, .IFMT⟩, ⟨.RES, .IFMT⟩, ⟨.RES, .IFMT⟩,
   ⟨.RES, .IFMT⟩, ⟨.RES, .IFMT⟩, ⟨.RES, .IFMT⟩, ⟨.RES, .IFMT⟩,
   ⟨.RES, .IFMT⟩, ⟨.RES, .IFMT⟩, ⟨.RES, .IFMT⟩, ⟨.RES, .IFMT⟩,
   ⟨.LB, .IFMT⟩, ⟨.LH, .IFMT⟩, ⟨.LWL, .IFMT⟩, ⟨.LW, .IFMT⟩,
   ⟨.LBU, .IFMT⟩, ⟨.LHU, .IFMT⟩, ⟨.LWR, .IFMT⟩, ⟨.RES, .IFMT⟩,
   ⟨.SB, .IFMT⟩, ⟨.SH, .IFMT⟩, ⟨.SWL, .IFMT⟩, ⟨.SW, .IFMT⟩,
   ⟨.RES, .IFMT⟩, ⟨.RES, .IFMT⟩, ⟨.SWR, .IFMT⟩, ⟨.RES, .IFMT⟩,
   ⟨.UNIMP, .IFMT⟩, ⟨.UNIMP, .IFMT⟩, ⟨.UNIMP, .IFMT⟩, ⟨.UNIMP, .IFMT⟩,
   ⟨.RES, .IFMT⟩, ⟨.RES, .IFMT⟩, ⟨.RES, .IFMT⟩, ⟨.RES, .IFMT⟩,
   ⟨.UNIMP, .IFMT⟩, ⟨.UNIMP, .IFMT⟩, ⟨.UNIMP, .IFMT⟩, ⟨.UNIMP, .IFMT⟩,
   ⟨.RES, .IFMT⟩, ⟨.RES, .IFMT⟩, ⟨.RES, .IFMT⟩, ⟨.RES, .IFMT⟩]

/-- `specialTable`, indexed by bits 5 to 0 of the instruction. -/
def specialTable : List OpCode :=
  [.SLL, .RES, .SRL, .SRA, .SLLV, .RES, .SRLV, .SRAV,
   .JR, .JALR, .RES, .RES, .SYSCALL, .UNIMP, .RES, .RES,
   .MFHI, .MTHI, .MFLO, .MTLO, .RES, .RES, .RES, .RES,
   .MULT, .MULTU, .DIV, .DIVU, .RES, .RES, .RES, .RES,
   .ADD, .ADDU, .SUB, .SUBU, .AND, .OR, .XOR, .NOR,
   .RES, .RES, .SLT, .SLTU, .RES, .RES, .RES, .RES,
   .RES, .RES, .RES, .RES, .RES, .RES, .RES, .RES,
   .RES, .RES, .RES, .RES, .RES, .RES, .RES, .RES]

/-- A decoded `Instruction`. -/
structure Instruction where
  opCode : OpCode
  rs : BitVec 5
  rt : BitVec 5
  rd : BitVec 5
  extra : BitVec 32
  deriving DecidableEq, Repr

/-- The opcode behind `BCOND`, from `value & 0x1f0000`. -/
def branchOpCode (i : BitVec 32) : OpCode :=
  if i = 0 then .BLTZ
  else if i = 0x10000#32 then .BGEZ
  else if i = 0x100000#32 then .BLTZAL
  else if i = 0x110000#32 then .BGEZAL
  else .UNIMP

/-- `Instruction::Decode`. Both tables have 64 entries, so the lookups never miss. -/
def decode (value : BitVec 32) : Instruction :=
  let info := opTable.getD ((value >>> 26) &&& 0x3f#32).toNat ⟨.RES, .IFMT⟩
  { rs := (value >>> 21).setWidth 5
    rt := (value >>> 16).setWidth 5
    rd := (value >>> 11).setWidth 5
    extra := match info.format with
      | .IFMT =>
        let extra := value &&& 0xffff#32
        if extra &&& 0x8000#32 ≠ 0 then extra ||| 0xffff0000#32 else extra
      | .RFMT => (value >>> 6) &&& 0x1f#32
      | .JFMT => value &&& 0x3ffffff#32
    opCode := match info.opCode with
      | .SPECIAL => specialTable.getD (value &&& 0x3f#32).toNat .RES
      | .BCOND => branchOpCode (value &&& 0x1f0000#32)
      | opCode => opCode }

/-- `SIGN_BIT`. -/
def SIGN_BIT : BitVec 32 := 0x80000000#32

/-- `IndexToAddr`. -/
def indexToAddr (x : BitVec 32) : BitVec 32 := x <<< 2

/-- The loop of `Mult`, with `n` of its 32 rounds to go: the words `hi` and `lo`. -/
def multLoop : Nat → (a bLo bHi lo hi : BitVec 32) → BitVec 32 × BitVec 32
  | 0, _, _, _, lo, hi => (hi, lo)
  | n + 1, a, bLo, bHi, lo, hi =>
    let odd := a &&& 1#32 ≠ 0
    let lo' := if odd then lo + bLo else lo
    let hi' := if odd then (if lo' < bLo then hi + 1 else hi) + bHi else hi
    if odd ∧ a &&& 0xfffffffe#32 = 0 then (hi', lo')
    else
      let carry := if bLo &&& 0x80000000#32 ≠ 0 then 1#32 else 0
      multLoop n (a.sshiftRight 1) (bLo <<< 1) ((bHi <<< 1) ||| carry) lo' hi'

/-- `Mult`: the words for `HiReg` and `LoReg`. -/
def mult (a b : BitVec 32) (signedArith : Bool) : BitVec 32 × BitVec 32 :=
  if a = 0 ∨ b = 0 then (0, 0)
  else
    let negA := signedArith && a.msb
    let negB := signedArith && b.msb
    let (hi, lo) := multLoop 32 (if negA then -a else a) (if negB then -b else b) 0 0 0
    if negA != negB then
      let lo' := ~~~lo + 1
      (if lo' = 0 then ~~~hi + 1 else ~~~hi, lo')
    else (hi, lo)

/-- What `OneInstruction` still installs when it leaves its `switch` by a `break`. -/
structure Next where
  pcAfter : BitVec 32
  nextLoadReg : BitVec 32
  nextLoadValue : BitVec 32
  deriving DecidableEq, Repr

/-- The `switch (tmp & 0x3)` of `LWL`, on the value of the register and the word of memory. -/
def mergeLWL (tmp old value : BitVec 32) : BitVec 32 :=
  match (tmp &&& 3#32).toNat with
  | 0 => value
  | 1 => (old &&& 0xff#32) ||| (value <<< 8)
  | 2 => (old &&& 0xffff#32) ||| (value <<< 16)
  | _ => (old &&& 0xffffff#32) ||| (value <<< 24)

/-- The `switch (tmp & 0x3)` of `LWR`. -/
def mergeLWR (tmp old value : BitVec 32) : BitVec 32 :=
  match (tmp &&& 3#32).toNat with
  | 0 => (old &&& 0xffffff00#32) ||| (value.sshiftRight 24 &&& 0xff#32)
  | 1 => (old &&& 0xffff0000#32) ||| (value.sshiftRight 16 &&& 0xffff#32)
  | 2 => (old &&& 0xff000000#32) ||| (value.sshiftRight 8 &&& 0xffffff#32)
  | _ => value

/-- The `switch (tmp & 0x3)` of `SWL`, on the word of memory and the value of the register. -/
def mergeSWL (tmp value rt : BitVec 32) : BitVec 32 :=
  match (tmp &&& 3#32).toNat with
  | 0 => rt
  | 1 => (value &&& 0xff000000#32) ||| (rt.sshiftRight 8 &&& 0xffffff#32)
  | 2 => (value &&& 0xffff0000#32) ||| (rt.sshiftRight 16 &&& 0xffff#32)
  | _ => (value &&& 0xffffff00#32) ||| (rt.sshiftRight 24 &&& 0xff#32)

/-- The `switch (tmp & 0x3)` of `SWR`. -/
def mergeSWR (tmp value rt : BitVec 32) : BitVec 32 :=
  match (tmp &&& 3#32).toNat with
  | 0 => (value &&& 0xffffff#32) ||| (rt <<< 24)
  | 1 => (value &&& 0xffff#32) ||| (rt <<< 16)
  | 2 => (value &&& 0xff#32) ||| (rt <<< 8)
  | _ => rt

/-- The sign bits of two words differ. -/
def signsDiffer (a b : BitVec 32) : Bool := (a ^^^ b) &&& SIGN_BIT ≠ 0

namespace Cpu

variable {host : Host}

/-- `ASSERT`. -/
def assert (cond : Bool) : Cpu host Unit := if cond then pure () else .stop .abort

/-- Leave the `switch` with a load into `rt` pending. -/
def load (rt : BitVec 5) (value pcAfter : BitVec 32) : Cpu host Next :=
  pure ⟨pcAfter, rt.setWidth 32, value⟩

/-- Leave the `switch` with no load pending. -/
def go (pcAfter : BitVec 32) : Cpu host Next := pure ⟨pcAfter, 0, 0⟩

/-- An assignment to a register, after which the `switch` is left. -/
def assign (r : BitVec 5) (v pcAfter : BitVec 32) : Cpu host Next := do
  setReg (gpr r) v
  go pcAfter

/-- Both words of a result, for `HiReg` and `LoReg`. -/
def assignHiLo (hi lo pcAfter : BitVec 32) : Cpu host Next := do
  setReg LoReg lo
  setReg HiReg hi
  go pcAfter

/-- The word `LWL` and `LWR` read, and what the register they load is about to hold. -/
def unalignedLoad (tmp : BitVec 32) (rt : BitVec 5) : Cpu host (BitVec 32 × BitVec 32) := do
  assert (tmp &&& 3#32 = 0)
  let value ← readMem tmp 4
  let loadReg ← reg LoadReg
  let old ← if loadReg = rt.setWidth 32 then reg LoadValueReg else reg (gpr rt)
  pure (old, value)

/-- `SWL` and `SWR`: read a word, merge the register into it and write it back. -/
def unalignedStore (tmp rt : BitVec 32) (merge : BitVec 32 → BitVec 32 → BitVec 32 → BitVec 32) :
    Cpu host Unit := do
  assert (tmp &&& 3#32 = 0)
  let value ← readMem (tmp &&& ~~~3#32) 4
  writeMem (tmp &&& ~~~3#32) 4 (merge tmp value rt)

/-- The `switch` of `OneInstruction`. The source registers are read first; the three instructions
that write a link register before they read `rs` read it again. -/
def execute (instr : Instruction) : Cpu host Next := do
  let nextPC ← reg NextPCReg
  let rs ← reg (gpr instr.rs)
  let rt ← reg (gpr instr.rt)
  let extra := instr.extra
  let pcAfter := nextPC + 4
  -- where a branch goes whose condition is `taken`
  let branch (taken : Bool) := if taken then nextPC + indexToAddr extra else pcAfter
  let jump := (pcAfter &&& 0xf0000000#32) ||| indexToAddr extra
  match instr.opCode with
  | .ADD =>
    let sum := rs + rt
    if !signsDiffer rs rt && signsDiffer rs sum then raise .OverflowException 0
    else assign instr.rd sum pcAfter
  | .ADDI =>
    let sum := rs + extra
    if !signsDiffer rs extra && signsDiffer extra sum then raise .OverflowException 0
    else assign instr.rt sum pcAfter
  | .ADDIU => assign instr.rt (rs + extra) pcAfter
  | .ADDU => assign instr.rd (rs + rt) pcAfter
  | .AND => assign instr.rd (rs &&& rt) pcAfter
  | .ANDI => assign instr.rt (rs &&& (extra &&& 0xffff#32)) pcAfter
  | .BEQ => go (branch (rs = rt))
  | .BGEZAL => do
    setReg RetAddrReg (nextPC + 4)
    -- the link is written before `rs` is tested
    let rs ← reg (gpr instr.rs)
    go (branch (rs &&& SIGN_BIT = 0))
  | .BGEZ => go (branch (rs &&& SIGN_BIT = 0))
  | .BGTZ => go (branch (BitVec.slt 0 rs))
  | .BLEZ => go (branch (BitVec.sle rs 0))
  | .BLTZAL => do
    setReg RetAddrReg (nextPC + 4)
    let rs ← reg (gpr instr.rs)
    go (branch (rs &&& SIGN_BIT ≠ 0))
  | .BLTZ => go (branch (rs &&& SIGN_BIT ≠ 0))
  | .BNE => go (branch (rs ≠ rt))
  | .DIV =>
    if rt = 0 then assignHiLo 0 0 pcAfter
    -- the quotient does not fit in an `int`
    else if rs = SIGN_BIT ∧ rt = -1#32 then .stop .undefined
    else assignHiLo (rs.srem rt) (rs.sdiv rt) pcAfter
  | .DIVU => if rt = 0 then assignHiLo 0 0 pcAfter else assignHiLo (rs % rt) (rs / rt) pcAfter
  | .JAL => do
    setReg RetAddrReg (nextPC + 4)
    go jump
  | .J => go jump
  | .JALR => do
    setReg (gpr instr.rd) (nextPC + 4)
    let target ← reg (gpr instr.rs)
    go target
  | .JR => go rs
  | .LB => do
    let value ← readMem (rs + extra) 1
    load instr.rt (if value &&& 0x80#32 ≠ 0 then value ||| 0xffffff00#32
      else value &&& 0xff#32) pcAfter
  | .LBU => do
    let value ← readMem (rs + extra) 1
    load instr.rt (value &&& 0xff#32) pcAfter
  | .LH =>
    let tmp := rs + extra
    if tmp &&& 1#32 ≠ 0 then raise .AddressErrorException tmp
    else do
      let value ← readMem tmp 2
      load instr.rt (if value &&& 0x8000#32 ≠ 0 then value ||| 0xffff0000#32
        else value &&& 0xffff#32) pcAfter
  | .LHU =>
    let tmp := rs + extra
    if tmp &&& 1#32 ≠ 0 then raise .AddressErrorException tmp
    else do
      let value ← readMem tmp 2
      load instr.rt (value &&& 0xffff#32) pcAfter
  | .LUI => assign instr.rt (extra <<< 16) pcAfter
  | .LW =>
    let tmp := rs + extra
    if tmp &&& 3#32 ≠ 0 then raise .AddressErrorException tmp
    else do
      let value ← readMem tmp 4
      load instr.rt value pcAfter
  | .LWL => do
    let (old, value) ← unalignedLoad (rs + extra) instr.rt
    load instr.rt (mergeLWL (rs + extra) old value) pcAfter
  | .LWR => do
    let (old, value) ← unalignedLoad (rs + extra) instr.rt
    load instr.rt (mergeLWR (rs + extra) old value) pcAfter
  | .MFHI => do
    let hi ← reg HiReg
    assign instr.rd hi pcAfter
  | .MFLO => do
    let lo ← reg LoReg
    assign instr.rd lo pcAfter
  | .MTHI => do
    setReg HiReg rs
    go pcAfter
  | .MTLO => do
    setReg LoReg rs
    go pcAfter
  | .MULT => assignHiLo (mult rs rt true).1 (mult rs rt true).2 pcAfter
  | .MULTU => assignHiLo (mult rs rt false).1 (mult rs rt false).2 pcAfter
  | .NOR => assign instr.rd (~~~(rs ||| rt)) pcAfter
  -- the source has the register `rs` on both sides
  | .OR => assign instr.rd (rs ||| rs) pcAfter
  | .ORI => assign instr.rt (rs ||| (extra &&& 0xffff#32)) pcAfter
  | .SB => do
    writeMem (rs + extra) 1 rt
    go pcAfter
  | .SH => do
    writeMem (rs + extra) 2 rt
    go pcAfter
  | .SLL => assign instr.rd (rt <<< extra.toNat) pcAfter
  | .SLLV => assign instr.rd (rt <<< (rs &&& 0x1f#32).toNat) pcAfter
  | .SLT => assign instr.rd (if rs.slt rt then 1 else 0) pcAfter
  | .SLTI => assign instr.rt (if rs.slt extra then 1 else 0) pcAfter
  | .SLTIU => assign instr.rt (if rs.ult extra then 1 else 0) pcAfter
  | .SLTU => assign instr.rd (if rs.ult rt then 1 else 0) pcAfter
  | .SRA => assign instr.rd (rt.sshiftRight extra.toNat) pcAfter
  | .SRAV => assign instr.rd (rt.sshiftRight (rs &&& 0x1f#32).toNat) pcAfter
  -- `tmp` is an `int` here too
  | .SRL => assign instr.rd (rt.sshiftRight extra.toNat) pcAfter
  | .SRLV => assign instr.rd (rt.sshiftRight (rs &&& 0x1f#32).toNat) pcAfter
  | .SUB =>
    let diff := rs - rt
    if signsDiffer rs rt && signsDiffer rs diff then raise .OverflowException 0
    else assign instr.rd diff pcAfter
  | .SUBU => assign instr.rd (rs - rt) pcAfter
  | .SW => do
    writeMem (rs + extra) 4 rt
    go pcAfter
  | .SWL => do
    unalignedStore (rs + extra) rt mergeSWL
    go pcAfter
  | .SWR => do
    unalignedStore (rs + extra) rt mergeSWR
    go pcAfter
  | .SYSCALL => raise .SyscallException 0
  | .XOR => assign instr.rd (rs ^^^ rt) pcAfter
  | .XORI => assign instr.rt (rs ^^^ (extra &&& 0xffff#32)) pcAfter
  | .RES => raise .IllegalInstrException 0
  | .UNIMP => raise .IllegalInstrException 0
  | .RFE => .stop .abort
  | .SPECIAL => .stop .abort
  | .BCOND => .stop .abort

/-- The end of `OneInstruction`: the delayed load and the program counters. -/
def install (next : Next) : Cpu host Unit := do
  delayedLoad next.nextLoadReg next.nextLoadValue
  let pc ← reg PCReg
  setReg PrevPCReg pc
  let nextPC ← reg NextPCReg
  setReg PCReg nextPC
  setReg NextPCReg next.pcAfter

/-- `Machine::OneInstruction`. -/
def oneInstruction : Cpu host Unit := do
  let pc ← reg PCReg
  let raw ← readMem pc 4
  let next ← execute (decode raw)
  install next

end Cpu

end Nachos
