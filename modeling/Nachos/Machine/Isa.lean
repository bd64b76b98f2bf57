import Nachos.Machine.Arithmetic
import Nachos.Machine.DelaySlots
import Nachos.Machine.FlatMemory

/-!
# The machine a user program is written for

The MIPS-I as the programmer sees it: 32 general registers of which the first is always zero, the
pair `hi` and `lo`, two program counters and an array of bytes. A load writes its register at once;
the state only remembers which register that was, since the instruction in the delay slot of a load
must not use it. Nothing here is taken from `OneInstruction` but the names of the opcodes.
-/

namespace Nachos

/-- The state of a user program. -/
@[ext]
structure Isa where
  gpr : BitVec 5 → BitVec 32
  zero : gpr 0 = 0
  hi : BitVec 32
  lo : BitVec 32
  pc : BitVec 32
  nextPC : BitVec 32
  /-- The register that the last instruction has loaded, 0 if it was not a load. -/
  loading : BitVec 5
  memory : UserMemory

/-- An exception, with the address it is about. -/
abbrev Exception := ExceptionType × BitVec 32

/-- The exception of an access to memory, by its address, its size and whether it writes. -/
abbrev Protection := BitVec 32 → Nat → Bool → Option ExceptionType

/-- The size of a load, and whether it extends the sign. -/
def mipsLoad : OpCode → Option (Nat × Bool)
  | .LB => some (1, true)
  | .LBU => some (1, false)
  | .LH => some (2, true)
  | .LHU => some (2, false)
  | .LW => some (4, false)
  | _ => none

/-- The size of a store. -/
def mipsStore : OpCode → Option Nat
  | .SB => some 1
  | .SH => some 2
  | .SW => some 4
  | _ => none

/-- The instructions that write the pair: what they leave in `hi` and `lo`. -/
def mipsHiLo (op : OpCode) (rs rt hi lo : BitVec 32) : Option (BitVec 32 × BitVec 32) :=
  let words (product : BitVec 64) := some (product.extractLsb' 32 32, product.extractLsb' 0 32)
  match op with
  | .MULT => words (rs.signExtend 64 * rt.signExtend 64)
  | .MULTU => words (rs.setWidth 64 * rt.setWidth 64)
  | .DIV => some (rs.srem rt, rs.sdiv rt)
  | .DIVU => some (rs % rt, rs / rt)
  | .MTHI => some (rs, lo)
  | .MTLO => some (hi, rs)
  | _ => none

namespace Isa

variable (a : Isa)

/-- Write a general register. -/
def write (r : BitVec 5) (v : BitVec 32) : Isa :=
  { a with
    gpr := fun r' => if r' = 0 then 0 else if r' = r then v else a.gpr r'
    zero := if_pos rfl }

/-- Write the pair of a product or a division. -/
def writeHiLo (hi lo : BitVec 32) : Isa := { a with hi := hi, lo := lo }

/-- Go on to the next instruction, with the one behind it and the register that was loaded. -/
def advance (nextPC : BitVec 32) (loading : BitVec 5) : Isa :=
  { a with pc := a.nextPC, nextPC := nextPC, loading := loading }

/-- Store a return address. -/
def link (l : Option (BitVec 5)) (v : BitVec 32) : Isa :=
  match l with
  | none => a
  | some r => a.write r v

/-- The low bytes of a word, with or without their sign. -/
def extend (size : Nat) (signed : Bool) (v : BitVec 32) : BitVec 32 :=
  if signed then (v.setWidth (8 * size)).signExtend 32 else (v.setWidth (8 * size)).setWidth 32

/-- Read memory. -/
def read (protection : Protection) (addr : BitVec 32) (size : Nat) :
    Except Exception (BitVec 32) :=
  match protection addr size false with
  | some x => .error (x, addr)
  | none => .ok ((a.memory.read addr.toNat size).getD 0)

/-- A load into `r`. -/
def load (protection : Protection) (addr : BitVec 32) (size : Nat) (signed : Bool)
    (r : BitVec 5) : Except Exception Isa :=
  (a.read protection addr size).map fun v =>
    (a.write r (extend size signed v)).advance (a.nextPC + 4) r

/-- A store of `v`. -/
def store (protection : Protection) (addr : BitVec 32) (size : Nat) (v : BitVec 32) :
    Except Exception Isa :=
  match protection addr size true with
  | some x => .error (x, addr)
  | none => .ok (advance { a with memory := a.memory.write addr.toNat (littleEndianBytes v size) }
      (a.nextPC + 4) 0)

/-- An access to memory, a move from `hi` or `lo` or a trap. -/
def executeOther (protection : Protection) (word : BitVec 32) : Except Exception Isa :=
  let addr := a.gpr (rsField word) + (immediateField word).signExtend 32
  let next := a.nextPC + 4
  match mipsLoad (decode word).opCode, mipsStore (decode word).opCode with
  | some (size, signed), _ => a.load protection addr size signed (rtField word)
  | none, some size => a.store protection addr size (a.gpr (rtField word))
  | none, none => match (decode word).opCode with
      | .MFHI => .ok ((a.write (rdField word) a.hi).advance next 0)
      | .MFLO => .ok ((a.write (rdField word) a.lo).advance next 0)
      | .SYSCALL => .error (.SyscallException, 0)
      | _ => .error (.IllegalInstrException, 0)

/-- Execute an instruction word. -/
def execute (protection : Protection) (word : BitVec 32) : Except Exception Isa :=
  let rs := a.gpr (rsField word)
  let rt := a.gpr (rtField word)
  let next := a.nextPC + 4
  match mipsAlu word rs rt with
  | some alu =>
    if alu.overflow then .error (.OverflowException, 0)
    else .ok ((a.write alu.dest alu.result).advance next 0)
  | none => match mipsBranch word a.pc rs rt with
      | some b => .ok ((a.link b.link next).advance (if b.taken then b.target else next) 0)
      | none => match mipsHiLo (decode word).opCode rs rt a.hi a.lo with
          | some (hi, lo) => .ok ((a.writeHiLo hi lo).advance next 0)
          | none => a.executeOther protection word

/-- One instruction: fetch it and execute it. -/
def step (protection : Protection) : Except Exception Isa :=
  (a.read protection a.pc 4).bind (a.execute protection)

/-- A register other than the one written. -/
theorem write_of_ne {r r' : BitVec 5} (v : BitVec 32) (h : r' ≠ r) :
    (a.write r v).gpr r' = a.gpr r' := by
  show (if r' = 0 then 0 else if r' = r then v else a.gpr r') = a.gpr r'
  rw [if_neg h]
  split
  · rename_i h0
    rw [h0, a.zero]
  · rfl

/-- The register written. -/
theorem write_self {r : BitVec 5} (v : BitVec 32) (h : r ≠ 0) : (a.write r v).gpr r = v := by
  show (if r = 0 then 0 else if r = r then v else a.gpr r) = v
  rw [if_neg h, if_pos rfl]

end Isa

end Nachos
