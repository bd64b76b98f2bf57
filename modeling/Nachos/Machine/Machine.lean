import Nachos.Library.BlockWrite
import Nachos.Library.Confined
import Nachos.Machine.Translate

/-!
# The simulated machine

The registers, the memory and the translation tables of `machine/machine.h`, with `ReadMem`,
`WriteMem` and `DelayedLoad`. Memory is host memory by the offset from `mainMemory`. A failing
translation ends in `RaiseException`; what the kernel does then is not part of this module, so a
failed access is the result `Trap.raise`.

`Access` lists what a program can do to the machine: write a register, or read or write memory
through the translation tables. `Cpu` is the type of programs that do nothing else.
-/

namespace Nachos

open Relation BlockWrite

/-- `NumGPRegs` of `machine.h`. -/
def NumGPRegs : Nat := 32

/-- `NumTotalRegs` of `machine.h`. -/
def NumTotalRegs : Nat := 40

/-- The number of a register. -/
abbrev Reg := Fin 40

/-- The register that is always zero. -/
abbrev R0 : Reg := 0

/-- The code of a system call, and its result. -/
abbrev R2 : Reg := 2

/-- The arguments of a system call. -/
abbrev R4 : Reg := 4

abbrev R5 : Reg := 5

abbrev R6 : Reg := 6

abbrev StackReg : Reg := 29

abbrev RetAddrReg : Reg := 31

abbrev HiReg : Reg := 32

abbrev LoReg : Reg := 33

abbrev PCReg : Reg := 34

abbrev NextPCReg : Reg := 35

abbrev PrevPCReg : Reg := 36

abbrev LoadReg : Reg := 37

abbrev LoadValueReg : Reg := 38

abbrev BadVAddrReg : Reg := 39

/-- The general register of an instruction field. -/
def gpr (r : BitVec 5) : Reg := ⟨r.toNat, by have := r.isLt; omega⟩

/-- The field of an instruction names a general register. -/
theorem gpr_lt (r : BitVec 5) : (gpr r).val < NumGPRegs := r.isLt

/-- The special registers are not general ones. -/
theorem gpr_ne (r : BitVec 5) {n : Reg} (hn : NumGPRegs ≤ n.val) : n ≠ gpr r := by
  rintro rfl
  exact absurd (gpr_lt r) (not_lt.mpr hn)

/-! ## Byte order -/

/-- `ShortToHost`. -/
def shortToHost (host : Host) (shortword : BitVec 16) : BitVec 16 :=
  match host with
  | .littleEndian => shortword
  | .bigEndian => ((shortword <<< 8) &&& 0xff00#16) ||| ((shortword >>> 8) &&& 0x00ff#16)

/-- `WordToMachine`. -/
def wordToMachine (host : Host) (word : BitVec 32) : BitVec 32 := wordToHost host word

/-- `ShortToMachine`. -/
def shortToMachine (host : Host) (shortword : BitVec 16) : BitVec 16 := shortToHost host shortword

/-- Two consecutive bytes as the host reads them through an `unsigned short` pointer. -/
def hostShort (host : Host) (b0 b1 : BitVec 8) : BitVec 16 :=
  match host with
  | .littleEndian => b1 ++ b0
  | .bigEndian => b0 ++ b1

/-- The bytes the host writes through an `unsigned short` pointer. -/
def hostShortBytes (host : Host) (s : BitVec 16) : List (BitVec 8) :=
  match host with
  | .littleEndian => [s.extractLsb' 0 8, s.extractLsb' 8 8]
  | .bigEndian => [s.extractLsb' 8 8, s.extractLsb' 0 8]

/-- The `switch (size)` of `ReadMem`; `none` is the failing `ASSERT`. A `char` of the host is
signed, so a single byte is sign-extended. -/
def readBytes (host : Host) (memory : Store (BitVec 8)) (p : Int) : Nat → Option (BitVec 32)
  | 1 => some ((memory p).signExtend 32)
  | 2 => some ((shortToHost host (hostShort host (memory p) (memory (p + 1)))).setWidth 32)
  | 4 => some (wordToHost host
      (hostWord host (memory p) (memory (p + 1)) (memory (p + 2)) (memory (p + 3))))
  | _ => none

/-- The `switch (size)` of `WriteMem`: the bytes it stores. -/
def writtenBytes (host : Host) (value : BitVec 32) : Nat → Option (List (BitVec 8))
  | 1 => some [value.setWidth 8]
  | 2 => some (hostShortBytes host (shortToMachine host (value.setWidth 16)))
  | 4 => some (hostWordBytes host (wordToMachine host value))
  | _ => none

/-- Only bytes, halfwords and words are written. -/
theorem length_of_writtenBytes {host : Host} {value : BitVec 32} {size : Nat}
    {bytes : List (BitVec 8)} (h : writtenBytes host value size = some bytes) :
    bytes.length = size ∧ (size = 1 ∨ size = 2 ∨ size = 4) := by
  unfold writtenBytes at h
  split at h
  · cases h
    simp
  · cases h
    cases host <;> simp [hostShortBytes]
  · cases h
    cases host <;> simp [hostWordBytes]
  · cases h

/-! ## The machine -/

/-- `Machine`: the registers, main memory and the translation tables. -/
structure Machine where
  registers : Reg → BitVec 32
  mainMemory : Store (BitVec 8)
  tables : Tables

/-- Why a program on the machine does not go on: a failed `ASSERT`, an undefined operation of the
host, or a call of `RaiseException`. -/
inductive Trap where
  | abort
  | undefined
  | raise (which : ExceptionType) (badVAddr : BitVec 32)
  deriving DecidableEq, Repr

namespace Machine

/-- `Machine::WriteRegister`. -/
def writeRegister (m : Machine) (num : Reg) (value : BitVec 32) : Machine :=
  { m with registers := Function.update m.registers num value }

/-- Store bytes at a physical address. -/
def store (m : Machine) (p : Int) (bytes : List (BitVec 8)) : Machine :=
  { m with mainMemory := write m.mainMemory ⟨p, bytes⟩ }

/-- The tables with their new `use` and `dirty` bits. -/
def touched (m : Machine) (tables : Tables) : Machine := { m with tables := tables }

/-- The assignment `registers[registers[LoadReg]] = registers[LoadValueReg]`. From 40 on the index
is outside the register file and the host has no defined outcome; the model then writes nothing. In
a process `LoadReg` is below 32. -/
def commitLoad (m : Machine) : Machine :=
  if h : (m.registers LoadReg).toNat < 40 then
    m.writeRegister ⟨(m.registers LoadReg).toNat, h⟩ (m.registers LoadValueReg)
  else m

/-- `Machine::DelayedLoad`. -/
def delayedLoad (m : Machine) (nextReg nextValue : BitVec 32) : Machine :=
  ((m.commitLoad.writeRegister LoadReg nextReg).writeRegister LoadValueReg
    nextValue).writeRegister 0 0

@[simp] theorem writeRegister_self (m : Machine) (r : Reg) (v : BitVec 32) :
    (m.writeRegister r v).registers r = v := Function.update_self ..

@[simp] theorem writeRegister_of_ne (m : Machine) {r r' : Reg} (v : BitVec 32) (h : r' ≠ r) :
    (m.writeRegister r v).registers r' = m.registers r' := Function.update_of_ne h ..

/-- Registers after a write. -/
theorem writeRegister_apply (m : Machine) (r r' : Reg) (v : BitVec 32) :
    (m.writeRegister r v).registers r' = if r' = r then v else m.registers r' :=
  Function.update_apply ..

/-- The committed load changes one register at most. -/
theorem commitLoad_apply (m : Machine) (r : Reg) :
    m.commitLoad.registers r =
      if (m.registers LoadReg).toNat = r.val then m.registers LoadValueReg else m.registers r := by
  unfold commitLoad
  split
  · simp only [writeRegister_apply, Fin.ext_iff, eq_comm]
  · rename_i h
    rw [if_neg (by omega)]

/-- Registers after `DelayedLoad`. -/
theorem delayedLoad_apply (m : Machine) (nextReg nextValue : BitVec 32) (r : Reg) :
    (m.delayedLoad nextReg nextValue).registers r =
      if r = 0 then 0 else if r = LoadValueReg then nextValue
      else if r = LoadReg then nextReg else m.commitLoad.registers r := by
  simp only [delayedLoad, writeRegister_apply]

/-- `DelayedLoad` writes registers only. -/
theorem delayedLoad_eq (m : Machine) (nextReg nextValue : BitVec 32) :
    m.delayedLoad nextReg nextValue =
      { m with registers := (m.delayedLoad nextReg nextValue).registers } := by
  unfold delayedLoad commitLoad
  split <;> rfl

@[simp] theorem delayedLoad_mainMemory (m : Machine) (nextReg nextValue : BitVec 32) :
    (m.delayedLoad nextReg nextValue).mainMemory = m.mainMemory := by
  rw [delayedLoad_eq]

@[simp] theorem delayedLoad_tables (m : Machine) (nextReg nextValue : BitVec 32) :
    (m.delayedLoad nextReg nextValue).tables = m.tables := by
  rw [delayedLoad_eq]

@[simp] theorem touched_registers (m : Machine) (tables : Tables) :
    (m.touched tables).registers = m.registers := rfl

end Machine

/-! ## Accesses -/

/-- What a program can do to the machine in one go. -/
inductive Access (host : Host) : Machine → Machine → Prop where
  | register (m : Machine) (r : Reg) (v : BitVec 32) : Access host m (m.writeRegister r v)
  | touch {m : Machine} {virtAddr : BitVec 32} {size : Nat} {writing : Bool} {p : Nat}
      {tables : Tables} (h : translate m.tables virtAddr size writing = .ok p tables) :
      Access host m (m.touched tables)
  | store {m : Machine} {virtAddr value : BitVec 32} {size p : Nat} {tables : Tables}
      {bytes : List (BitVec 8)} (h : translate m.tables virtAddr size true = .ok p tables)
      (hbytes : writtenBytes host value size = some bytes) :
      Access host m ((m.touched tables).store p bytes)

/-- Programs on the machine. -/
abbrev Cpu (host : Host) (α : Type) := Confined (Access host) Trap α

/-- The delayed load writes a register. -/
theorem commitLoad_access (host : Host) (m : Machine) :
    ReflTransGen (Access host) m m.commitLoad := by
  unfold Machine.commitLoad
  split
  · exact .single (.register ..)
  · exact .refl

/-- `DelayedLoad` writes four registers. -/
theorem delayedLoad_access (host : Host) (m : Machine) (nextReg nextValue : BitVec 32) :
    ReflTransGen (Access host) m (m.delayedLoad nextReg nextValue) :=
  (commitLoad_access host m).tail (.register ..) |>.tail (.register ..) |>.tail (.register ..)

namespace Cpu

variable {host : Host}

/-- The value of a register. -/
def reg (r : Reg) : Cpu host (BitVec 32) := .read (·.registers r)

/-- An assignment to a register. -/
def setReg (r : Reg) (v : BitVec 32) : Cpu host Unit :=
  .update (·.writeRegister r v) fun m => .single (.register m r v)

/-- A call of `RaiseException`, behind which the caller returns. -/
def raise {α : Type} (which : ExceptionType) (badVAddr : BitVec 32) : Cpu host α :=
  .stop (.raise which badVAddr)

/-- `Machine::ReadMem`. -/
def readMem (addr : BitVec 32) (size : Nat) : Cpu host (BitVec 32) where
  run m := match translate m.tables addr size false with
    | .abort => (.error .abort, m)
    | .fault exception => (.error (.raise exception addr), m)
    | .ok p tables => match readBytes host m.mainMemory p size with
        | none => (.error .abort, m.touched tables)
        | some value => (.ok value, m.touched tables)
  confined m := by
    split
    · exact .refl
    · exact .refl
    · rename_i h
      split <;> exact .single (.touch h)

/-- `Machine::WriteMem`. -/
def writeMem (addr : BitVec 32) (size : Nat) (value : BitVec 32) : Cpu host Unit where
  run m := match translate m.tables addr size true with
    | .abort => (.error .abort, m)
    | .fault exception => (.error (.raise exception addr), m)
    | .ok p tables => match writtenBytes host value size with
        | none => (.error .abort, m.touched tables)
        | some bytes => (.ok (), (m.touched tables).store p bytes)
  confined m := by
    split
    · exact .refl
    · exact .refl
    · rename_i h
      split
      · exact .single (.touch h)
      · rename_i hbytes
        exact .single (.store h hbytes)

/-- `ReadMem` leaves the registers alone. -/
theorem readMem_registers (addr : BitVec 32) (size : Nat) (m : Machine) :
    ((readMem addr size : Cpu host _).run m).2.registers = m.registers := by
  simp only [readMem]
  split
  · rfl
  · rfl
  · split <;> rfl

/-- So does `WriteMem`. -/
theorem writeMem_registers (addr : BitVec 32) (size : Nat) (value : BitVec 32) (m : Machine) :
    ((writeMem addr size value : Cpu host _).run m).2.registers = m.registers := by
  simp only [writeMem]
  split
  · rfl
  · rfl
  · split <;> rfl

/-- `Machine::DelayedLoad`. -/
def delayedLoad (nextReg nextValue : BitVec 32) : Cpu host Unit :=
  .update (·.delayedLoad nextReg nextValue) fun m => delayedLoad_access host m nextReg nextValue

end Cpu

end Nachos
