import Nachos.Machine.Mipssim

/-!
# Kernel code of a system call

A handler of `userprog/exception.cc` reads registers, copies from and to user memory, uses the
file table and calls into the rest of the system: the console, the host's files, the semaphore
table and the process table. These calls are requests of type `Call`, answered by an arbitrary
function on an abstract world (`Env`). While a call blocks, other threads run: the answer brings
a new memory along, and `Scheduler::Run` restores the registers. When an interrupt comes due
during a call, `CheckIfDue` runs `DelayedLoad(0, 0)`.

`KernelAccess` lists what kernel code can do to the state, and `Sys` is the type of programs that
do nothing else. Its parameter `advances` tells whether the program may call `IncrementR`.
-/

namespace Nachos

open Relation BlockWrite

/-- A `char`. -/
abbrev Byte := BitVec 8

/-- `N_FILES_IN_TABLE` of `filesys.h`. -/
abbrev N_FILES_IN_TABLE : Nat := 100

/-- `OpenFile` of the stub file system. `currentOffset` is an `int` there. It cannot wrap: it moves
within a file of the host, and files of the i386 host end below 2^31. -/
structure OpenFile where
  file : Int
  currentOffset : Int
  type : Int
  deriving DecidableEq, Repr

/-- `FileSystem::file_table`. -/
abbrev FileTable := Fin N_FILES_IN_TABLE → Option OpenFile

/-- Why kernel code does not return to its caller. -/
inductive Stop where
  /-- `interrupt->Halt()`. -/
  | halt
  /-- A failed `ASSERT` or a failed allocation. -/
  | abort
  /-- An undefined operation of the host. -/
  | undefined
  /-- `currentThread->Finish()`. -/
  | finish
  /-- The thread sleeps for good. -/
  | blocked
  deriving DecidableEq, Repr

/-- The calls of the handlers into the rest of the system. -/
inductive Call where
  /-- `gSynchConsole->Read`. -/
  | consoleRead (numBytes : Int)
  /-- `gSynchConsole->Write`. -/
  | consoleWrite (bytes : List Byte)
  | openForWrite (name : List Byte)
  | openForReadWrite (name : List Byte)
  | close (file : Int)
  /-- `Lseek` and `ReadPartial`. -/
  | readAt (file numBytes position : Int)
  /-- `Lseek` and `WriteFile`. -/
  | writeAt (file : Int) (bytes : List Byte) (position : Int)
  /-- `semTab->Create`. -/
  | semCreate (name : List Byte) (init : Int)
  /-- `semTab->Wait`. -/
  | semWait (name : List Byte)
  /-- `semTab->Signal`. -/
  | semSignal (name : List Byte)
  /-- `pTab->JoinUpdate`. -/
  | joinUpdate (id : Int)
  /-- `pTab->ExitUpdate`. -/
  | exitUpdate (ec : Int)
  /-- `pTab->ExecUpdate`. -/
  | execUpdate (name : List Byte)
  deriving DecidableEq, Repr

/-- What a call gives back. -/
structure Reply (W : Type) where
  result : Int
  /-- The bytes a read delivers. -/
  data : List Byte
  world : W
  memory : Store Byte
  /-- An interrupt came due meanwhile. -/
  due : Bool

/-- The rest of the system. The arithmetic of `float` is not modelled: `floatValue` is what
`ReadFloat` makes of a valid line and `floatText` what `PrintFloat` writes for a number other
than zero. -/
structure Env (W : Type) where
  serve : Call → W → Store Byte → Except Stop (Reply W)
  /-- What an uninitialised `int` on the stack holds. -/
  uninit : W → BitVec 32
  floatValue : List Byte → Int → Int
  floatText : Int → List Byte

/-- The state a handler works on. `log` is the list of answered calls with their results, newest
last. -/
structure Kernel (W : Type) where
  machine : Machine
  fileTable : FileTable
  world : W
  log : List (Call × Int)

/-- The registers after the first two lines of `Machine::RaiseException`. -/
def Machine.enter (m : Machine) (badVAddr : BitVec 32) : Machine :=
  (m.writeRegister BadVAddrReg badVAddr).delayedLoad 0 0

/-- `IncrementR`. -/
def Machine.incrementR (m : Machine) : Machine :=
  let m₁ := m.writeRegister PrevPCReg (m.registers PCReg)
  let counter := m₁.registers NextPCReg
  (m₁.writeRegister PCReg counter).writeRegister NextPCReg (counter + 4)

/-- No load is pending and `r0` is zero. -/
def Machine.Settled (m : Machine) : Prop :=
  m.registers LoadReg = 0 ∧ m.registers LoadValueReg = 0 ∧ m.registers R0 = 0

namespace Kernel

variable {W : Type}

/-- The state after an answered call. -/
def answered (k : Kernel W) (c : Call) (r : Reply W) : Kernel W :=
  let m := { k.machine with mainMemory := r.memory }
  { k with
    machine := if r.due then m.delayedLoad 0 0 else m
    world := r.world
    log := k.log ++ [(c, r.result)] }

/-- An answer does not change the page table. -/
theorem answered_tables (k : Kernel W) (c : Call) (r : Reply W) :
    (k.answered c r).machine.tables = k.machine.tables := by
  unfold answered
  dsimp only
  split
  · exact Machine.delayedLoad_tables ..
  · rfl

/-- The state on entry to `ExceptionHandler`. -/
def enter (k : Kernel W) (badVAddr : BitVec 32) : Kernel W :=
  { k with machine := k.machine.enter badVAddr }

end Kernel

/-- What kernel code can do in one go. -/
inductive KernelAccess (host : Host) (W : Type) (advances : Bool) : Kernel W → Kernel W → Prop where
  /-- A register is written by the handler: the result register only. -/
  | result (k : Kernel W) (v : BitVec 32) :
      KernelAccess host W advances k { k with machine := k.machine.writeRegister R2 v }
  /-- User memory is read or written through the page table. -/
  | memory {k : Kernel W} {m : Machine} (h : ReflTransGen (Access host) k.machine m)
      (hreg : m.registers = k.machine.registers) :
      KernelAccess host W advances k { k with machine := m }
  /-- An access to user memory traps. -/
  | trap (k : Kernel W) (badVAddr : BitVec 32) :
      KernelAccess host W advances k (k.enter badVAddr)
  | fileTable (k : Kernel W) (table : FileTable) :
      KernelAccess host W advances k { k with fileTable := table }
  | call (k : Kernel W) (c : Call) (r : Reply W) :
      KernelAccess host W advances k (k.answered c r)
  | advance (k : Kernel W) (h : advances = true) :
      KernelAccess host W advances k { k with machine := k.machine.incrementR }

/-- Kernel programs. -/
abbrev Sys (host : Host) (W : Type) (advances : Bool) (α : Type) :=
  Confined (KernelAccess host W advances) Stop α

namespace Sys

variable {host : Host} {W : Type} {advances : Bool}

/-- `machine->ReadRegister`. -/
def reg (r : Reg) : Sys host W advances (BitVec 32) := .read (·.machine.registers r)

/-- `machine->WriteRegister(2, value)`. -/
def setR2 (value : Int) : Sys host W advances Unit :=
  .update (fun k => { k with machine := k.machine.writeRegister R2 (BitVec.ofInt 32 value) })
    fun k => .single (.result k _)

/-- A call into the rest of the system. -/
def call (env : Env W) (c : Call) : Sys host W advances (Int × List Byte) where
  run k := match env.serve c k.world k.machine.mainMemory with
    | .error e => (.error e, k)
    | .ok r => (.ok (r.result, r.data), k.answered c r)
  confined k := by
    split
    · exact .refl
    · exact .single (.call ..)

/-- The run of an answered call. -/
theorem call_run {env : Env W} {c : Call} {k : Kernel W} {r : Reply W}
    (h : env.serve c k.world k.machine.mainMemory = .ok r) :
    (call env c : Sys host W advances _).run k = (.ok (r.result, r.data), k.answered c r) := by
  simp only [call, h]

/-- `fileSystem->file_table`. -/
def fileTable : Sys host W advances FileTable := .read (·.fileTable)

/-- An assignment to an entry of the file table. -/
def setFile (id : Fin N_FILES_IN_TABLE) (f : Option OpenFile) : Sys host W advances Unit :=
  .update (fun k => { k with fileTable := Function.update k.fileTable id f })
    fun k => .single (.fileTable k _)

theorem run_reg_bind {α : Type} (r : Reg) (f : BitVec 32 → Sys host W advances α) (k : Kernel W) :
    (reg r >>= f).run k = (f (k.machine.registers r)).run k := rfl

theorem run_fileTable_bind {α : Type} (f : FileTable → Sys host W advances α) (k : Kernel W) :
    (fileTable >>= f).run k = (f k.fileTable).run k := rfl

/-- `IncrementR`. -/
def incrementR : Sys host W true Unit :=
  .update (fun k => { k with machine := k.machine.incrementR }) fun k => .single (.advance k rfl)

/-- A program that does not call `IncrementR`, among those that may. -/
def plain {α : Type} (x : Sys host W false α) : Sys host W true α :=
  x.weaken fun s t h => by
    cases h with
    | result v => exact .result s v
    | memory h hreg => exact .memory h hreg
    | trap b => exact .trap s b
    | fileTable t => exact .fileTable s t
    | call c r => exact .call s c r
    | advance h => cases h

@[simp] theorem run_plain {α : Type} (x : Sys host W false α) (k : Kernel W) :
    (plain x).run k = x.run k := rfl

/-- `ExceptionHandler` for everything but system calls: a page fault halts the machine, and for
the other exceptions there is no case. -/
def otherException (which : ExceptionType) : Sys host W advances Unit :=
  match which with
  | .PageFaultException => .stop .halt
  | _ => pure ()

/-- `RaiseException` as `ReadMem` and `WriteMem` call it. -/
def trap (which : ExceptionType) (badVAddr : BitVec 32) : Sys host W advances Unit := do
  Confined.update (·.enter badVAddr) fun k => .single (.trap k badVAddr)
  otherException which

/-- A memory access of kernel code; `none` when it has trapped and the handler has returned. -/
def access {α : Type} (x : Cpu host α) (h : ∀ m, (x.run m).2.registers = m.registers) :
    Sys host W advances (Option α) := do
  let outcome : Except Trap α ← ⟨fun k => (.ok (x.run k.machine).1,
    { k with machine := (x.run k.machine).2 }), fun _ => .single (.memory (x.confined _) (h _))⟩
  match outcome with
  | .ok value => pure (some value)
  | .error (.raise which badVAddr) => do
    trap which badVAddr
    pure none
  | .error .abort => .stop .abort
  | .error .undefined => .stop .undefined

/-- `machine->ReadMem(addr, 1, ..)`. -/
def readByte (addr : BitVec 32) : Sys host W advances (Option (BitVec 32)) :=
  access (Cpu.readMem addr 1) (Cpu.readMem_registers addr 1)

/-- `machine->WriteMem(addr, 1, value)`. -/
def writeByte (addr value : BitVec 32) : Sys host W advances (Option Unit) :=
  access (Cpu.writeMem addr 1 value) (Cpu.writeMem_registers addr 1 value)

/-- The loop of `User2System` with `n` rounds to go: the bytes it stores from index `idx` on. A
failed `ReadMem` leaves `oneChar` as it was. -/
def copyIn (virtAddr : BitVec 32) : Nat → Nat → BitVec 32 → Sys host W advances (List Byte)
  | 0, _, _ => pure []
  | n + 1, idx, oneChar => do
    let read ← readByte (virtAddr + BitVec.ofNat 32 idx)
    let oneChar := read.getD oneChar
    if oneChar = 0 then pure [0]
    else do
      let rest ← copyIn virtAddr n (idx + 1) oneChar
      pure (oneChar.setWidth 8 :: rest)

/-- `Machine::User2System`: the bytes stored in the buffer, which is zero behind them. A size
`limit + 1` that is negative, or overflows, makes `new` fail; otherwise it never returns `NULL`. -/
def user2System (env : Env W) (virtAddr : BitVec 32) (limit : Int) :
    Sys host W advances (List Byte) :=
  if limit < -1 ∨ limit = 2 ^ 31 - 1 then .stop .abort
  else do
    let oneChar ← .read fun k => env.uninit k.world
    copyIn virtAddr limit.toNat 0 oneChar

/-- The loop of `System2User` with at most `n` rounds to go: the number of bytes copied. -/
def copyOut (virtAddr : BitVec 32) (buffer : List Byte) : Nat → Nat → Sys host W advances Int
  | 0, i => pure i
  | n + 1, i => do
    let oneChar : BitVec 32 := (buffer.getD i 0).signExtend 32
    let _ ← writeByte (virtAddr + BitVec.ofNat 32 i) oneChar
    if oneChar = 0 then pure (i + 1) else copyOut virtAddr buffer n (i + 1)

/-- `Machine::System2User`. -/
def system2User (virtAddr : BitVec 32) (len : Int) (buffer : List Byte) :
    Sys host W advances Int :=
  if len < 0 then pure (-1)
  else if len = 0 then pure 0
  else copyOut virtAddr buffer len.toNat 0

/-- `gSynchConsole->Read`: the characters stored, and their number or `-1` after a `CTRL-A`. -/
def consoleRead (env : Env W) (numBytes : Int) : Sys host W advances (List Byte × Int) := do
  let (result, data) ← call env (.consoleRead numBytes)
  let line := data.take numBytes.toNat
  pure (line, if result = -1 then -1 else line.length)

/-- `gSynchConsole->Write` of the first `numBytes` bytes of a buffer that is zero behind
`bytes`. -/
def consoleWrite (env : Env W) (bytes : List Byte) (numBytes : Int) :
    Sys host W advances Int := do
  let _ ← call env (.consoleWrite ((List.range numBytes.toNat).map (bytes.getD · 0)))
  pure numBytes

end Sys

/-- The C string at the start of a buffer. -/
def cString (buffer : List Byte) : List Byte := buffer.takeWhile (· ≠ 0)

end Nachos
