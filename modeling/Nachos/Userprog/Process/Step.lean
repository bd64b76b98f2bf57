import Nachos.Library.Transition
import Nachos.Userprog.Process.State

/-!
# The steps of the process system

Every function here is the code a thread runs from one context switch to the next, cut at the
semaphore operations of `userprog/ptable.cc`, `userprog/pcb.cc` and of
`AddrSpace::AddrSpace(char*)`. `step` lets any thread that is not asleep run next; its input is
what the kernel does not decide: the system call a user program makes, whether `Open` finds a
file, and the header of the executable that a new process loads. The executable that
`ExecUpdate` has opened is assumed to be there when the constructor opens it again.

`step` takes any exit status, as `ExitUpdate` does; `sysStep` puts `handle_SC_Exit` in front of it,
the only caller of `ExitUpdate`, which passes on no status but 0. A step that stops the machine
emits no event but the attempt to delete an executable twice.
-/

namespace Nachos.Process

open Transition Function

/-- `psize` of `PTable(10)`; also `MAXPROCESS`. -/
def psize : Int := 10

namespace State

/-! ## `AddrSpace::AddrSpace(char*)` -/

/-- The constructor up to `addrLock->P()`. -/
def newAddrSpace (s : State) (t : Tid) (noffH : NoffHeader) : Result :=
  if noffH.noffMagic = NOFFMAGIC then s.P t .addrLock (.allocate noffH) else ([], s.halt)

/-- From `addrLock->P()` to the next `addrLock->V()`. With too few clear bits that is the one in
the branch for too little memory, which has closed the executable before. -/
def allocate (s : State) (t : Tid) (noffH : NoffHeader) : Result :=
  if s.gPhysPageBitMap.numClear < noffH.numPages then
    let (events, s') := s.V t .addrLock
    (.close t :: events, s'.goto t .refused)
  else
    let result := AddrSpace.allocate noffH s.gPhysPageBitMap
    let (events, s') := { s with gPhysPageBitMap := result.2 }.V t .addrLock
    (events, s'.goto t (.loading result.1))

/-- The `return` after the branch for too little memory is commented out: the constructor goes on
with `numPages` 0, to the second `addrLock->V()`. -/
def fallThrough (s : State) (t : Tid) : Result :=
  let result := AddrSpace.setUpTranslation 0 0 s.gPhysPageBitMap
  let (events, s') := { s with gPhysPageBitMap := result.2 }.V t .addrLock
  (events, s'.goto t .dangling)

/-- Without pages there is nothing to copy, and the constructor comes to its second
`delete executable`. The object is freed and its descriptor closed: the machine ends in the `ASSERT`
of `Close`, or in the host's check for a block freed twice. -/
def deleteAgain (s : State) (t : Tid) : Result := ([.close t], s.halt)

/-- The rest of the constructor, which copies the segments and closes the executable, and of
`MyStartProcess` up to `machine->Run()`. -/
def load (s : State) (t : Tid) (space : AddrSpace) : Result :=
  ([.close t], s.modifyThread t fun th => { th with control := .user, space := some space })

/-! ## `PTable` -/

/-- `PTable::IsExist`. -/
def isExist (s : State) (pID : Int) : Bool :=
  decide (0 ≤ pID ∧ pID ≤ 9) && s.bm.test pID == some true

/-- `PTable::GetName`, with the PCB it reads; without a process it returns nothing. -/
def getName (s : State) (pID : Int) : Option (Ref × String) :=
  if 0 ≤ pID ∧ pID < psize ∧ s.bm.test pID = some true then do
    let r ← s.pcb pID
    let c ← (s.heap r).thread
    pure (r, (s.thread c).name)
  else none

/-- `MyStartProcess` up to `addrLock->P()`; `noffH` is the header of the file it names. -/
def myStartProcess (s : State) (t : Tid) (pID : Int) (noffH : NoffHeader) : Result :=
  match s.getName pID with
  | none => ([], s.halt)
  | some (r, _) =>
    if noffH.noffMagic = NOFFMAGIC then
      let (events, s') := s.P t .addrLock (.allocate noffH)
      (.access r :: events, s')
    else ([], s.halt)

/-- `PTable::ExecUpdate` up to `bmsem->P()`. -/
def execUpdate (s : State) (t : Tid) (filename : Option String) : Result :=
  s.P t .bmsem (.execChecks filename)

/-- A failed check of `ExecUpdate`: `bmsem->V()` and `return -1`. -/
def execFails (s : State) (t : Tid) : Result :=
  let (events, s') := s.V t .bmsem
  (events ++ [.execReturns t (-1)], s'.goto t .user)

/-- `new PCB(ID)` with its three semaphores, put into slot `ID`. -/
def newPcb (s : State) (t : Tid) (ID : Int) : State :=
  let r := s.nextRef
  { s with
    pcb := update s.pcb ID (some r)
    heap := update s.heap r (PCB.new ID (s.thread t).processID (some t))
    nextRef := r + 1
    sem := update (update (update s.sem
      (.joinsem r) (.new 0)) (.exitsem r) (.new 0)) (.mutex r) (.new 1) }

/-- The checks of `ExecUpdate`, `GetFreeSlot`, `new PCB(ID)`, and `PCB::Exec` up to
`mutex->P()`. -/
def execUpdateChecks (s : State) (t : Tid) (filename : Option String) (opened : Bool) : Result :=
  match filename with
  | none => s.execFails t
  | some name =>
    if name = (s.thread t).name then s.execFails t
    else if !opened then s.execFails t
    else
      let (ID, bm) := s.bm.findFreeSlot
      if ID < 0 then s.execFails t
      else
        let r := s.nextRef
        let s' := { s.newPcb t ID with bm := (bm.mark ID).getD bm }
        (s'.modifyPcb r fun p => { p with parentID := (s.thread t).processID }).P t
          (.mutex r) (.execFork r name ID)

/-- `PCB::Exec` from `mutex->P()` through `Fork`. -/
def execFork (s : State) (t : Tid) (r : Ref) (filename : String) (pID : Int) : Result :=
  let c := s.nextTid
  let s' := s.modifyPcb r fun p =>
    { p with thread := some c, parentID := (s.thread t).processID }
  let child : Thread := { processID := pID, name := filename, control := .forked pID,
                          waiting := none, blocked := false, space := none }
  ([.access r], { s' with
    nextTid := c + 1
    thread := update (s'.goto t (.execUnlock r pID)).thread c child })

/-- `mutex->V()` at the end of `PCB::Exec`. -/
def execUnlock (s : State) (t : Tid) (r : Ref) (pID : Int) : Result :=
  let (events, s') := s.V t (.mutex r)
  (events, s'.goto t (.execDone pID))

/-- The end of `ExecUpdate`. -/
def execDone (s : State) (t : Tid) (pID : Int) : Result :=
  let (events, s') := s.V t .bmsem
  (events ++ [.execReturns t pID], s'.goto t .user)

/-- `PTable::JoinUpdate` up to the `joinsem->P()` of `PCB::JoinWait`. -/
def joinUpdate (s : State) (t : Tid) (pID : Int) : Result :=
  if pID < 0 ∨ psize ≤ pID then ([.joinReturns t none (-1)], s)
  else
    match s.pcb pID with
    | none => ([.joinReturns t none (-1)], s)
    | some r =>
      if (s.thread t).processID ≠ (s.heap r).parentID then
        ([.access r, .joinReturns t none (-1)], s)
      else
        let (events, s') := (s.modifyPcb r (·.recordJoin.incNumWait)).P t (.joinsem r)
          (.joined pID)
        (.access r :: .joinWait t r :: events, s')

/-- `JoinUpdate` after `JoinWait`. A nonzero exit code returns before `ExitRelease`. -/
def joinUpdateRest (s : State) (t : Tid) (pID : Int) : Result :=
  match s.pcb pID with
  | none => ([], s.halt)
  | some r =>
    let ec := (s.heap r).exitcode
    if ec ≠ 0 then
      ([.getExitCode t r ec, .joinReturns t (some r) (-1)], s.goto t .user)
    else
      let (events, s') := s.V t (.exitsem r)
      (.getExitCode t r ec :: events ++ [.joinReturns t (some r) ec], s'.goto t .user)

/-- `Thread::FreeSpace`: the frame bitmap after it. `none` is a failed `ASSERT` in
`~AddrSpace`. -/
def freeSpace (s : State) (t : Tid) : Option BitMap :=
  match (s.thread t).space with
  | none => some s.gPhysPageBitMap
  | some sp => sp.destroy s.gPhysPageBitMap

/-- `FreeSpace` and `Finish` of the running thread. -/
def finish (s : State) (t : Tid) : Option State :=
  (s.freeSpace t).map fun bm => { s with gPhysPageBitMap := bm }.modifyThread t fun th =>
    { th with control := .finished, space := none }

/-- `PCB::~PCB` up to `FreeSpace`: the three semaphores are deleted. -/
def destroyPcb (s : State) (r : Ref) : State :=
  { s.modifyPcb r (fun p => { p with destroyed := true }) with
    sem := update (update (update s.sem
      (.joinsem r) (s.sem (.joinsem r)).destroy) (.exitsem r) (s.sem (.exitsem r)).destroy)
      (.mutex r) (s.sem (.mutex r)).destroy }

/-- `PTable::Remove` and what follows it in `handle_SC_Exit`. The destructor finishes the thread
of the PCB, which has to be the running one; otherwise `handle_SC_Exit` finishes it. The slot
keeps its pointer. -/
def remove (s : State) (t : Tid) (pID : Int) : Result :=
  if s.isExist pID then
    let s' := { s with bm := (s.bm.clear pID).getD s.bm }
    match s'.pcb pID with
    | none => match s'.finish t with
        | none => ([], s.halt)
        | some s'' => ([], s'')
    | some r =>
      if (s'.heap r).thread = none ∨ (s'.heap r).thread = some t then
        match (s'.destroyPcb r).finish t with
        | none => ([], s.halt)
        | some s'' => ([.destroy r], s'')
      else ([], s.halt)
  else
    match s.finish t with
    | none => ([], s.halt)
    | some s'' => ([], s'')

/-- `PTable::ExitUpdate` up to the `joinsem->V()` of `PCB::JoinRelease`, or to the end when
nobody has joined. -/
def exitUpdate (s : State) (t : Tid) (ec : Int) : Result :=
  let pID := (s.thread t).processID
  if pID = 0 then ([], s.halt)
  else if !s.isExist pID then
    match s.finish t with
    | none => ([], s.halt)
    | some s' => ([], s')
  else
    match s.pcb pID with
    | none => ([], s.halt)
    | some r =>
      match s.pcb (s.heap r).parentID with
      | none => ([], s.halt)
      | some q =>
        let s' := (s.modifyPcb r (·.setExitCode ec)).modifyPcb q (·.decNumWait)
        if (s'.heap r).joinStatus ≠ -1 then
          let (events, s'') := (s'.modifyPcb r (·.decNumWait)).V t (.joinsem r)
          (.setExitCode t r ec :: .access q :: events, s''.goto t (.exitReleased ec))
        else
          let (events, s'') := s'.remove t pID
          (.setExitCode t r ec :: .access q :: events, s'')

/-- `PCB::ExitWait`. -/
def exitWait (s : State) (t : Tid) (ec : Int) : Result :=
  match s.pcb (s.thread t).processID with
  | none => ([], s.halt)
  | some r => s.P t (.exitsem r) (.removing ec)

/-- A user instruction at `pc` can be fetched: `Machine::Translate` finds it. Without that the
simulator raises an exception that no handler takes up, and tries again. -/
def fetches (s : State) (t : Tid) (pc : BitVec 32) : Bool :=
  match (s.thread t).space with
  | none => false
  | some sp => match translate (linear sp.pageTable) pc 4 false with
      | .ok _ _ => true
      | _ => false

end State

/-- The system calls on processes. -/
inductive Call where
  | exec (filename : Option String)
  | join (pID : Int)
  | exit (ec : Int)
  deriving DecidableEq, Repr

/-- What a step takes from outside the kernel. -/
inductive Input where
  | go
  | header (noffH : NoffHeader)
  | opened (found : Bool)
  | call (pc : BitVec 32) (c : Call)
  deriving DecidableEq, Repr

/-- The argument of `JoinUpdate`, if the input is a call of it. -/
def Input.joins : Input → Option Int
  | .call _ (.join pID) => some pID
  | _ => none

/-- A scheduling decision: the thread that runs next and its input. -/
structure Act where
  thread : Tid
  input : Input
  deriving DecidableEq, Repr

namespace State

/-- The system call handlers, after the instruction has been fetched. -/
def call (s : State) (t : Tid) : Call → Result
  | .exec filename => s.execUpdate t filename
  | .join pID => s.joinUpdate t pID
  | .exit ec => s.exitUpdate t ec

/-- What thread `t` does next when it is not inside `P`. -/
def resume (s : State) (t : Tid) : Control → Input → Option Result
  | .boot, .header noffH => some (s.newAddrSpace t noffH)
  | .forked pID, .header noffH => some (s.myStartProcess t pID noffH)
  | .allocate noffH, .go => some (s.allocate t noffH)
  | .refused, .go => some (s.fallThrough t)
  | .loading space, .go => some (s.load t space)
  | .dangling, .go => some (s.deleteAgain t)
  | .user, .call pc c =>
    if s.fetches t pc then
      let (events, s') := s.call t c
      some (.instruction t :: events, s')
    else none
  | .execChecks filename, .opened found => some (s.execUpdateChecks t filename found)
  | .execFork r filename pID, .go => some (s.execFork t r filename pID)
  | .execUnlock r pID, .go => some (s.execUnlock t r pID)
  | .execDone pID, .go => some (s.execDone t pID)
  | .joined pID, .go => some (s.joinUpdateRest t pID)
  | .exitReleased ec, .go => some (s.exitWait t ec)
  | .removing _, .go => some (s.remove t (s.thread t).processID)
  | _, _ => none

/-- Thread `t` exists, is ready, and the machine runs. -/
def ready (s : State) (t : Tid) : Prop :=
  s.halted = false ∧ (s.thread t).blocked = false ∧ t < s.nextTid

instance (s : State) (t : Tid) : Decidable (s.ready t) :=
  inferInstanceAs (Decidable (_ ∧ _ ∧ _))

end State

/-- One step of the system. -/
def step : Step State Act Event := fun s a =>
  if s.ready a.thread then
    match (s.thread a.thread).waiting with
    | some id =>
      if a.input = .go then some (s.P a.thread id (s.thread a.thread).control) else none
    | none => s.resume a.thread (s.thread a.thread).control a.input
  else none

/-- `handle_SC_Exit`, with the status it reads from `r4`. -/
def State.handleExit (s : State) (t : Tid) (exitStatus : Int) : Result :=
  if exitStatus ≠ 0 then ([], s) else s.exitUpdate t exitStatus

/-- The process system with the system call `Exit` as the user program makes it. -/
def sysStep : Step State Act Event := fun s a =>
  match a.input with
  | .call pc (.exit exitStatus) =>
    if s.ready a.thread ∧ (s.thread a.thread).waiting = none ∧
        (s.thread a.thread).control = .user ∧ s.fetches a.thread pc = true then
      let (events, s') := s.handleExit a.thread exitStatus
      some (.instruction a.thread :: events, s')
    else none
  | _ => step s a

/-- Thread `t` constructs its address space without interruption and enters its program. -/
def startActs (t : Tid) (noffH : NoffHeader) : List Act :=
  [⟨t, .header noffH⟩, ⟨t, .go⟩, ⟨t, .go⟩]

/-- Thread `t` runs through `ExecUpdate(filename)` without interruption. -/
def execActs (t : Tid) (filename : String) : List Act :=
  [⟨t, .call 0 (.exec (some filename))⟩, ⟨t, .opened true⟩, ⟨t, .go⟩, ⟨t, .go⟩, ⟨t, .go⟩]

end Nachos.Process
