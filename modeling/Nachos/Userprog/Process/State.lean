import Mathlib.Logic.Function.Basic
import Nachos.Threads.Semaphore
import Nachos.Userprog.AddrSpace

/-!
# The kernel state of the process system

The state that `PTable`, `PCB`, `MyStartProcess` and `AddrSpace::AddrSpace(char*)` share: the
process table with its bitmap, the process control blocks on the heap, every semaphore they
use, the threads, and the frame bitmap.

Between two context switches a thread runs from one semaphore operation to the next: kernel code
is preempted only where interrupts are switched on again, which `P`, `V` and `Fork` do as their
last action. `Control` names the points in between. A thread asleep inside `P`, or woken and
about to test the value again, has `waiting` set to that semaphore.

A PCB whose destructor has begun keeps its fields: `~PCB` ends in `Thread::Finish`, which never
returns, so its memory is never handed back. `destroyed` records that the destructor has begun,
and `creator` the thread whose `ExecUpdate` built the PCB; no function of the kernel reads them.
-/

namespace Nachos.Process

open Function

/-- Threads and process control blocks are named in the order of their allocation. -/
abbrev Tid := Nat

@[inherit_doc Tid]
abbrev Ref := Nat

/-- The semaphores of the process system. -/
inductive SemId where
  | bmsem
  | addrLock
  | joinsem (r : Ref)
  | exitsem (r : Ref)
  | mutex (r : Ref)
  deriving DecidableEq, Repr

/-- The PCB a semaphore is part of. -/
def SemId.pcb : SemId → Option Ref
  | .bmsem | .addrLock => none
  | .joinsem r | .exitsem r | .mutex r => some r

/-- Where a thread continues when it runs next. -/
inductive Control where
  /-- The main thread before `StartProcess`. -/
  | boot
  /-- A forked thread before `MyStartProcess(pID)`. -/
  | forked (pID : Int)
  /-- In the constructor, after `addrLock->P()`. -/
  | allocate (noffH : NoffHeader)
  /-- In the constructor, after the `addrLock->V()` of the branch for too little memory. -/
  | refused
  /-- In the constructor, after the last `addrLock->V()`. -/
  | loading (space : AddrSpace)
  /-- There as well, when the branch for too little memory has deleted the executable. -/
  | dangling
  /-- In `machine->Run()`. -/
  | user
  /-- In `ExecUpdate`, after `bmsem->P()`. -/
  | execChecks (filename : Option String)
  /-- In `PCB::Exec`, after `mutex->P()`. -/
  | execFork (r : Ref) (filename : String) (pID : Int)
  /-- In `PCB::Exec`, after `Fork`. -/
  | execUnlock (r : Ref) (pID : Int)
  /-- In `ExecUpdate`, after `PCB::Exec`. -/
  | execDone (pID : Int)
  /-- In `JoinUpdate`, after `JoinWait`. -/
  | joined (pID : Int)
  /-- In `ExitUpdate`, after `JoinRelease`. -/
  | exitReleased (ec : Int)
  /-- In `ExitUpdate`, after `ExitWait`. -/
  | removing (ec : Int)
  /-- Not created yet, or after `Finish`. -/
  | finished
  deriving DecidableEq, Repr

/-- A `Thread`. -/
structure Thread where
  processID : Int
  name : String
  control : Control
  waiting : Option SemId
  /-- `status == BLOCKED`. -/
  blocked : Bool
  space : Option AddrSpace
  deriving DecidableEq, Repr

/-- A `PCB`; its semaphores are in `State.sem`. -/
structure PCB where
  pid : Int
  exitcode : Int
  thread : Option Tid
  numwait : Int
  parentID : Int
  joinStatus : Int
  destroyed : Bool
  creator : Option Tid
  deriving DecidableEq, Repr

/-- The kernel state. -/
structure State where
  bm : BitMap
  pcb : Int → Option Ref
  heap : Ref → PCB
  nextRef : Ref
  sem : SemId → Semaphore Tid
  thread : Tid → Thread
  nextTid : Tid
  gPhysPageBitMap : BitMap
  /-- After `Halt`, a failed `ASSERT`, a null dereference or a second `delete`. -/
  halted : Bool

/-- What an observer of the kernel sees. -/
inductive Event where
  /-- `P` has returned. -/
  | P (t : Tid) (id : SemId)
  /-- `P` has put its caller to sleep. -/
  | wait (t : Tid) (id : SemId)
  | V (t : Tid) (id : SemId)
  /-- A plain access to the fields of a PCB. -/
  | access (r : Ref)
  | setExitCode (t : Tid) (r : Ref) (ec : Int)
  | getExitCode (t : Tid) (r : Ref) (ec : Int)
  /-- `JoinWait` has recorded `JoinStatus`. -/
  | joinWait (t : Tid) (r : Ref)
  /-- `JoinUpdate` returns; `r` is the PCB it waited on. -/
  | joinReturns (t : Tid) (r : Option Ref) (res : Int)
  | execReturns (t : Tid) (res : Int)
  /-- `~PCB` begins. -/
  | destroy (r : Ref)
  /-- `delete executable` in the constructor, or the attempt at it. -/
  | close (t : Tid)
  /-- A user instruction is fetched and executed. -/
  | instruction (t : Tid)
  deriving DecidableEq, Repr

/-- The PCB whose fields or semaphores an event reads or writes. -/
def Event.accesses : Event → Option Ref
  | .P _ id | .wait _ id | .V _ id => id.pcb
  | .access r | .setExitCode _ r _ | .getExitCode _ r _ | .joinWait _ r => some r
  | _ => none

/-- The events of a step and the state after it. -/
abbrev Result := List Event × State

namespace PCB

/-- `PCB::PCB(id)`; `creator` is the calling thread. -/
def new (id : Int) (processID : Int) (creator : Option Tid) : PCB where
  pid := id
  exitcode := 0
  thread := none
  numwait := 0
  parentID := if id ≠ 0 then processID else 0
  joinStatus := -1
  destroyed := false
  creator := creator

/-- `PCB::SetExitCode`. -/
def setExitCode (ec : Int) (p : PCB) : PCB := { p with exitcode := ec }

/-- `PCB::IncNumWait`. -/
def incNumWait (p : PCB) : PCB := { p with numwait := p.numwait + 1 }

/-- `PCB::DecNumWait`. -/
def decNumWait (p : PCB) : PCB := { p with numwait := if p.numwait ≠ 0 then p.numwait - 1 else 0 }

/-- `JoinStatus = parentID`, the first line of `PCB::JoinWait`. -/
def recordJoin (p : PCB) : PCB := { p with joinStatus := p.parentID }

end PCB

namespace State

/-- The machine stops. -/
def halt (s : State) : State := { s with halted := true }

/-- Update the fields of a PCB. -/
def modifyPcb (s : State) (r : Ref) (f : PCB → PCB) : State :=
  { s with heap := update s.heap r (f (s.heap r)) }

/-- Update a thread. -/
def modifyThread (s : State) (t : Tid) (f : Thread → Thread) : State :=
  { s with thread := update s.thread t (f (s.thread t)) }

/-- Let a thread continue at another point. -/
def goto (s : State) (t : Tid) (c : Control) : State :=
  s.modifyThread t fun th => { th with control := c }

/-- `P` by thread `t`, which then continues at `next`: one pass through the loop. -/
def P (s : State) (t : Tid) (id : SemId) (next : Control) : Result :=
  let (taken, sem') := (s.sem id).P t
  ([if taken then .P t id else .wait t id],
    { s with
      sem := update s.sem id sem'
      thread := update s.thread t { s.thread t with
        control := next
        waiting := if taken then none else some id
        blocked := !taken } })

/-- `V` by thread `t`; `ReadyToRun` makes the first waiting thread ready. -/
def V (s : State) (t : Tid) (id : SemId) : Result :=
  let (woken, sem') := (s.sem id).V
  ([.V t id],
    { s with
      sem := update s.sem id sem'
      thread := match woken with
        | none => s.thread
        | some w => update s.thread w { s.thread w with blocked := false } })

/-- Other contents of the PCBs and of the frame bitmap. -/
def patch (s : State) (heap : Ref → PCB) (frames : BitMap) : State :=
  { s with heap := heap, gPhysPageBitMap := frames }

/-- A patch leaves the semaphores alone. -/
@[simp] theorem patch_sem (s : State) (heap : Ref → PCB) (frames : BitMap) :
    (s.patch heap frames).sem = s.sem := rfl

/-- It leaves the threads alone. -/
@[simp] theorem patch_thread (s : State) (heap : Ref → PCB) (frames : BitMap) :
    (s.patch heap frames).thread = s.thread := rfl

/-- A change to a process control block leaves the semaphores alone. -/
@[simp] theorem modifyPcb_sem (s : State) (r : Ref) (f : PCB → PCB) :
    (s.modifyPcb r f).sem = s.sem := rfl

/-- A part of the PCBs that the update leaves alone. -/
theorem modifyPcb_proj {α : Type*} (π : PCB → α) (s : State) (r : Ref) {f : PCB → PCB}
    (hf : ∀ p, π (f p) = π p) (r' : Ref) : π ((s.modifyPcb r f).heap r') = π (s.heap r') := by
  unfold modifyPcb
  rcases eq_or_ne r' r with rfl | hr
  · simp [hf]
  · simp [hr]

/-! ## What `goto`, `P` and `V` change -/

section Frame

variable (s : State) (t : Tid) (id : SemId) (c : Control)

/-- The threads after a jump. -/
theorem goto_thread (u : Tid) :
    (s.goto t c).thread u = if u = t then { s.thread t with control := c } else s.thread u := by
  unfold goto modifyThread
  by_cases hu : u = t <;> simp [hu]

/-- The thread that jumps. -/
theorem goto_self : (s.goto t c).thread t = { s.thread t with control := c } := by
  rw [goto_thread, if_pos rfl]

/-- Only its control point changes. -/
@[simp] theorem goto_control (u : Tid) :
    ((s.goto t c).thread u).control = if u = t then c else (s.thread u).control := by
  rw [goto_thread]; split_ifs <;> rfl

/-- A jump keeps the process. -/
@[simp] theorem goto_processID (u : Tid) :
    ((s.goto t c).thread u).processID = (s.thread u).processID := by
  rw [goto_thread]; split_ifs <;> simp_all

/-- It keeps the address space. -/
@[simp] theorem goto_space (u : Tid) :
    ((s.goto t c).thread u).space = (s.thread u).space := by
  rw [goto_thread]; split_ifs <;> simp_all

/-- It keeps what the thread waits for. -/
@[simp] theorem goto_waiting (u : Tid) :
    ((s.goto t c).thread u).waiting = (s.thread u).waiting := by
  rw [goto_thread]; split_ifs <;> simp_all

/-- It wakes nobody. -/
@[simp] theorem goto_blocked (u : Tid) :
    ((s.goto t c).thread u).blocked = (s.thread u).blocked := by
  rw [goto_thread]; split_ifs <;> simp_all

/-- `P` emits one event, which says whether it returned. -/
theorem P_events :
    (s.P t id c).1 = [if (s.sem id).value = 0 then .wait t id else .P t id] := by
  unfold P Semaphore.P
  by_cases h : (s.sem id).value = 0 <;> simp [h]

/-- The semaphores after `P`. -/
theorem P_sem (id' : SemId) :
    (s.P t id c).2.sem id' =
      if id' = id then
        if (s.sem id).value = 0 then { s.sem id with queue := (s.sem id).queue ++ [t] }
        else { s.sem id with value := (s.sem id).value - 1 }
      else s.sem id' := by
  unfold P Semaphore.P
  by_cases h : (s.sem id).value = 0 <;> by_cases hid : id' = id <;> simp [h, hid]

/-- The threads after `P`. -/
theorem P_thread (u : Tid) :
    (s.P t id c).2.thread u =
      if u = t then
        if (s.sem id).value = 0 then
          { s.thread t with control := c, waiting := some id, blocked := true }
        else { s.thread t with control := c, waiting := none, blocked := false }
      else s.thread u := by
  unfold P Semaphore.P
  by_cases h : (s.sem id).value = 0 <;> by_cases hu : u = t <;> simp [h, hu]

/-- The semaphores after `V`. -/
theorem V_sem (id' : SemId) :
    (s.V t id).2.sem id' =
      if id' = id then ⟨(s.sem id).value + 1, (s.sem id).queue.tail⟩ else s.sem id' := by
  unfold V Semaphore.V
  by_cases hid : id' = id <;> simp [hid]

/-- `V` wakes the head of the queue and changes nothing else about any thread. -/
theorem V_thread (u : Tid) :
    (s.V t id).2.thread u =
      if (s.sem id).queue.head? = some u then { s.thread u with blocked := false }
      else s.thread u := by
  unfold V Semaphore.V
  cases hq : (s.sem id).queue.head? with
  | none => simp
  | some w =>
    rcases eq_or_ne u w with rfl | hu
    · simp
    · simp [hu, hu.symm]

/-- `P` moves the thread on. -/
@[simp] theorem P_control (u : Tid) :
    ((s.P t id c).2.thread u).control = if u = t then c else (s.thread u).control := by
  rw [P_thread]; split_ifs <;> rfl

/-- `P` keeps the process. -/
@[simp] theorem P_processID (u : Tid) :
    ((s.P t id c).2.thread u).processID = (s.thread u).processID := by
  rw [P_thread]; split_ifs <;> simp_all

/-- It keeps the address space. -/
@[simp] theorem P_space (u : Tid) :
    ((s.P t id c).2.thread u).space = (s.thread u).space := by
  rw [P_thread]; split_ifs <;> simp_all

/-- What a thread waits for after `P`. -/
theorem P_waiting (u : Tid) :
    ((s.P t id c).2.thread u).waiting =
      if u = t then if (s.sem id).value = 0 then some id else none else (s.thread u).waiting := by
  rw [P_thread]; split_ifs <;> rfl

/-- `V` moves no thread. -/
@[simp] theorem V_control (u : Tid) :
    ((s.V t id).2.thread u).control = (s.thread u).control := by
  rw [V_thread]; split <;> rfl

/-- `V` keeps the process. -/
@[simp] theorem V_processID (u : Tid) :
    ((s.V t id).2.thread u).processID = (s.thread u).processID := by
  rw [V_thread]; split <;> rfl

/-- It keeps the address space. -/
@[simp] theorem V_space (u : Tid) :
    ((s.V t id).2.thread u).space = (s.thread u).space := by
  rw [V_thread]; split <;> rfl

/-- It keeps what the threads wait for. -/
@[simp] theorem V_waiting (u : Tid) :
    ((s.V t id).2.thread u).waiting = (s.thread u).waiting := by
  rw [V_thread]; split <;> rfl

end Frame

end State

/-- `PTable::PTable(10)` and the other globals of `Initialize`, with the main thread about to run
`StartProcess`. The words of the two bitmaps come from the heap with arbitrary contents. -/
def initial (rawTable rawFrames : Nat → BitVec 32) : State where
  bm := (BitMap.new 10 rawTable).markBit 0
  pcb := update (fun _ => none) 0 (some 0)
  heap := fun _ => { PCB.new 0 0 none with parentID := -1 }
  nextRef := 1
  sem := fun
    | .bmsem | .addrLock | .mutex 0 => Semaphore.new 1
    | _ => Semaphore.new 0
  thread := fun t =>
    { processID := 0, name := "main", control := if t = 0 then .boot else .finished,
      waiting := none, blocked := false, space := none }
  nextTid := 1
  gPhysPageBitMap := BitMap.new 256 rawFrames
  halted := false

end Nachos.Process
