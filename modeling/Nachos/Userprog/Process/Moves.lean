import Nachos.Userprog.Process.Step

/-!
# Well-formed states and the moves of a thread

`Wf` relates the three records of a process: its slot in the table, its PCB and its thread. The
table holds exactly the PCBs that are not being destroyed, a running thread finds its own PCB
under its `processID`, and the slot bit says whether the PCB in the slot is alive. `Move` lists
what a thread can do in a well-formed state, and `Wf.step_cases` says that `step` does nothing
else: no branch of the code that follows a null pointer is ever taken.
-/

namespace Nachos.Process

open Transition Function State

/-- Every frame of the address space is a bit of the frame bitmap. -/
def FramesIn (s : State) (sp : AddrSpace) : Prop :=
  ∀ f ∈ frames sp.pageTable, 0 ≤ f ∧ f < s.gPhysPageBitMap.numBits

/-- What a thread knows at the point where it continues. -/
def ControlOk (s : State) (t : Tid) : Control → Prop
  | .forked pID => (s.thread t).processID = pID ∧ pID ≠ 0
  | .loading sp => FramesIn s sp
  | .execFork r _ pID =>
    r < s.nextRef ∧ r ≠ 0 ∧ (s.heap r).destroyed = false ∧ (s.heap r).thread = none ∧
      (s.heap r).pid = pID ∧ (s.heap r).parentID = (s.thread t).processID ∧
      (s.heap r).creator = some t
  | .execUnlock r _ => r < s.nextRef ∧ (s.heap r).creator = some t
  | .joined pID => (s.pcb pID).isSome
  | .exitReleased _ | .removing _ => (s.thread t).processID ≠ 0
  | .finished => (s.thread t).waiting = none
  | _ => True

/-- `r` is the PCB of thread `t`; the PCB of the main thread does not name its thread. -/
def Owns (s : State) (r : Ref) (t : Tid) : Prop :=
  r = 0 ∧ t = 0 ∨ (s.heap r).thread = some t

/-- The invariant of the process table. -/
structure Wf (s : State) : Prop where
  tableBits : s.bm.numBits = 10
  frameBits : s.gPhysPageBitMap.numBits = 256
  slot : ∀ p r, s.pcb p = some r → 0 ≤ p ∧ p < 10 ∧ r < s.nextRef ∧ (s.heap r).pid = p ∧
    (s.heap r).destroyed = !s.bm.bit p.toNat
  alive : ∀ r, r < s.nextRef → (s.heap r).destroyed = false → s.pcb (s.heap r).pid = some r
  owns : ∀ t, t < s.nextTid → (s.thread t).control ≠ .finished →
    ∃ r, s.pcb (s.thread t).processID = some r ∧ (s.heap r).destroyed = false ∧ Owns s r t
  owner : ∀ r t, r < s.nextRef → (s.heap r).thread = some t → r ≠ 0 ∧ t ≠ 0 ∧ t < s.nextTid ∧
    (s.thread t).processID = (s.heap r).pid ∧
    ((s.heap r).destroyed = true ↔ (s.thread t).control = .finished)
  unborn : ∀ t, s.nextTid ≤ t → (s.thread t).control = .finished
  control : ∀ t, ControlOk s t (s.thread t).control
  parent : ∀ r, r < s.nextRef → r ≠ 0 → (s.pcb (s.heap r).parentID).isSome
  root : s.pcb 0 = some 0 ∧ (s.heap 0).thread = none ∧ (s.thread 0).processID = 0 ∧
    (s.thread 0).control ≠ .finished ∧ 0 < s.nextTid
  space : ∀ t sp, (s.thread t).space = some sp → FramesIn s sp

/-- `r` is the PCB of the process that thread `t` runs, which is not the initial one. -/
structure State.Runs (s : State) (t : Tid) (r : Ref) : Prop where
  slot : s.pcb (s.thread t).processID = some r
  live : (s.heap r).destroyed = false
  thread : (s.heap r).thread = some t

variable {s : State} {t : Tid}

/-- A ready thread exists. -/
theorem State.ready.lt (h : s.ready t) : t < s.nextTid := h.2.2

/-- A ready thread outside `P` goes on where it stands. -/
theorem step_resume {i : Input} (hready : s.ready t) (hw : (s.thread t).waiting = none) :
    step s ⟨t, i⟩ = s.resume t (s.thread t).control i := by
  simp only [step, if_pos hready, hw]

/-- A ready thread inside `P` tests the value again. -/
theorem step_retry {id : SemId} (hready : s.ready t) (hw : (s.thread t).waiting = some id) :
    step s ⟨t, .go⟩ = some (s.P t id (s.thread t).control) := by
  simp only [step, if_pos hready, hw, if_true]

namespace Wf

variable {s : State} {t u : Tid} {r : Ref}

/-- A thread that runs has been created. -/
theorem born (hs : Wf s) (htc : (s.thread t).control ≠ .finished) : t < s.nextTid := by
  by_contra hge
  exact htc (hs.unborn t (Nat.le_of_not_lt hge))

/-- A PCB has one thread. -/
theorem owns_unique (hs : Wf s) (ht : Owns s r t) (hu : Owns s r u) : t = u := by
  have hroot := hs.root.2.1
  rcases ht with ⟨rfl, rfl⟩ | ht <;> rcases hu with ⟨hr, rfl⟩ | hu
  · rfl
  · rw [hroot] at hu; cases hu
  · rw [hr, hroot] at ht; cases ht
  · exact Option.some.inj (ht.symm.trans hu)

/-- Two running threads have different process numbers. -/
theorem processID_inj (hs : Wf s) (htc : (s.thread t).control ≠ .finished)
    (huc : (s.thread u).control ≠ .finished)
    (h : (s.thread t).processID = (s.thread u).processID) : t = u := by
  obtain ⟨r, hr, -, hrt⟩ := hs.owns t (hs.born htc) htc
  obtain ⟨r', hr', -, hru⟩ := hs.owns u (hs.born huc) huc
  have heq : r = r' := Option.some.inj (hr.symm.trans (h ▸ hr'))
  exact hs.owns_unique hrt (heq ▸ hru)

/-- A running thread other than the initial one finds its PCB. -/
theorem runs (hs : Wf s) (ht : t < s.nextTid) (htc : (s.thread t).control ≠ .finished)
    (h0 : (s.thread t).processID ≠ 0) : ∃ r, s.Runs t r := by
  obtain ⟨r, hr, hlive, hown⟩ := hs.owns t ht htc
  rcases hown with ⟨rfl, rfl⟩ | hthread
  · exact absurd hs.root.2.2.1 h0
  · exact ⟨r, hr, hlive, hthread⟩

/-- So does its block. -/
theorem runs_lt (hs : Wf s) (h : s.Runs t r) : r < s.nextRef := (hs.slot _ _ h.slot).2.2.1

/-- A live PCB with a thread is the PCB of that thread. -/
theorem runs_of_thread (hs : Wf s) (hr : r < s.nextRef) (hlive : (s.heap r).destroyed = false)
    (ht : (s.heap r).thread = some t) : s.Runs t r := by
  obtain ⟨-, -, -, hpid, -⟩ := hs.owner r t hr ht
  exact ⟨hpid ▸ hs.alive r hr hlive, hlive, ht⟩

/-- The process number of a running thread is in use. -/
theorem isExist_of_slot (hs : Wf s) {p : Int} (hp : s.pcb p = some r)
    (hlive : (s.heap r).destroyed = false) : s.isExist p = true := by
  obtain ⟨h0, h10, -, -, hbit⟩ := hs.slot p r hp
  have hset : s.bm.bit p.toNat = true := by simpa [hlive] using hbit
  have hrange : p ≤ 9 := by omega
  simp [State.isExist, BitMap.test, hs.tableBits, h0, h10, hrange, hset]

end Wf

/-! ## The moves of a thread -/

namespace State

/-- `ExecUpdate` has reserved slot `i` and `PCB::Exec` holds the new mutex. -/
def reserve (s : State) (t : Tid) (i : Nat) (name : String) : State :=
  let r := s.nextRef
  { s with
    bm := (s.bm.markBit i).markBit i
    pcb := update s.pcb i (some r)
    heap := update s.heap r
      { PCB.new i (s.thread t).processID (some t) with parentID := (s.thread t).processID }
    nextRef := r + 1
    sem := update (update (update s.sem
      (.joinsem r) (.new 0)) (.exitsem r) (.new 0)) (.mutex r) (.new 0)
    thread := update s.thread t { s.thread t with
      control := .execFork r name i
      waiting := none
      blocked := false } }

/-- `Remove` has destroyed PCB `r` and finished its thread. -/
def removed (s : State) (t : Tid) (r : Ref) (frames : BitMap) : State :=
  { s.destroyPcb r with
    bm := s.bm.clearBit (s.thread t).processID.toNat
    gPhysPageBitMap := frames
    thread := update s.thread t { s.thread t with control := .finished, space := none } }

/-- `ExitUpdate` has stored the exit code and counted down the parent's PCB `q`. -/
def exitStored (s : State) (r q : Ref) (ec : Int) : State :=
  (s.modifyPcb r (·.setExitCode ec)).modifyPcb q (·.decNumWait)

section Fields

variable (s : State) (t u : Tid) (i : Nat) (name : String) (r r' : Ref) (pID : Int) (bm : BitMap)

/-- The block of the new process. -/
@[simp] theorem reserve_heap_new : (s.reserve t i name).heap s.nextRef =
    { PCB.new i (s.thread t).processID (some t) with parentID := (s.thread t).processID } := by
  simp [reserve]

/-- The other blocks stay. -/
theorem reserve_heap {r' : Ref} (h : r' ≠ s.nextRef) :
    (s.reserve t i name).heap r' = s.heap r' := by
  simp [reserve, h]

/-- The slot of the new process. -/
theorem reserve_pcb (p : Int) :
    (s.reserve t i name).pcb p = if p = i then some s.nextRef else s.pcb p := by
  simp [reserve, update_apply]

/-- `reserve` moves no thread to another process. -/
@[simp] theorem reserve_processID :
    ((s.reserve t i name).thread u).processID = (s.thread u).processID := by
  rcases eq_or_ne u t with rfl | h <;> simp [reserve, *]

/-- The other threads stay. -/
theorem reserve_thread {u : Tid} (h : u ≠ t) : (s.reserve t i name).thread u = s.thread u := by
  simp [reserve, h]

/-- The caller goes on to `Fork`. -/
@[simp] theorem reserve_control :
    ((s.reserve t i name).thread t).control = .execFork s.nextRef name i := by
  simp [reserve]

/-- The address spaces stay. -/
@[simp] theorem reserve_space :
    ((s.reserve t i name).thread u).space = (s.thread u).space := by
  rcases eq_or_ne u t with rfl | h <;> simp [reserve, *]

/-- Forking only fills in the thread of the PCB, whose parent is the caller already. -/
theorem execFork_heap (hparent : (s.heap r).parentID = (s.thread t).processID) :
    (s.execFork t r name pID).2.heap r' =
      if r' = r then { s.heap r with thread := some s.nextTid } else s.heap r' := by
  simp [execFork, modifyPcb, goto, modifyThread, update_apply, ← hparent]

/-- The other threads stay. -/
theorem execFork_thread {u : Tid} (hu : u ≠ s.nextTid) (ht : u ≠ t) :
    (s.execFork t r name pID).2.thread u = s.thread u := by
  simp [execFork, modifyPcb, goto, modifyThread, hu, ht]

/-- The new thread. -/
@[simp] theorem execFork_child : (s.execFork t r name pID).2.thread s.nextTid =
    ⟨pID, name, .forked pID, none, false, none⟩ := by
  simp [execFork]

/-- The caller goes on to the unlock. -/
theorem execFork_caller (ht : t ≠ s.nextTid) : (s.execFork t r name pID).2.thread t =
    { s.thread t with control := .execUnlock r pID } := by
  simp [execFork, modifyPcb, goto, modifyThread, ht]

/-- The block is destroyed. -/
theorem removed_heap : (s.removed t r bm).heap r' =
    if r' = r then { s.heap r with destroyed := true } else s.heap r' := by
  simp [removed, destroyPcb, modifyPcb, update_apply]

/-- The other threads stay. -/
theorem removed_thread {u : Tid} (h : u ≠ t) : (s.removed t r bm).thread u = s.thread u := by
  simp [removed, h]

/-- The thread finishes. -/
@[simp] theorem removed_thread_self : (s.removed t r bm).thread t =
    { s.thread t with control := .finished, space := none } := by
  simp [removed]

/-- Nobody begins to wait. -/
theorem removed_waiting : ((s.removed t r bm).thread u).waiting = (s.thread u).waiting := by
  rcases eq_or_ne u t with rfl | hu
  · rw [removed_thread_self]
  · rw [removed_thread _ _ _ _ hu]

end Fields

end State

/-- What a thread that is not inside `P` can do in a well-formed state. -/
inductive Move (s : State) (t : Tid) : Input → List Event → State → Prop where
  | stop {noffH : NoffHeader} (hmagic : noffH.noffMagic ≠ NOFFMAGIC) :
      Move s t (.header noffH) [] s.halt
  | exitHalt {pc : BitVec 32} {ec : Int} (hc : (s.thread t).control = .user)
      (hpc : s.fetches t pc = true) (h0 : (s.thread t).processID = 0) :
      Move s t (.call pc (.exit ec)) [.instruction t] s.halt
  | boot {noffH : NoffHeader} (hc : (s.thread t).control = .boot) :
      Move s t (.header noffH) (s.P t .addrLock (.allocate noffH)).1
        (s.P t .addrLock (.allocate noffH)).2
  | start {noffH : NoffHeader} {pID : Int} {r : Ref} (hc : (s.thread t).control = .forked pID)
      (hr : s.Runs t r) :
      Move s t (.header noffH) (.access r :: (s.P t .addrLock (.allocate noffH)).1)
        (s.P t .addrLock (.allocate noffH)).2
  | allocate {noffH : NoffHeader} (hc : (s.thread t).control = .allocate noffH)
      (hfits : noffH.numPages ≤ s.gPhysPageBitMap.numClear) :
      Move s t .go [.V t .addrLock]
        (({ s with gPhysPageBitMap := (AddrSpace.allocate noffH s.gPhysPageBitMap).2 }.V t
          .addrLock).2.goto t (.loading (AddrSpace.allocate noffH s.gPhysPageBitMap).1))
  | refuse {noffH : NoffHeader} (hc : (s.thread t).control = .allocate noffH)
      (hfull : s.gPhysPageBitMap.numClear < noffH.numPages) :
      Move s t .go [.close t, .V t .addrLock] ((s.V t .addrLock).2.goto t .refused)
  | fallThrough (hc : (s.thread t).control = .refused) :
      Move s t .go [.V t .addrLock] ((s.V t .addrLock).2.goto t .dangling)
  | deleteAgain (hc : (s.thread t).control = .dangling) : Move s t .go [.close t] s.halt
  | load {sp : AddrSpace} (hc : (s.thread t).control = .loading sp) :
      Move s t .go [.close t] (s.modifyThread t fun th =>
        { th with control := .user, space := some sp })
  | exec {pc : BitVec 32} {filename : Option String} (hc : (s.thread t).control = .user)
      (hpc : s.fetches t pc = true) :
      Move s t (.call pc (.exec filename))
        (.instruction t :: (s.P t .bmsem (.execChecks filename)).1)
        (s.P t .bmsem (.execChecks filename)).2
  | execFails {filename : Option String} {found : Bool}
      (hc : (s.thread t).control = .execChecks filename) :
      Move s t (.opened found) [.V t .bmsem, .execReturns t (-1)]
        ((s.V t .bmsem).2.goto t .user)
  | reserve {name : String} {i : Nat} (hc : (s.thread t).control = .execChecks (some name))
      (hi : i < 10) (hfree : s.bm.bit i = false) (hslot : s.bm.findFreeSlot.1 = i)
      (hname : name ≠ (s.thread t).name) :
      Move s t (.opened true) [.P t (.mutex s.nextRef)] (s.reserve t i name)
  | fork {name : String} {r : Ref} {pID : Int} (hc : (s.thread t).control = .execFork r name pID) :
      Move s t .go [.access r] (s.execFork t r name pID).2
  | unlock {r : Ref} {pID : Int} (hc : (s.thread t).control = .execUnlock r pID) :
      Move s t .go [.V t (.mutex r)] ((s.V t (.mutex r)).2.goto t (.execDone pID))
  | execDone {pID : Int} (hc : (s.thread t).control = .execDone pID) :
      Move s t .go [.V t .bmsem, .execReturns t pID] ((s.V t .bmsem).2.goto t .user)
  | joinMissing {pc : BitVec 32} {pID : Int} (hc : (s.thread t).control = .user)
      (hpc : s.fetches t pc = true) (hp : s.pcb pID = none) :
      Move s t (.call pc (.join pID)) [.instruction t, .joinReturns t none (-1)] s
  | joinForeign {pc : BitVec 32} {pID : Int} {r : Ref} (hc : (s.thread t).control = .user)
      (hpc : s.fetches t pc = true) (hp : s.pcb pID = some r)
      (hparent : (s.thread t).processID ≠ (s.heap r).parentID) :
      Move s t (.call pc (.join pID)) [.instruction t, .access r, .joinReturns t none (-1)] s
  | joinWait {pc : BitVec 32} {pID : Int} {r : Ref} (hc : (s.thread t).control = .user)
      (hpc : s.fetches t pc = true) (hp : s.pcb pID = some r)
      (hparent : (s.thread t).processID = (s.heap r).parentID) :
      Move s t (.call pc (.join pID))
        (.instruction t :: .access r :: .joinWait t r ::
          ((s.modifyPcb r (·.recordJoin.incNumWait)).P t (.joinsem r) (.joined pID)).1)
        ((s.modifyPcb r (·.recordJoin.incNumWait)).P t (.joinsem r) (.joined pID)).2
  | joinAbandon {pID : Int} {r : Ref} (hc : (s.thread t).control = .joined pID)
      (hp : s.pcb pID = some r) (hec : (s.heap r).exitcode ≠ 0) :
      Move s t .go [.getExitCode t r (s.heap r).exitcode, .joinReturns t (some r) (-1)]
        (s.goto t .user)
  | joinGrant {pID : Int} {r : Ref} (hc : (s.thread t).control = .joined pID)
      (hp : s.pcb pID = some r) (hec : (s.heap r).exitcode = 0) :
      Move s t .go [.getExitCode t r 0, .V t (.exitsem r), .joinReturns t (some r) 0]
        ((s.V t (.exitsem r)).2.goto t .user)
  | exitSignal {pc : BitVec 32} {ec : Int} {r q : Ref} (hc : (s.thread t).control = .user)
      (hpc : s.fetches t pc = true) (h0 : (s.thread t).processID ≠ 0) (hr : s.Runs t r)
      (hq : s.pcb (s.heap r).parentID = some q) (hjoin : (s.heap r).joinStatus ≠ -1) :
      Move s t (.call pc (.exit ec))
        [.instruction t, .setExitCode t r ec, .access q, .V t (.joinsem r)]
        ((((s.exitStored r q ec).modifyPcb r (·.decNumWait)).V t (.joinsem r)).2.goto t
          (.exitReleased ec))
  | exitNow {pc : BitVec 32} {ec : Int} {r q : Ref} {bm : BitMap}
      (hc : (s.thread t).control = .user) (hpc : s.fetches t pc = true)
      (h0 : (s.thread t).processID ≠ 0) (hr : s.Runs t r)
      (hq : s.pcb (s.heap r).parentID = some q) (hjoin : (s.heap r).joinStatus = -1)
      (hbm : s.freeSpace t = some bm) :
      Move s t (.call pc (.exit ec))
        [.instruction t, .setExitCode t r ec, .access q, .destroy r]
        ((s.exitStored r q ec).removed t r bm)
  | exitWait {ec : Int} {r : Ref} (hc : (s.thread t).control = .exitReleased ec)
      (hr : s.Runs t r) :
      Move s t .go (s.P t (.exitsem r) (.removing ec)).1 (s.P t (.exitsem r) (.removing ec)).2
  | remove {ec : Int} {r : Ref} {bm : BitMap} (hc : (s.thread t).control = .removing ec)
      (hr : s.Runs t r) (hbm : s.freeSpace t = some bm) :
      Move s t .go [.destroy r] (s.removed t r bm)

/-! ## Inversion -/

section Inversion

variable {s s' : State} {t : Tid} {events : List Event} {pID : Int} {pc : BitVec 32} {r : Ref}
  {noffH : NoffHeader} {ec : Int} {a : Act}

/-- The frames of a thread can always be given back. -/
theorem Wf.freed (hs : Wf s) (t : Tid) : ∃ bm, s.freeSpace t = some bm ∧ bm.numBits = 256 := by
  unfold State.freeSpace
  cases hsp : (s.thread t).space with
  | none => exact ⟨_, rfl, hs.frameBits⟩
  | some sp =>
    obtain ⟨bm, hbm, hbits, -⟩ := AddrSpace.destroy_eq_some (hs.space t sp hsp)
    exact ⟨bm, hbm, hbits.trans hs.frameBits⟩

/-- `Remove` of a process by its own thread. -/
theorem State.remove_eq {bm : BitMap} (hexist : s.isExist (s.thread t).processID = true)
    (hr : s.Runs t r) (hbm : s.freeSpace t = some bm) :
    s.remove t (s.thread t).processID = ([.destroy r], s.removed t r bm) := by
  have hclear : s.bm.clear (s.thread t).processID =
      some (s.bm.clearBit (s.thread t).processID.toNat) := by
    unfold State.isExist BitMap.test at hexist
    unfold BitMap.clear
    split_ifs at hexist ⊢ with hin
    · rfl
    · simp at hexist
  unfold State.remove
  simp only [hexist, if_true, hclear, Option.getD_some, hr.slot, hr.thread, or_true]
  have hfree : ({ s with bm := s.bm.clearBit (s.thread t).processID.toNat }.destroyPcb
      r).freeSpace t = some bm := hbm
  rw [State.finish, hfree]
  rfl

/-- `MyStartProcess`. -/
theorem Wf.move_start (hs : Wf s) (ht : t < s.nextTid) (hc : (s.thread t).control = .forked pID)
    (h : s.myStartProcess t pID noffH = (events, s')) : Move s t (.header noffH) events s' := by
  obtain ⟨hpid, h0⟩ : (s.thread t).processID = pID ∧ pID ≠ 0 := by
    simpa [hc, ControlOk] using hs.control t
  obtain ⟨r, hr⟩ := hs.runs ht (by simp [hc]) (hpid ▸ h0)
  obtain ⟨hp0, hp10, -, -, hbit⟩ := hs.slot _ _ hr.slot
  have hset : s.bm.bit (s.thread t).processID.toNat = true := by simpa [hr.live] using hbit
  have hname : s.getName pID = some (r, (s.thread t).name) := by
    rw [← hpid]
    simp [State.getName, psize, BitMap.test, hs.tableBits, hp0, hp10, hset, hr.slot, hr.thread]
  unfold State.myStartProcess at h
  simp only [hname] at h
  split at h
  · cases h
    exact .start hc hr
  · rename_i hmagic
    cases h
    exact .stop hmagic

/-- The new mutex is free, so `PCB::Exec` gets it at once. -/
theorem State.reserve_eq (s : State) (t : Tid) (i : Nat) (name : String) :
    ({ s.newPcb t i with bm := (s.bm.markBit i).markBit i }.modifyPcb s.nextRef
        fun p => { p with parentID := (s.thread t).processID }).P t (.mutex s.nextRef)
      (.execFork s.nextRef name i) = ([.P t (.mutex s.nextRef)], s.reserve t i name) := by
  simp [State.P, State.newPcb, State.modifyPcb, State.reserve, Semaphore.P, Semaphore.new]

/-- The checks of `ExecUpdate`. -/
theorem Wf.move_execChecks (hs : Wf s) {filename : Option String} {found : Bool}
    (hc : (s.thread t).control = .execChecks filename)
    (h : s.execUpdateChecks t filename found = (events, s')) :
    Move s t (.opened found) events s' := by
  have hfails : s.execFails t = (events, s') → Move s t (.opened found) events s' := by
    intro h
    cases h
    exact .execFails hc
  unfold State.execUpdateChecks at h
  split at h
  · exact hfails h
  · split_ifs at h with hname hfound
    · exact hfails h
    · exact hfails h
    · have htrue : found = true := by simpa using hfound
      subst htrue
      rcases s.bm.findFreeSlot_cases with ⟨i, hi, hbit, hslot⟩ | ⟨-, hslot⟩
      · have hmark : (s.bm.markBit i).mark i = some ((s.bm.markBit i).markBit i) := by
          simp [BitMap.mark, hi]
        have hnonneg : ¬ ((i : Int) < 0) := by omega
        simp only [hslot, hnonneg, if_false, hmark, Option.getD_some] at h
        rw [reserve_eq] at h
        cases h
        exact .reserve hc (hs.tableBits ▸ hi) hbit (by rw [hslot]) hname
      · simp only [hslot, Int.reduceNeg, Int.reduceLT, if_true] at h
        exact hfails h

/-- The first section of `JoinUpdate`. -/
theorem Wf.move_join (hs : Wf s) (hc : (s.thread t).control = .user) (hpc : s.fetches t pc = true)
    (h : s.joinUpdate t pID = (events, s')) :
    Move s t (.call pc (.join pID)) (.instruction t :: events) s' := by
  unfold State.joinUpdate at h
  split at h
  · rename_i hrange
    have hnone : s.pcb pID = none := by
      cases hp : s.pcb pID with
      | none => rfl
      | some r =>
        obtain ⟨h0, h10, -⟩ := hs.slot _ _ hp
        simp only [psize] at hrange
        omega
    cases h
    exact .joinMissing hc hpc hnone
  · split at h
    · rename_i hp
      cases h
      exact .joinMissing hc hpc hp
    · rename_i r hp
      split at h
      · rename_i hparent
        cases h
        exact .joinForeign hc hpc hp hparent
      · rename_i hparent
        cases h
        exact .joinWait hc hpc hp (not_not.mp hparent)

/-- Its second section. -/
theorem Wf.move_joined (hs : Wf s) (hc : (s.thread t).control = .joined pID)
    (h : s.joinUpdateRest t pID = (events, s')) : Move s t .go events s' := by
  have hsome : (s.pcb pID).isSome := by simpa [hc, ControlOk] using hs.control t
  obtain ⟨r, hr⟩ := Option.isSome_iff_exists.mp hsome
  simp only [State.joinUpdateRest, hr] at h
  split at h
  · rename_i hec
    cases h
    exact .joinAbandon hc hr hec
  · rename_i hec
    have hzero : (s.heap r).exitcode = 0 := not_not.mp hec
    cases h
    rw [hzero]
    exact .joinGrant hc hr hzero

/-- A part of the PCBs that neither `SetExitCode` nor `DecNumWait` writes. -/
theorem State.exitStored_proj {α : Type*} (π : PCB → α) (s : State) (r q : Ref)
    (hset : ∀ p, π (p.setExitCode ec) = π p) (hdec : ∀ p, π p.decNumWait = π p) (r' : Ref) :
    π ((s.exitStored r q ec).heap r') = π (s.heap r') :=
  (modifyPcb_proj π _ q hdec r').trans (modifyPcb_proj π s r hset r')

/-- The first section of `ExitUpdate`. -/
theorem Wf.move_exit (hs : Wf s) (ht : t < s.nextTid) (hc : (s.thread t).control = .user)
    (hpc : s.fetches t pc = true) (h : s.exitUpdate t ec = (events, s')) :
    Move s t (.call pc (.exit ec)) (.instruction t :: events) s' := by
  by_cases h0 : (s.thread t).processID = 0
  · simp only [State.exitUpdate, h0, if_true] at h
    cases h
    exact .exitHalt hc hpc h0
  · obtain ⟨r, hr⟩ := hs.runs ht (by simp [hc]) h0
    have hexist := hs.isExist_of_slot hr.slot hr.live
    have hne : r ≠ 0 := (hs.owner r t (hs.runs_lt hr) hr.thread).1
    obtain ⟨q, hq⟩ := Option.isSome_iff_exists.mp (hs.parent r (hs.runs_lt hr) hne)
    obtain ⟨bm, hbm, -⟩ := hs.freed t
    simp only [State.exitUpdate, h0, if_false, hexist, Bool.not_true, Bool.false_eq_true,
      hr.slot, hq] at h
    change (if ((s.exitStored r q ec).heap r).joinStatus ≠ -1 then _ else _) = _ at h
    rw [exitStored_proj PCB.joinStatus s r q (fun _ => rfl) (fun _ => rfl)] at h
    split at h
    · rename_i hjoin
      cases h
      exact .exitSignal hc hpc h0 hr hq hjoin
    · rename_i hjoin
      have hruns : (s.exitStored r q ec).Runs t r :=
        ⟨hr.slot,
          (exitStored_proj PCB.destroyed s r q (fun _ => rfl) (fun _ => rfl) r).trans hr.live,
          (exitStored_proj PCB.thread s r q (fun _ => rfl) (fun _ => rfl) r).trans hr.thread⟩
      have hremove : (s.exitStored r q ec).remove t (s.thread t).processID =
          ([.destroy r], (s.exitStored r q ec).removed t r bm) :=
        remove_eq hexist hruns hbm
      change (.setExitCode t r ec :: .access q ::
        ((s.exitStored r q ec).remove t (s.thread t).processID).1,
        ((s.exitStored r q ec).remove t (s.thread t).processID).2) = _ at h
      rw [hremove] at h
      cases h
      exact .exitNow hc hpc h0 hr hq (not_not.mp hjoin) hbm

/-- The check for memory in the constructor. -/
theorem move_allocate (hc : (s.thread t).control = .allocate noffH)
    (h : s.allocate t noffH = (events, s')) : Move s t .go events s' := by
  unfold State.allocate at h
  split at h
  · rename_i hfull
    rw [← (Prod.mk.inj h).1, ← (Prod.mk.inj h).2]
    exact .refuse hc hfull
  · rename_i hfits
    rw [← (Prod.mk.inj h).1, ← (Prod.mk.inj h).2]
    exact .allocate hc (Nat.le_of_not_lt hfits)

/-- A call by a user program. -/
theorem Wf.move_call (hs : Wf s) {c : Call} (ht : t < s.nextTid)
    (hc : (s.thread t).control = .user) (hpc : s.fetches t pc = true)
    (h : s.call t c = (events, s')) : Move s t (.call pc c) (.instruction t :: events) s' := by
  cases c with
  | exec filename =>
    rw [← (Prod.mk.inj h).1, ← (Prod.mk.inj h).2]
    exact .exec hc hpc
  | join pID => exact hs.move_join hc hpc h
  | exit ec => exact hs.move_exit ht hc hpc h

/-- A thread that is not inside `P` makes one of the moves. -/
theorem Wf.resume_cases (hs : Wf s) {i : Input} (ht : t < s.nextTid)
    (h : s.resume t (s.thread t).control i = some (events, s')) : Move s t i events s' := by
  generalize hc : (s.thread t).control = c at h
  unfold State.resume at h
  split at h
  · rename_i noffH
    have h := Option.some.inj h
    unfold State.newAddrSpace at h
    split at h
    · rw [← (Prod.mk.inj h).1, ← (Prod.mk.inj h).2]
      exact .boot hc
    · rename_i hmagic
      cases h
      exact .stop hmagic
  · exact hs.move_start ht hc (Option.some.inj h)
  · exact move_allocate hc (Option.some.inj h)
  · have h := Option.some.inj h
    rw [← (Prod.mk.inj h).1, ← (Prod.mk.inj h).2]
    exact .fallThrough hc
  · have h := Option.some.inj h
    rw [← (Prod.mk.inj h).1, ← (Prod.mk.inj h).2]
    exact .load hc
  · cases h
    exact .deleteAgain hc
  · rename_i pc c
    split at h
    · rename_i hpc
      have h := Option.some.inj h
      rw [← (Prod.mk.inj h).1, ← (Prod.mk.inj h).2]
      exact hs.move_call ht hc hpc rfl
    · cases h
  · exact hs.move_execChecks hc (Option.some.inj h)
  · have h := Option.some.inj h
    rw [← (Prod.mk.inj h).1, ← (Prod.mk.inj h).2]
    exact .fork hc
  · have h := Option.some.inj h
    rw [← (Prod.mk.inj h).1, ← (Prod.mk.inj h).2]
    exact .unlock hc
  · have h := Option.some.inj h
    rw [← (Prod.mk.inj h).1, ← (Prod.mk.inj h).2]
    exact .execDone hc
  · exact hs.move_joined hc (Option.some.inj h)
  · rename_i ec
    have h := Option.some.inj h
    have h0 : (s.thread t).processID ≠ 0 := by simpa [hc, ControlOk] using hs.control t
    obtain ⟨r, hr⟩ := hs.runs ht (by simp [hc]) h0
    simp only [State.exitWait, hr.slot] at h
    rw [← (Prod.mk.inj h).1, ← (Prod.mk.inj h).2]
    exact .exitWait hc hr
  · rename_i ec
    have h := Option.some.inj h
    have h0 : (s.thread t).processID ≠ 0 := by simpa [hc, ControlOk] using hs.control t
    obtain ⟨r, hr⟩ := hs.runs ht (by simp [hc]) h0
    obtain ⟨bm, hbm, -⟩ := hs.freed t
    rw [remove_eq (hs.isExist_of_slot hr.slot hr.live) hr hbm] at h
    rw [← (Prod.mk.inj h).1, ← (Prod.mk.inj h).2]
    exact .remove hc hr hbm
  · cases h

/-- What a step of the system can be: another pass through the loop of `P`, or a move. -/
theorem Wf.step_cases (hs : Wf s) (h : step s a = some (events, s')) :
    s.ready a.thread ∧
      ((∃ id, (s.thread a.thread).waiting = some id ∧ a.input = .go ∧
          events = (s.P a.thread id (s.thread a.thread).control).1 ∧
          s' = (s.P a.thread id (s.thread a.thread).control).2) ∨
        ((s.thread a.thread).waiting = none ∧ Move s a.thread a.input events s')) := by
  unfold step at h
  split at h
  · rename_i hready
    refine ⟨hready, ?_⟩
    split at h
    · rename_i id hw
      split at h
      · rename_i hgo
        have h := Option.some.inj h
        exact .inl ⟨id, hw, hgo, congrArg Prod.fst h.symm, congrArg Prod.snd h.symm⟩
      · cases h
    · rename_i hw
      exact .inr ⟨hw, hs.resume_cases hready.lt h⟩
  · cases h

/-- A pass through the loop of `P` shows nothing but that: any other event comes from a move. -/
theorem Wf.move_of_event (hs : Wf s) {e : Event} (h : step s a = some (events, s'))
    (he : e ∈ events) (hP : ∀ id, e ≠ .P a.thread id) (hwait : ∀ id, e ≠ .wait a.thread id) :
    Move s a.thread a.input events s' := by
  obtain ⟨-, ⟨id, -, -, rfl, -⟩ | ⟨-, hm⟩⟩ := hs.step_cases h
  · rw [P_events, List.mem_singleton] at he
    split at he
    · exact absurd he (hwait id)
    · exact absurd he (hP id)
  · exact hm

/-- A call that records a join has passed the checks of `JoinUpdate`. -/
theorem Move.join_checks {u : Tid} (hm : Move s t i events s') (hrec : .joinWait u r ∈ events) :
    u = t ∧ (s.thread t).control = .user ∧ ∃ pID ∈ i.joins, s.pcb pID = some r ∧
      (s.thread t).processID = (s.heap r).parentID := by
  cases hm with
  | @joinWait _ pID r' hc hpc hp hparent =>
    obtain ⟨rfl, rfl⟩ : u = t ∧ r = r' := by
      rw [P_events] at hrec
      split_ifs at hrec <;> simpa using hrec
    exact ⟨rfl, hc, pID, rfl, hp, hparent⟩
  | _ => grind [P_events]

end Inversion

end Nachos.Process
