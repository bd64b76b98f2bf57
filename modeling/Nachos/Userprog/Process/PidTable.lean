import Nachos.Userprog.Frames
import Nachos.Userprog.Process.Queue

/-!
# The process table

The promises of `PTable`: process numbers are given out once at a time, the bitmap marks exactly
the numbers in use or reserved, every forked process is found through its slot, an `ExecUpdate`
that returns -1 leaves the table as it was, and `bmsem` is back at 1 when no `ExecUpdate` holds
it. Slots are reserved under `bmsem`, but `Remove` clears them without it.
-/

namespace Nachos.Process

open Transition State

/-- The process of thread `t` has been forked, or is the initial one, and has not been removed. -/
def Live (s : State) (t : Tid) : Prop := (s.thread t).control ≠ .finished

/-- The thread is between `bmsem->P()` and `bmsem->V()` of `ExecUpdate`. -/
def Thread.inExec (th : Thread) : Bool :=
  match th.control with
  | .execChecks _ => th.waiting.isNone
  | .execFork .. | .execUnlock .. | .execDone _ => true
  | _ => false

/-- The points of `ExecUpdate` after its call of `bmsem->P()`. -/
def Control.ofExec : Control → Bool
  | .execChecks _ | .execFork .. | .execUnlock .. | .execDone _ => true
  | _ => false

/-- The facts about process numbers, the bitmap, the slots and `bmsem`. -/
structure PidTable (s : State) : Prop where
  root : Live s 0 ∧ (s.thread 0).processID = 0
  range : ∀ t, Live s t → 0 ≤ (s.thread t).processID ∧ (s.thread t).processID ≤ 9
  distinct : ∀ t u, Live s t → Live s u → (s.thread t).processID = (s.thread u).processID → t = u
  /-- `PCB::Exec` holds a reserved number from its `mutex->P()` on until it forks the thread. -/
  bits : ∀ p : Nat, p < 10 → (s.bm.bit p = true ↔
    (∃ t, Live s t ∧ (s.thread t).processID = p) ∨
      ∃ t r name, (s.thread t).control = .execFork r name p)
  thread : ∀ t, Live s t → t ≠ 0 → 1 ≤ (s.thread t).processID ∧
    ∃ r, s.pcb (s.thread t).processID = some r ∧ (s.heap r).thread = some t
  bmsem : (∀ t, (s.thread t).inExec = false) → (s.sem .bmsem).value = 1

/-! ## The holder of `bmsem` -/

/-- `bmsem` is free, or one thread is inside. -/
structure BmLock (s : State) (holder : Option Tid) : Prop where
  value : (s.sem .bmsem).value = if holder.isNone then 1 else 0
  inside : ∀ t, (s.thread t).inExec = true ↔ holder = some t

/-- What thread `t` can do to `bmsem`. -/
inductive LockMove (s s' : State) (t : Tid) : Prop where
  | keep (hv : (s'.sem .bmsem).value = (s.sem .bmsem).value)
      (ht : (s'.thread t).inExec = (s.thread t).inExec)
  | enter (hfree : (s.sem .bmsem).value ≠ 0)
      (hv : (s'.sem .bmsem).value = (s.sem .bmsem).value - 1)
      (ht : (s'.thread t).inExec = true)
  | leave (hv : (s'.sem .bmsem).value = (s.sem .bmsem).value + 1)
      (hin : (s.thread t).inExec = true) (ht : (s'.thread t).inExec = false)

section Lock

variable {s s' : State} {t : Tid} {i : Input} {events : List Event} {holder : Option Tid}
  {s₀ : State} {id : SemId} {c : Control} {a : Act}

/-- `bmsem` is handed on correctly by a step of `t` that shows nothing of other threads. -/
theorem BmLock.move (h : BmLock s holder) (hm : LockMove s s' t)
    (hothers : ∀ u, u ≠ t → (s'.thread u).inExec = (s.thread u).inExec) :
    ∃ holder', BmLock s' holder' := by
  cases hm with
  | keep hv ht =>
    refine ⟨holder, hv.trans h.value, fun u => ?_⟩
    rcases eq_or_ne u t with rfl | hu
    · rw [ht, h.inside]
    · rw [hothers u hu, h.inside]
  | enter hfree hv ht =>
    have hnone : holder = none := by
      cases holder with
      | none => rfl
      | some w => exact absurd h.value hfree
    subst hnone
    refine ⟨some t, by rw [hv, h.value]; rfl, fun u => ?_⟩
    rcases eq_or_ne u t with rfl | hu
    · simp [ht]
    · rw [hothers u hu, h.inside]
      simp [hu.symm]
  | leave hv hin ht =>
    obtain rfl : holder = some t := (h.inside t).mp hin
    refine ⟨none, by rw [hv, h.value]; rfl, fun u => ?_⟩
    rcases eq_or_ne u t with rfl | hu
    · simp [ht]
    · rw [hothers u hu, h.inside]
      simp [hu.symm]

theorem Thread.inExec_of_outside {th : Thread} (h : th.control.ofExec = false) :
    th.inExec = false := by
  unfold Thread.inExec
  cases hc : th.control <;> simp_all [Control.ofExec]

/-- A thread that is not in `ExecUpdate` before and after the step. -/
theorem LockMove.outside (hv : (s'.sem .bmsem).value = (s.sem .bmsem).value)
    (hc : (s.thread t).control.ofExec = false) (hc' : (s'.thread t).control.ofExec = false) :
    LockMove s s' t :=
  .keep hv (by rw [Thread.inExec_of_outside hc, Thread.inExec_of_outside hc'])

/-- `P` of another semaphore by such a thread. -/
theorem LockMove.of_P (hsem : s₀.sem = s.sem) (hid : id ≠ .bmsem)
    (hc : (s.thread t).control.ofExec = false) (hc' : c.ofExec = false) :
    LockMove s (s₀.P t id c).2 t := by
  refine .outside ?_ hc (by simpa using hc')
  rw [P_sem, if_neg hid.symm, hsem]

/-- `V` of another semaphore by such a thread. -/
theorem LockMove.of_V (hsem : s₀.sem = s.sem) (hid : id ≠ .bmsem)
    (hc : (s.thread t).control.ofExec = false) (hc' : c.ofExec = false) :
    LockMove s ((s₀.V t id).2.goto t c) t := by
  refine .outside ?_ hc (by simpa using hc')
  show ((s₀.V t id).2.sem .bmsem).value = _
  rw [V_sem, if_neg hid.symm, hsem]

/-- `P` of `bmsem`, by a new caller or by one that tests again. -/
theorem LockMove.of_bmsem {filename : Option String} (hout : (s.thread t).inExec = false) :
    LockMove s (s.P t .bmsem (.execChecks filename)).2 t := by
  by_cases hv : (s.sem .bmsem).value = 0
  · refine .keep ?_ ?_
    · rw [P_sem, if_pos rfl, if_pos hv]
    · rw [hout, P_thread, if_pos rfl, if_pos hv]
      rfl
  · refine .enter hv ?_ ?_
    · rw [P_sem, if_pos rfl, if_neg hv]
    · rw [P_thread, if_pos rfl, if_neg hv]
      rfl

/-- `V` of `bmsem` at the end of `ExecUpdate`. -/
theorem LockMove.of_release (hin : (s.thread t).inExec = true) :
    LockMove s ((s.V t .bmsem).2.goto t .user) t := by
  refine .leave ?_ hin ?_
  · show ((s.V t .bmsem).2.sem .bmsem).value = _
    rw [V_sem, if_pos rfl]
  · exact Thread.inExec_of_outside (by simp [Control.ofExec])

/-- `bmsem` changes hands only in `ExecUpdate`. -/
theorem Move.lockMove (ht : t < s.nextTid) (hw : (s.thread t).waiting = none)
    (hm : Move s t i events s') : LockMove s s' t := by
  have hinside : (s.thread t).control.ofExec = true → (s.thread t).inExec = true := by
    intro h
    unfold Thread.inExec
    cases hc : (s.thread t).control <;> simp_all [Control.ofExec]
  cases hm with
  | stop => exact .keep rfl rfl
  | exitHalt => exact .keep rfl rfl
  | deleteAgain => exact .keep rfl rfl
  | boot hc => exact .of_P rfl (by simp) (by rw [hc]; rfl) rfl
  | start hc => exact .of_P rfl (by simp) (by rw [hc]; rfl) rfl
  | allocate hc => exact .of_V rfl (by simp) (by rw [hc]; rfl) rfl
  | refuse hc => exact .of_V rfl (by simp) (by rw [hc]; rfl) rfl
  | fallThrough hc => exact .of_V rfl (by simp) (by rw [hc]; rfl) rfl
  | load hc =>
    exact .outside rfl (by rw [hc]; rfl) (by simp [State.modifyThread, Control.ofExec])
  | exec hc => exact .of_bmsem (Thread.inExec_of_outside (by rw [hc]; rfl))
  | execFails hc => exact .of_release (hinside (by rw [hc]; rfl))
  | reserve hc =>
    refine .keep ?_ ?_
    · simp [State.reserve]
    · rw [hinside (by rw [hc]; rfl)]
      simp [Thread.inExec]
  | fork hc =>
    refine .keep rfl ?_
    rw [hinside (by rw [hc]; rfl), execFork_caller _ _ _ _ _ (Nat.ne_of_lt ht)]
    rfl
  | unlock hc =>
    refine .keep ?_ ?_
    · show ((s.V t _).2.sem .bmsem).value = _
      rw [V_sem, if_neg (by simp)]
    · rw [hinside (by rw [hc]; rfl)]
      simp [Thread.inExec]
  | execDone hc => exact .of_release (hinside (by rw [hc]; rfl))
  | joinMissing => exact .keep rfl rfl
  | joinForeign => exact .keep rfl rfl
  | joinWait hc => exact .of_P rfl (by simp) (by rw [hc]; rfl) rfl
  | joinAbandon hc => exact .outside rfl (by rw [hc]; rfl) (by simp [Control.ofExec])
  | joinGrant hc => exact .of_V rfl (by simp) (by rw [hc]; rfl) rfl
  | exitSignal hc => exact .of_V rfl (by simp) (by rw [hc]; rfl) rfl
  | exitNow hc =>
    refine .outside ?_ (by rw [hc]; rfl) (by simp [Control.ofExec])
    simp [State.removed, State.destroyPcb, State.exitStored]
  | exitWait hc => exact .of_P rfl (by simp) (by rw [hc]; rfl) rfl
  | remove hc =>
    refine .outside ?_ (by rw [hc]; rfl) (by simp [Control.ofExec])
    simp [State.removed, State.destroyPcb]

/-- A thread that did not exist is still to come, or is about to start. -/
theorem TableMove.newborn (hs : Wf s) (ht : t < s.nextTid) (h : TableMove s t i s') :
    (s'.thread s.nextTid).control.ofExec = false := by
  have hne : s.nextTid ≠ t := (Nat.ne_of_lt ht).symm
  have hunborn : (s.thread s.nextTid).control.ofExec = false := by
    rw [hs.unborn s.nextTid le_rfl]
    rfl
  cases h with
  | quiet h => rwa [(h.others _ hne).1]
  | same => exact hunborn
  | halt => exact hunborn
  | reserve => rwa [reserve_thread _ _ _ _ hne]
  | fork => rw [execFork_child]; rfl
  | removed hq => rwa [removed_thread _ _ _ _ hne, (hq.others _ hne).1]

theorem Wf.step_newborn (hs : Wf s) (hstep : Process.step s a = some (events, s')) :
    (s'.thread s.nextTid).control.ofExec = false := by
  obtain ⟨hready, ⟨id, hw, -, -, rfl⟩ | ⟨hw, hm⟩⟩ := hs.step_cases hstep
  · rw [P_thread, if_neg (Nat.ne_of_lt hready.lt).symm, hs.unborn s.nextTid le_rfl]
    rfl
  · exact (hm.tableMove hs hready.lt hw).newborn hs hready.lt

/-- Every step hands `bmsem` on correctly. -/
theorem BmLock.step (hs : Wf s) (hq : Queued s) (h : BmLock s holder)
    (hstep : Process.step s a = some (events, s')) : ∃ holder', BmLock s' holder' := by
  have hothers : ∀ u, u ≠ a.thread → (s'.thread u).inExec = (s.thread u).inExec := by
    intro u hu
    by_cases hnew : u = s.nextTid
    · subst hnew
      rw [Thread.inExec_of_outside (hs.step_newborn hstep), Thread.inExec_of_outside]
      rw [hs.unborn s.nextTid le_rfl]
      rfl
    · obtain ⟨hc, hw, -⟩ := hs.step_others hstep hu hnew
      simp only [Thread.inExec, hc, hw]
  obtain ⟨hready, ⟨id, hw, -, -, rfl⟩ | ⟨hw, hm⟩⟩ := hs.step_cases hstep
  · refine h.move ?_ hothers
    have hwait := hq.wait a.thread id hw
    cases id with
    | bmsem =>
      obtain ⟨filename, hc⟩ := hwait
      rw [hc]
      exact .of_bmsem (by simp [Thread.inExec, hc, hw])
    | addrLock =>
      obtain ⟨noffH, hc⟩ := hwait
      exact .of_P rfl (by simp) (by rw [hc]; rfl) (by rw [hc]; rfl)
    | joinsem r =>
      obtain ⟨-, hc, -⟩ := hwait
      exact .of_P rfl (by simp) (by rw [hc]; rfl) (by rw [hc]; rfl)
    | exitsem r =>
      obtain ⟨-, ⟨ec, hc⟩, -⟩ := hwait
      exact .of_P rfl (by simp) (by rw [hc]; rfl) (by rw [hc]; rfl)
    | mutex r => exact hwait.elim
  · exact h.move (hm.lockMove hready.lt hw) hothers

end Lock

/-! ## Marked slots -/

/-- A marked slot holds a PCB, and a PCB without a thread is about to get one. -/
structure Reserved (s : State) : Prop where
  filled : ∀ p, p < 10 → s.bm.bit p = true → ∃ r, s.pcb p = some r
  forking : ∀ r, r < s.nextRef → r ≠ 0 → (s.heap r).destroyed = false →
    (s.heap r).thread = none → ∃ t name, (s.thread t).control = .execFork r name (s.heap r).pid

section Slots

variable {s s' : State} {t : Tid} {i : Input} {events : List Event}

/-- The only way on from `mutex->P()` of `PCB::Exec` is to fork. -/
theorem Move.of_execFork {r : Ref} {name : String} {pID : Int} (hm : Move s t i events s')
    (hc : (s.thread t).control = .execFork r name pID) :
    s' = s.halt ∨ s' = (s.execFork t r name pID).2 := by
  cases hm with
  | stop => exact .inl rfl
  | fork hc' =>
    obtain ⟨rfl, rfl, rfl⟩ : _ = r ∧ _ = name ∧ _ = pID := by simpa [hc'] using hc
    exact .inr rfl
  | _ hc' => exact absurd (hc.symm.trans hc') (by simp)

theorem TableMove.filled (hs : Wf s) (h : ∀ p, p < 10 → s.bm.bit p = true → ∃ r, s.pcb p = some r)
    (hm : TableMove s t i s') : ∀ p, p < 10 → s'.bm.bit p = true → ∃ r, s'.pcb p = some r := by
  cases hm with
  | quiet hq =>
    rw [hq.bm, hq.pcb]
    exact h
  | same => exact h
  | halt => exact h
  | @reserve name n hc hn =>
    intro p hp hbit
    rw [reserve_pcb]
    split
    · exact ⟨_, rfl⟩
    · rename_i hpn
      rw [hs.reserve_bit hn, Bool.or_eq_true, decide_eq_true_eq] at hbit
      exact hbit.elim (fun heq => absurd (by rw [heq]) hpn) (h p hp)
  | fork => exact h
  | @removed _ s₁ r bm hq hr =>
    intro p hp hbit
    have hclear : (s₁.bm.clearBit (s₁.thread t).processID.toNat).bit p = true := hbit
    have hpcb : (s₁.removed t r bm).pcb = s.pcb := hq.pcb
    have hslot := hr.slot
    rw [hq.pcb] at hslot
    obtain ⟨hp0, hp10, -⟩ := hs.slot _ _ hslot
    rw [hq.bm, BitMap.bit_clearBit (by rw [hs.tableBits]; omega)] at hclear
    rw [hpcb]
    exact h p hp (Bool.and_eq_true_iff.mp hclear).2

/-- Only a reservation allocates a PCB. -/
theorem TableMove.nextRef (hm : TableMove s t i s') :
    s'.nextRef = s.nextRef ∨ ∃ n name, s' = s.reserve t n name := by
  cases hm with
  | quiet hq => exact .inl hq.nextRef
  | reserve => exact .inr ⟨_, _, rfl⟩
  | removed hq => exact .inl hq.nextRef
  | _ => exact .inl rfl

theorem Reserved.move (hs : Wf s) (h : Reserved s) (ht : t < s.nextTid)
    (hw : (s.thread t).waiting = none) (hm : Move s t i events s') : Reserved s' := by
  have htm := hm.tableMove hs ht hw
  refine ⟨htm.filled hs h.filled, ?_⟩
  intro r hr hne hlive hnone
  by_cases hold : r < s.nextRef
  · have hkept := htm.kept hs hold
    have hlive₀ : (s.heap r).destroyed = false :=
      Bool.eq_false_iff.mpr fun hd => Bool.eq_false_iff.mp hlive (hkept.destroyed hd)
    have hnone₀ : (s.heap r).thread = none := by
      cases hth : (s.heap r).thread with
      | none => rfl
      | some c => rw [hkept.thread c hth] at hnone; cases hnone
    obtain ⟨u, name, hu⟩ := h.forking r hold hne hlive₀ hnone₀
    refine ⟨u, name, ?_⟩
    rw [hkept.pid]
    rcases eq_or_ne u t with rfl | hut
    · -- the caller itself goes on only by forking, which would have given `r` its thread
      obtain rfl | rfl := hm.of_execFork hu
      · exact hu
      · obtain ⟨-, -, -, -, -, hparent, -⟩ : ControlOk s u (.execFork r name _) :=
          hu ▸ hs.control u
        rw [execFork_heap _ _ _ _ _ _ hparent, if_pos rfl] at hnone
        cases hnone
    · have hborn : u ≠ s.nextTid := Nat.ne_of_lt (hs.born (by simp [hu]))
      rw [(htm.others hut hborn).1, hu]
  · obtain hsame | ⟨n, newName, rfl⟩ := htm.nextRef
    · exact absurd (hsame ▸ hr) hold
    · have hnew : r = s.nextRef :=
        Nat.le_antisymm (Nat.lt_succ_iff.mp hr) (Nat.le_of_not_lt hold)
      subst hnew
      exact ⟨t, newName, by simp [PCB.new]⟩

theorem Reserved.step (hs : Wf s) (h : Reserved s) {a : Act}
    (hstep : Process.step s a = some (events, s')) : Reserved s' := by
  obtain ⟨hready, ⟨id, -, -, -, rfl⟩ | ⟨hw, hm⟩⟩ := hs.step_cases hstep
  · refine ⟨h.filled, fun r hr hne hlive hnone => ?_⟩
    obtain ⟨u, name, hu⟩ := h.forking r hr hne hlive hnone
    refine ⟨u, name, ?_⟩
    rw [P_control]
    split_ifs with heq
    · exact heq ▸ hu
    · exact hu
  · exact h.move hs hready.lt hw hm

/-- The bits of the process numbers. -/
theorem Reserved.bits (hs : Wf s) (h : Reserved s) {p : Nat} (hp : p < 10) :
    s.bm.bit p = true ↔ (∃ t, Live s t ∧ (s.thread t).processID = p) ∨
      ∃ t r name, (s.thread t).control = .execFork r name p := by
  have hmarked : ∀ r, s.pcb p = some r → (s.heap r).destroyed = false → s.bm.bit p = true := by
    intro r hslot hlive
    obtain ⟨-, -, -, -, hbit⟩ := hs.slot p r hslot
    simpa [hlive] using hbit
  constructor
  · intro hbit
    obtain ⟨r, hslot⟩ := h.filled p hp hbit
    obtain ⟨-, -, hr, hpid, hdead⟩ := hs.slot p r hslot
    have hlive : (s.heap r).destroyed = false := by simpa [hbit] using hdead
    by_cases hroot : r = 0
    · -- the PCB of the initial process stands in slot 0 only
      subst hroot
      have h0 : (s.heap 0).pid = 0 := (hs.slot 0 0 hs.root.1).2.2.2.1
      exact .inl ⟨0, hs.root.2.2.2.1, by rw [hs.root.2.2.1, ← hpid, h0]⟩
    · cases hth : (s.heap r).thread with
      | none =>
        obtain ⟨t, name, ht⟩ := h.forking r hr hroot hlive hth
        exact .inr ⟨t, r, name, hpid ▸ ht⟩
      | some t =>
        obtain ⟨-, -, -, hpid', hfin⟩ := hs.owner r t hr hth
        refine .inl ⟨t, fun hf => ?_, hpid'.trans hpid⟩
        rw [hfin.mpr hf] at hlive
        cases hlive
  · rintro (⟨t, hlive, hpid⟩ | ⟨t, r, name, hc⟩)
    · obtain ⟨r, hslot, hdead, -⟩ := hs.owns t (hs.born hlive) hlive
      exact hmarked r (hpid ▸ hslot) hdead
    · obtain ⟨hr, -, hdead, -, hpid, -⟩ : ControlOk s t (.execFork r name p) := hc ▸ hs.control t
      exact hmarked r (hpid ▸ hs.alive r hr hdead) hdead

end Slots

/-! ## An `ExecUpdate` that fails -/

/-- `ExecUpdate` is before or in its checks. -/
def Checking (s : State) (t : Tid) : Prop := ∃ filename, (s.thread t).control = .execChecks filename

/-- `ExecUpdate` has passed its checks and will return the number it has reserved. -/
def Granted (s : State) (t : Tid) : Prop :=
  ∃ pID : Int, 0 ≤ pID ∧ ((∃ r name, (s.thread t).control = .execFork r name pID) ∨
    (∃ r, (s.thread t).control = .execUnlock r pID) ∨ (s.thread t).control = .execDone pID)

/-- The `ExecUpdate` of `t` has returned -1 with `events`, or it returns -1 later on. -/
def FailsLater (t : Tid) (events : List Event) (s : State) : Prop :=
  .execReturns t (-1) ∈ events ∨
    ∃ later s₁ i ev s₂, Run step anyAct s later s₁ ∧
      (∀ res, .execReturns t res ∉ events ++ later) ∧
      step s₁ ⟨t, i⟩ = some (ev, s₂) ∧ .execReturns t (-1) ∈ ev

section Failure

variable {s s' : State} {t u : Tid} {i : Input} {events : List Event} {res : Int} {a : Act}

/-- Where an `ExecUpdate` returns, and what it leaves behind. -/
theorem Move.exec_returns (hm : Move s t i events s') (he : .execReturns u res ∈ events) :
    u = t ∧ ((Checking s t ∧ s'.bm = s.bm ∧ s'.pcb = s.pcb) ∨
      (s.thread t).control = .execDone res) := by
  cases hm with
  | execFails hc =>
    obtain ⟨rfl, rfl⟩ : u = t ∧ res = -1 := by simpa using he
    exact ⟨rfl, .inl ⟨⟨_, hc⟩, rfl, rfl⟩⟩
  | execDone hc =>
    obtain ⟨rfl, rfl⟩ : u = t ∧ res = _ := by simpa using he
    exact ⟨rfl, .inr hc⟩
  | _ => grind [P_events]

theorem Wf.step_exec_returns (hs : Wf s) (hstep : Process.step s a = some (events, s'))
    (he : .execReturns u res ∈ events) :
    u = a.thread ∧ ((Checking s u ∧ s'.bm = s.bm ∧ s'.pcb = s.pcb) ∨
      (s.thread u).control = .execDone res) := by
  obtain ⟨rfl, h⟩ := (hs.move_of_event hstep he (by simp) (by simp)).exec_returns he
  exact ⟨rfl, h⟩

/-- An `ExecUpdate` past its checks stays there until it returns. -/
theorem Move.granted (hm : Move s t i events s') (ht : t < s.nextTid) (hg : Granted s t)
    (hret : ∀ res, .execReturns t res ∉ events) : Granted s' t := by
  obtain ⟨pID, hpID, ⟨r, name, hc⟩ | ⟨r, hc⟩ | hc⟩ := hg
  · obtain rfl | rfl := hm.of_execFork hc
    · exact ⟨pID, hpID, .inl ⟨r, name, hc⟩⟩
    · refine ⟨pID, hpID, .inr (.inl ⟨r, ?_⟩)⟩
      rw [execFork_caller _ _ _ _ _ (Nat.ne_of_lt ht)]
  · cases hm with
    | stop => exact ⟨pID, hpID, .inr (.inl ⟨r, hc⟩)⟩
    | unlock hc' =>
      obtain ⟨rfl, rfl⟩ : _ = r ∧ _ = pID := by simpa [hc'] using hc
      exact ⟨_, hpID, .inr (.inr (by simp))⟩
    | _ hc' => exact absurd (hc.symm.trans hc') (by simp)
  · cases hm with
    | stop => exact ⟨pID, hpID, .inr (.inr hc)⟩
    | @execDone pID' => exact absurd (by simp) (hret pID')
    | _ hc' => exact absurd (hc.symm.trans hc') (by simp)

/-- The checks end with a reservation, or they leave the table alone. -/
theorem Move.checking (hm : Move s t i events s') (hc : Checking s t)
    (hret : ∀ res, .execReturns t res ∉ events) :
    Granted s' t ∨ (Checking s' t ∧ s'.bm = s.bm ∧ s'.pcb = s.pcb) := by
  obtain ⟨filename, hc⟩ := hc
  cases hm with
  | stop => exact .inr ⟨⟨filename, hc⟩, rfl, rfl⟩
  | execFails => exact absurd (by simp) (hret (-1))
  | @reserve name n => exact .inl ⟨n, by omega, .inl ⟨s.nextRef, name, by simp⟩⟩
  | _ hc' => exact absurd (hc.symm.trans hc') (by simp)

theorem Granted.live (h : Granted s t) : Live s t := by
  obtain ⟨pID, -, ⟨r, name, hc⟩ | ⟨r, hc⟩ | hc⟩ := h <;> simp [Live, hc]

theorem Granted.of_control (h : Granted s t)
    (hc : (s'.thread t).control = (s.thread t).control) : Granted s' t := by
  unfold Granted at h ⊢
  rwa [hc]

/-- While the call has not returned, it does not fall back behind its checks. -/
theorem Wf.step_granted (hs : Wf s) (hstep : Process.step s a = some (events, s'))
    (hg : Granted s t) (hret : ∀ res, .execReturns t res ∉ events) : Granted s' t := by
  rcases eq_or_ne t a.thread with rfl | hne
  · obtain ⟨hready, ⟨id, -, -, -, rfl⟩ | ⟨-, hm⟩⟩ := hs.step_cases hstep
    · exact hg.of_control (by simp)
    · exact hm.granted hready.lt hg hret
  · exact hg.of_control (hs.step_others hstep hne (Nat.ne_of_lt (hs.born hg.live))).1

theorem Wf.step_checking (hs : Wf s) (hstep : Process.step s a = some (events, s'))
    (hc : Checking s t) (hret : ∀ res, .execReturns t res ∉ events) :
    Granted s' t ∨ (Checking s' t ∧ (a.thread = t → s'.bm = s.bm ∧ s'.pcb = s.pcb)) := by
  rcases eq_or_ne t a.thread with rfl | hne
  · obtain ⟨-, ⟨id, -, -, -, rfl⟩ | ⟨-, hm⟩⟩ := hs.step_cases hstep
    · obtain ⟨filename, hc⟩ := hc
      exact .inr ⟨⟨filename, by simp [hc]⟩, fun _ => ⟨rfl, rfl⟩⟩
    · exact (hm.checking hc hret).imp_right fun h => ⟨h.1, fun _ => h.2⟩
  · obtain ⟨filename, hcontrol⟩ := hc
    have hsame := (hs.step_others hstep hne (Nat.ne_of_lt (hs.born (by simp [hcontrol])))).1
    exact .inr ⟨⟨filename, hsame.trans hcontrol⟩, fun heq => absurd heq.symm hne⟩

/-- An `ExecUpdate` past its checks does not return -1. -/
theorem Granted.not_failsLater (hs : Wf s) (hg : Granted s t) : ¬ FailsLater t [] s := by
  rintro (h | ⟨later, s₁, j, ev, s₂, hrun, hret, hstep, he⟩)
  · cases h
  · have hinv : Wf s₁ ∧ ((∀ res, .execReturns t res ∉ later) → Granted s₁ t) := by
      apply hrun.traceInvariant
      · exact ⟨hs, fun _ => hg⟩
      · intro tr m a events m' hinv _ hstep
        refine ⟨hinv.1.step hstep, fun hno => ?_⟩
        exact hinv.1.step_granted hstep (hinv.2 fun res hres => hno res (by simp [hres]))
          fun res hres => hno res (by simp [hres])
    obtain ⟨pID, hpID, hcontrol⟩ := hinv.2 (by simpa using hret)
    obtain ⟨-, ⟨⟨filename, hc⟩, -⟩ | hc⟩ := hinv.1.step_exec_returns hstep he
    · simp [hc] at hcontrol
    · obtain rfl : pID = -1 := by simpa [hc, eq_comm] using hcontrol
      omega

/-- The steps of an `ExecUpdate` that returns -1: the call itself and every step up to the one
that returns. -/
theorem failed_exec_keeps_table (hs : Wf s) {pc : BitVec 32} {filename : Option String}
    {s₁ : State} (hcall : step s ⟨t, .call pc (.exec filename)⟩ = some (events, s₁)) :
    (s₁.bm = s.bm ∧ s₁.pcb = s.pcb) ∧
      ∀ later m i ev m', Run step anyAct s₁ later m →
        (∀ res, .execReturns t res ∉ later) → step m ⟨t, i⟩ = some (ev, m') →
        FailsLater t ev m' → m'.bm = m.bm ∧ m'.pcb = m.pcb := by
  obtain ⟨hchecking, hsame⟩ : Checking s₁ t ∧ s₁.bm = s.bm ∧ s₁.pcb = s.pcb := by
    obtain ⟨-, ⟨id, -, hgo, -⟩ | ⟨-, hm⟩⟩ := hs.step_cases hcall
    · cases hgo
    · cases hm with
      | exec => exact ⟨⟨filename, by simp⟩, rfl, rfl⟩
  refine ⟨hsame, fun later m i ev m' hrun hbefore hstep hfails => ?_⟩
  -- the call is in its checks or past them as long as it has not returned
  have hinv : Wf m ∧ ((∀ res, .execReturns t res ∉ later) → Checking m t ∨ Granted m t) := by
    apply hrun.traceInvariant
    · exact ⟨hs.step hcall, fun _ => .inl hchecking⟩
    · intro tr m₁ a events m₂ hinv _ hstep
      refine ⟨hinv.1.step hstep, fun hno => ?_⟩
      have hnot : ∀ res, .execReturns t res ∉ events := fun res hres => hno res (by simp [hres])
      rcases hinv.2 fun res hres => hno res (by simp [hres]) with hc | hg
      · exact (hinv.1.step_checking hstep hc hnot).symm.imp_left And.left
      · exact .inr (hinv.1.step_granted hstep hg hnot)
  by_cases hreturns : ∃ res, .execReturns t res ∈ ev
  · obtain ⟨res, hres⟩ := hreturns
    obtain ⟨-, ⟨-, hkeep⟩ | hdone⟩ := hinv.1.step_exec_returns hstep hres
    · exact hkeep
    · -- past the checks the result is not -1
      rcases hinv.2 hbefore with ⟨f, hc⟩ | hg
      · exact absurd (hdone.symm.trans hc) (by simp)
      · refine absurd ?_ (hg.not_failsLater hinv.1)
        rcases hfails with hminus | ⟨_, _, _, _, _, -, hnot, -⟩
        · exact .inr ⟨[], m, i, ev, m', .refl, by simp, hstep, hminus⟩
        · exact absurd (by simp [hres]) (hnot res)
  · have hnot : ∀ res, .execReturns t res ∉ ev := fun res hres => hreturns ⟨res, hres⟩
    have hfails' : FailsLater t [] m' := by
      rcases hfails with hminus | ⟨tr, s₂, j, ev', s₃, hrun', hno, hstep', hminus⟩
      · exact absurd hminus (hnot _)
      · exact .inr ⟨tr, s₂, j, ev', s₃, hrun', fun res hres => hno res (by simp_all), hstep',
          hminus⟩
    have hwf := hinv.1.step hstep
    rcases hinv.2 hbefore with hc | hg
    · obtain hg | ⟨-, hkeep⟩ := hinv.1.step_checking hstep hc hnot
      · exact absurd hfails' (hg.not_failsLater hwf)
      · exact hkeep rfl
    · exact absurd hfails' ((hinv.1.step_granted hstep hg hnot).not_failsLater hwf)

end Failure

/-! ## Whole runs -/

theorem initial_reserved (rawTable rawFrames : Nat → BitVec 32) :
    Reserved (initial rawTable rawFrames) := by
  refine ⟨fun p hp hbit => ?_, fun r hr hne => absurd (Nat.lt_one_iff.mp hr) hne⟩
  have hmarked : ((BitMap.new 10 rawTable).markBit 0).bit p = true := hbit
  rw [BitMap.bit_markBit (by simp), BitMap.bit_new hp] at hmarked
  obtain rfl : p = 0 := by simpa using hmarked
  exact ⟨0, rfl⟩

theorem initial_bmLock (rawTable rawFrames : Nat → BitVec 32) :
    BmLock (initial rawTable rawFrames) none := by
  refine ⟨rfl, fun t => ?_⟩
  have hout : ((initial rawTable rawFrames).thread t).inExec = false := by
    apply Thread.inExec_of_outside
    simp only [initial]
    split <;> rfl
  simp [hout]

/-- In every state that any interleaving reaches: process numbers are distinct and in range, the
bitmap marks exactly the numbers in use or reserved, a forked process is the thread of the PCB in
its slot, `bmsem` is 1 when no `ExecUpdate` is inside, and an `ExecUpdate` that returns -1 leaves
the bitmap and the slots alone with every one of its steps. -/
theorem pid_table {rawTable rawFrames : Nat → BitVec 32} {trace : List Event} {s : State}
    (h : Run step anyAct (initial rawTable rawFrames) trace s) :
    PidTable s ∧
      ∀ t pc filename events s₁,
        step s ⟨t, .call pc (.exec filename)⟩ = some (events, s₁) →
        (s₁.bm = s.bm ∧ s₁.pcb = s.pcb) ∧
          ∀ later m i ev m', Run step anyAct s₁ later m →
            (∀ res, .execReturns t res ∉ later) → step m ⟨t, i⟩ = some (ev, m') →
            FailsLater t ev m' → m'.bm = m.bm ∧ m'.pcb = m.pcb := by
  obtain ⟨hs, -, hreserved, holder, hlock⟩ : Wf s ∧ Queued s ∧ Reserved s ∧
      ∃ holder, BmLock s holder := by
    apply h.invariant
    · exact ⟨initial_wf _ _, initial_queued _ _, initial_reserved _ _, none, initial_bmLock _ _⟩
    · intro s₁ a events s₂ hinv _ hstep
      obtain ⟨hs, hq, hr, holder, hl⟩ := hinv
      exact ⟨hs.step hstep, hq.step hs hstep, hr.step hs hstep, hl.step hs hq hstep⟩
  refine ⟨?_, fun t pc filename events s₁ hcall => failed_exec_keeps_table hs hcall⟩
  obtain ⟨-, -, hroot, hrun, -⟩ := hs.root
  have hslot : ∀ t, Live s t → 0 ≤ (s.thread t).processID ∧ (s.thread t).processID ≤ 9 := by
    intro t ht
    obtain ⟨r, hr, -⟩ := hs.owns t (hs.born ht) ht
    obtain ⟨h0, h10, -⟩ := hs.slot _ r hr
    omega
  refine ⟨⟨hrun, hroot⟩, hslot, fun t u ht hu => hs.processID_inj ht hu,
    fun p hp => hreserved.bits hs hp, fun t ht hne => ?_, fun hout => ?_⟩
  · have hpid : (s.thread t).processID ≠ 0 := by
      intro h0
      exact hne (hs.processID_inj ht hrun (h0.trans hroot.symm))
    obtain ⟨r, hr⟩ := hs.runs (hs.born ht) ht hpid
    have := (hslot t ht).1
    exact ⟨by omega, r, hr.slot, hr.thread⟩
  · cases holder with
    | none => exact hlock.value
    | some t =>
      have := (hlock.inside t).mpr rfl
      rw [hout t] at this
      cases this

/-- With one child forked, an `ExecUpdate` of a file that does not exist returns -1. -/
theorem pid_table_missing_file :
    ∃ trace s e s₁ ev m, Run step anyAct (initial (fun _ => 0) fun _ => 0) trace s ∧
      (∃ r, s.pcb 1 = some r ∧ (s.heap r).thread = some 1) ∧
      step s ⟨0, .call 0 (.exec (some "missing"))⟩ = some (e, s₁) ∧
      step s₁ ⟨0, .opened false⟩ = some (ev, m) ∧ .execReturns 0 (-1) ∈ ev ∧
      m.bm = s₁.bm ∧ m.pcb = s₁.pcb := by
  obtain ⟨trace, s, h, hlive, hpid, hcall⟩ :=
    run_reaches step (initial (fun _ => 0) fun _ => 0)
      (fun _ s => (s.thread 1).control = .forked 1 ∧ (s.thread 1).processID = 1 ∧
        ((step s ⟨0, .call 0 (.exec (some "missing"))⟩).any fun r =>
          (step r.2 ⟨0, .opened false⟩).any fun r' => .execReturns 0 (-1) ∈ r'.1) = true)
      (startActs 0 Frames.smallHeader ++ execActs 0 "child") (by decide +kernel)
  obtain ⟨⟨e, s₁⟩, hstep, hnext⟩ := (Option.any_eq_true _ _).mp hcall
  obtain ⟨⟨ev, m⟩, hstep', hev⟩ := (Option.any_eq_true _ _).mp hnext
  have hminus : .execReturns 0 (-1) ∈ ev := of_decide_eq_true hev
  obtain ⟨htable, hfailed⟩ := pid_table h
  obtain ⟨-, hsteps⟩ := hfailed 0 0 (some "missing") e s₁ hstep
  obtain ⟨-, hthread⟩ := htable.thread 1 (by simp [Live, hlive]) (by simp)
  rw [hpid] at hthread
  exact ⟨trace, s, e, s₁, ev, m, h, hthread, hstep, hstep', hminus,
    hsteps [] s₁ _ ev m .refl (by simp) hstep' (.inl hminus)⟩

end Nachos.Process
