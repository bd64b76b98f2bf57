import Nachos.Userprog.Process.Handshake
import Nachos.Userprog.Process.Queue

/-!
# The kernel refines the handshake

`signal r` reads the signals of the handshake about PCB `r` off the kernel's events. `At s r σ`
relates the kernel state to a stage: what the two semaphores hold, where the process and the
waiting thread stand. Every step of the kernel either leaves a handshake alone or moves it by
the signals it emits, so in every run the signals about every PCB are in the order that
`Handshake.Stage.next` prescribes.
-/

namespace Nachos.Process

open Transition Handshake Function

/-- The signal of an event for the handshake about PCB `r`. -/
def signal (r : Ref) : Event → Option (Signal Tid)
  | .joinWait t r' => if r' = r then some (.arrive t) else none
  | .setExitCode _ r' ec => if r' = r then some (.store ec) else none
  | .P t (.joinsem r') => if r' = r then some (.take t) else none
  | .getExitCode t r' ec => if r' = r then some (.read t ec) else none
  | .V t (.exitsem r') => if r' = r then some (.release t) else none
  | .joinReturns t (some r') res => if r' = r then some (.answer t res) else none
  | .P _ (.exitsem r') => if r' = r then some .pass else none
  | .destroy r' => if r' = r then some .remove else none
  | _ => none

/-- The thread has not begun to exit. -/
def BeforeExit (c : Control) : Prop :=
  (∀ ec, c ≠ .exitReleased ec) ∧ (∀ ec, c ≠ .removing ec) ∧ c ≠ .finished

/-- Thread `c` of PCB `r` has stored `ec`, has signalled and has not passed `ExitWait`. -/
def Exiting (s : State) (r : Ref) (c : Tid) (ec : Int) : Prop :=
  (s.thread c).control = .exitReleased ec ∨
    ((s.thread c).control = .removing ec ∧ (s.thread c).waiting = some (.exitsem r))

/-- Where the thread of PCB `r` stands. -/
def OwnerAt (s : State) (r : Ref) (c : Tid) : Stage Tid → Prop
  | .idle | .awaited _ => BeforeExit (s.thread c).control
  | .offered _ ec | .taken _ ec | .abandoned ec => Exiting s r c ec
  | .granted => Exiting s r c 0
  | .passed => (s.thread c).control = .removing 0 ∧ (s.thread c).waiting = none
  | .removed => (s.thread c).control = .finished
  | .stored _ | .answered _ _ | .released _ => False

/-- What a thread inside `JoinWait` waits for. -/
def WaiterAt (σ : Stage Tid) (t : Tid) (asleep : Bool) : Prop :=
  (σ = .awaited t ∧ asleep = true) ∨ (∃ ec, σ = .offered t ec ∧ asleep = false) ∨
    (σ.late = true ∧ asleep = true)

/-- The units in `joinsem`. -/
def Stage.joinUnits : Stage Tid → Int
  | .offered _ _ => 1
  | _ => 0

/-- The units in `exitsem`. -/
def Stage.exitUnits : Stage Tid → Int
  | .granted => 1
  | _ => 0

/-- The kernel state agrees with stage `σ` of the handshake about PCB `r`. -/
structure At (s : State) (r : Ref) (σ : Stage Tid) : Prop where
  joinValue : (s.sem (.joinsem r)).value = Stage.joinUnits σ
  exitValue : (s.sem (.exitsem r)).value = Stage.exitUnits σ
  exitQueue : σ = .granted → (s.sem (.exitsem r)).queue = []
  unjoined : σ = .idle → (s.heap r).joinStatus = -1
  joinedBy : ∀ p, σ = .awaited p → (s.heap r).joinStatus ≠ -1
  code : ∀ p ec, σ = .offered p ec ∨ σ = .taken p ec → (s.heap r).exitcode = ec
  dead : (s.heap r).destroyed = true ↔ σ = .removed
  owner : ∀ c, (s.heap r).thread = some c → OwnerAt s r c σ
  unforked : (s.heap r).thread = none → σ = .idle ∨ ∃ p, σ = .awaited p
  waiter : ∀ t, (s.thread t).waiting = some (.joinsem r) → WaiterAt σ t (s.thread t).blocked
  awaiter : ∀ p, (σ = .awaited p ∨ ∃ ec, σ = .offered p ec) →
    (s.thread p).waiting = some (.joinsem r)
  taker : ∀ p ec, σ = .taken p ec → (s.thread p).control = .joined (s.heap r).pid ∧
    (s.thread p).waiting = none ∧ (s.thread p).processID = (s.heap r).parentID
  joiner : ∀ t, s.pcb (s.heap r).pid = some r → (s.thread t).control = .joined (s.heap r).pid →
    (s.thread t).waiting = none → ∃ ec, σ = .taken t ec

/-- The kernel state agrees with a stage for every PCB. -/
structure Agrees (s : State) (g : Ref → Stage Tid) : Prop where
  stage : ∀ r, r < s.nextRef → At s r (g r)
  fresh : ∀ r, s.nextRef ≤ r → g r = .idle

/-! ## Steps that do not take part -/

/-- Everything in a PCB but its counter. -/
def PCB.face (p : PCB) : PCB := { p with numwait := 0 }

theorem PCB.proj_of_face {α : Type*} (π : PCB → α) (hπ : ∀ p, π (PCB.face p) = π p) {p p' : PCB}
    (h : p'.face = p.face) : π p' = π p := by
  rw [← hπ, h, hπ]

/-- For the handshake about `r`, thread `u` is where it was. -/
structure SameFor (s s' : State) (r : Ref) (u : Tid) : Prop where
  processID : (s.thread u).control ≠ .finished →
    (s'.thread u).processID = (s.thread u).processID
  waiting : (s'.thread u).waiting = some (.joinsem r) ↔ (s.thread u).waiting = some (.joinsem r)
  blocked : (s.thread u).waiting = some (.joinsem r) →
    (s'.thread u).blocked = (s.thread u).blocked
  joined : s.pcb (s.heap r).pid = some r →
    (((s'.thread u).control = .joined (s.heap r).pid ∧ (s'.thread u).waiting = none) ↔
      ((s.thread u).control = .joined (s.heap r).pid ∧ (s.thread u).waiting = none))
  owner : (s.heap r).thread = some u →
    ((s'.thread u).control = (s.thread u).control ∧
      (s'.thread u).waiting = (s.thread u).waiting) ∨
    (BeforeExit (s.thread u).control ∧ BeforeExit (s'.thread u).control)

section

variable {s s' : State} {r : Ref} {σ : Stage Tid} {t u : Tid}

/-- A thread that did nothing. -/
theorem SameFor.of_eq (h : s'.thread u = s.thread u) : SameFor s s' r u := by
  refine ⟨?_, ?_, ?_, ?_, ?_⟩ <;> simp [h]

theorem OwnerAt.same (h : OwnerAt s r u σ)
    (hsame : ((s'.thread u).control = (s.thread u).control ∧
      (s'.thread u).waiting = (s.thread u).waiting) ∨
      (BeforeExit (s.thread u).control ∧ BeforeExit (s'.thread u).control)) :
    OwnerAt s' r u σ := by
  rcases hsame with ⟨hc, hw⟩ | ⟨hbefore, hafter⟩
  · cases σ with
    | stored ec => exact h.elim
    | answered p ec => exact h.elim
    | released p => exact h.elim
    | _ => simpa only [OwnerAt, Exiting, hc, hw] using h
  · obtain ⟨hreleased, hremoving, hfinished⟩ := hbefore
    cases σ with
    | idle => exact hafter
    | awaited p => exact hafter
    | offered p ec => exact (h.elim (hreleased ec) fun h => hremoving ec h.1).elim
    | taken p ec => exact (h.elim (hreleased ec) fun h => hremoving ec h.1).elim
    | abandoned ec => exact (h.elim (hreleased ec) fun h => hremoving ec h.1).elim
    | granted => exact (h.elim (hreleased 0) fun h => hremoving 0 h.1).elim
    | passed => exact (hremoving 0 h.1).elim
    | removed => exact (hfinished h).elim
    | stored ec => exact h.elim
    | answered p ec => exact h.elim
    | released p => exact h.elim

/-- The handshake about `r` stays where it is when its semaphores, its PCB and its threads do. -/
theorem At.frame (h : At s r σ) (hs : Wf s) (hr : r < s.nextRef)
    (hjoin : s'.sem (.joinsem r) = s.sem (.joinsem r))
    (hexit : s'.sem (.exitsem r) = s.sem (.exitsem r))
    (hface : (s'.heap r).face = (s.heap r).face)
    (hpcb : s'.pcb (s.heap r).pid = some r → s.pcb (s.heap r).pid = some r)
    (hsame : ∀ u, SameFor s s' r u) : At s' r σ := by
  have hpid := PCB.proj_of_face PCB.pid (fun _ => rfl) hface
  have hthread := PCB.proj_of_face PCB.thread (fun _ => rfl) hface
  have hstatus := PCB.proj_of_face PCB.joinStatus (fun _ => rfl) hface
  have hcode := PCB.proj_of_face PCB.exitcode (fun _ => rfl) hface
  have hparent := PCB.proj_of_face PCB.parentID (fun _ => rfl) hface
  have hdead := PCB.proj_of_face PCB.destroyed (fun _ => rfl) hface
  refine ⟨by rw [hjoin, h.joinValue], by rw [hexit, h.exitValue], fun hg => by
    rw [hexit, h.exitQueue hg], fun hi => by rw [hstatus, h.unjoined hi], fun p hp => by
    rw [hstatus]; exact h.joinedBy p hp, fun p ec hp => by rw [hcode, h.code p ec hp],
    by rw [hdead, h.dead], fun c hc => ?_, fun hnone => h.unforked (hthread ▸ hnone),
    fun t ht => ?_, fun p hp => ?_, fun p ec hp => ?_, fun t hslot hc hw => ?_⟩
  · rw [hthread] at hc
    exact (h.owner c hc).same ((hsame c).owner hc)
  · have hold := (hsame t).waiting.mp ht
    rw [(hsame t).blocked hold]
    exact h.waiter t hold
  · exact (hsame p).waiting.mpr (h.awaiter p hp)
  · obtain ⟨hc, hw, hp'⟩ := h.taker p ec hp
    -- a PCB in this stage is not destroyed, so it is the one in its slot
    have hlive : (s.heap r).destroyed = false := by
      cases hd : (s.heap r).destroyed with
      | false => rfl
      | true => exact absurd (h.dead.mp hd) (by simp [hp])
    have hjoined := ((hsame p).joined (hs.alive r hr hlive)).mpr ⟨hc, hw⟩
    rw [hpid, hparent, (hsame p).processID (by simp [hc])]
    exact ⟨hjoined.1, hjoined.2, hp'⟩
  · rw [hpid] at hslot hc
    obtain ⟨hc', hw'⟩ := ((hsame t).joined (hpcb hslot)).mp ⟨hc, hw⟩
    exact h.joiner t (hpcb hslot) hc' hw'

/-- A thread that stands where it stood has returned from `JoinWait` only if it had before. -/
theorem At.joiner_of_same (h : At s r σ) (hpcb : s'.pcb = s.pcb)
    (hpid : (s'.heap r).pid = (s.heap r).pid)
    (hcontrol : (s'.thread u).control = (s.thread u).control)
    (hwaiting : (s'.thread u).waiting = (s.thread u).waiting)
    (hslot : s'.pcb (s'.heap r).pid = some r)
    (hc : (s'.thread u).control = .joined (s'.heap r).pid) (hw : (s'.thread u).waiting = none) :
    ∃ ec, σ = .taken u ec := by
  rw [hpid] at hslot hc
  rw [hpcb] at hslot
  exact h.joiner u hslot (hcontrol.symm.trans hc) (hwaiting.symm.trans hw)

/-- A thread that exits has not joined. -/
theorem Exiting.not_joined {ec : Int} (h : Exiting s r u ec) (p : Int) :
    (s.thread u).control ≠ .joined p := by
  rcases h with hc | ⟨hc, -⟩ <;> simp [hc]

theorem Exiting.of_same {ec : Int} (h : Exiting s r u ec)
    (hcontrol : (s'.thread u).control = (s.thread u).control)
    (hwaiting : (s'.thread u).waiting = (s.thread u).waiting) : Exiting s' r u ec := by
  unfold Exiting
  rw [hcontrol, hwaiting]
  exact h

/-- A thread that neither waits for `r` nor has taken its offer, before and after. -/
theorem SameFor.apart (hpid : (s.thread t).control ≠ .finished →
      (s'.thread t).processID = (s.thread t).processID)
    (hw : (s.thread t).waiting ≠ some (.joinsem r))
    (hw' : (s'.thread t).waiting ≠ some (.joinsem r))
    (hj : s.pcb (s.heap r).pid = some r → (s.thread t).control = .joined (s.heap r).pid →
      (s.thread t).waiting ≠ none)
    (hj' : s.pcb (s.heap r).pid = some r → (s'.thread t).control = .joined (s.heap r).pid →
      (s'.thread t).waiting ≠ none)
    (howner : (s.heap r).thread = some t →
      BeforeExit (s.thread t).control ∧ BeforeExit (s'.thread t).control) : SameFor s s' r t where
  processID := hpid
  waiting := ⟨fun h => absurd h hw', fun h => absurd h hw⟩
  blocked h := absurd h hw
  joined hp := ⟨fun h => absurd h.2 (hj' hp h.1), fun h => absurd h.2 (hj hp h.1)⟩
  owner ht := .inr (howner ht)

/-- Points of the code that no handshake depends on. -/
def Plain (c : Control) : Prop := BeforeExit c ∧ ∀ p, c ≠ .joined p

/-- A thread that moves between plain points takes no part. -/
theorem SameFor.plain (hpid : (s'.thread t).processID = (s.thread t).processID)
    (hw : (s.thread t).waiting ≠ some (.joinsem r))
    (hw' : (s'.thread t).waiting ≠ some (.joinsem r)) (hc : Plain (s.thread t).control)
    (hc' : Plain (s'.thread t).control) : SameFor s s' r t :=
  .apart (fun _ => hpid) hw hw' (fun _ h => absurd h (hc.2 _)) (fun _ h => absurd h (hc'.2 _))
    fun _ => ⟨hc.1, hc'.1⟩

/-- A thread other than the one that calls `V` on another semaphore. -/
theorem SameFor.of_V {heap : Ref → PCB} {frames : BitMap} {id : SemId} {c : Control}
    (hq : Queued s) (hu : u ≠ t) (hid : id ≠ .joinsem r) :
    SameFor s (((s.patch heap frames).V t id).2.goto t c) r u := by
  have hthread : (((s.patch heap frames).V t id).2.goto t c).thread u =
      if (s.sem id).queue.head? = some u then { s.thread u with blocked := false }
      else s.thread u := by
    rw [State.goto_thread, if_neg hu]
    exact State.V_thread (s.patch heap frames) t id u
  by_cases hhead : (s.sem id).queue.head? = some u
  · rw [if_pos hhead] at hthread
    have hwait := (hq.sound id u (List.mem_of_mem_head? hhead)).2
    refine ⟨fun _ => by rw [hthread], by rw [hthread], fun hw => ?_, fun _ => by rw [hthread],
      fun _ => .inl (by rw [hthread]; exact ⟨rfl, rfl⟩)⟩
    exact absurd (Option.some.inj (hwait.symm.trans hw)) hid
  · rw [if_neg hhead] at hthread
    exact .of_eq hthread

end

/-! ## Steps outside every handshake -/

section

variable {s s' : State} {t : Tid} {g : Ref → Stage Tid} {events : List Event}

/-- A step moves every handshake by the signals it emits. -/
def Advances (g : Ref → Stage Tid) (events : List Event) (s' : State) : Prop :=
  ∃ g', Agrees s' g' ∧
    ∀ r, Monitor.run Stage.next (g r) (events.filterMap (signal r)) = some (g' r)

/-- Events that are no signals. -/
theorem Advances.aside (h : Agrees s' g) (hsig : ∀ r, ∀ e ∈ events, signal r e = none) :
    Advances g events s' := by
  refine ⟨g, h, fun r => ?_⟩
  rw [List.filterMap_eq_nil_iff.mpr (hsig r), Monitor.run_nil]

/-- A step that moves the handshake about one PCB only. -/
theorem Advances.move {r₀ : Ref} {σ : Stage Tid} (h : Agrees s g)
    (hnext : s'.nextRef = s.nextRef) (hr₀ : r₀ < s.nextRef) (hAt : At s' r₀ σ)
    (hother : ∀ r, r < s.nextRef → r ≠ r₀ → At s' r (g r))
    (hsig : ∀ r, r ≠ r₀ → ∀ e ∈ events, signal r e = none)
    (hrun : Monitor.run Stage.next (g r₀) (events.filterMap (signal r₀)) = some σ) :
    Advances g events s' := by
  refine ⟨update g r₀ σ, ⟨fun r hr => ?_, fun r hr => ?_⟩, fun r => ?_⟩
  · rcases eq_or_ne r r₀ with rfl | hne
    · rwa [update_self]
    · rw [update_of_ne hne]
      exact hother r (hnext ▸ hr) hne
  · rw [hnext] at hr
    rw [update_of_ne (Nat.ne_of_gt (Nat.lt_of_lt_of_le hr₀ hr))]
    exact h.fresh r hr
  · rcases eq_or_ne r r₀ with rfl | hne
    · rwa [update_self]
    · rw [update_of_ne hne, List.filterMap_eq_nil_iff.mpr (hsig r hne),
        Monitor.run_nil]

/-- The semaphores that are no part of a handshake. -/
def Foreign (id : SemId) : Prop := ∀ r, id ≠ .joinsem r ∧ id ≠ .exitsem r

/-- Another semaphore is taken. -/
theorem agrees_P {id : SemId} {c : Control} (h : Agrees s g) (hs : Wf s) (hid : Foreign id)
    (hw : ∀ r, (s.thread t).waiting ≠ some (.joinsem r)) (hc : Plain (s.thread t).control)
    (hc' : Plain c) : Agrees (s.P t id c).2 g := by
  refine ⟨fun r hr => ?_, h.fresh⟩
  refine (h.stage r hr).frame hs hr ?_ ?_ rfl (fun hp => hp) fun u => ?_
  · rw [State.P_sem, if_neg (hid r).1.symm]
  · rw [State.P_sem, if_neg (hid r).2.symm]
  · rcases eq_or_ne u t with rfl | hu
    · refine .plain (State.P_processID ..) (hw r) ?_ hc (by simpa using hc')
      rw [State.P_waiting, if_pos rfl]
      split
      · exact fun heq => (hid r).1 (Option.some.inj heq)
      · simp
    · exact .of_eq (by rw [State.P_thread, if_neg hu])

/-- Another semaphore is given. -/
theorem agrees_V {id : SemId} {c : Control} {frames : BitMap} (h : Agrees s g) (hs : Wf s)
    (hq : Queued s) (hid : Foreign id) (hw : (s.thread t).waiting = none)
    (hc : Plain (s.thread t).control) (hc' : Plain c) :
    Agrees (((s.patch s.heap frames).V t id).2.goto t c) g := by
  refine ⟨fun r hr => ?_, h.fresh⟩
  refine (h.stage r hr).frame hs hr ?_ ?_ rfl (fun hp => hp) fun u => ?_
  · exact (State.V_sem (s.patch s.heap frames) t id _).trans (if_neg (hid r).1.symm)
  · exact (State.V_sem (s.patch s.heap frames) t id _).trans (if_neg (hid r).2.symm)
  · rcases eq_or_ne u t with rfl | hu
    · exact .plain (by simp) (by simp [hw]) (by simp [hw]) hc (by simpa using hc')
    · exact .of_V hq hu (hid r).1

end

end Nachos.Process
