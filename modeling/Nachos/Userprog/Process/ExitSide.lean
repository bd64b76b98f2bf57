import Nachos.Userprog.Process.JoinSide

/-!
# The exiting side of the handshake

The steps of `ExitUpdate`: a process that is awaited stores its exit code, signals, and passes
`ExitWait` when it has been released; one that nobody has joined is removed at once.
-/

namespace Nachos.Process

open Transition Handshake State

section

variable {s s' : State} {t : Tid} {r : Ref} {g : Ref → Stage Tid} {σ : Stage Tid} {ec : Int}
  {q : Ref} {bm : BitMap}

/-- The process stores its exit code and signals the thread that waits for it. -/
theorem At.offer {p : Tid} (h : At s r (.awaited p)) (hthread : (s.heap r).thread = some t)
    (hw : (s.thread t).waiting = none) (hjoin : (s'.sem (.joinsem r)).value = 1)
    (hexit : s'.sem (.exitsem r) = s.sem (.exitsem r))
    (hcore : (s'.heap r).core = (s.heap r).core) (hcode : (s'.heap r).exitcode = ec)
    (hpcb : s'.pcb = s.pcb)
    (hself : (s'.thread t).control = .exitReleased ec ∧ (s'.thread t).waiting = none)
    (hwoken : (s'.thread p).blocked = false)
    (hother : ∀ u, u ≠ t → (s'.thread u).control = (s.thread u).control ∧
      (s'.thread u).waiting = (s.thread u).waiting) : At s' r (.offered p ec) := by
  have hpid := PCB.proj_of_core PCB.pid (fun _ => rfl) hcore
  have hthread' := PCB.proj_of_core PCB.thread (fun _ => rfl) hcore
  have hdead := PCB.proj_of_core PCB.destroyed (fun _ => rfl) hcore
  refine ⟨hjoin, by rw [hexit]; exact h.exitValue, by simp, by simp, by simp, ?_, ?_, ?_, ?_, ?_,
    ?_, by simp, ?_⟩
  · rintro q ec' (hx | hx) <;> cases hx
    exact hcode
  · rw [hdead, h.dead]
    simp
  · intro c hc
    rw [hthread', hthread] at hc
    cases hc
    exact .inl hself.1
  · intro hnone
    rw [hthread', hthread] at hnone
    cases hnone
  · intro u hwu
    have hu : u ≠ t := by
      rintro rfl
      rw [hself.2] at hwu
      cases hwu
    rw [(hother u hu).2] at hwu
    rcases h.waiter u hwu with ⟨hx, -⟩ | ⟨ec', hx, -⟩ | ⟨hx, -⟩ <;> cases hx
    exact .inr (.inl ⟨ec, rfl, hwoken⟩)
  · rintro q (hx | ⟨ec', hx⟩) <;> cases hx
    have hwait := h.awaiter p (.inl rfl)
    have hne : p ≠ t := by
      rintro rfl
      rw [hw] at hwait
      cases hwait
    rw [(hother p hne).2, hwait]
  · intro u hslot hcu hwu
    have hu : u ≠ t := by
      rintro rfl
      rw [hself.1] at hcu
      cases hcu
    obtain ⟨ec', hec⟩ := h.joiner_of_same hpcb hpid (hother u hu).1 (hother u hu).2 hslot hcu hwu
    cases hec

/-- The thread that waits for a process is at the head of the queue of its `joinsem`. -/
theorem At.head (h : At s r σ) (hs : Wf s) (hq : Queued s) {p : Tid} (hr : r < s.nextRef)
    (hσ : σ = .awaited p) : (s.sem (.joinsem r)).queue.head? = some p := by
  subst hσ
  have hwait := h.awaiter p (.inl rfl)
  have hblocked : (s.thread p).blocked = true := by
    rcases h.waiter p hwait with ⟨-, hb⟩ | ⟨ec, hx, -⟩ | ⟨hx, -⟩
    · exact hb
    · cases hx
    · cases hx
  have hmem : p ∈ (s.sem (.joinsem r)).queue := by
    obtain ⟨id, hid, hin | ⟨r', hpcb, -, hd⟩⟩ := hq.kept p hblocked
    · rw [hwait] at hid
      exact Option.some.inj hid ▸ hin
    · rw [hwait] at hid
      rw [← Option.some.inj hid] at hpcb
      rw [← Option.some.inj hpcb, (h.slot hs hr (by simp)).1] at hd
      cases hd
  cases hqueue : (s.sem (.joinsem r)).queue with
  | nil => rw [hqueue] at hmem; cases hmem
  | cons u rest =>
    have hu := (hq.sound (.joinsem r) u (by rw [hqueue]; exact List.mem_cons_self)).2
    rcases h.waiter u hu with ⟨hx, -⟩ | ⟨ec, hx, -⟩ | ⟨hx, -⟩ <;> cases hx
    rfl

/-- The exiting process takes part in no handshake about another PCB. -/
theorem SameFor.exiting (hs : Wf s) (hruns : s.Runs t r) {r' : Ref} (hr' : r' < s.nextRef)
    (hne : r' ≠ r) (hrun : (s.thread t).control ≠ .finished)
    (hpid : (s'.thread t).processID = (s.thread t).processID)
    (hw : (s.thread t).waiting ≠ some (.joinsem r'))
    (hw' : (s'.thread t).waiting ≠ some (.joinsem r'))
    (hj : ∀ p, (s.thread t).control ≠ .joined p)
    (hj' : ∀ p, (s'.thread t).control ≠ .joined p) : SameFor s s' r' t :=
  .apart (fun _ => hpid) hw hw' (fun _ hx => absurd hx (hj _)) (fun _ hx => absurd hx (hj' _))
    fun hthread => absurd (hs.thread_unique hruns hrun hr' hthread) hne

/-- `ExitUpdate` changes only counters in the PCBs of other processes. -/
theorem exitStored_face (s : State) {r r' : Ref} (q : Ref) (ec : Int) (hne : r' ≠ r) :
    PCB.face ((s.exitStored r q ec).heap r') = (s.heap r').face :=
  (modifyPcb_proj PCB.face _ q (f := PCB.decNumWait) (fun _ => rfl) r').trans
    (congrArg PCB.face (Function.update_of_ne hne _ _))

/-- `ExitUpdate` stores the exit code. -/
theorem exitStored_code (s : State) (r q : Ref) (ec : Int) :
    ((s.exitStored r q ec).heap r).exitcode = ec := by
  rw [State.exitStored, modifyPcb_proj PCB.exitcode _ q (f := PCB.decNumWait) fun _ => rfl]
  simp [State.modifyPcb, PCB.setExitCode]

/-- `ExitUpdate` of a process that is waited for, up to `JoinRelease`. -/
theorem advances_exitSignal (h : Agrees s g) (hs : Wf s) (hq : Queued s)
    (hw : (s.thread t).waiting = none) (hc : (s.thread t).control = .user) (hruns : s.Runs t r)
    (hjoin : (s.heap r).joinStatus ≠ -1) :
    Advances g [.instruction t, .setExitCode t r ec, .access q, .V t (.joinsem r)]
      ((((s.exitStored r q ec).modifyPcb r (·.decNumWait)).V t (.joinsem r)).2.goto t
        (.exitReleased ec)) := by
  have hr := hs.runs_lt hruns
  have hAt := h.stage r hr
  -- `JoinStatus` has been recorded, so a thread is inside `JoinWait`
  obtain ⟨p, hσ⟩ : ∃ p, g r = .awaited p := by
    rcases hAt.beforeExit hruns.thread (hc ▸ user_beforeExit) with hidle | hp
    · exact absurd (hAt.unjoined hidle) hjoin
    · exact hp
  have hhead := hAt.head hs hq hr hσ
  rw [hσ] at hAt
  generalize hs' : (((s.exitStored r q ec).modifyPcb r (·.decNumWait)).V t (.joinsem r)).2.goto t
    (.exitReleased ec) = s'
  have hface : ∀ r', r' ≠ r → (s'.heap r').face = (s.heap r').face := by
    intro r' hne
    subst hs'
    exact (modifyPcb_proj PCB.face _ r (f := PCB.decNumWait) (fun _ => rfl) r').trans
      (exitStored_face s q ec hne)
  have hcore : (s'.heap r).core = (s.heap r).core := by
    subst hs'
    exact (modifyPcb_proj PCB.core _ r (f := PCB.decNumWait) (fun _ => rfl) r).trans
      (exitStored_core s r q r ec)
  have hcode : (s'.heap r).exitcode = ec := by
    subst hs'
    exact (modifyPcb_proj PCB.exitcode _ r (f := PCB.decNumWait) (fun _ => rfl) r).trans
      (exitStored_code s r q ec)
  have hsem : ∀ id, s'.sem id = if id = .joinsem r then
      ⟨(s.sem (.joinsem r)).value + 1, (s.sem (.joinsem r)).queue.tail⟩ else s.sem id := by
    subst hs'
    exact V_sem ((s.exitStored r q ec).modifyPcb r (·.decNumWait)) t (.joinsem r)
  have hthread : ∀ u, u ≠ t → s'.thread u = if (s.sem (.joinsem r)).queue.head? = some u then
      { s.thread u with blocked := false } else s.thread u := by
    intro u hu
    subst hs'
    exact (Function.update_of_ne hu _ _).trans
      (V_thread ((s.exitStored r q ec).modifyPcb r (·.decNumWait)) t (.joinsem r) u)
  have hself : (s'.thread t).control = .exitReleased ec ∧ (s'.thread t).waiting = none ∧
      (s'.thread t).processID = (s.thread t).processID := by
    subst hs'
    rw [goto_control, goto_waiting, goto_processID, V_waiting,
      V_processID]
    exact ⟨if_pos rfl, hw, rfl⟩
  have hpcb : s'.pcb = s.pcb := by subst hs'; rfl
  have hnext : s'.nextRef = s.nextRef := by subst hs'; rfl
  have hpt : p ≠ t := by
    rintro rfl
    rw [hAt.awaiter p (.inl rfl)] at hw
    cases hw
  have hnew : At s' r (.offered p ec) := by
    refine hAt.offer hruns.thread hw ?_ ?_ hcore hcode hpcb ⟨hself.1, hself.2.1⟩ ?_ fun u hu => ?_
    · rw [hsem, if_pos rfl, hAt.joinValue]
      rfl
    · rw [hsem, if_neg (by simp)]
    · rw [hthread p hpt, if_pos hhead]
    · rw [hthread u hu]
      split <;> exact ⟨rfl, rfl⟩
  refine .move h hnext hr hnew ?_ ?_ ?_
  · intro r' hr' hne
    refine (h.stage r' hr').frame hs hr' ?_ ?_ (hface r' hne) (by rw [hpcb]; exact fun hp => hp)
      fun u => ?_
    · rw [hsem, if_neg (by simp [hne])]
    · rw [hsem, if_neg (by simp)]
    · rcases eq_or_ne u t with rfl | hu
      · exact .exiting hs hruns hr' hne (by simp [hc]) hself.2.2 (by simp [hw])
          (by simp [hself]) (by simp [hc]) (by simp [hself])
      · subst hs'
        have hid : SemId.joinsem r ≠ .joinsem r' := by simp [Ne.symm hne]
        exact .of_V hq hu hid
  · intro r' hne
    simp [signal, Ne.symm hne]
  · simp [signal, List.filterMap_cons, hσ, Stage.next]

/-- The process is removed before anybody has joined, or after it has been released. -/
theorem At.remove (h : At s r σ) (hσ : σ = .idle ∨ σ = .passed)
    (hthread : (s.heap r).thread = some t) (hw : (s.thread t).waiting = none) :
    At (s.removed t r bm) r .removed := by
  have hheap : (s.removed t r bm).heap r = { s.heap r with destroyed := true } := by
    rw [s.removed_heap, if_pos rfl]
  have hunits : Stage.joinUnits σ = 0 ∧ Stage.exitUnits σ = 0 := by
    rcases hσ with rfl | rfl <;> exact ⟨rfl, rfl⟩
  refine ⟨?_, ?_, by simp, by simp, by simp, by simp, ?_, ?_, ?_, ?_, by simp, by simp, ?_⟩
  · have hvalue := h.joinValue.trans hunits.1
    simpa [State.removed, State.destroyPcb, Semaphore.destroy, Stage.joinUnits] using hvalue
  · have hvalue := h.exitValue.trans hunits.2
    simpa [State.removed, State.destroyPcb, Semaphore.destroy, Stage.exitUnits] using hvalue
  · simp [hheap]
  · intro c hc
    rw [hheap] at hc
    obtain rfl := Option.some.inj (hthread.symm.trans hc)
    show ((s.removed t r bm).thread t).control = .finished
    rw [removed_thread_self]
  · intro hnone
    rw [hheap] at hnone
    exact absurd (hthread.symm.trans hnone) (by simp)
  · intro u hwu
    have hu : u ≠ t := by
      rintro rfl
      rw [removed_thread_self, hw] at hwu
      cases hwu
    rw [s.removed_thread t r bm hu] at hwu ⊢
    -- who waits now has come too late, and `~PCB` leaves it asleep
    have hasleep : (s.thread u).blocked = true := by
      rcases h.waiter u hwu with ⟨-, hb⟩ | ⟨ec, rfl, -⟩ | ⟨-, hb⟩
      · exact hb
      · rcases hσ with hx | hx <;> cases hx
      · exact hb
    exact .inr (.inr ⟨rfl, hasleep⟩)
  · intro u hslot hcu hwu
    have hu : u ≠ t := by
      rintro rfl
      rw [removed_thread_self] at hcu
      cases hcu
    have hsame := s.removed_thread t r bm hu
    have hpcb : (s.removed t r bm).pcb = s.pcb := rfl
    obtain ⟨ec, hec⟩ := h.joiner_of_same hpcb (by rw [hheap]) (by rw [hsame]) (by rw [hsame])
      hslot hcu hwu
    rcases hσ with rfl | rfl <;> cases hec

/-- A removal moves the handshake about its own PCB only. -/
theorem advances_removed {events : List Event} (h : Agrees s g) (hs : Wf s)
    (hw : (s.thread t).waiting = none) (hrun : (s.thread t).control ≠ .finished)
    (hnot : ∀ p, (s.thread t).control ≠ .joined p) (hruns : s.Runs t r)
    (hσ : g r = .idle ∨ g r = .passed) (hsig : ∀ r', r' ≠ r → ∀ e ∈ events, signal r' e = none)
    (hnext : Monitor.run Stage.next (g r) (events.filterMap (signal r)) = some .removed) :
    Advances g events (s.removed t r bm) := by
  have hr := hs.runs_lt hruns
  refine .move h rfl hr ((h.stage r hr).remove hσ hruns.thread hw) ?_ hsig hnext
  intro r' hr' hne
  refine (h.stage r' hr').frame hs hr' ?_ ?_ ?_ (fun hp => hp) fun u => ?_
  · simp [State.removed, State.destroyPcb, hne]
  · simp [State.removed, State.destroyPcb, hne]
  · rw [s.removed_heap, if_neg hne]
  · rcases eq_or_ne u t with rfl | hu
    · exact .exiting hs hruns hr' hne hrun (by rw [removed_thread_self]) (by simp [hw])
        (by simp [hw]) hnot (by simp)
    · exact .of_eq (s.removed_thread t r bm hu)

/-- Storing the exit code of a process that nobody has joined moves no handshake. -/
theorem agrees_exitStored (h : Agrees s g) (hs : Wf s) (hr : r < s.nextRef) (hσ : g r = .idle) :
    Agrees (s.exitStored r q ec) g := by
  have hproj : ∀ {α : Type} (π : PCB → α), (∀ p, π (PCB.setExitCode ec p) = π p) →
      (∀ p, π (PCB.decNumWait p) = π p) → π ((s.exitStored r q ec).heap r) = π (s.heap r) :=
    fun π hset hdec => s.exitStored_proj π r q hset hdec r
  refine ⟨fun r' hr' => ?_, h.fresh⟩
  rcases eq_or_ne r' r with rfl | hne
  · have hAt := h.stage r' hr
    have hpid := hproj PCB.pid (fun _ => rfl) (fun _ => rfl)
    rw [hσ] at hAt ⊢
    refine ⟨hAt.joinValue, hAt.exitValue, by simp, ?_, by simp, by simp, ?_, ?_, fun _ => .inl rfl,
      hAt.waiter, by simp, by simp, ?_⟩
    · rw [hproj PCB.joinStatus (fun _ => rfl) (fun _ => rfl)]
      exact hAt.unjoined
    · rw [hproj PCB.destroyed (fun _ => rfl) (fun _ => rfl)]
      exact hAt.dead
    · rw [hproj PCB.thread (fun _ => rfl) (fun _ => rfl)]
      exact hAt.owner
    · rw [hpid]
      exact hAt.joiner
  · exact (h.stage r' hr').frame hs hr' rfl rfl (exitStored_face s q ec hne) (fun hp => hp)
      fun u => .of_eq rfl

/-- `ExitUpdate` of a process that nobody has joined. -/
theorem advances_exitNow (h : Agrees s g) (hs : Wf s) (hw : (s.thread t).waiting = none)
    (hc : (s.thread t).control = .user) (hruns : s.Runs t r) (hjoin : (s.heap r).joinStatus = -1)
    (hs₁ : Wf (s.exitStored r q ec)) :
    Advances g [.instruction t, .setExitCode t r ec, .access q, .destroy r]
      ((s.exitStored r q ec).removed t r bm) := by
  have hr := hs.runs_lt hruns
  have hAt := h.stage r hr
  have hσ : g r = .idle := by
    rcases hAt.beforeExit hruns.thread (hc ▸ user_beforeExit) with hidle | ⟨p, hp⟩
    · exact hidle
    · exact absurd hjoin (hAt.joinedBy p hp)
  have hruns₁ : (s.exitStored r q ec).Runs t r :=
    ⟨hruns.slot,
      (s.exitStored_proj PCB.destroyed r q (fun _ => rfl) (fun _ => rfl) r).trans hruns.live,
      (s.exitStored_proj PCB.thread r q (fun _ => rfl) (fun _ => rfl) r).trans hruns.thread⟩
  have hc₁ : ((s.exitStored r q ec).thread t).control = .user := hc
  refine advances_removed (agrees_exitStored h hs hr hσ) hs₁ hw (by simp [hc₁]) (by simp [hc₁])
    hruns₁ (.inl hσ) ?_ ?_
  · intro r' hne
    simp [signal, Ne.symm hne]
  · simp [signal, List.filterMap_cons, hσ, Stage.next]

/-- `Remove` after `ExitWait`. -/
theorem advances_remove (h : Agrees s g) (hs : Wf s) (hw : (s.thread t).waiting = none)
    (hc : (s.thread t).control = .removing ec) (hruns : s.Runs t r) :
    Advances g [.destroy r] (s.removed t r bm) := by
  have hown := (h.stage r (hs.runs_lt hruns)).owner t hruns.thread
  have hσ : g r = .passed := by
    cases hg : g r <;> rw [hg] at hown <;>
      simp [OwnerAt, Exiting, BeforeExit, hc, hw] at hown ⊢
  refine advances_removed h hs hw (by simp [hc]) (by simp [hc]) hruns (.inr hσ) ?_ ?_
  · intro r' hne
    simp [signal, Ne.symm hne]
  · simp [signal, hσ, Stage.next]

/-- The process goes to sleep in `ExitWait`, or passes it. -/
theorem At.exitWait {σ' : Stage Tid} (h : At s r σ)
    (hσ : (σ' = σ ∧ σ ≠ .granted) ∨ (σ = .granted ∧ σ' = .passed))
    (hthread : (s.heap r).thread = some t)
    (hjoin : s'.sem (.joinsem r) = s.sem (.joinsem r))
    (hexit : (s'.sem (.exitsem r)).value = Stage.exitUnits σ')
    (hheap : s'.heap r = s.heap r) (hpcb : s'.pcb = s.pcb) (hown : OwnerAt s' r t σ')
    (hw : (s.thread t).waiting ≠ some (.joinsem r))
    (hw' : (s'.thread t).waiting ≠ some (.joinsem r))
    (hnot : ∀ p, (s.thread t).control ≠ .joined p)
    (hnot' : ∀ p, (s'.thread t).control ≠ .joined p)
    (hother : ∀ u, u ≠ t → s'.thread u = s.thread u) : At s' r σ' := by
  have howner : ∀ c, (s'.heap r).thread = some c → OwnerAt s' r c σ' := by
    intro c hc
    rw [hheap, hthread] at hc
    exact Option.some.inj hc ▸ hown
  have hforked : (s'.heap r).thread = none → False := by
    rw [hheap, hthread]
    simp
  have hwaiting : ∀ u, (s'.thread u).waiting = some (.joinsem r) →
      WaiterAt σ u (s'.thread u).blocked := by
    intro u hwu
    have hu : u ≠ t := by
      rintro rfl
      exact hw' hwu
    rw [hother u hu] at hwu ⊢
    exact h.waiter u hwu
  have hjoiner : ∀ u, s'.pcb (s'.heap r).pid = some r →
      (s'.thread u).control = .joined (s'.heap r).pid → (s'.thread u).waiting = none →
      ∃ ec, σ = .taken u ec := by
    intro u hslot hcu hwu
    have hu : u ≠ t := by
      rintro rfl
      exact hnot' _ hcu
    exact h.joiner_of_same hpcb (by rw [hheap]) (by rw [hother u hu]) (by rw [hother u hu]) hslot
      hcu hwu
  rcases hσ with ⟨rfl, hne⟩ | ⟨rfl, rfl⟩
  · refine ⟨by rw [hjoin]; exact h.joinValue, hexit, fun hg => absurd hg hne,
      by rw [hheap]; exact h.unjoined, by rw [hheap]; exact h.joinedBy,
      by rw [hheap]; exact h.code, by rw [hheap]; exact h.dead, howner,
      fun hnone => (hforked hnone).elim, hwaiting, ?_, ?_, hjoiner⟩
    · intro p hp
      have hwait := h.awaiter p hp
      have hpt : p ≠ t := by
        rintro rfl
        exact hw hwait
      rw [hother p hpt, hwait]
    · intro p ec hp
      have htaker := h.taker p ec hp
      have hpt : p ≠ t := by
        rintro rfl
        exact hnot _ htaker.1
      rw [hother p hpt, hheap]
      exact htaker
  · refine ⟨by rw [hjoin]; exact h.joinValue, hexit, by simp, by simp, by simp, by simp, ?_,
      howner, fun hnone => (hforked hnone).elim, ?_, by simp, by simp, ?_⟩
    · rw [hheap, h.dead]
      simp
    · intro u hwu
      rcases hwaiting u hwu with ⟨hx, -⟩ | ⟨ec, hx, -⟩ | ⟨-, hb⟩
      · cases hx
      · cases hx
      · exact .inr (.inr ⟨rfl, hb⟩)
    · intro u hslot hcu hwu
      obtain ⟨ec, hec⟩ := hjoiner u hslot hcu hwu
      cases hec

theorem Exiting.code_unique {ec' : Int} (h : Exiting s r t ec) (h' : Exiting s r t ec') :
    ec' = ec := by
  rcases h with h | ⟨h, -⟩ <;> rcases h' with h' | ⟨h', -⟩ <;> rw [h] at h' <;> cases h' <;> rfl

/-- A process in `ExitWait` is not released, or has been released with exit code 0. -/
theorem At.exiting (h : At s r σ) (hthread : (s.heap r).thread = some t) (hex : Exiting s r t ec) :
    (σ = .granted ∧ ec = 0) ∨
      (σ ≠ .granted ∧ Stage.exitUnits σ = 0 ∧
        ∀ s', Exiting s' r t ec → OwnerAt s' r t σ) := by
  have hown := h.owner t hthread
  have hbefore : ¬ BeforeExit (s.thread t).control := by
    rintro ⟨hreleased, hremoving, -⟩
    exact hex.elim (hreleased ec) fun hx => hremoving ec hx.1
  cases σ with
  | idle => exact absurd hown hbefore
  | awaited p => exact absurd hown hbefore
  | offered p ec' =>
    obtain rfl := hex.code_unique hown
    exact .inr ⟨by simp, rfl, fun _ hx => hx⟩
  | taken p ec' =>
    obtain rfl := hex.code_unique hown
    exact .inr ⟨by simp, rfl, fun _ hx => hx⟩
  | abandoned ec' =>
    obtain rfl := hex.code_unique hown
    exact .inr ⟨by simp, rfl, fun _ hx => hx⟩
  | granted => exact .inl ⟨rfl, Exiting.code_unique hown hex⟩
  | passed =>
    rcases hex with hx | ⟨-, hx⟩
    · rw [hown.1] at hx
      cases hx
    · rw [hown.2] at hx
      cases hx
  | removed =>
    have hfin : (s.thread t).control = .finished := hown
    rcases hex with hx | ⟨hx, -⟩ <;> rw [hfin] at hx <;> cases hx
  | stored ec' => exact hown.elim
  | answered p ec' => exact hown.elim
  | released p => exact hown.elim

/-- One pass through `ExitWait`: it succeeds exactly when the waiting thread has released the
process. -/
theorem advances_exitWait (h : Agrees s g) (hs : Wf s) (hruns : s.Runs t r)
    (hex : Exiting s r t ec) (hw : ∀ r', (s.thread t).waiting ≠ some (.joinsem r')) :
    Advances g (s.P t (.exitsem r) (.removing ec)).1 (s.P t (.exitsem r) (.removing ec)).2 := by
  have hr := hs.runs_lt hruns
  have hAt := h.stage r hr
  have hnot := hex.not_joined
  have hrun : (s.thread t).control ≠ .finished := by
    intro hp
    rcases hex with hx | ⟨hx, -⟩ <;> rw [hp] at hx <;> cases hx
  have hother : ∀ u, u ≠ t → (s.P t (.exitsem r) (.removing ec)).2.thread u = s.thread u :=
    fun u hu => (P_thread ..).trans (if_neg hu)
  have hframe : ∀ r', r' < s.nextRef → r' ≠ r →
      At (s.P t (.exitsem r) (.removing ec)).2 r' (g r') := by
    intro r' hr' hne
    refine (h.stage r' hr').frame hs hr' ?_ ?_ rfl (fun hp => hp) fun u => ?_
    · rw [P_sem, if_neg (by simp)]
    · rw [P_sem, if_neg (by simp [hne])]
    · rcases eq_or_ne u t with rfl | hu
      · refine .exiting hs hruns hr' hne hrun (P_processID ..) (hw r') ?_ hnot (by simp)
        rw [P_waiting, if_pos rfl]
        split <;> simp
      · exact .of_eq (hother u hu)
  have hjoin : (s.P t (.exitsem r) (.removing ec)).2.sem (.joinsem r) = s.sem (.joinsem r) := by
    rw [P_sem, if_neg (by simp)]
  rcases hAt.exiting hruns.thread hex with ⟨hg, rfl⟩ | ⟨hg, hunits, hown⟩
  -- `ExitRelease` has happened: its unit is taken
  · have hone : (s.sem (.exitsem r)).value = 1 := by rw [hAt.exitValue, hg]; rfl
    have hne : (s.sem (.exitsem r)).value ≠ 0 := by omega
    have hself : (s.P t (.exitsem r) (.removing 0)).2.thread t =
        { s.thread t with control := .removing 0, waiting := none, blocked := false } :=
      (P_thread ..).trans ((if_pos rfl).trans (if_neg hne))
    have hnew : At (s.P t (.exitsem r) (.removing 0)).2 r .passed := by
      refine hAt.exitWait (.inr ⟨hg, rfl⟩) hruns.thread hjoin ?_ rfl rfl ?_ (hw r) ?_ hnot ?_
        hother
      · rw [P_sem, if_pos rfl, if_neg hne]
        simp [hone, Stage.exitUnits]
      · show _ ∧ _
        rw [hself]
        exact ⟨rfl, rfl⟩
      · simp [hself]
      · simp
    rw [P_events, if_neg hne]
    refine .move h rfl hr hnew hframe ?_ ?_
    · intro r' hne'
      simp [signal, Ne.symm hne']
    · simp [signal, hg, Stage.next]
  -- it has not: the process goes to sleep and the stage stays
  · have hzero : (s.sem (.exitsem r)).value = 0 := by rw [hAt.exitValue, hunits]
    have hself : (s.P t (.exitsem r) (.removing ec)).2.thread t = { s.thread t with
        control := .removing ec, waiting := some (.exitsem r), blocked := true } :=
      (P_thread ..).trans ((if_pos rfl).trans (if_pos hzero))
    have hnew : At (s.P t (.exitsem r) (.removing ec)).2 r (g r) := by
      refine hAt.exitWait (.inl ⟨rfl, hg⟩) hruns.thread hjoin ?_ rfl rfl (hown _ ?_) (hw r) ?_
        hnot ?_ hother
      · rw [P_sem, if_pos rfl, if_pos hzero, hunits]
        exact hzero
      · exact .inr (by rw [hself]; exact ⟨rfl, rfl⟩)
      · simp [hself]
      · simp
    rw [P_events, if_pos hzero]
    refine .aside ⟨fun r' hr' => ?_, h.fresh⟩ ?_
    · rcases eq_or_ne r' r with rfl | hne
      · exact hnew
      · exact hframe r' hr' hne
    · intro r' e he
      obtain rfl := List.mem_singleton.mp he
      rfl

end

end Nachos.Process
