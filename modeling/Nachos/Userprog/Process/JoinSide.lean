import Nachos.Userprog.Process.Refinement

/-!
# The joining side of the handshake

The steps of `ExecUpdate` and `JoinUpdate`: what each does to the stage of the PCB it is about,
and that it leaves the handshakes about all other PCBs alone. A new PCB starts in stage `idle`;
`JoinWait` makes it awaited, and the thread that returns from it takes the offer, reads the exit
code and answers.
-/

namespace Nachos.Process

open Transition Handshake Function State

section

variable {s s' : State} {t : Tid} {r : Ref} {g : Ref → Stage Tid} {σ : Stage Tid} {pID : Int}
  {name : String} {σ' : Stage Tid} {ec : Int}

/-- A process that has not begun to exit is idle or awaited. -/
theorem At.beforeExit (h : At s r σ) (hthread : (s.heap r).thread = some t)
    (hc : BeforeExit (s.thread t).control) : σ = .idle ∨ ∃ p, σ = .awaited p := by
  obtain ⟨hreleased, hremoving, hfinished⟩ := hc
  have hown := h.owner t hthread
  cases σ with
  | idle => exact .inl rfl
  | awaited p => exact .inr ⟨p, rfl⟩
  | offered p ec => exact (hown.elim (hreleased ec) fun h => hremoving ec h.1).elim
  | taken p ec => exact (hown.elim (hreleased ec) fun h => hremoving ec h.1).elim
  | abandoned ec => exact (hown.elim (hreleased ec) fun h => hremoving ec h.1).elim
  | granted => exact (hown.elim (hreleased 0) fun h => hremoving 0 h.1).elim
  | passed => exact (hremoving 0 hown.1).elim
  | removed => exact (hfinished hown).elim
  | stored ec => exact hown.elim
  | answered p ec => exact hown.elim
  | released p => exact hown.elim

theorem user_beforeExit : BeforeExit .user := by simp [BeforeExit]

/-- A new PCB starts in stage `idle`. -/
theorem agrees_reserve {i : Nat} {filename : Option String} (h : Agrees s g) (hs : Wf s)
    (hq : Queued s) (hw : (s.thread t).waiting = none)
    (hc : (s.thread t).control = .execChecks filename) (hfree : s.bm.bit i = false) :
    Agrees (s.reserve t i name) g := by
  refine ⟨fun r hr => ?_, fun r hr => h.fresh r (Nat.le_of_succ_le hr)⟩
  rcases Nat.lt_succ_iff_lt_or_eq.mp hr with hlt | rfl
  · have hne := Nat.ne_of_lt hlt
    refine (h.stage r hlt).frame hs hlt ?_ ?_ ?_ ?_ fun u => ?_
    · simp [State.reserve, hne]
    · simp [State.reserve, hne]
    · rw [reserve_heap s t i name hne]
    · intro hp
      rw [reserve_pcb] at hp
      split at hp
      · exact absurd (Option.some.inj hp).symm hne
      · exact hp
    · rcases eq_or_ne u t with rfl | hu
      · exact .plain (by simp) (by simp [hw]) (by simp [State.reserve])
          (by simp [hc, Plain, BeforeExit]) (by simp [Plain, BeforeExit])
      · exact .of_eq (reserve_thread s t i name hu)
  · rw [h.fresh _ le_rfl]
    have hnew := reserve_heap_new s t i name
    refine ⟨?_, ?_, ?_, ?_, ?_, ?_, ?_, ?_, ?_, ?_, ?_, ?_, ?_⟩
    · simp [State.reserve, Semaphore.new, Stage.joinUnits]
    · simp [State.reserve, Semaphore.new, Stage.exitUnits]
    · simp
    · simp [hnew, PCB.new]
    · simp
    · simp
    · simp [hnew, PCB.new]
    · simp [hnew, PCB.new]
    · simp
    · intro u hu
      have hne : u ≠ t := by
        rintro rfl
        simp [State.reserve] at hu
      rw [reserve_thread s t i name hne] at hu
      -- nobody waits for a semaphore that has not been built
      exact absurd (hq.wait u _ hu).1 (Nat.lt_irrefl _)
    · simp
    · simp
    · intro u hslot hcu hwu
      have hne : u ≠ t := by
        rintro rfl
        simp at hcu
      rw [reserve_thread s t i name hne] at hcu hwu
      have hpid : ((s.reserve t i name).heap s.nextRef).pid = i := by rw [hnew]; rfl
      rw [hpid] at hcu
      -- the slot was free, so the PCB it still points to has been removed
      obtain ⟨r', hr'⟩ := Option.isSome_iff_exists.mp
        (by simpa [hcu, ControlOk] using hs.control u : (s.pcb i).isSome)
      obtain ⟨-, -, hlt, hpid', hd⟩ := hs.slot _ _ hr'
      have hAt := h.stage r' hlt
      obtain ⟨ec, hec⟩ := hAt.joiner u (by rw [hpid', hr']) (by rw [hpid', hcu]) hwu
      have hdead : (s.heap r').destroyed = true := by simpa [hfree] using hd
      rw [hAt.dead.mp hdead] at hec
      cases hec

/-- A forked thread has not begun to exit. -/
theorem agrees_fork (h : Agrees s g) (hs : Wf s) (ht : t < s.nextTid)
    (hw : (s.thread t).waiting = none) (hc : (s.thread t).control = .execFork r name pID) :
    Agrees (s.execFork t r name pID).2 g := by
  obtain ⟨hr₀, -, hlive, hnone, -, hparent, -⟩ : ControlOk s t (.execFork r name pID) :=
    hc ▸ hs.control t
  have hheap := fun r' => execFork_heap s t name r r' pID hparent
  have hcaller := execFork_caller s t name r pID (Nat.ne_of_lt ht)
  have hchild : (s.thread s.nextTid).waiting = none := by
    simpa [hs.unborn _ le_rfl, ControlOk] using hs.control s.nextTid
  have hsame : ∀ r' u, r' < s.nextRef → SameFor s (s.execFork t r name pID).2 r' u := by
    intro r' u hr'
    rcases eq_or_ne u s.nextTid with rfl | hnew
    · have hfin := hs.unborn s.nextTid le_rfl
      refine .apart (fun hrun => absurd hfin hrun) (by simp [hchild]) (by simp)
        (fun _ hj => absurd (hfin.symm.trans hj) (by simp)) (by simp) fun hthread => ?_
      exact absurd (hs.owner r' _ hr' hthread).2.2.1 (Nat.lt_irrefl _)
    · rcases eq_or_ne u t with rfl | hut
      · refine .plain (by rw [hcaller]) (by simp [hw]) (by simp [hcaller, hw]) ?_ ?_
        · simp [hc, Plain, BeforeExit]
        · simp [hcaller, Plain, BeforeExit]
      · exact .of_eq (execFork_thread s t name r pID hnew hut)
  refine ⟨fun r' hr' => ?_, h.fresh⟩
  rcases eq_or_ne r' r with rfl | hne
  · have hAt := h.stage r' hr'
    have hself : (s.execFork t r' name pID).2.heap r' =
        { s.heap r' with thread := some s.nextTid } := by rw [hheap, if_pos rfl]
    -- all but the owner is as it was before the PCB had a thread
    have hframe : At (({ (s.execFork t r' name pID).2 with heap := s.heap } : State)) r' (g r') :=
      hAt.frame hs hr' rfl rfl rfl (fun hp => hp) fun u =>
        have hu := hsame r' u hr'
        ⟨hu.processID, hu.waiting, hu.blocked, hu.joined, hu.owner⟩
    refine ⟨hframe.joinValue, hframe.exitValue, hframe.exitQueue, ?_, ?_, ?_, ?_, ?_, ?_,
      hframe.waiter, hframe.awaiter, ?_, ?_⟩
    · rw [hself]; exact hframe.unjoined
    · rw [hself]; exact hframe.joinedBy
    · rw [hself]; exact hframe.code
    · rw [hself]; exact hframe.dead
    · intro c hthread
      rw [hself] at hthread
      cases hthread
      rcases hAt.unforked hnone with hσ | ⟨p, hσ⟩ <;> rw [hσ] <;>
        simp [OwnerAt, BeforeExit]
    · rw [hself]
      simp
    · rw [hself]; exact hframe.taker
    · rw [hself]; exact hframe.joiner
  · refine (h.stage r' hr').frame hs hr' rfl rfl ?_ (fun hp => hp) fun u => hsame r' u hr'
    rw [hheap, if_neg hne]

/-- Between steps no handshake is in one of the stages inside a step. -/
theorem At.main (h : At s r σ) : (∀ ec, σ ≠ .stored ec) ∧ (∀ p ec, σ ≠ .answered p ec) ∧
    ∀ p, σ ≠ .released p := by
  cases hthread : (s.heap r).thread with
  | none => rcases h.unforked hthread with rfl | ⟨p, rfl⟩ <;> simp
  | some c =>
    have hown := h.owner c hthread
    exact ⟨fun ec heq => by rw [heq] at hown; exact hown,
      fun p ec heq => by rw [heq] at hown; exact hown,
      fun p heq => by rw [heq] at hown; exact hown⟩

/-- When the parent of a process calls `Join`, the handshake has not begun or is over. -/
theorem At.idle_or_late (h : At s r σ) (hs : Wf s) (hq : Queued s)
    (hw : (s.thread t).waiting = none) (hc : (s.thread t).control = .user)
    (hparent : (s.thread t).processID = (s.heap r).parentID) : σ = .idle ∨ σ.late = true := by
  have hrun : (s.thread t).control ≠ .finished := by simp [hc]
  -- a thread inside `JoinWait` has the number of the caller, so it would be the caller itself
  have hnot : ∀ p, (s.thread p).waiting ≠ some (.joinsem r) := by
    intro p hwait
    obtain ⟨-, hcp, hpid⟩ := hq.wait p _ hwait
    have heq := hs.processID_inj (by simp [hcp]) hrun (hpid.trans hparent.symm)
    rw [heq, hw] at hwait
    cases hwait
  cases σ with
  | idle => exact .inl rfl
  | awaited p => exact absurd (h.awaiter p (.inl rfl)) (hnot p)
  | offered p ec => exact absurd (h.awaiter p (.inr ⟨ec, rfl⟩)) (hnot p)
  | taken p ec =>
    obtain ⟨hcp, -, hpid⟩ := h.taker p ec rfl
    have heq := hs.processID_inj (by simp [hcp]) hrun (hpid.trans hparent.symm)
    rw [heq, hc] at hcp
    cases hcp
  | stored ec => exact absurd rfl (h.main.1 ec)
  | answered p ec => exact absurd rfl (h.main.2.1 p ec)
  | released p => exact absurd rfl (h.main.2.2 p)
  | granted => exact .inr rfl
  | abandoned ec => exact .inr rfl
  | passed => exact .inr rfl
  | removed => exact .inr rfl

/-- The stage after `JoinWait` by `t`. -/
theorem next_arrive {σ : Stage Tid} (h : σ = .idle ∨ σ.late = true) (t : Tid) :
    ∃ σ', σ.next (.arrive t) = some σ' ∧
      ((σ = .idle ∧ σ' = .awaited t) ∨ (σ.late = true ∧ σ' = σ)) := by
  rcases h with rfl | hlate
  · exact ⟨_, rfl, .inl ⟨rfl, rfl⟩⟩
  · refine ⟨σ, ?_, .inr ⟨hlate, rfl⟩⟩
    cases σ <;> first | rfl | cases hlate

/-- `JoinWait`: the first one before the process exits makes the handshake awaited; one that
comes after the handshake waits for ever. -/
theorem At.arrive (h : At s r σ) (hσ : (σ = .idle ∧ σ' = .awaited t) ∨ (σ.late = true ∧ σ' = σ))
    (hc : (s.thread t).control = .user) (hparent : (s.heap r).parentID ≠ -1)
    (hjoin : (s'.sem (.joinsem r)).value = (s.sem (.joinsem r)).value)
    (hexit : s'.sem (.exitsem r) = s.sem (.exitsem r))
    (hheap : s'.heap r = (s.heap r).recordJoin.incNumWait) (hpcb : s'.pcb = s.pcb)
    (hself : (s'.thread t).control = .joined (s.heap r).pid ∧
      (s'.thread t).waiting = some (.joinsem r) ∧ (s'.thread t).blocked = true)
    (hother : ∀ u, u ≠ t → s'.thread u = s.thread u) : At s' r σ' := by
  have hown : ∀ c, (s.heap r).thread = some c → OwnerAt s' r c σ := by
    intro c hthread
    refine (h.owner c hthread).same ?_
    rcases eq_or_ne c t with rfl | hne
    · exact .inr (by simp [hc, hself.1, BeforeExit])
    · exact .inl (by simp [hother c hne])
  have hwaiter : ∀ u, u ≠ t → (s'.thread u).waiting = some (.joinsem r) →
      WaiterAt σ u (s'.thread u).blocked := by
    intro u hu hw
    rw [hother u hu] at hw ⊢
    exact h.waiter u hw
  have hjoiner : ∀ u, s'.pcb (s'.heap r).pid = some r →
      (s'.thread u).control = .joined (s'.heap r).pid → (s'.thread u).waiting = none →
      ∃ ec, σ = .taken u ec := by
    intro u hslot hcu hwu
    have hu : u ≠ t := by
      rintro rfl
      rw [hself.2.1] at hwu
      cases hwu
    exact h.joiner_of_same hpcb (by rw [hheap]; rfl) (by rw [hother u hu])
      (by rw [hother u hu]) hslot hcu hwu
  rcases hσ with ⟨rfl, rfl⟩ | ⟨hlate, rfl⟩
  -- the first join: the caller is the one who is awaited
  · refine ⟨hjoin.trans h.joinValue, by rw [hexit]; exact h.exitValue, by simp, by simp, ?_,
      by simp, ?_, ?_, ?_, ?_, ?_, by simp, ?_⟩
    · intro p _
      rw [hheap]
      exact hparent
    · rw [hheap]
      simpa [PCB.incNumWait, PCB.recordJoin] using h.dead
    · intro c hthread
      rw [hheap] at hthread
      exact hown c hthread
    · exact fun _ => .inr ⟨t, rfl⟩
    · intro u hw
      rcases eq_or_ne u t with rfl | hu
      · exact .inl ⟨rfl, hself.2.2⟩
      · rcases hwaiter u hu hw with ⟨h', -⟩ | ⟨ec, h', -⟩ | ⟨h', -⟩ <;> cases h'
    · rintro p (hp | ⟨ec, hp⟩) <;> cases hp
      exact hself.2.1
    · intro u hslot hcu hwu
      obtain ⟨ec, hec⟩ := hjoiner u hslot hcu hwu
      cases hec
  -- a late join: the stage stays and the caller sleeps on a semaphore without units
  · refine ⟨hjoin.trans h.joinValue, by rw [hexit]; exact h.exitValue,
      fun hg => by rw [hexit]; exact h.exitQueue hg, ?_, ?_, ?_, ?_, ?_, ?_, ?_, ?_, ?_, hjoiner⟩
    · rintro rfl
      cases hlate
    · rintro p rfl
      cases hlate
    · rintro p ec (rfl | rfl) <;> cases hlate
    · rw [hheap]
      exact h.dead
    · intro c hthread
      rw [hheap] at hthread
      exact hown c hthread
    · intro hnone
      rw [hheap] at hnone
      exact h.unforked hnone
    · intro u hw
      rcases eq_or_ne u t with rfl | hu
      · exact .inr (.inr ⟨hlate, hself.2.2⟩)
      · exact hwaiter u hu hw
    · rintro p (rfl | ⟨ec, rfl⟩) <;> cases hlate
    · rintro p ec rfl
      cases hlate

/-- `JoinWait` moves the handshake about the joined process. -/
theorem advances_joinWait (h : Agrees s g) (hs : Wf s) (hq : Queued s) (ht : t < s.nextTid)
    (hw : (s.thread t).waiting = none) (hc : (s.thread t).control = .user)
    (hp : s.pcb pID = some r) (hparent : (s.thread t).processID = (s.heap r).parentID) :
    Advances g (.instruction t :: .access r :: .joinWait t r ::
        ((s.modifyPcb r (·.recordJoin.incNumWait)).P t (.joinsem r) (.joined pID)).1)
      ((s.modifyPcb r (·.recordJoin.incNumWait)).P t (.joinsem r) (.joined pID)).2 := by
  obtain ⟨-, -, hr, hpid, -⟩ := hs.slot pID r hp
  have hAt := h.stage r hr
  have hstage := hAt.idle_or_late hs hq hw hc hparent
  obtain ⟨σ', hnext, hσ⟩ := next_arrive hstage t
  have hzero : (s.sem (.joinsem r)).value = 0 := by
    rw [hAt.joinValue]
    rcases hstage with hidle | hlate
    · rw [hidle]; rfl
    · cases hg : g r <;> first | rfl | (rw [hg] at hlate; cases hlate)
  have hself : ((s.modifyPcb r (·.recordJoin.incNumWait)).P t (.joinsem r)
      (.joined pID)).2.thread t = { s.thread t with
        control := .joined pID, waiting := some (.joinsem r), blocked := true } :=
    (P_thread ..).trans ((if_pos rfl).trans (if_pos hzero))
  have hother : ∀ u, u ≠ t → ((s.modifyPcb r (·.recordJoin.incNumWait)).P t (.joinsem r)
      (.joined pID)).2.thread u = s.thread u := fun u hu => (P_thread ..).trans (if_neg hu)
  have hevents : ((s.modifyPcb r (·.recordJoin.incNumWait)).P t (.joinsem r)
      (.joined pID)).1 = [.wait t (.joinsem r)] :=
    (P_events ..).trans (by rw [if_pos]; exact hzero)
  have hnonneg : (s.heap r).parentID ≠ -1 := by
    obtain ⟨r', hr', -, -⟩ := hs.owns t ht (by simp [hc])
    have h0 := (hs.slot _ _ hr').1
    rw [hparent] at h0
    omega
  have hnew : At ((s.modifyPcb r (·.recordJoin.incNumWait)).P t (.joinsem r) (.joined pID)).2 r
      σ' := by
    refine hAt.arrive hσ hc hnonneg ?_ ?_ (update_self ..) rfl ?_ hother
    · rw [P_sem, if_pos rfl, if_pos (by exact hzero)]
      rfl
    · rw [P_sem, if_neg (by simp)]
      rfl
    · rw [hself, hpid]
      exact ⟨rfl, rfl, rfl⟩
  rw [hevents]
  refine .move h rfl hr hnew ?_ ?_ ?_
  · intro r' hr' hne
    refine (h.stage r' hr').frame hs hr' ?_ ?_ ?_ (fun hp => hp) fun u => ?_
    · rw [P_sem, if_neg (by simp [hne])]
      rfl
    · rw [P_sem, if_neg (by simp)]
      rfl
    · exact congrArg PCB.face (update_of_ne hne _ _)
    · rcases eq_or_ne u t with rfl | hu
      · exact .apart (fun _ => by rw [hself]) (by simp [hw]) (by simp [hself, Ne.symm hne])
          (fun _ hj => absurd (hc.symm.trans hj) (by simp)) (by simp [hself])
          (fun _ => by simp [hself, hc, BeforeExit])
      · exact .of_eq (hother u hu)
  · intro r' hne
    simp [signal, Ne.symm hne]
  · simp [signal, List.filterMap_cons, hnext]

/-- The waiting thread returns from `JoinWait`. -/
theorem At.take (h : At s r (.offered t ec)) (hc : (s.thread t).control = .joined (s.heap r).pid)
    (hpid : (s.thread t).processID = (s.heap r).parentID)
    (hjoin : (s'.sem (.joinsem r)).value = 0) (hexit : s'.sem (.exitsem r) = s.sem (.exitsem r))
    (hheap : s'.heap r = s.heap r) (hpcb : s'.pcb = s.pcb)
    (hself : (s'.thread t).control = (s.thread t).control ∧ (s'.thread t).waiting = none ∧
      (s'.thread t).processID = (s.thread t).processID)
    (hother : ∀ u, u ≠ t → s'.thread u = s.thread u) : At s' r (.taken t ec) := by
  refine ⟨hjoin, by rw [hexit]; exact h.exitValue, by simp, by simp, by simp, ?_, ?_, ?_, ?_, ?_,
    by simp, ?_, ?_⟩
  · rintro p ec' (hp | hp) <;> cases hp
    rw [hheap]
    exact h.code t ec (.inl rfl)
  · rw [hheap, h.dead]
    simp
  · intro c hthread
    rw [hheap] at hthread
    have hown : Exiting s r c ec := h.owner c hthread
    have hne : c ≠ t := by
      rintro rfl
      exact hown.not_joined _ hc
    show Exiting s' r c ec
    exact hown.of_same (by rw [hother c hne]) (by rw [hother c hne])
  · intro hnone
    rw [hheap] at hnone
    rcases h.unforked hnone with hx | ⟨p, hx⟩ <;> cases hx
  · intro u hw
    have hu : u ≠ t := by
      rintro rfl
      rw [hself.2.1] at hw
      cases hw
    rw [hother u hu] at hw
    rcases h.waiter u hw with ⟨hx, -⟩ | ⟨ec', hx, -⟩ | ⟨hx, -⟩ <;> cases hx
    exact absurd rfl hu
  · intro p ec' hp
    cases hp
    rw [hheap, hself.1, hself.2.2]
    exact ⟨hc, hself.2.1, hpid⟩
  · intro u hslot hcu hwu
    rcases eq_or_ne u t with rfl | hu
    · exact ⟨ec, rfl⟩
    · obtain ⟨ec', hec⟩ := h.joiner_of_same hpcb (by rw [hheap]) (by rw [hother u hu])
        (by rw [hother u hu]) hslot hcu hwu
      cases hec

/-- A stage other than `removed` belongs to the PCB in its slot. -/
theorem At.slot (h : At s r σ) (hs : Wf s) (hr : r < s.nextRef) (hσ : σ ≠ .removed) :
    (s.heap r).destroyed = false ∧ s.pcb (s.heap r).pid = some r := by
  have hlive : (s.heap r).destroyed = false := by
    cases hd : (s.heap r).destroyed with
    | false => rfl
    | true => exact absurd (h.dead.mp hd) hσ
  exact ⟨hlive, hs.alive r hr hlive⟩

/-- A thread woken inside `JoinWait` finds the offer. -/
theorem advances_take (h : Agrees s g) (hs : Wf s) (hq : Queued s) (hready : s.ready t)
    (hw : (s.thread t).waiting = some (.joinsem r)) :
    Advances g (s.P t (.joinsem r) (s.thread t).control).1
      (s.P t (.joinsem r) (s.thread t).control).2 := by
  obtain ⟨hr, hc, hpid⟩ := hq.wait t _ hw
  have hAt := h.stage r hr
  obtain ⟨ec, hσ⟩ : ∃ ec, g r = .offered t ec := by
    rcases hAt.waiter t hw with ⟨-, hb⟩ | ⟨ec, hσ, -⟩ | ⟨-, hb⟩
    · rw [hready.2.1] at hb; cases hb
    · exact ⟨ec, hσ⟩
    · rw [hready.2.1] at hb; cases hb
  rw [hσ] at hAt
  have hone : (s.sem (.joinsem r)).value = 1 := hAt.joinValue
  have hne : (s.sem (.joinsem r)).value ≠ 0 := by omega
  have hself : (s.P t (.joinsem r) (s.thread t).control).2.thread t =
      { s.thread t with waiting := none, blocked := false } :=
    (P_thread ..).trans ((if_pos rfl).trans (if_neg hne))
  have hother : ∀ u, u ≠ t → (s.P t (.joinsem r) (s.thread t).control).2.thread u = s.thread u :=
    fun u hu => (P_thread ..).trans (if_neg hu)
  have hnew : At (s.P t (.joinsem r) (s.thread t).control).2 r (.taken t ec) := by
    refine hAt.take hc hpid ?_ ?_ rfl rfl (by rw [hself]; exact ⟨rfl, rfl, rfl⟩) hother
    · rw [P_sem, if_pos rfl, if_neg hne]
      simp [hone]
    · rw [P_sem, if_neg (by simp)]
  have hslot := (hAt.slot hs hr (by simp)).2
  rw [P_events, if_neg hne]
  refine .move h rfl hr hnew ?_ ?_ ?_
  · intro r' hr' hne'
    refine (h.stage r' hr').frame hs hr' ?_ ?_ rfl (fun hp => hp) fun u => ?_
    · rw [P_sem, if_neg (by simp [hne'])]
    · rw [P_sem, if_neg (by simp)]
    · rcases eq_or_ne u t with rfl | hu
      · refine .apart (fun _ => by rw [hself]) (by simp [hw, Ne.symm hne']) (by simp [hself])
          (by simp [hw]) (fun hp hj => ?_) (fun _ => by simp [hc, BeforeExit])
        -- the same slot cannot hold both PCBs
        rw [hself, hc] at hj
        rw [← Control.joined.inj hj, hslot] at hp
        exact absurd (Option.some.inj hp).symm hne'
      · exact .of_eq (hother u hu)
  · intro r' hne'
    simp [signal, Ne.symm hne']
  · simp [signal, hσ, Stage.next]

/-- The thread that has taken the offer answers its caller, with or without a release. -/
theorem At.answer (h : At s r (.taken t ec)) (hσ : σ' = .abandoned ec ∨ (σ' = .granted ∧ ec = 0))
    (hjoin : s'.sem (.joinsem r) = s.sem (.joinsem r))
    (hexit : (s'.sem (.exitsem r)).value = Stage.exitUnits σ')
    (hqueue : σ' = .granted → (s'.sem (.exitsem r)).queue = []) (hheap : s'.heap r = s.heap r)
    (hpcb : s'.pcb = s.pcb) (hself : (s'.thread t).control = .user ∧ (s'.thread t).waiting = none)
    (hother : ∀ u, u ≠ t → (s'.thread u).control = (s.thread u).control ∧
      (s'.thread u).waiting = (s.thread u).waiting) : At s' r σ' := by
  have hmain : Stage.joinUnits σ' = 0 ∧ σ' ≠ .idle ∧ (∀ p, σ' ≠ .awaited p) ∧
      (∀ p ec, σ' ≠ .offered p ec) ∧ (∀ p ec, σ' ≠ .taken p ec) ∧ σ' ≠ .removed := by
    rcases hσ with rfl | ⟨rfl, -⟩ <;> simp [Stage.joinUnits]
  obtain ⟨hunits, hidle, hawaited, hoffered, htaken, hremoved⟩ := hmain
  obtain ⟨hc, -, -⟩ := h.taker t ec rfl
  refine ⟨?_, hexit, hqueue, fun hx => absurd hx hidle, fun p hx => absurd hx (hawaited p), ?_,
    ?_, ?_, ?_, ?_, ?_, fun p ec hx => absurd hx (htaken p ec), ?_⟩
  · rw [hjoin, hunits]
    exact h.joinValue
  · rintro p ec' (hx | hx)
    · exact absurd hx (hoffered p ec')
    · exact absurd hx (htaken p ec')
  · rw [hheap, h.dead]
    simp [hremoved]
  · intro c hthread
    rw [hheap] at hthread
    have hown : Exiting s r c ec := h.owner c hthread
    have hne : c ≠ t := by
      rintro rfl
      exact hown.not_joined _ hc
    have hown' : Exiting s' r c ec := hown.of_same (hother c hne).1 (hother c hne).2
    rcases hσ with rfl | ⟨rfl, rfl⟩ <;> exact hown'
  · intro hnone
    rw [hheap] at hnone
    rcases h.unforked hnone with hx | ⟨p, hx⟩ <;> cases hx
  · intro u hw
    have hu : u ≠ t := by
      rintro rfl
      rw [hself.2] at hw
      cases hw
    rw [(hother u hu).2] at hw
    rcases h.waiter u hw with ⟨hx, -⟩ | ⟨ec', hx, -⟩ | ⟨hx, -⟩ <;> cases hx
  · rintro p (hx | ⟨ec', hx⟩)
    · exact absurd hx (hawaited p)
    · exact absurd hx (hoffered p ec')
  · intro u hslot hcu hwu
    have hu : u ≠ t := by
      rintro rfl
      rw [hself.1] at hcu
      cases hcu
    obtain ⟨ec', hec⟩ := h.joiner_of_same hpcb (by rw [hheap]) (hother u hu).1 (hother u hu).2
      hslot hcu hwu
    cases hec
    exact absurd rfl hu

/-- The handshakes about other PCBs do not notice that `t` returns from `JoinUpdate`. -/
theorem SameFor.answer {r' : Ref} (hw : (s.thread t).waiting = none)
    (hc : (s.thread t).control = .joined pID) (hp : s.pcb pID = some r) (hne : r' ≠ r)
    (hpid : (s'.thread t).processID = (s.thread t).processID)
    (hself : (s'.thread t).control = .user ∧ (s'.thread t).waiting = none) : SameFor s s' r' t := by
  refine .apart (fun _ => hpid) (by simp [hw]) (by simp [hself]) (fun hslot hj => ?_)
    (by simp [hself]) (fun _ => by simp [hself, hc, BeforeExit])
  rw [hc] at hj
  rw [← Control.joined.inj hj, hp] at hslot
  exact absurd (Option.some.inj hslot).symm hne

/-- A nonzero exit code: `JoinUpdate` returns -1 and signals nobody. -/
theorem advances_abandon (h : Agrees s g) (hs : Wf s) (hw : (s.thread t).waiting = none)
    (hc : (s.thread t).control = .joined pID) (hp : s.pcb pID = some r)
    (hec : (s.heap r).exitcode ≠ 0) :
    Advances g [.getExitCode t r (s.heap r).exitcode, .joinReturns t (some r) (-1)]
      (s.goto t .user) := by
  obtain ⟨-, -, hr, hpid, -⟩ := hs.slot pID r hp
  have hAt := h.stage r hr
  obtain ⟨ec, hσ⟩ := hAt.joiner t (by rw [hpid, hp]) (by rw [hpid, hc]) hw
  rw [hσ] at hAt
  have hcode : (s.heap r).exitcode = ec := hAt.code t ec (.inr rfl)
  have hself : (s.goto t .user).thread t = { s.thread t with control := .user } :=
    update_self ..
  have hother : ∀ u, u ≠ t → (s.goto t .user).thread u = s.thread u :=
    fun u hu => update_of_ne hu _ _
  have hnew : At (s.goto t .user) r (.abandoned ec) :=
    hAt.answer (.inl rfl) rfl hAt.exitValue (by simp) rfl rfl (by rw [hself]; exact ⟨rfl, hw⟩)
      fun u hu => by rw [hother u hu]; exact ⟨rfl, rfl⟩
  refine .move h rfl hr hnew ?_ ?_ ?_
  · intro r' hr' hne
    refine (h.stage r' hr').frame hs hr' rfl rfl rfl (fun hp => hp) fun u => ?_
    rcases eq_or_ne u t with rfl | hu
    · exact .answer hw hc hp hne (by rw [hself]) (by rw [hself]; exact ⟨rfl, hw⟩)
    · exact .of_eq (hother u hu)
  · intro r' hne
    simp [signal, Ne.symm hne]
  · rw [hcode] at hec ⊢
    simp [signal, hσ, Stage.next, hec]

/-- Only the process itself can be asleep in its `ExitWait`. -/
theorem Queued.exit_tail (hq : Queued s) (r : Ref) : (s.sem (.exitsem r)).queue.tail = [] := by
  have hown : ∀ u ∈ (s.sem (.exitsem r)).queue, (s.heap r).thread = some u :=
    fun u hu => (hq.wait u _ (hq.sound _ u hu).2).2.2
  have hnd := hq.nodup (.exitsem r)
  match hqueue : (s.sem (.exitsem r)).queue with
  | [] => rfl
  | [_] => rfl
  | u :: v :: rest =>
    rw [hqueue] at hown hnd
    have huv : u = v := Option.some.inj ((hown u (by simp)).symm.trans (hown v (by simp)))
    simp [huv] at hnd

/-- Exit code 0: `JoinUpdate` releases the process and returns. -/
theorem advances_grant (h : Agrees s g) (hs : Wf s) (hq : Queued s)
    (hw : (s.thread t).waiting = none) (hc : (s.thread t).control = .joined pID)
    (hp : s.pcb pID = some r) (hec : (s.heap r).exitcode = 0) :
    Advances g [.getExitCode t r 0, .V t (.exitsem r), .joinReturns t (some r) 0]
      ((s.V t (.exitsem r)).2.goto t .user) := by
  obtain ⟨-, -, hr, hpid, -⟩ := hs.slot pID r hp
  have hAt := h.stage r hr
  obtain ⟨ec, hσ⟩ := hAt.joiner t (by rw [hpid, hp]) (by rw [hpid, hc]) hw
  rw [hσ] at hAt
  have hcode : (s.heap r).exitcode = ec := hAt.code t ec (.inr rfl)
  obtain rfl : ec = 0 := hcode.symm.trans hec
  have hself : ((s.V t (.exitsem r)).2.goto t .user).thread t =
      { (s.V t (.exitsem r)).2.thread t with control := .user } := update_self ..
  have hother : ∀ u, u ≠ t → (((s.V t (.exitsem r)).2.goto t .user).thread u) =
      (s.V t (.exitsem r)).2.thread u := fun u hu => update_of_ne hu _ _
  have hself' : (((s.V t (.exitsem r)).2.goto t .user).thread t).control = .user ∧
      (((s.V t (.exitsem r)).2.goto t .user).thread t).waiting = none := by
    rw [hself]
    exact ⟨rfl, by simpa using hw⟩
  have hsem : ((s.V t (.exitsem r)).2.goto t .user).sem (.exitsem r) =
      ⟨(s.sem (.exitsem r)).value + 1, (s.sem (.exitsem r)).queue.tail⟩ :=
    (V_sem s t _ _).trans (if_pos rfl)
  have hnew : At ((s.V t (.exitsem r)).2.goto t .user) r .granted := by
    refine hAt.answer (.inr ⟨rfl, rfl⟩) ?_ ?_ ?_ rfl rfl hself' fun u hu => ?_
    · show (s.V t (.exitsem r)).2.sem (.joinsem r) = _
      rw [V_sem, if_neg (by simp)]
    · rw [hsem, hAt.exitValue]
      rfl
    · rw [hsem]
      exact fun _ => hq.exit_tail r
    · rw [hother u hu]
      exact ⟨V_control .., V_waiting ..⟩
  refine .move h rfl hr hnew ?_ ?_ ?_
  · intro r' hr' hne
    refine (h.stage r' hr').frame hs hr' ?_ ?_ rfl (fun hp => hp) fun u => ?_
    · show (s.V t (.exitsem r)).2.sem (.joinsem r') = _
      rw [V_sem, if_neg (by simp)]
    · show (s.V t (.exitsem r)).2.sem (.exitsem r') = _
      rw [V_sem, if_neg (by simp [hne])]
    · rcases eq_or_ne u t with rfl | hu
      · exact .answer hw hc hp hne (by rw [hself]; exact V_processID ..) hself'
      · have hid : SemId.exitsem r ≠ .joinsem r' := by simp
        exact .of_V hq hu hid
  · intro r' hne
    simp [signal, Ne.symm hne]
  · simp [signal, hσ, Stage.next]

end

end Nachos.Process
