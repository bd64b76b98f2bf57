import Nachos.Userprog.Frames
import Nachos.Userprog.Process.Table

/-!
# Only the creator joins

`JoinUpdate` knows the parent of a process by its number, and numbers are given out again. The
ghost field `creator` of a PCB names the thread whose `ExecUpdate` built it. As long as no number
is given out again while a process of its former holder lives, a live process is joined by its
creator only.
-/

namespace Nachos.Process

open Transition State

/-- If the step passes the parent check of `JoinUpdate` for a PCB, then the PCB is alive and its
process was created by the caller. -/
def JoinsOwn (s : State) (a : Act) : Prop :=
  ∀ events s' t r, step s a = some (events, s') → .joinWait t r ∈ events →
    t = a.thread ∧ (s.heap r).destroyed = false ∧ (s.heap r).creator = some t

/-- The executable that `ExecUpdate` is about to check. -/
def Control.execs : Control → Option String
  | .execChecks filename => filename
  | _ => none

/-- No join by number finds the PCB of a removed process, and no `ExecUpdate` gives out a number
that a live process still has as its parent's. -/
def NumbersFresh (s : State) (a : Act) : Prop :=
  (∀ pID ∈ a.input.joins, ∀ r ∈ s.pcb pID,
    (s.thread a.thread).processID = (s.heap r).parentID → (s.heap r).destroyed = false) ∧
  (a.input = .opened true → ∀ name ∈ (s.thread a.thread).control.execs,
    name ≠ (s.thread a.thread).name → ∀ r < s.nextRef, r ≠ 0 → (s.heap r).destroyed = false →
      (s.heap r).parentID ≠ s.bm.findFreeSlot.1)

instance (s : State) (a : Act) : Decidable (NumbersFresh s a) :=
  inferInstanceAs (Decidable (_ ∧ _))

/-- A PCB that has been built for a forked process and is alive. -/
structure LivePcb (s : State) (r : Ref) : Prop where
  lt : r < s.nextRef
  ne : r ≠ 0
  live : (s.heap r).destroyed = false

/-- Numbers identify parents: a running thread with the number of the parent of a live process is
its creator, and nobody's parent has a number that is reserved for a new process. -/
structure Parented (s : State) : Prop where
  creator : ∀ r u, LivePcb s r → u < s.nextTid → (s.thread u).control ≠ .finished →
    (s.thread u).processID = (s.heap r).parentID → (s.heap r).creator = some u
  reserved : ∀ r r', LivePcb s r → LivePcb s r' → (s.heap r').thread = none →
    (s.heap r).parentID ≠ (s.heap r').pid
  root : (s.heap 0).parentID = -1

section

variable {s s' : State} {t : Tid} {i : Input} {events : List Event} {r : Ref} {n : Nat}
  {name : String}

/-- Quiet steps create and destroy nothing. -/
theorem Quiet.livePcb (h : Quiet t s s') : LivePcb s' r ↔ LivePcb s r := by
  constructor <;> rintro ⟨hlt, hne, hlive⟩ <;> refine ⟨?_, hne, ?_⟩
  · exact h.nextRef ▸ hlt
  · rw [← h.destroyed, hlive]
  · exact h.nextRef.symm ▸ hlt
  · rw [h.destroyed, hlive]

theorem Quiet.parented (h : Quiet t s s') (hp : Parented s)
    (htc : (s.thread t).control ≠ .finished) : Parented s' := by
  refine ⟨?_, ?_, ?_⟩
  · intro r u hr hu huc hpid
    rw [h.creator]
    rw [h.nextTid] at hu
    rw [h.processID, h.parentID] at hpid
    refine hp.creator r u (h.livePcb.mp hr) hu ?_ hpid
    rcases eq_or_ne u t with rfl | hut
    · exact htc
    · rwa [← (h.others u hut).1]
  · intro r r' hr hr' hnone
    rw [h.parentID, h.pid]
    rw [h.thread] at hnone
    exact hp.reserved r r' (h.livePcb.mp hr) (h.livePcb.mp hr') hnone
  · rw [h.parentID, hp.root]

/-- The number of a running thread is not the one reserved for a new process. -/
theorem Wf.processID_ne_reserved (hs : Wf s) (ht : t < s.nextTid)
    (htc : (s.thread t).control ≠ .finished) (hr : LivePcb s r)
    (hnone : (s.heap r).thread = none) : (s.thread t).processID ≠ (s.heap r).pid := by
  intro heq
  obtain ⟨r', hslot, -, hown⟩ := hs.owns t ht htc
  have hr' : r' = r := by
    rw [heq, hs.alive r hr.lt hr.live] at hslot
    exact (Option.some.inj hslot).symm
  rcases hown with ⟨h0, -⟩ | hthread
  · exact hr.ne (hr' ▸ h0)
  · rw [hr', hnone] at hthread
    cases hthread

/-- `reserve` makes one block. -/
theorem livePcb_reserve (hr : LivePcb (s.reserve t n name) r) :
    r = s.nextRef ∨ (LivePcb s r ∧ (s.reserve t n name).heap r = s.heap r) := by
  rcases Nat.lt_succ_iff_lt_or_eq.mp hr.lt with hlt | heq
  · have hheap := s.reserve_heap t n name (Nat.ne_of_lt hlt)
    exact .inr ⟨⟨hlt, hr.ne, hheap ▸ hr.live⟩, hheap⟩
  · exact .inl heq

/-- A number that nobody's parent has can be reserved. -/
theorem Parented.reserve (hp : Parented s) (hs : Wf s) (ht : t < s.nextTid)
    (htc : (s.thread t).control ≠ .finished) (hfree : s.bm.bit n = false)
    (hfresh : ∀ r, LivePcb s r → (s.heap r).parentID ≠ n) : Parented (s.reserve t n name) := by
  have hpid : (s.thread t).processID ≠ n := by
    obtain ⟨r', hslot, hlive, -⟩ := hs.owns t ht htc
    exact hs.slot_ne_free hfree hslot hlive
  have hfinished : ∀ u, ((s.reserve t n name).thread u).control ≠ .finished →
      (s.thread u).control ≠ .finished := by
    intro u hu
    rcases eq_or_ne u t with rfl | hut
    · exact htc
    · rwa [reserve_thread _ _ _ _ hut] at hu
  refine ⟨?_, ?_, ?_⟩
  · intro r u hr hu huc heq
    rw [reserve_processID] at heq
    rcases livePcb_reserve hr with rfl | ⟨hold, hheap⟩
    · rw [reserve_heap_new] at heq ⊢
      rw [hs.processID_inj (hfinished u huc) htc heq]
      rfl
    · rw [hheap] at heq ⊢
      exact hp.creator r u hold hu (hfinished u huc) heq
  · intro r r' hr hr' hnone
    rcases livePcb_reserve hr with rfl | ⟨hold, hheap⟩ <;>
      rcases livePcb_reserve hr' with rfl | ⟨hold', hheap'⟩
    · rw [reserve_heap_new]
      exact hpid
    · rw [reserve_heap_new, hheap']
      rw [hheap'] at hnone
      exact hs.processID_ne_reserved ht htc hold' hnone
    · rw [hheap, reserve_heap_new]
      exact hfresh r hold
    · rw [hheap, hheap']
      rw [hheap'] at hnone
      exact hp.reserved r r' hold hold' hnone
  · rw [reserve_heap _ _ _ _ (Nat.ne_of_lt hs.nextRef_pos), hp.root]

/-- The new thread has a number that nobody's parent has. -/
theorem Parented.execFork (hp : Parented s) (hs : Wf s) (htc : (s.thread t).control ≠ .finished)
    {pID : Int} (hc : (s.thread t).control = .execFork r name pID) :
    Parented (s.execFork t r name pID).2 := by
  obtain ⟨hr₀, hne, hlive, hnone, hpid, hparent, -⟩ : ControlOk s t (.execFork r name pID) :=
    hc ▸ hs.control t
  have hfields : ∀ r', ((s.execFork t r name pID).2.heap r').parentID = (s.heap r').parentID ∧
      ((s.execFork t r name pID).2.heap r').pid = (s.heap r').pid ∧
      ((s.execFork t r name pID).2.heap r').creator = (s.heap r').creator ∧
      ((s.execFork t r name pID).2.heap r').destroyed = (s.heap r').destroyed ∧
      (((s.execFork t r name pID).2.heap r').thread = none → (s.heap r').thread = none) := by
    intro r'
    rw [execFork_heap _ _ _ _ _ _ hparent]
    split_ifs with heq <;> simp [*]
  have hold : ∀ {r'}, LivePcb (s.execFork t r name pID).2 r' → LivePcb s r' := fun {r'} hr' =>
    ⟨hr'.lt, hr'.ne, (hfields r').2.2.2.1 ▸ hr'.live⟩
  refine ⟨?_, ?_, ?_⟩
  · intro r' u hr' hu huc heq
    rw [(hfields r').1] at heq
    rw [(hfields r').2.2.1]
    rcases Nat.lt_succ_iff_lt_or_eq.mp hu with hlt | rfl
    · have hut := Nat.ne_of_lt hlt
      rcases eq_or_ne u t with rfl | hne'
      · rw [execFork_caller _ _ _ _ _ hut] at heq
        exact hp.creator r' u (hold hr') hlt htc heq
      · rw [execFork_thread _ _ _ _ _ hut hne'] at heq huc
        exact hp.creator r' u (hold hr') hlt huc heq
    · rw [execFork_child] at heq
      exact absurd (heq.symm.trans hpid.symm) (hp.reserved r' r (hold hr') ⟨hr₀, hne, hlive⟩ hnone)
  · intro r₁ r₂ h₁ h₂ hnone₂
    rw [(hfields r₁).1, (hfields r₂).2.1]
    exact hp.reserved r₁ r₂ (hold h₁) (hold h₂) ((hfields r₂).2.2.2.2 hnone₂)
  · rw [(hfields 0).1, hp.root]

/-- Removing a process keeps the invariant. -/
theorem Parented.removed (hp : Parented s) (hs : Wf s) {bm : BitMap} (hr : s.Runs t r) :
    Parented (s.removed t r bm) := by
  have hold : ∀ {r'}, LivePcb (s.removed t r bm) r' →
      LivePcb s r' ∧ (s.removed t r bm).heap r' = s.heap r' := by
    intro r' hr'
    have hne : r' ≠ r := by
      rintro rfl
      have hlive := hr'.live
      rw [removed_heap, if_pos rfl] at hlive
      cases hlive
    have hheap : (s.removed t r bm).heap r' = s.heap r' := by
      rw [removed_heap, if_neg hne]
    exact ⟨⟨hr'.lt, hr'.ne, hheap ▸ hr'.live⟩, hheap⟩
  refine ⟨?_, ?_, ?_⟩
  · intro r' u hr' hu huc heq
    obtain ⟨hlive, hheap⟩ := hold hr'
    have hut : u ≠ t := by
      rintro rfl
      rw [removed_thread_self] at huc
      exact huc rfl
    rw [removed_thread _ _ _ _ hut] at huc heq
    rw [hheap] at heq ⊢
    exact hp.creator r' u hlive hu huc heq
  · intro r₁ r₂ h₁ h₂ hnone
    rw [(hold h₁).2, (hold h₂).2]
    rw [(hold h₂).2] at hnone
    exact hp.reserved r₁ r₂ (hold h₁).1 (hold h₂).1 hnone
  · have h0 := (hs.owner r t (hs.runs_lt hr) hr.thread).1
    rw [removed_heap, if_neg h0.symm, hp.root]

/-- So does every section. -/
theorem TableMove.parented (h : TableMove s t i s') (hp : Parented s) (hs : Wf s)
    (ht : t < s.nextTid) (htc : (s.thread t).control ≠ .finished) (hok : NumbersFresh s ⟨t, i⟩) :
    Parented s' := by
  cases h with
  | quiet hq => exact hq.parented hp htc
  | same => exact hp
  | halt =>
    have hold : ∀ {r}, LivePcb s.halt r → LivePcb s r := fun hr => ⟨hr.lt, hr.ne, hr.live⟩
    exact ⟨fun r u hr => hp.creator r u (hold hr),
      fun r r' hr hr' => hp.reserved r r' (hold hr) (hold hr'), hp.root⟩
  | reserve hc hn hfree hslot hname =>
    refine hp.reserve hs ht htc hfree fun r hr => ?_
    rw [← hslot]
    exact hok.2 rfl _ (by rw [hc]; rfl) hname r hr.lt hr.ne hr.live
  | fork hc => exact hp.execFork hs htc hc
  | removed hq hr => exact (hq.parented hp htc).removed (hq.wf hs ht htc) hr

/-- So does every step. -/
theorem Parented.step (hp : Parented s) (hs : Wf s) {a : Act} (hok : NumbersFresh s a)
    (hstep : Process.step s a = some (events, s')) : Parented s' := by
  have hrun := hs.running hstep
  obtain ⟨hready, ⟨id, hw, -, -, rfl⟩ | ⟨hw, hm⟩⟩ := hs.step_cases hstep
  · exact (quiet_P hs (fun _ => rfl) rfl (hs.control _) hrun id).parented hp hrun
  · exact (hm.tableMove hs hready.lt hw).parented hp hs hready.lt hrun hok

/-- It holds at the start. -/
theorem initial_parented (rawTable rawFrames : Nat → BitVec 32) :
    Parented (initial rawTable rawFrames) := by
  have hnone : ∀ r, ¬ LivePcb (initial rawTable rawFrames) r := by
    intro r hr
    exact hr.ne (Nat.lt_one_iff.mp hr.lt)
  exact ⟨fun r u hr => absurd hr (hnone r), fun r r' hr => absurd hr (hnone r), rfl⟩

/-- So it holds in every run. -/
theorem run_parented {rawTable rawFrames : Nat → BitVec 32} {trace : List Event}
    (h : Run step NumbersFresh (initial rawTable rawFrames) trace s) :
    Wf s ∧ Parented s := by
  apply h.invariant
  · exact ⟨initial_wf _ _, initial_parented _ _⟩
  · intro s₁ a events s₂ hinv hok hstep
    obtain ⟨hs, hp⟩ := hinv
    exact ⟨hs.step hstep, hp.step hs hok hstep⟩

/-- In every run with fresh numbers, and in the next step if its numbers are fresh, only the
creator of a live process passes the parent check of `JoinUpdate` for it. -/
theorem only_creator_joins {rawTable rawFrames : Nat → BitVec 32} {trace : List Event} {a : Act}
    (h : Run step NumbersFresh (initial rawTable rawFrames) trace s)
    (hok : NumbersFresh s a) : JoinsOwn s a := by
  obtain ⟨hs, hp⟩ := run_parented h
  intro events s' t r hstep hrec
  have hrun := hs.running hstep
  have hm := hs.move_of_event hstep hrec (by simp) (by simp)
  obtain ⟨rfl, hc, pID, hjoins, hslot, hparent⟩ := hm.join_checks hrec
  have hlive := hok.1 pID hjoins r hslot hparent
  refine ⟨rfl, hlive, ?_⟩
  have hborn := hs.born hrun
  have hne : r ≠ 0 := by
    -- the initial process has no parent
    rintro rfl
    obtain ⟨r', hown, -⟩ := hs.owns _ hborn hrun
    obtain ⟨hnonneg, -⟩ := hs.slot _ r' hown
    rw [hparent, hp.root] at hnonneg
    omega
  exact hp.creator r a.thread ⟨(hs.slot pID r hslot).2.2.1, hne, hlive⟩ hborn hrun hparent

end

/-- The initial process joins its running child. -/
theorem only_creator_joins_child :
    ∃ trace s, Run step NumbersFresh (initial (fun _ => 0) fun _ => 0) trace s ∧
      ((step s ⟨0, .call 0 (.join 1)⟩).any fun r => .joinWait 0 1 ∈ r.1) = true ∧
      JoinsOwn s ⟨0, .call 0 (.join 1)⟩ := by
  let acts : List Act :=
    startActs 0 Frames.smallHeader ++ execActs 0 "child" ++ startActs 1 Frames.smallHeader
  have hallowed : Allowed step NumbersFresh (initial (fun _ => 0) fun _ => 0) acts := by
    decide +kernel
  have hexec : ((execute step (initial (fun _ => 0) fun _ => 0) acts).any fun r =>
      NumbersFresh r.2 ⟨0, .call 0 (.join 1)⟩ ∧
      ((step r.2 ⟨0, .call 0 (.join 1)⟩).any fun q => .joinWait 0 1 ∈ q.1) = true) =
        true := by decide +kernel
  obtain ⟨⟨trace, s⟩, hexec, htest⟩ := (Option.any_eq_true _ _).mp hexec
  obtain ⟨hok, hjoin⟩ := of_decide_eq_true htest
  have h := run_of_execute hexec hallowed
  exact ⟨trace, s, h, hjoin, only_creator_joins h hok⟩

/-- Process 1 creates process 2 and exits, and its number is given to a new process, which then
passes the parent check for process 2. -/
theorem recycled_number_joins :
    ∃ trace s events s', Run step anyAct (initial (fun _ => 0) fun _ => 0) trace s ∧
      step s ⟨3, .call 0 (.join 2)⟩ = some (events, s') ∧ .joinWait 3 2 ∈ events ∧
      (s.heap 2).destroyed = false ∧ (s.heap 2).creator = some 1 ∧
      (s.thread 1).control = .finished ∧ ¬ JoinsOwn s ⟨3, .call 0 (.join 2)⟩ := by
  obtain ⟨trace, s, h, hlive, hcreator, hfinished, hnext⟩ :=
    run_reaches step (initial (fun _ => 0) fun _ => 0)
      (fun _ s => (s.heap 2).destroyed = false ∧ (s.heap 2).creator = some 1 ∧
        (s.thread 1).control = .finished ∧
        ((step s ⟨3, .call 0 (.join 2)⟩).any fun r => .joinWait 3 2 ∈ r.1) = true)
      (startActs 0 Frames.smallHeader ++ execActs 0 "a" ++ startActs 1 Frames.smallHeader ++
        execActs 1 "b" ++ startActs 2 Frames.smallHeader ++ [⟨1, .call 0 (.exit 0)⟩] ++
        execActs 0 "c" ++ startActs 3 Frames.smallHeader)
      (by decide +kernel)
  obtain ⟨⟨events, s'⟩, hstep, htest⟩ := (Option.any_eq_true _ _).mp hnext
  have hrec := of_decide_eq_true htest
  refine ⟨trace, s, events, s', h, hstep, hrec, hlive, hcreator, hfinished, fun hown => ?_⟩
  have hself := (hown events s' 3 2 hstep hrec).2.2
  rw [hcreator] at hself
  cases hself

end Nachos.Process
