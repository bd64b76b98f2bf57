import Nachos.Userprog.Process.Waiters

/-!
# Accesses to destroyed PCBs

`Remove` clears the bit of a slot and destroys its PCB, but the slot keeps the pointer. `Careful`
names the three places where the kernel follows a pointer without knowing that the PCB behind it
is alive: `JoinUpdate` tests the pointer and not the bit, `ExitUpdate` counts down a field of the
parent's PCB, and `PCB::Exec` unlocks the mutex of a child that may have exited already. Every
other access is to a live PCB, in every run.
-/

namespace Nachos.Process

open Transition Handshake

/-- Nothing of a PCB is read or written once its destructor has begun. -/
def NoUseAfterDestroy (trace : List Event) : Prop :=
  trace.Pairwise fun d e => ∀ r, d = .destroy r → e.accesses ≠ some r

/-- The destructor of the PCB has begun. -/
def Dead (s : State) (r : Ref) : Prop := r < s.nextRef ∧ (s.heap r).destroyed = true

/-- No event is an access to a PCB that is dead in `s`. -/
def Spares (s : State) (events : List Event) : Prop :=
  ∀ e ∈ events, ∀ r, e.accesses = some r → ¬ Dead s r

/-- The PCB whose mutex the thread unlocks next. -/
def Control.unlocks : Control → Option Ref
  | .execUnlock r _ => some r
  | _ => none

/-- Whether the input is a call of `ExitUpdate`. -/
def Input.exits : Input → Bool
  | .call _ (.exit _) => true
  | _ => false

/-- The pointers that the step follows unchecked lead to live PCBs: the target of a join, the
parent of a process that exits, and the child whose `Exec` ends. -/
def Careful (s : State) (a : Act) : Prop :=
  (∀ pID ∈ a.input.joins, ∀ r ∈ s.pcb pID, (s.heap r).destroyed = false) ∧
  (a.input.exits = true → (s.thread a.thread).processID ≠ 0 →
    ∀ r ∈ s.pcb (s.thread a.thread).processID, ∀ q ∈ s.pcb (s.heap r).parentID,
      (s.heap q).destroyed = false) ∧
  (a.input = .go → ∀ r ∈ (s.thread a.thread).control.unlocks, (s.heap r).destroyed = false)

instance (s : State) (a : Act) : Decidable (Careful s a) :=
  inferInstanceAs (Decidable (_ ∧ _ ∧ _))

section

variable {s s' : State} {t : Tid} {i : Input} {events : List Event} {r : Ref}
  {g : Ref → Stage Tid}

theorem not_dead_of_live (h : (s.heap r).destroyed = false) : ¬ Dead s r := by
  rintro ⟨-, hd⟩
  rw [h] at hd
  cases hd

theorem not_dead_iff (hr : r < s.nextRef) : ¬ Dead s r ↔ (s.heap r).destroyed = false := by
  simp [Dead, hr]

/-- Both sides hold: the step follows no unchecked pointer and touches no dead PCB. -/
theorem spares_iff_of_neutral (hjoin : i.joins = none) (hexit : i.exits = false)
    (hgo : i = .go → (s.thread t).control.unlocks = none) (h : Spares s events) :
    Spares s events ↔ Careful s ⟨t, i⟩ := by
  refine ⟨fun _ => ⟨?_, ?_, ?_⟩, fun _ => h⟩
  · simp [hjoin]
  · simp [hexit]
  · intro hi
    simp [hgo hi]

theorem spares_P (id : SemId) (c : Control) (h : ∀ r, id.pcb = some r → ¬ Dead s r) :
    Spares s (s.P t id c).1 := by
  intro e he r hr
  rw [State.P_events] at he
  split_ifs at he <;> (obtain rfl := List.mem_singleton.mp he; exact h r hr)

theorem spares_cons {e : Event} :
    Spares s (e :: events) ↔ (∀ r, e.accesses = some r → ¬ Dead s r) ∧ Spares s events := by
  simp [Spares]

/-- A thread that has returned from `JoinWait` reads a live PCB. -/
theorem Sound.joined_live (h : Sound s g) {pID : Int} (hw : (s.thread t).waiting = none)
    (hc : (s.thread t).control = .joined pID) (hp : s.pcb pID = some r) : ¬ Dead s r := by
  obtain ⟨-, -, hr, hpid, -⟩ := h.wf.slot pID r hp
  have hAt := h.agrees.stage r hr
  obtain ⟨ec, hstage⟩ := hAt.joiner t (hpid.symm ▸ hp) (hpid.symm ▸ hc) hw
  rintro ⟨-, hd⟩
  rw [hAt.dead.mp hd] at hstage
  cases hstage

/-- A move touches a dead PCB exactly if it follows one of the three unchecked pointers to it. -/
theorem Sound.move_spares_iff (h : Sound s g) (hw : (s.thread t).waiting = none)
    (hm : Move s t i events s') : Spares s events ↔ Careful s ⟨t, i⟩ := by
  cases hm with
  | stop => exact spares_iff_of_neutral rfl rfl (by simp) fun _ he => by cases he
  | boot => exact spares_iff_of_neutral rfl rfl (by simp) (spares_P _ _ (by simp [SemId.pcb]))
  | @start _ _ r _ hr =>
    refine spares_iff_of_neutral rfl rfl (by simp) ?_
    exact spares_cons.mpr ⟨fun r' hr' => Option.some.inj hr' ▸ not_dead_of_live hr.live,
      spares_P _ _ (by simp [SemId.pcb])⟩
  | exec =>
    refine spares_iff_of_neutral rfl rfl (by simp) ?_
    exact spares_cons.mpr ⟨by simp [Event.accesses], spares_P _ _ (by simp [SemId.pcb])⟩
  | reserve =>
    refine spares_iff_of_neutral rfl rfl (by simp) ?_
    simp [Spares, Event.accesses, SemId.pcb, Dead]
  | @fork _ r _ hc =>
    obtain ⟨-, -, hlive, -⟩ : ControlOk s t (.execFork r _ _) := hc ▸ h.wf.control t
    refine spares_iff_of_neutral rfl rfl (by simp [hc, Control.unlocks]) ?_
    simpa [Spares, Event.accesses] using not_dead_of_live hlive
  | @unlock r _ hc =>
    obtain ⟨hr, -⟩ : ControlOk s t (.execUnlock r _) := hc ▸ h.wf.control t
    simp [Spares, Event.accesses, SemId.pcb, Careful, Input.joins, Input.exits, hc,
      Control.unlocks, not_dead_iff hr]
  | joinMissing hc hpc hp =>
    simp [Spares, Event.accesses, Careful, Input.joins, Input.exits, hp]
  | joinForeign hc hpc hp =>
    have hlive := not_dead_iff (h.wf.slot _ _ hp).2.2.1
    simp [Spares, Event.accesses, Careful, Input.joins, Input.exits, hp, hlive]
  | @joinWait _ _ r hc hpc hp =>
    have hlive := not_dead_iff (h.wf.slot _ _ hp).2.2.1
    rw [State.P_events]
    split_ifs <;> simp [Spares, Event.accesses, SemId.pcb, Careful, Input.joins, Input.exits,
      hp, hlive]
  | joinAbandon hc hp =>
    have hlive := h.joined_live hw hc hp
    refine spares_iff_of_neutral rfl rfl (by simp [hc, Control.unlocks]) ?_
    simpa [Spares, Event.accesses] using hlive
  | joinGrant hc hp =>
    have hlive := h.joined_live hw hc hp
    refine spares_iff_of_neutral rfl rfl (by simp [hc, Control.unlocks]) ?_
    simpa [Spares, Event.accesses, SemId.pcb] using hlive
  | exitHalt hc hpc h0 =>
    simp [Spares, Event.accesses, Careful, Input.joins, h0]
  | @exitSignal _ _ r q hc hpc h0 hr hq =>
    have hlive := not_dead_of_live hr.live
    have hparent := not_dead_iff (h.wf.slot _ q hq).2.2.1
    simp [Spares, Event.accesses, SemId.pcb, Careful, Input.joins, Input.exits, h0, hr.slot, hq,
      hlive, hparent]
  | @exitNow _ _ r q _ hc hpc h0 hr hq =>
    have hlive := not_dead_of_live hr.live
    have hparent := not_dead_iff (h.wf.slot _ q hq).2.2.1
    simp [Spares, Event.accesses, SemId.pcb, Careful, Input.joins, Input.exits, h0, hr.slot, hq,
      hlive, hparent]
  | exitWait hc hr =>
    refine spares_iff_of_neutral rfl rfl (by simp [hc, Control.unlocks]) (spares_P _ _ ?_)
    rintro r' hr'
    exact Option.some.inj hr' ▸ not_dead_of_live hr.live
  | execFails =>
    refine spares_iff_of_neutral rfl rfl (by simp) ?_
    simp [Spares, Event.accesses, SemId.pcb]
  | _ hc =>
    refine spares_iff_of_neutral rfl rfl (by simp [hc, Control.unlocks]) ?_
    simp [Spares, Event.accesses, SemId.pcb]

/-- A thread that tests its semaphore again finds it alive, unless it has been lost. -/
theorem Sound.retry_live (h : Sound s g) {id : SemId} (hready : s.ready t)
    (hw : (s.thread t).waiting = some id) (hid : id.pcb = some r) : ¬ Dead s r := by
  have hwait := h.queued.wait t id hw
  rintro ⟨hr, hd⟩
  cases id with
  | joinsem r' =>
    obtain rfl : r' = r := Option.some.inj hid
    have hAt := h.agrees.stage r' hr
    have hwaiter := hAt.waiter t hw
    simp [hAt.dead.mp hd, WaiterAt, Stage.late, hready.2.1] at hwaiter
  | exitsem r' =>
    obtain rfl : r' = r := Option.some.inj hid
    obtain ⟨-, ⟨ec, hc⟩, hthread⟩ := hwait
    have hfinished := (h.wf.owner r' t hr hthread).2.2.2.2.mp hd
    rw [hc] at hfinished
    cases hfinished
  | mutex r' => exact hwait
  | _ => cases hid

/-- A step touches a dead PCB exactly if it is not careful. -/
theorem Sound.step_spares_iff (h : Sound s g) {a : Act}
    (hstep : Process.step s a = some (events, s')) : Spares s events ↔ Careful s a := by
  obtain ⟨hready, ⟨id, hw, hgo, rfl, -⟩ | ⟨hw, hm⟩⟩ := h.wf.step_cases hstep
  · obtain ⟨t, i⟩ := a
    obtain rfl : i = .go := hgo
    refine spares_iff_of_neutral rfl rfl (fun _ => ?_) (spares_P _ _ ?_)
    · -- the code inside `P` is not at the end of `Exec`
      have hwait := h.queued.wait t id hw
      cases hc : (s.thread t).control with
      | execUnlock r pID => cases id <;> simp [WaitOk, hc] at hwait
      | _ => rfl
    · exact fun r hr => h.retry_live hready hw hr
  · exact h.move_spares_iff hw hm

/-- The last event of a step is the only one that destroys. -/
theorem Move.noUseAfterDestroy (hm : Move s t i events s') : NoUseAfterDestroy events := by
  cases hm with
  | boot => simp [NoUseAfterDestroy, State.P_events]
  | start => simp [NoUseAfterDestroy, State.P_events]
  | exec => simp [NoUseAfterDestroy, State.P_events]
  | exitWait => simp [NoUseAfterDestroy, State.P_events]
  | joinWait => simp [NoUseAfterDestroy, State.P_events]
  | _ => simp [NoUseAfterDestroy]

theorem Wf.step_noUseAfterDestroy (hs : Wf s) {a : Act}
    (hstep : Process.step s a = some (events, s')) : NoUseAfterDestroy events := by
  obtain ⟨-, ⟨id, -, -, rfl, -⟩ | ⟨-, hm⟩⟩ := hs.step_cases hstep
  · simp [NoUseAfterDestroy, State.P_events]
  · exact hm.noUseAfterDestroy

theorem run_noUseAfterDestroy {rawTable rawFrames : Nat → BitVec 32} {trace : List Event}
    (h : Run step Careful (initial rawTable rawFrames) trace s) :
    NoUseAfterDestroy trace := by
  induction h with
  | refl => exact List.Pairwise.nil
  | snoc hrun hok hstep ih =>
    obtain ⟨g, hsound, -⟩ := run_sound hrun
    have hspares := (hsound.step_spares_iff hstep).mpr hok
    refine List.pairwise_append.mpr ⟨ih, hsound.wf.step_noUseAfterDestroy hstep, ?_⟩
    -- what was destroyed before this step is dead, and the step spares the dead
    rintro d hd e he r rfl hr
    exact hspares e he r hr ((initial_wf _ _).run_destroyed hrun hd)

/-- In every run whose steps are all careful no PCB is used after its destruction, and a step in
any run touches a dead PCB exactly if it is not careful. -/
theorem no_use_after_destroy_of_careful (rawTable rawFrames : Nat → BitVec 32) :
    (∀ trace s, Run step Careful (initial rawTable rawFrames) trace s →
      NoUseAfterDestroy trace) ∧
    (∀ trace s a events s', Run step anyAct (initial rawTable rawFrames) trace s →
      step s a = some (events, s') → (Spares s events ↔ Careful s a)) := by
  refine ⟨fun trace s h => run_noUseAfterDestroy h, fun trace s a events s' h hstep => ?_⟩
  obtain ⟨g, hsound, -⟩ := run_sound h
  exact hsound.step_spares_iff hstep

end

/-- A child runs, is joined and exits while its parent lives: every step is careful. -/
theorem no_use_after_destroy_joined :
    ∃ trace s, Run step Careful (initial (fun _ => 0) fun _ => 0) trace s ∧
      .destroy 1 ∈ trace ∧ NoUseAfterDestroy trace := by
  let acts : List Act :=
    startActs 0 Frames.smallHeader ++ execActs 0 "child" ++ startActs 1 Frames.smallHeader ++
      [⟨0, .call 0 (.join 1)⟩, ⟨1, .call 0 (.exit 0)⟩, ⟨0, .go⟩, ⟨0, .go⟩, ⟨1, .go⟩, ⟨1, .go⟩]
  have hallowed : Allowed step Careful (initial (fun _ => 0) fun _ => 0) acts := by
    decide +kernel
  have hexec : ((execute step (initial (fun _ => 0) fun _ => 0) acts).any fun r =>
      .destroy 1 ∈ r.1) = true := by decide +kernel
  obtain ⟨⟨trace, s⟩, hexec, hd⟩ := (Option.any_eq_true _ _).mp hexec
  have h := run_of_execute hexec hallowed
  exact ⟨trace, s, h, of_decide_eq_true hd, (no_use_after_destroy_of_careful _ _).1 trace s h⟩

/-- A child exits before its parent joins it: `JoinUpdate` reads the PCB that the child has
destroyed and puts its caller to sleep on the deleted `joinsem`. -/
theorem join_after_exit_uses_dead_pcb :
    ∃ trace s, Run step anyAct (initial (fun _ => 0) fun _ => 0) trace s ∧
      ¬ NoUseAfterDestroy trace ∧ .destroy 1 ∈ trace ∧
      (s.thread 0).waiting = some (.joinsem 1) ∧ (s.thread 0).blocked = true := by
  obtain ⟨trace, s, h, huse, hd, hwait, hblocked⟩ :=
    run_reaches step (initial (fun _ => 0) fun _ => 0)
      (fun trace s => ¬ trace.Pairwise (fun d e => d = .destroy 1 → e.accesses ≠ some 1) ∧
        .destroy 1 ∈ trace ∧ (s.thread 0).waiting = some (.joinsem 1) ∧
        (s.thread 0).blocked = true)
      (startActs 0 Frames.smallHeader ++ execActs 0 "child" ++ startActs 1 Frames.smallHeader ++
        [⟨1, .call 0 (.exit 0)⟩, ⟨0, .call 0 (.join 1)⟩])
      (by decide +kernel)
  exact ⟨trace, s, h, fun hsafe => huse (hsafe.imp fun hde => hde 1), hd, hwait, hblocked⟩

end Nachos.Process
