import Nachos.Userprog.Frames
import Nachos.Userprog.Process.Simulation

/-!
# Join meets Exit

When a thread has recorded its `JoinUpdate` in the PCB of a process before that process tests
`JoinStatus`, the two meet: the thread returns from `JoinWait` only after the exit code has been
stored, it reads the code that was stored, and the process is removed only after that. The
theorem is the order of signals of the handshake, read back from the kernel's events.
-/

namespace Nachos.Process

open Transition Handshake Monitor

/-! ## Reading the signals back -/

section

variable {r : Ref} {e : Event} {t : Tid} {ec : Int}

theorem signal_take : signal r e = some (.take t) ↔ e = .P t (.joinsem r) := by
  fun_cases signal r e <;> grind

theorem signal_read : signal r e = some (.read t ec) ↔ e = .getExitCode t r ec := by
  fun_cases signal r e <;> grind

theorem signal_release : signal r e = some (.release t) ↔ e = .V t (.exitsem r) := by
  fun_cases signal r e <;> grind

theorem signal_answer : signal r e = some (.answer t ec) ↔ e = .joinReturns t (some r) ec := by
  fun_cases signal r e <;> grind

theorem signal_remove : signal r e = some .remove ↔ e = .destroy r := by
  fun_cases signal r e <;> grind

theorem signal_store : signal r e = some (.store ec) ↔ ∃ c, e = .setExitCode c r ec := by
  constructor
  · fun_cases signal r e <;> simp
  · rintro ⟨c, rfl⟩
    exact if_pos rfl

end

section

variable {s s' : State} {trace events : List Event} {ok : State → Act → Prop} {r : Ref}

/-- A signal stands in the word of a trace exactly if an event of the trace shows it. -/
theorem mem_signals {a : Signal Tid} :
    a ∈ trace.filterMap (signal r) ↔ ∃ e ∈ trace, signal r e = some a :=
  List.mem_filterMap

/-- Only the thread of a process stores its exit code. -/
theorem Move.stores (hs : Wf s) {t c : Tid} {i : Input} {ec : Int} (hm : Move s t i events s')
    (he : .setExitCode c r ec ∈ events) : r < s.nextRef ∧ (s.heap r).thread = some c := by
  cases hm with
  | exitSignal hc hpc h0 hr =>
    obtain ⟨rfl, rfl, -⟩ : c = t ∧ r = _ ∧ ec = _ := by simpa using he
    exact ⟨hs.runs_lt hr, hr.thread⟩
  | exitNow hc hpc h0 hr =>
    obtain ⟨rfl, rfl, -⟩ : c = t ∧ r = _ ∧ ec = _ := by simpa using he
    exact ⟨hs.runs_lt hr, hr.thread⟩
  | _ => grind [State.P_events]

/-- Whoever has stored an exit code in a PCB is the thread of that PCB. -/
theorem Wf.run_stores (hs : Wf s) (h : Run Process.step ok s trace s') {c : Tid} {ec : Int}
    (he : .setExitCode c r ec ∈ trace) : (s'.heap r).thread = some c := by
  have hinv : Wf s' ∧ ∀ c r ec, .setExitCode c r ec ∈ trace →
      r < s'.nextRef ∧ (s'.heap r).thread = some c := by
    apply h.traceInvariant
    · exact ⟨hs, by simp⟩
    · intro tr s₁ a events s₂ hinv _ hstep
      obtain ⟨hs₁, htr⟩ := hinv
      refine ⟨hs₁.step hstep, ?_⟩
      intro c r ec he
      have hbefore : r < s₁.nextRef ∧ (s₁.heap r).thread = some c := by
        rcases List.mem_append.mp he with he | he
        · exact htr c r ec he
        · exact (hs₁.move_of_event hstep he (by simp) (by simp)).stores hs₁ he
      have hkept := hs₁.step_kept hstep hbefore.1
      exact ⟨hkept.lt, hkept.thread c hbefore.2⟩
  exact (hinv.2 c r ec he).2

/-- The process of PCB `r` has not begun to exit. -/
def NotExiting (s : State) (r : Ref) : Prop :=
  ∀ c, (s.heap r).thread = some c → BeforeExit (s.thread c).control

theorem At.notExiting {σ : Stage Tid} (h : At s r σ) (hr : NotExiting s r) :
    σ = .idle ∨ ∃ q, σ = .awaited q := by
  cases hthread : (s.heap r).thread with
  | none => exact h.unforked hthread
  | some c => exact h.beforeExit hthread (hr c hthread)

section Join

variable {p : Tid} {pc : BitVec 32} {pID : Int}

/-- A call that passes the checks while `joinsem` is 0 records the join and puts its caller to
sleep. -/
theorem Move.join_waits (hm : Move s p (.call pc (.join pID)) events s')
    (hp : s.pcb pID = some r) (hparent : (s.thread p).processID = (s.heap r).parentID)
    (hvalue : (s.sem (.joinsem r)).value = 0) :
    events = [.instruction p, .access r, .joinWait p r, .wait p (.joinsem r)] ∧
      (s'.thread p).waiting = some (.joinsem r) ∧ s'.halted = s.halted ∧
      (s.thread p).control = .user ∧ (s'.heap r).thread = (s.heap r).thread := by
  cases hm with
  | joinMissing hc hpc hnone => rw [hp] at hnone; cases hnone
  | joinForeign hc hpc hp' hforeign =>
    obtain rfl : r = _ := Option.some.inj (hp.symm.trans hp')
    exact absurd hparent hforeign
  | joinWait hc hpc hp' =>
    obtain rfl : r = _ := Option.some.inj (hp.symm.trans hp')
    refine ⟨?_, ?_, rfl, hc, ?_⟩
    · rw [State.P_events, State.modifyPcb_sem, if_pos hvalue]
    · rw [State.P_waiting, State.modifyPcb_sem, if_pos rfl, if_pos hvalue]
    · exact s.modifyPcb_proj PCB.thread r (f := fun p => p.recordJoin.incNumWait)
        (fun _ => rfl) r

/-- After a join of a process that has not begun to exit its caller is awaited. -/
theorem Sound.join_awaits {g : Ref → Stage Tid} (h : Sound s g)
    (hstep : Process.step s ⟨p, .call pc (.join pID)⟩ = some (events, s'))
    (hrec : .joinWait p r ∈ events) (hr : NotExiting s r) :
    (s'.thread p).waiting = some (.joinsem r) ∧
      ∃ g', Sound s' g' ∧ g' r = .awaited p := by
  have hm := h.wf.move_of_event hstep hrec (by simp) (by simp)
  obtain ⟨-, -, pID', hjoins, hp, hparent⟩ := hm.join_checks hrec
  obtain rfl : pID = pID' := Option.some.inj hjoins
  have hAt := h.agrees.stage r (h.wf.slot pID r hp).2.2.1
  -- no unit is in `joinsem` before the process exits
  have hvalue : (s.sem (.joinsem r)).value = 0 := by
    rw [hAt.joinValue]
    rcases hAt.notExiting hr with heq | ⟨q, heq⟩ <;> rw [heq] <;> rfl
  obtain ⟨hevents, hwait, -⟩ := hm.join_waits hp hparent hvalue
  obtain ⟨g', hsound, hsig⟩ := h.advance hstep
  have hnext : (g r).next (.arrive p) = some (g' r) := by
    simpa [hevents, signal, List.filterMap_cons] using hsig r
  refine ⟨hwait, g', hsound, ?_⟩
  rcases hAt.notExiting hr with heq | ⟨q, heq⟩
  · rw [heq] at hnext
    exact (Option.some.inj hnext).symm
  · rw [heq] at hnext
    cases hnext

end Join

/-- If a thread has recorded its join before the process begins to exit, then in every
continuation it returns from `JoinWait` only after the thread of that process has stored its exit
code, what it reads is the code that was stored, and `Remove` starts only after it has read. -/
theorem join_exit_rendezvous {rawTable rawFrames : Nat → BitVec 32} {before after : List Event}
    {s₁ s₂ : State} {p : Tid} {pc : BitVec 32} {pID : Int}
    (hreach : Run step anyAct (initial rawTable rawFrames) before s)
    (hjoin : step s ⟨p, .call pc (.join pID)⟩ = some (events, s₁))
    (hrec : .joinWait p r ∈ events) (hfirst : NotExiting s r)
    (hrun : Run step anyAct s₁ after s₂) :
    (s₁.thread p).waiting = some (.joinsem r) ∧
    PrecededBy (· = .P p (.joinsem r)) (fun e => ∃ c ec, e = .setExitCode c r ec) after ∧
    (∀ v, PrecededBy (· = .getExitCode p r v) (fun e => ∃ c, e = .setExitCode c r v) after) ∧
    (∀ c ec, .setExitCode c r ec ∈ after → (s₂.heap r).thread = some c ∧
      ∀ v, .getExitCode p r v ∈ after → v = ec) ∧
    PrecededBy (· = .destroy r) (fun e => ∃ v, e = .getExitCode p r v) after := by
  obtain ⟨g, hsound, -⟩ := run_sound hreach
  obtain ⟨hwait, g₁, hsound₁, hawaited⟩ := hsound.join_awaits hjoin hrec hfirst
  obtain ⟨g₂, -, hsig⟩ := run_signals hrun hsound₁
  have hmeet : Rendezvous p (after.filterMap (signal r)) := by
    have hword := hsig r
    rw [hawaited] at hword
    exact rendezvous_of_run hword
  refine ⟨hwait, ?_, ?_, ?_, ?_⟩
  · intro front e rest heq he
    obtain ⟨e', hmem, a, ha, ec, rfl⟩ :=
      hmeet.take.of_filterMap front e rest heq ⟨_, signal_take.mpr he, rfl⟩
    obtain ⟨c, rfl⟩ := signal_store.mp ha
    exact ⟨_, hmem, c, ec, rfl⟩
  · intro v front e rest heq he
    obtain ⟨e', hmem, a, ha, rfl⟩ :=
      (hmeet.read v).of_filterMap front e rest heq ⟨_, signal_read.mpr he, rfl⟩
    exact ⟨e', hmem, signal_store.mp ha⟩
  · intro c ec hstore
    refine ⟨hsound₁.wf.run_stores hrun hstore, fun v hread => ?_⟩
    exact hmeet.code ec v (mem_signals.mpr ⟨_, hstore, signal_store.mpr ⟨c, rfl⟩⟩)
      (mem_signals.mpr ⟨_, hread, signal_read.mpr rfl⟩)
  · intro front e rest heq he
    obtain ⟨e', hmem, a, ha, v, rfl⟩ :=
      hmeet.remove.of_filterMap front e rest heq ⟨_, signal_remove.mpr he, rfl⟩
    exact ⟨e', hmem, v, signal_read.mp ha⟩

end

/-- The initial process starts a child and joins it, the child exits, and the two meet. -/
theorem join_exit_rendezvous_child :
    ∃ s s₁ s₂ before events after,
      Run step anyAct (initial (fun _ => 0) fun _ => 0) before s ∧
      step s ⟨0, .call 0 (.join 1)⟩ = some (events, s₁) ∧
      Run step anyAct s₁ after s₂ ∧ .getExitCode 0 1 0 ∈ after ∧ .destroy 1 ∈ after ∧
      PrecededBy (· = .getExitCode 0 1 0) (fun e => ∃ c, e = .setExitCode c 1 0) after ∧
      PrecededBy (· = .destroy 1) (fun e => ∃ v, e = .getExitCode 0 1 v) after := by
  let join : Act := ⟨0, .call 0 (.join 1)⟩
  let rest : List Act :=
    [⟨1, .call 0 (.exit 0)⟩, ⟨0, .go⟩, ⟨0, .go⟩, ⟨1, .go⟩, ⟨1, .go⟩]
  obtain ⟨before, s, hreach, hthread, hcontrol, hjoin⟩ :=
    run_reaches step (initial (fun _ => 0) fun _ => 0)
      (fun _ s => (s.heap 1).thread = some 1 ∧ (s.thread 1).control = .user ∧
        ((step s join).any fun r => .joinWait 0 1 ∈ r.1 ∧
          ((execute step r.2 rest).any fun q =>
            .getExitCode 0 1 0 ∈ q.1 ∧ .destroy 1 ∈ q.1) = true) = true)
      (startActs 0 Frames.smallHeader ++ execActs 0 "child" ++ startActs 1 Frames.smallHeader)
      (by decide +kernel)
  obtain ⟨⟨events, s₁⟩, hstep, htest⟩ := (Option.any_eq_true _ _).mp hjoin
  obtain ⟨hrec, hrest⟩ := of_decide_eq_true htest
  obtain ⟨⟨after, s₂⟩, hexec, htest⟩ := (Option.any_eq_true _ _).mp hrest
  obtain ⟨hread, hdestroy⟩ := of_decide_eq_true htest
  have hfirst : NotExiting s 1 := by
    intro c hc
    obtain rfl : 1 = c := Option.some.inj (hthread.symm.trans hc)
    rw [hcontrol]
    exact user_beforeExit
  have hrun : Run step anyAct s₁ after s₂ := run_of_execute hexec (allowed_anyAct _ _)
  obtain ⟨-, -, hvalue, -, hremove⟩ := join_exit_rendezvous hreach hstep hrec hfirst hrun
  exact ⟨s, s₁, s₂, before, events, after, hreach, hstep, hrun, hread, hdestroy, hvalue 0,
    hremove⟩

end Nachos.Process
