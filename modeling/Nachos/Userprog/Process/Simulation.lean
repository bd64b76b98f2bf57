import Nachos.Userprog.Process.ExitSide

/-!
# Every run keeps to the handshake

`Move.advances` collects the lemmas about single steps, and `run_signals` follows whole runs: the
signals about every PCB are accepted by the handshake, and the state reached agrees with the
stages they lead to.
-/

namespace Nachos.Process

open Transition Handshake

section Run

variable {s s' : State} {t : Tid} {i : Input} {g : Ref → Stage Tid} {events : List Event} {a : Act}
  {ok : State → Act → Prop} {trace : List Event}

theorem P_signals {id : SemId} {c : Control} (hid : Foreign id) (r : Ref) :
    ∀ e ∈ (s.P t id c).1, signal r e = none := by
  intro e he
  rw [State.P_events] at he
  obtain rfl := List.mem_singleton.mp he
  cases id with
  | joinsem r' => exact absurd rfl (hid r').1
  | exitsem r' => exact absurd rfl (hid r').2
  | _ => split <;> rfl

/-- Every move keeps to the handshakes. -/
theorem Move.advances (h : Agrees s g) (hs : Wf s) (hq : Queued s) (hready : s.ready t)
    (hw : (s.thread t).waiting = none) (hm : Move s t i events s') :
    Advances g events s' := by
  have hw' : ∀ r, (s.thread t).waiting ≠ some (.joinsem r) := by simp [hw]
  have hhalt : Agrees s.halt g :=
    ⟨fun r hr => (h.stage r hr).frame hs hr rfl rfl rfl (fun hp => hp) fun _ => .of_eq rfl,
      h.fresh⟩
  have hP : ∀ id c pre, Foreign id → Plain (s.thread t).control → Plain c →
      (∀ r, ∀ e ∈ pre, signal r e = none) →
      Advances g (pre ++ (s.P t id c).1) (s.P t id c).2 := by
    intro id c pre hid hc hc' hpre
    refine .aside (agrees_P h hs hid hw' hc hc') fun r e he => ?_
    exact (List.mem_append.mp he).elim (hpre r e) (P_signals hid r e)
  have hV : ∀ id c events, Foreign id → Plain (s.thread t).control → Plain c →
      (∀ r, ∀ e ∈ events, signal r e = none) →
      Advances g events ((s.V t id).2.goto t c) := by
    intro id c events hid hc hc' hsig
    exact .aside (agrees_V h hs hq hid hw hc hc') hsig
  have hlock : Foreign .addrLock := by simp [Foreign]
  have hbmsem : Foreign .bmsem := by simp [Foreign]
  cases hm with
  | stop => exact .aside hhalt (by simp)
  | exitHalt => exact .aside hhalt (by simp [signal])
  | deleteAgain => exact .aside hhalt (by simp [signal])
  | @boot noffH hc =>
    exact hP _ _ [] hlock (by simp [Plain, BeforeExit, hc]) (by simp [Plain, BeforeExit])
      (by simp)
  | @start noffH pID r hc hr =>
    exact hP _ _ [.access r] hlock (by simp [Plain, BeforeExit, hc])
      (by simp [Plain, BeforeExit]) (by simp [signal])
  | @allocate noffH hc hfits =>
    refine .aside (agrees_V h hs hq hlock hw ?_ ?_) (by simp [signal]) <;>
      simp [Plain, BeforeExit, hc]
  | refuse hc hfull =>
    exact hV _ _ _ hlock (by simp [Plain, BeforeExit, hc]) (by simp [Plain, BeforeExit])
      (by simp [signal])
  | fallThrough hc =>
    exact hV _ _ _ hlock (by simp [Plain, BeforeExit, hc]) (by simp [Plain, BeforeExit])
      (by simp [signal])
  | @load sp hc =>
    refine .aside ⟨fun r hr => ?_, h.fresh⟩ (by simp [signal])
    refine (h.stage r hr).frame hs hr rfl rfl rfl (fun hp => hp) fun u => ?_
    rcases eq_or_ne u t with rfl | hu
    · refine .plain ?_ (hw' r) ?_ ?_ ?_ <;>
        simp [State.modifyThread, Plain, BeforeExit, hc, hw]
    · exact .of_eq (Function.update_of_ne hu _ _)
  | @exec pc filename hc hpc =>
    exact hP _ _ [.instruction t] hbmsem (by simp [Plain, BeforeExit, hc])
      (by simp [Plain, BeforeExit]) (by simp [signal])
  | execFails hc =>
    exact hV _ _ _ hbmsem (by simp [Plain, BeforeExit, hc]) (by simp [Plain, BeforeExit])
      (by simp [signal])
  | reserve hc hi hfree hslot =>
    exact .aside (agrees_reserve h hs hq hw hc hfree) (by simp [signal])
  | fork hc => exact .aside (agrees_fork h hs hready.lt hw hc) (by simp [signal])
  | @unlock r pID hc =>
    exact hV (.mutex r) _ _ (by simp [Foreign]) (by simp [Plain, BeforeExit, hc])
      (by simp [Plain, BeforeExit]) (by simp [signal])
  | execDone hc =>
    exact hV _ _ _ hbmsem (by simp [Plain, BeforeExit, hc]) (by simp [Plain, BeforeExit])
      (by simp [signal])
  | joinMissing => exact .aside h (by simp [signal])
  | joinForeign => exact .aside h (by simp [signal])
  | joinWait hc hpc hp hparent => exact advances_joinWait h hs hq hready.lt hw hc hp hparent
  | joinAbandon hc hp hec => exact advances_abandon h hs hw hc hp hec
  | joinGrant hc hp hec => exact advances_grant h hs hq hw hc hp hec
  | exitSignal hc hpc h0 hr hq' hjoin => exact advances_exitSignal h hs hq hw hc hr hjoin
  | @exitNow pc ec r q bm hc hpc h0 hr hq' hjoin hbm =>
    have hquiet : Quiet t s (s.exitStored r q ec) := quiet_exitStored hs (by simp [hc]) r q ec
    exact advances_exitNow h hs hw hc hr hjoin (hquiet.wf hs hready.lt (by simp [hc]))
  | exitWait hc hr => exact advances_exitWait h hs hr (.inl hc) hw'
  | remove hc hr hbm => exact advances_remove h hs hw hc hr

/-- Every step keeps to the handshakes. -/
theorem Agrees.step (h : Agrees s g) (hs : Wf s) (hq : Queued s)
    (hstep : Process.step s a = some (events, s')) : Advances g events s' := by
  have hrun := hs.running hstep
  obtain ⟨hready, ⟨id, hw, -, rfl, rfl⟩ | ⟨hw, hm⟩⟩ := hs.step_cases hstep
  · -- another pass through the loop of `P`
    have hwait := hq.wait a.thread id hw
    cases id with
    | bmsem =>
      obtain ⟨filename, hc⟩ := hwait
      refine .aside (agrees_P h hs (by simp [Foreign]) (by simp [hw]) ?_ ?_)
        (P_signals (by simp [Foreign])) <;> simp [Plain, BeforeExit, hc]
    | addrLock =>
      obtain ⟨noffH, hc⟩ := hwait
      refine .aside (agrees_P h hs (by simp [Foreign]) (by simp [hw]) ?_ ?_)
        (P_signals (by simp [Foreign])) <;> simp [Plain, BeforeExit, hc]
    | joinsem r => exact advances_take h hs hq hready hw
    | exitsem r =>
      obtain ⟨hr, ⟨ec, hc⟩, hthread⟩ := hwait
      have hlive : (s.heap r).destroyed = false := by
        cases hd : (s.heap r).destroyed with
        | false => rfl
        | true => exact absurd ((hs.owner r _ hr hthread).2.2.2.2.mp hd) hrun
      rw [hc]
      exact advances_exitWait h hs (hs.runs_of_thread hr hlive hthread) (.inr ⟨hc, hw⟩)
        (by simp [hw])
    | mutex r => exact hwait.elim
  · exact hm.advances h hs hq hready hw

theorem initial_agrees (rawTable rawFrames : Nat → BitVec 32) :
    Agrees (initial rawTable rawFrames) fun _ => .idle := by
  refine ⟨fun r hr => ?_, fun _ _ => rfl⟩
  obtain rfl : r = 0 := Nat.lt_one_iff.mp hr
  refine ⟨rfl, rfl, by simp, fun _ => rfl, by simp, by simp, by simp [initial, PCB.new], ?_,
    fun _ => .inl rfl, ?_, by simp, by simp, ?_⟩
  · intro c hc
    cases hc
  · intro t ht
    cases ht
  · intro t _ hc
    simp only [initial] at hc
    split at hc <;> cases hc

/-- The state agrees with the stages `g` and keeps the other invariants. -/
structure Sound (s : State) (g : Ref → Stage Tid) : Prop where
  wf : Wf s
  queued : Queued s
  agrees : Agrees s g

theorem initial_sound (rawTable rawFrames : Nat → BitVec 32) :
    Sound (initial rawTable rawFrames) fun _ => .idle :=
  ⟨initial_wf _ _, initial_queued _ _, initial_agrees _ _⟩

/-- A step, with the stages it leads to. -/
theorem Sound.advance (h : Sound s g) (hstep : Process.step s a = some (events, s')) :
    ∃ g', Sound s' g' ∧
      ∀ r, Monitor.run Stage.next (g r) (events.filterMap (signal r)) = some (g' r) := by
  obtain ⟨g', hagrees, hsig⟩ := h.agrees.step h.wf h.queued hstep
  exact ⟨g', ⟨h.wf.step hstep, h.queued.step h.wf hstep, hagrees⟩, hsig⟩

/-- In every run, the signals about every PCB are those of the handshake. -/
theorem run_signals (h : Run step ok s trace s') (hs : Sound s g) :
    ∃ g', Sound s' g' ∧
      ∀ r, Monitor.run Stage.next (g r) (trace.filterMap (signal r)) = some (g' r) := by
  apply h.traceInvariant
  · exact ⟨g, hs, fun r => rfl⟩
  · intro tr s₁ a events s₂ hinv _ hstep
    obtain ⟨g₁, hs₁, htrace⟩ := hinv
    obtain ⟨g₂, hs₂, hevents⟩ := hs₁.advance hstep
    refine ⟨g₂, hs₂, fun r => ?_⟩
    rw [List.filterMap_append, Monitor.run_append, htrace, Option.bind_some, hevents]

/-- Every reachable state is sound for the stages its trace leads to. -/
theorem run_sound {rawTable rawFrames : Nat → BitVec 32}
    (h : Run step ok (initial rawTable rawFrames) trace s) :
    ∃ g, Sound s g ∧
      ∀ r, Monitor.run Stage.next .idle (trace.filterMap (signal r)) = some (g r) :=
  run_signals h (initial_sound _ _)

end Run

end Nachos.Process
