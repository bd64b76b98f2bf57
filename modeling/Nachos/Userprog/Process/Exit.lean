import Nachos.Userprog.Process.OutOfMemory
import Nachos.Userprog.Process.Waiters

/-!
# The Exit system call

`handle_SC_Exit` returns at once for every status other than 0; `ExceptionHandler` then increments
the program counter and the program runs on behind its `Exit`. `sysStep` is the process system with
this handler in front of `ExitUpdate`. With status 0 the process is on its way out for good: the
handshake about its PCB is in one of the stages of `OnWayOut`, which the steps of the process that
waits for it and its own steps lead through to the removal.
-/

namespace Nachos.Process

open Transition Handshake State

/-- What an `Exit(status)` of thread `t` should amount to: the step goes from `s` to `s'`. -/
structure Exits (s : State) (t : Tid) (status : Int) (events : List Event) (s' : State) :
    Prop where
  /-- The program is not resumed. -/
  quiet : ∀ later s₁, Run sysStep anyAct s' later s₁ → .instruction t ∉ later
  halts : (s.thread t).processID = 0 → s'.halted = true
  leaves : (s.thread t).processID ≠ 0 → ∃ r, s.Runs t r ∧
    .setExitCode t r status ∈ events ∧ (s'.heap r).exitcode = status ∧
    -- a parent asleep in `JoinWait` is ready again
    (∀ p, (s.thread p).waiting = some (.joinsem r) → (s'.thread p).blocked = false) ∧
    -- the process has been removed, or it still can be
    (∀ later s₁, Run sysStep anyAct s' later s₁ → s₁.halted = false →
      .destroy r ∈ events ++ later ∨ ∃ last s₂, Run sysStep anyAct s₁ last s₂ ∧
        .destroy r ∈ last ∧ Freed s s₂ r) ∧
    -- its removal frees the slot and the frames it had when it called `Exit`
    (.destroy r ∈ events → Freed s s' r) ∧
    ∀ later s₁ a ev s₂, Run sysStep anyAct s' later s₁ → sysStep s₁ a = some (ev, s₂) →
      .destroy r ∈ ev → Freed s s₂ r

section

variable {s s' : State} {t c : Tid} {r : Ref} {g : Ref → Stage Tid} {events : List Event} {a : Act}
  {σ σ' : Stage Tid} {p : Tid} {ec : Int} {s₀ : State} {trace : List Event}
  {word : List (Signal Tid)} {i : Input} {later : List Event}

/-! ## The way out -/

/-- The stages behind an exit with code 0. -/
def OnWayOut : Stage Tid → Prop
  | .offered _ ec | .taken _ ec | .answered _ ec => ec = 0
  | .released _ | .granted | .passed | .removed => True
  | .idle | .awaited _ | .stored _ | .abandoned _ => False

/-- How many steps the way out still takes. -/
def wayOut : Stage Tid → Nat
  | .offered _ _ => 4
  | .taken _ _ => 3
  | .granted => 2
  | .passed => 1
  | _ => 0

theorem onWayOut_next {a : Signal Tid} (h : OnWayOut σ) (ha : σ.next a = some σ') :
    OnWayOut σ' := by
  cases accepts_of_next ha with
  | abandon p hec => exact absurd h hec
  | late => exact h
  | _ => simp_all [OnWayOut]

theorem onWayOut_run (h : OnWayOut σ) (hrun : Monitor.run Stage.next σ word = some σ') :
    OnWayOut σ' := by
  apply Monitor.run_induction hrun
  · exact h
  · intro _ _ _ _ hw ha
    exact onWayOut_next hw ha

/-- The waiting parent takes the unit that the exiting process has put into `joinsem`. -/
theorem Sound.step_take (h : Sound s g) (hhalt : s.halted = false) (hr : r < s.nextRef)
    (hstage : g r = .offered p ec) :
    ∃ s', Process.step s ⟨p, .go⟩ = some ([.P p (.joinsem r)], s') := by
  have hAt := h.agrees.stage r hr
  have hw := hAt.awaiter p (.inr ⟨ec, hstage⟩)
  have hawake : (s.thread p).blocked = false := by
    rcases hAt.waiter p hw with ⟨heq, -⟩ | ⟨_, -, hb⟩ | ⟨hlate, -⟩
    · rw [hstage] at heq
      cases heq
    · exact hb
    · rw [hstage] at hlate
      cases hlate
  obtain ⟨-, hc, -⟩ := h.queued.wait p _ hw
  have hborn := h.wf.born (t := p) (by simp [hc])
  refine ⟨(s.P p (.joinsem r) (s.thread p).control).2, ?_⟩
  rw [step_retry ⟨hhalt, hawake, hborn⟩ hw]
  have hevents : (s.P p (.joinsem r) (s.thread p).control).1 = [.P p (.joinsem r)] := by
    rw [P_events, if_neg]
    rw [hAt.joinValue, hstage]
    exact one_ne_zero
  rw [← hevents]

/-- It then reads exit code 0 and signals the process back. -/
theorem Sound.step_answer (h : Sound s g) (hhalt : s.halted = false) (hr : r < s.nextRef)
    (hstage : g r = .taken p 0) :
    ∃ s', Process.step s ⟨p, .go⟩ = some
      ([.getExitCode p r 0, .V p (.exitsem r), .joinReturns p (some r) 0], s') := by
  have hAt := h.agrees.stage r hr
  obtain ⟨hc, hw, -⟩ := hAt.taker p 0 hstage
  have hcode := hAt.code p 0 (.inr hstage)
  obtain ⟨-, hslot⟩ := hAt.slot h.wf hr (by simp [hstage])
  have hborn := h.wf.born (t := p) (by simp [hc])
  refine ⟨((s.V p (.exitsem r)).2.goto p .user), ?_⟩
  rw [step_resume ⟨hhalt, h.queued.awake hw, hborn⟩ hw, hc]
  simp [State.resume, State.joinUpdateRest, hslot, hcode, State.V]

/-- No step without a choice from outside stops the machine, but a second `delete executable`. -/
theorem Move.go_halted (hm : Move s t .go events s') (hclose : .close t ∉ events) :
    s'.halted = s.halted := by
  cases hm with
  | deleteAgain => exact absurd (by simp) hclose
  | _ => rfl

theorem Wf.go_halted (hs : Wf s) (hstep : Process.step s ⟨t, .go⟩ = some (events, s'))
    (hclose : .close t ∉ events) : s'.halted = s.halted := by
  obtain ⟨-, ⟨id, -, -, -, rfl⟩ | ⟨-, hm⟩⟩ := hs.step_cases hstep
  · rfl
  · exact hm.go_halted hclose

/-- On the way out somebody can always take the next step. -/
theorem Sound.step_out (h : Sound s g) (hhalt : s.halted = false) (hr : r < s.nextRef)
    (hthread : (s.heap r).thread = some c) (hout : OnWayOut (g r)) (hne : g r ≠ .removed) :
    ∃ u events s' g', Process.step s ⟨u, .go⟩ = some (events, s') ∧ s'.halted = false ∧
      Sound s' g' ∧ OnWayOut (g' r) ∧ wayOut (g' r) < wayOut (g r) := by
  have hnext : ∀ {u events s'} {σ : Stage Tid},
      Process.step s ⟨u, .go⟩ = some (events, s') → .close u ∉ events →
      Monitor.run Stage.next (g r) (events.filterMap (signal r)) = some σ →
      wayOut σ < wayOut (g r) →
      ∃ u events s' g', Process.step s ⟨u, .go⟩ = some (events, s') ∧ s'.halted = false ∧
        Sound s' g' ∧ OnWayOut (g' r) ∧ wayOut (g' r) < wayOut (g r) := by
    intro u events s' σ hstep hclose hσ hlt
    obtain ⟨g', hsound, hsig⟩ := h.advance hstep
    obtain rfl : σ = g' r := Option.some.inj (hσ.symm.trans (hsig r))
    exact ⟨u, events, s', g', hstep, (h.wf.go_halted hstep hclose).trans hhalt, hsound,
      onWayOut_run hout hσ, hlt⟩
  obtain ⟨hstored, hanswered, hreleased⟩ := (h.agrees.stage r hr).main
  cases hstage : g r with
  | offered p ec =>
    obtain ⟨s', hstep⟩ := h.step_take hhalt hr hstage
    rw [hstage] at hnext
    exact hnext hstep (by simp) (by simp [signal, Stage.next]; rfl) (by simp [wayOut])
  | taken p ec =>
    obtain rfl : ec = 0 := by simpa [hstage, OnWayOut] using hout
    obtain ⟨s', hstep⟩ := h.step_answer hhalt hr hstage
    rw [hstage] at hnext
    exact hnext hstep (by simp) (by simp [signal, Stage.next]; rfl) (by simp [wayOut])
  | granted =>
    have hstep := h.step_pass hhalt hr hthread hstage
    rw [hstage] at hnext
    exact hnext hstep (by simp) (by simp [signal, Stage.next]; rfl) (by simp [wayOut])
  | passed =>
    obtain ⟨s', hstep⟩ := h.step_remove hhalt hr hthread hstage
    rw [hstage] at hnext
    exact hnext hstep (by simp) (by simp [signal, Stage.next]; rfl) (by simp [wayOut])
  | removed => exact absurd hstage hne
  | answered p ec => exact absurd hstage (hanswered p ec)
  | released p => exact absurd hstage (hreleased p)
  | stored ec => exact absurd hstage (hstored ec)
  | idle => simp [hstage, OnWayOut] at hout
  | awaited p => simp [hstage, OnWayOut] at hout
  | abandoned ec => simp [hstage, OnWayOut] at hout

/-! ## After an exit with code 0 -/

/-- The process of PCB `r` and thread `t` has called `Exit(0)` in `s₀`; `trace` is what has
happened since. -/
structure Departing (t : Tid) (r : Ref) (s₀ : State) (trace : List Event) (s : State) : Prop where
  sound : ∃ g, Sound s g ∧ OnWayOut (g r)
  lt : r < s.nextRef
  thread : (s.heap r).thread = some t
  pid : (s.heap r).pid = (s₀.heap r).pid
  space : (s.heap r).destroyed = false → (s.thread t).space = (s₀.thread t).space
  quiet : .instruction t ∉ trace
  gone : (s.heap r).destroyed = true → .destroy r ∈ trace

/-- A process on its way out is not in its program. -/
theorem Departing.not_user (h : Departing t r s₀ trace s) : (s.thread t).control ≠ .user := by
  obtain ⟨g, hsound, hout⟩ := h.sound
  have hown := (hsound.agrees.stage r h.lt).owner t h.thread
  intro huser
  cases hstage : g r <;> simp_all [OwnerAt, Exiting, OnWayOut]

/-- It is in `ExitUpdate`, before or after `ExitWait`. -/
theorem Sound.departing_control (h : Sound s g) (hr : r < s.nextRef)
    (hthread : (s.heap r).thread = some t) (hlive : (s.heap r).destroyed = false)
    (hout : OnWayOut (g r)) :
    (s.thread t).control = .exitReleased 0 ∨ (s.thread t).control = .removing 0 := by
  have hAt := h.agrees.stage r hr
  have hown := hAt.owner t hthread
  have hne : g r ≠ .removed := by
    intro heq
    rw [hAt.dead.mpr heq] at hlive
    cases hlive
  cases hstage : g r <;> simp_all [OwnerAt, Exiting, OnWayOut]
  all_goals tauto

/-- The instruction an event tells of is one of the program of the thread that steps. -/
theorem Move.instruction_user (hm : Move s t i events s') (he : .instruction c ∈ events) :
    c = t ∧ (s.thread t).control = .user := by
  cases hm <;> grind [P_events]

theorem Wf.step_instruction (hs : Wf s) (hstep : Process.step s a = some (events, s'))
    (he : .instruction c ∈ events) : c = a.thread ∧ (s.thread c).control = .user := by
  obtain ⟨rfl, hc⟩ := (hs.move_of_event hstep he (by simp) (by simp)).instruction_user he
  exact ⟨rfl, hc⟩

/-- A process reaches stage `removed` only by its removal. -/
theorem remove_mem_of_run (hne : σ ≠ .removed) (hrun : Monitor.run Stage.next σ word = some σ') :
    σ' = .removed → .remove ∈ word := by
  apply Monitor.run_induction hrun
  · intro h
    exact absurd h hne
  · intro w σ₁ a σ₂ hw ha h
    subst h
    cases accepts_of_next ha with
    | late => simpa using hw rfl
    | _ => simp

theorem Wf.step_destroyed (h : Sound s g) (hstep : Process.step s a = some (events, s'))
    (hr : r < s.nextRef) (hlive : (s.heap r).destroyed = false)
    (hdead : (s'.heap r).destroyed = true) : .destroy r ∈ events := by
  obtain ⟨g', hsound, hsig⟩ := h.advance hstep
  have hstage : g r ≠ .removed := by
    intro heq
    rw [(h.agrees.stage r hr).dead.mpr heq] at hlive
    cases hlive
  have hgone := (hsound.agrees.stage r (h.wf.step_kept hstep hr).lt).dead.mp hdead
  obtain ⟨e, he, hsignal⟩ := mem_signals.mp (remove_mem_of_run hstage (hsig r) hgone)
  exact signal_remove.mp hsignal ▸ he

/-- The own steps of a process on its way out do not touch its address space before its
removal. -/
theorem Move.departing_space (hm : Move s t i events s')
    (hc : (s.thread t).control = .exitReleased ec ∨ (s.thread t).control = .removing ec)
    (hthread : (s.heap r).thread = some t) (hr : r < s.nextRef) (hs : Wf s)
    (hlive : (s'.heap r).destroyed = false) : (s'.thread t).space = (s.thread t).space := by
  rcases hc with hc | hc
  · cases hm with
    | stop => rfl
    | exitWait => simp
    | _ hc' => exact absurd (hc.symm.trans hc') (by simp)
  · cases hm with
    | stop => rfl
    | @remove _ r' bm _ hr' =>
      have heq : r = r' := hs.thread_unique hr' (by simp [hc]) hr hthread
      rw [heq, removed_heap, if_pos rfl] at hlive
      cases hlive
    | _ hc' => exact absurd (hc.symm.trans hc') (by simp)

theorem Departing.step (h : Departing t r s₀ trace s) (hstep : sysStep s a = some (events, s')) :
    Departing t r s₀ (trace ++ events) s' := by
  obtain ⟨hstep, -⟩ | ⟨huser, -, -, rfl, rfl⟩ := sysStep_cases hstep
  · obtain ⟨g, hsound, hout⟩ := h.sound
    obtain ⟨g', hsound', hsig⟩ := hsound.advance hstep
    have hkept := hsound.wf.step_kept hstep h.lt
    refine ⟨⟨g', hsound', onWayOut_run hout (hsig r)⟩, hkept.lt, hkept.thread t h.thread,
      hkept.pid.trans h.pid, fun hlive => ?_, ?_, fun hdead => ?_⟩
    · have hlive₀ : (s.heap r).destroyed = false :=
        Bool.eq_false_iff.mpr fun hd => Bool.eq_false_iff.mp hlive (hkept.destroyed hd)
      rw [← h.space hlive₀]
      rcases eq_or_ne t a.thread with rfl | hne
      · have hcontrol := hsound.departing_control h.lt h.thread hlive₀ hout
        obtain ⟨-, ⟨id, -, -, -, rfl⟩ | ⟨-, hm⟩⟩ := hsound.wf.step_cases hstep
        · simp
        · exact hm.departing_space hcontrol h.thread h.lt hsound.wf hlive
      · have hborn := (hsound.wf.owner r t h.lt h.thread).2.2.1
        exact (hsound.wf.step_others hstep hne (Nat.ne_of_lt hborn)).2.2.1
    · intro hmem
      rcases List.mem_append.mp hmem with hmem | hmem
      · exact h.quiet hmem
      · exact h.not_user (hsound.wf.step_instruction hstep hmem).2
    · cases hd : (s.heap r).destroyed with
      | true => exact List.mem_append_left _ (h.gone hd)
      | false => exact List.mem_append_right _ (Wf.step_destroyed hsound hstep h.lt hd hdead)
  · have hne : t ≠ a.thread := fun heq => h.not_user (heq ▸ huser)
    exact ⟨h.sound, h.lt, h.thread, h.pid, h.space, by simp [h.quiet, hne],
      fun hd => List.mem_append_left _ (h.gone hd)⟩

theorem Departing.run (h : Departing t r s₀ trace s) (hrun : Run sysStep anyAct s later s') :
    Departing t r s₀ (trace ++ later) s' := by
  apply hrun.traceInvariant
  · simpa using h
  · intro tr s₁ a events s₂ hinv _ hstep
    simpa using hinv.step hstep

/-- A step that removes the process frees what it had when it called `Exit`. -/
theorem Departing.frees (h : Departing t r s₀ trace s) (hthread : (s₀.heap r).thread = some t)
    (hstep : sysStep s a = some (events, s')) (hd : .destroy r ∈ events) : Freed s₀ s' r := by
  obtain ⟨hstep, -⟩ | ⟨-, -, -, rfl, -⟩ := sysStep_cases hstep
  · obtain ⟨g, hsound, -⟩ := h.sound
    have hlive := ((hsound.wf.move_of_event hstep hd (by simp) (by simp)).destroys hd).1.live
    obtain ⟨hslot, hframes⟩ := hsound.wf.step_frees hstep hd
    refine ⟨h.pid ▸ hslot, fun c sp hc hsp => ?_⟩
    obtain rfl : t = c := Option.some.inj (hthread.symm.trans hc)
    exact hframes t sp h.thread ((h.space hlive).trans hsp)
  · simp at hd

/-- As long as the machine runs, the process has been removed or can be. -/
theorem Departing.canLeave (h : Departing t r s₀ trace s) (hthread : (s₀.heap r).thread = some t)
    (hhalt : s.halted = false) (hlive : (s.heap r).destroyed = false) :
    ∃ last s₂, Run sysStep anyAct s last s₂ ∧ .destroy r ∈ last ∧ Freed s₀ s₂ r := by
  obtain ⟨g, hsound, hout⟩ := h.sound
  -- induction on the number of steps to the removal
  generalize hn : wayOut (g r) = n
  induction n using Nat.strong_induction_on generalizing s trace g with
  | _ n ih =>
    have hne : g r ≠ .removed := by
      intro heq
      rw [(hsound.agrees.stage r h.lt).dead.mpr heq] at hlive
      cases hlive
    obtain ⟨u, events, s₁, g₁, hstep, hhalt₁, hsound₁, hout₁, hless⟩ :=
      hsound.step_out hhalt h.lt h.thread hout hne
    have hsys : sysStep s ⟨u, .go⟩ = some (events, s₁) := hstep
    have hrun : Run sysStep anyAct s ([] ++ events) s₁ := .snoc .refl trivial hsys
    cases hdead : (s₁.heap r).destroyed with
    | true =>
      have hd := Wf.step_destroyed hsound hstep h.lt hlive hdead
      exact ⟨_, s₁, hrun, by simpa using hd, h.frees hthread hsys hd⟩
    | false =>
      obtain ⟨last, s₂, hlast, hd, hfreed⟩ :=
        ih _ (hn ▸ hless) (h.step hsys) hhalt₁ hdead g₁ hsound₁ hout₁ rfl
      exact ⟨_, s₂, hrun.append hlast, by simp [hd], hfreed⟩

/-- A thread in its program has not begun to exit, and only its parent can wait for it. -/
theorem Sound.user_stage (h : Sound s g) (hr : s.Runs t r) (hc : (s.thread t).control = .user) :
    g r = .idle ∨ ∃ p, g r = .awaited p :=
  (h.agrees.stage r (h.wf.runs_lt hr)).beforeExit hr.thread (hc ▸ user_beforeExit)

/-- A thread in its program that has been joined has its parent waiting. -/
theorem Sound.joined_stage (h : Sound s g) (hr : s.Runs t r) (hc : (s.thread t).control = .user)
    (hjoin : (s.heap r).joinStatus ≠ -1) : ∃ p, g r = .awaited p := by
  rcases h.user_stage hr hc with hidle | hawaited
  · exact absurd ((h.agrees.stage r (h.wf.runs_lt hr)).unjoined hidle) hjoin
  · exact hawaited

/-- Nobody waits for a thread in its program that has not been joined. -/
theorem Sound.unjoined_stage (h : Sound s g) (hr : s.Runs t r)
    (hc : (s.thread t).control = .user) (hjoin : (s.heap r).joinStatus = -1) : g r = .idle := by
  rcases h.user_stage hr hc with hidle | ⟨p, hawaited⟩
  · exact hidle
  · exact absurd hjoin ((h.agrees.stage r (h.wf.runs_lt hr)).joinedBy p hawaited)

theorem At.not_waiting_of_idle (h : At s r .idle) : (s.thread p).waiting ≠ some (.joinsem r) := by
  intro hp
  rcases h.waiter p hp with ⟨heq, -⟩ | ⟨ec, heq, -⟩ | ⟨hlate, -⟩
  · cases heq
  · cases heq
  · cases hlate

/-- Who waits for a process that has signalled is ready again. -/
theorem At.awake_of_offered {u : Tid} (h : At s r (.offered p ec))
    (hu : (s.thread u).waiting = some (.joinsem r)) : (s.thread u).blocked = false := by
  rcases h.waiter u hu with ⟨heq, -⟩ | ⟨_, -, hb⟩ | ⟨hlate, -⟩
  · cases heq
  · exact hb
  · cases hlate

/-- The `Exit(0)` of a process other than the initial one. -/
theorem Sound.exit_departs {pc : BitVec 32} (h : Sound s g) (h0 : (s.thread t).processID ≠ 0)
    (hstep : Process.step s ⟨t, .call pc (.exit 0)⟩ = some (events, s')) :
    ∃ r rest, s.Runs t r ∧ events = .instruction t :: rest ∧ .setExitCode t r 0 ∈ rest ∧
      (s'.heap r).exitcode = 0 ∧ Departing t r s rest s' ∧
      ∀ p, (s.thread p).waiting = some (.joinsem r) → (s'.thread p).blocked = false := by
  obtain ⟨g', hsound, hsig⟩ := h.advance hstep
  obtain ⟨-, ⟨id, -, hgo, -⟩ | ⟨hw, hm⟩⟩ := h.wf.step_cases hstep
  · cases hgo
  cases hm with
  | exitHalt _ _ hzero => exact absurd hzero h0
  | @exitSignal _ _ r q hc hpc _ hr hq hjoin =>
    have hkept := h.wf.step_kept hstep (h.wf.runs_lt hr)
    obtain ⟨p, hstage⟩ := h.joined_stage hr hc hjoin
    have hoffered : g' r = .offered p 0 := by
      have hword := hsig r
      rw [hstage] at hword
      simpa [signal, List.filterMap_cons, Stage.next] using hword.symm
    have hat := hsound.agrees.stage r hkept.lt
    rw [hoffered] at hat
    refine ⟨r, _, hr, rfl, by simp, hat.code p 0 (.inl rfl), ?_, fun u hu => ?_⟩
    · have hout : OnWayOut (g' r) := by rw [hoffered]; rfl
      refine ⟨⟨g', hsound, hout⟩, hkept.lt, hkept.thread t hr.thread, hkept.pid, fun _ => ?_,
        by simp, fun hdead => ?_⟩
      · rw [goto_space, V_space]
        rfl
      · cases hat.dead.mp hdead
    · refine hat.awake_of_offered ?_
      rw [goto_waiting, V_waiting]
      exact hu
  | @exitNow _ _ r q bm hc hpc _ hr hq hjoin hbm =>
    have hkept := h.wf.step_kept hstep (h.wf.runs_lt hr)
    have hidle := h.unjoined_stage hr hc hjoin
    have hremoved : g' r = .removed := by
      have hword := hsig r
      rw [hidle] at hword
      simpa [signal, List.filterMap_cons, Stage.next] using hword.symm
    refine ⟨r, _, hr, rfl, by simp, ?_, ?_, fun u hu => ?_⟩
    · rw [removed_heap, if_pos rfl]
      show ((s.exitStored r q 0).heap r).exitcode = 0
      unfold State.exitStored
      rw [modifyPcb_proj PCB.exitcode _ q (f := PCB.decNumWait) (fun _ => rfl)]
      simp [State.modifyPcb, PCB.setExitCode]
    · have hout : OnWayOut (g' r) := by rw [hremoved]; trivial
      refine ⟨⟨g', hsound, hout⟩, hkept.lt, hkept.thread t hr.thread, hkept.pid, fun hlive => ?_,
        by simp, fun _ => by simp⟩
      rw [(hsound.agrees.stage r hkept.lt).dead.mpr hremoved] at hlive
      cases hlive
    · have hat := h.agrees.stage r (h.wf.runs_lt hr)
      rw [hidle] at hat
      exact absurd hu hat.not_waiting_of_idle

/-- A machine that has halted does nothing. -/
theorem run_sys_halted (hhalt : s.halted = true) (hrun : Run sysStep anyAct s later s') :
    later = [] := by
  have hinv : s'.halted = true ∧ later = [] := by
    apply hrun.traceInvariant
    · exact ⟨hhalt, rfl⟩
    · intro tr s₁ a events s₂ hinv _ hstep
      have hnot : ¬ s₁.ready a.thread := by
        simp [State.ready, hinv.1]
      obtain ⟨hstep, -⟩ | ⟨-, hready, -⟩ := sysStep_cases hstep
      · simp [step, hnot] at hstep
      · exact absurd hready hnot
  exact hinv.2

/-- For every process and every status: an `Exit` does not come back and takes the process away
exactly if the status is 0. -/
theorem exit_never_returns_iff {rawTable rawFrames : Nat → BitVec 32} {trace : List Event}
    {pc : BitVec 32} {status : Int}
    (h : Run sysStep anyAct (initial rawTable rawFrames) trace s)
    (hstep : sysStep s ⟨t, .call pc (.exit status)⟩ = some (events, s')) :
    Exits s t status events s' ↔ status = 0 := by
  obtain ⟨g, hsound, -⟩ := run_sys_sound h
  obtain ⟨hstep, hzero⟩ | ⟨-, -, ⟨_, status', hinput, hne⟩, rfl, rfl⟩ := sysStep_cases hstep
  · obtain rfl := hzero pc status rfl
    refine ⟨fun _ => rfl, fun _ => ?_⟩
    by_cases h0 : (s.thread t).processID = 0
    · -- the initial process stops the machine
      have hhalt : s'.halted = true := by
        obtain ⟨-, ⟨id, -, hgo, -⟩ | ⟨-, hm⟩⟩ := hsound.wf.step_cases hstep
        · cases hgo
        · cases hm with
          | exitHalt => rfl
          | exitSignal _ _ hne => exact absurd h0 hne
          | exitNow _ _ hne => exact absurd h0 hne
      refine ⟨fun later s₁ hrun => ?_, fun _ => hhalt, fun hne => absurd h0 hne⟩
      rw [run_sys_halted hhalt hrun]
      exact List.not_mem_nil
    · obtain ⟨r, rest, hr, rfl, hcode, hstored, hdeparting, hparent⟩ :=
        hsound.exit_departs h0 hstep
      refine ⟨fun later s₁ hrun hmem => ?_, fun hzero => absurd hzero h0, fun _ => ?_⟩
      · exact (hdeparting.run hrun).quiet (List.mem_append_right _ hmem)
      · refine ⟨r, hr, List.mem_cons_of_mem _ hcode, hstored, hparent, ?_, ?_, ?_⟩
        · intro later s₁ hrun hhalt
          have hlater := hdeparting.run hrun
          cases hdead : (s₁.heap r).destroyed with
          | true => exact .inl (List.mem_cons_of_mem _ (hlater.gone hdead))
          | false => exact .inr (hlater.canLeave hr.thread hhalt hdead)
        · exact fun hd => hsound.wf.step_frees hstep hd
        · intro later s₁ a ev s₂ hrun hnext hd
          exact (hdeparting.run hrun).frees hr.thread hnext hd
  · -- with another status the program goes on, and can make the same call again
    obtain ⟨rfl, rfl⟩ : pc = _ ∧ status = status' := by simpa using hinput
    refine ⟨fun hexits => ?_, fun hzero => absurd hzero hne⟩
    exact absurd (by simp) (hexits.quiet _ _ (.snoc .refl trivial hstep))

end

/-- A child that its parent waits for calls `Exit(0)`. -/
theorem exit_never_returns_joined :
    ∃ trace s events s', Run sysStep anyAct (initial (fun _ => 0) fun _ => 0) trace s ∧
      (s.thread 0).waiting = some (.joinsem 1) ∧
      sysStep s ⟨1, .call 0 (.exit 0)⟩ = some (events, s') ∧ Exits s 1 0 events s' := by
  obtain ⟨trace, s, h, hw, hnext⟩ :=
    run_reaches sysStep (initial (fun _ => 0) fun _ => 0)
      (fun _ s => (s.thread 0).waiting = some (.joinsem 1) ∧
        (sysStep s ⟨1, .call 0 (.exit 0)⟩).isSome = true)
      (startActs 0 Frames.smallHeader ++ execActs 0 "child" ++ startActs 1 Frames.smallHeader ++
        [⟨0, .call 0 (.join 1)⟩]) (by decide +kernel)
  obtain ⟨⟨events, s'⟩, hstep⟩ := Option.isSome_iff_exists.mp hnext
  exact ⟨trace, s, events, s', h, hw, hstep, (exit_never_returns_iff h hstep).mpr rfl⟩

/-- A child calls `Exit(1)` and then, still in its program, executes a program of its own; the
initial process calls `Exit(1)` and the machine runs on. -/
theorem nonzero_exit_resumes :
    ∃ trace s, Run sysStep anyAct (initial (fun _ => 0) fun _ => 0) trace s ∧
      (∃ events s', sysStep s ⟨1, .call 0 (.exit 1)⟩ = some (events, s') ∧
        (s.thread 1).processID = 1 ∧ s'.bm.bit 1 = true ∧ ¬ Exits s 1 1 events s' ∧
        ∃ later s₁, Run sysStep anyAct s' later s₁ ∧ .instruction 1 ∈ later ∧
          .execReturns 1 2 ∈ later) ∧
      ∃ events s', sysStep s ⟨0, .call 0 (.exit 1)⟩ = some (events, s') ∧
        (s.thread 0).processID = 0 ∧ s'.halted = false := by
  obtain ⟨trace, s, h, hpid, hroot, hchild, hmain⟩ :=
    run_reaches sysStep (initial (fun _ => 0) fun _ => 0)
      (fun _ s => (s.thread 1).processID = 1 ∧ (s.thread 0).processID = 0 ∧
        ((sysStep s ⟨1, .call 0 (.exit 1)⟩).any fun r => r.2.bm.bit 1 = true ∧
          ((execute sysStep r.2 (execActs 1 "next")).any fun r' =>
            .instruction 1 ∈ r'.1 ∧ .execReturns 1 2 ∈ r'.1) = true) = true ∧
        ((sysStep s ⟨0, .call 0 (.exit 1)⟩).any fun r => r.2.halted = false) = true)
      (startActs 0 Frames.smallHeader ++ execActs 0 "child" ++ startActs 1 Frames.smallHeader)
      (by decide +kernel)
  obtain ⟨⟨events, s'⟩, hstep, hafter⟩ := (Option.any_eq_true _ _).mp hchild
  obtain ⟨hbit, hgoes⟩ := of_decide_eq_true hafter
  obtain ⟨⟨later, s₁⟩, hexec, hlater⟩ := (Option.any_eq_true _ _).mp hgoes
  obtain ⟨hinstruction, hreturns⟩ := of_decide_eq_true hlater
  have hrun : Run sysStep anyAct s' later s₁ := run_of_execute hexec (allowed_anyAct _ _)
  obtain ⟨⟨events₀, s₀⟩, hstep₀, hhalt⟩ := (Option.any_eq_true _ _).mp hmain
  refine ⟨trace, s, h, ⟨events, s', hstep, hpid, hbit, fun hexits => ?_, later, s₁, hrun,
    hinstruction, hreturns⟩, events₀, s₀, hstep₀, hroot, of_decide_eq_true hhalt⟩
  exact hexits.quiet later s₁ hrun hinstruction

end Nachos.Process
