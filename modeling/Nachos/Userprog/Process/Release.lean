import Nachos.Userprog.Process.Rendezvous

/-!
# The release of a joined child

A `JoinUpdate` that has waited and returns has handed over the child's exit status and has let the
child go. Its branch for another exit code than 0 would do neither, but `handle_SC_Exit` passes on
no other code. `CanGo` is what being let go means: the steps of the child alone lead to its removal,
which clears its slot and gives its frames back.
-/

namespace Nachos.Process

open Transition Handshake

/-- From `s` to `s'` the slot of PCB `r` and the frames of its process have become free. -/
def Freed (s s' : State) (r : Ref) : Prop :=
  s'.bm.bit (s.heap r).pid.toNat = false ∧
    ∀ c sp, (s.heap r).thread = some c → (s.thread c).space = some sp →
      ∀ f ∈ frames sp.pageTable, s'.gPhysPageBitMap.bit f.toNat = false

/-- Left to itself, the process of PCB `r` is removed. -/
def CanGo (next : Step State Act Event) (s : State) (r : Ref) : Prop :=
  ∃ c trace s', (s.heap r).thread = some c ∧
    Run next (fun _ a => a.thread = c) s trace s' ∧ .destroy r ∈ trace ∧ Freed s s' r

/-- The caller `p` of a `JoinUpdate` on PCB `r` that has returned `res` has got the exit status of
the process and has let it go. -/
structure Released (trace : List Event) (s : State) (p : Tid) (r : Ref) (res : Int) : Prop where
  status : ∃ c, .setExitCode c r res ∈ trace
  signalled : .V p (.exitsem r) ∈ trace
  goes : (s.heap r).destroyed = true ∨ (s.halted = false → CanGo sysStep s r)

section

variable {s s' : State} {t c : Tid} {r : Ref} {g : Ref → Stage Tid} {events : List Event} {a : Act}
  {trace : List Event} {rawTable rawFrames : Nat → BitVec 32} {i : Input} {ec : Int}

/-! ## Runs with the `Exit` handler -/

/-- A step with the handler is a step of the process system, or an `Exit` that comes back. -/
theorem sysStep_cases (h : sysStep s a = some (events, s')) :
    (step s a = some (events, s') ∧
        ∀ pc status, a.input = .call pc (.exit status) → status = 0) ∨
      ((s.thread a.thread).control = .user ∧ s.ready a.thread ∧
        (∃ pc status, a.input = .call pc (.exit status) ∧ status ≠ 0) ∧
        events = [.instruction a.thread] ∧ s' = s) := by
  unfold sysStep at h
  split at h
  · rename_i pc status hinput
    split at h
    · rename_i hcond
      obtain ⟨hready, hw, hc, hpc⟩ := hcond
      by_cases hstatus : status = 0
      · refine .inl ⟨?_, fun pc' status' heq => ?_⟩
        · rw [step, if_pos hready, hw, hc, hinput]
          simpa [State.resume, hpc, State.call, State.handleExit, hstatus] using h
        · rw [hinput] at heq
          cases heq
          exact hstatus
      · simp only [State.handleExit, if_pos hstatus, Option.some.injEq, Prod.mk.injEq] at h
        exact .inr ⟨hc, hready, ⟨pc, status, hinput, hstatus⟩, h.1.symm, h.2.symm⟩
    · cases h
  · rename_i hinput
    exact .inl ⟨h, fun pc status heq => absurd heq (hinput pc status)⟩

/-- Every state the system with its `Exit` handler reaches is sound for the stages its trace leads
to. -/
theorem run_sys_sound (h : Run sysStep anyAct (initial rawTable rawFrames) trace s) :
    ∃ g, Sound s g ∧
      ∀ r, Monitor.run Stage.next .idle (trace.filterMap (signal r)) = some (g r) := by
  apply h.traceInvariant
  · exact ⟨_, initial_sound rawTable rawFrames, fun _ => rfl⟩
  · intro tr s₁ a events s₂ hinv _ hstep
    obtain ⟨g, hsound, htrace⟩ := hinv
    obtain ⟨hstep, -⟩ | ⟨-, -, -, rfl, rfl⟩ := sysStep_cases hstep
    · obtain ⟨g', hsound', hevents⟩ := hsound.advance hstep
      refine ⟨g', hsound', fun r => ?_⟩
      rw [List.filterMap_append, Monitor.run_append, htrace, Option.bind_some, hevents]
    · exact ⟨g, hsound, fun r => by simpa [signal, List.filterMap_cons] using htrace r⟩

/-- The exit code that a step stores is the status of the call. -/
theorem Move.stores_status (hm : Move s t i events s') (he : .setExitCode c r ec ∈ events) :
    ∃ pc, i = .call pc (.exit ec) := by
  cases hm with
  | @exitSignal pc => exact ⟨pc, by simp_all⟩
  | @exitNow pc => exact ⟨pc, by simp_all⟩
  | _ => grind [State.P_events]

/-- With the handler in front no exit code but 0 is ever stored. -/
theorem exitCode_of_run (h : Run sysStep anyAct (initial rawTable rawFrames) trace s) :
    ∀ c r ec, .setExitCode c r ec ∈ trace → ec = 0 := by
  have hinv : Wf s ∧ ∀ c r ec, .setExitCode c r ec ∈ trace → ec = 0 := by
    apply h.traceInvariant
    · exact ⟨initial_wf _ _, by simp⟩
    · intro tr s₁ a events s₂ hinv _ hstep
      obtain ⟨hs, hcodes⟩ := hinv
      obtain ⟨hstep, hzero⟩ | ⟨-, -, -, rfl, rfl⟩ := sysStep_cases hstep
      · refine ⟨hs.step hstep, fun c r ec he => ?_⟩
        rcases List.mem_append.mp he with he | he
        · exact hcodes c r ec he
        · obtain ⟨pc, hinput⟩ := (hs.move_of_event hstep he (by simp) (by simp)).stores_status he
          exact hzero pc ec hinput
      · exact ⟨hs, by simpa using hcodes⟩
  exact hinv.2

/-! ## Removal frees the slot and the frames -/

theorem Wf.freed_bits (hs : Wf s) {bm : BitMap} (hr : s.Runs t r)
    (hbm : s.freeSpace t = some bm) :
    (s.bm.clearBit (s.thread t).processID.toNat).bit (s.heap r).pid.toNat = false ∧
      ∀ sp, (s.thread t).space = some sp → ∀ f ∈ frames sp.pageTable, bm.bit f.toNat = false := by
  obtain ⟨h0, h10, -, hpid, -⟩ := hs.slot _ r hr.slot
  refine ⟨?_, ?_⟩
  · rw [hpid, BitMap.bit_clearBit (by rw [hs.tableBits]; omega)]
    simp
  · intro sp hsp f hf
    obtain ⟨bm', hdestroy, -, hbit⟩ := AddrSpace.destroy_eq_some (hs.space t sp hsp)
    have heq : bm = bm' := by
      unfold State.freeSpace at hbm
      rw [hsp] at hbm
      exact Option.some.inj (hbm.symm.trans hdestroy)
    have hnat : ((f.toNat : Nat) : Int) = f := Int.toNat_of_nonneg (hs.space t sp hsp f hf).1
    rw [heq, hbit, hnat]
    simp [hf]

/-- A move that destroys a PCB frees its slot and the frames of its process. -/
theorem Move.frees (hs : Wf s) (hm : Move s t i events s') (hd : .destroy r ∈ events) :
    Freed s s' r := by
  have hfreed : ∀ {bm r'}, s.Runs t r' → s.freeSpace t = some bm →
      s'.bm = s.bm.clearBit (s.thread t).processID.toNat → s'.gPhysPageBitMap = bm →
      Freed s s' r' := by
    intro bm r' hr hbm htable hframes
    obtain ⟨hslot, hspace⟩ := hs.freed_bits hr hbm
    refine ⟨by rw [htable, hslot], ?_⟩
    intro c sp hc hsp
    obtain rfl : t = c := Option.some.inj (hr.thread.symm.trans hc)
    rw [hframes]
    exact hspace sp hsp
  cases hm with
  | exitNow hc hpc h0 hr hq hjoin hbm =>
    obtain rfl : r = _ := by simpa using hd
    exact hfreed hr hbm rfl rfl
  | remove hc hr hbm =>
    obtain rfl : r = _ := by simpa using hd
    exact hfreed hr hbm rfl rfl
  | _ => grind [State.P_events]

/-- The same of a step. -/
theorem Wf.step_frees (hs : Wf s) (h : Process.step s a = some (events, s'))
    (hd : .destroy r ∈ events) : Freed s s' r :=
  (hs.move_of_event h hd (by simp) (by simp)).frees hs hd

/-! ## A process that has been signalled goes -/

/-- Only code inside a `P` has a semaphore to wait for. -/
theorem Queued.exitReleased_waiting (hq : Queued s) (hc : (s.thread t).control = .exitReleased ec) :
    (s.thread t).waiting = none := by
  cases hw : (s.thread t).waiting with
  | none => rfl
  | some id =>
    have hwait := hq.wait t id hw
    cases id <;> simp [WaitOk, hc] at hwait

/-- A thread that waits for nothing is not asleep. -/
theorem Queued.awake (hq : Queued s) (hw : (s.thread t).waiting = none) :
    (s.thread t).blocked = false := by
  by_contra hb
  obtain ⟨id, hid, -⟩ := hq.kept t (by simpa using hb)
  rw [hw] at hid
  cases hid

/-- A process that has passed `ExitWait` is removed by its next step. -/
theorem Sound.step_remove (h : Sound s g) (hhalt : s.halted = false) (hr : r < s.nextRef)
    (hthread : (s.heap r).thread = some c) (hstage : g r = .passed) :
    ∃ s', Process.step s ⟨c, .go⟩ = some ([.destroy r], s') := by
  have hAt := h.agrees.stage r hr
  obtain ⟨hcontrol, hw⟩ : (s.thread c).control = .removing 0 ∧ (s.thread c).waiting = none := by
    simpa [hstage, OwnerAt] using hAt.owner c hthread
  obtain ⟨hlive, -⟩ := hAt.slot h.wf hr (by simp [hstage])
  have hruns : s.Runs c r := h.wf.runs_of_thread hr hlive hthread
  obtain ⟨-, -, hlt, -⟩ := h.wf.owner r c hr hthread
  obtain ⟨bm, hbm, -⟩ := h.wf.freed c
  have hexist := h.wf.isExist_of_slot hruns.slot hlive
  refine ⟨s.removed c r bm, ?_⟩
  rw [step_resume ⟨hhalt, h.queued.awake hw, hlt⟩ hw, hcontrol]
  exact congrArg some (State.remove_eq hexist hruns hbm)

/-- A process that has been signalled passes `ExitWait` in its next step. -/
theorem Sound.step_pass (h : Sound s g) (hhalt : s.halted = false) (hr : r < s.nextRef)
    (hthread : (s.heap r).thread = some c) (hstage : g r = .granted) :
    Process.step s ⟨c, .go⟩ =
      some ([.P c (.exitsem r)], (s.P c (.exitsem r) (.removing 0)).2) := by
  have hAt := h.agrees.stage r hr
  have hevents : (s.P c (.exitsem r) (.removing 0)).1 = [.P c (.exitsem r)] := by
    rw [State.P_events, if_neg]
    rw [hAt.exitValue, hstage]
    decide
  rw [← hevents]
  obtain ⟨hlive, -⟩ := hAt.slot h.wf hr (by simp [hstage])
  have hruns : s.Runs c r := h.wf.runs_of_thread hr hlive hthread
  obtain ⟨-, -, hlt, -⟩ := h.wf.owner r c hr hthread
  have hexiting : Exiting s r c 0 := by simpa [hstage, OwnerAt] using hAt.owner c hthread
  rcases hexiting with hcontrol | ⟨hcontrol, hw⟩
  · have hw := h.queued.exitReleased_waiting hcontrol
    rw [step_resume ⟨hhalt, h.queued.awake hw, hlt⟩ hw, hcontrol]
    simp [State.resume, State.exitWait, hruns.slot]
  · have hawake : (s.thread c).blocked = false := by
      by_contra hb
      obtain ⟨id, hid, hmem | ⟨r', hpcb, -, hdead⟩⟩ := h.queued.kept c (by simpa using hb)
      · obtain rfl : .exitsem r = id := Option.some.inj (hw.symm.trans hid)
        rw [hAt.exitQueue hstage] at hmem
        cases hmem
      · obtain rfl : .exitsem r = id := Option.some.inj (hw.symm.trans hid)
        obtain rfl : r = r' := Option.some.inj hpcb
        rw [hlive] at hdead
        cases hdead
    rw [step_retry ⟨hhalt, hawake, hlt⟩ hw, hcontrol]

/-- A process that has been signalled can go, with the `Exit` handler or without: it has no part in
the steps inside the kernel. -/
theorem Sound.canGo {next : Step State Act Event} (h : Sound s g)
    (hgo : ∀ s t, next s ⟨t, .go⟩ = Process.step s ⟨t, .go⟩) (hhalt : s.halted = false)
    (hr : r < s.nextRef) (hstage : g r = .granted ∨ g r = .passed) : CanGo next s r := by
  obtain ⟨c, hthread⟩ : ∃ c, (s.heap r).thread = some c := by
    cases hthread : (s.heap r).thread with
    | some c => exact ⟨c, rfl⟩
    | none =>
      rcases (h.agrees.stage r hr).unforked hthread with heq | ⟨p, heq⟩ <;>
        rcases hstage with hstage | hstage <;> rw [hstage] at heq <;> cases heq
  rcases hstage with hstage | hstage
  · -- the step through `ExitWait`, then the one of the other case
    have hstep := h.step_pass hhalt hr hthread hstage
    obtain ⟨g', hsound, hsig⟩ := h.advance hstep
    have hpassed : g' r = .passed := by
      have hword := hsig r
      rw [hstage] at hword
      simpa [signal, List.filterMap_cons, Stage.next] using hword.symm
    obtain ⟨s₂, hlast⟩ := hsound.step_remove hhalt hr hthread hpassed
    have hrun : Run next (fun _ a => a.thread = c) s _ s₂ :=
      .snoc (.snoc .refl rfl ((hgo s c).trans hstep)) rfl ((hgo _ c).trans hlast)
    have hfreed : Freed (s.P c (.exitsem r) (.removing 0)).2 s₂ r :=
      hsound.wf.step_frees hlast (List.mem_singleton_self _)
    refine ⟨c, _, s₂, hthread, hrun, by simp, hfreed.1, fun c' sp hc' hsp => ?_⟩
    exact hfreed.2 c' sp hc' (by simpa using hsp)
  · obtain ⟨s₂, hlast⟩ := h.step_remove hhalt hr hthread hstage
    have hrun : Run next (fun _ a => a.thread = c) s _ s₂ :=
      .snoc .refl rfl ((hgo s c).trans hlast)
    exact ⟨c, _, s₂, hthread, hrun, by simp, h.wf.step_frees hlast (List.mem_singleton_self _)⟩

/-- Whatever statuses the programs exit with: a `JoinUpdate` that has waited and has returned has
handed over the exit code that the child passed on to `ExitUpdate`, and has let the child go. That
code is always 0. Whenever a process is removed, its slot and its frames become free. -/
theorem join_releases {p : Tid} {res : Int}
    (h : Run sysStep anyAct (initial rawTable rawFrames) trace s)
    (hret : .joinReturns p (some r) res ∈ trace) :
    Released trace s p r res ∧ (∀ c ec, .setExitCode c r ec ∈ trace → ec = res) ∧
    (∀ c r' ec, .setExitCode c r' ec ∈ trace → ec = 0) ∧
    ∀ a events s', sysStep s a = some (events, s') → .destroy r ∈ events → Freed s s' r := by
  obtain ⟨g, hsound, hsig⟩ := run_sys_sound h
  have hcodes := exitCode_of_run h
  have hstore : ∀ ec, .store ec ∈ trace.filterMap (signal r) →
      ∃ c, .setExitCode c r ec ∈ trace := by
    intro ec hmem
    obtain ⟨e, he, hsignal⟩ := mem_signals.mp hmem
    obtain ⟨c, rfl⟩ := signal_store.mp hsignal
    exact ⟨c, he⟩
  have hend := released_of_run (hsig r) (mem_signals.mpr ⟨_, hret, signal_answer.mpr rfl⟩)
  rcases hend with ⟨hrelease, hcode, rfl, hstage⟩ | ⟨ec, hec, hmem⟩
  · have hr : r < s.nextRef := by
      by_contra hge
      rw [hsound.agrees.fresh r (Nat.le_of_not_lt hge)] at hstage
      simp at hstage
    have hsignal : .V p (.exitsem r) ∈ trace := by
      rw [mem_signals] at hrelease
      simpa only [signal_release, exists_eq_right] using hrelease
    refine ⟨⟨hstore 0 hcode, hsignal, ?_⟩, fun c ec he => hcodes c r ec he, hcodes, ?_⟩
    · rcases hstage with hstage | hstage | hstage
      · exact .inr fun hhalt => hsound.canGo (fun _ _ => rfl) hhalt hr (.inl hstage)
      · exact .inr fun hhalt => hsound.canGo (fun _ _ => rfl) hhalt hr (.inr hstage)
      · exact .inl ((hsound.agrees.stage r hr).dead.mpr hstage)
    · intro a events s' hstep hd
      obtain ⟨hstep, -⟩ | ⟨-, -, -, rfl, -⟩ := sysStep_cases hstep
      · exact hsound.wf.step_frees hstep hd
      · simp at hd
  · obtain ⟨c, he⟩ := hstore ec hmem
    exact absurd (hcodes c r ec he) hec

end

/-- A child calls `Exit(1)`, runs on and calls `Exit(0)`; it has been joined and not removed yet. -/
theorem join_releases_child :
    ∃ trace s, Run sysStep anyAct (initial (fun _ => 0) fun _ => 0) trace s ∧
      (s.heap 1).destroyed = false ∧ Released trace s 0 1 0 := by
  obtain ⟨trace, s, h, hret, hlive⟩ :=
    run_reaches sysStep (initial (fun _ => 0) fun _ => 0)
      (fun trace s => .joinReturns 0 (some 1) 0 ∈ trace ∧ (s.heap 1).destroyed = false)
      (startActs 0 Frames.smallHeader ++ execActs 0 "child" ++ startActs 1 Frames.smallHeader ++
        [⟨0, .call 0 (.join 1)⟩, ⟨1, .call 0 (.exit 1)⟩, ⟨1, .call 0 (.exit 0)⟩, ⟨0, .go⟩,
          ⟨0, .go⟩])
      (by decide +kernel)
  exact ⟨trace, s, h, hlive, (join_releases h hret).1⟩

end Nachos.Process
