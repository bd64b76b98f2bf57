import Nachos.Userprog.Frames
import Nachos.Userprog.Process.Table

/-!
# A start without memory

When an executable needs more pages than there are clear bits, `AddrSpace::AddrSpace(char*)`
deletes the executable and releases `addrLock`, but the `return` that should follow is commented
out. The constructor goes on with no pages, releases `addrLock` a second time and comes to its last
line, which deletes the executable again: there the whole machine ends, with the slot of the
process taken. `StartFailed` follows the thread of such a process through every continuation.
-/

namespace Nachos.Process

open Transition State

/-- How far a failed construction by thread `t` of process `pid` has come, and what it has done
since it found too little memory. -/
structure StartFailed (t : Tid) (pid : Int) (trace : List Event) (s : State) : Prop where
  processID : (s.thread t).processID = pid
  waiting : (s.thread t).waiting = none
  idle : .instruction t ∉ trace
  phase :
    ((s.thread t).control = .refused ∧ trace.count (.V t .addrLock) = 1 ∧
      trace.count (.close t) = 1) ∨
    ((s.thread t).control = .dangling ∧ trace.count (.V t .addrLock) = 2 ∧
      (trace.count (.close t) = 1 ∨ trace.count (.close t) = 2 ∧ s.halted = true))

/-- What a failed start should amount to. The check fails in the step from `s` to `s₁`: the
construction leaves the frame bitmap alone, and it never releases `addrLock` again or deletes the
executable again; the process executes nothing and can give its slot back. -/
structure CleanFailure (t : Tid) (s s₁ : State) (events : List Event) : Prop where
  frames : ∀ later s', Run step (fun _ a => a.thread = t) s₁ later s' →
    s'.gPhysPageBitMap = s.gPhysPageBitMap
  unlocks : ∀ later s', Run step anyAct s₁ later s' →
    (events ++ later).count (.V t .addrLock) = 1
  closes : ∀ later s', Run step anyAct s₁ later s' →
    (events ++ later).count (.close t) = 1
  idle : ∀ later s', Run step anyAct s₁ later s' → .instruction t ∉ events ++ later
  slot : ∃ later s', Run step anyAct s₁ later s' ∧
    s'.bm.bit (s.thread t).processID.toNat = false

section

variable {s s' : State} {t u : Tid} {pid : Int} {i : Input} {events trace : List Event}

/-- The events of a step tell of the thread that took it. -/
theorem Move.own_events (hm : Move s t i events s') (hu : u ≠ t) :
    .instruction u ∉ events ∧ .V u .addrLock ∉ events ∧ .close u ∉ events := by
  cases hm <;> grind [P_events]

/-- The same of a step that may end a `P`. -/
theorem Wf.step_own_events (hs : Wf s) {a : Act} (h : Process.step s a = some (events, s'))
    (hu : u ≠ a.thread) :
    .instruction u ∉ events ∧ .V u .addrLock ∉ events ∧ .close u ∉ events := by
  obtain ⟨-, ⟨id, -, -, rfl, -⟩ | ⟨-, hm⟩⟩ := hs.step_cases h
  · grind [P_events]
  · exact hm.own_events hu

/-- The thread never ends. -/
theorem StartFailed.running (h : StartFailed t pid trace s) :
    (s.thread t).control ≠ .finished := by
  rcases h.phase with ⟨hc, -⟩ | ⟨hc, -⟩ <;> simp [hc]

/-- Other threads do not disturb the construction. -/
theorem StartFailed.other (h : StartFailed t pid trace s) (hs : Wf s) {a : Act}
    (hstep : Process.step s a = some (events, s')) (hne : t ≠ a.thread) :
    StartFailed t pid (trace ++ events) s' := by
  obtain ⟨hc, hw, -, hp⟩ :=
    hs.step_others hstep hne (Nat.ne_of_lt (hs.born h.running))
  obtain ⟨hi, hV, hclose⟩ := hs.step_own_events hstep hne
  refine ⟨hp.trans h.processID, hw.trans h.waiting, by simp [h.idle, hi], ?_⟩
  have hphase := h.phase
  simp only [(hs.step_cases hstep).1.1, Bool.false_eq_true, and_false, or_false] at hphase
  simp only [List.count_append, List.count_eq_zero.mpr hV, List.count_eq_zero.mpr hclose,
    Nat.add_zero, hc]
  exact hphase.imp_right fun ⟨hd, hV, hclose⟩ => ⟨hd, hV, .inl hclose⟩

/-- The construction goes on by its own steps, which leave the frame bitmap alone. -/
theorem StartFailed.own (h : StartFailed t pid trace s) (hhalt : s.halted = false)
    (hm : Move s t i events s') :
    StartFailed t pid (trace ++ events) s' ∧ s'.gPhysPageBitMap = s.gPhysPageBitMap := by
  have hphase := h.phase
  simp only [hhalt, Bool.false_eq_true, and_false, or_false] at hphase
  have hstop : StartFailed t pid (trace ++ []) s.halt := by
    rw [List.append_nil]
    exact ⟨h.processID, h.waiting, h.idle,
      hphase.imp_right fun ⟨hd, hV, hclose⟩ => ⟨hd, hV, .inl hclose⟩⟩
  rcases hphase with ⟨hc, hV, hclose⟩ | ⟨hc, hV, hclose⟩
  · cases hm with
    | stop => exact ⟨hstop, rfl⟩
    | fallThrough =>
      refine ⟨⟨?_, ?_, by simp [h.idle], .inr ⟨?_, ?_, ?_⟩⟩, rfl⟩
      · rw [goto_self]
        exact (s.V_processID t .addrLock t).trans h.processID
      · rw [goto_waiting, V_waiting, h.waiting]
      · rw [goto_self]
      · simp [hV]
      · simp [hclose]
    | _ hc' => exact absurd (hc.symm.trans hc') (by simp)
  · cases hm with
    | stop => exact ⟨hstop, rfl⟩
    | deleteAgain =>
      exact ⟨⟨h.processID, h.waiting, by simp [h.idle], .inr ⟨hc, by simp [hV],
        .inr ⟨by simp [hclose], rfl⟩⟩⟩, rfl⟩
    | _ hc' => exact absurd (hc.symm.trans hc') (by simp)

/-- One step of anybody. -/
theorem StartFailed.step (h : StartFailed t pid trace s) (hs : Wf s) {a : Act}
    (hstep : Process.step s a = some (events, s')) :
    StartFailed t pid (trace ++ events) s' ∧
      (a.thread = t → s'.gPhysPageBitMap = s.gPhysPageBitMap) := by
  rcases eq_or_ne t a.thread with rfl | hne
  · obtain ⟨hready, ⟨id, hw, -⟩ | ⟨-, hm⟩⟩ := hs.step_cases hstep
    · rw [h.waiting] at hw
      cases hw
    · exact ⟨(h.own hready.1 hm).1, fun _ => (h.own hready.1 hm).2⟩
  · exact ⟨h.other hs hstep hne, fun heq => absurd heq.symm hne⟩

/-- From the state after the failed check on, in every continuation. -/
theorem StartFailed.run {ok : State → Act → Prop} {later : List Event}
    (h : StartFailed t pid trace s) (hs : Wf s) (hrun : Run Process.step ok s later s') :
    Wf s' ∧ StartFailed t pid (trace ++ later) s' := by
  apply hrun.traceInvariant
  · exact ⟨hs, by simpa using h⟩
  · intro tr s₁ a events s₂ hinv _ hstep
    obtain ⟨hs₁, h₁⟩ := hinv
    exact ⟨hs₁.step hstep, by simpa using (h₁.step hs₁ hstep).1⟩

/-- The process keeps its slot. -/
theorem StartFailed.slot (h : StartFailed t pid trace s) (hs : Wf s) :
    s.bm.bit pid.toNat = true := by
  obtain ⟨r, hslot, hlive, -⟩ := hs.owns t (hs.born h.running) h.running
  obtain ⟨-, -, -, -, hbit⟩ := hs.slot _ r hslot
  rw [h.processID] at hbit
  simpa [hlive] using hbit

/-- The step in which the check fails. -/
theorem startFailed_of_step {noffH : NoffHeader} (hs : Wf s)
    (hc : (s.thread t).control = .allocate noffH) (hw : (s.thread t).waiting = none)
    (hfull : s.gPhysPageBitMap.numClear < noffH.numPages)
    (hstep : step s ⟨t, .go⟩ = some (events, s')) :
    StartFailed t (s.thread t).processID events s' ∧
      s' = (s.V t .addrLock).2.goto t .refused := by
  obtain ⟨-, ⟨id, hw', -⟩ | ⟨-, hm⟩⟩ := hs.step_cases hstep
  · rw [hw] at hw'
    cases hw'
  · cases hm with
    | refuse =>
      refine ⟨⟨?_, ?_, by simp, .inl ⟨?_, by simp, by simp⟩⟩, rfl⟩
      · rw [goto_self]
        exact s.V_processID t .addrLock t
      · rw [goto_waiting, V_waiting, hw]
      · rw [goto_self]
    | allocate hc' hfits =>
      obtain rfl : noffH = _ := by simpa [hc] using hc'
      exact absurd hfull (by omega)
    | _ hc' => exact absurd (hc.symm.trans hc') (by simp)

/-- After `V` and a move to another point a ready thread is still ready. -/
theorem ready_goto_V (hready : s.ready t) (id : SemId) (c : Control) :
    ((s.V t id).2.goto t c).ready t := by
  refine ⟨hready.1, ?_, hready.2.2⟩
  rw [goto_self]
  show ((s.V t id).2.thread t).blocked = false
  rw [V_thread]
  split
  · rfl
  · exact hready.2.1

/-- Left alone, the thread releases `addrLock` a second time and stops the machine when it deletes
the executable again. -/
theorem delete_twice (hready : s.ready t) (hw : (s.thread t).waiting = none) :
    ∃ s', Run step (fun _ a => a.thread = t) ((s.V t .addrLock).2.goto t .refused)
        [.V t .addrLock, .close t] s' ∧ s'.halted = true ∧
      (s'.sem .addrLock).value = (s.sem .addrLock).value + 2 := by
  generalize hs₁ : (s.V t .addrLock).2.goto t .refused = s₁
  generalize hs₂ : (s₁.V t .addrLock).2.goto t .dangling = s₂
  have hready₁ : s₁.ready t := hs₁ ▸ ready_goto_V hready .addrLock .refused
  have hready₂ : s₂.ready t := hs₂ ▸ ready_goto_V hready₁ .addrLock .dangling
  have hw₁ : (s₁.thread t).waiting = none := by
    rw [← hs₁, goto_waiting, V_waiting, hw]
  have hw₂ : (s₂.thread t).waiting = none := by
    rw [← hs₂, goto_waiting, V_waiting, hw₁]
  have hfall : step s₁ ⟨t, .go⟩ = some ([.V t .addrLock], s₂) := by
    rw [step_resume hready₁ hw₁, ← hs₂, show (s₁.thread t).control = .refused by
      rw [← hs₁, goto_self]]
    rfl
  have hdelete : step s₂ ⟨t, .go⟩ = some ([.close t], s₂.halt) := by
    rw [step_resume hready₂ hw₂, show (s₂.thread t).control = .dangling by
      rw [← hs₂, goto_self]]
    rfl
  have hrun : Run step (fun _ a => a.thread = t) s₁ _ s₂.halt :=
    .snoc (.snoc .refl rfl hfall) rfl hdelete
  refine ⟨s₂.halt, hrun, rfl, ?_⟩
  have hvalue₁ : (s₁.sem .addrLock).value = (s.sem .addrLock).value + 1 := by
    rw [← hs₁]
    show ((s.V t .addrLock).2.sem .addrLock).value = _
    rw [V_sem, if_pos rfl]
  have hvalue₂ : (s₂.sem .addrLock).value = (s₁.sem .addrLock).value + 1 := by
    rw [← hs₂]
    show ((s₁.V t .addrLock).2.sem .addrLock).value = _
    rw [V_sem, if_pos rfl]
  show (s₂.sem .addrLock).value = _
  omega

/-- A start that fails for lack of memory is never clean. The frame bitmap is left alone and
nothing is executed; but left alone the construction releases `addrLock` twice and then deletes the
executable a second time. No continuation gets past that point: the second `delete` comes after
both releases, the machine ends there, and the process has kept its slot. -/
theorem failed_start_never_clean {rawTable rawFrames : Nat → BitVec 32} {before : List Event}
    {s₁ : State} {noffH : NoffHeader}
    (hreach : Run step anyAct (initial rawTable rawFrames) before s)
    (hc : (s.thread t).control = .allocate noffH) (hw : (s.thread t).waiting = none)
    (hfull : s.gPhysPageBitMap.numClear < noffH.numPages)
    (hstep : step s ⟨t, .go⟩ = some (events, s₁)) :
    (∀ later s', Run step (fun _ a => a.thread = t) s₁ later s' →
      s'.gPhysPageBitMap = s.gPhysPageBitMap) ∧
    (∀ later s', Run step anyAct s₁ later s' →
      .instruction t ∉ events ++ later ∧ (s'.thread t).control ≠ .user ∧
      s'.bm.bit (s.thread t).processID.toNat = true ∧
      ((events ++ later).count (.close t) = 1 ∨
        (events ++ later).count (.close t) = 2 ∧
          (events ++ later).count (.V t .addrLock) = 2 ∧ s'.halted = true)) ∧
    (∃ later s', Run step (fun _ a => a.thread = t) s₁ later s' ∧
      (events ++ later).count (.V t .addrLock) = 2 ∧ (events ++ later).count (.close t) = 2 ∧
      (s'.sem .addrLock).value = (s.sem .addrLock).value + 2 ∧ s'.halted = true ∧
      s'.bm.bit (s.thread t).processID.toNat = true) ∧
    ¬ CleanFailure t s s₁ events := by
  have hs := run_wf hreach
  have hs₁ := hs.step hstep
  obtain ⟨hfailed, heq⟩ := startFailed_of_step hs hc hw hfull hstep
  have hframes : ∀ later s', Run step (fun _ a => a.thread = t) s₁ later s' →
      s'.gPhysPageBitMap = s.gPhysPageBitMap := by
    intro later s' hrun
    have hinv : Wf s' ∧ StartFailed t (s.thread t).processID (events ++ later) s' ∧
        s'.gPhysPageBitMap = s.gPhysPageBitMap := by
      apply hrun.traceInvariant
      · exact ⟨hs₁, by simpa using hfailed, by rw [heq]; rfl⟩
      · intro tr s₂ a ev s₃ hinv hact hstep₂
        obtain ⟨hs₂, h₂, hsame⟩ := hinv
        obtain ⟨hnext, hown⟩ := h₂.step hs₂ hstep₂
        exact ⟨hs₂.step hstep₂, by simpa using hnext, (hown hact).trans hsame⟩
    exact hinv.2.2
  have hslot : ∀ {ok : State → Act → Prop} {later s'}, Run step ok s₁ later s' →
      s'.bm.bit (s.thread t).processID.toNat = true := by
    intro ok later s' hrun
    obtain ⟨hs', h'⟩ := hfailed.run hs₁ hrun
    exact h'.slot hs'
  have hfirst : events.count (.V t .addrLock) = 1 ∧ events.count (.close t) = 1 := by
    rcases hfailed.phase with ⟨-, hcounts⟩ | ⟨hc', -⟩
    · exact hcounts
    · exact absurd hc' (by simp [heq])
  obtain ⟨s', halone, hhalted, hvalue⟩ := delete_twice (hs.step_cases hstep).1 hw
  rw [← heq] at halone
  refine ⟨hframes, fun later s' hrun => ?_, ⟨_, s', halone, ?_, ?_, hvalue, hhalted, hslot halone⟩,
    fun hclean => ?_⟩
  · obtain ⟨-, h'⟩ := hfailed.run hs₁ hrun
    refine ⟨h'.idle, ?_, hslot hrun, ?_⟩
    · rcases h'.phase with ⟨hc', -⟩ | ⟨hc', -⟩ <;> simp [hc']
    · rcases h'.phase with ⟨-, -, hclose⟩ | ⟨-, hV, hclose | ⟨hclose, hhalt⟩⟩
      · exact .inl hclose
      · exact .inl hclose
      · exact .inr ⟨hclose, hV, hhalt⟩
  · simp [hfirst.1]
  · simp [hfirst.2]
  · obtain ⟨later, s', hrun, hbit⟩ := hclean.slot
    rw [hslot hrun] at hbit
    cases hbit

end

/-- A header for 276 pages, more than the frame bitmap has bits. -/
def hugeHeader : NoffHeader :=
  ⟨NOFFMAGIC, ⟨0, 40, 140000⟩, ⟨0, 0, 0⟩, ⟨0, 0, 0⟩⟩

/-- A child that needs 276 pages: whatever happens after the failed check, it keeps slot 1, and
left alone it stops the machine with `addrLock` released twice. -/
theorem failed_start_huge :
    ∃ before s events s₁, Run step anyAct (initial (fun _ => 0) fun _ => 0) before s ∧
      (s.thread 1).control = .allocate hugeHeader ∧
      step s ⟨1, .go⟩ = some (events, s₁) ∧
      (∀ later s', Run step anyAct s₁ later s' → s'.bm.bit 1 = true) ∧
      (∃ later s', Run step (fun _ a => a.thread = 1) s₁ later s' ∧
        (events ++ later).count (.V 1 .addrLock) = 2 ∧ s'.halted = true) ∧
      ¬ CleanFailure 1 s s₁ events := by
  obtain ⟨before, s, h, hc, hw, hpid, hfull, hnext⟩ :=
    run_reaches step (initial (fun _ => 0) fun _ => 0)
      (fun _ s => (s.thread 1).control = .allocate hugeHeader ∧ (s.thread 1).waiting = none ∧
        (s.thread 1).processID = 1 ∧ s.gPhysPageBitMap.numClear < hugeHeader.numPages ∧
        (step s ⟨1, .go⟩).isSome = true)
      (startActs 0 Frames.smallHeader ++ execActs 0 "huge" ++ [⟨1, .header hugeHeader⟩])
      (by decide +kernel)
  obtain ⟨⟨events, s₁⟩, hstep⟩ := Option.isSome_iff_exists.mp hnext
  obtain ⟨-, hevery, ⟨later, s', hrun, hV, -, -, hhalt, -⟩, hdirty⟩ :=
    failed_start_never_clean h hc hw hfull hstep
  rw [hpid] at hevery
  exact ⟨before, s, events, s₁, h, hc, hstep,
    fun later s' hrun => (hevery later s' hrun).2.2.1, ⟨later, s', hrun, hV, hhalt⟩, hdirty⟩

/-- One start fails. Left alone it ends the machine at its second `delete executable`, with
`addrLock` at 2 although no other construction is in progress, and its slot taken; and if it is
preempted before that, the next two processes are inside their allocation at the same time. -/
theorem failed_start_breaks_addrLock :
    (∃ trace s, Run step anyAct (initial (fun _ => 0) fun _ => 0) trace s ∧
      s.nextTid = 2 ∧ (s.thread 0).control = .user ∧ s.halted = true ∧
      trace.count (.V 1 .addrLock) = 2 ∧ (s.sem .addrLock).value = 2 ∧
      trace.count (.close 1) = 2 ∧ s.bm.bit 1 = true) ∧
    ∃ trace s, Run step anyAct (initial (fun _ => 0) fun _ => 0) trace s ∧
      s.halted = false ∧ (s.thread 1).control = .dangling ∧
      (s.thread 2).control = .allocate Frames.smallHeader ∧ (s.thread 2).waiting = none ∧
      (s.thread 3).control = .allocate Frames.smallHeader ∧ (s.thread 3).waiting = none := by
  constructor
  · exact run_reaches step (initial (fun _ => 0) fun _ => 0)
      (fun trace s => s.nextTid = 2 ∧ (s.thread 0).control = .user ∧ s.halted = true ∧
        trace.count (.V 1 .addrLock) = 2 ∧ (s.sem .addrLock).value = 2 ∧
        trace.count (.close 1) = 2 ∧ s.bm.bit 1 = true)
      (startActs 0 Frames.smallHeader ++ execActs 0 "huge" ++
        [⟨1, .header hugeHeader⟩, ⟨1, .go⟩, ⟨1, .go⟩, ⟨1, .go⟩])
      (by decide +kernel)
  · exact run_reaches step (initial (fun _ => 0) fun _ => 0)
      (fun _ s => s.halted = false ∧ (s.thread 1).control = .dangling ∧
        (s.thread 2).control = .allocate Frames.smallHeader ∧
        (s.thread 2).waiting = none ∧ (s.thread 3).control = .allocate Frames.smallHeader ∧
        (s.thread 3).waiting = none)
      (startActs 0 Frames.smallHeader ++ execActs 0 "huge" ++
        [⟨1, .header hugeHeader⟩, ⟨1, .go⟩, ⟨1, .go⟩] ++ execActs 0 "a" ++ execActs 0 "b" ++
        [⟨2, .header Frames.smallHeader⟩, ⟨3, .header Frames.smallHeader⟩])
      (by decide +kernel)

end Nachos.Process
