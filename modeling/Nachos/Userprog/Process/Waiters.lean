import Nachos.Userprog.Process.Release

/-!
# Semaphores and their waiters

`~PCB` deletes the three semaphores of the PCB, and `~Semaphore` assumes that nobody waits. Only
`joinsem` can have a waiter then: a thread that joins a process again after it has signalled the
process, or that joins one that has been removed. In every run without such a call no thread is
lost; after such a call there is a continuation that loses its caller.
-/

namespace Nachos.Process

open Transition Handshake State

/-- Every sleeping thread is in the queue of a semaphore that has not been deleted. -/
def NoneLost (s : State) : Prop :=
  ∀ t, (s.thread t).blocked = true → ∃ id, t ∈ (s.sem id).queue ∧ ¬ Deleted s id

/-- Whichever PCB the next step deletes, nobody is queued on its semaphores. -/
def DeletesEmpty (s : State) : Prop :=
  ∀ a events s' r, step s a = some (events, s') → .destroy r ∈ events →
    (s.sem (.joinsem r)).queue = [] ∧ (s.sem (.exitsem r)).queue = [] ∧
      (s.sem (.mutex r)).queue = []

/-- In `ExitUpdate`, inside `ExitWait` or after it. -/
def Control.isRemoving : Control → Bool
  | .removing _ => true
  | _ => false

/-- A process that has been signalled on `exitsem`, has got past it or has been removed. -/
def Leaving (s : State) (r : Ref) : Prop :=
  (s.heap r).destroyed = true ∨ (s.sem (.exitsem r)).value ≠ 0 ∨
    ∃ c ∈ (s.heap r).thread, (s.thread c).control.isRemoving = true ∧ (s.thread c).waiting = none

instance (s : State) (r : Ref) : Decidable (Leaving s r) :=
  inferInstanceAs (Decidable (_ ∨ _ ∨ _))

/-- A `JoinUpdate` that passes its checks is about a process that is not leaving. -/
def OnTime (s : State) (a : Act) : Prop :=
  ∀ pID ∈ a.input.joins, ∀ r ∈ s.pcb pID,
    (s.thread a.thread).processID = (s.heap r).parentID → ¬ Leaving s r

instance (s : State) (a : Act) : Decidable (OnTime s a) :=
  inferInstanceAs (Decidable (∀ pID ∈ a.input.joins, _))

theorem Input.eq_of_joins {i : Input} {pID : Int} (h : pID ∈ i.joins) :
    ∃ pc, i = .call pc (.join pID) := by
  match i with
  | .call pc (.join _) => exact ⟨pc, by rw [Option.some.inj h]⟩

/-! ## The signals of one step -/

/-- The process may go, goes or is gone. -/
def Stage.leaving : Stage Tid → Bool
  | .granted | .passed | .removed => true
  | _ => false

/-- The signals one step can emit about one PCB. -/
inductive StepWord : List (Signal Tid) → Prop
  | silent : StepWord []
  | arrive (t : Tid) : StepWord [.arrive t]
  | overtake (t : Tid) : StepWord [.arrive t, .take t]
  | take (t : Tid) : StepWord [.take t]
  | grant (t : Tid) : StepWord [.read t 0, .release t, .answer t 0]
  | abandon (t : Tid) (ec : Int) : StepWord [.read t ec, .answer t (-1)]
  | store (ec : Int) : StepWord [.store ec]
  | exit (ec : Int) : StepWord [.store ec, .remove]
  | pass : StepWord [.pass]
  | remove : StepWord [.remove]

section

variable {s s' : State} {t : Tid} {i : Input} {events : List Event} {r : Ref}
  {g : Ref → Stage Tid} {σ σ' : Stage Tid} {a : Act} {u : Tid} {w : List (Signal Tid)}
  {trace : List Event}

theorem stepWord_P (s : State) (t : Tid) (id : SemId) (c : Control) (r : Ref) :
    StepWord ((s.P t id c).1.filterMap (signal r)) := by
  rw [P_events]
  split_ifs
  · exact .silent
  · cases id with
    | joinsem r' => by_cases h : r' = r <;> simp [signal, h, StepWord.silent, StepWord.take]
    | exitsem r' => by_cases h : r' = r <;> simp [signal, h, StepWord.silent, StepWord.pass]
    | _ => exact .silent

theorem Move.stepWord (hm : Move s t i events s') (r : Ref) :
    StepWord (events.filterMap (signal r)) := by
  cases hm with
  | stop => exact .silent
  | exitHalt => exact .silent
  | boot => exact stepWord_P _ _ _ _ _
  | @start noffH => exact stepWord_P s t .addrLock (.allocate noffH) r
  | @exec pc filename => exact stepWord_P s t .bmsem (.execChecks filename) r
  | exitWait => exact stepWord_P _ _ _ _ _
  | @joinWait pc pID r' hc hpc hp hparent =>
    rw [P_events]
    by_cases h : r' = r
    · split_ifs <;> simp [signal, List.filterMap_cons, h, StepWord.arrive, StepWord.overtake]
    · split_ifs <;> simp [signal, List.filterMap_cons, h, StepWord.silent]
  | @joinAbandon pID r' hc hp hec =>
    by_cases h : r' = r
    · simp [signal, h, StepWord.abandon]
    · simp [signal, h, StepWord.silent]
  | @joinGrant pID r' hc hp hec =>
    by_cases h : r' = r
    · simp [signal, h, StepWord.grant]
    · simp [signal, h, StepWord.silent]
  | @exitSignal pc ec r' q =>
    by_cases h : r' = r
    · simp [signal, List.filterMap_cons, h, StepWord.store]
    · simp [signal, List.filterMap_cons, h, StepWord.silent]
  | @exitNow pc ec r' q bm =>
    by_cases h : r' = r
    · simp [signal, List.filterMap_cons, h, StepWord.exit]
    · simp [signal, List.filterMap_cons, h, StepWord.silent]
  | @remove ec r' bm =>
    by_cases h : r' = r
    · simp [signal, h, StepWord.remove]
    · simp [signal, h, StepWord.silent]
  | _ => exact .silent

theorem Wf.step_word (hs : Wf s) (h : Process.step s a = some (events, s')) (r : Ref) :
    StepWord (events.filterMap (signal r)) := by
  obtain ⟨-, ⟨id, -, -, rfl, -⟩ | ⟨-, hm⟩⟩ := hs.step_cases h
  · exact stepWord_P _ _ _ _ _
  · exact hm.stepWord r

/-- A process begins to leave in a step of the thread that has taken its offer, or by exiting
while nobody waits. -/
theorem StepWord.leaving (hw : StepWord w) (h : Monitor.run Stage.next σ w = some σ')
    (hσ' : Stage.leaving σ' = true) :
    Stage.leaving σ = true ∨ (∃ p ec, σ = .taken p ec) ∨ (∃ ec, σ = .stored ec) ∨
      (σ = .idle ∧ .remove ∈ w) := by
  -- the first signal of the word says where the handshake stood
  have hfirst : ∀ a v, w = a :: v →
      ∃ σ₁, Accepts σ a σ₁ ∧ Monitor.run Stage.next σ₁ v = some σ' := by
    rintro a v rfl
    obtain ⟨σ₁, ha, hv⟩ := Option.bind_eq_some_iff.mp h
    exact ⟨σ₁, accepts_of_next ha, hv⟩
  cases hw with
  | silent => exact .inl (Option.some.inj h ▸ hσ')
  | arrive t =>
    obtain ⟨σ₁, ha, hv⟩ := hfirst _ _ rfl
    cases Option.some.inj hv
    cases ha with
    | arrive => cases hσ'
    | late => exact .inl hσ'
  | overtake t =>
    obtain ⟨σ₁, -, hv⟩ := hfirst _ _ rfl
    obtain ⟨σ₂, ha, hv⟩ := Option.bind_eq_some_iff.mp hv
    cases Option.some.inj hv
    cases accepts_of_next ha
    cases hσ'
  | take t =>
    obtain ⟨σ₁, ha, hv⟩ := hfirst _ _ rfl
    cases Option.some.inj hv
    cases ha
    cases hσ'
  | grant t =>
    obtain ⟨σ₁, ha, -⟩ := hfirst _ _ rfl
    cases ha with
    | read => exact .inr (.inl ⟨t, 0, rfl⟩)
  | abandon t ec =>
    obtain ⟨σ₁, ha, -⟩ := hfirst _ _ rfl
    cases ha with
    | read => exact .inr (.inl ⟨t, ec, rfl⟩)
  | store ec =>
    obtain ⟨σ₁, ha, hv⟩ := hfirst _ _ rfl
    cases Option.some.inj hv
    cases ha <;> cases hσ'
  | exit ec =>
    obtain ⟨σ₁, ha, hv⟩ := hfirst _ _ rfl
    cases ha with
    | storeAlone => exact .inr (.inr (.inr ⟨rfl, by simp⟩))
    | store p => cases hv
  | pass =>
    obtain ⟨σ₁, ha, -⟩ := hfirst _ _ rfl
    cases ha with
    | pass => exact .inl rfl
  | remove =>
    obtain ⟨σ₁, ha, -⟩ := hfirst _ _ rfl
    cases ha with
    | removeAlone ec => exact .inr (.inr (.inl ⟨ec, rfl⟩))
    | remove => exact .inl rfl

theorem StepWord.removes (hw : StepWord w) (h : Monitor.run Stage.next σ w = some σ')
    (hmem : .remove ∈ w) : σ = .idle ∨ (∃ ec, σ = .stored ec) ∨ σ = .passed := by
  cases hw with
  | exit ec =>
    obtain ⟨σ₁, ha, hv⟩ := Option.bind_eq_some_iff.mp h
    cases accepts_of_next ha with
    | storeAlone => exact .inl rfl
    | store p => cases hv
  | remove =>
    obtain ⟨σ₁, ha, -⟩ := Option.bind_eq_some_iff.mp h
    cases accepts_of_next ha with
    | removeAlone ec => exact .inr (.inl ⟨ec, rfl⟩)
    | remove => exact .inr (.inr rfl)
  | _ => simp at hmem

/-- Only its own thread destroys a PCB. -/
theorem Move.destroys (hm : Move s t i events s') (hd : .destroy r ∈ events) :
    s.Runs t r ∧ (s'.heap r).destroyed = true := by
  cases hm with
  | exitNow hc hpc h0 hr =>
    obtain rfl : r = _ := by simpa using hd
    exact ⟨hr, by simp [removed_heap]⟩
  | remove hc hr =>
    obtain rfl : r = _ := by simpa using hd
    exact ⟨hr, by simp [removed_heap]⟩
  | _ => grind [P_events]

/-- What a run has destroyed stays destroyed. -/
theorem Wf.run_destroyed (hs : Wf s) {ok : State → Act → Prop}
    (h : Run Process.step ok s trace s') (hd : .destroy r ∈ trace) :
    r < s'.nextRef ∧ (s'.heap r).destroyed = true := by
  have hinv : Wf s' ∧ ∀ r, .destroy r ∈ trace →
      r < s'.nextRef ∧ (s'.heap r).destroyed = true := by
    apply h.traceInvariant
    · exact ⟨hs, by simp⟩
    · intro tr s₁ a events s₂ hinv _ hstep
      obtain ⟨hs₁, htr⟩ := hinv
      refine ⟨hs₁.step hstep, fun r hd => ?_⟩
      rcases List.mem_append.mp hd with hd | hd
      · obtain ⟨hr, hdead⟩ := htr r hd
        have hkept := hs₁.step_kept hstep hr
        exact ⟨hkept.lt, hkept.destroyed hdead⟩
      · have hm := hs₁.move_of_event hstep hd (by simp) (by simp)
        obtain ⟨hruns, hdead⟩ := hm.destroys hd
        exact ⟨(hs₁.step_kept hstep (hs₁.runs_lt hruns)).lt, hdead⟩
  exact hinv.2 r hd

/-! ## Who waits in `JoinWait` -/

/-- The kernel state shows whether a process is leaving. -/
theorem At.leaving_iff (h : At s r σ) : Leaving s r ↔ Stage.leaving σ = true := by
  constructor
  · rintro (hd | hv | ⟨c, hthread, hcontrol, hw⟩)
    · rw [h.dead.mp hd]
      rfl
    · rw [h.exitValue] at hv
      cases σ with
      | granted => rfl
      | _ => exact absurd rfl hv
    · obtain ⟨ec, hc⟩ : ∃ ec, (s.thread c).control = .removing ec := by
        revert hcontrol
        cases (s.thread c).control <;> simp [Control.isRemoving]
      have hown := h.owner c hthread
      cases σ with
      | granted => rfl
      | passed => rfl
      | removed => rfl
      | _ => simp [OwnerAt, BeforeExit, Exiting, hc, hw] at hown
  · intro hσ
    cases σ with
    | granted => exact .inr (.inl (by rw [h.exitValue]; decide))
    | removed => exact .inl (h.dead.mpr rfl)
    | passed =>
      obtain ⟨c, hthread⟩ : ∃ c, (s.heap r).thread = some c := by
        cases hthread : (s.heap r).thread with
        | some c => exact ⟨c, rfl⟩
        | none => simpa using h.unforked hthread
      obtain ⟨hcontrol, hw⟩ := h.owner c hthread
      exact .inr (.inr ⟨c, hthread, by rw [hcontrol]; rfl, hw⟩)
    | _ => cases hσ

/-- A thread comes to wait on `joinsem` only by a call of `JoinUpdate`. -/
theorem Move.joins (hm : Move s t i events s') (hu : (s'.thread u).waiting = some (.joinsem r)) :
    (s.thread u).waiting = some (.joinsem r) ∨
      (u = t ∧ (s.thread t).control = .user ∧ .destroy r ∉ events ∧
        ∃ pc pID, i = .call pc (.join pID) ∧ s.pcb pID = some r ∧
          (s.thread t).processID = (s.heap r).parentID) := by
  have hP : ∀ id c, ((s.P t id c).2.thread u).waiting = some (.joinsem r) →
      id ≠ .joinsem r → (s.thread u).waiting = some (.joinsem r) := by
    intro id c h hid
    rw [P_waiting] at h
    split_ifs at h with htu hv
    · exact absurd (Option.some.inj h) hid
    · exact h
  cases hm with
  | stop => exact .inl hu
  | exitHalt => exact .inl hu
  | boot => exact .inl (hP _ _ hu (by simp))
  | start => exact .inl (hP _ _ hu (by simp))
  | exec => exact .inl (hP _ _ hu (by simp))
  | exitWait => exact .inl (hP _ _ hu (by simp))
  | deleteAgain => exact .inl hu
  | load =>
    refine .inl ?_
    rcases eq_or_ne u t with rfl | hne <;> simpa [State.modifyThread, *] using hu
  | @reserve name n =>
    rcases eq_or_ne u t with rfl | hne
    · simp [State.reserve] at hu
    · rw [reserve_thread _ _ _ _ hne] at hu
      exact .inl hu
  | @fork name r' pID hc =>
    rcases eq_or_ne u s.nextTid with rfl | hne
    · rw [execFork_child] at hu
      cases hu
    · refine .inl ?_
      rcases eq_or_ne u t with rfl | hut
      · rwa [execFork_caller _ _ _ _ _ hne] at hu
      · rwa [execFork_thread _ _ _ _ _ hne hut] at hu
  | joinMissing => exact .inl hu
  | joinForeign => exact .inl hu
  | @joinWait pc pID r' hc hpc hp hparent =>
    rw [P_waiting] at hu
    split_ifs at hu with htu hv
    · obtain rfl : r' = r := by simpa using hu
      refine .inr ⟨htu, hc, ?_, pc, pID, rfl, hp, hparent⟩
      rw [P_events, if_pos hv]
      simp
    · exact .inl hu
  | exitNow => rw [removed_waiting] at hu; exact .inl hu
  | remove => rw [removed_waiting] at hu; exact .inl hu
  | joinAbandon => rw [goto_waiting] at hu; exact .inl hu
  | _ => rw [goto_waiting, V_waiting] at hu; exact .inl hu

/-- Nobody waits in `JoinWait` for a process that is leaving. -/
structure Attended (s : State) (g : Ref → Stage Tid) : Prop where
  sound : Sound s g
  waits : ∀ u r, (s.thread u).waiting = some (.joinsem r) → Stage.leaving (g r) = false

/-- While somebody waits for a process, the next step does not let it go. -/
theorem Attended.stays (h : Attended s g) {g' : Ref → Stage Tid}
    (hstep : Process.step s a = some (events, s'))
    (hsig : Monitor.run Stage.next (g r) (events.filterMap (signal r)) = some (g' r))
    (hu : (s.thread u).waiting = some (.joinsem r)) : Stage.leaving (g' r) = false := by
  by_contra hleave
  obtain ⟨hr, -⟩ := h.sound.queued.wait u _ hu
  have hAt := h.sound.agrees.stage r hr
  have hwaiter := hAt.waiter u hu
  rcases (h.sound.wf.step_word hstep r).leaving hsig (by simpa using hleave) with
    hbad | ⟨p, ec, heq⟩ | ⟨ec, heq⟩ | ⟨heq, -⟩
  · rw [h.waits u r hu] at hbad
    cases hbad
  · simp [heq, WaiterAt, Stage.late] at hwaiter
  · exact hAt.main.1 ec heq
  · simp [heq, WaiterAt, Stage.late] at hwaiter

theorem Attended.step (h : Attended s g) (hok : OnTime s a)
    (hstep : Process.step s a = some (events, s')) : ∃ g', Attended s' g' := by
  obtain ⟨g', hsound, hsig⟩ := h.sound.advance hstep
  refine ⟨g', hsound, ?_⟩
  intro u r hu
  obtain ⟨hready, ⟨id, hw, -, -, hs'⟩ | ⟨hw, hm⟩⟩ := h.sound.wf.step_cases hstep
  · -- another pass through the loop of `P` begins no wait
    refine h.stays hstep (hsig r) (u := u) ?_
    rw [hs', P_waiting] at hu
    split_ifs at hu with htu hv
    · rw [htu, hw, hu]
    · exact hu
  · rcases hm.joins hu with hold | ⟨rfl, hc, hnone, pc, pID, hinput, hp, hparent⟩
    · exact h.stays hstep (hsig r) hold
    · by_contra hleave
      have hr := (h.sound.wf.slot pID r hp).2.2.1
      have hAt := h.sound.agrees.stage r hr
      have hstage := hAt.idle_or_late h.sound.wf h.sound.queued hw hc hparent
      rcases (h.sound.wf.step_word hstep r).leaving (hsig r) (by simpa using hleave) with
        hbad | ⟨p, ec, heq⟩ | ⟨ec, heq⟩ | ⟨-, hremove⟩
      · exact hok pID (by rw [hinput]; rfl) r hp hparent (hAt.leaving_iff.mpr hbad)
      · simp [heq, Stage.late] at hstage
      · exact hAt.main.1 ec heq
      · obtain ⟨e, he, hsignal⟩ := mem_signals.mp hremove
        exact hnone (signal_remove.mp hsignal ▸ he)

theorem Attended.noneLost (h : Attended s g) : NoneLost s := by
  intro u hu
  obtain ⟨id, hw, hmem⟩ := h.sound.queued.kept u hu
  have hwait := h.sound.queued.wait u id hw
  have hkept : ¬ Deleted s id := by
    rintro ⟨r, hid, hr, hd⟩
    have hAt := h.sound.agrees.stage r hr
    cases id with
    | joinsem r' =>
      obtain rfl : r' = r := Option.some.inj hid
      have hstage := h.waits u r' hw
      rw [hAt.dead.mp hd] at hstage
      cases hstage
    | exitsem r' =>
      obtain rfl : r' = r := Option.some.inj hid
      obtain ⟨-, ⟨ec, hc⟩, hthread⟩ := hwait
      have hfinished := (h.sound.wf.owner r' u hr hthread).2.2.2.2.mp hd
      rw [hc] at hfinished
      cases hfinished
    | mutex r' => exact hwait
    | _ => cases hid
  exact ⟨id, hmem.resolve_right hkept, hkept⟩

/-- A step that destroys a PCB is one of its own thread, for whom nobody waits or which has passed
`ExitWait`. -/
theorem Sound.destroys (h : Sound s g) (hstep : Process.step s a = some (events, s'))
    (hd : .destroy r ∈ events) :
    r < s.nextRef ∧ (s.heap r).thread = some a.thread ∧ (g r = .idle ∨ g r = .passed) := by
  have hm := h.wf.move_of_event hstep hd (by simp) (by simp)
  have hruns := (hm.destroys hd).1
  have hr := h.wf.runs_lt hruns
  obtain ⟨g', -, hsig⟩ := h.advance hstep
  have hmem := mem_signals.mpr ⟨_, hd, signal_remove.mpr rfl⟩
  refine ⟨hr, hruns.thread, ?_⟩
  rcases (hm.stepWord r).removes (hsig r) hmem with heq | ⟨ec, heq⟩ | heq
  · exact .inl heq
  · exact absurd heq ((h.agrees.stage r hr).main.1 ec)
  · exact .inr heq

theorem Attended.deletesEmpty (h : Attended s g) : DeletesEmpty s := by
  intro a events s' r hstep hd
  obtain ⟨hr, hthread, hstage⟩ := h.sound.destroys hstep hd
  have hready := (h.sound.wf.step_cases hstep).1
  have hempty : ∀ id, (∀ u, u ∈ (s.sem id).queue → False) → (s.sem id).queue = [] :=
    fun id hnone => List.eq_nil_iff_forall_not_mem.mpr hnone
  refine ⟨hempty _ fun u hu => ?_, hempty _ fun u hu => ?_, hempty _ fun u hu => ?_⟩
  · have hw := (h.sound.queued.sound _ u hu).2
    have hwaiter := (h.sound.agrees.stage r hr).waiter u hw
    have hstay := h.waits u r hw
    rcases hstage with hstage | hstage
    · simp [hstage, WaiterAt, Stage.late] at hwaiter
    · rw [hstage] at hstay
      cases hstay
  · -- only the thread of the PCB waits on `exitsem`, and that one is running
    obtain ⟨hblocked, hw⟩ := h.sound.queued.sound _ u hu
    obtain ⟨-, -, hself⟩ := h.sound.queued.wait u _ hw
    obtain rfl : a.thread = u := Option.some.inj (hthread.symm.trans hself)
    rw [hready.2.1] at hblocked
    cases hblocked
  · exact h.sound.queued.wait u _ (h.sound.queued.sound _ u hu).2

/-! ## A join that comes too late -/

/-- A thread that waits on a deleted `joinsem` is in no queue of a live semaphore. -/
theorem Sound.lost (h : Sound s g) (hu : (s.thread u).waiting = some (.joinsem r))
    (hd : (s.heap r).destroyed = true) : ¬ NoneLost s := by
  obtain ⟨hr, -⟩ := h.queued.wait u _ hu
  have hAt := h.agrees.stage r hr
  have hblocked : (s.thread u).blocked = true := by
    simpa [hAt.dead.mp hd, WaiterAt, Stage.late] using hAt.waiter u hu
  intro hnone
  obtain ⟨id, hmem, hkept⟩ := hnone u hblocked
  obtain rfl : .joinsem r = id :=
    Option.some.inj (hu.symm.trans (h.queued.sound id u hmem).2)
  exact hkept ⟨r, rfl, hr, hd⟩

/-- Only its own steps change what a thread waits for. -/
theorem Wf.step_waiting (hs : Wf s) {id : SemId} (hstep : Process.step s a = some (events, s'))
    (hne : u ≠ a.thread) (hu : (s.thread u).waiting = some id) :
    (s'.thread u).waiting = some id := by
  have hborn : u ≠ s.nextTid := by
    rintro rfl
    have hok := hs.control s.nextTid
    rw [hs.unborn _ le_rfl] at hok
    rw [show (s.thread s.nextTid).waiting = none from hok] at hu
    cases hu
  rw [(hs.step_others hstep hne hborn).2.1, hu]

/-- A thread at a system call is not the one of a process that is leaving. -/
theorem At.leaving_thread (h : At s r σ) (hσ : Stage.leaving σ = true)
    (hc : (s.thread t).control = .user) : (s.heap r).thread ≠ some t := by
  intro hthread
  have hown := h.owner t hthread
  cases σ with
  | granted => simp [OwnerAt, Exiting, hc] at hown
  | passed => simp [OwnerAt, hc] at hown
  | removed => simp [OwnerAt, hc] at hown
  | _ => cases hσ

/-- The state after a join that comes too late: its caller waits, and the process still leaves. -/
theorem Sound.late_join (h : Sound s g) {pc : BitVec 32} {pID : Int}
    (hstep : Process.step s ⟨t, .call pc (.join pID)⟩ = some (events, s'))
    (hp : s.pcb pID = some r) (hparent : (s.thread t).processID = (s.heap r).parentID)
    (hleaving : Leaving s r) :
    (s'.thread t).waiting = some (.joinsem r) ∧ s'.halted = false ∧
      (s'.heap r).thread ≠ some t ∧ ∃ g', Sound s' g' ∧ Stage.leaving (g' r) = true := by
  have hr := (h.wf.slot pID r hp).2.2.1
  have hAt := h.agrees.stage r hr
  have hσ := hAt.leaving_iff.mp hleaving
  have hvalue : (s.sem (.joinsem r)).value = 0 := by
    rw [hAt.joinValue]
    cases hstage : g r <;> simp [hstage, Stage.leaving] at hσ <;> rfl
  obtain ⟨g', hsound, hsig⟩ := h.advance hstep
  obtain ⟨hready, ⟨id, -, hgo, -⟩ | ⟨-, hm⟩⟩ := h.wf.step_cases hstep
  · cases hgo
  · obtain ⟨hevents, hwait, hhalt, hc, hthread⟩ := hm.join_waits hp hparent hvalue
    have hnext : (g r).next (.arrive t) = some (g' r) := by
      simpa [hevents, signal, List.filterMap_cons] using hsig r
    refine ⟨hwait, hhalt.trans hready.1, hthread ▸ hAt.leaving_thread hσ hc, g', hsound, ?_⟩
    have haccepts := accepts_of_next hnext
    generalize g r = σ, g' r = σ' at haccepts hσ
    cases haccepts with
    | arrive => cases hσ
    | late => exact hσ

/-- A join that comes too late has a continuation in which its caller is lost. -/
theorem Sound.late_join_lost (h : Sound s g) (hstep : Process.step s a = some (events, s'))
    (hlate : ¬ OnTime s a) :
    ∃ later s'', Run Process.step anyAct s' later s'' ∧ ¬ NoneLost s'' := by
  obtain ⟨t, i⟩ := a
  simp only [OnTime, not_forall, not_not] at hlate
  obtain ⟨pID, hjoins, r, hp, hparent, hleaving⟩ := hlate
  obtain ⟨pc, rfl⟩ := Input.eq_of_joins hjoins
  obtain ⟨hw, hhalt, hother, g', hsound, hσ⟩ := h.late_join hstep hp hparent hleaving
  obtain ⟨hr, -⟩ := hsound.queued.wait t _ hw
  by_cases hd : (s'.heap r).destroyed = true
  · exact ⟨[], s', .refl, hsound.lost hw hd⟩
  · -- the process goes on alone and deletes the semaphore its parent sleeps on
    have hstage : g' r = .granted ∨ g' r = .passed := by
      have hdead := (hsound.agrees.stage r hr).dead
      cases hg : g' r <;> simp [hg, Stage.leaving, hd] at hσ hdead ⊢
    obtain ⟨c, later, s'', hthread, hrun, hdestroy, -⟩ :=
      hsound.canGo (fun _ _ => rfl : ∀ s t, Process.step s ⟨t, .go⟩ = _) hhalt hr hstage
    have hne : t ≠ c := fun heq => hother (heq ▸ hthread)
    have hstill : Wf s'' ∧ (s''.thread t).waiting = some (.joinsem r) := by
      apply hrun.invariant
      · exact ⟨hsound.wf, hw⟩
      · intro s₁ a events s₂ hinv hact hstep₁
        obtain ⟨hs₁, hw₁⟩ := hinv
        exact ⟨hs₁.step hstep₁, hs₁.step_waiting hstep₁ (hact ▸ hne) hw₁⟩
    obtain ⟨g'', hsound'', -⟩ := run_signals hrun hsound
    exact ⟨later, s'', hrun.mono fun _ _ _ => trivial,
      hsound''.lost hstill.2 (hsound.wf.run_destroyed hrun hdestroy).2⟩

theorem run_attended {rawTable rawFrames : Nat → BitVec 32}
    (h : Run step OnTime (initial rawTable rawFrames) trace s) : ∃ g, Attended s g := by
  apply h.invariant
  · exact ⟨_, initial_sound _ _, by simp [initial]⟩
  · intro s₁ a events s₂ hinv hok hstep
    obtain ⟨g, hg⟩ := hinv
    exact hg.step hok hstep

/-- In every run whose joins are all on time, no thread is lost and no semaphore is deleted under
a waiter. A join that is not on time has a continuation in which a thread is lost. -/
theorem waiters_kept_on_time (rawTable rawFrames : Nat → BitVec 32) :
    (∀ trace s, Run step OnTime (initial rawTable rawFrames) trace s →
      NoneLost s ∧ DeletesEmpty s) ∧
    (∀ trace s a events s', Run step anyAct (initial rawTable rawFrames) trace s →
      step s a = some (events, s') → ¬ OnTime s a →
      ∃ later s'', Run step anyAct s' later s'' ∧ ¬ NoneLost s'') := by
  refine ⟨fun trace s h => ?_, fun trace s a events s' h hstep hlate => ?_⟩
  · obtain ⟨g, hg⟩ := run_attended h
    exact ⟨hg.noneLost, hg.deletesEmpty⟩
  · obtain ⟨g, hg, -⟩ := run_sound h
    exact hg.late_join_lost hstep hlate

end

/-- The initial process joins a child once and the child is removed: the join is on time. -/
theorem waiters_kept_single_join :
    ∃ trace s, Run step OnTime (initial (fun _ => 0) fun _ => 0) trace s ∧
      .destroy 1 ∈ trace ∧ NoneLost s ∧ DeletesEmpty s := by
  let acts : List Act :=
    startActs 0 Frames.smallHeader ++ execActs 0 "child" ++ startActs 1 Frames.smallHeader ++
      [⟨0, .call 0 (.join 1)⟩, ⟨1, .call 0 (.exit 0)⟩, ⟨0, .go⟩, ⟨0, .go⟩, ⟨1, .go⟩, ⟨1, .go⟩]
  have hallowed : Allowed step OnTime (initial (fun _ => 0) fun _ => 0) acts := by
    decide +kernel
  have hexec : ((execute step (initial (fun _ => 0) fun _ => 0) acts).any fun r =>
      .destroy 1 ∈ r.1) = true := by decide +kernel
  obtain ⟨⟨trace, s⟩, hexec, hd⟩ := (Option.any_eq_true _ _).mp hexec
  have h := run_of_execute hexec hallowed
  exact ⟨trace, s, h, of_decide_eq_true hd, (waiters_kept_on_time _ _).1 trace s h⟩

/-- The initial process joins its child a second time, after it has released the child and before
the child is removed: it is queued on `joinsem` when the child deletes it, and it sleeps for
ever. -/
theorem second_join_is_lost :
    ∃ trace s events s', Run step anyAct (initial (fun _ => 0) fun _ => 0) trace s ∧
      step s ⟨1, .go⟩ = some (events, s') ∧ .destroy 1 ∈ events ∧
      0 ∈ (s.sem (.joinsem 1)).queue ∧ (s'.thread 0).blocked = true ∧ ¬ NoneLost s' := by
  obtain ⟨trace, s, h, hqueue, hnext⟩ :=
    run_reaches step (initial (fun _ => 0) fun _ => 0)
      (fun _ s => 0 ∈ (s.sem (.joinsem 1)).queue ∧
        ((step s ⟨1, .go⟩).any fun r => .destroy 1 ∈ r.1 ∧
          (r.2.heap 1).destroyed = true ∧ (r.2.thread 0).blocked = true ∧
          (r.2.thread 0).waiting = some (.joinsem 1)) = true)
      (startActs 0 Frames.smallHeader ++ execActs 0 "child" ++ startActs 1 Frames.smallHeader ++
        [⟨0, .call 0 (.join 1)⟩, ⟨1, .call 0 (.exit 0)⟩, ⟨0, .go⟩, ⟨0, .go⟩,
          ⟨0, .call 0 (.join 1)⟩, ⟨1, .go⟩])
      (by decide +kernel)
  obtain ⟨⟨events, s'⟩, hstep, htest⟩ := (Option.any_eq_true _ _).mp hnext
  obtain ⟨hd, hdead, hblocked, hwait⟩ := of_decide_eq_true htest
  obtain ⟨g, hsound, -⟩ := run_sound (h.snoc trivial hstep)
  exact ⟨trace, s, events, s', h, hstep, hd, hqueue, hblocked, hsound.lost hwait hdead⟩

end Nachos.Process
