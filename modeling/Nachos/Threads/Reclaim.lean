import Nachos.Library.Monitor
import Nachos.Threads.Scheduler

/-!
# Deleting finished threads

`Finish` leaves the thread in `threadToBeDestroyed`, and the next thread that comes back from
`SWITCH` deletes it. A thread that runs for the first time starts in `ThreadRoot` and deletes
nothing. So a finished thread is lost when a second thread finishes before one has come back, and
only then.
-/

namespace Nachos.Scheduler

open Transition
open Interrupt (IntStatus)

variable {T S : Type}

/-- The threads that have been deleted. -/
def deleted (trace : List (Event T)) : List T :=
  trace.filterMap fun
    | .deleted t => some t
    | _ => none

/-- The threads deleted in two parts of a trace. -/
theorem deleted_append (first second : List (Event T)) :
    deleted (first ++ second) = deleted first ++ deleted second :=
  List.filterMap_append

/-- Whether a thread has finished and none has come back from `SWITCH` since. A second call of
`Finish` is refused then. -/
def watch : Bool → Event T → Option Bool
  | true, .finished _ => none
  | false, .finished _ => some true
  | _, .resumed _ => some false
  | waiting, _ => some waiting

/-- Between two calls of `Finish` a thread that has run before gets the processor. -/
def Separated (trace : List (Event T)) : Prop := (Monitor.run watch false trace).isSome

/-! ## What the actions do to `threadToBeDestroyed` -/

/-- The operation does not touch `threadToBeDestroyed`. -/
def Keeps (s : State T S) (x : Except Failure (State T S)) : Prop :=
  ∀ s', x = .ok s' → s'.threadToBeDestroyed = s.threadToBeDestroyed

section Keeps

variable {s s₁ : State T S} {x : Except Failure (State T S)}

/-- The variable is left alone. -/
theorem keeps_ok (h : s₁.threadToBeDestroyed = s.threadToBeDestroyed) : Keeps s (.ok s₁) := by
  intro s' hs
  cases hs
  exact h

/-- A failure leaves no state. -/
theorem keeps_error {e : Failure} : Keeps s (.error e) := by
  intro s' hs
  cases hs

/-- Sections that leave it alone compose. -/
theorem Keeps.bind {f : State T S → Except Failure (State T S)} (hx : Keeps s x)
    (hf : ∀ s₁, s₁.threadToBeDestroyed = s.threadToBeDestroyed → Keeps s₁ (f s₁)) :
    Keeps s (x >>= f) := by
  intro s' hs
  obtain ⟨s₁, hfirst, hs⟩ := ok_of_bind hs
  have hkept := hx s₁ hfirst
  exact (hf s₁ hkept s' hs).trans hkept

/-- `SetLevel` leaves it alone. -/
theorem setLevel_keeps (now : IntStatus) : Keeps s (setLevel s now) := by
  unfold setLevel
  split
  · exact keeps_error
  · split <;> exact keeps_ok rfl

variable [DecidableEq T]

/-- So does the loop of `Sleep`. -/
theorem sleepLoop_keeps : (sleepLoop s).threadToBeDestroyed = s.threadToBeDestroyed := by
  cases hready : s.readyList with
  | nil => simp [sleepLoop, findNextToRun_nil hready]
  | cons t rest => simp [sleepLoop, findNextToRun_cons hready, run]

/-- So does `Yield`. -/
theorem yield_keeps : Keeps s (yield s) := by
  cases hready : s.readyList with
  | nil =>
    rw [yield_nil hready]
    exact setLevel_keeps s.level
  | cons t rest =>
    rw [yield_cons hready]
    exact keeps_ok sleepLoop_keeps

/-- So does `Sleep`. -/
theorem sleep_keeps (back : Resume S) : Keeps s (sleep s back) := by
  unfold sleep
  split
  · exact keeps_error
  · exact keeps_ok sleepLoop_keeps

/-- So does the end of a tick. -/
theorem endTick_keeps : Keeps s (endTick s) := by
  unfold endTick
  split
  · exact yield_keeps
  · exact keeps_ok rfl

variable [DecidableEq S]

/-- So does a pass through the loop of `P`. -/
theorem loopP_keeps (sem : S) (oldLevel : IntStatus) : Keeps s (loopP s sem oldLevel) := by
  unfold loopP
  split
  · exact sleep_keeps (.P sem oldLevel)
  · exact setLevel_keeps oldLevel

/-- So does waking a thread. -/
theorem wake_keeps (sem : S) : (wake s sem).threadToBeDestroyed = s.threadToBeDestroyed := by
  simp only [wake]
  split <;> rfl

/-- So does `V`. -/
theorem V_keeps (sem : S) : Keeps s (V s sem) := by
  rw [V_eq]
  intro s' hs
  exact (setLevel_keeps s.level s' hs).trans (wake_keeps sem)

/-- So does an interrupt handler. -/
theorem handler_keeps (vs : List S) (yieldOnReturn : Bool) :
    Keeps s (handler s vs yieldOnReturn) := by
  refine Keeps.bind (x := vs.foldlM V { s with inHandler := true }) ?_ fun s₁ _ => keeps_ok rfl
  suffices h : ∀ s : State T S, Keeps s (vs.foldlM V s) from h _
  induction vs with
  | nil => exact fun s => keeps_ok rfl
  | cons sem rest ih =>
    intro s
    rw [List.foldlM_cons]
    exact (V_keeps sem).bind fun s₁ _ => ih s₁

end Keeps

/-- What an action does to `threadToBeDestroyed`, and the events that go with it. -/
inductive Disposal (s s' : State T S) : List (Event T) → Prop where
  /-- Nothing; a new thread may have been forked or started. -/
  | none {events : List (Event T)} :
      (∀ e ∈ events, ∃ t, e = .forked t ∨ e = .started t) →
      s'.threadToBeDestroyed = s.threadToBeDestroyed → Disposal s s' events
  /-- The current thread finishes. -/
  | finish : s.mode = .code → s'.threadToBeDestroyed = some s.currentThread →
      Disposal s s' (s.threadToBeDestroyed.toList.map .overwritten ++ [.finished s.currentThread])
  /-- A thread comes back from `SWITCH`. -/
  | resume : s'.threadToBeDestroyed = none →
      Disposal s s' (.resumed s.currentThread :: s.threadToBeDestroyed.toList.map .deleted)

section Disposal

variable {s s' : State T S} {events : List (Event T)}

/-- A section without events that leaves it alone. -/
theorem disposal_silent {x : Except Failure (State T S)} (hkeeps : Keeps s x)
    (h : silent x = .ok (events, s')) : Disposal s s' events := by
  cases x with
  | error e => cases h
  | ok s₁ =>
    cases h
    exact .none (by simp) (hkeeps _ rfl)

variable [DecidableEq T]

/-- After `SWITCH` nothing is left to be deleted. -/
theorem afterSwitch_eq {s₁ : State T S} (h : afterSwitch s = .ok (events, s₁)) :
    events = s.threadToBeDestroyed.toList.map .deleted ∧ s₁.threadToBeDestroyed = none := by
  unfold afterSwitch at h
  split at h
  · rename_i hnone
    cases h
    exact ⟨by simp [hnone], hnone⟩
  · rename_i t hsome
    split at h
    · cases h
    · cases h
      exact ⟨by simp [hsome], rfl⟩

/-- `Fork` leaves the variable alone. -/
theorem fork_disposal {thread : T} (h : fork s thread = .ok (events, s')) :
    Disposal s s' events := by
  unfold fork at h
  split at h
  · cases h
  · obtain ⟨s₁, hoff, h⟩ := ok_of_bind h
    obtain ⟨s₂, hset, h⟩ := ok_of_bind h
    cases h
    have hkept := setLevel_keeps _ _ hoff
    have hkept' := setLevel_keeps _ _ hset
    exact .none (by simp) (hkept'.trans hkept)

/-- `Finish` puts the thread into the variable. -/
theorem finish_disposal (hmode : s.mode = .code) (h : finish s = .ok (events, s')) :
    Disposal s s' events := by
  simp only [finish, setLevel_off] at h
  obtain ⟨s₁, hoff, h⟩ := ok_of_bind h
  cases hoff
  obtain ⟨s₂, hsleep, h⟩ := ok_of_bind h
  cases h
  exact .finish hmode (sleep_keeps _ _ hsleep)

variable [DecidableEq S]

/-- Going on after a switch deletes the thread that waits for it. -/
theorem goOn_disposal (h : goOn s = .ok (events, s')) : Disposal s s' events := by
  simp only [goOn] at h
  split at h
  · obtain ⟨s₁, hset, h⟩ := ok_of_bind h
    cases h
    have hkept := setLevel_keeps _ _ hset
    exact .none (by simp) hkept
  · obtain ⟨⟨gone, s₁⟩, hswitch, h⟩ := ok_of_bind h
    obtain ⟨s₂, hset, h⟩ := ok_of_bind h
    cases h
    obtain ⟨rfl, hnone⟩ := afterSwitch_eq hswitch
    exact .resume ((setLevel_keeps _ _ hset).trans hnone)
  · obtain ⟨⟨gone, s₁⟩, hswitch, h⟩ := ok_of_bind h
    obtain ⟨s₂, hloop, h⟩ := ok_of_bind h
    cases h
    obtain ⟨rfl, hnone⟩ := afterSwitch_eq hswitch
    exact .resume ((loopP_keeps _ _ _ hloop).trans hnone)
  · cases h

/-- Every action is of one of the three kinds. -/
theorem step_disposal {act : Act T S} (h : step s act = some (events, s')) :
    Disposal s s' events := by
  have hperform : perform s act = .ok (events, s') := ok_of_toOption h
  unfold perform at hperform
  split at hperform
  · exact fork_disposal hperform
  · exact disposal_silent yield_keeps hperform
  · rename_i hmode
    exact finish_disposal hmode hperform
  · exact disposal_silent ((setLevel_keeps _).bind fun s₁ _ => loopP_keeps _ _) hperform
  · exact disposal_silent (V_keeps _) hperform
  · cases hperform
    exact .none (by simp) rfl
  · exact disposal_silent (handler_keeps _ _) hperform
  · exact disposal_silent (handler_keeps _ _) hperform
  · exact disposal_silent endTick_keeps hperform
  · cases hperform
    exact .none (by simp) sleepLoop_keeps
  · exact goOn_disposal hperform
  · cases hperform

end Disposal

/-! ## What has been deleted -/

/-- The finished threads that have been deleted or still can be. -/
structure Reclaimed (trace : List (Event T)) (s : State T S) : Prop where
  once : (deleted trace ++ s.threadToBeDestroyed.toList).Nodup
  finished : ∀ t ∈ deleted trace ++ s.threadToBeDestroyed.toList, t ∈ finished trace
  /-- As long as the calls of `Finish` are separated, these are all of them. -/
  all : ∀ waiting, Monitor.run watch false trace = some waiting →
    Scheduler.finished trace = deleted trace ++ s.threadToBeDestroyed.toList ∧
      s.threadToBeDestroyed.isSome = waiting ∧ ∀ t, .overwritten t ∉ trace
  /-- After that, there are fewer. -/
  lost : Monitor.run watch false trace = none →
    (deleted trace ++ s.threadToBeDestroyed.toList).length < (Scheduler.finished trace).length ∧
      ∃ t, .overwritten t ∈ trace

section Reclaimed

variable {trace events : List (Event T)} {s s' : State T S}

/-- Forking and starting threads are not watched. -/
theorem run_watch_quiet (hquiet : ∀ e ∈ events, ∃ t, e = .forked t ∨ e = .started t)
    (waiting : Bool) : Monitor.run watch waiting events = some waiting := by
  induction events with
  | nil => rfl
  | cons e rest ih =>
    obtain ⟨t, rfl | rfl⟩ := hquiet _ List.mem_cons_self
    all_goals
      have := ih fun e he => hquiet e (List.mem_cons_of_mem _ he)
      cases waiting <;> simpa [watch] using this

/-- Events between which no thread finishes or is overwritten. -/
theorem Reclaimed.keep (h : Reclaimed trace s) {trace' : List (Event T)}
    (hfinished : Scheduler.finished trace' = Scheduler.finished trace)
    (hdeleted : deleted trace' ++ s'.threadToBeDestroyed.toList =
      deleted trace ++ s.threadToBeDestroyed.toList)
    (hkept : ∀ u, .overwritten u ∈ trace' ↔ .overwritten u ∈ trace)
    (hall : ∀ waiting, Monitor.run watch false trace' = some waiting →
      ∃ before, Monitor.run watch false trace = some before ∧
        s'.threadToBeDestroyed.isSome = waiting)
    (hlost : Monitor.run watch false trace' = none → Monitor.run watch false trace = none) :
    Reclaimed trace' s' := by
  constructor
  · rw [hdeleted]
    exact h.once
  · rw [hdeleted, hfinished]
    exact h.finished
  · intro waiting hrun
    obtain ⟨before, hbefore, hsome⟩ := hall waiting hrun
    obtain ⟨heq, -, hkeep⟩ := h.all before hbefore
    exact ⟨by rw [hfinished, hdeleted, heq], hsome, fun u => mt (hkept u).mp (hkeep u)⟩
  · intro hrun
    rw [hdeleted, hfinished]
    simpa only [hkept] using h.lost (hlost hrun)

/-- Events other than ends and deletions change nothing. -/
theorem Reclaimed.quiet (h : Reclaimed trace s)
    (hquiet : ∀ e ∈ events, ∃ t, e = .forked t ∨ e = .started t)
    (hkept : s'.threadToBeDestroyed = s.threadToBeDestroyed) :
    Reclaimed (trace ++ events) s' := by
  have hfinished : Scheduler.finished (trace ++ events) = Scheduler.finished trace := by
    rw [finished_append, List.append_right_eq_self, Scheduler.finished, List.filterMap_eq_nil_iff]
    intro e he
    obtain ⟨t, rfl | rfl⟩ := hquiet e he <;> rfl
  have hdeleted : deleted (trace ++ events) = deleted trace := by
    rw [deleted_append, List.append_right_eq_self, deleted, List.filterMap_eq_nil_iff]
    intro e he
    obtain ⟨t, rfl | rfl⟩ := hquiet e he <;> rfl
  have hwatch : Monitor.run watch false (trace ++ events) = Monitor.run watch false trace := by
    rw [Monitor.run_append]
    cases hrun : Monitor.run watch false trace with
    | none => rfl
    | some waiting => exact run_watch_quiet hquiet waiting
  have hmem : ∀ t, .overwritten t ∈ trace ++ events ↔ .overwritten t ∈ trace := by
    intro t
    rw [List.mem_append, or_iff_left]
    intro he
    obtain ⟨u, heq | heq⟩ := hquiet _ he <;> cases heq
  refine h.keep hfinished (by rw [hdeleted, hkept]) hmem (fun waiting hrun => ?_)
    fun hrun => hwatch ▸ hrun
  rw [hwatch] at hrun
  exact ⟨waiting, hrun, by rw [hkept, (h.all waiting hrun).2.1]⟩

/-- The current thread, which has not finished before, finishes. -/
theorem Reclaimed.finish (h : Reclaimed trace s) {t : T} (ht : t ∉ Scheduler.finished trace)
    (hsome : s'.threadToBeDestroyed = some t) :
    Reclaimed (trace ++ (s.threadToBeDestroyed.toList.map .overwritten ++ [.finished t])) s' := by
  set events : List (Event T) :=
    s.threadToBeDestroyed.toList.map .overwritten ++ [.finished t] with hevents
  have hfinished : Scheduler.finished (trace ++ events) = Scheduler.finished trace ++ [t] := by
    cases hd : s.threadToBeDestroyed <;> simp [hevents, hd, Scheduler.finished]
  have hdeleted : deleted (trace ++ events) = deleted trace := by
    cases hd : s.threadToBeDestroyed <;> simp [hevents, hd, deleted]
  have hwatch : Monitor.run watch false (trace ++ events) =
      (Monitor.run watch false trace).bind fun waiting => if waiting then none else some true := by
    rw [Monitor.run_append]
    congr 1
    funext waiting
    cases hd : s.threadToBeDestroyed <;> cases waiting <;> simp [hevents, hd, watch]
  have hkept : ∀ u, .overwritten u ∈ trace ++ events ↔
      .overwritten u ∈ trace ∨ s.threadToBeDestroyed = some u := by
    intro u
    cases hd : s.threadToBeDestroyed <;> simp [hevents, hd, eq_comm]
  have honce := (List.nodup_append.mp h.once).1
  constructor
  · rw [hdeleted, hsome]
    refine List.Nodup.append honce (List.nodup_singleton t) ?_
    have hnot : t ∉ deleted trace := fun hmem => ht (h.finished t (List.mem_append_left _ hmem))
    simpa using hnot
  · rw [hdeleted, hsome, hfinished]
    intro u hu
    rw [List.mem_append] at hu ⊢
    exact hu.imp_left fun hu => h.finished u (List.mem_append_left _ hu)
  · intro waiting hrun
    rw [hwatch, Option.bind_eq_some_iff] at hrun
    obtain ⟨before, hbefore, hrun⟩ := hrun
    obtain ⟨hall, hnone, hkeep⟩ := h.all before hbefore
    cases before with
    | true => cases hrun
    | false =>
      cases hrun
      have hnone : s.threadToBeDestroyed = none := by simpa using hnone
      refine ⟨?_, by simp [hsome], fun u => ?_⟩
      · rw [hfinished, hdeleted, hall, hnone, hsome]
        simp
      · rw [hkept, hnone]
        simpa using hkeep u
  · intro hrun
    rw [hwatch, Option.bind_eq_none_iff] at hrun
    simp only [hdeleted, hsome, hfinished, hkept, List.length_append, Option.toList_some,
      List.length_singleton]
    cases hbefore : Monitor.run watch false trace with
    | none =>
      obtain ⟨hless, u, hu⟩ := h.lost hbefore
      rw [List.length_append] at hless
      exact ⟨by omega, u, .inl hu⟩
    | some before =>
      obtain ⟨hall, hd, -⟩ := h.all before hbefore
      have := hrun before hbefore
      cases before with
      | false => simp at this
      | true =>
        obtain ⟨d, hd⟩ := Option.isSome_iff_exists.mp hd
        rw [hall, hd]
        exact ⟨by simp, d, .inr rfl⟩

/-- A thread comes back from `SWITCH`. -/
theorem Reclaimed.resume (h : Reclaimed trace s) {t : T} (hnone : s'.threadToBeDestroyed = none) :
    Reclaimed (trace ++ .resumed t :: s.threadToBeDestroyed.toList.map .deleted) s' := by
  set events : List (Event T) :=
    .resumed t :: s.threadToBeDestroyed.toList.map .deleted with hevents
  have hfinished : Scheduler.finished (trace ++ events) = Scheduler.finished trace := by
    cases hd : s.threadToBeDestroyed <;> simp [hevents, hd, Scheduler.finished]
  have hdeleted : deleted (trace ++ events) ++ s'.threadToBeDestroyed.toList =
      deleted trace ++ s.threadToBeDestroyed.toList := by
    cases hd : s.threadToBeDestroyed <;> simp [hevents, hd, deleted, hnone]
  have hwatch : Monitor.run watch false (trace ++ events) =
      (Monitor.run watch false trace).map fun _ => false := by
    rw [Monitor.run_append, Option.map_eq_bind]
    congr 1
    funext waiting
    cases hd : s.threadToBeDestroyed <;> cases waiting <;> simp [hevents, hd, watch]
  have hkept : ∀ u, .overwritten u ∈ trace ++ events ↔ .overwritten u ∈ trace := by
    intro u
    cases hd : s.threadToBeDestroyed <;> simp [hevents, hd]
  refine h.keep hfinished hdeleted hkept (fun waiting hrun => ?_) fun hrun => ?_
  · rw [hwatch, Option.map_eq_some_iff] at hrun
    obtain ⟨before, hbefore, rfl⟩ := hrun
    exact ⟨before, hbefore, by rw [hnone]; rfl⟩
  · rwa [hwatch, Option.map_eq_none_iff] at hrun

/-- What one step does to the account. -/
theorem Reclaimed.step {main : T} {place : T → Place S} (h : Reclaimed trace s)
    (hplace : Consistent main trace place s) (hs : Disposal s s' events) :
    Reclaimed (trace ++ events) s' := by
  cases hs with
  | none hquiet hkept => exact h.quiet hquiet hkept
  | finish hmode hsome =>
    refine h.finish (fun hmem => ?_) hsome
    have hgone := (hplace.located.gone.mem _).mp hmem
    simp [hplace.mode_code hmode] at hgone
  | resume hnone => exact h.resume hnone

/-- The calls of `Finish` are separated exactly if no finished thread is lost. -/
theorem Reclaimed.separated_iff (h : Reclaimed trace s) :
    Separated trace ↔
      Scheduler.finished trace = deleted trace ++ s.threadToBeDestroyed.toList := by
  unfold Separated
  cases hrun : Monitor.run watch false trace with
  | none =>
    have hless := (h.lost hrun).1
    refine ⟨(absurd · Bool.false_ne_true), fun heq => ?_⟩
    rw [heq] at hless
    exact absurd hless (Nat.lt_irrefl _)
  | some waiting => exact ⟨fun _ => (h.all waiting hrun).1, fun _ => rfl⟩

/-- That is, exactly if the variable is never overwritten. -/
theorem Reclaimed.overwritten_iff (h : Reclaimed trace s) :
    Separated trace ↔ ∀ t, .overwritten t ∉ trace := by
  unfold Separated
  cases hrun : Monitor.run watch false trace with
  | none =>
    obtain ⟨-, t, ht⟩ := h.lost hrun
    exact ⟨(absurd · Bool.false_ne_true), fun hnot => absurd ht (hnot t)⟩
  | some waiting => exact ⟨fun _ => (h.all waiting hrun).2.2, fun _ => rfl⟩

variable [DecidableEq T] [DecidableEq S]

/-- The account along a run. -/
theorem reclaimed_run {main : T} {initialValue : S → Int}
    (hrun : Run step anyAct (State.new main initialValue) trace s) : Reclaimed trace s := by
  induction hrun with
  | refl =>
    refine ⟨List.nodup_nil, by simp [deleted, State.new], fun waiting hw => ?_, ?_⟩
    · cases hw
      exact ⟨rfl, rfl, by simp⟩
    · intro hw
      cases hw
  | snoc hbefore _ hs ih =>
    obtain ⟨place, hplace⟩ := consistent_run hbefore
    exact ih.step hplace (step_disposal hs)

end Reclaimed

variable [DecidableEq T] [DecidableEq S]

/-- Finished threads are deleted at most once, and never without having finished. A thread that
comes back from `SWITCH` leaves none to be deleted. If and only if such a thread runs between any
two calls of `Finish`, `threadToBeDestroyed` is never overwritten, all finished threads except the
one it refers to have been deleted, and so at most one is undeleted. -/
theorem finished_reclaimed_iff {main : T} {initialValue : S → Int} {trace : List (Event T)}
    {s : State T S} (hrun : Run step anyAct (State.new main initialValue) trace s) :
    (finished trace).Nodup ∧ (deleted trace).Nodup ∧ (∀ t ∈ deleted trace, t ∈ finished trace) ∧
    (∀ act events s' t, step s act = some (events, s') → .resumed t ∈ events →
      s'.threadToBeDestroyed = none) ∧
    (Separated trace ↔ ∀ t, .overwritten t ∉ trace) ∧
    (Separated trace ↔ finished trace = deleted trace ++ s.threadToBeDestroyed.toList) ∧
    (Separated trace → ∀ t u, t ∈ finished trace → u ∈ finished trace → t ∉ deleted trace →
      u ∉ deleted trace → t = u) := by
  obtain ⟨place, hplace⟩ := consistent_run hrun
  have h := reclaimed_run hrun
  refine ⟨hplace.located.gone.nodup, (List.nodup_append.mp h.once).1,
    fun t ht => h.finished t (List.mem_append_left _ ht), fun act events s' t hs hmem => ?_,
    h.overwritten_iff, h.separated_iff, fun hsep t u ht hu hnt hnu => ?_⟩
  · cases step_disposal hs with
    | none hquiet _ =>
      obtain ⟨u, heq | heq⟩ := hquiet _ hmem <;> cases heq
    | finish _ _ => simp at hmem
    | resume hnone => exact hnone
  · rw [h.separated_iff.mp hsep, List.mem_append, Option.mem_toList] at ht hu
    have ht := ht.resolve_left hnt
    have hu := hu.resolve_left hnu
    exact Option.some.inj (ht.symm.trans hu)

/-- A thread that finishes and is deleted by the thread that forked it. -/
theorem finished_reclaimed_one : ∃ trace, ∃ s : State Nat Unit,
    Run step anyAct (State.new 0 fun _ => 0) trace s ∧ Separated trace ∧ deleted trace = [1] ∧
    finished trace = deleted trace ++ s.threadToBeDestroyed.toList := by
  obtain ⟨trace, s, hrun, hsep, hdeleted⟩ :=
    run_reaches step (State.new 0 fun _ => 0 : State Nat Unit)
      (fun trace _ => (Monitor.run watch false trace).isSome ∧ deleted trace = [1])
      [.fork 1, .goOn, .yield, .goOn, .goOn, .finish, .goOn]
      (by decide +kernel)
  exact ⟨trace, s, hrun, hsep, hdeleted, (finished_reclaimed_iff hrun).2.2.2.2.2.1.mp hsep⟩

/-- A finished thread that `threadToBeDestroyed` no longer refers to is never deleted. -/
theorem lost_forever {main : T} {initialValue : S → Int} {trace later : List (Event T)}
    {s s' : State T S} (hrun : Run step anyAct (State.new main initialValue) trace s) {t : T}
    (hfinished : t ∈ finished trace) (hdeleted : t ∉ deleted trace)
    (hother : s.threadToBeDestroyed ≠ some t) (hlater : Run step anyAct s later s') :
    t ∉ deleted (trace ++ later) ∧ s'.threadToBeDestroyed ≠ some t := by
  induction hlater with
  | refl => exact ⟨by simpa using hdeleted, hother⟩
  | @snoc before events s₁ s₂ act hbefore _ hs ih =>
    obtain ⟨hnot, hne⟩ := ih
    obtain ⟨place, hplace⟩ := consistent_run (hrun.append hbefore)
    rw [← List.append_assoc, deleted_append, List.mem_append, not_or]
    cases step_disposal hs with
    | none hquiet hkept =>
      refine ⟨⟨hnot, fun hmem => ?_⟩, hkept ▸ hne⟩
      obtain ⟨e, he, hte⟩ := List.mem_filterMap.mp hmem
      obtain ⟨u, rfl | rfl⟩ := hquiet e he <;> cases hte
    | finish hmode hsome =>
      refine ⟨⟨hnot, ?_⟩, fun heq => ?_⟩
      · cases hd : s₁.threadToBeDestroyed <;> simp [deleted]
      · -- the current thread has not finished
        have hcur : s₁.currentThread = t := Option.some.inj (hsome.symm.trans heq)
        have hgone := (hplace.located.gone.mem t).mp
          (by rw [finished_append]; exact List.mem_append_left _ hfinished)
        simp [← hcur, hplace.mode_code hmode] at hgone
    | resume hnone =>
      refine ⟨⟨hnot, ?_⟩, by simp [hnone]⟩
      cases hd : s₁.threadToBeDestroyed with
      | none => simp [deleted]
      | some d =>
        have : t ≠ d := fun heq => hne (heq ▸ hd)
        simpa [deleted] using this

/-- The main thread forks two threads and yields. The first one finishes, the second one starts in
`ThreadRoot` and finishes too: the first one is never deleted. -/
theorem finished_lost : ∃ trace, ∃ s : State Nat Unit,
    Run step anyAct (State.new 0 fun _ => 0) trace s ∧ finished trace = [1, 2] ∧
    .overwritten 1 ∈ trace ∧ s.currentThread = 0 ∧
    ∀ later s', Run step anyAct s later s' → 1 ∉ deleted (trace ++ later) := by
  obtain ⟨trace, s, hrun, hfinished, hover, hcur, hdeleted, hnone⟩ :=
    run_reaches step (State.new 0 fun _ => 0 : State Nat Unit)
      (fun trace s => finished trace = [1, 2] ∧ .overwritten 1 ∈ trace ∧ s.currentThread = 0 ∧
        deleted trace = [2] ∧ s.threadToBeDestroyed = none)
      [.fork 1, .goOn, .fork 2, .goOn, .yield, .goOn, .goOn, .finish, .goOn, .goOn, .finish, .goOn]
      (by decide +kernel)
  refine ⟨trace, s, hrun, hfinished, hover, hcur, fun later s' hlater => ?_⟩
  exact (lost_forever hrun (by simp [hfinished]) (by simp [hdeleted]) (by simp [hnone]) hlater).1

end Nachos.Scheduler
