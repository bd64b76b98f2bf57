import Nachos.Threads.Scheduler

/-!
# The order in which threads run

`ReadyToRun` appends to the ready list and `FindNextToRun` takes its first thread, whether the
processor is given up in `Yield`, in `Sleep`, at the end of an interrupt or in the loop of `P`. So
in every run the threads are served first come, first served (`ready_in_order`).
-/

namespace Nachos.Scheduler

open Transition
open Interrupt (IntStatus)

variable {T S : Type}

/-- The threads that have got the processor, in order. -/
def dispatched (trace : List (Event T)) : List T :=
  trace.filterMap fun
    | .started t => some t
    | .resumed t => some t
    | _ => none

/-- The threads that wait for the processor: the one that is being switched to, if there is one, and
those on the ready list. -/
def line (s : State T S) : List T :=
  if s.mode = .switched then s.currentThread :: s.readyList else s.readyList

section

variable {s s₁ s' : State T S} {events : List (Event T)} {sem : S} {now : IntStatus}

/-- There has been no switch, and the ready list may have grown. -/
structure Still (s s' : State T S) : Prop where
  mode : s'.mode ≠ .switched
  ready : s.readyList <+: s'.readyList

/-- Threads are only added at the end. -/
theorem Still.line (h : Still s s') : s.readyList <+: line s' := by
  rw [Scheduler.line, if_neg h.mode]
  exact h.ready

/-- `SetLevel` does not switch. -/
theorem still_setLevel (h : setLevel s now = .ok s') (hmode : s.mode ≠ .switched) :
    Still s s' := by
  unfold setLevel at h
  split_ifs at h
  · cases h
    exact ⟨by simp, List.prefix_rfl⟩
  · cases h
    exact ⟨hmode, List.prefix_rfl⟩

variable [DecidableEq T]

/-- `Sleep` takes the first thread. -/
theorem line_sleepLoop (s : State T S) : line (sleepLoop s) = s.readyList := by
  cases hready : s.readyList with
  | nil =>
    simp only [sleepLoop, findNextToRun_nil hready]
    exact hready
  | cons t rest =>
    simp only [sleepLoop, findNextToRun_cons hready]
    rfl

/-- The others stay in line. -/
theorem line_sleep {back : Resume S} (h : sleep s back = .ok s') : s.readyList <+: line s' := by
  unfold sleep at h
  split_ifs at h
  cases h
  exact ⟨[], by rw [List.append_nil, line_sleepLoop]⟩

/-- In `Yield` too. -/
theorem line_yield (h : yield s = .ok s') : s.readyList <+: line s' := by
  cases hready : s.readyList with
  | nil => exact List.nil_prefix
  | cons t rest =>
    rw [yield_cons hready] at h
    cases h
    rw [line_sleepLoop, ← hready]
    exact List.prefix_append _ _

theorem afterSwitch_still (h : afterSwitch s = .ok (events, s₁)) :
    dispatched events = [] ∧ s₁.mode = s.mode ∧ s₁.readyList = s.readyList := by
  unfold afterSwitch at h
  split at h
  · cases h
    exact ⟨rfl, rfl, rfl⟩
  · split_ifs at h
    cases h
    exact ⟨rfl, rfl, rfl⟩

variable [DecidableEq S]

/-- `V` does not switch either. -/
theorem still_V (h : V s sem = .ok s') (hmode : s.mode ≠ .switched) : Still s s' := by
  rw [V_eq] at h
  have hset := still_setLevel h (ne_of_eq_of_ne (wake_mode sem) hmode)
  refine ⟨hset.mode, List.IsPrefix.trans ?_ hset.ready⟩
  unfold wake
  dsimp only
  split
  · exact List.prefix_rfl
  · exact List.prefix_append _ _

/-- The calls of `V` in a handler. -/
theorem still_foldlM {vs : List S} (h : vs.foldlM V s = .ok s') (hmode : s.mode ≠ .switched) :
    Still s s' := by
  induction vs generalizing s with
  | nil =>
    cases h
    exact ⟨hmode, List.prefix_rfl⟩
  | cons sem rest ih =>
    rw [List.foldlM_cons] at h
    obtain ⟨s₁, hfirst, hrest⟩ := ok_of_bind h
    have hstill := still_V hfirst hmode
    have hlater := ih hrest hstill.mode
    exact ⟨hlater.mode, hstill.ready.trans hlater.ready⟩

/-- `P` keeps the line. -/
theorem line_loopP (h : loopP s sem now = .ok s') (hmode : s.mode ≠ .switched) :
    s.readyList <+: line s' := by
  unfold loopP at h
  split at h
  · exact (line_sleep h :)
  · exact (still_setLevel h hmode).line

/-- The actions that do not follow a switch dispatch nobody. -/
theorem line_perform {act : Act T S} (hmode : s.mode ≠ .switched)
    (h : perform s act = .ok (events, s')) : dispatched events = [] ∧ s.readyList <+: line s' := by
  have hsilent : ∀ {x}, silent x = .ok (events, s') → (x = .ok s' → s.readyList <+: line s') →
      dispatched events = [] ∧ s.readyList <+: line s' := by
    intro x hx hline
    cases x with
    | error e => cases hx
    | ok s₁ =>
      cases hx
      exact ⟨rfl, hline rfl⟩
  have hhandler : ∀ {vs y}, handler s vs y = .ok s' → s.readyList <+: line s' := by
    intro vs y hcall
    obtain ⟨s₁, hloop, hcall⟩ := ok_of_bind hcall
    cases hcall
    have hstill := still_foldlM hloop hmode
    exact Still.line ⟨hstill.mode, hstill.ready⟩
  unfold perform at h
  split at h
  case h_1 thread _ =>
    unfold fork at h
    split_ifs at h
    obtain ⟨s₁, hoff, h⟩ := ok_of_bind h
    cases (setLevel_off _).symm.trans hoff
    obtain ⟨s₂, hset, h⟩ := ok_of_bind h
    cases h
    exact ⟨rfl, (List.prefix_append _ _).trans (still_setLevel hset hmode).line⟩
  case h_2 => exact hsilent h line_yield
  case h_3 =>
    obtain ⟨s₁, hoff, h⟩ := ok_of_bind h
    cases (setLevel_off s).symm.trans hoff
    obtain ⟨s₂, hsleep, h⟩ := ok_of_bind h
    cases h
    refine ⟨?_, (line_sleep hsleep :)⟩
    cases s.threadToBeDestroyed <;> rfl
  case h_4 =>
    simp only [P, setLevel_off, bind, Except.bind] at h
    exact hsilent h fun hloop => (line_loopP hloop hmode :)
  case h_5 => exact hsilent h fun hv => (still_V hv hmode).line
  case h_6 =>
    cases h
    exact ⟨rfl, List.prefix_rfl⟩
  case h_7 | h_8 => exact hsilent h hhandler
  case h_9 =>
    refine hsilent h fun htick => ?_
    unfold endTick at htick
    split at htick
    · exact (line_yield htick :)
    · cases htick
      exact List.prefix_rfl
  case h_10 =>
    cases h
    rw [line_sleepLoop]
    exact ⟨rfl, List.prefix_rfl⟩
  case h_11 hswitched => exact absurd hswitched hmode
  case h_12 => cases h

/-- The thread that has been switched to goes on. -/
theorem line_goOn (h : goOn s = .ok (events, s')) :
    dispatched events = [s.currentThread] ∧ s.readyList <+: line s' := by
  unfold goOn at h
  dsimp only at h
  split at h
  · obtain ⟨s₁, hset, h⟩ := ok_of_bind h
    cases h
    exact ⟨rfl, (still_setLevel hset (by simp)).line⟩
  · obtain ⟨⟨later, s₁⟩, hafter, h⟩ := ok_of_bind h
    obtain ⟨s₂, hset, h⟩ := ok_of_bind h
    cases h
    obtain ⟨hnone, hmode, hready⟩ := afterSwitch_still hafter
    refine ⟨congrArg (s.currentThread :: ·) hnone, ?_⟩
    exact hready ▸ (still_setLevel hset (by simp [hmode])).line
  · obtain ⟨⟨later, s₁⟩, hafter, h⟩ := ok_of_bind h
    obtain ⟨s₂, hloop, h⟩ := ok_of_bind h
    cases h
    obtain ⟨hnone, hmode, hready⟩ := afterSwitch_still hafter
    refine ⟨congrArg (s.currentThread :: ·) hnone, ?_⟩
    exact hready ▸ line_loopP hloop (by simp [hmode])
  · cases h

/-- Every step keeps the line. -/
theorem line_step {act : Act T S} (h : step s act = some (events, s')) :
    line s <+: dispatched events ++ line s' := by
  have hperform : perform s act = .ok (events, s') := ok_of_toOption h
  by_cases hmode : s.mode = .switched
  · cases act
    all_goals simp only [perform, hmode, reduceCtorEq] at hperform
    obtain ⟨hevents, hline⟩ := line_goOn hperform
    rw [line, if_pos hmode, hevents]
    exact (List.prefix_cons_inj _).mpr hline
  · obtain ⟨hnone, hline⟩ := line_perform hmode hperform
    rw [line, if_neg hmode, hnone]
    exact hline

end

variable [DecidableEq T] [DecidableEq S]

/-- In every run, those in line at its beginning get the processor first and in that order: the
threads dispatched so far, followed by those in line now, begin with them. -/
theorem ready_in_order {s s' : State T S} {trace : List (Event T)}
    (hrun : Run step anyAct s trace s') : line s <+: dispatched trace ++ line s' := by
  induction hrun with
  | refl => exact List.prefix_rfl
  | snoc _ _ hstep ih =>
    rw [dispatched, List.filterMap_append, List.append_assoc]
    exact ih.trans ((List.prefix_append_right_inj _).mpr (line_step hstep))

/-- Thread 1 finishes, and thread 2 runs before the main thread, which has yielded to them. -/
theorem ready_in_order_two : ∃ trace, ∃ s' : State Nat Unit, dispatched trace = [1, 2] ∧
    [1, 2] <+: dispatched trace ++ line s' := by
  obtain ⟨trace, s', hrun, htrace⟩ := run_reaches step
    { (State.new 0 fun _ => 0 : State Nat Unit) with readyList := [1, 2] }
    (fun trace _ => dispatched trace = [1, 2]) [.yield, .goOn, .goOn, .finish, .goOn]
    (by decide +kernel)
  exact ⟨trace, s', htrace, ready_in_order hrun⟩

end Nachos.Scheduler
