import Nachos.Machine.Interrupt

/-!
# Interrupts for the same tick

`CheckIfDue` looks at the first pending interrupt by taking it out of the list. One that is not yet
due is put back with `SortedInsert`, which places it behind all others for the same tick. So a check
that does nothing else still turns the interrupts of the next tick round, unless the first one is
alone (`checkIfDue_unchanged_iff`), and two interrupts for one tick can fire in the order opposite
to the one in which they were scheduled (`later_fires_first`).
-/

namespace Nachos.Interrupt

open Transition

variable {H W : Type} {handlers : Handlers H W} {advanceClock : Bool} {s s' : State H W}
  {events : List Event}

/-- The first pending interrupt is for an earlier tick than the second one. -/
def Untied : List (PendingInterrupt H) → Prop
  | a :: b :: _ => a.when < b.when
  | _ => True

instance (pending : List (PendingInterrupt H)) : Decidable (Untied pending) :=
  match pending with
  | [] => isTrue trivial
  | [_] => isTrue trivial
  | a :: b :: _ => inferInstanceAs (Decidable (a.when < b.when))

/-! ## One check -/

/-- Putting the first interrupt back changes nothing exactly if it is alone on its tick. -/
theorem sortedInsert_eq_iff {a : PendingInterrupt H} {rest : List (PendingInterrupt H)}
    (hids : ((a :: rest).map (·.id)).Nodup) :
    sortedInsert a rest = a :: rest ↔ Untied (a :: rest) := by
  cases rest with
  | nil => exact ⟨fun _ => trivial, fun _ => rfl⟩
  | cons b rest =>
    simp only [sortedInsert, List.orderedInsert_cons]
    constructor
    · intro h
      by_contra hnot
      have hab : b = a := (List.cons.inj ((if_neg hnot).symm.trans h)).1
      simp [hab] at hids
    · intro h
      exact if_pos h

/-- What `CheckIfDue` does when it returns `FALSE`: the list is empty, or the first interrupt is put
back. -/
theorem checkIfDue_false (hs : checkIfDue handlers advanceClock s = .ok (false, events, s')) :
    events = [] ∧ (s'.pending = s.pending ∧ s.pending = [] ∨
      ∃ a rest, s.pending = a :: rest ∧ s'.pending = sortedInsert a rest) := by
  have hoccur : ∀ {t : State H W} {a : PendingInterrupt H},
      occur handlers t a = .ok (false, events, s') →
        events = [] ∧ s'.pending = sortedInsert a t.pending := by
    intro t a h
    unfold occur at h
    split at h
    · cases h
      exact ⟨rfl, rfl⟩
    · obtain ⟨_, -, h⟩ := ok_of_bind h
      cases h
  obtain ⟨-, ⟨hempty, -, rfl, rfl⟩ | ⟨a, rest, hpending, hcase⟩⟩ := checkIfDue_cases hs
  · exact ⟨rfl, .inl ⟨rfl, hempty⟩⟩
  have hback : events = [] ∧ s'.pending = sortedInsert a rest := by
    obtain ⟨-, -, hs⟩ | ⟨-, -, -, rfl, rfl⟩ | ⟨-, hs⟩ := hcase
    · exact hoccur hs
    · exact ⟨rfl, rfl⟩
    · exact hoccur hs
  exact ⟨hback.1, .inr ⟨a, rest, hpending, hback.2⟩⟩

/-- A check that returns `FALSE` leaves the list alone exactly if no two interrupts are tied at its
head. -/
theorem pending_unchanged_iff (hids : (s.pending.map (·.id)).Nodup)
    (hs : checkIfDue handlers advanceClock s = .ok (false, events, s')) :
    s'.pending = s.pending ↔ Untied s.pending := by
  obtain ⟨-, ⟨hsame, hempty⟩ | ⟨a, rest, hpending, hback⟩⟩ := checkIfDue_false hs
  · rw [hsame, hempty]
    exact ⟨fun _ => trivial, fun _ => rfl⟩
  · rw [hpending] at hids
    rw [hpending, hback]
    exact sortedInsert_eq_iff hids

/-! ## Checks that find no tie -/

/-- The check that ends `while (CheckIfDue(FALSE));` finds no tie at the head of the list. -/
def quietLoop (handlers : Handlers H W) : Nat → State H W → Bool
  | 0, _ => true
  | fuel + 1, s => match checkIfDue handlers false s with
      | .error _ => true
      | .ok (true, _, s₁) => quietLoop handlers fuel s₁
      | .ok (false, _, _) => decide (Untied s.pending)

/-- The same for the loop in `OneTick`. -/
def quietTick (handlers : Handlers H W) (s : State H W) : Bool :=
  match advance s with
  | .error _ => true
  | .ok s₁ => quietLoop handlers (s₁.pending.length + 1) s₁

/-- No check in the operation that returns `FALSE` finds a tie at the head of the list. -/
def quiet (handlers : Handlers H W) (s : State H W) : Act H → Bool
  | .schedule _ => true
  | .setStatus _ => true
  | .oneTick => quietTick handlers s
  | .setLevel now =>
    if now = .IntOn ∧ s.level = .IntOff then quietTick handlers { s with level := now } else true
  | .idle => match checkIfDue handlers true { s with status := .IdleMode } with
      | .error _ => true
      | .ok (true, _, s₁) => quietLoop handlers (s₁.pending.length + 1) s₁
      | .ok (false, _, _) => decide (Untied s.pending)

/-! ## The order of the firings -/

/-- For an earlier tick, or for the same one and scheduled earlier. -/
def Before (a b : PendingInterrupt H) : Prop := a.when < b.when ∨ a.when = b.when ∧ a.id < b.id

/-- The interrupts of one tick are pending, and have fired, in the order of the calls of
`Schedule`. -/
structure InOrder (trace : List Event) (pending : List (PendingInterrupt H)) : Prop where
  queue : pending.Pairwise Before
  next : ∀ f ∈ firings trace, ∀ p ∈ pending, f.when = p.when → f.id < p.id
  fired : (firings trace).Pairwise fun f g => f.when = g.when → f.id < g.id

/-- An interrupt that is scheduled last goes behind all others for its tick. -/
theorem before_sortedInsert {p : PendingInterrupt H} {pending : List (PendingInterrupt H)}
    (h : pending.Pairwise Before) (hlast : ∀ q ∈ pending, q.id < p.id) :
    (sortedInsert p pending).Pairwise Before := by
  induction pending with
  | nil => simp [sortedInsert]
  | cons first rest ih =>
    obtain ⟨hfirst, hrest⟩ := List.pairwise_cons.mp h
    simp only [sortedInsert, List.orderedInsert_cons]
    split
    · rename_i hlt
      refine List.pairwise_cons.mpr ⟨fun q hq => .inl ?_, h⟩
      rcases List.mem_cons.mp hq with rfl | hq
      · exact hlt
      · rcases hfirst q hq with hlt' | ⟨heq, -⟩
        · exact lt_trans hlt hlt'
        · exact heq ▸ hlt
    · rename_i hle
      refine List.pairwise_cons.mpr
        ⟨fun q hq => ?_, ih hrest fun q hq => hlast q (List.mem_cons_of_mem _ hq)⟩
      rcases mem_sortedInsert.mp hq with rfl | hq
      · rcases lt_or_eq_of_le (not_lt.mp hle) with hlt | heq
        · exact .inl hlt
        · exact .inr ⟨heq, hlast first List.mem_cons_self⟩
      · exact hfirst q hq

section

variable {handlers : Handlers H W} {trace events : List Event} {s s' : State H W}

theorem inOrder_schedule {r : Request H} (h : Delivered trace s) (ho : InOrder trace s.pending)
    (hs : schedule s r = .ok (events, s')) : InOrder (trace ++ events) s'.pending := by
  simp only [schedule] at hs
  split at hs
  · cases hs
  split at hs
  · cases hs
  rename_i hnow
  cases hs
  have hfirings : firings (trace ++ [.scheduled s.scheduled (s.totalTicks + r.fromNow)]) =
      firings trace := by
    simp [firings_append]
  constructor
  · refine before_sortedInsert ho.queue fun q hq => ?_
    exact h.known q.id (List.mem_append_right _ (List.mem_map_of_mem hq))
  · intro f hf q hq heq
    rw [hfirings] at hf
    rcases mem_sortedInsert.mp hq with rfl | hq
    · -- what has fired is past, and the new interrupt is for a later tick
      have hpast := h.past f hf
      dsimp only at heq
      omega
    · exact ho.next f hf q hq heq
  · rw [hfirings]
    exact ho.fired

theorem inOrder_scheduleAll {requests : List (Request H)} (h : Delivered trace s)
    (ho : InOrder trace s.pending) (hs : scheduleAll s requests = .ok (events, s')) :
    InOrder (trace ++ events) s'.pending := by
  induction requests generalizing trace s events with
  | nil =>
    cases hs
    rwa [List.append_nil]
  | cons r rest ih =>
    obtain ⟨⟨first, s₁⟩, hfirst, hs⟩ := ok_of_bind hs
    obtain ⟨⟨later, s₂⟩, hlater, hs⟩ := ok_of_bind hs
    cases hs
    rw [← List.append_assoc]
    exact ih (schedule_spec h hfirst).1 (inOrder_schedule h ho hfirst) hlater

/-- The first pending interrupt fires. -/
theorem InOrder.fire {p : PendingInterrupt H} {rest : List (PendingInterrupt H)} {time : Int}
    {level : IntStatus} (ho : InOrder trace (p :: rest)) :
    InOrder (trace ++ [.fired ⟨p.id, p.when, time, level⟩]) rest := by
  obtain ⟨hfirst, hrest⟩ := List.pairwise_cons.mp ho.queue
  have hfirings : firings (trace ++ [.fired ⟨p.id, p.when, time, level⟩]) =
      firings trace ++ [⟨p.id, p.when, time, level⟩] := by
    simp [firings_append]
  constructor
  · exact hrest
  · intro f hf q hq heq
    rw [hfirings, List.mem_append, List.mem_singleton] at hf
    rcases hf with hf | rfl
    · exact ho.next f hf q (List.mem_cons_of_mem _ hq) heq
    · rcases hfirst q hq with hlt | ⟨-, hid⟩
      · exact absurd heq (ne_of_lt hlt)
      · exact hid
  · rw [hfirings, List.pairwise_append]
    refine ⟨ho.fired, List.pairwise_singleton _ _, fun f hf g hg heq => ?_⟩
    rw [List.mem_singleton.mp hg] at heq ⊢
    exact ho.next f hf p List.mem_cons_self heq

/-- The call of a handler. -/
theorem inOrder_occur {p : PendingInterrupt H}
    (h : Delivered trace { s with pending := p :: s.pending }) (hdue : p.when ≤ s.totalTicks)
    (hlevel : s.level = .IntOff) (ho : InOrder trace (p :: s.pending))
    (hs : occur handlers s p = .ok (true, events, s')) : InOrder (trace ++ events) s'.pending := by
  unfold occur at hs
  split at hs
  · cases hs
  obtain ⟨⟨later, s₁⟩, hcall, hs⟩ := ok_of_bind hs
  cases hs
  obtain ⟨⟨requested, s₂⟩, hrequests, hcall⟩ := ok_of_bind hcall
  cases hcall
  have horder : InOrder (trace ++ [.fired ⟨p.id, p.when, s.totalTicks, s.level⟩] ++ requested)
      s₂.pending := by
    refine inOrder_scheduleAll ?_ ?_ hrequests
    · exact h.fire rfl hdue hlevel rfl rfl rfl
    · exact ho.fire
  rwa [List.append_assoc] at horder

/-- A check that fires, or finds no tie. -/
theorem inOrder_checkIfDue {advanceClock fired : Bool} (h : Delivered trace s)
    (ho : InOrder trace s.pending)
    (hs : checkIfDue handlers advanceClock s = .ok (fired, events, s'))
    (hquiet : fired = false → Untied s.pending) : InOrder (trace ++ events) s'.pending := by
  cases fired with
  | false =>
    have hids := (List.nodup_append.mp h.distinct).2.1
    rw [(checkIfDue_false hs).1, List.append_nil,
      (pending_unchanged_iff hids hs).mpr (hquiet rfl)]
    exact ho
  | true =>
    obtain ⟨hlevel, ⟨-, hfired, -⟩ | ⟨p, rest, hpending, hcase⟩⟩ := checkIfDue_cases hs
    · cases hfired
    rw [hpending] at ho
    obtain ⟨-, hlater, hs⟩ | ⟨-, -, hfired, -⟩ | ⟨hdue, hs⟩ := hcase
    · exact inOrder_occur (h.advancedTo hpending hlater) (le_refl _) hlevel ho hs
    · cases hfired
    · have hout : Delivered trace { s with pending := p :: rest } :=
        h.same hpending.symm rfl rfl rfl
      exact inOrder_occur (s := { s with pending := rest }) hout hdue hlevel ho hs

theorem inOrder_checkLoop {fuel : Nat} (h : Delivered trace s) (ho : InOrder trace s.pending)
    (hs : checkLoop handlers fuel s = .ok (events, s'))
    (hquiet : quietLoop handlers fuel s = true) : InOrder (trace ++ events) s'.pending := by
  induction fuel generalizing trace s events with
  | zero => cases hs
  | succ fuel ih =>
    obtain ⟨⟨fired, first, s₁⟩, hcheck, hs⟩ := ok_of_bind hs
    simp only [quietLoop, hcheck] at hquiet
    cases fired with
    | false =>
      cases hs
      exact inOrder_checkIfDue h ho hcheck fun _ => of_decide_eq_true hquiet
    | true =>
      obtain ⟨⟨later, s₂⟩, hloop, hs⟩ := ok_of_bind hs
      cases hs
      rw [← List.append_assoc]
      exact ih (checkIfDue_spec h hcheck).1
        (inOrder_checkIfDue h ho hcheck (absurd · Bool.true_eq_false.mp)) hloop hquiet

theorem inOrder_oneTick (h : Delivered trace s) (ho : InOrder trace s.pending)
    (hs : oneTick handlers s = .ok (events, s')) (hquiet : quietTick handlers s = true) :
    InOrder (trace ++ events) s'.pending := by
  obtain ⟨s₁, hadvance, hs⟩ := ok_of_bind hs
  obtain ⟨⟨later, s₂⟩, hloop, hs⟩ := ok_of_bind hs
  cases hs
  have hpending : s₁.pending = s.pending := by
    unfold advance at hadvance
    split at hadvance
    all_goals
      split at hadvance
      · cases hadvance
      cases hadvance
      rfl
  simp only [quietTick, hadvance] at hquiet
  have horder := inOrder_checkLoop (advance_spec h hadvance).1 (hpending ▸ ho) hloop hquiet
  unfold endTick
  split <;> exact horder

theorem inOrder_idle (h : Delivered trace s) (ho : InOrder trace s.pending)
    (hs : idle handlers s = .ok (events, s')) (hquiet : quiet handlers s .idle = true) :
    InOrder (trace ++ events) s'.pending := by
  obtain ⟨⟨fired, first, s₁⟩, hcheck, hs⟩ := ok_of_bind hs
  have h₀ : Delivered trace { s with status := .IdleMode } := h.same rfl rfl rfl rfl
  simp only [quiet, hcheck] at hquiet
  cases fired with
  | false =>
    cases hs
    have horder : InOrder (trace ++ events) s₁.pending :=
      inOrder_checkIfDue h₀ ho hcheck fun _ => of_decide_eq_true hquiet
    exact horder
  | true =>
    obtain ⟨⟨later, s₂⟩, hloop, hs⟩ := ok_of_bind hs
    cases hs
    rw [← List.append_assoc]
    have horder : InOrder (trace ++ first ++ later) s₂.pending :=
      inOrder_checkLoop (checkIfDue_advance_spec h₀ hcheck).1
        (inOrder_checkIfDue h₀ ho hcheck (absurd · Bool.true_eq_false.mp)) hloop hquiet
    exact horder

/-- What one operation keeps whose checks find no tie. -/
theorem inOrder_step {act : Act H} (h : Delivered trace s) (ho : InOrder trace s.pending)
    (hquiet : quiet handlers s act = true) (hs : step handlers s act = some (events, s')) :
    InOrder (trace ++ events) s'.pending := by
  unfold step at hs
  split at hs
  · cases hs
  have hperform : perform handlers s act = .ok (events, s') := ok_of_toOption hs
  cases act with
  | schedule r => exact inOrder_schedule h ho hperform
  | oneTick => exact inOrder_oneTick h ho hperform hquiet
  | idle => exact inOrder_idle h ho hperform hquiet
  | setStatus user =>
    cases hperform
    rwa [List.append_nil]
  | setLevel now =>
    simp only [perform, setLevel] at hperform
    split at hperform
    · cases hperform
    · split at hperform
      · rename_i hon
        rw [quiet, if_pos hon] at hquiet
        have h₀ : Delivered trace { s with level := now } := h.same rfl rfl rfl rfl
        exact inOrder_oneTick h₀ ho hperform hquiet
      · cases hperform
        rwa [List.append_nil]

/-- What a run keeps whose checks find no tie. -/
theorem inOrder_run {world : W}
    (hrun : Run (step handlers) (fun s act => quiet handlers s act = true) (State.new world)
      trace s) : InOrder trace s.pending := by
  have hall : Delivered trace s ∧ (s.halted = true ∨ s.status ≠ .IdleMode) ∧
      InOrder trace s.pending := by
    apply hrun.traceInvariant
    · exact ⟨delivered_new world, .inr (by simp [State.new]), .nil, by simp [firings], .nil⟩
    · rintro tr s act events t ⟨hd, hst, ho⟩ hquiet hs
      obtain ⟨hd', hst', -⟩ := step_spec hd hst hs
      exact ⟨hd', hst', inOrder_step hd ho hquiet hs⟩
  exact hall.2.2

end

/-- A check that calls no handler leaves the pending list as it is exactly if the first interrupt is
alone on its tick. In a run in which every such check finds it alone, the interrupts of one tick
fire in the order in which they were scheduled. -/
theorem checkIfDue_unchanged_iff (handlers : Handlers H W) :
    (∀ (advanceClock : Bool) (s s' : State H W) (events : List Event),
      (s.pending.map (·.id)).Nodup →
      checkIfDue handlers advanceClock s = .ok (false, events, s') →
      (s'.pending = s.pending ↔ Untied s.pending)) ∧
    (∀ (world : W) (trace : List Event) (s : State H W),
      Run (step handlers) (fun s act => quiet handlers s act = true) (State.new world) trace s →
      (firings trace).Pairwise (fun f g => f.when = g.when → f.id < g.id) ∧
      ∀ f ∈ firings trace, ∀ p ∈ s.pending, f.when = p.when → f.id < p.id) := by
  refine ⟨fun _ _ _ _ hids hs => pending_unchanged_iff hids hs, fun world trace s hrun => ?_⟩
  have ho := inOrder_run hrun
  exact ⟨ho.fired, ho.next⟩

/-- Two interrupts at tick 10 and one at 30 are scheduled at 0; the first tick fires two. -/
theorem checkIfDue_unchanged_timer : ∃ trace s,
    Run (step timerAndDevice) (fun s act => quiet timerAndDevice s act = true) (State.new 0)
      trace s ∧
    (firings trace).map (·.id) = [0, 1] ∧
    (firings trace).Pairwise (fun f g => f.when = g.when → f.id < g.id) := by
  obtain ⟨trace, s, hrun, hids⟩ := run_reaches_allowed (step timerAndDevice)
    (fun s act => quiet timerAndDevice s act = true) (State.new 0)
    (fun trace _ => (firings trace).map (·.id) = [0, 1])
    [.schedule ⟨false, 10, .DiskInt⟩, .schedule ⟨false, 10, .ConsoleReadInt⟩,
      .schedule ⟨false, 30, .DiskInt⟩, .oneTick] (by decide +kernel) (by decide +kernel)
  exact ⟨trace, s, hrun, hids, ((checkIfDue_unchanged_iff timerAndDevice).2 0 trace s hrun).1⟩

/-- Two interrupts are scheduled for tick 20. The check at tick 10 fires nothing and turns them
round, so that at tick 20 the second one fires first. -/
theorem later_fires_first :
    (∃ s s' : State Bool Nat, (s.pending.map (·.id)).Nodup ∧
      checkIfDue timerAndDevice false s = .ok (false, [], s') ∧ s'.pending ≠ s.pending) ∧
    ∃ trace s, Run (step timerAndDevice) anyAct (State.new 0) trace s ∧
      firings trace = [⟨1, 20, 20, .IntOff⟩, ⟨0, 20, 20, .IntOff⟩] := by
  let s : State Bool Nat := { (State.new 0 : State Bool Nat) with
    pending := [⟨0, false, 20, .DiskInt⟩, ⟨1, false, 20, .ConsoleReadInt⟩] }
  let s' : State Bool Nat := { (State.new 0 : State Bool Nat) with
    pending := [⟨1, false, 20, .ConsoleReadInt⟩, ⟨0, false, 20, .DiskInt⟩] }
  refine ⟨⟨s, s', by decide, rfl, by decide⟩, ?_⟩
  exact run_reaches (step timerAndDevice) (State.new 0)
    (fun trace _ => firings trace = [⟨1, 20, 20, .IntOff⟩, ⟨0, 20, 20, .IntOff⟩])
    [.schedule ⟨false, 20, .DiskInt⟩, .schedule ⟨false, 20, .ConsoleReadInt⟩, .oneTick, .oneTick]
    (by decide +kernel)

end Nachos.Interrupt
