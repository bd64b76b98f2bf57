import Mathlib.Data.List.Sort
import Nachos.Library.Monitor
import Nachos.Library.Transition

/-!
# The interrupt simulator

`Interrupt` of `machine/interrupt.cc` with the clocks of `Statistics`. Pending interrupts are kept
in a list sorted by time; `CheckIfDue` takes the first one out and either calls its handler or puts
it back. A handler is an arbitrary function on an abstract world: it changes the world, makes calls
of `Schedule` and may call `YieldOnReturn`. What other threads do in the `Yield` at the end of
`OneTick` are later actions of the run.

The clocks are `int`s; a run ends where one would overflow.
-/

namespace Nachos.Interrupt

open Transition Monitor

/-- `IntStatus`. -/
inductive IntStatus where
  | IntOff
  | IntOn
  deriving DecidableEq, Repr

/-- `MachineStatus`. -/
inductive MachineStatus where
  | IdleMode
  | SystemMode
  | UserMode
  deriving DecidableEq, Repr

/-- `IntType`. -/
inductive IntType where
  | TimerInt
  | DiskInt
  | ConsoleWriteInt
  | ConsoleReadInt
  | NetworkSendInt
  | NetworkRecvInt
  deriving DecidableEq, Repr

/-- `UserTick` of `stats.h`. -/
def UserTick : Int := 1

/-- `SystemTick` of `stats.h`. -/
def SystemTick : Int := 10

/-- The number of different nonnegative `int`s. -/
def intRange : Int := 2147483648

/-- `PendingInterrupt`, with the number of the call of `Schedule` that made it. The handler stands
for the function and its argument. -/
structure PendingInterrupt (H : Type*) where
  id : Nat
  handler : H
  when : Int
  type : IntType
  deriving DecidableEq, Repr

/-- The arguments of a call of `Schedule`. -/
structure Request (H : Type*) where
  handler : H
  fromNow : Int
  type : IntType
  deriving DecidableEq, Repr

/-- What a handler does. -/
structure Effect (H W : Type*) where
  world : W
  requests : List (Request H)
  yieldOnReturn : Bool

/-- The handlers: what they do depends on the time and on the world. -/
abbrev Handlers (H W : Type*) := H → Int → W → Effect H W

/-- The fields of `Interrupt` and the clocks. -/
structure State (H W : Type*) where
  level : IntStatus
  pending : List (PendingInterrupt H)
  inHandler : Bool
  yieldOnReturn : Bool
  status : MachineStatus
  totalTicks : Int
  idleTicks : Int
  systemTicks : Int
  userTicks : Int
  world : W
  /-- The number of calls of `Schedule` so far. -/
  scheduled : Nat
  /-- `Halt` has been called. -/
  halted : Bool

/-- A handler being called. -/
structure Firing where
  id : Nat
  when : Int
  time : Int
  level : IntStatus
  deriving DecidableEq, Repr

/-- What a run shows: an interrupt is scheduled, or its handler is called. -/
inductive Event where
  | scheduled (id : Nat) (when : Int)
  | fired (f : Firing)
  deriving DecidableEq, Repr

/-- Why an operation does not return. -/
inductive Failure where
  | assertion
  | overflow
  /-- The loop was cut off. -/
  | fuel
  deriving DecidableEq, Repr

variable {H W : Type} {p : PendingInterrupt H} {trace events : List Event} {s s' : State H W}
  {handlers : Handlers H W} {fired : Bool} {e : Failure} {pending rest : List (PendingInterrupt H)}
  {r : Request H} {requests : List (Request H)} {advanceClock : Bool} {fuel : Nat}

/-- `Interrupt::Interrupt` and `Statistics::Statistics`. -/
def State.new (world : W) : State H W where
  level := .IntOff
  pending := []
  inHandler := false
  yieldOnReturn := false
  status := .SystemMode
  totalTicks := 0
  idleTicks := 0
  systemTicks := 0
  userTicks := 0
  world := world
  scheduled := 0
  halted := false

/-- `List::SortedInsert`: before the first element with a greater key. -/
def sortedInsert (p : PendingInterrupt H) (pending : List (PendingInterrupt H)) :
    List (PendingInterrupt H) :=
  pending.orderedInsert (fun a b => a.when < b.when) p

/-- `Interrupt::Schedule`. -/
def schedule (s : State H W) (r : Request H) : Except Failure (List Event × State H W) :=
  let when := s.totalTicks + r.fromNow
  if intRange ≤ when then .error .overflow
  else if r.fromNow ≤ 0 then .error .assertion
  else .ok ([.scheduled s.scheduled when],
    { s with
      pending := sortedInsert ⟨s.scheduled, r.handler, when, r.type⟩ s.pending
      scheduled := s.scheduled + 1 })

/-- The calls of `Schedule` in a handler. -/
def scheduleAll : State H W → List (Request H) → Except Failure (List Event × State H W)
  | s, [] => .ok ([], s)
  | s, r :: rest => do
    let (events, s₁) ← schedule s r
    let (later, s₂) ← scheduleAll s₁ rest
    pure (events ++ later, s₂)

/-- The end of `CheckIfDue`: the call of the handler. -/
def callHandler (handlers : Handlers H W) (s : State H W) (toOccur : PendingInterrupt H) :
    Except Failure (List Event × State H W) := do
  let old := s.status
  let effect := handlers toOccur.handler s.totalTicks s.world
  let (events, s₁) ← scheduleAll
    { s with
      inHandler := true
      status := .SystemMode
      world := effect.world
      yieldOnReturn := s.yieldOnReturn || effect.yieldOnReturn } effect.requests
  pure (.fired ⟨toOccur.id, toOccur.when, s.totalTicks, s.level⟩ :: events,
    { s₁ with status := old, inHandler := false })

/-- `CheckIfDue` once the interrupt has been taken out and is due: in idle mode a timer interrupt
that is the only one left is put back. -/
def occur (handlers : Handlers H W) (s : State H W) (toOccur : PendingInterrupt H) :
    Except Failure (Bool × List Event × State H W) :=
  if s.status = .IdleMode ∧ toOccur.type = .TimerInt ∧ s.pending = [] then
    .ok (false, [], { s with pending := sortedInsert toOccur s.pending })
  else do
    let (events, s₁) ← callHandler handlers s toOccur
    pure (true, events, s₁)

/-- `Interrupt::CheckIfDue`. -/
def checkIfDue (handlers : Handlers H W) (advanceClock : Bool) (s : State H W) :
    Except Failure (Bool × List Event × State H W) :=
  if s.level ≠ .IntOff then .error .assertion
  else match s.pending with
    | [] => .ok (false, [], s)
    | toOccur :: rest =>
      if advanceClock = true ∧ toOccur.when > s.totalTicks then
        occur handlers
          { s with
            pending := rest
            idleTicks := s.idleTicks + (toOccur.when - s.totalTicks)
            totalTicks := toOccur.when } toOccur
      else if toOccur.when > s.totalTicks then
        .ok (false, [], { s with pending := sortedInsert toOccur rest })
      else occur handlers { s with pending := rest } toOccur

/-- `while (CheckIfDue(FALSE));`, cut off after `fuel` rounds. -/
def checkLoop (handlers : Handlers H W) : Nat → State H W →
    Except Failure (List Event × State H W)
  | 0, _ => .error .fuel
  | fuel + 1, s => do
    let (fired, events, s₁) ← checkIfDue handlers false s
    if fired then do
      let (later, s₂) ← checkLoop handlers fuel s₁
      pure (events ++ later, s₂)
    else pure (events, s₁)

/-- The first lines of `OneTick`: the clocks advance and interrupts are turned off. -/
def advance (s : State H W) : Except Failure (State H W) :=
  if s.status = .SystemMode then
    if intRange ≤ s.totalTicks + SystemTick then .error .overflow
    else .ok { s with
      totalTicks := s.totalTicks + SystemTick
      systemTicks := s.systemTicks + SystemTick
      level := .IntOff }
  else
    if intRange ≤ s.totalTicks + UserTick then .error .overflow
    else .ok { s with
      totalTicks := s.totalTicks + UserTick
      userTicks := s.userTicks + UserTick
      level := .IntOff }

/-- The last lines of `OneTick`, up to the call of `Yield`. -/
def endTick (s : State H W) : State H W :=
  if s.yieldOnReturn then
    { s with level := .IntOn, yieldOnReturn := false, status := .SystemMode }
  else { s with level := .IntOn }

/-- `Interrupt::OneTick`. One round for every pending interrupt is enough. -/
def oneTick (handlers : Handlers H W) (s : State H W) :
    Except Failure (List Event × State H W) := do
  let s₁ ← advance s
  let (events, s₂) ← checkLoop handlers (s₁.pending.length + 1) s₁
  pure (events, endTick s₂)

/-- `Interrupt::SetLevel`. -/
def setLevel (handlers : Handlers H W) (s : State H W) (now : IntStatus) :
    Except Failure (List Event × State H W) :=
  if now ≠ .IntOff ∧ s.inHandler = true then .error .assertion
  else if now = .IntOn ∧ s.level = .IntOff then oneTick handlers { s with level := now }
  else .ok ([], { s with level := now })

/-- `Interrupt::Idle`. -/
def idle (handlers : Handlers H W) (s : State H W) : Except Failure (List Event × State H W) := do
  let (fired, events, s₁) ← checkIfDue handlers true { s with status := .IdleMode }
  if fired then do
    let (later, s₂) ← checkLoop handlers (s₁.pending.length + 1) s₁
    pure (events ++ later, { s₂ with yieldOnReturn := false, status := .SystemMode })
  else pure (events, { s₁ with halted := true })

/-- The operations on the simulator. `Run` and `RaiseException` of the machine set the status to
user or system mode; nobody but `Idle` sets it to idle mode. -/
inductive Act (H : Type*) where
  | schedule (r : Request H)
  | setLevel (now : IntStatus)
  | oneTick
  | idle
  | setStatus (user : Bool)
  deriving DecidableEq, Repr

/-- One operation. -/
def perform (handlers : Handlers H W) (s : State H W) :
    Act H → Except Failure (List Event × State H W)
  | .schedule r => Interrupt.schedule s r
  | .setLevel now => Interrupt.setLevel handlers s now
  | .oneTick => Interrupt.oneTick handlers s
  | .idle => Interrupt.idle handlers s
  | .setStatus user => .ok ([], { s with status := if user then .UserMode else .SystemMode })

/-- Operations one after the other, until one does not return or `Halt` is called. -/
def step (handlers : Handlers H W) : Step (State H W) (Act H) Event :=
  fun s act => if s.halted then none else (perform handlers s act).toOption

/-- The calls of handlers in a trace. -/
def firings (trace : List Event) : List Firing :=
  trace.filterMap fun
    | .fired f => some f
    | .scheduled _ _ => none

/-! ## The sorted list -/

/-- Inserting adds one interrupt. -/
theorem sortedInsert_perm (p : PendingInterrupt H) (pending : List (PendingInterrupt H)) :
    (sortedInsert p pending).Perm (p :: pending) :=
  List.perm_orderedInsert _ p pending

theorem mem_sortedInsert {q : PendingInterrupt H} :
    q ∈ sortedInsert p pending ↔ q = p ∨ q ∈ pending :=
  List.mem_orderedInsert _

/-- An insertion keeps the list sorted. -/
theorem sorted_sortedInsert (h : pending.Pairwise fun a b => a.when ≤ b.when) :
    (sortedInsert p pending).Pairwise fun a b => a.when ≤ b.when := by
  induction pending with
  | nil => simp [sortedInsert]
  | cons first rest ih =>
    obtain ⟨hfirst, hrest⟩ := List.pairwise_cons.mp h
    simp only [sortedInsert, List.orderedInsert_cons]
    split
    · rename_i hlt
      refine List.pairwise_cons.mpr ⟨fun q hq => ?_, h⟩
      rcases List.mem_cons.mp hq with rfl | hq
      · exact le_of_lt hlt
      · exact le_trans (le_of_lt hlt) (hfirst q hq)
    · rename_i hle
      refine List.pairwise_cons.mpr ⟨fun q hq => ?_, ih hrest⟩
      rcases mem_sortedInsert.mp hq with rfl | hq
      · exact not_lt.mp hle
      · exact hfirst q hq

/-- Putting the first element back. -/
theorem sortedInsert_head : (p :: rest).Perm (sortedInsert p rest) :=
  (sortedInsert_perm p rest).symm

/-! ## What the operations keep -/

/-- The firings of two parts of a trace. -/
theorem firings_append (first second : List Event) :
    firings (first ++ second) = firings first ++ firings second :=
  List.filterMap_append

@[simp] theorem firings_scheduled (id : Nat) (when : Int) :
    firings [.scheduled id when] = [] := rfl

@[simp] theorem firings_fired (f : Firing) : firings [.fired f] = [f] := rfl

/-- The queue, the clocks and what has happened so far. -/
structure Delivered (trace : List Event) (s : State H W) : Prop where
  sorted : s.pending.Pairwise fun a b => a.when ≤ b.when
  /-- No number is pending or has fired twice. -/
  distinct : ((firings trace).map (·.id) ++ s.pending.map (·.id)).Nodup
  known : ∀ id ∈ (firings trace).map (·.id) ++ s.pending.map (·.id), id < s.scheduled
  ordered : (firings trace).Pairwise fun a b => a.when ≤ b.when
  /-- What has fired is past, and was due before everything that is pending. -/
  past : ∀ f ∈ firings trace, f.when ≤ s.totalTicks
  first : ∀ f ∈ firings trace, ∀ p ∈ s.pending, f.when ≤ p.when
  onTime : ∀ f ∈ firings trace, f.when ≤ f.time ∧ f.level = .IntOff
  announced : ∀ p ∈ s.pending, .scheduled p.id p.when ∈ trace
  /-- What leaves the queue has fired. -/
  kept : ∀ id when, .scheduled id when ∈ trace →
    (∃ p ∈ s.pending, p.id = id ∧ p.when = when) ∨ ∃ f ∈ firings trace, f.id = id ∧ f.when = when
  caused : ∀ id when, PrecededBy (fun e => ∃ f, e = .fired f ∧ f.id = id ∧ f.when = when)
    (· = .scheduled id when) trace
  clocks : s.totalTicks = s.idleTicks + s.systemTicks + s.userTicks

/-- The order in which the list is kept does not matter as long as it is sorted, time may go on, and
the other fields do not matter at all. -/
theorem Delivered.change (h : Delivered trace s) (hpending : s.pending.Perm s'.pending)
    (hsorted : s'.pending.Pairwise fun a b => a.when ≤ b.when)
    (hscheduled : s'.scheduled = s.scheduled) (htotal : s.totalTicks ≤ s'.totalTicks)
    (hclocks : s'.totalTicks = s'.idleTicks + s'.systemTicks + s'.userTicks) :
    Delivered trace s' where
  sorted := hsorted
  distinct := ((hpending.map _).append_left _).nodup_iff.mp h.distinct
  known := fun id hid => by
    rw [hscheduled]
    exact h.known id (((hpending.map _).append_left _).mem_iff.mpr hid)
  ordered := h.ordered
  past := fun f hf => le_trans (h.past f hf) htotal
  first := fun f hf p hp => h.first f hf p (hpending.mem_iff.mpr hp)
  onTime := h.onTime
  announced := fun p hp => h.announced p (hpending.mem_iff.mpr hp)
  kept := fun id when hid => by simpa only [hpending.mem_iff] using h.kept id when hid
  caused := h.caused
  clocks := hclocks

/-- Fields other than the queue and the clocks do not matter. -/
theorem Delivered.same (h : Delivered trace s) (hpending : s'.pending = s.pending)
    (hscheduled : s'.scheduled = s.scheduled) (htotal : s'.totalTicks = s.totalTicks)
    (hclocks : s'.idleTicks + s'.systemTicks + s'.userTicks =
      s.idleTicks + s.systemTicks + s.userTicks) : Delivered trace s' :=
  h.change (by rw [hpending]) (hpending ▸ h.sorted) hscheduled (le_of_eq htotal.symm)
    (by rw [htotal, hclocks, h.clocks])

/-- The number of pending interrupts that are due. -/
def due (s : State H W) : Nat := s.pending.countP fun p => decide (p.when ≤ s.totalTicks)

/-- What calls of `Schedule` leave alone. They add interrupts that are not due. -/
structure Scheduled (s s' : State H W) : Prop where
  level : s'.level = s.level
  status : s'.status = s.status
  halted : s'.halted = s.halted
  totalTicks : s'.totalTicks = s.totalTicks
  due : due s' = due s

/-- `Schedule` adds one interrupt. -/
theorem schedule_spec (h : Delivered trace s) (hs : schedule s r = .ok (events, s')) :
    Delivered (trace ++ events) s' ∧ Scheduled s s' := by
  simp only [schedule] at hs
  split at hs
  · cases hs
  split at hs
  · cases hs
  rename_i hnow
  cases hs
  let p : PendingInterrupt H := ⟨s.scheduled, r.handler, s.totalTicks + r.fromNow, r.type⟩
  have hlater : s.totalTicks < p.when := by
    change s.totalTicks < s.totalTicks + r.fromNow
    omega
  have hperm := sortedInsert_perm p s.pending
  have hfirings : firings (trace ++ [.scheduled p.id p.when]) = firings trace := by
    simp [firings_append]
  have hids : ((firings trace).map (·.id) ++ (sortedInsert p s.pending).map (·.id)).Perm
      (p.id :: ((firings trace).map (·.id) ++ s.pending.map (·.id))) :=
    ((hperm.map _).append_left _).trans List.perm_middle
  have hnew : p.id ∉ (firings trace).map (·.id) ++ s.pending.map (·.id) := by
    intro hmem
    exact absurd (h.known _ hmem) (Nat.lt_irrefl _)
  refine ⟨?_, rfl, rfl, rfl, rfl, ?_⟩
  · constructor
    · exact sorted_sortedInsert h.sorted
    · rw [hfirings]
      exact hids.nodup_iff.mpr (List.nodup_cons.mpr ⟨hnew, h.distinct⟩)
    · intro id hid
      rw [hfirings] at hid
      rcases List.mem_cons.mp (hids.mem_iff.mp hid) with rfl | hid
      · exact Nat.lt_succ_self _
      · exact Nat.lt_succ_of_lt (h.known id hid)
    · rw [hfirings]
      exact h.ordered
    · rw [hfirings]
      exact h.past
    · intro f hf q hq
      rw [hfirings] at hf
      rcases mem_sortedInsert.mp hq with rfl | hq
      · exact le_trans (h.past f hf) (le_of_lt hlater)
      · exact h.first f hf q hq
    · rw [hfirings]
      exact h.onTime
    · intro q hq
      rw [List.mem_append]
      rcases mem_sortedInsert.mp hq with rfl | hq
      · exact .inr (List.mem_singleton_self _)
      · exact .inl (h.announced q hq)
    · intro id when hid
      rw [hfirings]
      rcases List.mem_append.mp hid with hid | hid
      · refine (h.kept id when hid).imp_left fun ⟨q, hq, hsame⟩ => ?_
        exact ⟨q, mem_sortedInsert.mpr (.inr hq), hsame⟩
      · cases List.mem_singleton.mp hid
        exact .inl ⟨p, mem_sortedInsert.mpr (.inl rfl), rfl, rfl⟩
    · intro id when
      refine (h.caused id when).snoc ?_
      rintro ⟨f, hf, -⟩
      cases hf
    · exact h.clocks
  · -- the new interrupt is not due
    change (sortedInsert p s.pending).countP _ = _
    rw [hperm.countP_eq, List.countP_cons_of_neg (by simpa using hlater)]
    rfl

/-- One request after the other. -/
theorem Scheduled.trans {s₁ s₂ s₃ : State H W} (h : Scheduled s₁ s₂) (h' : Scheduled s₂ s₃) :
    Scheduled s₁ s₃ :=
  ⟨h'.level.trans h.level, h'.status.trans h.status, h'.halted.trans h.halted,
    h'.totalTicks.trans h.totalTicks, h'.due.trans h.due⟩

/-- The requests of a handler. -/
theorem scheduleAll_spec (h : Delivered trace s) (hs : scheduleAll s requests = .ok (events, s')) :
    Delivered (trace ++ events) s' ∧ Scheduled s s' := by
  induction requests generalizing trace s events with
  | nil =>
    cases hs
    rw [List.append_nil]
    exact ⟨h, rfl, rfl, rfl, rfl, rfl⟩
  | cons r rest ih =>
    obtain ⟨⟨first, s₁⟩, hfirst, hs⟩ := ok_of_bind hs
    obtain ⟨⟨later, s₂⟩, hlater, hs⟩ := ok_of_bind hs
    cases hs
    obtain ⟨h₁, hframe₁⟩ := schedule_spec h hfirst
    obtain ⟨h₂, hframe₂⟩ := ih h₁ hlater
    rw [← List.append_assoc]
    exact ⟨h₂, hframe₁.trans hframe₂⟩

/-- The first pending interrupt is due and its handler is about to be called. -/
theorem Delivered.fire (h : Delivered trace s) (hpending : s.pending = p :: s'.pending)
    (hdue : p.when ≤ s.totalTicks) (hlevel : s.level = .IntOff)
    (hscheduled : s'.scheduled = s.scheduled) (htotal : s'.totalTicks = s.totalTicks)
    (hclocks : s'.idleTicks + s'.systemTicks + s'.userTicks =
      s.idleTicks + s.systemTicks + s.userTicks) :
    Delivered (trace ++ [.fired ⟨p.id, p.when, s.totalTicks, s.level⟩]) s' := by
  have hfirings : firings (trace ++ [.fired ⟨p.id, p.when, s.totalTicks, s.level⟩]) =
      firings trace ++ [⟨p.id, p.when, s.totalTicks, s.level⟩] := by
    simp [firings_append]
  have hsorted := h.sorted
  rw [hpending, List.pairwise_cons] at hsorted
  have hp : p ∈ s.pending := by simp [hpending]
  have hids : (firings (trace ++ [.fired ⟨p.id, p.when, s.totalTicks, s.level⟩])).map (·.id) ++
      s'.pending.map (·.id) = (firings trace).map (·.id) ++ s.pending.map (·.id) := by
    simp [hfirings, hpending]
  constructor
  · exact hsorted.2
  · rw [hids]
    exact h.distinct
  · rw [hids, hscheduled]
    exact h.known
  · rw [hfirings, List.pairwise_append]
    refine ⟨h.ordered, List.pairwise_singleton _ _, fun f hf g hg => ?_⟩
    rw [List.mem_singleton.mp hg]
    exact h.first f hf p hp
  · intro f hf
    rw [hfirings, List.mem_append, List.mem_singleton] at hf
    rw [htotal]
    rcases hf with hf | rfl
    · exact h.past f hf
    · exact hdue
  · intro f hf q hq
    rw [hfirings, List.mem_append, List.mem_singleton] at hf
    rcases hf with hf | rfl
    · exact h.first f hf q (by simp [hpending, hq])
    · exact hsorted.1 q hq
  · intro f hf
    rw [hfirings, List.mem_append, List.mem_singleton] at hf
    rcases hf with hf | rfl
    · exact h.onTime f hf
    · exact ⟨hdue, hlevel⟩
  · intro q hq
    exact List.mem_append_left _ (h.announced q (by simp [hpending, hq]))
  · intro id when hid
    rw [hfirings]
    have hid : .scheduled id when ∈ trace := by simpa using hid
    rcases h.kept id when hid with ⟨q, hq, rfl, rfl⟩ | ⟨f, hf, hsame⟩
    · rw [hpending] at hq
      rcases List.mem_cons.mp hq with rfl | hq
      · exact .inr ⟨_, List.mem_append_right _ (List.mem_singleton_self _), rfl, rfl⟩
      · exact .inl ⟨q, hq, rfl, rfl⟩
    · exact .inr ⟨f, List.mem_append_left _ hf, hsame⟩
  · intro id when
    refine (h.caused id when).snoc ?_
    rintro ⟨f, hf, rfl, rfl⟩
    cases hf
    exact ⟨_, h.announced p hp, rfl⟩
  · rw [htotal, hclocks, h.clocks]

/-- The call of a handler. -/
theorem callHandler_spec (h : Delivered trace { s with pending := p :: s.pending })
    (hdue : p.when ≤ s.totalTicks) (hlevel : s.level = .IntOff)
    (hs : callHandler handlers s p = .ok (events, s')) :
    Delivered (trace ++ events) s' ∧ Scheduled s s' := by
  obtain ⟨⟨later, s₁⟩, hrequests, hs⟩ := ok_of_bind hs
  cases hs
  let effect := handlers p.handler s.totalTicks s.world
  let s₀ : State H W :=
    { s with
      inHandler := true
      status := .SystemMode
      world := effect.world
      yieldOnReturn := s.yieldOnReturn || effect.yieldOnReturn }
  have hfired : Delivered (trace ++ [.fired ⟨p.id, p.when, s.totalTicks, s.level⟩]) s₀ :=
    h.fire rfl hdue hlevel rfl rfl rfl
  obtain ⟨h₁, hframe⟩ := scheduleAll_spec hfired hrequests
  rw [List.append_assoc] at h₁
  exact ⟨h₁.same rfl rfl rfl rfl, hframe.level, rfl, hframe.halted,
    hframe.totalTicks, hframe.due⟩

/-- `CheckIfDue` on an interrupt that is due. -/
theorem occur_spec (h : Delivered trace { s with pending := p :: s.pending })
    (hdue : p.when ≤ s.totalTicks) (hlevel : s.level = .IntOff)
    (hs : occur handlers s p = .ok (fired, events, s')) :
    Delivered (trace ++ events) s' ∧ s'.level = s.level ∧ s'.status = s.status ∧
      s'.halted = s.halted ∧ s'.totalTicks = s.totalTicks ∧
      (fired = true → due s' = due s) ∧ (s.status ≠ .IdleMode → fired = true) := by
  unfold occur at hs
  split at hs
  · rename_i hidle
    cases hs
    rw [List.append_nil]
    exact ⟨h.change sortedInsert_head (sorted_sortedInsert (List.pairwise_cons.mp h.sorted).2) rfl
      (le_refl _) h.clocks, rfl, rfl, rfl, rfl, (absurd · Bool.false_ne_true),
      fun hne => absurd hidle.1 hne⟩
  · obtain ⟨⟨later, s₁⟩, hcall, hs⟩ := ok_of_bind hs
    cases hs
    obtain ⟨h₁, hframe⟩ := callHandler_spec h hdue hlevel hcall
    exact ⟨h₁, hframe.level, hframe.status, hframe.halted, hframe.totalTicks,
      fun _ => hframe.due, fun _ => rfl⟩

/-- What `CheckIfDue` does apart from the queue. -/
structure Checked (s s' : State H W) : Prop where
  off : s.level = .IntOff
  level : s'.level = s.level
  status : s'.status = s.status
  halted : s'.halted = s.halted

/-- The state in which the clock has been advanced to the first pending interrupt, which is out of
the list. -/
def advancedTo (s : State H W) (p : PendingInterrupt H) (rest : List (PendingInterrupt H)) :
    State H W :=
  { s with
    pending := rest
    idleTicks := s.idleTicks + (p.when - s.totalTicks)
    totalTicks := p.when }

/-- What a check can do: find the list empty, advance the clock, put the first interrupt back, or
take it out because it is due. -/
theorem checkIfDue_cases (hs : checkIfDue handlers advanceClock s = .ok (fired, events, s')) :
    s.level = .IntOff ∧
      (s.pending = [] ∧ fired = false ∧ events = [] ∧ s' = s ∨
        ∃ p rest, s.pending = p :: rest ∧
          (advanceClock = true ∧ s.totalTicks < p.when ∧
              occur handlers (advancedTo s p rest) p = .ok (fired, events, s') ∨
            advanceClock = false ∧ s.totalTicks < p.when ∧ fired = false ∧ events = [] ∧
              s' = { s with pending := sortedInsert p rest } ∨
            p.when ≤ s.totalTicks ∧
              occur handlers { s with pending := rest } p = .ok (fired, events, s'))) := by
  unfold checkIfDue at hs
  split at hs
  · cases hs
  rename_i hoff
  refine ⟨by simpa using hoff, ?_⟩
  split at hs
  · rename_i hempty
    cases hs
    exact .inl ⟨hempty, rfl, rfl, rfl⟩
  rename_i p rest hpending
  refine .inr ⟨p, rest, hpending, ?_⟩
  split at hs
  · rename_i hlater
    exact .inl ⟨hlater.1, hlater.2, hs⟩
  rename_i hnot
  split at hs
  · rename_i hlater
    cases hs
    exact .inr (.inl ⟨by simpa [hlater] using hnot, hlater, rfl, rfl, rfl⟩)
  · rename_i hdue
    exact .inr (.inr ⟨not_lt.mp hdue, hs⟩)

/-- The first interrupt is about to be looked at, at its own time. -/
theorem Delivered.advancedTo (h : Delivered trace s) (hpending : s.pending = p :: rest)
    (hlater : s.totalTicks < p.when) :
    Delivered trace { advancedTo s p rest with pending := p :: rest } := by
  have hclocks := h.clocks
  refine h.change (by rw [hpending]) (hpending ▸ h.sorted) rfl (le_of_lt hlater) ?_
  dsimp only [Interrupt.advancedTo]
  omega

/-- `CheckIfDue(FALSE)`. -/
theorem checkIfDue_spec (h : Delivered trace s)
    (hs : checkIfDue handlers false s = .ok (fired, events, s')) :
    Delivered (trace ++ events) s' ∧ Checked s s' ∧ s'.totalTicks = s.totalTicks ∧
      (fired = true → due s' < due s) ∧
      (fired = false → s.status ≠ .IdleMode → ∀ q ∈ s'.pending, s.totalTicks < q.when) := by
  obtain ⟨hlevel, ⟨hempty, rfl, rfl, rfl⟩ | ⟨p, rest, hpending, hcase⟩⟩ := checkIfDue_cases hs
  · rw [List.append_nil]
    refine ⟨h, ⟨hlevel, rfl, rfl, rfl⟩, rfl, (absurd · Bool.false_ne_true), fun _ _ q hq => ?_⟩
    simp [hempty] at hq
  obtain ⟨hadvance, -⟩ | ⟨-, hlater, rfl, rfl, rfl⟩ | ⟨hdue, hs⟩ := hcase
  · cases hadvance
  · -- not yet due: nothing behind it is due either
    rw [List.append_nil]
    have hsorted := h.sorted
    rw [hpending, List.pairwise_cons] at hsorted
    refine ⟨h.change (hpending ▸ sortedInsert_head) (sorted_sortedInsert hsorted.2) rfl
      (le_refl _) h.clocks, ⟨hlevel, rfl, rfl, rfl⟩, rfl, (absurd · Bool.false_ne_true),
      fun _ _ q hq => ?_⟩
    rcases mem_sortedInsert.mp hq with rfl | hq
    · exact hlater
    · exact lt_of_lt_of_le hlater (hsorted.1 q hq)
  · have hout : Delivered trace { s with pending := p :: rest } :=
      h.same hpending.symm rfl rfl rfl
    obtain ⟨h₁, hlev, hstatus, hhalted, htotal, hcount, hfires⟩ :=
      occur_spec (s := { s with pending := rest }) hout hdue hlevel hs
    refine ⟨h₁, ⟨hlevel, hlev, hstatus, hhalted⟩, htotal, fun hfired => ?_,
      fun hnot hne => absurd ((hfires hne).symm.trans hnot) Bool.true_eq_false.mp⟩
    rw [hcount hfired, due, due, hpending, List.countP_cons_of_pos (by simpa using hdue)]
    exact Nat.lt_succ_self _

/-- `CheckIfDue(TRUE)` may advance the clock to the first pending interrupt. -/
theorem checkIfDue_advance_spec (h : Delivered trace s)
    (hs : checkIfDue handlers true s = .ok (fired, events, s')) :
    Delivered (trace ++ events) s' ∧ Checked s s' ∧ s.totalTicks ≤ s'.totalTicks := by
  obtain ⟨hlevel, ⟨-, rfl, rfl, rfl⟩ | ⟨p, rest, hpending, hcase⟩⟩ := checkIfDue_cases hs
  · rw [List.append_nil]
    exact ⟨h, ⟨hlevel, rfl, rfl, rfl⟩, le_refl _⟩
  obtain ⟨-, hlater, hs⟩ | ⟨hadvance, -⟩ | ⟨hdue, hs⟩ := hcase
  · obtain ⟨h₁, hlev, hstatus, hhalted, htotal, -, -⟩ :=
      occur_spec (h.advancedTo hpending hlater) (le_refl _) hlevel hs
    refine ⟨h₁, ⟨hlevel, hlev, hstatus, hhalted⟩, ?_⟩
    rw [htotal]
    exact le_of_lt hlater
  · cases hadvance
  · have hout : Delivered trace { s with pending := p :: rest } :=
      h.same hpending.symm rfl rfl rfl
    obtain ⟨h₁, hlev, hstatus, hhalted, htotal, -, -⟩ :=
      occur_spec (s := { s with pending := rest }) hout hdue hlevel hs
    exact ⟨h₁, ⟨hlevel, hlev, hstatus, hhalted⟩, le_of_eq htotal.symm⟩

/-! ## The loop -/

/-- What the loop has done when it ends. -/
theorem checkLoop_spec (h : Delivered trace s) (hs : checkLoop handlers fuel s = .ok (events, s')) :
    Delivered (trace ++ events) s' ∧ Checked s s' ∧ s'.totalTicks = s.totalTicks ∧
      (s.status ≠ .IdleMode → ∀ q ∈ s'.pending, s'.totalTicks < q.when) := by
  induction fuel generalizing trace s events with
  | zero => cases hs
  | succ fuel ih =>
    obtain ⟨⟨fired, first, s₁⟩, hcheck, hs⟩ := ok_of_bind hs
    obtain ⟨h₁, hchecked, htotal, -, hnone⟩ := checkIfDue_spec h hcheck
    cases fired with
    | false =>
      cases hs
      exact ⟨h₁, hchecked, htotal, fun hne => htotal ▸ hnone rfl hne⟩
    | true =>
      obtain ⟨⟨later, s₂⟩, hloop, hs⟩ := ok_of_bind hs
      cases hs
      obtain ⟨h₂, hchecked₂, htotal₂, hnone₂⟩ := ih h₁ hloop
      rw [← List.append_assoc]
      exact ⟨h₂, ⟨hchecked.off, hchecked₂.level.trans hchecked.level,
        hchecked₂.status.trans hchecked.status, hchecked₂.halted.trans hchecked.halted⟩,
        htotal₂.trans htotal, fun hne => hnone₂ (hchecked.status ▸ hne)⟩

/-- `Schedule` is only ever called for a later time. -/
def Positive (handlers : Handlers H W) : Prop :=
  ∀ handler time world, ∀ r ∈ (handlers handler time world).requests, 0 < r.fromNow

/-- A handler called at this time schedules an interrupt for a time that is no `int`. -/
def Exceeds (handlers : Handlers H W) (time : Int) : Prop :=
  ∃ handler world, ∃ r ∈ (handlers handler time world).requests, intRange ≤ time + r.fromNow

/-- `Schedule` fails only for a time out of range. -/
theorem schedule_error (hr : 0 < r.fromNow) (h : schedule s r = .error e) :
    e = .overflow ∧ intRange ≤ s.totalTicks + r.fromNow := by
  simp only [schedule, if_neg (not_le.mpr hr)] at h
  split at h
  · rename_i hrange
    exact ⟨(Except.error.inj h).symm, hrange⟩
  · cases h

/-- `Schedule` does not move the clock. -/
theorem schedule_totalTicks (h : schedule s r = .ok (events, s')) :
    s'.totalTicks = s.totalTicks := by
  simp only [schedule] at h
  split at h
  · cases h
  · split at h <;> cases h
    rfl

/-- So do the requests of a handler. -/
theorem scheduleAll_error (hr : ∀ r ∈ requests, 0 < r.fromNow)
    (h : scheduleAll s requests = .error e) :
    e = .overflow ∧ ∃ r ∈ requests, intRange ≤ s.totalTicks + r.fromNow := by
  induction requests generalizing s with
  | nil => cases h
  | cons r rest ih =>
    rcases error_of_bind h with h | ⟨_, hfirst, h⟩
    · obtain ⟨he, hrange⟩ := schedule_error (hr r List.mem_cons_self) h
      exact ⟨he, r, List.mem_cons_self, hrange⟩
    · rcases error_of_bind h with h | ⟨_, -, h⟩
      · obtain ⟨he, q, hq, hrange⟩ := ih (fun q hq => hr q (List.mem_cons_of_mem _ hq)) h
        rw [schedule_totalTicks hfirst] at hrange
        exact ⟨he, q, List.mem_cons_of_mem _ hq, hrange⟩
      · cases h

/-- So does a handler. -/
theorem occur_error (hpositive : Positive handlers) (h : occur handlers s p = .error e) :
    e = .overflow ∧ Exceeds handlers s.totalTicks := by
  unfold occur at h
  split at h
  · cases h
  · rcases error_of_bind h with h | ⟨_, -, h⟩
    · rcases error_of_bind h with h | ⟨_, -, h⟩
      · obtain ⟨he, r, hr, hrange⟩ := scheduleAll_error (hpositive _ _ _) h
        exact ⟨he, _, _, r, hr, hrange⟩
      · cases h
    · cases h

/-- So does `CheckIfDue`. -/
theorem checkIfDue_error (hpositive : Positive handlers) (hoff : s.level = .IntOff)
    (h : checkIfDue handlers advanceClock s = .error e) :
    e = .overflow ∧ (advanceClock = false → Exceeds handlers s.totalTicks) := by
  unfold checkIfDue at h
  rw [if_neg (not_not.mpr hoff)] at h
  split at h
  · cases h
  · split at h
    · rename_i hadvance
      exact ⟨(occur_error hpositive h).1, fun hnot => absurd hadvance.1 (by simp [hnot])⟩
    · split at h
      · cases h
      · exact ⟨(occur_error hpositive h).1, fun _ => (occur_error hpositive h).2⟩

/-- The loop terminates: every round takes a due interrupt away and handlers add none. -/
theorem checkLoop_error (hpositive : Positive handlers) (h : Delivered trace s)
    (hoff : s.level = .IntOff) (hfuel : due s < fuel)
    (herror : checkLoop handlers fuel s = .error e) :
    e = .overflow ∧ Exceeds handlers s.totalTicks := by
  induction fuel generalizing trace s with
  | zero => exact absurd hfuel (Nat.not_lt_zero _)
  | succ fuel ih =>
    rcases error_of_bind herror with herror | ⟨⟨fired, first, s₁⟩, hcheck, herror⟩
    · exact (checkIfDue_error hpositive hoff herror).imp_right fun hexceeds => hexceeds rfl
    · obtain ⟨h₁, hchecked, htotal, hless, -⟩ := checkIfDue_spec h hcheck
      cases fired with
      | false => cases herror
      | true =>
        rcases error_of_bind herror with herror | ⟨_, -, herror⟩
        · have hdue := hless rfl
          rw [← htotal]
          exact ih h₁ (hchecked.level.trans hoff) (by omega) herror
        · cases herror

theorem due_le_length (s : State H W) : due s ≤ s.pending.length := List.countP_le_length

/-! ## The operations -/

/-- Advancing the clock keeps the invariant. -/
theorem advance_spec (h : Delivered trace s) (hs : advance s = .ok s') :
    Delivered trace s' ∧ s'.level = .IntOff ∧ s'.status = s.status ∧
      s.totalTicks ≤ s'.totalTicks := by
  have hclocks := h.clocks
  unfold advance at hs
  split at hs
  all_goals
    split at hs
    · cases hs
    cases hs
    refine ⟨h.change (.refl _) h.sorted rfl ?_ ?_, rfl, rfl, ?_⟩
    all_goals
      simp only [SystemTick, UserTick]
      omega

/-- `OneTick`: afterwards nothing is due. -/
theorem oneTick_spec (h : Delivered trace s) (hstatus : s.status ≠ .IdleMode)
    (hs : oneTick handlers s = .ok (events, s')) :
    Delivered (trace ++ events) s' ∧ s'.status ≠ .IdleMode ∧ s.totalTicks ≤ s'.totalTicks ∧
      ∀ q ∈ s'.pending, s'.totalTicks < q.when := by
  obtain ⟨s₁, hadvance, hs⟩ := ok_of_bind hs
  obtain ⟨⟨later, s₂⟩, hloop, hs⟩ := ok_of_bind hs
  cases hs
  obtain ⟨h₁, -, hstatus₁, htotal₁⟩ := advance_spec h hadvance
  obtain ⟨h₂, hchecked, htotal₂, hnone⟩ := checkLoop_spec h₁ hloop
  have hstatus₂ : s₂.status ≠ .IdleMode := by rw [hchecked.status, hstatus₁]; exact hstatus
  have hnone := hnone (hstatus₁ ▸ hstatus)
  unfold endTick
  split
  · exact ⟨h₂.same rfl rfl rfl rfl, by simp, htotal₂ ▸ htotal₁, hnone⟩
  · exact ⟨h₂.same rfl rfl rfl rfl, hstatus₂, htotal₂ ▸ htotal₁, hnone⟩

/-- `Idle` halts the machine or leaves the idle mode. -/
theorem idle_spec (h : Delivered trace s) (hs : idle handlers s = .ok (events, s')) :
    Delivered (trace ++ events) s' ∧ (s'.halted = true ∨ s'.status ≠ .IdleMode) ∧
      s.totalTicks ≤ s'.totalTicks := by
  obtain ⟨⟨fired, first, s₁⟩, hcheck, hs⟩ := ok_of_bind hs
  have h₀ : Delivered trace { s with status := .IdleMode } := h.same rfl rfl rfl rfl
  obtain ⟨h₁, -, htotal₁⟩ := checkIfDue_advance_spec h₀ hcheck
  cases fired with
  | false =>
    cases hs
    exact ⟨h₁.same rfl rfl rfl rfl, .inl rfl, htotal₁⟩
  | true =>
    obtain ⟨⟨later, s₂⟩, hloop, hs⟩ := ok_of_bind hs
    cases hs
    obtain ⟨h₂, -, htotal₂, -⟩ := checkLoop_spec h₁ hloop
    rw [← List.append_assoc]
    exact ⟨h₂.same rfl rfl rfl rfl, .inr (by simp), htotal₂ ▸ htotal₁⟩

/-- The time after the next tick. -/
def nextTick (s : State H W) : Int :=
  s.totalTicks + if s.status = .SystemMode then SystemTick else UserTick

/-- The clock overflows, or it shows the time after the tick. -/
theorem advance_cases (s : State H W) :
    advance s = .error .overflow ∧ intRange ≤ nextTick s ∨
      ∃ s', advance s = .ok s' ∧ s'.totalTicks = nextTick s := by
  unfold advance nextTick
  by_cases hstatus : s.status = .SystemMode <;> simp only [hstatus, if_true, if_false]
  all_goals
    split
    · exact .inl ⟨rfl, ‹_›⟩
    · exact .inr ⟨_, rfl, rfl⟩

/-- `OneTick` returns as long as no time leaves the range of an `int`. -/
theorem oneTick_error (hpositive : Positive handlers) (h : Delivered trace s)
    (herror : oneTick handlers s = .error e) :
    e = .overflow ∧ (intRange ≤ nextTick s ∨ Exceeds handlers (nextTick s)) := by
  rcases advance_cases s with ⟨hadvance, hrange⟩ | ⟨s₁, hadvance, htotal⟩
  · rw [oneTick, hadvance] at herror
    exact ⟨(Except.error.inj herror).symm, .inl hrange⟩
  · obtain ⟨h₁, hoff, -⟩ := advance_spec h hadvance
    rw [oneTick, hadvance] at herror
    change (checkLoop handlers _ s₁ >>= _) = _ at herror
    rcases error_of_bind herror with herror | ⟨_, -, herror⟩
    · rw [← htotal]
      exact (checkLoop_error hpositive h₁ hoff (Nat.lt_succ_of_le (due_le_length s₁))
        herror).imp_right .inr
    · cases herror

/-- `Idle` returns or halts, with interrupts off. -/
theorem idle_error (hpositive : Positive handlers) (h : Delivered trace s)
    (hoff : s.level = .IntOff) (herror : idle handlers s = .error e) : e = .overflow := by
  have h₀ : Delivered trace { s with status := .IdleMode } := h.same rfl rfl rfl rfl
  rcases error_of_bind herror with herror | ⟨⟨fired, first, s₁⟩, hcheck, herror⟩
  · exact (checkIfDue_error (s := { s with status := .IdleMode }) hpositive hoff herror).1
  · obtain ⟨h₁, hchecked, -⟩ := checkIfDue_advance_spec h₀ hcheck
    cases fired with
    | false => cases herror
    | true =>
      rcases error_of_bind herror with herror | ⟨_, -, herror⟩
      · exact (checkLoop_error hpositive h₁ (hchecked.level.trans hoff)
          (Nat.lt_succ_of_le (due_le_length s₁)) herror).1
      · cases herror

/-- What one operation keeps. Idle mode is left again unless the machine halts. -/
theorem step_spec {act : Act H} (h : Delivered trace s)
    (hstatus : s.halted = true ∨ s.status ≠ .IdleMode)
    (hs : step handlers s act = some (events, s')) :
    Delivered (trace ++ events) s' ∧ (s'.halted = true ∨ s'.status ≠ .IdleMode) ∧
      s.totalTicks ≤ s'.totalTicks := by
  unfold step at hs
  split at hs
  · cases hs
  rename_i hhalted
  have hstatus : s.status ≠ .IdleMode := hstatus.resolve_left (by simpa using hhalted)
  have hperform : perform handlers s act = .ok (events, s') := ok_of_toOption hs
  cases act with
  | schedule r =>
    obtain ⟨h₁, hframe⟩ := schedule_spec h hperform
    exact ⟨h₁, .inr (hframe.status ▸ hstatus), le_of_eq hframe.totalTicks.symm⟩
  | oneTick =>
    obtain ⟨h₁, hstatus₁, htotal, -⟩ := oneTick_spec h hstatus hperform
    exact ⟨h₁, .inr hstatus₁, htotal⟩
  | idle => exact idle_spec h hperform
  | setStatus user =>
    cases hperform
    rw [List.append_nil]
    refine ⟨h.same rfl rfl rfl rfl, .inr ?_, le_refl _⟩
    cases user <;> simp
  | setLevel now =>
    simp only [perform, setLevel] at hperform
    split at hperform
    · cases hperform
    · split at hperform
      · have h₀ : Delivered trace { s with level := now } := h.same rfl rfl rfl rfl
        obtain ⟨h₁, hstatus₁, htotal, -⟩ := oneTick_spec h₀ hstatus hperform
        exact ⟨h₁, .inr hstatus₁, htotal⟩
      · cases hperform
        rw [List.append_nil]
        exact ⟨h.same rfl rfl rfl rfl, .inr hstatus, le_refl _⟩

/-- Nothing is pending at the start. -/
theorem delivered_new (world : W) : Delivered [] (State.new world : State H W) where
  sorted := List.Pairwise.nil
  distinct := List.nodup_nil
  known := by simp [firings, State.new]
  ordered := List.Pairwise.nil
  past := by simp [firings]
  first := by simp [firings]
  onTime := by simp [firings]
  announced := by simp [State.new]
  kept := by simp
  caused := fun _ _ => precededBy_nil _ _
  clocks := rfl

/-- The invariant along a run. -/
theorem delivered_run {start : State H W} {before : List Event} (h : Delivered before start)
    (hstatus : start.halted = true ∨ start.status ≠ .IdleMode)
    (hrun : Run (step handlers) anyAct start trace s) :
    Delivered (before ++ trace) s ∧ (s.halted = true ∨ s.status ≠ .IdleMode) ∧
      start.totalTicks ≤ s.totalTicks := by
  induction hrun with
  | refl => exact ⟨by simpa using h, hstatus, le_refl _⟩
  | snoc _ _ hs ih =>
    obtain ⟨hd, hst, htotal⟩ := ih
    obtain ⟨hd', hst', htotal'⟩ := step_spec hd hst hs
    rw [← List.append_assoc]
    exact ⟨hd', hst', le_trans htotal htotal'⟩

/-- Interrupts are delivered in every run: `OneTick` and `Idle` return as long as the time is an
`int`, and after `OneTick` nothing is due; every interrupt that `Schedule` has made is pending or
has fired; it fires at most once, not before its time, after the call of `Schedule` and with
interrupts off; the interrupts fire in the order of their times; and the clock agrees with its parts
and never goes back. -/
theorem interrupt_delivery {handlers : Handlers H W} (hpositive : Positive handlers) {world : W}
    {trace : List Event} {s : State H W}
    (hrun : Run (step handlers) anyAct (State.new world) trace s) :
    (∀ e, oneTick handlers s = .error e → e = .overflow) ∧
    (nextTick s < intRange → ¬ Exceeds handlers (nextTick s) →
      ∃ events s', oneTick handlers s = .ok (events, s')) ∧
    (s.level = .IntOff → ∀ e, idle handlers s = .error e → e = .overflow) ∧
    (s.halted = false → ∀ events s', oneTick handlers s = .ok (events, s') →
      ∀ p ∈ s'.pending, s'.totalTicks < p.when) ∧
    (∀ id when, .scheduled id when ∈ trace → (∃ p ∈ s.pending, p.id = id ∧ p.when = when) ∨
      ∃ f ∈ firings trace, f.id = id ∧ f.when = when) ∧
    ((firings trace).map (·.id)).Nodup ∧
    (∀ id when, PrecededBy (fun e => ∃ f, e = .fired f ∧ f.id = id ∧ f.when = when)
      (· = .scheduled id when) trace) ∧
    (∀ f ∈ firings trace, f.when ≤ f.time ∧ f.level = .IntOff) ∧
    (firings trace).Pairwise (fun a b => a.when ≤ b.when) ∧
    s.totalTicks = s.idleTicks + s.systemTicks + s.userTicks ∧
    ∀ later t, Run (step handlers) anyAct s later t → s.totalTicks ≤ t.totalTicks := by
  obtain ⟨h, hstatus, -⟩ := delivered_run (delivered_new world) (.inr (by simp [State.new])) hrun
  rw [List.nil_append] at h
  refine ⟨fun e herror => (oneTick_error hpositive h herror).1, fun hrange hexceeds => ?_,
    fun hoff e => idle_error hpositive h hoff, fun hhalted events s' hs => ?_, h.kept,
    (List.nodup_append.mp h.distinct).1, h.caused, h.onTime, h.ordered, h.clocks,
    fun later t hlater => (delivered_run h hstatus hlater).2.2⟩
  · cases hs : oneTick handlers s with
    | ok result => exact ⟨result.1, result.2, rfl⟩
    | error e =>
      obtain ⟨-, hrange' | hexceeds'⟩ := oneTick_error hpositive h hs
      · exact absurd hrange (not_lt.mpr hrange')
      · exact absurd hexceeds' hexceeds
  · have hstatus : s.status ≠ .IdleMode := hstatus.resolve_left (by simp [hhalted])
    exact (oneTick_spec h hstatus hs).2.2.2

/-- A timer that reschedules itself, and a device. -/
def timerAndDevice : Handlers Bool Nat := fun handler _ world =>
  { world := world + 1
    requests := if handler then [⟨true, 100, .TimerInt⟩] else []
    yieldOnReturn := handler }

/-- Two interrupts at the same time fire in one `OneTick`, in the order they were scheduled. -/
theorem interrupt_delivery_timer : ∃ trace s,
    Run (step timerAndDevice) anyAct (State.new 0) trace s ∧
    firings trace = [⟨0, 10, 10, .IntOff⟩, ⟨1, 10, 10, .IntOff⟩] ∧
    s.totalTicks = s.idleTicks + s.systemTicks + s.userTicks := by
  have hpositive : Positive timerAndDevice := by
    intro handler time world r hr
    cases handler
    · simp [timerAndDevice] at hr
    · rw [List.mem_singleton.mp hr]
      decide
  obtain ⟨trace, s, hrun, hfirings⟩ := run_reaches (step timerAndDevice) (State.new 0)
    (fun trace _ => firings trace = [⟨0, 10, 10, .IntOff⟩, ⟨1, 10, 10, .IntOff⟩])
    [.schedule ⟨true, 10, .TimerInt⟩, .schedule ⟨false, 10, .DiskInt⟩, .oneTick]
    (by decide +kernel)
  exact ⟨trace, s, hrun, hfirings, (interrupt_delivery hpositive hrun).2.2.2.2.2.2.2.2.2.1⟩

end Nachos.Interrupt
