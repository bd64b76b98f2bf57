import Nachos.Library.Places
import Nachos.Library.Transition
import Nachos.Machine.Interrupt
import Nachos.Threads.Semaphore

/-!
# Threads and the scheduler

`Thread`, `Scheduler` and `Semaphore` over the interrupt level of `Interrupt`. The kernel runs with
interrupts off except where `SetLevel` turns them on again, so one action of the model is the code
between two points at which something else can happen: the calls of handlers in `OneTick` and
`Idle`, and `SWITCH`. A handler makes any number of calls of `V` and may ask for a `Yield`; every
handler may be due at every `OneTick` and `Idle`.

A thread that gave up the processor goes on where its call of `SWITCH` returns, a new thread in
`ThreadRoot`. Threads are named, and a name is used for one thread only: `Fork` is called once on
a thread that has just been created.
-/

namespace Nachos.Scheduler

open Transition Places Function
open Interrupt (IntStatus)

/-- `ThreadStatus`. -/
inductive ThreadStatus where
  | JUST_CREATED
  | RUNNING
  | READY
  | BLOCKED
  deriving DecidableEq, Repr

/-- Where a thread goes on when it gets the processor. -/
inductive Resume (S : Type*) where
  /-- `ThreadRoot`. -/
  | root
  /-- The end of `Yield`. -/
  | yield (oldLevel : IntStatus)
  /-- The loop of `Semaphore::P`, back from `Sleep`. -/
  | P (sem : S) (oldLevel : IntStatus)
  /-- The end of `Finish`, which is not reached. -/
  | finish
  deriving DecidableEq, Repr

/-- What the processor is doing. -/
inductive Mode where
  /-- The current thread is in its own code. -/
  | code
  /-- `OneTick` is calling handlers. -/
  | tick
  /-- The current thread is in the loop of `Sleep`, and `Idle` is calling handlers. -/
  | idle
  /-- The current thread has just been switched to. -/
  | switched
  deriving DecidableEq, Repr

/-- The failing assertions. -/
inductive Assertion where
  | setLevel
  | sleep
  | deleteThread
  | notReached
  deriving DecidableEq, Repr

inductive Failure where
  /-- The action is not possible here. -/
  | refused
  | assertion (a : Assertion)
  deriving DecidableEq, Repr

inductive Event (T : Type*) where
  | forked (thread : T)
  | started (thread : T)
  | resumed (thread : T)
  | finished (thread : T)
  /-- `threadToBeDestroyed` referred to this thread and now refers to another one. -/
  | overwritten (thread : T)
  | deleted (thread : T)
  deriving DecidableEq, Repr

/-- Threads named by `T`, semaphores named by `S`. -/
structure State (T S : Type*) where
  level : IntStatus
  inHandler : Bool
  yieldOnReturn : Bool
  currentThread : T
  threadToBeDestroyed : Option T
  readyList : List T
  semaphores : S → Semaphore T
  status : T → ThreadStatus
  resume : T → Resume S
  mode : Mode

variable {T S : Type}

section Operations

variable [DecidableEq T] [DecidableEq S]

/-- The end of `Initialize`: the main thread runs, with interrupts on. -/
def State.new (main : T) (initialValue : S → Int) : State T S where
  level := .IntOn
  inHandler := false
  yieldOnReturn := false
  currentThread := main
  threadToBeDestroyed := none
  readyList := []
  semaphores := fun sem => Semaphore.new (initialValue sem)
  status := fun t => if t = main then .RUNNING else .JUST_CREATED
  resume := fun _ => .root
  mode := .code

/-- `Interrupt::SetLevel`. When interrupts are turned on, `OneTick` turns them off again and calls
the handlers that are due. -/
def setLevel (s : State T S) (now : IntStatus) : Except Failure (State T S) :=
  if now ≠ .IntOff ∧ s.inHandler = true then .error (.assertion .setLevel)
  else if now = .IntOn ∧ s.level = .IntOff then .ok { s with level := .IntOff, mode := .tick }
  else .ok { s with level := now }

/-- `Scheduler::ReadyToRun`. -/
def readyToRun (s : State T S) (thread : T) : State T S :=
  { s with
    status := update s.status thread .READY
    readyList := s.readyList ++ [thread] }

/-- `Scheduler::FindNextToRun`. -/
def findNextToRun (s : State T S) : Option T × State T S :=
  (s.readyList.head?, { s with readyList := s.readyList.tail })

/-- `Scheduler::Run` up to `SWITCH`. -/
def run (s : State T S) (nextThread : T) : State T S :=
  { s with
    currentThread := nextThread
    status := update s.status nextThread .RUNNING
    mode := .switched }

/-- `Thread::Yield`. -/
def yield (s : State T S) : Except Failure (State T S) := do
  let oldLevel := s.level
  let s ← setLevel s .IntOff
  match findNextToRun s with
  | (none, s) => setLevel s oldLevel
  | (some nextThread, s) =>
    let s := { s with resume := update s.resume s.currentThread (.yield oldLevel) }
    pure (run (readyToRun s s.currentThread) nextThread)

/-- The loop of `Thread::Sleep`, up to the next call of `Idle`. -/
def sleepLoop (s : State T S) : State T S :=
  match findNextToRun s with
  | (none, s) => { s with mode := .idle }
  | (some nextThread, s) => run s nextThread

/-- `Thread::Sleep`, called by a function that goes on at `back`. -/
def sleep (s : State T S) (back : Resume S) : Except Failure (State T S) :=
  if s.level ≠ .IntOff then .error (.assertion .sleep)
  else .ok (sleepLoop { s with
    status := update s.status s.currentThread .BLOCKED
    resume := update s.resume s.currentThread back })

/-- `Thread::Fork`. -/
def fork (s : State T S) (thread : T) : Except Failure (List (Event T) × State T S) :=
  if s.status thread ≠ .JUST_CREATED then .error .refused
  else do
    let s := { s with resume := update s.resume thread .root }
    let oldLevel := s.level
    let s ← setLevel s .IntOff
    let s ← setLevel (readyToRun s thread) oldLevel
    pure ([.forked thread], s)

/-- `Thread::Finish`. -/
def finish (s : State T S) : Except Failure (List (Event T) × State T S) := do
  let s ← setLevel s .IntOff
  let events := s.threadToBeDestroyed.toList.map .overwritten ++ [.finished s.currentThread]
  let s ← sleep { s with threadToBeDestroyed := some s.currentThread } .finish
  pure (events, s)

/-- The loop of `Semaphore::P` and what follows it. -/
def loopP (s : State T S) (sem : S) (oldLevel : IntStatus) : Except Failure (State T S) :=
  match (s.semaphores sem).P s.currentThread with
  | (false, q) =>
    sleep { s with semaphores := update s.semaphores sem q } (.P sem oldLevel)
  | (true, q) =>
    setLevel { s with semaphores := update s.semaphores sem q } oldLevel

/-- `Semaphore::P`. -/
def P (s : State T S) (sem : S) : Except Failure (State T S) := do
  let oldLevel := s.level
  let s ← setLevel s .IntOff
  loopP s sem oldLevel

/-- The middle of `Semaphore::V`: a waiting thread is made ready and the value is incremented. -/
def wake (s : State T S) (sem : S) : State T S :=
  let (thread, q) := (s.semaphores sem).V
  let s := { s with semaphores := update s.semaphores sem q }
  match thread with
  | none => s
  | some t => readyToRun s t

/-- `Semaphore::V`. -/
def V (s : State T S) (sem : S) : Except Failure (State T S) := do
  let oldLevel := s.level
  let s ← setLevel s .IntOff
  setLevel (wake s sem) oldLevel

/-- `CheckIfDue` calls a handler. -/
def handler (s : State T S) (vs : List S) (yieldOnReturn : Bool) : Except Failure (State T S) := do
  let s ← vs.foldlM V { s with inHandler := true }
  pure { s with inHandler := false, yieldOnReturn := s.yieldOnReturn || yieldOnReturn }

/-- The end of `OneTick`. -/
def endTick (s : State T S) : Except Failure (State T S) :=
  if s.yieldOnReturn then yield { s with level := .IntOn, yieldOnReturn := false, mode := .code }
  else .ok { s with level := .IntOn, mode := .code }

/-- `Scheduler::Run` after `SWITCH`: the thread that finished is deleted. -/
def afterSwitch (s : State T S) : Except Failure (List (Event T) × State T S) :=
  match s.threadToBeDestroyed with
  | none => .ok ([], s)
  | some t =>
    if t = s.currentThread then .error (.assertion .deleteThread)
    else .ok ([.deleted t], { s with threadToBeDestroyed := none })

/-- The current thread goes on after `SWITCH`. -/
def goOn (s : State T S) : Except Failure (List (Event T) × State T S) :=
  let s := { s with mode := .code }
  match s.resume s.currentThread with
  | .root => do
    let s' ← setLevel s .IntOn
    pure ([.started s.currentThread], s')
  | .yield oldLevel => do
    let (events, s₁) ← afterSwitch s
    let s' ← setLevel s₁ oldLevel
    pure (.resumed s.currentThread :: events, s')
  | .P sem oldLevel => do
    let (events, s₁) ← afterSwitch s
    let s' ← loopP s₁ sem oldLevel
    pure (.resumed s.currentThread :: events, s')
  | .finish => .error (.assertion .notReached)

/-- What can happen next. -/
inductive Act (T S : Type*) where
  | fork (thread : T)
  | yield
  | finish
  | P (sem : S)
  | V (sem : S)
  /-- A user instruction is executed. -/
  | instruction
  /-- A handler is called. -/
  | handler (vs : List S) (yieldOnReturn : Bool)
  /-- The kernel goes on. -/
  | goOn
  deriving DecidableEq, Repr

/-- An operation that emits no event. -/
def silent (x : Except Failure (State T S)) : Except Failure (List (Event T) × State T S) :=
  x.map fun s => ([], s)

/-- One action. -/
def perform (s : State T S) (act : Act T S) : Except Failure (List (Event T) × State T S) :=
  match s.mode, act with
  | .code, .fork thread => fork s thread
  | .code, .yield => silent (yield s)
  | .code, .finish => finish s
  | .code, .P sem => silent (P s sem)
  | .code, .V sem => silent (V s sem)
  | .code, .instruction => .ok ([], { s with level := .IntOff, mode := .tick })
  | .tick, .handler vs y => silent (handler s vs y)
  | .idle, .handler vs y => silent (handler s vs y)
  | .tick, .goOn => silent (endTick s)
  | .idle, .goOn => .ok ([], sleepLoop { s with yieldOnReturn := false })
  | .switched, .goOn => goOn s
  | _, _ => .error .refused

/-- Actions one after the other, until an assertion fails. -/
def step : Step (State T S) (Act T S) (Event T) := fun s act => (perform s act).toOption

end Operations

/-- The threads that have been forked. -/
def forked (trace : List (Event T)) : List T :=
  trace.filterMap fun
    | .forked t => some t
    | _ => none

/-- The threads that have called `Finish`. -/
def finished (trace : List (Event T)) : List T :=
  trace.filterMap fun
    | .finished t => some t
    | _ => none

theorem finished_append (first second : List (Event T)) :
    finished (first ++ second) = finished first ++ finished second :=
  List.filterMap_append

/-! ## Where the threads are -/

/-- The place of a thread. -/
inductive Place (S : Type*) where
  /-- Not yet forked. -/
  | created
  /-- It has the processor. -/
  | current
  | readyList
  | queue (sem : S)
  /-- It has finished. -/
  | gone
  deriving DecidableEq, Repr

/-- The status that goes with a place. -/
def Place.status : Place S → ThreadStatus
  | .created => .JUST_CREATED
  | .current => .RUNNING
  | .readyList => .READY
  | .queue _ => .BLOCKED
  | .gone => .BLOCKED

/-- The statuses and the lists are right about the places. -/
structure Located (place : T → Place S) (gone : List T) (status : T → ThreadStatus)
    (readyList : List T) (semaphores : S → Semaphore T) : Prop where
  status : ∀ t, status t = (place t).status
  ready : Lists place .readyList readyList
  queue : ∀ sem, Lists place (.queue sem) (semaphores sem).queue
  gone : Lists place .gone gone

section Located

variable {place : T → Place S} {gone : List T} {status : T → ThreadStatus} {readyList : List T}
  {semaphores : S → Semaphore T} {t : T} {sem : S}

variable [DecidableEq T]

/-- The status of a thread that moves. -/
theorem status_update (h : ∀ u, status u = (place u).status) (t : T) (p : Place S) (u : T) :
    update status t p.status u = (update place t p u).status := by
  by_cases hu : u = t
  · simp [hu]
  · simp [hu, h u]

/-- A new thread or the current thread becomes ready. -/
theorem Located.toReady (h : Located place gone status readyList semaphores)
    (ht : place t = .created ∨ place t = .current) :
    Located (update place t .readyList) gone (update status t .READY)
      (readyList ++ [t]) semaphores where
  status := status_update h.status t .readyList
  ready := h.ready.append (by rcases ht with ht | ht <;> simp [ht])
  queue := fun sem => (h.queue sem).other (by rcases ht with ht | ht <;> simp [ht]) (by simp)
  gone := h.gone.other (by rcases ht with ht | ht <;> simp [ht]) (by simp)

/-- The first ready thread gets the processor. -/
theorem Located.toCurrent {rest : List T}
    (h : Located place gone status (t :: rest) semaphores) :
    Located (update place t .current) gone (update status t .RUNNING) rest
      semaphores where
  status := status_update h.status t .current
  ready := h.ready.tail (by simp)
  queue := fun sem => by
    have ht := (h.ready.mem t).mp List.mem_cons_self
    exact (h.queue sem).other (by simp [ht]) (by simp)
  gone := by
    have ht := (h.ready.mem t).mp List.mem_cons_self
    exact h.gone.other (by simp [ht]) (by simp)

/-- The current thread finishes. -/
theorem Located.toGone (h : Located place gone status readyList semaphores)
    (ht : place t = .current) :
    Located (update place t .gone) (gone ++ [t]) (update status t .BLOCKED)
      readyList semaphores where
  status := status_update h.status t .gone
  ready := h.ready.other (by simp [ht]) (by simp)
  queue := fun sem => (h.queue sem).other (by simp [ht]) (by simp)
  gone := h.gone.append (by simp [ht])

variable [DecidableEq S]

/-- The current thread goes to the end of a queue. -/
theorem Located.toQueue (h : Located place gone status readyList semaphores)
    (ht : place t = .current) {value : Int} :
    Located (update place t (.queue sem)) gone (update status t .BLOCKED)
      readyList (update semaphores sem ⟨value, (semaphores sem).queue ++ [t]⟩) where
  status := status_update h.status t (.queue sem)
  ready := h.ready.other (by simp [ht]) (by simp)
  queue := fun other => by
    by_cases ho : other = sem
    · subst ho
      simpa using (h.queue other).append (by simp [ht])
    · simpa [ho] using (h.queue other).other (by simp [ht]) (by simpa using Ne.symm ho)
  gone := h.gone.other (by simp [ht]) (by simp)

/-- The first thread of a queue becomes ready. -/
theorem Located.wake {rest : List T} (h : Located place gone status readyList semaphores)
    (hqueue : (semaphores sem).queue = t :: rest) {value : Int} :
    Located (update place t .readyList) gone (update status t .READY)
      (readyList ++ [t]) (update semaphores sem ⟨value, rest⟩) := by
  have hfirst := h.queue sem
  rw [hqueue] at hfirst
  have ht : place t = .queue sem := (hfirst.mem t).mp List.mem_cons_self
  refine ⟨status_update h.status t .readyList, h.ready.append (by simp [ht]), fun other => ?_,
    h.gone.other (by simp [ht]) (by simp)⟩
  by_cases ho : other = sem
  · subst ho
    simpa using hfirst.tail (by simp)
  · have hne : place t ≠ .queue other := by
      rw [ht]
      simpa using Ne.symm ho
    simpa [ho] using (h.queue other).other hne (by simp)

omit [DecidableEq T] in
/-- The value of a semaphore does not matter. -/
theorem Located.value (h : Located place gone status readyList semaphores) {q : Semaphore T}
    (hqueue : q.queue = (semaphores sem).queue) :
    Located place gone status readyList (update semaphores sem q) := by
  refine ⟨h.status, h.ready, fun other => ?_, h.gone⟩
  by_cases ho : other = sem
  · subst ho
    simpa [hqueue] using h.queue other
  · simpa [ho] using h.queue other

end Located

/-- The state after a trace, with the threads in the given places. -/
structure Consistent (main : T) (trace : List (Event T)) (place : T → Place S)
    (s : State T S) : Prop where
  located : Located place (finished trace) s.status s.readyList s.semaphores
  quiet : s.inHandler = false
  off : s.mode ≠ .code → s.level = .IntOff
  current : ∀ t, place t = .current ↔ t = s.currentThread ∧ s.mode ≠ .idle
  known : ∀ t, t = main ∨ t ∈ forked trace → place t ≠ .created
  ending : ∀ t, s.resume t = .finish ∨ s.threadToBeDestroyed = some t → place t = .gone

section Steps

variable {main : T} {trace : List (Event T)} {place : T → Place S} {s : State T S} {t : T}
  {p : Place S} {trace' : List (Event T)} {rest : List T}

theorem Consistent.mode_code (h : Consistent main trace place s) (hmode : s.mode = .code) :
    place s.currentThread = .current :=
  (h.current _).mpr ⟨rfl, by simp [hmode]⟩

/-! ### Setting the level -/

theorem setLevel_off (s : State T S) : setLevel s .IntOff = .ok { s with level := .IntOff } := by
  simp [setLevel]

/-- Turning interrupts off. -/
theorem Consistent.lower (h : Consistent main trace place s) :
    Consistent main trace place { s with level := .IntOff } :=
  ⟨h.located, h.quiet, fun _ => rfl, h.current, h.known, h.ending⟩

/-- Setting the level outside a handler. -/
theorem setLevel_spec (h : Consistent main trace place s) (hmode : s.mode = .code)
    (now : IntStatus) : ∃ s', setLevel s now = .ok s' ∧ Consistent main trace place s' := by
  unfold setLevel
  rw [if_neg (by simp [h.quiet])]
  split
  · refine ⟨_, rfl, h.located, h.quiet, fun _ => rfl, fun t => ?_, h.known, h.ending⟩
    simp [h.current t, hmode]
  · exact ⟨_, rfl, h.located, h.quiet, fun hne => absurd hmode hne, h.current, h.known, h.ending⟩

/-! ### Switching -/

theorem findNextToRun_nil (h : s.readyList = []) : findNextToRun s = (none, s) := by
  cases s
  cases h
  rfl

theorem findNextToRun_cons (h : s.readyList = t :: rest) :
    findNextToRun s = (some t, { s with readyList := rest }) := by
  simp [findNextToRun, h]

variable [DecidableEq T]

/-- A thread that has finished stays where it is when another one moves. -/
theorem gone_update {u : T} (hu : place u = .gone) (ht : place t ≠ .gone) :
    update place t p u = .gone := by
  have hne : u ≠ t := fun heq => ht (heq ▸ hu)
  simpa [hne] using hu

/-- The current thread gives up the processor and is now in the place `p`. -/
theorem Consistent.leave (h : Consistent main trace place s)
    (hcur : place s.currentThread = .current) {back : Resume S} {s' : State T S}
    (hlocated : Located (update place s.currentThread p) (finished trace')
      s'.status s'.readyList s'.semaphores) (hp : p ≠ .current ∧ p ≠ .created)
    (hending : s'.threadToBeDestroyed = s.threadToBeDestroyed ∧ back ≠ .finish ∨
      s'.threadToBeDestroyed = some s.currentThread ∧ p = .gone)
    (hforked : forked trace' = forked trace) (hquiet : s'.inHandler = s.inHandler)
    (hoff : s'.level = .IntOff) (hidle : s'.mode = .idle)
    (hresume : s'.resume = update s.resume s.currentThread back) :
    Consistent main trace' (update place s.currentThread p) s' := by
  refine ⟨hlocated, hquiet.trans h.quiet, fun _ => hoff, fun t => ?_, fun t ht => ?_,
    fun t ht => ?_⟩
  · by_cases hcur : t = s.currentThread
    · simp [hcur, hp.1, hidle]
    · simp [hcur, h.current t, hidle]
  · by_cases hcur : t = s.currentThread
    · simp [hcur, hp.2]
    · simpa [hcur] using h.known t (hforked ▸ ht)
  · rw [hresume] at ht
    by_cases hthis : t = s.currentThread
    · subst hthis
      simp only [update_self] at ht ⊢
      rcases hending with ⟨hsame, hback⟩ | ⟨-, hgone⟩
      · -- the current thread has not finished before
        have hgone := h.ending _ (.inr (hsame ▸ ht.resolve_left hback))
        simp [hcur] at hgone
      · exact hgone
    · simp only [update_of_ne hthis] at ht ⊢
      refine h.ending t (ht.imp_right fun hd => ?_)
      rcases hending with ⟨hsame, -⟩ | ⟨hsome, -⟩
      · exact hsame ▸ hd
      · exact absurd (Option.some.inj (hd.symm.trans hsome)) hthis

/-- The processor goes to the first ready thread, if there is one. -/
theorem sleepLoop_spec (h : Consistent main trace place { s with mode := .idle }) :
    ∃ place', Consistent main trace place' (sleepLoop s) := by
  cases hready : s.readyList with
  | nil =>
    refine ⟨place, ?_⟩
    simpa only [sleepLoop, findNextToRun_nil hready] using h
  | cons t rest =>
    have hlocated := h.located
    simp only [hready] at hlocated
    have ht : place t = .readyList := (hlocated.ready.mem t).mp List.mem_cons_self
    refine ⟨update place t .current, ?_⟩
    simp only [sleepLoop, findNextToRun_cons hready]
    refine ⟨hlocated.toCurrent, h.quiet, fun _ => h.off (by simp), fun u => ?_, fun u hu => ?_,
      fun u hu => ?_⟩
    · by_cases hut : u = t
      · simp [hut, run]
      · have hnone : place u ≠ .current := fun hu => by simpa using (h.current u).mp hu
        simp [hut, run, hnone]
    · by_cases hut : u = t
      · simp [hut]
      · simpa [hut] using h.known u hu
    · exact gone_update (h.ending u hu) (by simp [ht])

theorem yield_nil (h : s.readyList = []) :
    yield s = setLevel { s with level := .IntOff } s.level := by
  have hnext : findNextToRun { s with level := .IntOff } = (none, { s with level := .IntOff }) :=
    findNextToRun_nil h
  simp only [yield, setLevel_off, bind, Except.bind, hnext]

/-- `Yield` hands the processor over as `Sleep` does, with the current thread at the end of the
ready list. -/
theorem yield_cons (h : s.readyList = t :: rest) :
    yield s = .ok (sleepLoop (readyToRun { s with
      level := .IntOff
      resume := update s.resume s.currentThread (.yield s.level) } s.currentThread)) := by
  have hnext : findNextToRun { s with level := .IntOff } =
      (some t, { s with level := .IntOff, readyList := rest }) := findNextToRun_cons h
  simp only [yield, setLevel_off, bind, Except.bind, hnext]
  simp [sleepLoop, findNextToRun, readyToRun, h, run, pure, Except.pure]

/-- `Yield` of the current thread. -/
theorem yield_spec (h : Consistent main trace place s) (hmode : s.mode = .code) :
    ∃ s' place', yield s = .ok s' ∧ Consistent main trace place' s' := by
  have hcur := h.mode_code hmode
  cases hready : s.readyList with
  | nil =>
    obtain ⟨s', hset, hs'⟩ := setLevel_spec h.lower hmode s.level
    exact ⟨s', place, (yield_nil hready).trans hset, hs'⟩
  | cons t rest =>
    obtain ⟨place', hs'⟩ := sleepLoop_spec (s := readyToRun { s with
        level := .IntOff
        resume := update s.resume s.currentThread (.yield s.level) } s.currentThread)
      (h.leave hcur (h.located.toReady (.inr hcur)) (by simp) (.inl ⟨rfl, by simp⟩) rfl rfl rfl
        rfl rfl)
    exact ⟨_, place', yield_cons hready, hs'⟩

/-- The current thread goes to sleep; it has been put in its place already. -/
theorem sleep_spec (back : Resume S) (hoff : s.level = .IntOff) (h : Consistent main trace' place
      { s with
        status := update s.status s.currentThread .BLOCKED
        resume := update s.resume s.currentThread back
        mode := .idle }) :
    ∃ s' place', sleep s back = .ok s' ∧ Consistent main trace' place' s' := by
  obtain ⟨place', hs'⟩ := sleepLoop_spec (s := { s with
    status := update s.status s.currentThread .BLOCKED
    resume := update s.resume s.currentThread back }) h
  exact ⟨_, place', by rw [sleep, if_neg (by simp [hoff])], hs'⟩

/-! ### Threads -/

/-- `Fork` of a new thread. -/
theorem fork_spec (h : Consistent main trace place s) (hmode : s.mode = .code) {thread : T}
    (hnew : s.status thread = .JUST_CREATED) :
    ∃ s' place', fork s thread = .ok ([.forked thread], s') ∧
      Consistent main (trace ++ [.forked thread]) place' s' := by
  have hcreated : place thread = .created := by
    have hstatus := h.located.status thread
    rw [hnew] at hstatus
    cases hp : place thread <;> simp [hp, Place.status] at hstatus ⊢
  have hready : Consistent main (trace ++ [.forked thread])
      (update place thread .readyList)
      (readyToRun { s with
        resume := update s.resume thread .root, level := .IntOff } thread) := by
    refine ⟨?_, h.quiet, fun _ => rfl, fun t => ?_, fun t ht => ?_, fun t ht => ?_⟩
    · rw [show finished (trace ++ [.forked thread]) = finished trace by simp [finished]]
      exact h.located.toReady (.inl hcreated)
    · by_cases hthread : t = thread
      · have := h.current thread
        simp only [hcreated, reduceCtorEq, false_iff] at this
        simpa [hthread, readyToRun] using this
      · simpa [hthread, readyToRun] using h.current t
    · by_cases hthread : t = thread
      · simp [hthread]
      · have hold : t = main ∨ t ∈ forked trace := by
          simpa [forked, hthread] using ht
        simpa [hthread] using h.known t hold
    · refine gone_update (h.ending t (ht.imp_left fun hr => ?_)) (by simp [hcreated])
      by_cases hthread : t = thread
      · simp [hthread, readyToRun] at hr
      · simpa [hthread, readyToRun] using hr
  obtain ⟨s', hset, hs'⟩ := setLevel_spec hready hmode s.level
  refine ⟨s', _, ?_, hs'⟩
  simp only [fork, if_neg (not_not.mpr hnew), setLevel_off, bind, Except.bind, hset, pure,
    Except.pure]

/-- `Finish` of the current thread. -/
theorem finish_spec (h : Consistent main trace place s) (hmode : s.mode = .code) :
    ∃ s' place', finish s = .ok
        (s.threadToBeDestroyed.toList.map .overwritten ++ [.finished s.currentThread], s') ∧
      Consistent main (trace ++ (s.threadToBeDestroyed.toList.map .overwritten ++
        [.finished s.currentThread])) place' s' := by
  have hcur := h.mode_code hmode
  set events : List (Event T) :=
    s.threadToBeDestroyed.toList.map .overwritten ++ [.finished s.currentThread] with hevents
  have hfinished : finished (trace ++ events) = finished trace ++ [s.currentThread] := by
    cases hd : s.threadToBeDestroyed <;> simp [hevents, hd, finished]
  have hforked : forked (trace ++ events) = forked trace := by
    cases hd : s.threadToBeDestroyed <;> simp [hevents, hd, forked]
  have hlocated := h.located.toGone hcur
  rw [← hfinished] at hlocated
  obtain ⟨s', place', hsleep, hs'⟩ := sleep_spec .finish
    (s := { s with level := .IntOff, threadToBeDestroyed := some s.currentThread }) rfl
    (h.leave hcur hlocated (by simp) (.inr ⟨rfl, rfl⟩) hforked rfl rfl rfl rfl)
  refine ⟨s', place', ?_, hs'⟩
  simp only [finish, setLevel_off, bind, Except.bind, hsleep, pure, Except.pure, hevents]

/-- After `SWITCH` a thread that has finished is deleted, which is not the current one. -/
theorem afterSwitch_spec (h : Consistent main trace place s) (hmode : s.mode = .code) :
    ∃ events s', afterSwitch s = .ok (events, s') ∧
      Consistent main (trace ++ .resumed s.currentThread :: events) place s' ∧
      s'.mode = .code ∧ s'.level = s.level := by
  have hcur := h.mode_code hmode
  unfold afterSwitch
  split
  · refine ⟨_, _, rfl, ⟨?_, h.quiet, h.off, h.current, fun t ht => ?_, h.ending⟩, hmode, rfl⟩
    · simpa [finished] using h.located
    · exact h.known t (by simpa [forked] using ht)
  · rename_i t hd
    have hgone := h.ending t (.inr hd)
    rw [if_neg (fun heq => by simp [heq, hcur] at hgone)]
    refine ⟨_, _, rfl, ⟨?_, h.quiet, h.off, h.current, fun t ht => ?_,
      fun t ht => h.ending t (.inl (by simpa using ht))⟩, hmode, rfl⟩
    · simpa [finished] using h.located
    · exact h.known t (by simpa [forked] using ht)

/-- The end of `OneTick`. -/
theorem endTick_spec (h : Consistent main trace place s) (hmode : s.mode = .tick) :
    ∃ s' place', endTick s = .ok s' ∧ Consistent main trace place' s' := by
  have hcode : ∀ y, Consistent main trace place
      { s with level := .IntOn, yieldOnReturn := y, mode := .code } := by
    refine fun y => ⟨h.located, h.quiet, fun hne => absurd rfl hne, fun t => ?_, h.known, h.ending⟩
    simpa [hmode] using h.current t
  unfold endTick
  split
  · exact yield_spec (hcode false) rfl
  · exact ⟨_, place, rfl, hcode s.yieldOnReturn⟩

theorem consistent_new (main : T) (initialValue : S → Int) :
    Consistent main [] (fun t => if t = main then .current else .created)
      (State.new main initialValue) := by
  refine ⟨⟨fun t => ?_, lists_nil fun t => ?_, fun sem => lists_nil fun t => ?_,
    lists_nil fun t => ?_⟩, rfl, by simp [State.new], fun t => ?_, fun t ht => ?_, fun t ht => ?_⟩
  · by_cases ht : t = main <;> simp [State.new, ht, Place.status]
  · by_cases ht : t = main <;> simp [ht]
  · by_cases ht : t = main <;> simp [ht]
  · by_cases ht : t = main <;> simp [ht]
  · by_cases ht : t = main <;> simp [State.new, ht]
  · have : t = main := by simpa [forked] using ht
    simp [this]
  · simp [State.new] at ht

/-! ### Semaphores -/

variable [DecidableEq S]

/-- The loop of `P`: the current thread gets a unit or sleeps in the queue. -/
theorem loopP_spec (h : Consistent main trace place s) (hmode : s.mode = .code)
    (hoff : s.level = .IntOff) (sem : S) (oldLevel : IntStatus) :
    ∃ s' place', loopP s sem oldLevel = .ok s' ∧ Consistent main trace place' s' := by
  have hcur := h.mode_code hmode
  by_cases hvalue : (s.semaphores sem).value = 0
  · simp only [loopP, Semaphore.P, if_pos hvalue]
    exact sleep_spec _ hoff
      (h.leave hcur (h.located.toQueue hcur) (by simp) (.inl ⟨rfl, by simp⟩) rfl rfl hoff rfl rfl)
  · simp only [loopP, Semaphore.P, if_neg hvalue]
    obtain ⟨s', hset, hs'⟩ := setLevel_spec (s := { s with
      semaphores := update s.semaphores sem
        { s.semaphores sem with value := (s.semaphores sem).value - 1 } })
      ⟨h.located.value rfl, h.quiet, h.off, h.current, h.known, h.ending⟩ hmode oldLevel
    exact ⟨s', place, hset, hs'⟩

/-- `wake` moves at most one thread, from a queue to the ready list. -/
theorem Consistent.wake (h : Consistent main trace place s) (sem : S) :
    ∃ place', Consistent main trace place' (wake s sem) := by
  cases hqueue : (s.semaphores sem).queue with
  | nil =>
    refine ⟨place, ?_⟩
    simp only [Scheduler.wake, Semaphore.V, hqueue, List.head?_nil, List.tail_nil]
    exact ⟨h.located.value hqueue.symm, h.quiet, h.off, h.current, h.known, h.ending⟩
  | cons t rest =>
    have ht : place t = .queue sem := ((h.located.queue sem).mem t).mp (by simp [hqueue])
    refine ⟨update place t .readyList, ?_⟩
    simp only [Scheduler.wake, Semaphore.V, hqueue, List.head?_cons, List.tail_cons]
    refine ⟨h.located.wake hqueue, h.quiet, h.off, fun u => ?_, fun u hu => ?_, fun u hu => ?_⟩
    · by_cases hut : u = t
      · have := h.current t
        simp only [ht, reduceCtorEq, false_iff] at this
        simpa [hut, readyToRun] using this
      · simpa [hut, readyToRun] using h.current u
    · by_cases hut : u = t
      · simp [hut]
      · simpa [hut] using h.known u hu
    · exact gone_update (h.ending u hu) (by simp [ht])

theorem V_eq (sem : S) :
    V s sem = setLevel (Scheduler.wake { s with level := .IntOff } sem) s.level := by
  simp only [V, setLevel_off, bind, Except.bind]

theorem wake_mode (sem : S) : (Scheduler.wake s sem).mode = s.mode := by
  simp only [Scheduler.wake]
  split <;> rfl

theorem wake_level (sem : S) : (Scheduler.wake s sem).level = s.level := by
  simp only [Scheduler.wake]
  split <;> rfl

/-- `V` of the current thread. -/
theorem V_spec (h : Consistent main trace place s) (hmode : s.mode = .code) (sem : S) :
    ∃ s' place', V s sem = .ok s' ∧ Consistent main trace place' s' := by
  obtain ⟨place', hwake⟩ := h.lower.wake sem
  obtain ⟨s', hset, hs'⟩ := setLevel_spec hwake ((wake_mode sem).trans hmode) s.level
  exact ⟨s', place', (V_eq sem).trans hset, hs'⟩

/-- `V` in a handler: interrupts are off and stay off. -/
theorem V_handler (hoff : s.level = .IntOff) (sem : S) :
    V { s with inHandler := true } sem =
      .ok { Scheduler.wake s sem with inHandler := true } := by
  obtain ⟨level, inHandler, y, cur, tbd, ready, sems, status, resume, mode⟩ := s
  cases hoff
  rw [V_eq, setLevel_off]
  simp only [Scheduler.wake]
  split <;> rfl

theorem foldlM_V (hoff : s.level = .IntOff) (vs : List S) :
    vs.foldlM V { s with inHandler := true } =
      .ok { vs.foldl Scheduler.wake s with inHandler := true } := by
  induction vs generalizing s with
  | nil => rfl
  | cons sem rest ih =>
    rw [List.foldlM_cons, V_handler hoff]
    exact ih ((wake_level sem).trans hoff)

theorem Consistent.wakeAll (h : Consistent main trace place s) (vs : List S) :
    ∃ place', Consistent main trace place' (vs.foldl Scheduler.wake s) := by
  induction vs generalizing place s with
  | nil => exact ⟨place, h⟩
  | cons sem rest ih =>
    obtain ⟨place', h'⟩ := h.wake sem
    exact ih h'

/-- A handler is called in `OneTick` or `Idle`. -/
theorem handler_spec (h : Consistent main trace place s) (hmode : s.mode ≠ .code) (vs : List S)
    (yieldOnReturn : Bool) :
    ∃ s' place', handler s vs yieldOnReturn = .ok s' ∧ Consistent main trace place' s' := by
  obtain ⟨place', h'⟩ := h.wakeAll vs
  refine ⟨{ vs.foldl Scheduler.wake s with
    inHandler := false
    yieldOnReturn := (vs.foldl Scheduler.wake s).yieldOnReturn || yieldOnReturn }, place', ?_,
    h'.located, rfl, h'.off, h'.current, h'.known, h'.ending⟩
  simp only [handler, foldlM_V (h.off hmode), bind, Except.bind, pure, Except.pure]

/-! ### The other operations -/

/-- The current thread goes on after `SWITCH`. It has not finished, so it is not in `Finish`. -/
theorem goOn_spec (h : Consistent main trace place s) (hmode : s.mode = .switched) :
    ∃ events s' place', goOn s = .ok (events, s') ∧
      Consistent main (trace ++ events) place' s' := by
  have hoff : s.level = .IntOff := h.off (by simp [hmode])
  have hcode : Consistent main trace place { s with mode := .code } := by
    refine ⟨h.located, h.quiet, fun _ => hoff, fun t => ?_, h.known, h.ending⟩
    simpa [hmode] using h.current t
  obtain ⟨deleted, s₁, hswitch, hs₁, hmode₁, hlevel₁⟩ := afterSwitch_spec hcode rfl
  simp only [goOn]
  split
  · obtain ⟨s', hset, hs'⟩ := setLevel_spec hcode rfl .IntOn
    refine ⟨[.started s.currentThread], s', place, ?_, ?_, hs'.quiet, hs'.off, hs'.current,
      fun t ht => hs'.known t (by simpa [forked] using ht), hs'.ending⟩
    · simp only [hset, bind, Except.bind, pure, Except.pure]
    · simpa [finished] using hs'.located
  · rename_i oldLevel hresume
    obtain ⟨s', hset, hs'⟩ := setLevel_spec hs₁ hmode₁ oldLevel
    refine ⟨_, s', place, ?_, hs'⟩
    simp only [hswitch, hset, bind, Except.bind, pure, Except.pure]
  · rename_i sem oldLevel hresume
    obtain ⟨s', place', hloop, hs'⟩ := loopP_spec hs₁ hmode₁ (hlevel₁.trans hoff) sem oldLevel
    refine ⟨_, s', place', ?_, hs'⟩
    simp only [hswitch, hloop, bind, Except.bind, pure, Except.pure]
  · rename_i hresume
    have hgone := h.ending _ (.inl hresume)
    have hcur := hcode.mode_code rfl
    simp only [hcur, reduceCtorEq] at hgone

/-- What every action keeps, and that no assertion fails. -/
theorem perform_spec (h : Consistent main trace place s) (act : Act T S) :
    perform s act = .error .refused ∨ ∃ events s' place', perform s act = .ok (events, s') ∧
      Consistent main (trace ++ events) place' s' := by
  have hsilent : ∀ x : Except Failure (State T S),
      (∃ s' place', x = .ok s' ∧ Consistent main trace place' s') →
      ∃ events s' place', silent x = .ok (events, s') ∧
        Consistent main (trace ++ events) place' s' := by
    rintro x ⟨s', place', rfl, hs'⟩
    exact ⟨[], s', place', rfl, by rwa [List.append_nil]⟩
  unfold perform
  split
  case h_1 thread hmode =>
    by_cases hnew : s.status thread = .JUST_CREATED
    · exact .inr ⟨_, fork_spec h hmode hnew⟩
    · exact .inl (by rw [fork, if_pos hnew])
  case h_2 hmode => exact .inr (hsilent _ (yield_spec h hmode))
  case h_3 hmode => exact .inr ⟨_, finish_spec h hmode⟩
  case h_4 sem hmode =>
    refine .inr (hsilent _ ?_)
    simp only [P, setLevel_off, bind, Except.bind]
    exact loopP_spec h.lower hmode rfl sem s.level
  case h_5 sem hmode => exact .inr (hsilent _ (V_spec h hmode sem))
  case h_6 hmode =>
    refine .inr (hsilent (.ok _) ⟨_, place, rfl, h.located, h.quiet, fun _ => rfl, fun t => ?_,
      h.known, h.ending⟩)
    simpa [hmode] using h.current t
  case h_7 vs y hmode => exact .inr (hsilent _ (handler_spec h (by simp [hmode]) vs y))
  case h_8 vs y hmode => exact .inr (hsilent _ (handler_spec h (by simp [hmode]) vs y))
  case h_9 hmode => exact .inr (hsilent _ (endTick_spec h hmode))
  case h_10 hmode =>
    have hidle : Consistent main trace place { s with yieldOnReturn := false, mode := .idle } :=
      ⟨h.located, h.quiet, fun _ => h.off (by simp [hmode]), by simpa [hmode] using h.current,
        h.known, h.ending⟩
    obtain ⟨place', hs'⟩ := sleepLoop_spec (s := { s with yieldOnReturn := false }) hidle
    exact .inr (hsilent (.ok _) ⟨_, place', rfl, hs'⟩)
  case h_11 hmode => exact .inr (goOn_spec h hmode)
  case h_12 => exact .inl rfl

/-- In every reachable state the threads have places. -/
theorem consistent_run {initialValue : S → Int}
    (hrun : Run step anyAct (State.new main initialValue) trace s) :
    ∃ place : T → Place S, Consistent main trace place s := by
  apply hrun.traceInvariant
  · exact ⟨_, consistent_new main initialValue⟩
  · rintro tr s act events s' ⟨place, h⟩ - hs
    unfold step at hs
    rcases perform_spec h act with hrefused | ⟨events', s'', place', hperform, h'⟩
    · simp [hrefused, Except.toOption] at hs
    · rw [hperform] at hs
      cases hs
      exact ⟨place', h'⟩

end Steps

/-- The threads found in a place. -/
def Place.threads (s : State T S) : Place S → List T
  | .current => [s.currentThread]
  | .readyList => s.readyList
  | .queue sem => (s.semaphores sem).queue
  | .created => []
  | .gone => []

/-- The places are right about the current thread too, unless it is going to sleep. -/
theorem Consistent.lists {main : T} {trace : List (Event T)} {place : T → Place S} {s : State T S}
    (h : Consistent main trace place s) (hmode : s.mode ≠ .idle) {p : Place S}
    (hp : p ≠ .created ∧ p ≠ .gone) : Lists place p (p.threads s) := by
  cases p with
  | current =>
    refine ⟨List.nodup_singleton _, fun t => ?_⟩
    simp [Place.threads, h.current t, hmode]
  | readyList => exact h.located.ready
  | queue sem => exact h.located.queue sem
  | created => exact absurd rfl hp.1
  | gone => exact absurd rfl hp.2

variable [DecidableEq T] [DecidableEq S]

/-- No thread is lost or run twice. In every reachable state no assertion fails, whatever happens
next; and unless a thread is waiting in `Sleep` with nobody to run, every forked, unfinished thread
is in exactly one place, once, with the status of that place, and a finished thread is in none. -/
theorem threads_placed {main : T} {initialValue : S → Int} {trace : List (Event T)}
    {s : State T S} (hrun : Run step anyAct (State.new main initialValue) trace s) :
    (∀ act a, perform s act ≠ .error (.assertion a)) ∧
    (s.mode ≠ .idle →
      (∀ t, t = main ∨ t ∈ forked trace → t ∉ finished trace →
        ∃ p : Place S, (p.threads s).count t = 1 ∧ s.status t = p.status ∧
          ∀ q, q ≠ p → t ∉ q.threads s) ∧
      ∀ t ∈ finished trace, ∀ p : Place S, t ∉ p.threads s) := by
  obtain ⟨place, h⟩ := consistent_run hrun
  refine ⟨fun act a herror => ?_, fun hmode => ⟨fun t hknown hnot => ?_, fun t hgone p hmem => ?_⟩⟩
  · rcases perform_spec h act with hrefused | ⟨events, s', place', hok, -⟩
    · simp [hrefused] at herror
    · simp [hok] at herror
  · have hp : place t ≠ .created ∧ place t ≠ .gone :=
      ⟨h.known t hknown, fun hgone => hnot ((h.located.gone.mem t).mpr hgone)⟩
    refine ⟨place t, (h.lists hmode hp).count_eq_one rfl, h.located.status t, fun q hq hmem => ?_⟩
    by_cases hplace : q ≠ .created ∧ q ≠ .gone
    · exact hq (((h.lists hmode hplace).mem t).mp hmem).symm
    · cases q <;> simp [Place.threads] at hmem hplace
  · have hplace := (h.located.gone.mem t).mp hgone
    by_cases hp : p ≠ .created ∧ p ≠ .gone
    · exact hp.2 ((((h.lists hmode hp).mem t).mp hmem).symm.trans hplace)
    · cases p <;> simp [Place.threads] at hmem hp

/-- A handler wakes the main thread while the thread it has forked is running. -/
theorem threads_placed_woken : ∃ trace, ∃ s : State Nat Unit,
    Run step anyAct (State.new 0 fun _ => 0) trace s ∧ s.readyList = [0] ∧
    ∃ p : Place Unit, (p.threads s).count 1 = 1 ∧ s.status 1 = p.status ∧
      ∀ q, q ≠ p → 1 ∉ q.threads s := by
  obtain ⟨trace, s, hrun, hmode, hforked, hfinished, hready⟩ :=
    run_reaches step (State.new 0 fun _ => 0 : State Nat Unit)
      (fun trace s => s.mode ≠ .idle ∧ forked trace = [1] ∧ finished trace = [] ∧
        s.readyList = [0])
      [.fork 1, .goOn, .P (), .goOn, .handler [()] false, .goOn]
      (by decide +kernel)
  exact ⟨trace, s, hrun, hready, ((threads_placed hrun).2 hmode).1 1 (.inr (by simp [hforked]))
    (by simp [hfinished])⟩

end Nachos.Scheduler
