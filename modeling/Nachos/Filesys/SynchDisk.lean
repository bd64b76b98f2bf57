import Mathlib.Data.Fintype.Basic
import Nachos.Filesys.Disk
import Nachos.Library.Monitor
import Nachos.Library.Transition
import Nachos.Threads.Semaphore

/-!
# The synchronous disk

`SynchDisk` of `filesys/synchdisk.cc` over `Disk` of `machine/disk.cc`. A call makes its request,
which moves the data at once, and waits in `semaphore->P` for the interrupt. `Lock::Acquire` and
`Lock::Release` of `threads/synch.cc` are empty, so nothing keeps a second call from making its
request meanwhile. `synch_disk_serialised` is what holds when no call does.

One action is a call, the request of a call, one pass through the loop of `P`, or the interrupt of a
request, which occurs at any later time.
-/

namespace Nachos.SynchDisk

open Filesys Monitor Transition WordBytes Function

/-- The arguments of `ReadSector` and of `WriteSector`. -/
inductive Request where
  | read (sectorNumber : Int)
  | write (sectorNumber : Int) (data : Bytes)

/-- Where a thread is. Requests are numbered. -/
inductive Phase where
  | outside
  /-- Behind `lock->Acquire`, about to make the request. -/
  | entered (request : Request)
  /-- About to test the value of the semaphore in `P`. -/
  | await (n : Nat)
  /-- Asleep in the queue of the semaphore. -/
  | asleep (n : Nat)

/-- The request has been made, and `P` has not returned. -/
def Phase.Waiting : Phase → Prop
  | .await _ | .asleep _ => True
  | .outside | .entered _ => False

/-- The disk and the threads that use it. -/
structure State (T : Type*) where
  phase : T → Phase
  semaphore : Semaphore T
  active : Bool
  contents : Disk
  /-- The bytes that the last read of each thread has delivered. -/
  data : T → Bytes
  /-- The requests made so far. -/
  issued : Nat
  /-- The requests whose interrupt has been scheduled and has not occurred. -/
  scheduled : List Nat

inductive Failure where
  | refused
  /-- `ASSERT(!active)`. -/
  | busy
  /-- The assertion on the sector number. -/
  | sector
  deriving DecidableEq, Repr

inductive Event (T : Type*) where
  | requested (thread : T) (n : Nat)
  /-- The interrupt of the request. -/
  | completed (n : Nat)
  | returned (thread : T) (n : Nat)
  deriving DecidableEq, Repr

inductive Act (T : Type*) where
  | call (thread : T) (request : Request)
  /-- The thread goes on with its call. -/
  | goOn (thread : T)
  | requestDone (n : Nat)

variable {T : Type} [DecidableEq T] {s s' : State T} {t : T} {act : Act T}
  {events trace : List (Event T)} {n : Nat}

/-- `SynchDisk::SynchDisk`, with no thread inside. -/
def State.new (contents : Disk) (data : T → Bytes) : State T :=
  ⟨fun _ => .outside, .new 0, false, contents, data, 0, []⟩

def State.set (s : State T) (t : T) (phase : Phase) : State T :=
  { s with phase := update s.phase t phase }

/-- The end of `ReadRequest` and `WriteRequest`. -/
def schedule (s : State T) (t : T) : State T :=
  { s.set t (.await s.issued) with
    active := true
    issued := s.issued + 1
    scheduled := s.scheduled ++ [s.issued] }

/-- `Disk::ReadRequest` and `Disk::WriteRequest`. -/
def makeRequest (s : State T) (t : T) (request : Request) : Except Failure (State T) :=
  if s.active then .error .busy
  else match request with
    | .read sectorNumber => match readSector s.contents sectorNumber with
        | .error _ => .error .sector
        | .ok data => .ok (schedule { s with data := update s.data t data } t)
    | .write sectorNumber data => match writeSector s.contents sectorNumber data with
        | .error _ => .error .sector
        | .ok contents => .ok (schedule { s with contents := contents } t)

/-- The thread that `V` takes out of the queue goes back to the loop of `P`. -/
def wake (s : State T) (t : T) : State T :=
  match s.phase t with
  | .asleep n => s.set t (.await n)
  | _ => s

/-- `Disk::HandleInterrupt` and its handler, `SynchDisk::RequestDone`. -/
def handleInterrupt (s : State T) (n : Nat) : State T :=
  let (woken, sem) := s.semaphore.V
  let s := { s with
    active := false
    scheduled := s.scheduled.erase n
    semaphore := sem }
  match woken with
  | none => s
  | some t => wake s t

/-- The next section of a call. -/
def goOn (s : State T) (t : T) : Except Failure (List (Event T) × State T) :=
  match s.phase t with
  | .outside => .error .refused
  | .entered request => (makeRequest s t request).map fun s' => ([.requested t s.issued], s')
  | .await n => match s.semaphore.P t with
      | (true, sem) => .ok ([.returned t n], { s.set t .outside with semaphore := sem })
      | (false, sem) => .ok ([], { s.set t (.asleep n) with semaphore := sem })
  | .asleep _ => .error .refused

/-- One action. -/
def perform (s : State T) : Act T → Except Failure (List (Event T) × State T)
  | .call t request => match s.phase t with
      | .outside => .ok ([], s.set t (.entered request))
      | _ => .error .refused
  | .goOn t => goOn s t
  | .requestDone n =>
    if n ∈ s.scheduled then .ok ([.completed n], handleInterrupt s n) else .error .refused

def step : Step (State T) (Act T) (Event T) := fun s act => (perform s act).toOption

/-- A thread makes its request only while no other one is between its request and its return. -/
def Alone (s : State T) : Act T → Prop
  | .goOn t => (∃ request, s.phase t = .entered request) → ∀ u, ¬ (s.phase u).Waiting
  | _ => True

instance Phase.decidableWaiting : (phase : Phase) → Decidable phase.Waiting
  | .outside => isFalse id
  | .entered _ => isFalse id
  | .await _ => isTrue trivial
  | .asleep _ => isTrue trivial

/-- Only a thread in front of its request has anything to check. -/
instance Alone.decidable [Fintype T] (s : State T) : (act : Act T) → Decidable (Alone s act)
  | .call _ _ => isTrue trivial
  | .requestDone _ => isTrue trivial
  | .goOn t =>
    match hphase : s.phase t with
    | .entered request => decidable_of_iff (∀ u, ¬ (s.phase u).Waiting)
        ⟨fun hquiet _ => hquiet, fun halone => halone ⟨request, hphase⟩⟩
    | .outside => isTrue fun h => absurd (h.choose_spec.symm.trans hphase) (by simp)
    | .await _ => isTrue fun h => absurd (h.choose_spec.symm.trans hphase) (by simp)
    | .asleep _ => isTrue fun h => absurd (h.choose_spec.symm.trans hphase) (by simp)

/-! ## What an action does -/

/-- The actions that are not refused and fail no assertion. -/
inductive Move (s : State T) : Act T → List (Event T) → State T → Prop where
  | call {t : T} {request : Request} (hphase : s.phase t = .outside) :
      Move s (.call t request) [] (s.set t (.entered request))
  | request {t : T} {request : Request} (hphase : s.phase t = .entered request)
      (hactive : s.active = false) (contents : Disk) (data : T → Bytes) :
      Move s (.goOn t) [.requested t s.issued]
        (schedule { s with contents := contents, data := data } t)
  | take {t : T} {n : Nat} (hphase : s.phase t = .await n) (hvalue : s.semaphore.value ≠ 0) :
      Move s (.goOn t) [.returned t n]
        { s.set t .outside with
          semaphore := { s.semaphore with value := s.semaphore.value - 1 } }
  | sleep {t : T} {n : Nat} (hphase : s.phase t = .await n) (hvalue : s.semaphore.value = 0) :
      Move s (.goOn t) []
        { s.set t (.asleep n) with
          semaphore := { s.semaphore with queue := s.semaphore.queue ++ [t] } }
  | requestDone {n : Nat} (hn : n ∈ s.scheduled) :
      Move s (.requestDone n) [.completed n] (handleInterrupt s n)

/-- A request that is accepted. -/
theorem makeRequest_ok {request : Request} (h : makeRequest s t request = .ok s') :
    s.active = false ∧
      ∃ contents data, s' = schedule { s with contents := contents, data := data } t := by
  unfold makeRequest at h
  split at h
  · cases h
  · rename_i hactive
    refine ⟨by simpa using hactive, ?_⟩
    cases request with
    | read sectorNumber =>
      dsimp only at h
      split at h
      · cases h
      · cases h
        exact ⟨_, _, rfl⟩
    | write sectorNumber data =>
      dsimp only at h
      split at h
      · cases h
      · cases h
        exact ⟨_, _, rfl⟩

theorem perform_move (h : perform s act = .ok (events, s')) : Move s act events s' := by
  cases act with
  | call t request =>
    unfold perform at h
    dsimp only at h
    split at h
    · rename_i hphase
      cases h
      exact .call hphase
    · cases h
  | goOn t =>
    have h : goOn s t = .ok (events, s') := h
    unfold goOn at h
    split at h
    · cases h
    · rename_i request hphase
      cases hrequest : makeRequest s t request with
      | error e =>
        rw [hrequest] at h
        cases h
      | ok s₁ =>
        rw [hrequest] at h
        cases h
        obtain ⟨hactive, contents, data, rfl⟩ := makeRequest_ok hrequest
        exact .request hphase hactive contents data
    · rename_i n hphase
      unfold Semaphore.P at h
      by_cases hvalue : s.semaphore.value = 0
      · rw [if_pos hvalue] at h
        cases h
        exact .sleep hphase hvalue
      · rw [if_neg hvalue] at h
        cases h
        exact .take hphase hvalue
    · cases h
  | requestDone n =>
    unfold perform at h
    dsimp only at h
    split at h
    · rename_i hn
      cases h
      exact .requestDone hn
    · cases h

/-! ## One call at a time -/

/-- The disk is idle; or one call waits, and its interrupt has not occurred; or it has. -/
inductive Serial (trace : List (Event T)) (s : State T) : Prop where
  | idle (quiet : ∀ u, ¬ (s.phase u).Waiting) (scheduled : s.scheduled = [])
      (active : s.active = false) (sem : s.semaphore = ⟨0, []⟩)
  | pending (t : T) (n : Nat) (others : ∀ u, u ≠ t → ¬ (s.phase u).Waiting)
      (scheduled : s.scheduled = [n]) (active : s.active = true)
      (waits : s.phase t = .await n ∧ s.semaphore = ⟨0, []⟩ ∨
        s.phase t = .asleep n ∧ s.semaphore = ⟨0, [t]⟩)
  | done (t : T) (n : Nat) (others : ∀ u, u ≠ t → ¬ (s.phase u).Waiting)
      (scheduled : s.scheduled = []) (active : s.active = false)
      (waits : s.phase t = .await n) (sem : s.semaphore = ⟨1, []⟩)
      (completed : .completed n ∈ trace)

omit [DecidableEq T] in
theorem Serial.mono (h : Serial trace s) (events : List (Event T)) :
    Serial (trace ++ events) s := by
  cases h with
  | idle quiet scheduled active sem => exact .idle quiet scheduled active sem
  | pending t n others scheduled active waits => exact .pending t n others scheduled active waits
  | done t n others scheduled active waits sem completed =>
    exact .done t n others scheduled active waits sem (List.mem_append_left _ completed)

/-- Another thread that does not wait changes its phase to one that does not wait. -/
theorem Serial.set (h : Serial trace s) {phase : Phase} (hbefore : ¬ (s.phase t).Waiting)
    (hafter : ¬ phase.Waiting) : Serial trace (s.set t phase) := by
  have hset : ∀ u, ¬ (s.phase u).Waiting → ¬ ((s.set t phase).phase u).Waiting := by
    intro u hu
    show ¬ (update s.phase t phase u).Waiting
    by_cases hut : u = t
    · rwa [hut, update_self]
    · rwa [update_of_ne hut]
  have hkept : ∀ u, (s.phase u).Waiting → (s.set t phase).phase u = s.phase u := by
    intro u hu
    have hut : u ≠ t := fun hut => hbefore (by rwa [← hut])
    exact update_of_ne hut ..
  cases h with
  | idle quiet scheduled active sem =>
    exact .idle (fun u => hset u (quiet u)) scheduled active sem
  | pending u n others scheduled active waits =>
    have hu : (s.phase u).Waiting := by
      rcases waits with ⟨hphase, -⟩ | ⟨hphase, -⟩ <;> rw [hphase] <;> trivial
    refine .pending u n (fun v hv => hset v (others v hv)) scheduled active ?_
    rwa [hkept u hu]
  | done u n others scheduled active waits sem completed =>
    have hu : (s.phase u).Waiting := by rw [waits]; trivial
    refine .done u n (fun v hv => hset v (others v hv)) scheduled active ?_ sem completed
    rw [hkept u hu, waits]

/-- A request on an idle disk. -/
theorem serial_schedule (t : T) (h : Serial trace s) (halone : ∀ u, ¬ (s.phase u).Waiting)
    (contents : Disk) (data : T → Bytes) :
    Serial trace (schedule { s with contents := contents, data := data } t) := by
  have hothers : ∀ u, u ≠ t →
      ¬ ((schedule { s with contents := contents, data := data } t).phase u).Waiting := by
    intro u hu
    show ¬ (update s.phase t (.await s.issued) u).Waiting
    rw [update_of_ne hu]
    exact halone u
  cases h with
  | idle quiet scheduled active sem =>
    refine .pending t s.issued hothers ?_ rfl (.inl ⟨update_self .., sem⟩)
    show s.scheduled ++ [s.issued] = [s.issued]
    rw [scheduled]
    rfl
  | pending u n others scheduled active waits =>
    rcases waits with ⟨hphase, -⟩ | ⟨hphase, -⟩ <;>
      exact absurd (by rw [hphase]; trivial) (halone u)
  | done u n others scheduled active waits sem completed =>
    exact absurd (by rw [waits]; trivial) (halone u)

/-- A waiting call is the one that the invariant names. -/
theorem eq_of_waiting {u : T} (others : ∀ v, v ≠ u → ¬ (s.phase v).Waiting)
    (ht : (s.phase t).Waiting) : t = u := by
  by_contra hne
  exact others t hne ht

/-- A call gets a unit: its request is done, and the disk is idle afterwards. -/
theorem serial_take (h : Serial trace s) (hphase : s.phase t = .await n)
    (hvalue : s.semaphore.value ≠ 0) :
    .completed n ∈ trace ∧ Serial trace
      { s.set t .outside with
        semaphore := { s.semaphore with value := s.semaphore.value - 1 } } := by
  have ht : (s.phase t).Waiting := by rw [hphase]; trivial
  cases h with
  | idle quiet scheduled active sem => exact absurd ht (quiet t)
  | pending u m others scheduled active waits =>
    rcases waits with ⟨-, hsem⟩ | ⟨-, hsem⟩ <;> exact absurd (by rw [hsem]) hvalue
  | done u m others scheduled active waits sem completed =>
    obtain rfl := eq_of_waiting others ht
    obtain rfl : n = m := Phase.await.inj (hphase.symm.trans waits)
    refine ⟨completed, .idle (fun v => ?_) scheduled active ?_⟩
    · show ¬ (update s.phase t .outside v).Waiting
      by_cases hv : v = t
      · rw [hv, update_self]
        exact id
      · rw [update_of_ne hv]
        exact others v hv
    · show (⟨s.semaphore.value - 1, s.semaphore.queue⟩ : Semaphore T) = ⟨0, []⟩
      rw [sem]
      rfl

/-- A call goes to sleep: its request is pending. -/
theorem serial_sleep (h : Serial trace s) (hphase : s.phase t = .await n)
    (hvalue : s.semaphore.value = 0) :
    Serial trace
      { s.set t (.asleep n) with
        semaphore := { s.semaphore with queue := s.semaphore.queue ++ [t] } } := by
  have ht : (s.phase t).Waiting := by rw [hphase]; trivial
  cases h with
  | idle quiet scheduled active sem => exact absurd ht (quiet t)
  | pending u m others scheduled active waits =>
    obtain rfl := eq_of_waiting others ht
    rcases waits with ⟨hawait, hsem⟩ | ⟨hasleep, -⟩
    · obtain rfl : n = m := Phase.await.inj (hphase.symm.trans hawait)
      refine .pending t n (fun v hv => ?_) scheduled active (.inr ⟨update_self .., ?_⟩)
      · show ¬ (update s.phase t (.asleep n) v).Waiting
        rw [update_of_ne hv]
        exact others v hv
      · show (⟨s.semaphore.value, s.semaphore.queue ++ [t]⟩ : Semaphore T) = ⟨0, [t]⟩
        rw [hsem]
        rfl
    · rw [hphase] at hasleep
      cases hasleep
  | done u m others scheduled active waits sem completed =>
    rw [sem] at hvalue
    cases hvalue

/-- The interrupt of a request. -/
theorem serial_handleInterrupt (h : Serial trace s) (hn : n ∈ s.scheduled) :
    Serial (trace ++ [.completed n]) (handleInterrupt s n) := by
  have hnone : s.scheduled ≠ [] := List.ne_nil_of_mem hn
  have hlast : .completed n ∈ trace ++ [.completed (T := T) n] := by simp
  cases h with
  | idle quiet scheduled active sem => exact absurd scheduled hnone
  | pending t m others scheduled active waits =>
    obtain rfl : n = m := by simpa [scheduled] using hn
    have hempty : s.scheduled.erase n = [] := by simp [scheduled]
    rcases waits with ⟨hphase, hsem⟩ | ⟨hphase, hsem⟩
    · have hstate : handleInterrupt s n =
          { s with active := false, scheduled := [], semaphore := ⟨1, []⟩ } := by
        simp [handleInterrupt, hsem, Semaphore.V, hempty]
      rw [hstate]
      exact .done t n others rfl rfl hphase rfl hlast
    · have hstate : handleInterrupt s n =
          { s.set t (.await n) with
            active := false, scheduled := [], semaphore := ⟨1, []⟩ } := by
        simp [handleInterrupt, hsem, Semaphore.V, hempty, wake, hphase, State.set]
      rw [hstate]
      refine .done t n (fun v hv => ?_) rfl rfl (update_self ..) rfl hlast
      show ¬ (update s.phase t (.await n) v).Waiting
      rw [update_of_ne hv]
      exact others v hv
  | done t m others scheduled active waits sem completed => exact absurd scheduled hnone

/-- One step, and what it means for a call to return. -/
theorem serial_move (h : Serial trace s) (halone : Alone s act) (hmove : Move s act events s') :
    Serial (trace ++ events) s' ∧
      ∀ t n, .returned t n ∈ events → .completed n ∈ trace := by
  cases hmove with
  | call hphase =>
    refine ⟨(h.set (by rw [hphase]; exact id) id).mono [], ?_⟩
    simp
  | request hphase hactive contents data =>
    refine ⟨(serial_schedule _ h (halone ⟨_, hphase⟩) contents data).mono _, ?_⟩
    simp
  | take hphase hvalue =>
    obtain ⟨hcompleted, hserial⟩ := serial_take h hphase hvalue
    refine ⟨hserial.mono _, fun t n hreturned => ?_⟩
    cases List.mem_singleton.mp hreturned
    exact hcompleted
  | sleep hphase hvalue =>
    refine ⟨(serial_sleep h hphase hvalue).mono [], ?_⟩
    simp
  | requestDone hn =>
    refine ⟨serial_handleInterrupt h hn, ?_⟩
    simp

/-! ## Serialisation -/

/-- Calls that have returned, after their interrupts. -/
def InOrder (trace : List (Event T)) : Prop :=
  ∀ t n, PrecededBy (· = .returned t n) (· = .completed n) trace

omit [DecidableEq T] in
theorem InOrder.append (h : InOrder trace) (hone : events.length ≤ 1)
    (hnew : ∀ t n, .returned t n ∈ events → .completed n ∈ trace) : InOrder (trace ++ events) := by
  match events, hone with
  | [], _ => rwa [List.append_nil]
  | [event], _ =>
    intro t n
    refine (h t n).snoc fun hevent => ⟨_, hnew t n ?_, rfl⟩
    rw [hevent]
    exact List.mem_singleton.mpr rfl

theorem Move.length_le (h : Move s act events s') : events.length ≤ 1 := by
  cases h <;> simp

/-- `ASSERT(!active)` does not fail in a serial state. -/
theorem Serial.not_busy (h : Serial trace s) (halone : Alone s act) :
    perform s act ≠ .error .busy := by
  cases act with
  | call t request =>
    unfold perform
    dsimp only
    split <;> simp
  | goOn t =>
    show goOn s t ≠ _
    unfold goOn
    split
    · simp
    · rename_i request hphase
      have hquiet := halone ⟨request, hphase⟩
      have hinactive : s.active = false := by
        cases h with
        | idle quiet scheduled active sem => exact active
        | pending u n others scheduled active waits =>
          rcases waits with ⟨hwait, -⟩ | ⟨hwait, -⟩ <;>
            exact absurd (by rw [hwait]; trivial) (hquiet u)
        | done u n others scheduled active waits sem completed => exact active
      unfold makeRequest
      rw [hinactive]
      cases request with
      | read sectorNumber =>
        dsimp only
        cases readSector s.contents sectorNumber <;> simp [Except.map]
      | write sectorNumber data =>
        dsimp only
        cases writeSector s.contents sectorNumber data <;> simp [Except.map]
    · split <;> simp
    · simp
  | requestDone n =>
    unfold perform
    dsimp only
    split <;> simp

/-- In every run in which a thread makes its request only while no other one is between its request
and its return: at most one request is outstanding, `ASSERT(!active)` does not fail, and each call
returns after the interrupt of its own request. -/
theorem synch_disk_serialised (contents : Disk) (data : T → Bytes) {trace : List (Event T)}
    {s : State T} (hrun : Run step Alone (State.new contents data) trace s) :
    s.scheduled.length ≤ 1 ∧ (∀ act, Alone s act → perform s act ≠ .error .busy) ∧
      ∀ t n, PrecededBy (· = .returned t n) (· = .completed n) trace := by
  have hinv : Serial trace s ∧ InOrder trace := by
    apply hrun.traceInvariant
    · exact ⟨.idle (fun u => id) rfl rfl rfl, fun t n => precededBy_nil _ _⟩
    · intro tr s act events s' hs halone hstep
      have hmove := perform_move (ok_of_toOption hstep)
      obtain ⟨hserial, hreturned⟩ := serial_move hs.1 halone hmove
      exact ⟨hserial, hs.2.append hmove.length_le hreturned⟩
  refine ⟨?_, fun act halone => hinv.1.not_busy halone, hinv.2⟩
  cases hinv.1 with
  | idle quiet scheduled active sem => simp [scheduled]
  | pending t n others scheduled active waits => simp [scheduled]
  | done t n others scheduled active waits sem completed => simp [scheduled]

/-- Two threads, the second of which makes its request when the first one has returned. -/
theorem synch_disk_serialised_two :
    ∃ s, Run (step (T := Bool)) Alone (State.new (fun _ _ => 0) fun _ _ => 0)
        [.requested false 0, .completed 0, .returned false 0,
          .requested true 1, .completed 1, .returned true 1] s ∧ s.scheduled.length ≤ 1 := by
  have hrun : (execute (step (T := Bool)) (State.new (fun _ _ => 0) fun _ _ => 0)
      [.call false (.read 3), .call true (.write 3 fun _ => 1), .goOn false, .goOn false,
        .requestDone 0, .goOn false, .goOn true, .requestDone 1, .goOn true]).map
        (fun r => (r.1, r.2.scheduled)) =
      some ([.requested false 0, .completed 0, .returned false 0,
        .requested true 1, .completed 1, .returned true 1], []) := by decide +kernel
  obtain ⟨s, hexec, -⟩ := execute_observed State.scheduled hrun
  have hallowed : Allowed (step (T := Bool)) Alone (State.new (fun _ _ => 0) fun _ _ => 0)
      [.call false (.read 3), .call true (.write 3 fun _ => 1), .goOn false, .goOn false,
        .requestDone 0, .goOn false, .goOn true, .requestDone 1, .goOn true] := by decide +kernel
  have h := run_of_execute hexec hallowed
  exact ⟨s, h, (synch_disk_serialised _ _ h).1⟩

/-- A second request while the first one is outstanding fails the assertion; and after the first
interrupt the second call can take the unit that was meant for the first one. -/
theorem synch_disk_interleaved :
    (∃ trace s, Run (step (T := Bool)) anyAct (State.new (fun _ _ => 0) fun _ _ => 0) trace s ∧
      perform s (.goOn true) = .error .busy) ∧
    ∃ trace s, Run (step (T := Bool)) anyAct (State.new (fun _ _ => 0) fun _ _ => 0) trace s ∧
      .returned true 1 ∈ trace ∧ .completed 1 ∉ trace := by
  constructor
  · obtain ⟨trace, s, hexec⟩ : ∃ trace s, execute (step (T := Bool))
        (State.new (fun _ _ => 0) fun _ _ => 0)
        [.call false (.read 3), .call true (.read 4), .goOn false] = some (trace, s) := ⟨_, _, rfl⟩
    refine ⟨trace, s, run_of_execute hexec (allowed_anyAct _ _), ?_⟩
    cases hexec
    rfl
  · have hrun : (execute (step (T := Bool)) (State.new (fun _ _ => 0) fun _ _ => 0)
        [.call false (.read 3), .call true (.read 4), .goOn false, .requestDone 0, .goOn true,
          .goOn true]).map (fun r => (r.1, r.2.scheduled)) =
        some ([.requested false 0, .completed 0, .requested true 1, .returned true 1], [1]) := by
      decide +kernel
    obtain ⟨s, hexec, -⟩ := execute_observed State.scheduled hrun
    exact ⟨_, s, run_of_execute hexec (allowed_anyAct _ _), by decide, by decide⟩

end Nachos.SynchDisk
