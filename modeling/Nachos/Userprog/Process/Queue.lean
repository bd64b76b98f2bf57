import Nachos.Userprog.Process.Table

/-!
# Waiting threads

`Queued` says who waits where: a thread in the queue of a semaphore is asleep inside `P` of that
semaphore, it is there once, and a sleeping thread is in the queue it went to sleep in unless
the semaphore has been deleted since. `WaitOk` says which code waits on which semaphore; nobody
ever waits for the mutex of a PCB.
-/

namespace Nachos.Process

open Transition Function State

/-- The code that can be inside `P` of each semaphore. -/
def WaitOk (s : State) (t : Tid) : SemId → Prop
  | .bmsem => ∃ filename, (s.thread t).control = .execChecks filename
  | .addrLock => ∃ noffH, (s.thread t).control = .allocate noffH
  | .joinsem r => r < s.nextRef ∧ (s.thread t).control = .joined (s.heap r).pid ∧
      (s.thread t).processID = (s.heap r).parentID
  | .exitsem r => r < s.nextRef ∧ (∃ ec, (s.thread t).control = .removing ec) ∧
      (s.heap r).thread = some t
  | .mutex _ => False

/-- The semaphore is part of a PCB that is being destroyed. -/
def Deleted (s : State) (id : SemId) : Prop :=
  ∃ r, id.pcb = some r ∧ r < s.nextRef ∧ (s.heap r).destroyed = true

/-- The invariant of the queues. -/
structure Queued (s : State) : Prop where
  sound : ∀ id t, t ∈ (s.sem id).queue →
    (s.thread t).blocked = true ∧ (s.thread t).waiting = some id
  nodup : ∀ id, (s.sem id).queue.Nodup
  kept : ∀ t, (s.thread t).blocked = true →
    ∃ id, (s.thread t).waiting = some id ∧ (t ∈ (s.sem id).queue ∨ Deleted s id)
  wait : ∀ t id, (s.thread t).waiting = some id → WaitOk s t id

/-- The head of a list without repetitions is the one element that its tail lacks. -/
theorem mem_tail_iff_of_nodup {α : Type*} {l : List α} {u : α} (hl : l.Nodup) :
    u ∈ l.tail ↔ u ∈ l ∧ l.head? ≠ some u := by
  cases l with
  | nil => simp
  | cons w rest =>
    have hw : w ∉ rest := (List.nodup_cons.mp hl).1
    simp only [List.tail_cons, List.mem_cons, List.head?_cons, ne_eq, Option.some.injEq]
    grind

section

variable {s s' : State} {t u : Tid} {id : SemId}

theorem WaitOk.mono (h : WaitOk s u id)
    (hcontrol : (s'.thread u).control = (s.thread u).control)
    (hpid : (s'.thread u).processID = (s.thread u).processID) (href : s.nextRef ≤ s'.nextRef)
    (hheap : ∀ r, r < s.nextRef → (s'.heap r).pid = (s.heap r).pid ∧
      (s'.heap r).parentID = (s.heap r).parentID ∧
      ((s.heap r).thread = some u → (s'.heap r).thread = some u)) : WaitOk s' u id := by
  cases id with
  | bmsem => simpa only [WaitOk, hcontrol] using h
  | addrLock => simpa only [WaitOk, hcontrol] using h
  | joinsem r =>
    obtain ⟨hr, hc, hp⟩ := h
    obtain ⟨hpid', hparent, -⟩ := hheap r hr
    exact ⟨Nat.lt_of_lt_of_le hr href, by rw [hcontrol, hpid', hc], by rw [hpid, hparent, hp]⟩
  | exitsem r =>
    obtain ⟨hr, hc, ht⟩ := h
    exact ⟨Nat.lt_of_lt_of_le hr href, by rwa [hcontrol], (hheap r hr).2.2 ht⟩
  | mutex r => exact h.elim

/-- Waiting threads do not notice changes to exit codes, counters and join states. -/
theorem WaitOk.of_core (h : WaitOk s u id)
    (hcontrol : (s'.thread u).control = (s.thread u).control)
    (hpid : (s'.thread u).processID = (s.thread u).processID) (href : s'.nextRef = s.nextRef)
    (hcore : ∀ r, (s'.heap r).core = (s.heap r).core) : WaitOk s' u id :=
  h.mono hcontrol hpid href.ge fun r _ =>
    ⟨PCB.proj_of_core PCB.pid (fun _ => rfl) (hcore r),
      PCB.proj_of_core PCB.parentID (fun _ => rfl) (hcore r),
      fun ht => (PCB.proj_of_core PCB.thread (fun _ => rfl) (hcore r)).trans ht⟩

theorem Deleted.of_core (h : Deleted s id) (href : s'.nextRef = s.nextRef)
    (hcore : ∀ r, (s'.heap r).core = (s.heap r).core) : Deleted s' id := by
  obtain ⟨r, hid, hr, hd⟩ := h
  exact ⟨r, hid, href ▸ hr, (PCB.proj_of_core PCB.destroyed (fun _ => rfl) (hcore r)).trans hd⟩

/-- A thread that is not asleep is in no queue. -/
theorem Queued.not_mem (h : Queued s) (ht : (s.thread t).blocked = false) (id : SemId) :
    t ∉ (s.sem id).queue := by
  intro hmem
  rw [(h.sound id t hmem).1] at ht
  cases ht

end

namespace Queued

variable {s s' : State} {t : Tid} {id : SemId} {c : Control} {heap : Ref → PCB}
  {frames : BitMap}

/-- One pass through `P`: the caller takes a unit or goes to sleep at the end of the queue. -/
theorem P (h : Queued s) (ht : (s.thread t).blocked = false)
    (hcore : ∀ r, (heap r).core = (s.heap r).core)
    (hwait : WaitOk ((s.patch heap frames).P t id c).2 t id) :
    Queued ((s.patch heap frames).P t id c).2 := by
  have hsem : ∀ id', ((s.patch heap frames).P t id c).2.sem id' = if id' = id then
      if (s.sem id).value = 0 then { s.sem id with queue := (s.sem id).queue ++ [t] }
      else { s.sem id with value := (s.sem id).value - 1 } else s.sem id' :=
    P_sem (s.patch heap frames) t id c
  have hthread : ∀ u, ((s.patch heap frames).P t id c).2.thread u = if u = t then
      if (s.sem id).value = 0 then
        { s.thread t with control := c, waiting := some id, blocked := true }
      else { s.thread t with control := c, waiting := none, blocked := false }
      else s.thread u := P_thread (s.patch heap frames) t id c
  have hmem : ∀ id' u, u ∈ (((s.patch heap frames).P t id
      c).2.sem id').queue ↔ u ∈ (s.sem id').queue ∨
        (u = t ∧ id' = id ∧ (s.sem id).value = 0) := by
    intro id' u
    rw [hsem]
    split_ifs with hid hv
    · simp [hid, hv]
    · simp [hid, hv]
    · simp [hid]
  have hself : ∀ id', t ∉ (s.sem id').queue := h.not_mem ht
  refine ⟨?_, ?_, ?_, ?_⟩
  · intro id' u hu
    rw [hthread]
    rcases (hmem id' u).mp hu with hold | ⟨rfl, rfl, hv⟩
    · have hne : u ≠ t := fun heq => hself id' (heq ▸ hold)
      rw [if_neg hne]
      exact h.sound id' u hold
    · simp [hv]
  · intro id'
    rw [hsem]
    split_ifs with hid hv
    · refine List.nodup_append.mpr ⟨h.nodup id, List.nodup_singleton t, ?_⟩
      intro a ha b hb hab
      exact hself id (List.mem_singleton.mp hb ▸ hab ▸ ha)
    · exact h.nodup id
    · exact h.nodup id'
  · intro u hu
    rcases eq_or_ne u t with rfl | hne
    · rw [hthread, if_pos rfl] at hu ⊢
      split at hu
      · rename_i hv
        refine ⟨id, by simp [hv], .inl ((hmem id u).mpr (.inr ⟨rfl, rfl, hv⟩))⟩
      · cases hu
    · rw [hthread, if_neg hne] at hu ⊢
      obtain ⟨id', hw, hin | hdel⟩ := h.kept u hu
      · exact ⟨id', hw, .inl ((hmem id' u).mpr (.inl hin))⟩
      · exact ⟨id', hw, .inr (hdel.of_core rfl hcore)⟩
  · intro u id' hu
    rcases eq_or_ne u t with rfl | hne
    · rw [hthread, if_pos rfl] at hu
      split at hu
      · exact Option.some.inj hu ▸ hwait
      · cases hu
    · rw [hthread, if_neg hne] at hu
      exact (h.wait u id' hu).of_core (by rw [hthread, if_neg hne]) (by rw [hthread, if_neg hne])
        rfl hcore

/-- `V` wakes the head of the queue; its caller, which waits for nothing, goes on. -/
theorem V (h : Queued s) (hw : (s.thread t).waiting = none)
    (hcore : ∀ r, (heap r).core = (s.heap r).core) :
    Queued (((s.patch heap frames).V t id).2.goto t c) := by
  have hsem : ∀ id', ((s.patch heap frames).V t id).2.sem id' = if id' = id then
      ⟨(s.sem id).value + 1, (s.sem id).queue.tail⟩ else s.sem id' :=
    V_sem (s.patch heap frames) t id
  have hthread : ∀ u, ((s.patch heap frames).V t id).2.thread u =
      if (s.sem id).queue.head? = some u then { s.thread u with blocked := false }
      else s.thread u := V_thread (s.patch heap frames) t id
  have hwaiting : ∀ u, ((((s.patch heap frames).V t id).2.goto t
      c).thread u).waiting = (s.thread u).waiting := by
    intro u
    simp
  have hblocked : ∀ u, ((((s.patch heap frames).V t id).2.goto t
      c).thread u).blocked =
        if (s.sem id).queue.head? = some u then false else (s.thread u).blocked := by
    intro u
    rw [goto_blocked, hthread]
    split_ifs <;> rfl
  -- the woken thread is the only one that leaves the queue
  have htail : ∀ u, u ∈ (s.sem id).queue.tail ↔
      u ∈ (s.sem id).queue ∧ (s.sem id).queue.head? ≠ some u :=
    fun u => mem_tail_iff_of_nodup (h.nodup id)
  refine ⟨?_, ?_, ?_, ?_⟩
  · intro id' u hu
    change u ∈ (((s.patch heap frames).V t id).2.sem id').queue at hu
    rw [hsem] at hu
    rw [hwaiting, hblocked]
    split at hu
    · rename_i hid
      obtain ⟨hmem, hne⟩ := (htail u).mp hu
      rw [if_neg hne, hid]
      exact h.sound id u hmem
    · rename_i hid
      have hold := h.sound id' u hu
      have hne : (s.sem id).queue.head? ≠ some u := by
        intro heq
        have hin := (h.sound id u (List.mem_of_mem_head? heq)).2
        exact hid (Option.some.inj (hold.2.symm.trans hin))
      rwa [if_neg hne]
  · intro id'
    change (((s.patch heap frames).V t id).2.sem id').queue.Nodup
    rw [hsem]
    split
    · exact (h.nodup id).sublist (List.tail_sublist _)
    · exact h.nodup id'
  · intro u hu
    rw [hblocked] at hu
    split at hu
    · cases hu
    · rename_i hne
      obtain ⟨id', hwait, hin⟩ := h.kept u hu
      refine ⟨id', by rw [hwaiting, hwait], hin.imp (fun hmem => ?_) (·.of_core rfl hcore)⟩
      change u ∈ (((s.patch heap frames).V t id).2.sem id').queue
      rw [hsem]
      split
      · rename_i hid
        exact (htail u).mpr ⟨hid ▸ hmem, hne⟩
      · exact hmem
  · intro u id' hu
    rw [hwaiting] at hu
    have hne : u ≠ t := by
      rintro rfl
      rw [hw] at hu
      cases hu
    refine (h.wait u id' hu).of_core ?_ ?_ rfl hcore <;>
      simp [hne]

/-- A step without a semaphore operation. -/
theorem still (h : Queued s) (hsem : s'.sem = s.sem)
    (hwaiting : ∀ u, (s'.thread u).waiting = (s.thread u).waiting)
    (hblocked : ∀ u, (s'.thread u).blocked = (s.thread u).blocked)
    (hdeleted : ∀ id, Deleted s id → Deleted s' id)
    (hwait : ∀ u id, (s.thread u).waiting = some id → WaitOk s' u id) : Queued s' := by
  refine ⟨?_, ?_, ?_, ?_⟩
  · intro id u hu
    rw [hblocked, hwaiting]
    exact h.sound id u (hsem ▸ hu)
  · rw [hsem]
    exact h.nodup
  · intro u hu
    obtain ⟨id, hid, hin⟩ := h.kept u (hblocked u ▸ hu)
    exact ⟨id, by rw [hwaiting, hid], hin.imp (fun hmem => by rwa [hsem]) (hdeleted id)⟩
  · intro u id hu
    exact hwait u id (hwaiting u ▸ hu)

/-- A thread that waits for nothing moves on without a semaphore operation. -/
theorem modifyThread (h : Queued s) (hw : (s.thread t).waiting = none) {f : Thread → Thread}
    (hwaiting : ∀ th, (f th).waiting = th.waiting) (hblocked : ∀ th, (f th).blocked = th.blocked) :
    Queued (s.modifyThread t f) := by
  have hother : ∀ u, u ≠ t → (s.modifyThread t f).thread u = s.thread u :=
    fun u hu => update_of_ne hu _ _
  have hself : (s.modifyThread t f).thread t = f (s.thread t) := update_self _ _ _
  refine h.still rfl (fun u => ?_) (fun u => ?_) (fun id hid => hid) (fun u id hu => ?_)
  · rcases eq_or_ne u t with rfl | hne
    · rw [hself, hwaiting]
    · rw [hother u hne]
  · rcases eq_or_ne u t with rfl | hne
    · rw [hself, hblocked]
    · rw [hother u hne]
  · have hne : u ≠ t := by
      rintro rfl
      rw [hw] at hu
      cases hu
    exact (h.wait u id hu).of_core (by rw [hother u hne]) (by rw [hother u hne]) rfl
      (fun _ => rfl)

/-- A new thread waits for nothing. -/
theorem execFork (hs : Wf s) (h : Queued s) {r : Ref} {name : String} {pID : Int}
    (ht : t < s.nextTid) (hw : (s.thread t).waiting = none)
    (hc : (s.thread t).control = .execFork r name pID) :
    Queued (s.execFork t r name pID).2 := by
  obtain ⟨hr, -, -, hnone, -, hparent, -⟩ : ControlOk s t (.execFork r name pID) :=
    hc ▸ hs.control t
  have hfin : (s.thread s.nextTid).waiting = none := by
    simpa [hs.unborn _ le_rfl, ControlOk] using hs.control s.nextTid
  have hawake : (s.thread s.nextTid).blocked = false := by
    cases hb : (s.thread s.nextTid).blocked with
    | false => rfl
    | true =>
      obtain ⟨id, hid, -⟩ := h.kept _ hb
      rw [hfin] at hid
      cases hid
  have hcaller := execFork_caller s t name r pID (Nat.ne_of_lt ht)
  have hother : ∀ u, u ≠ s.nextTid → u ≠ t →
      (s.execFork t r name pID).2.thread u = s.thread u :=
    fun u hu hut => execFork_thread s t name r pID hu hut
  have hheap := fun r' => execFork_heap s t name r r' pID hparent
  refine h.still rfl (fun u => ?_) (fun u => ?_) (fun id => ?_) (fun u id hu => ?_)
  · rcases eq_or_ne u s.nextTid with rfl | hnew
    · rw [execFork_child, hfin]
    · rcases eq_or_ne u t with rfl | hut
      · rw [hcaller]
      · rw [hother u hnew hut]
  · rcases eq_or_ne u s.nextTid with rfl | hnew
    · rw [execFork_child, hawake]
    · rcases eq_or_ne u t with rfl | hut
      · rw [hcaller]
      · rw [hother u hnew hut]
  · rintro ⟨r', hid, hr', hd⟩
    refine ⟨r', hid, hr', ?_⟩
    rw [hheap]
    split
    · rename_i heq
      exact heq ▸ hd
    · exact hd
  · have hnew : u ≠ s.nextTid := by
      rintro rfl
      rw [hfin] at hu
      cases hu
    have hut : u ≠ t := by
      rintro rfl
      rw [hw] at hu
      cases hu
    refine (h.wait u id hu).mono (by rw [hother u hnew hut]) (by rw [hother u hnew hut]) le_rfl ?_
    intro r' _
    rw [hheap]
    split
    · rename_i heq
      subst heq
      exact ⟨rfl, rfl, fun hsome => absurd (hnone.symm.trans hsome) (by simp)⟩
    · exact ⟨rfl, rfl, fun hsome => hsome⟩

/-- The three semaphores of a new PCB have no waiting thread. -/
theorem reserve (h : Queued s) (hw : (s.thread t).waiting = none) (i : Nat) (name : String) :
    Queued (s.reserve t i name) := by
  have hself : ∀ id, t ∉ (s.sem id).queue := by
    intro id hmem
    rw [(h.sound id t hmem).2] at hw
    cases hw
  have hmem : ∀ id u, u ∈ ((s.reserve t i name).sem id).queue → u ∈ (s.sem id).queue := by
    intro id u hu
    simp only [State.reserve, update_apply] at hu
    split_ifs at hu <;> first | exact hu | cases hu
  have hold : ∀ id u, WaitOk s u id → ((s.reserve t i name).sem id) = s.sem id := by
    intro id u hok
    cases id with
    | bmsem => simp [State.reserve]
    | addrLock => simp [State.reserve]
    | joinsem r => simp [State.reserve, Nat.ne_of_lt hok.1]
    | exitsem r => simp [State.reserve, Nat.ne_of_lt hok.1]
    | mutex r => exact hok.elim
  refine ⟨?_, ?_, ?_, ?_⟩
  · intro id u hu
    have hin := hmem id u hu
    have hne : u ≠ t := fun heq => hself id (heq ▸ hin)
    rw [reserve_thread s t i name hne]
    exact h.sound id u hin
  · intro id
    simp only [State.reserve, update_apply]
    split_ifs <;> first | exact List.nodup_nil | exact h.nodup id
  · intro u hu
    have hne : u ≠ t := by
      rintro rfl
      simp [State.reserve] at hu
    rw [reserve_thread s t i name hne] at hu ⊢
    obtain ⟨id, hid, hin | ⟨r, hpcb, hr, hd⟩⟩ := h.kept u hu
    · exact ⟨id, hid, .inl (by rwa [hold id u (h.wait u id hid)])⟩
    · refine ⟨id, hid, .inr ⟨r, hpcb, Nat.lt_succ_of_lt hr, ?_⟩⟩
      rwa [reserve_heap s t i name (Nat.ne_of_lt hr)]
  · intro u id hu
    have hne : u ≠ t := by
      rintro rfl
      simp [State.reserve] at hu
    have hthread := reserve_thread s t i name hne
    rw [hthread] at hu
    refine (h.wait u id hu).mono (by rw [hthread]) (by rw [hthread]) (Nat.le_succ _) ?_
    intro r hr
    rw [reserve_heap s t i name (Nat.ne_of_lt hr)]
    exact ⟨rfl, rfl, fun ht => ht⟩

/-- Destroying a PCB drops its waiting threads and no other. -/
theorem removed (h : Queued s) {r : Ref} (hr : r < s.nextRef)
    (hw : (s.thread t).waiting = none) (bm : BitMap) : Queued (s.removed t r bm) := by
  have hself : ∀ id, t ∉ (s.sem id).queue := by
    intro id hmem
    rw [(h.sound id t hmem).2] at hw
    cases hw
  have hsem : ∀ id, ((s.removed t r bm).sem id).queue =
      if id.pcb = some r then [] else (s.sem id).queue := by
    intro id
    cases id <;> simp [State.removed, State.destroyPcb, SemId.pcb, update_apply,
      Semaphore.destroy, apply_ite Semaphore.queue]
  refine ⟨?_, ?_, ?_, ?_⟩
  · intro id u hu
    rw [hsem] at hu
    split at hu
    · cases hu
    · have hne : u ≠ t := fun heq => hself id (heq ▸ hu)
      rw [s.removed_thread t r bm hne]
      exact h.sound id u hu
  · intro id
    rw [hsem]
    split
    · exact List.nodup_nil
    · exact h.nodup id
  · intro u hu
    have hne : u ≠ t := by
      rintro rfl
      rw [removed_thread_self] at hu
      obtain ⟨id, hid, -⟩ := h.kept u hu
      rw [hw] at hid
      cases hid
    rw [s.removed_thread t r bm hne] at hu ⊢
    obtain ⟨id, hid, hin⟩ := h.kept u hu
    refine ⟨id, hid, ?_⟩
    by_cases hpcb : id.pcb = some r
    · exact .inr ⟨r, hpcb, hr, by rw [s.removed_heap, if_pos rfl]⟩
    · refine hin.imp (fun hmem => by rwa [hsem, if_neg hpcb]) ?_
      rintro ⟨r', hr', hlt, hd⟩
      refine ⟨r', hr', hlt, ?_⟩
      rw [s.removed_heap]
      split
      · rfl
      · exact hd
  · intro u id hu
    have hne : u ≠ t := by
      rintro rfl
      rw [removed_thread_self] at hu
      rw [hw] at hu
      cases hu
    have hthread := s.removed_thread t r bm hne
    rw [hthread] at hu
    refine (h.wait u id hu).mono (by rw [hthread]) (by rw [hthread]) le_rfl ?_
    intro r' _
    rw [s.removed_heap]
    split
    · rename_i heq
      exact heq ▸ ⟨rfl, rfl, fun ht => ht⟩
    · exact ⟨rfl, rfl, fun ht => ht⟩

end Queued

/-! ## Steps and runs -/

section Run

variable {s s' : State} {t : Tid} {i : Input} {events : List Event}

/-- A move keeps the queues in order. -/
theorem Move.queued (hs : Wf s) (h : Queued s) (hready : s.ready t)
    (hw : (s.thread t).waiting = none) (hm : Move s t i events s') : Queued s' := by
  have hP : ∀ id c, WaitOk (s.P t id c).2 t id → Queued (s.P t id c).2 :=
    fun id c => h.P hready.2.1 (fun _ => rfl)
  have hV : ∀ id c, Queued ((s.V t id).2.goto t c) := fun id c => h.V hw (fun _ => rfl)
  cases hm with
  | stop => exact ⟨h.sound, h.nodup, h.kept, h.wait⟩
  | exitHalt => exact ⟨h.sound, h.nodup, h.kept, h.wait⟩
  | deleteAgain => exact ⟨h.sound, h.nodup, h.kept, h.wait⟩
  | @boot noffH => exact hP _ _ ⟨noffH, by simp⟩
  | @start noffH => exact hP _ _ ⟨noffH, by simp⟩
  | allocate => exact h.V hw (fun _ => rfl)
  | refuse => exact hV _ _
  | fallThrough => exact hV _ _
  | load => exact h.modifyThread hw (fun _ => rfl) (fun _ => rfl)
  | @exec pc filename => exact hP _ _ ⟨filename, by simp⟩
  | execFails => exact hV _ _
  | @reserve name i => exact h.reserve hw i name
  | fork hc => exact h.execFork hs hready.lt hw hc
  | unlock => exact hV _ _
  | execDone => exact hV _ _
  | joinMissing => exact h
  | joinForeign => exact h
  | @joinWait pc pID r hc hpc hp hparent =>
    obtain ⟨-, -, hr, hpid, -⟩ := hs.slot pID r hp
    have hcore := s.modifyPcb_proj PCB.core r (f := fun p => p.recordJoin.incNumWait)
      (fun _ => rfl)
    have hpid' := PCB.proj_of_core PCB.pid (fun _ => rfl) (hcore r)
    have hparent' := PCB.proj_of_core PCB.parentID (fun _ => rfl) (hcore r)
    refine h.P hready.2.1 hcore ⟨hr, ?_, ?_⟩
    · rw [P_control, if_pos rfl]
      exact congrArg Control.joined (hpid'.trans hpid).symm
    · rw [P_processID]
      exact hparent.trans hparent'.symm
  | joinAbandon => exact h.modifyThread hw (fun _ => rfl) (fun _ => rfl)
  | joinGrant => exact hV _ _
  | @exitSignal pc ec r q =>
    exact h.V hw fun r' => (modifyPcb_proj PCB.core _ r (f := PCB.decNumWait)
      (fun _ => rfl) r').trans (exitStored_core s r q r' ec)
  | @exitNow pc ec r q bm hc hpc h0 hr hq hjoin hbm =>
    have hstored : Queued (s.exitStored r q ec) :=
      h.still rfl (fun _ => rfl) (fun _ => rfl)
        (fun id hid => hid.of_core rfl fun r' => exitStored_core s r q r' ec)
        (fun u id hu => (h.wait u id hu).of_core rfl rfl rfl
          fun r' => exitStored_core s r q r' ec)
    exact hstored.removed (hs.runs_lt hr) hw bm
  | @exitWait ec r hc hr => exact hP _ _ ⟨hs.runs_lt hr, ⟨ec, by simp⟩, hr.thread⟩
  | @remove ec r bm hc hr hbm => exact h.removed (hs.runs_lt hr) hw bm

/-- A step keeps the queues in order. -/
theorem Queued.step (hs : Wf s) (h : Queued s) {a : Act}
    (hstep : Process.step s a = some (events, s')) : Queued s' := by
  obtain ⟨hready, ⟨id, hw, -, -, rfl⟩ | ⟨hw, hm⟩⟩ := hs.step_cases hstep
  · refine h.P hready.2.1 (fun _ => rfl) ?_
    exact (h.wait a.thread id hw).of_core (by simp) (by simp) rfl (fun _ => rfl)
  · exact hm.queued hs h hready hw

theorem initial_queued (rawTable rawFrames : Nat → BitVec 32) :
    Queued (initial rawTable rawFrames) := by
  have hqueue : ∀ id, ((initial rawTable rawFrames).sem id).queue = [] := by
    intro id
    simp only [initial]
    split <;> rfl
  refine ⟨?_, ?_, ?_, ?_⟩
  · intro id t ht
    rw [hqueue] at ht
    cases ht
  · intro id
    rw [hqueue]
    exact List.nodup_nil
  · intro t ht
    cases ht
  · intro t id ht
    cases ht

end Run

end Nachos.Process
