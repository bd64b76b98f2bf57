import Nachos.Library.Transition
import Nachos.Threads.LineBlock

/-!
# Writing to the console

`SynchConsole::Write` over the display of `Console`. A writer holds `WLineBlock`, hands the device
one character after the other and sleeps on `synchWriteAvail` until the interrupt `ConsoleWriteDone`
says that the device is free again. One action is one section with interrupts off, a call of
`PutChar`, or the interrupt, which occurs once for every `PutChar` and at any later time.
-/

namespace Nachos.ConsoleWrite

open Transition LineBlock

/-- Where a writer is in the loop of `Write`. -/
inductive Point where
  /-- At the test of the loop. -/
  | test
  /-- About to test the value of `synchWriteAvail` in `P`. -/
  | await
  /-- Asleep in the queue of `synchWriteAvail`. -/
  | asleep
  deriving DecidableEq, Repr

/-- The local variables of `Write`: the `numBytes` bytes to be written and the counter. -/
structure Writer where
  buffer : List (BitVec 8)
  loop : Nat
  point : Point
  deriving DecidableEq, Repr

/-- The console and the threads that write to it. -/
structure State (T : Type*) where
  /-- `WLineBlock`. -/
  line : Line T (List (BitVec 8)) Writer
  synchWriteAvail : Semaphore T
  putBusy : Bool
  /-- The interrupts `ConsoleWriteDone` that have been scheduled. -/
  scheduled : Nat
  /-- The characters sent to the display. -/
  display : List (BitVec 8)

inductive Failure where
  | refused
  /-- `ASSERT(putBusy == FALSE)`. -/
  | assertion
  deriving DecidableEq, Repr

inductive Event (T : Type*) where
  /-- A thread gets `WLineBlock`. -/
  | acquired (thread : T) (buffer : List (BitVec 8))
  | returned (thread : T) (buffer : List (BitVec 8)) (numBytes : Int)
  deriving DecidableEq, Repr

inductive Act (T : Type*) where
  | write (thread : T) (buffer : List (BitVec 8))
  /-- One pass through the loop of `WLineBlock->P`. -/
  | pass (thread : T)
  /-- The thread goes on inside. -/
  | goOn (thread : T)
  | writeDone
  deriving DecidableEq, Repr

variable {T : Type} [DecidableEq T]

/-- `SynchConsole::SynchConsole` and `Console::Console`. -/
def State.new : State T := ⟨.new, .new 0, false, 0, []⟩

/-- `Console::PutChar`. -/
def putChar (s : State T) (ch : BitVec 8) : Except Failure (State T) :=
  if s.putBusy then .error .assertion
  else .ok { s with
    display := s.display ++ [ch]
    putBusy := true
    scheduled := s.scheduled + 1 }

/-- A thread that `V` takes out of the queue of `synchWriteAvail` goes back to the loop of `P`. -/
def Writer.wake (w : Writer) : Writer :=
  match w.point with
  | .asleep => { w with point := .await }
  | _ => w

/-- `Console::WriteDone` and its handler, `synchWriteAvail->V`. -/
def writeDone (s : State T) : State T :=
  let (woken, sem) := s.synchWriteAvail.V
  let s := { s with
    putBusy := false
    scheduled := s.scheduled - 1
    synchWriteAvail := sem }
  match woken with
  | none => s
  | some t =>
    match s.line.phase t with
    | .inside w => { s with line := s.line.set t (.inside w.wake) }
    | _ => s

/-- The next section of `Write` after `WLineBlock->P`. -/
def goOn (s : State T) (t : T) (w : Writer) : Except Failure (List (Event T) × State T) :=
  match w.point with
  | .test =>
    if hloop : w.loop < w.buffer.length then do
      let s ← putChar s w.buffer[w.loop]
      pure ([], { s with line := s.line.set t (.inside { w with point := .await }) })
    else pure ([.returned t w.buffer w.buffer.length], { s with line := s.line.free t })
  | .await =>
    match s.synchWriteAvail.P t with
    | (true, sem) => pure ([], { s with
        synchWriteAvail := sem
        line := s.line.set t (.inside { w with loop := w.loop + 1, point := .test }) })
    | (false, sem) => pure ([], { s with
        synchWriteAvail := sem
        line := s.line.set t (.inside { w with point := .asleep }) })
  | .asleep => .error .refused

/-- One action. -/
def perform (s : State T) : Act T → Except Failure (List (Event T) × State T)
  | .write t buffer =>
    match s.line.call t buffer with
    | none => .error .refused
    | some line => .ok ([], { s with line := line })
  | .pass t =>
    match s.line.pass t fun buffer => ⟨buffer, 0, .test⟩ with
    | none => .error .refused
    | some (none, line) => .ok ([], { s with line := line })
    | some (some buffer, line) => .ok ([.acquired t buffer], { s with line := line })
  | .goOn t =>
    match s.line.phase t with
    | .inside w => goOn s t w
    | _ => .error .refused
  | .writeDone => if s.scheduled = 0 then .error .refused else .ok ([], writeDone s)

def step : Step (State T) (Act T) (Event T) := fun s act => (perform s act).toOption

/-- The writes in the order in which they got `WLineBlock`. -/
def acquired (trace : List (Event T)) : List (T × List (BitVec 8)) :=
  trace.filterMap fun
    | .acquired t buffer => some (t, buffer)
    | _ => none

/-- The writes that have finished, in the order in which they did. -/
def returned (trace : List (Event T)) : List (T × List (BitVec 8)) :=
  trace.filterMap fun
    | .returned t buffer _ => some (t, buffer)
    | _ => none

/-- The characters of the buffer that have been sent. -/
def Writer.sent (w : Writer) : List (BitVec 8) :=
  match w.point with
  | .test => w.buffer.take w.loop
  | _ => w.buffer.take (w.loop + 1)

/-- What the device and `synchWriteAvail` are doing: nothing, displaying a character, or done with
it and not yet noticed. -/
inductive Device (putBusy : Bool) (scheduled : Nat) (synchWriteAvail : Semaphore T) :
    Option (T × Writer) → Prop where
  | free {holder : Option (T × Writer)} : (∀ t w, holder = some (t, w) → w.point = .test) →
      putBusy = false → scheduled = 0 → synchWriteAvail = ⟨0, []⟩ →
      Device putBusy scheduled synchWriteAvail holder
  | busy {t : T} {w : Writer} : w.loop < w.buffer.length → w.point = .await →
      putBusy = true → scheduled = 1 → synchWriteAvail = ⟨0, []⟩ →
      Device putBusy scheduled synchWriteAvail (some (t, w))
  | awaited {t : T} {w : Writer} : w.loop < w.buffer.length → w.point = .asleep →
      putBusy = true → scheduled = 1 → synchWriteAvail = ⟨0, [t]⟩ →
      Device putBusy scheduled synchWriteAvail (some (t, w))
  | done {t : T} {w : Writer} : w.loop < w.buffer.length → w.point = .await →
      putBusy = false → scheduled = 0 → synchWriteAvail = ⟨1, []⟩ →
      Device putBusy scheduled synchWriteAvail (some (t, w))

/-- The state after a trace, with the writer inside. -/
structure Serving (trace : List (Event T)) (holder : Option (T × Writer)) (s : State T) :
    Prop where
  held : Held s.line holder
  device : Device s.putBusy s.scheduled s.synchWriteAvail holder
  inOrder : acquired trace =
    returned trace ++ (holder.map fun r => (r.1, r.2.buffer)).toList
  display : s.display = ((returned trace).map Prod.snd).flatten ++
    (holder.elim [] fun r => r.2.sent)
  returns : ∀ t buffer numBytes, .returned t buffer numBytes ∈ trace →
    numBytes = (buffer.length : Int)

section Serving

variable {trace : List (Event T)} {holder : Option (T × Writer)} {s : State T} {t : T} {w : Writer}
  {line : Line T (List (BitVec 8)) Writer}

/-- The writer inside goes on without displaying anything. -/
theorem Serving.goOn (h : Serving trace (some (t, w)) s) (w' : Writer) {sem : Semaphore T}
    {putBusy : Bool} {scheduled : Nat} (hbuffer : w'.buffer = w.buffer) (hsent : w'.sent = w.sent)
    (hdevice : Device putBusy scheduled sem (some (t, w'))) :
    Serving (trace ++ []) (some (t, w'))
      { s with
        line := s.line.set t (.inside w')
        synchWriteAvail := sem
        putBusy := putBusy
        scheduled := scheduled } := by
  rw [List.append_nil]
  exact ⟨h.held.set, hdevice, by simpa [hbuffer] using h.inOrder,
    by simpa [hsent] using h.display, h.returns⟩

omit [DecidableEq T] in
/-- A thread that is not inside goes on. -/
theorem Serving.outside (h : Serving trace holder s) (hline : Held line holder) :
    Serving (trace ++ []) holder { s with line := line } := by
  rw [List.append_nil]
  exact ⟨hline, h.device, h.inOrder, h.display, h.returns⟩

omit [DecidableEq T] in
/-- A writer gets in. -/
theorem Serving.enter (h : Serving trace none s) {buffer : List (BitVec 8)}
    (hline : Held line (some (t, ⟨buffer, 0, .test⟩))) :
    Serving (trace ++ [.acquired t buffer]) (some (t, ⟨buffer, 0, .test⟩))
      { s with line := line } := by
  have hacquired : acquired (trace ++ [.acquired t buffer]) = acquired trace ++ [(t, buffer)] := by
    simp [acquired]
  have hreturned : returned (trace ++ [.acquired t buffer]) = returned trace := by
    simp [returned]
  refine ⟨hline, ?_, ?_, ?_, ?_⟩
  · cases h.device with
    | free _ hbusy hscheduled hsem =>
      refine .free (fun u w heq => ?_) hbusy hscheduled hsem
      cases heq
      rfl
  · simpa [hacquired, hreturned] using h.inOrder
  · simpa [hreturned, Writer.sent] using h.display
  · simpa using h.returns

/-- The test of the loop: the next character is displayed, or the call returns. -/
theorem Serving.test (h : Serving trace (some (t, w)) s) (hpoint : w.point = .test) :
    ∃ events s' holder', ConsoleWrite.goOn s t w = .ok (events, s') ∧
      Serving (trace ++ events) holder' s' := by
  cases h.device with
  | busy _ hawait => simp [hpoint] at hawait
  | awaited _ hasleep => simp [hpoint] at hasleep
  | done _ hawait => simp [hpoint] at hawait
  | free _ hbusy hscheduled hsem =>
    unfold ConsoleWrite.goOn
    simp only [hpoint]
    have hdisplay := h.display
    have hinOrder := h.inOrder
    split
    · rename_i hloop
      refine ⟨_, _, some (t, { w with point := .await }), by
        simp only [putChar, hbusy]
        rfl, ?_⟩
      rw [List.append_nil]
      refine ⟨h.held.set, .busy hloop rfl rfl (by simp [hscheduled]) hsem, hinOrder, ?_,
        h.returns⟩
      simp only [Option.elim_some, Writer.sent, hpoint] at hdisplay ⊢
      rw [hdisplay, List.append_assoc, List.take_append_getElem hloop]
    · rename_i hloop
      have hreturned : returned (trace ++ [.returned t w.buffer w.buffer.length]) =
          returned trace ++ [(t, w.buffer)] := by simp [returned]
      have hacquired : acquired (trace ++ [.returned t w.buffer w.buffer.length]) =
          acquired trace := by simp [acquired]
      refine ⟨_, _, none, rfl, h.held.free, .free (by simp) hbusy hscheduled hsem, ?_, ?_, ?_⟩
      · simpa [hacquired, hreturned] using hinOrder
      · simp only [Option.elim_some, Writer.sent, hpoint, List.take_of_length_le
          (Nat.not_lt.mp hloop)] at hdisplay
        simpa [hreturned] using hdisplay
      · intro u buffer numBytes hmem
        rcases List.mem_append.mp hmem with hmem | hmem
        · exact h.returns u buffer numBytes hmem
        · cases List.mem_singleton.mp hmem
          rfl

/-- The writer inside, at its next section. -/
theorem goOn_spec (h : Serving trace (some (t, w)) s) :
    goOn s t w = .error .refused ∨ ∃ events s' holder', goOn s t w = .ok (events, s') ∧
      Serving (trace ++ events) holder' s' := by
  cases hpoint : w.point with
  | test => exact .inr (h.test hpoint)
  | asleep => exact .inl (by simp [goOn, hpoint])
  | await =>
    refine .inr ?_
    cases h.device with
    | free htest => simp [hpoint] at htest
    | awaited _ hasleep => simp [hpoint] at hasleep
    | busy hloop _ hbusy hscheduled hsem =>
      have hstep := h.goOn { w with point := .asleep } rfl
        (by simp [Writer.sent, hpoint]) (.awaited hloop rfl hbusy hscheduled rfl)
      exact ⟨_, _, _, by simp only [goOn, hpoint, hsem, Semaphore.P]; rfl, hstep⟩
    | done hloop _ hbusy hscheduled hsem =>
      have hstep := h.goOn { w with loop := w.loop + 1, point := .test } rfl
        (by simp [Writer.sent, hpoint]) (.free (by simp) hbusy hscheduled rfl)
      exact ⟨_, _, _, by simp only [goOn, hpoint, hsem, Semaphore.P]; rfl, hstep⟩

/-- The interrupt: somebody has displayed a character and not yet noticed that it is done. -/
theorem writeDone_spec (h : Serving trace holder s) (hscheduled : s.scheduled ≠ 0) :
    ∃ holder', Serving (trace ++ []) holder' (writeDone s) := by
  cases h.device with
  | free _ _ hzero => exact absurd hzero hscheduled
  | done _ _ _ hzero => exact absurd hzero hscheduled
  | @busy t w hloop hpoint _ hone hsem =>
    refine ⟨some (t, w), ?_⟩
    rw [List.append_nil]
    simp only [writeDone, Semaphore.V, hsem, hone]
    exact ⟨h.held, .done hloop hpoint rfl rfl rfl, h.inOrder, h.display, h.returns⟩
  | @awaited t w hloop hpoint _ hone hsem =>
    have hphase : s.line.phase t = .inside w := (h.held.inside t w).mpr rfl
    have hwake : w.wake = { w with point := .await } := by simp [Writer.wake, hpoint]
    have hstep := h.goOn { w with point := .await } rfl (by simp [Writer.sent, hpoint])
      (.done hloop rfl rfl rfl rfl)
    refine ⟨some (t, { w with point := .await }), ?_⟩
    simp only [writeDone, Semaphore.V, hsem, hone, List.head?_cons, List.tail_cons, hphase, hwake]
    exact hstep

/-- What every action keeps, and that the assertion does not fail. -/
theorem perform_spec (h : Serving trace holder s) (act : Act T) :
    perform s act = .error .refused ∨ ∃ events s' holder', perform s act = .ok (events, s') ∧
      Serving (trace ++ events) holder' s' := by
  cases act with
  | write t buffer =>
    simp only [perform]
    split
    · exact .inl rfl
    · rename_i line hcall
      exact .inr ⟨_, _, holder, rfl, h.outside (h.held.call hcall)⟩
  | pass t =>
    simp only [perform]
    split
    · exact .inl rfl
    · rename_i line hpass
      rcases h.held.pass hpass with ⟨-, hline⟩ | ⟨a, ha, -⟩
      · exact .inr ⟨_, _, holder, rfl, h.outside hline⟩
      · cases ha
    · rename_i buffer line hpass
      rcases h.held.pass hpass with ⟨hnone, -⟩ | ⟨a, ha, rfl, hline⟩
      · cases hnone
      · cases ha
        exact .inr ⟨_, _, _, rfl, h.enter hline⟩
  | goOn t =>
    simp only [perform]
    split
    · rename_i w hphase
      have hholder := (h.held.inside t w).mp hphase
      subst hholder
      exact goOn_spec h
    · exact .inl rfl
  | writeDone =>
    simp only [perform]
    split
    · exact .inl rfl
    · rename_i hscheduled
      obtain ⟨holder', hdone⟩ := writeDone_spec h hscheduled
      exact .inr ⟨_, _, holder', rfl, hdone⟩

theorem serving_run (hrun : Run step anyAct State.new trace s) :
    ∃ holder, Serving trace holder s := by
  apply hrun.traceInvariant
  · exact ⟨none, held_new, .free (by simp) rfl rfl rfl, rfl, rfl, by simp⟩
  · rintro tr s act events s' ⟨holder, h⟩ - hs
    unfold step at hs
    rcases perform_spec h act with hrefused | ⟨events', s'', holder', hperform, h'⟩
    · simp [hrefused, Except.toOption] at hs
    · rw [hperform] at hs
      cases hs
      exact ⟨holder', h'⟩

end Serving

/-- Writes are atomic lines. Whatever any number of threads and the interrupts do, the assertion of
`PutChar` does not fail; the writes finish in the order in which they got `WLineBlock`, and at most
one more has got it; and the display shows the buffers of the finished ones followed by a beginning
of the buffer of that one. -/
theorem writes_atomic {trace : List (Event T)} {s : State T}
    (hrun : Run step anyAct State.new trace s) :
    (∀ act, perform s act ≠ .error .assertion) ∧
    (∃ current k, acquired trace = returned trace ++ current ∧ current.length ≤ 1 ∧
      s.display = ((returned trace).map Prod.snd).flatten ++
        ((current.map Prod.snd).flatten).take k) ∧
    ∀ t buffer numBytes, .returned t buffer numBytes ∈ trace →
      numBytes = (buffer.length : Int) := by
  obtain ⟨holder, h⟩ := serving_run hrun
  refine ⟨fun act herror => ?_, ?_, h.returns⟩
  · rcases perform_spec h act with hrefused | ⟨events, s', holder', hok, -⟩
    · simp [hrefused] at herror
    · simp [hok] at herror
  · have hdisplay := h.display
    cases holder with
    | none => exact ⟨[], 0, h.inOrder, by simp, by simpa using hdisplay⟩
    | some r =>
      obtain ⟨t, w⟩ := r
      obtain ⟨k, hk⟩ : ∃ k, w.sent = w.buffer.take k := by
        unfold Writer.sent
        split
        · exact ⟨_, rfl⟩
        · exact ⟨_, rfl⟩
      exact ⟨[(t, w.buffer)], k, h.inOrder, by simp, by simpa [hk] using hdisplay⟩

/-- Two writers: the second one waits for the line while the first one waits for the device. -/
theorem writes_atomic_two : ∃ trace, ∃ s : State Nat,
    Run step anyAct State.new trace s ∧ acquired trace = [(1, [97, 98]), (2, [99])] ∧
    s.display = [97, 98, 99] ∧ ∀ act, perform s act ≠ .error .assertion := by
  obtain ⟨trace, s, hrun, hacquired, hdisplay⟩ := run_reaches step (State.new : State Nat)
    (fun trace s => acquired trace = [(1, [97, 98]), (2, [99])] ∧ s.display = [97, 98, 99])
    [.write 1 [97, 98], .pass 1, .goOn 1, .goOn 1, .write 2 [99], .pass 2, .writeDone, .goOn 1,
      .goOn 1, .writeDone, .goOn 1, .goOn 1, .pass 2, .goOn 2]
    (by decide +kernel)
  exact ⟨trace, s, hrun, hacquired, hdisplay, (writes_atomic hrun).1⟩

end Nachos.ConsoleWrite
