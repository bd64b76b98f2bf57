import Nachos.Library.Transition
import Nachos.Threads.LineBlock

/-!
# Reading from the console

`SynchConsole::Read` over the keyboard of `Console`. The device holds one character; the poll
`CheckCharAvail` fills it when it is empty and the keyboard has one, and then signals
`synchReadAvail`. A reader holds `RLineBlock` and takes one character after the other until it has
enough or meets a newline or Ctrl-A. One action is one section with interrupts off, a call of
`GetChar`, or a poll.
-/

namespace Nachos.ConsoleRead

open Transition LineBlock

/-- `EOF` in a `char`. -/
def EOF : BitVec 8 := 0xFF

/-- `'\012'`. -/
def newline : BitVec 8 := 10

/-- `'\001'`. -/
def ctrlA : BitVec 8 := 1

/-- Where a reader is in the loops of `Read`. -/
inductive Point where
  /-- At the test of the outer loop. -/
  | test
  /-- About to test the value of `synchReadAvail` in `P`. -/
  | await
  /-- Asleep in the queue of `synchReadAvail`. -/
  | asleep
  /-- About to call `GetChar`. -/
  | get
  deriving DecidableEq, Repr

/-- The local variables of `Read`. `ch` has no value at first. -/
structure Reader where
  numBytes : Nat
  into : List (BitVec 8)
  loop : Nat
  eolncond : Bool
  ch : Option (BitVec 8)
  point : Point
  deriving DecidableEq, Repr

/-- The console and the threads that read from it. -/
structure State (T : Type*) where
  /-- `RLineBlock`. -/
  line : Line T Nat Reader
  synchReadAvail : Semaphore T
  incoming : BitVec 8
  /-- What has not been read from the keyboard yet. -/
  input : List (BitVec 8)

inductive Failure where
  | refused
  /-- `ch` is used before it has a value. -/
  | uninitialised
  deriving DecidableEq, Repr

inductive Event (T : Type*) where
  /-- A character comes from the keyboard. -/
  | polled (c : BitVec 8)
  /-- A thread gets `RLineBlock`. -/
  | acquired (thread : T) (numBytes : Nat)
  /-- A call returns, with the final values of its variables. -/
  | returned (thread : T) (r : Reader) (result : Int)
  deriving DecidableEq, Repr

inductive Act (T : Type*) where
  | read (thread : T) (numBytes : Nat)
  /-- One pass through the loop of `RLineBlock->P`. -/
  | pass (thread : T)
  /-- The thread goes on inside. -/
  | goOn (thread : T)
  /-- `CheckCharAvail`, with the answer of `PollFile`. -/
  | poll (ready : Bool)
  deriving DecidableEq, Repr

variable {T : Type} [DecidableEq T]

/-- `SynchConsole::SynchConsole` and `Console::Console`. -/
def State.new (input : List (BitVec 8)) : State T := ⟨.new, .new 0, EOF, input⟩

/-- The beginning of `Read`: the buffer is cleared. -/
def Reader.start (numBytes : Nat) : Reader :=
  ⟨numBytes, List.replicate numBytes 0, 0, false, none, .test⟩

/-- A thread that `V` takes out of the queue of `synchReadAvail` goes back to the loop of `P`. -/
def Reader.wake (r : Reader) : Reader :=
  match r.point with
  | .asleep => { r with point := .await }
  | _ => r

/-- `synchReadAvail->V`, the handler of the poll. -/
def signal (s : State T) : State T :=
  let (woken, sem) := s.synchReadAvail.V
  let s := { s with synchReadAvail := sem }
  match woken with
  | none => s
  | some t =>
    match s.line.phase t with
    | .inside r => { s with line := s.line.set t (.inside r.wake) }
    | _ => s

/-- `Console::CheckCharAvail`. -/
def checkCharAvail (s : State T) (ready : Bool) : List (Event T) × State T :=
  match s.input with
  | [] => ([], s)
  | c :: rest =>
    if s.incoming ≠ EOF ∨ ready = false then ([], s)
    else ([.polled c], signal { s with incoming := c, input := rest })

/-- What `Read` does with a character. -/
def Reader.take (r : Reader) (ch : BitVec 8) : Reader :=
  if ch = EOF then { r with ch := some ch, point := .await }
  else if ch = newline ∨ ch = ctrlA then { r with ch := some ch, eolncond := true, point := .test }
  else { r with
    ch := some ch
    into := r.into.set r.loop ch
    loop := r.loop + 1
    point := .test }

/-- The result of `Read`. -/
def Reader.result (r : Reader) : Except Failure Int :=
  match r.ch with
  | none => .error .uninitialised
  | some ch => .ok (if ch = ctrlA then -1 else r.loop)

/-- The next section of `Read` after `RLineBlock->P`. -/
def goOn (s : State T) (t : T) (r : Reader) : Except Failure (List (Event T) × State T) :=
  match r.point with
  | .test =>
    if r.loop < r.numBytes ∧ r.eolncond = false then
      pure ([], { s with line := s.line.set t (.inside { r with point := .await }) })
    else do
      let result ← r.result
      pure ([.returned t r result], { s with line := s.line.free t })
  | .await =>
    match s.synchReadAvail.P t with
    | (true, sem) => pure ([], { s with
        synchReadAvail := sem
        line := s.line.set t (.inside { r with point := .get }) })
    | (false, sem) => pure ([], { s with
        synchReadAvail := sem
        line := s.line.set t (.inside { r with point := .asleep }) })
  | .asleep => .error .refused
  | .get => pure ([], { s with
      incoming := EOF
      line := s.line.set t (.inside (r.take s.incoming)) })

/-- One action. -/
def perform (s : State T) : Act T → Except Failure (List (Event T) × State T)
  | .read t numBytes =>
    match s.line.call t numBytes with
    | none => .error .refused
    | some line => .ok ([], { s with line := line })
  | .pass t =>
    match s.line.pass t Reader.start with
    | none => .error .refused
    | some (none, line) => .ok ([], { s with line := line })
    | some (some numBytes, line) => .ok ([.acquired t numBytes], { s with line := line })
  | .goOn t =>
    match s.line.phase t with
    | .inside r => goOn s t r
    | _ => .error .refused
  | .poll ready => .ok (checkCharAvail s ready)

def step : Step (State T) (Act T) (Event T) := fun s act => (perform s act).toOption

/-- Every `Read` asks for a character at least. -/
def AsksForSome : State T → Act T → Prop
  | _, .read _ numBytes => 1 ≤ numBytes
  | _, _ => True

/-- `AsksForSome` is decided by a comparison. -/
instance AsksForSome.decidable (s : State T) (act : Act T) : Decidable (AsksForSome s act) :=
  match act with
  | .read _ numBytes => inferInstanceAs (Decidable (1 ≤ numBytes))
  | .pass _ => isTrue trivial
  | .goOn _ => isTrue trivial
  | .poll _ => isTrue trivial

/-- The characters that have come from the keyboard. -/
def polled (trace : List (Event T)) : List (BitVec 8) :=
  trace.filterMap fun
    | .polled c => some c
    | _ => none

/-- The reads in the order in which they got `RLineBlock`. -/
def acquired (trace : List (Event T)) : List (T × Nat) :=
  trace.filterMap fun
    | .acquired t numBytes => some (t, numBytes)
    | _ => none

/-- The reads that have returned, in the order in which they did, with their variables and their
results. -/
def returned (trace : List (Event T)) : List (T × Reader × Int) :=
  trace.filterMap fun
    | .returned t r result => some (t, r, result)
    | _ => none

/-- The characters a read has stored in its buffer. -/
def Reader.stored (r : Reader) : List (BitVec 8) := r.into.take r.loop

/-- The newline or Ctrl-A that ended a read. -/
def Reader.ender (r : Reader) : Option (BitVec 8) := if r.eolncond then r.ch else none

/-- The characters a read has taken. -/
def Reader.taken (r : Reader) : List (BitVec 8) := r.stored ++ r.ender.toList

/-- The character waiting in the device. -/
def waiting (incoming : BitVec 8) : List (BitVec 8) := if incoming = EOF then [] else [incoming]

/-- What is known about the variables of a read. -/
structure Reading (r : Reader) : Prop where
  asks : 1 ≤ r.numBytes
  bound : r.loop ≤ r.numBytes
  size : r.into.length = r.numBytes
  buffer : r.into = r.stored ++ List.replicate (r.numBytes - r.loop) 0
  plain : ∀ c ∈ r.stored, c ≠ newline ∧ c ≠ ctrlA
  ended : r.eolncond = true → r.ch = some newline ∨ r.ch = some ctrlA
  last : r.eolncond = false → 0 < r.loop → ∃ c, r.ch = some c ∧ c ≠ ctrlA
  room : r.point ≠ .test → r.loop < r.numBytes ∧ r.eolncond = false

section Reading

variable {r : Reader}

theorem Reading.length_stored (h : Reading r) : r.stored.length = r.loop := by
  rw [Reader.stored, List.length_take, h.size]
  exact Nat.min_eq_left h.bound

theorem reading_start {numBytes : Nat} (h : 1 ≤ numBytes) : Reading (Reader.start numBytes) where
  asks := h
  bound := Nat.zero_le _
  size := by simp [Reader.start]
  buffer := by simp [Reader.start, Reader.stored]
  plain := by simp [Reader.start, Reader.stored]
  ended := by simp [Reader.start]
  last := by simp [Reader.start]
  room := by simp [Reader.start]

/-- Moving on to another point. -/
theorem Reading.move (h : Reading r) {point : Point}
    (hroom : point ≠ .test → r.loop < r.numBytes ∧ r.eolncond = false) :
    Reading { r with point := point } :=
  ⟨h.asks, h.bound, h.size, h.buffer, h.plain, h.ended, h.last, hroom⟩

/-- A character that is neither `EOF` nor the end is stored. -/
theorem Reading.store (h : Reading r) (hpoint : r.point = .get) {c : BitVec 8} (hEOF : c ≠ EOF)
    (hc : ¬ (c = newline ∨ c = ctrlA)) :
    Reading (r.take c) ∧ (r.take c).taken = r.taken ++ [c] ∧ (r.take c).point = .test ∧
      (r.take c).numBytes = r.numBytes := by
  obtain ⟨hloop, heoln⟩ := h.room (by simp [hpoint])
  have htake : r.take c = { r with
      ch := some c, into := r.into.set r.loop c, loop := r.loop + 1, point := .test } := by
    simp [Reader.take, hEOF, hc]
  rw [htake]
  have hlength := h.length_stored
  have hset : r.into.set r.loop c =
      r.stored ++ c :: List.replicate (r.numBytes - (r.loop + 1)) 0 := by
    conv_lhs => rw [h.buffer]
    rw [List.set_append_right _ _ (by omega), hlength, Nat.sub_self,
      show r.numBytes - r.loop = (r.numBytes - (r.loop + 1)) + 1 by omega, List.replicate_succ,
      List.set_cons_zero]
  have hstored : (r.into.set r.loop c).take (r.loop + 1) = r.stored ++ [c] := by
    rw [hset, ← hlength, List.take_length_add_append]
    rfl
  refine ⟨?_, ?_, rfl, rfl⟩
  · constructor
    · exact h.asks
    · exact hloop
    · rw [List.length_set]
      exact h.size
    · rw [Reader.stored, hstored, List.append_assoc]
      exact hset
    · intro d hd
      rw [Reader.stored, hstored, List.mem_append, List.mem_singleton] at hd
      rcases hd with hd | rfl
      · exact h.plain d hd
      · exact not_or.mp hc
    · intro heoln'
      exact absurd (heoln'.symm.trans heoln) Bool.true_eq_false.mp
    · exact fun _ _ => ⟨c, rfl, fun heq => hc (.inr heq)⟩
    · exact fun hne => absurd rfl hne
  · simp [Reader.taken, Reader.ender, heoln, Reader.stored, hstored]

/-- A newline or Ctrl-A ends the read. -/
theorem Reading.finish (h : Reading r) (hpoint : r.point = .get) {c : BitVec 8} (hEOF : c ≠ EOF)
    (hc : c = newline ∨ c = ctrlA) :
    Reading (r.take c) ∧ (r.take c).taken = r.taken ++ [c] ∧ (r.take c).point = .test ∧
      (r.take c).numBytes = r.numBytes := by
  obtain ⟨hloop, heoln⟩ := h.room (by simp [hpoint])
  have htake : r.take c = { r with ch := some c, eolncond := true, point := .test } := by
    simp [Reader.take, hEOF, hc]
  rw [htake]
  refine ⟨⟨h.asks, h.bound, h.size, h.buffer, h.plain, fun _ => ?_, fun hfalse => ?_,
    fun hne => ?_⟩, ?_, rfl, rfl⟩
  · exact hc.imp (congrArg some) (congrArg some)
  · cases hfalse
  · exact absurd rfl hne
  · simp [Reader.taken, Reader.ender, heoln, Reader.stored]

end Reading

/-- What a read that has returned has done. -/
structure Answered (r : Reader) (result : Int) : Prop where
  bound : r.stored.length ≤ r.numBytes
  buffer : r.into = r.stored ++ List.replicate (r.numBytes - r.stored.length) 0
  plain : ∀ c ∈ r.stored, c ≠ newline ∧ c ≠ ctrlA
  ender : ∀ c, r.ender = some c → c = newline ∨ c = ctrlA
  full : r.ender = none → r.stored.length = r.numBytes
  minusOne : result = -1 ↔ r.ender = some ctrlA
  count : r.ender ≠ some ctrlA → result = (r.stored.length : Int)

/-- A read that leaves the loop has a result, and it is the right one. -/
theorem Reading.answered {r : Reader} (h : Reading r)
    (hend : ¬ (r.loop < r.numBytes ∧ r.eolncond = false)) :
    ∃ result, r.result = .ok result ∧ Answered r result := by
  have hlength := h.length_stored
  have hbound := h.bound
  have hasks := h.asks
  cases heoln : r.eolncond with
  | true =>
    have hender : r.ender = r.ch := by simp [Reader.ender, heoln]
    rcases h.ended heoln with hch | hch
    · refine ⟨r.loop, by simp [Reader.result, hch, newline, ctrlA], by omega,
        by rw [hlength]; exact h.buffer, h.plain, ?_, ?_, ?_, fun _ => by rw [hlength]⟩
      · intro c hc
        rw [hender, hch] at hc
        exact .inl (Option.some.inj hc).symm
      · simp [hender, hch]
      · simp only [hender, hch, newline, ctrlA]
        constructor
        · intro heq
          omega
        · intro heq
          exact absurd heq (by decide)
    · refine ⟨-1, by simp [Reader.result, hch], by omega, by rw [hlength]; exact h.buffer,
        h.plain, ?_, ?_, by simp [hender, hch], fun hne => absurd (hender.trans hch) hne⟩
      · intro c hc
        rw [hender, hch] at hc
        exact .inr (Option.some.inj hc).symm
      · simp [hender, hch]
  | false =>
    have hfull : r.loop = r.numBytes := by
      rw [heoln] at hend
      have : ¬ r.loop < r.numBytes := fun hlt => hend ⟨hlt, rfl⟩
      omega
    obtain ⟨c, hch, hc⟩ := h.last heoln (by omega)
    have hender : r.ender = none := by simp [Reader.ender, heoln]
    refine ⟨r.loop, by simp [Reader.result, hch, hc], by omega, by rw [hlength]; exact h.buffer,
      h.plain, by simp [hender], fun _ => by omega, ?_, fun _ => by rw [hlength]⟩
    simp [hender]

/-- The device and `synchReadAvail`: the value is 1 exactly when a character is waiting that no
reader has been promised. -/
inductive Device (incoming : BitVec 8) (synchReadAvail : Semaphore T) :
    Option (T × Reader) → Prop where
  | free {holder : Option (T × Reader)} :
      (∀ t r, holder = some (t, r) → r.point = .test ∨ r.point = .await) →
      synchReadAvail = ⟨if incoming = EOF then 0 else 1, []⟩ →
      Device incoming synchReadAvail holder
  | awaited {t : T} {r : Reader} : r.point = .asleep → incoming = EOF →
      synchReadAvail = ⟨0, [t]⟩ → Device incoming synchReadAvail (some (t, r))
  | promised {t : T} {r : Reader} : r.point = .get → incoming ≠ EOF →
      synchReadAvail = ⟨0, []⟩ → Device incoming synchReadAvail (some (t, r))

/-- The state after a trace, with the reader inside. -/
structure Serving (input : List (BitVec 8)) (trace : List (Event T)) (holder : Option (T × Reader))
    (s : State T) : Prop where
  held : Held s.line holder
  calls : s.line.Calls (1 ≤ ·)
  device : Device s.incoming s.synchReadAvail holder
  reading : ∀ t r, holder = some (t, r) → Reading r
  inOrder : acquired trace = (returned trace).map (fun x => (x.1, x.2.1.numBytes)) ++
    (holder.map fun x => (x.1, x.2.numBytes)).toList
  delivered : polled trace = ((returned trace).map fun x => x.2.1.taken).flatten ++
    (holder.elim [] fun x => x.2.taken) ++ waiting s.incoming
  stream : polled trace ++ s.input = input
  noEOF : EOF ∉ s.input
  answered : ∀ x ∈ returned trace, Answered x.2.1 x.2.2

section Serving

variable {input : List (BitVec 8)} {trace : List (Event T)} {holder : Option (T × Reader)}
  {s : State T} {t : T} {r : Reader} {line : Line T Nat Reader}

/-- The reader inside goes on without taking a character. -/
theorem Serving.move (h : Serving input trace (some (t, r)) s) (point : Point) {sem : Semaphore T}
    (hroom : point ≠ .test → r.loop < r.numBytes ∧ r.eolncond = false)
    (hdevice : Device s.incoming sem (some (t, { r with point := point }))) :
    Serving input (trace ++ []) (some (t, { r with point := point }))
      { s with
        line := s.line.set t (.inside { r with point := point })
        synchReadAvail := sem } := by
  rw [List.append_nil]
  refine ⟨h.held.set, h.calls.set (by simp), hdevice, fun u q heq => ?_, h.inOrder, h.delivered,
    h.stream, h.noEOF, h.answered⟩
  cases heq
  exact (h.reading t r rfl).move hroom

omit [DecidableEq T] in
/-- A thread that is not inside goes on. -/
theorem Serving.outside (h : Serving input trace holder s) (hline : Held line holder)
    (hcalls : line.Calls (1 ≤ ·)) : Serving input (trace ++ []) holder { s with line := line } := by
  rw [List.append_nil]
  exact ⟨hline, hcalls, h.device, h.reading, h.inOrder, h.delivered, h.stream, h.noEOF,
    h.answered⟩

omit [DecidableEq T] in
/-- A reader gets in. -/
theorem Serving.enter (h : Serving input trace none s) {numBytes : Nat}
    (hline : Held line (some (t, .start numBytes))) (hcalls : line.Calls (1 ≤ ·))
    (hasks : 1 ≤ numBytes) :
    Serving input (trace ++ [.acquired t numBytes]) (some (t, .start numBytes))
      { s with line := line } := by
  have hacquired : acquired (trace ++ [.acquired t numBytes]) =
      acquired trace ++ [(t, numBytes)] := by simp [acquired]
  have hreturned : returned (trace ++ [.acquired t numBytes]) = returned trace := by
    simp [returned]
  have hpolled : polled (trace ++ [.acquired t numBytes]) = polled trace := by simp [polled]
  refine ⟨hline, hcalls, ?_, fun u q heq => ?_, ?_, ?_, ?_, h.noEOF, ?_⟩
  · cases h.device with
    | free _ hsem =>
      refine .free (fun u q heq => ?_) hsem
      cases heq
      exact .inl rfl
  · cases heq
    exact reading_start hasks
  · rw [hacquired, hreturned, h.inOrder]
    simp [Reader.start]
  · rw [hpolled, hreturned, h.delivered]
    simp [Reader.start, Reader.taken, Reader.stored, Reader.ender]
  · rw [hpolled]
    exact h.stream
  · rw [hreturned]
    exact h.answered

/-- The reader inside returns. -/
theorem Serving.leave (h : Serving input trace (some (t, r)) s) (hpoint : r.point = .test)
    {result : Int} (hanswered : Answered r result) :
    Serving input (trace ++ [.returned t r result]) none { s with line := s.line.free t } := by
  have hacquired : acquired (trace ++ [.returned t r result]) = acquired trace := by
    simp [acquired]
  have hreturned : returned (trace ++ [.returned t r result]) =
      returned trace ++ [(t, r, result)] := by simp [returned]
  have hpolled : polled (trace ++ [.returned t r result]) = polled trace := by simp [polled]
  refine ⟨h.held.free, h.calls.free, ?_, by simp, ?_, ?_, ?_, h.noEOF, ?_⟩
  · cases h.device with
    | free _ hsem => exact .free (by simp) hsem
    | awaited hasleep => simp [hpoint] at hasleep
    | promised hget => simp [hpoint] at hget
  · rw [hacquired, hreturned, h.inOrder]
    simp
  · rw [hpolled, hreturned, h.delivered]
    simp
  · rw [hpolled]
    exact h.stream
  · intro x hx
    rw [hreturned, List.mem_append, List.mem_singleton] at hx
    rcases hx with hx | rfl
    · exact h.answered x hx
    · exact hanswered

/-- `GetChar` gives the reader the character it has been promised. -/
theorem Serving.get (h : Serving input trace (some (t, r)) s) (hpoint : r.point = .get) :
    Serving input (trace ++ []) (some (t, r.take s.incoming))
      { s with incoming := EOF, line := s.line.set t (.inside (r.take s.incoming)) } := by
  cases h.device with
  | free hpoints => simpa [hpoint] using hpoints t r rfl
  | awaited hasleep => simp [hpoint] at hasleep
  | promised _ hincoming hsem =>
    obtain ⟨hreading, htaken, htest, hnum⟩ : Reading (r.take s.incoming) ∧
        (r.take s.incoming).taken = r.taken ++ [s.incoming] ∧
        (r.take s.incoming).point = .test ∧ (r.take s.incoming).numBytes = r.numBytes := by
      by_cases hc : s.incoming = newline ∨ s.incoming = ctrlA
      · exact (h.reading t r rfl).finish hpoint hincoming hc
      · exact (h.reading t r rfl).store hpoint hincoming hc
    rw [List.append_nil]
    refine ⟨h.held.set, h.calls.set (by simp), .free ?_ (by simpa using hsem), ?_, ?_, ?_,
      h.stream, h.noEOF, h.answered⟩
    · intro u q heq
      cases heq
      exact .inl htest
    · intro u q heq
      cases heq
      exact hreading
    · simpa [hnum] using h.inOrder
    · rw [h.delivered]
      simp [htaken, waiting, hincoming]

/-- The reader inside, at its next section. -/
theorem goOn_spec (h : Serving input trace (some (t, r)) s) :
    goOn s t r = .error .refused ∨ ∃ events s' holder', goOn s t r = .ok (events, s') ∧
      Serving input (trace ++ events) holder' s' := by
  have hreading := h.reading t r rfl
  cases hpoint : r.point with
  | asleep => exact .inl (by simp [goOn, hpoint])
  | get => exact .inr ⟨_, _, _, by simp only [goOn, hpoint]; rfl, h.get hpoint⟩
  | test =>
    refine .inr ?_
    by_cases hloop : r.loop < r.numBytes ∧ r.eolncond = false
    · cases h.device with
      | awaited hasleep => simp [hpoint] at hasleep
      | promised hget => simp [hpoint] at hget
      | free _ hsem =>
        have hstep := h.move .await (fun _ => hloop) (.free (by simp) hsem)
        exact ⟨_, _, _, by simp only [goOn, hpoint, if_pos hloop]; rfl, hstep⟩
    · obtain ⟨result, hresult, hanswered⟩ := hreading.answered hloop
      refine ⟨_, _, none, ?_, h.leave hpoint hanswered⟩
      simp only [goOn, hpoint, if_neg hloop, hresult]
      rfl
  | await =>
    refine .inr ?_
    have hroom := hreading.room (by simp [hpoint])
    cases h.device with
    | awaited hasleep => simp [hpoint] at hasleep
    | promised hget => simp [hpoint] at hget
    | free _ hsem =>
      by_cases hincoming : s.incoming = EOF
      · rw [if_pos hincoming] at hsem
        have hstep := h.move .asleep (fun _ => hroom) (.awaited rfl hincoming rfl)
        exact ⟨_, _, _, by simp only [goOn, hpoint, hsem, Semaphore.P]; rfl, hstep⟩
      · rw [if_neg hincoming] at hsem
        have hstep := h.move .get (fun _ => hroom) (.promised rfl hincoming rfl)
        exact ⟨_, _, _, by simp only [goOn, hpoint, hsem, Semaphore.P]; rfl, hstep⟩

/-- A poll that finds the device empty and a character on the keyboard. -/
theorem Serving.polled (h : Serving input trace holder s) {c : BitVec 8} {rest : List (BitVec 8)}
    (hinput : s.input = c :: rest) (hempty : s.incoming = EOF) :
    ∃ holder', Serving input (trace ++ [.polled c]) holder'
      (signal { s with incoming := c, input := rest }) := by
  have hc : c ≠ EOF := fun heq => h.noEOF (by simp [hinput, heq])
  have hrest : EOF ∉ rest := fun hmem => h.noEOF (by simp [hinput, hmem])
  have hacquired : acquired (trace ++ [.polled c]) = acquired trace := by simp [acquired]
  have hreturned : returned (trace ++ [.polled c]) = returned trace := by simp [returned]
  have hpolled : ConsoleRead.polled (trace ++ [.polled c]) = ConsoleRead.polled trace ++ [c] := by
    simp [ConsoleRead.polled]
  have hdelivered := h.delivered
  have hstream := h.stream
  rw [waiting, if_pos hempty, List.append_nil] at hdelivered
  rw [hinput] at hstream
  cases h.device with
  | promised _ hfull => exact absurd hempty hfull
  | free hpoints hsem =>
    rw [if_pos hempty] at hsem
    refine ⟨holder, ?_⟩
    simp only [signal, Semaphore.V, hsem]
    refine ⟨h.held, h.calls, .free hpoints (by simp [hc]), h.reading, ?_, ?_, ?_, hrest, ?_⟩
    · rw [hacquired, hreturned]
      exact h.inOrder
    · rw [hpolled, hreturned, hdelivered]
      simp [waiting, hc]
    · rw [hpolled, List.append_assoc]
      exact hstream
    · rw [hreturned]
      exact h.answered
  | @awaited t r hasleep _ hsem =>
    have hphase : s.line.phase t = .inside r := (h.held.inside t r).mpr rfl
    have hwake : r.wake = { r with point := .await } := by simp [Reader.wake, hasleep]
    refine ⟨some (t, { r with point := .await }), ?_⟩
    simp only [signal, Semaphore.V, hsem, List.head?_cons, List.tail_cons, hphase, hwake]
    refine ⟨h.held.set, h.calls.set (by simp), .free (by simp) (by simp [hc]), ?_, ?_, ?_, ?_,
      hrest, ?_⟩
    · intro u q heq
      cases heq
      exact (h.reading t r rfl).move fun _ => (h.reading t r rfl).room (by simp [hasleep])
    · rw [hacquired, hreturned]
      exact h.inOrder
    · rw [hpolled, hreturned, hdelivered]
      simp [waiting, hc, Reader.taken, Reader.stored, Reader.ender]
    · rw [hpolled, List.append_assoc]
      exact hstream
    · rw [hreturned]
      exact h.answered

theorem checkCharAvail_spec (h : Serving input trace holder s) (ready : Bool) :
    ∃ events s' holder', checkCharAvail s ready = (events, s') ∧
      Serving input (trace ++ events) holder' s' := by
  have hsame : Serving input (trace ++ []) holder s := by rwa [List.append_nil]
  unfold checkCharAvail
  split
  · exact ⟨_, _, holder, rfl, hsame⟩
  · rename_i c rest hinput
    split
    · exact ⟨_, _, holder, rfl, hsame⟩
    · rename_i hready
      obtain ⟨holder', hs'⟩ := h.polled hinput (by simpa using (not_or.mp hready).1)
      exact ⟨_, _, holder', rfl, hs'⟩

/-- What every action keeps, and that `ch` is not used without a value. -/
theorem perform_spec (h : Serving input trace holder s) {act : Act T} (hok : AsksForSome s act) :
    perform s act = .error .refused ∨ ∃ events s' holder', perform s act = .ok (events, s') ∧
      Serving input (trace ++ events) holder' s' := by
  cases act with
  | read t numBytes =>
    simp only [perform]
    split
    · exact .inl rfl
    · rename_i line hcall
      exact .inr ⟨_, _, holder, rfl, h.outside (h.held.call hcall) (h.calls.call hok hcall)⟩
  | pass t =>
    simp only [perform]
    split
    · exact .inl rfl
    · rename_i line hpass
      rcases h.held.pass hpass with ⟨-, hline⟩ | ⟨a, ha, -⟩
      · exact .inr ⟨_, _, holder, rfl, h.outside hline (h.calls.pass hpass).1⟩
      · cases ha
    · rename_i numBytes line hpass
      obtain ⟨hcalls, hasks⟩ := h.calls.pass hpass
      rcases h.held.pass hpass with ⟨hnone, -⟩ | ⟨a, ha, rfl, hline⟩
      · cases hnone
      · cases ha
        exact .inr ⟨_, _, _, rfl, h.enter hline hcalls (hasks _ rfl)⟩
  | goOn t =>
    simp only [perform]
    split
    · rename_i r hphase
      have hholder := (h.held.inside t r).mp hphase
      subst hholder
      exact goOn_spec h
    · exact .inl rfl
  | poll ready =>
    obtain ⟨events, s', holder', heq, hs'⟩ := checkCharAvail_spec h ready
    exact .inr ⟨events, s', holder', by rw [perform, heq], hs'⟩

theorem serving_run (hinput : EOF ∉ input)
    (hrun : Run step AsksForSome (State.new input) trace s) :
    ∃ holder, Serving input trace holder s := by
  apply hrun.traceInvariant
  · refine ⟨none, held_new, fun t a ht => ?_, .free (by simp) rfl, by simp, rfl, rfl, rfl, hinput,
      by simp [returned]⟩
    rcases ht with ht | ht <;> cases ht
  · rintro tr s act events s' ⟨holder, h⟩ hok hs
    unfold step at hs
    rcases perform_spec h hok with hrefused | ⟨events', s'', holder', hperform, h'⟩
    · simp [hrefused, Except.toOption] at hs
    · rw [hperform] at hs
      cases hs
      exact ⟨holder', h'⟩

end Serving

/-- Input is delivered exactly once. Whatever any number of threads and the polls do, the
characters that have come from the keyboard are, in order, those of the reads that have returned,
in the order in which these got `RLineBlock`, then those of the one that has got it and has not
returned, then the one that is waiting in the device. The characters of a read are the ones it has
stored, followed by the newline or Ctrl-A that ended it; its result is -1 for Ctrl-A and otherwise
the number of characters stored. -/
theorem input_delivered {input : List (BitVec 8)} (hinput : EOF ∉ input) {trace : List (Event T)}
    {s : State T} (hrun : Run step AsksForSome (State.new input) trace s) :
    polled trace ++ s.input = input ∧
    (∃ current : List (T × Reader), current.length ≤ 1 ∧
      acquired trace = (returned trace).map (fun x => (x.1, x.2.1.numBytes)) ++
        current.map (fun x => (x.1, x.2.numBytes)) ∧
      polled trace = ((returned trace).map fun x => x.2.1.taken).flatten ++
        (current.map fun x => x.2.taken).flatten ++ waiting s.incoming) ∧
    (waiting s.incoming).length ≤ 1 ∧
    (∀ x ∈ returned trace, Answered x.2.1 x.2.2) ∧
    ∀ act, AsksForSome s act → perform s act ≠ .error .uninitialised := by
  obtain ⟨holder, h⟩ := serving_run hinput hrun
  refine ⟨h.stream, ?_, ?_, h.answered, fun act hok herror => ?_⟩
  · have hinOrder := h.inOrder
    have hdelivered := h.delivered
    cases holder with
    | none => exact ⟨[], by simp, hinOrder, by simpa using hdelivered⟩
    | some x => exact ⟨[x], by simp, hinOrder, by simpa using hdelivered⟩
  · unfold waiting
    split <;> simp
  · rcases perform_spec h hok with hrefused | ⟨events, s', holder', hok, -⟩
    · simp [hrefused] at herror
    · simp [hok] at herror

/-- A line for one reader and a character for another one, who has been waiting for the line. -/
theorem input_delivered_two : ∃ trace, ∃ s : State Nat,
    Run step AsksForSome (State.new [97, newline, 98]) trace s ∧
    (returned trace).map (fun x => (x.1, x.2.1.taken, x.2.2)) =
      [(1, [97, newline], 1), (2, [98], 1)] ∧
    ∀ x ∈ returned trace, Answered x.2.1 x.2.2 := by
  obtain ⟨trace, s, hrun, hreturned⟩ := run_reaches_allowed step AsksForSome
    (State.new [97, newline, 98] : State Nat)
    (fun trace _ => (returned trace).map (fun x => (x.1, x.2.1.taken, x.2.2)) =
      [(1, [97, newline], 1), (2, [98], 1)])
    [.read 1 5, .pass 1, .goOn 1, .goOn 1, .read 2 1, .pass 2, .poll true, .goOn 1, .goOn 1,
      .poll true, .goOn 1, .goOn 1, .goOn 1, .goOn 1, .pass 2, .goOn 2, .poll true, .goOn 2,
      .goOn 2, .goOn 2]
    (by decide +kernel) (by decide +kernel)
  exact ⟨trace, s, hrun, hreturned, (input_delivered (by decide) hrun).2.2.2.1⟩

end Nachos.ConsoleRead
