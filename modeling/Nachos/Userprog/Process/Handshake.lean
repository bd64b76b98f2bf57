import Nachos.Library.Monitor

/-!
# The join handshake

What `JoinUpdate` and `ExitUpdate` are meant to do together, as a protocol between one process
that exits and the process that waits for it. The exiting process stores its exit code and
offers it; the waiting one takes the offer, reads the code and releases the other, which only
then is removed. A process that nobody waits for is removed at once. The branch for a nonzero
exit code answers the caller without a release: that is the stage `abandoned`, which no signal
leaves.
-/

namespace Nachos.Handshake

variable {Parent : Type*}

/-- How far the handshake about one process has come. -/
inductive Stage (Parent : Type*) where
  /-- Nobody has joined, and the process has not exited. -/
  | idle
  /-- `p` waits for the process to exit. -/
  | awaited (p : Parent)
  /-- The process exits and nobody waits. -/
  | stored (ec : Int)
  /-- The process has stored `ec` and signalled `p`. -/
  | offered (p : Parent) (ec : Int)
  /-- `p` has returned from its wait. -/
  | taken (p : Parent) (ec : Int)
  /-- `p` has read the exit code. -/
  | answered (p : Parent) (ec : Int)
  /-- `p` has signalled the process. -/
  | released (p : Parent)
  /-- `p` has returned, and the process may go. -/
  | granted
  /-- `p` has returned, and the process waits for a signal that does not come. -/
  | abandoned (ec : Int)
  /-- The process has received its signal. -/
  | passed
  /-- The process has been removed. -/
  | removed
  deriving DecidableEq, Repr

/-- The signals of the handshake. -/
inductive Signal (Parent : Type*) where
  | arrive (p : Parent)
  | store (ec : Int)
  | take (p : Parent)
  | read (p : Parent) (ec : Int)
  | release (p : Parent)
  | answer (p : Parent) (res : Int)
  | pass
  | remove
  deriving DecidableEq, Repr

/-- The process has nothing more to offer: whoever joins now waits for ever. -/
def Stage.late : Stage Parent → Bool
  | .granted | .abandoned _ | .passed | .removed => true
  | _ => false

variable [DecidableEq Parent] {σ σ' : Stage Parent} {a : Signal Parent} {p : Parent}
  {word : List (Signal Parent)}

/-- The order of the signals. -/
def Stage.next : Stage Parent → Signal Parent → Option (Stage Parent)
  | .idle, .arrive p => some (.awaited p)
  | .idle, .store ec => some (.stored ec)
  | .stored _, .remove => some .removed
  | .awaited p, .store ec => some (.offered p ec)
  | .offered p ec, .take q => if q = p then some (.taken p ec) else none
  | .taken p ec, .read q v => if q = p ∧ v = ec then some (.answered p ec) else none
  | .answered p ec, .release q => if q = p ∧ ec = 0 then some (.released p) else none
  | .answered p ec, .answer q res =>
    if q = p ∧ ec ≠ 0 ∧ res = -1 then some (.abandoned ec) else none
  | .released p, .answer q res => if q = p ∧ res = 0 then some .granted else none
  | .granted, .pass => some .passed
  | .passed, .remove => some .removed
  | σ, .arrive _ => if σ.late then some σ else none
  | _, _ => none

/-- The accepted signals, one constructor each. -/
inductive Accepts : Stage Parent → Signal Parent → Stage Parent → Prop
  | arrive (p : Parent) : Accepts .idle (.arrive p) (.awaited p)
  | storeAlone (ec : Int) : Accepts .idle (.store ec) (.stored ec)
  | removeAlone (ec : Int) : Accepts (.stored ec) .remove .removed
  | store (p : Parent) (ec : Int) : Accepts (.awaited p) (.store ec) (.offered p ec)
  | take (p : Parent) (ec : Int) : Accepts (.offered p ec) (.take p) (.taken p ec)
  | read (p : Parent) (ec : Int) : Accepts (.taken p ec) (.read p ec) (.answered p ec)
  | release (p : Parent) : Accepts (.answered p 0) (.release p) (.released p)
  | abandon (p : Parent) {ec : Int} (hec : ec ≠ 0) :
      Accepts (.answered p ec) (.answer p (-1)) (.abandoned ec)
  | grant (p : Parent) : Accepts (.released p) (.answer p 0) .granted
  | pass : Accepts .granted .pass .passed
  | remove : Accepts .passed .remove .removed
  | late (p : Parent) {σ : Stage Parent} (hσ : σ.late = true) : Accepts σ (.arrive p) σ

theorem accepts_of_next (h : σ.next a = some σ') : Accepts σ a σ' := by
  unfold Stage.next at h
  split at h <;> (try split at h) <;> cases h
  case h_5.isTrue p ec q hq => exact hq ▸ .take p ec
  case h_6.isTrue p ec q v hq =>
      obtain ⟨rfl, rfl⟩ := hq
      exact .read q v
  case h_7.isTrue p ec q hq =>
      obtain ⟨rfl, rfl⟩ := hq
      exact .release q
  case h_8.isTrue p ec q res hq =>
      obtain ⟨rfl, hec, rfl⟩ := hq
      exact .abandon q hec
  case h_9.isTrue p q res hq =>
      obtain ⟨rfl, rfl⟩ := hq
      exact .grant q
  case h_12.isTrue hlate => exact .late _ hlate
  all_goals constructor

/-! ## The order of events after a wait has begun -/

open Monitor

/-- What an accepted word since `p` began to wait looks like. -/
structure Rendezvous (p : Parent) (word : List (Signal Parent)) : Prop where
  take : PrecededBy (· = .take p) (fun a => ∃ ec, a = .store ec) word
  read : ∀ v, PrecededBy (· = .read p v) (· = .store v) word
  remove : PrecededBy (· = .remove) (fun a => ∃ v, a = .read p v) word
  code : ∀ ec v, .store ec ∈ word → .read p v ∈ word → v = ec

/-- What the stage says about the word that led to it. -/
def Summary (p : Parent) (word : List (Signal Parent)) : Stage Parent → Prop
  | .idle | .stored _ => False
  | .awaited q => q = p ∧ (∀ ec, .store ec ∉ word) ∧ ∀ v, .read p v ∉ word
  | .offered q ec | .taken q ec =>
    q = p ∧ (∀ x, .store x ∈ word ↔ x = ec) ∧ ∀ v, .read p v ∉ word
  | _ => ∃ v, .read p v ∈ word

omit [DecidableEq Parent] in
/-- One more signal in the right place. -/
theorem Rendezvous.snoc (h : Rendezvous p word) (htake : a = .take p → ∃ ec, .store ec ∈ word)
    (hread : ∀ v, a = .read p v → ∀ ec, .store ec ∈ word ↔ ec = v)
    (hstore : ∀ ec, a = .store ec → ∀ v, .read p v ∉ word)
    (hremove : a = .remove → ∃ v, .read p v ∈ word) : Rendezvous p (word ++ [a]) where
  take := h.take.snoc fun ha => by
    obtain ⟨ec, hec⟩ := htake ha
    exact ⟨_, hec, ec, rfl⟩
  read v := (h.read v).snoc fun ha => ⟨_, (hread v ha v).mpr rfl, rfl⟩
  remove := h.remove.snoc fun ha => by
    obtain ⟨v, hv⟩ := hremove ha
    exact ⟨_, hv, v, rfl⟩
  code ec v hec hv := by
    rcases List.mem_append.mp hec with hec | hec <;> rcases List.mem_append.mp hv with hv | hv
    · exact h.code ec v hec hv
    · exact ((hread v (List.mem_singleton.mp hv).symm ec).mp hec).symm
    · exact absurd hv (hstore ec (List.mem_singleton.mp hec).symm v)
    · have heq := (List.mem_singleton.mp hec).trans (List.mem_singleton.mp hv).symm
      cases heq

omit [DecidableEq Parent] in
/-- After `p` has read, only signals that need no further evidence come. -/
theorem Rendezvous.afterRead (h : Rendezvous p word) (hread : ∃ v, .read p v ∈ word)
    (htake : a ≠ .take p) (hread' : ∀ v, a ≠ .read p v) (hstore : ∀ ec, a ≠ .store ec) :
    Rendezvous p (word ++ [a]) ∧ ∃ v, .read p v ∈ word ++ [a] := by
  refine ⟨h.snoc (fun ha => absurd ha htake) (fun v ha => absurd ha (hread' v))
    (fun ec ha => absurd ha (hstore ec)) (fun _ => hread), ?_⟩
  obtain ⟨v, hv⟩ := hread
  exact ⟨v, List.mem_append_left _ hv⟩

/-- Every accepted signal comes in the right place. -/
theorem rendezvous_next (h : Rendezvous p word) (hsum : Summary p word σ)
    (ha : σ.next a = some σ') : Rendezvous p (word ++ [a]) ∧ Summary p (word ++ [a]) σ' := by
  cases accepts_of_next ha with
  | arrive q => exact hsum.elim
  | storeAlone ec => exact hsum.elim
  | removeAlone ec => exact hsum.elim
  | store q ec =>
    obtain ⟨rfl, hnone, hread⟩ := hsum
    exact ⟨h.snoc (by simp) (by simp) (fun _ _ => hread) (by simp), rfl, by simp [hnone],
      by simpa using hread⟩
  | take q ec =>
    obtain ⟨rfl, hstore, hread⟩ := hsum
    exact ⟨h.snoc (fun _ => ⟨ec, (hstore ec).mpr rfl⟩) (by simp) (by simp) (by simp), rfl,
      by simpa using hstore, by simpa using hread⟩
  | read q ec =>
    obtain ⟨rfl, hstore, hread⟩ := hsum
    refine ⟨h.snoc (by simp) ?_ (by simp) (by simp), ec, by simp⟩
    intro v hv
    obtain rfl : ec = v := by simpa using hv
    exact hstore
  | late q hσ =>
    have hread : ∃ v, Signal.read p v ∈ word := by
      cases σ <;> first | exact hsum | cases hσ
    obtain ⟨hword, hread⟩ :=
      h.afterRead (a := .arrive q) hread (by simp) (by simp) (by simp)
    refine ⟨hword, ?_⟩
    cases σ <;> first | exact hread | cases hσ
  | _ => exact h.afterRead hsum (by simp) (by simp) (by simp)

/-- From the moment `p` waits for a process, `p` returns from its wait only after the process has
stored its exit code, reads that code, and the process is removed only after `p` has read. -/
theorem rendezvous_of_run (h : run Stage.next (.awaited p) word = some σ) : Rendezvous p word := by
  have hstart : Rendezvous p [] ∧ Summary p [] (.awaited p) :=
    ⟨⟨precededBy_nil _ _, fun _ => precededBy_nil _ _, precededBy_nil _ _, by simp⟩, rfl,
      by simp, by simp⟩
  have hrun : Rendezvous p word ∧ Summary p word σ := by
    apply run_induction h hstart
    intro w s a s' hw ha
    exact rendezvous_next hw.1 hw.2 ha
  exact hrun.1

/-! ## What an answer tells -/

/-- The word of a process that has been released: it exited with code 0, and whoever was answered
was answered 0 and had signalled it. -/
structure Granted (word : List (Signal Parent)) : Prop where
  store : .store 0 ∈ word
  answer : ∀ p res, .answer p res ∈ word → res = 0 ∧ .release p ∈ word

/-- Nobody has been released or answered. -/
structure Unanswered (word : List (Signal Parent)) : Prop where
  release : ∀ p, .release p ∉ word
  answer : ∀ p res, .answer p res ∉ word

/-- What the stage says about the whole history of the process. -/
def History (word : List (Signal Parent)) : Stage Parent → Prop
  | .idle | .awaited _ => (∀ ec, .store ec ∉ word) ∧ Unanswered word
  | .stored ec | .offered _ ec | .taken _ ec | .answered _ ec =>
    (∀ x, .store x ∈ word ↔ x = ec) ∧ Unanswered word
  | .released p => .store 0 ∈ word ∧ .release p ∈ word ∧ ∀ q res, .answer q res ∉ word
  | .abandoned ec => ec ≠ 0 ∧ (∀ x, .store x ∈ word ↔ x = ec) ∧ ∀ p, .release p ∉ word
  | .granted | .passed => Granted word
  | .removed => Granted word ∨ Unanswered word

omit [DecidableEq Parent] in
theorem Unanswered.snoc (h : Unanswered word) (hrelease : ∀ p, a ≠ .release p)
    (hanswer : ∀ p res, a ≠ .answer p res) :
    Unanswered (word ++ [a]) where
  release p hp := by
    rcases List.mem_append.mp hp with hp | hp
    · exact h.release p hp
    · exact hrelease p (List.mem_singleton.mp hp).symm
  answer p res hp := by
    rcases List.mem_append.mp hp with hp | hp
    · exact h.answer p res hp
    · exact hanswer p res (List.mem_singleton.mp hp).symm

omit [DecidableEq Parent] in
theorem Granted.snoc (h : Granted word) (ha : ∀ p res, a ≠ .answer p res) :
    Granted (word ++ [a]) where
  store := List.mem_append_left _ h.store
  answer p res hp := by
    rcases List.mem_append.mp hp with hp | hp
    · exact ⟨(h.answer p res hp).1, List.mem_append_left _ (h.answer p res hp).2⟩
    · exact absurd (List.mem_singleton.mp hp).symm (ha p res)

theorem history_next (h : History word σ) (ha : σ.next a = some σ') : History (word ++ [a]) σ' := by
  cases accepts_of_next ha with
  | arrive p => exact ⟨by simpa using h.1, h.2.snoc (by simp) (by simp)⟩
  | storeAlone ec => exact ⟨by simp [h.1], h.2.snoc (by simp) (by simp)⟩
  | store p ec => exact ⟨by simp [h.1], h.2.snoc (by simp) (by simp)⟩
  | removeAlone ec => exact .inr (h.2.snoc (by simp) (by simp))
  | take p ec => exact ⟨by simpa using h.1, h.2.snoc (by simp) (by simp)⟩
  | read p ec => exact ⟨by simpa using h.1, h.2.snoc (by simp) (by simp)⟩
  | release p =>
    exact ⟨List.mem_append_left _ ((h.1 0).mpr rfl), by simp, by simpa using h.2.answer⟩
  | abandon p hec => exact ⟨hec, by simpa using h.1, by simpa using h.2.release⟩
  | grant p =>
    obtain ⟨hstore, hrelease, hanswer⟩ := h
    refine ⟨List.mem_append_left _ hstore, ?_⟩
    intro q res hq
    obtain ⟨rfl, rfl⟩ : q = p ∧ res = 0 := by simpa [hanswer] using hq
    exact ⟨rfl, List.mem_append_left _ hrelease⟩
  | pass => exact Granted.snoc h (by simp)
  | remove => exact .inl (Granted.snoc h (by simp))
  | late p hσ =>
    cases σ with
    | granted => exact Granted.snoc h (by simp)
    | passed => exact Granted.snoc h (by simp)
    | removed =>
      exact h.imp (Granted.snoc · (by simp)) (Unanswered.snoc · (by simp) (by simp))
    | abandoned ec => exact ⟨h.1, by simpa using h.2.1, by simpa using h.2.2⟩
    | _ => cases hσ

/-- The history of a process, from its first signal on. -/
theorem history_of_run (h : run Stage.next .idle word = some σ) : History word σ := by
  apply run_induction h
  · exact ⟨by simp, by simp, by simp⟩
  · intro w s a s' hw ha
    exact history_next hw ha

/-- Somebody who was answered has signalled the process, which is then free to go, and the answer is
its exit code; or that code was not 0. -/
theorem released_of_run {res : Int} (h : run Stage.next .idle word = some σ)
    (hp : .answer p res ∈ word) :
    (.release p ∈ word ∧ .store 0 ∈ word ∧ res = 0 ∧
        (σ = .granted ∨ σ = .passed ∨ σ = .removed)) ∨
      ∃ ec, ec ≠ 0 ∧ .store ec ∈ word := by
  have hgranted : Granted word → (σ = .granted ∨ σ = .passed ∨ σ = .removed) →
      .release p ∈ word ∧ .store 0 ∈ word ∧ res = 0 ∧
        (σ = .granted ∨ σ = .passed ∨ σ = .removed) := fun hw hσ =>
    ⟨(hw.answer p res hp).2, hw.store, (hw.answer p res hp).1, hσ⟩
  have hhist := history_of_run h
  cases σ with
  | idle => exact absurd hp (hhist.2.answer p res)
  | awaited q => exact absurd hp (hhist.2.answer p res)
  | stored ec => exact absurd hp (hhist.2.answer p res)
  | offered q ec => exact absurd hp (hhist.2.answer p res)
  | taken q ec => exact absurd hp (hhist.2.answer p res)
  | answered q ec => exact absurd hp (hhist.2.answer p res)
  | released q => exact absurd hp (hhist.2.2 p res)
  | granted => exact .inl (hgranted hhist (by simp))
  | passed => exact .inl (hgranted hhist (by simp))
  | abandoned ec =>
    obtain ⟨hec, hstore, -⟩ := hhist
    exact .inr ⟨ec, hec, (hstore ec).mpr rfl⟩
  | removed =>
    rcases hhist with hhist | hhist
    · exact .inl (hgranted hhist (by simp))
    · exact absurd hp (hhist.answer p res)

end Nachos.Handshake
