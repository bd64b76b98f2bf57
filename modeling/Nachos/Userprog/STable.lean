import Mathlib.Logic.Function.Basic
import Nachos.Threads.SemaphoreRuns
import Nachos.Userprog.Bitmap
import Nachos.Userprog.Syscalls

/-!
# User semaphores: the table of `userprog/stable.cc`

`STable` keeps up to ten semaphores under the names that processes gave them. The system here is
the table under the system calls `CreateSemaphore`, `Up` and `Down` of any threads: a call finds a
slot by the name that its handler copied from user space, and then takes a step of the semaphore
in that slot (`Semaphore.step`). The `Sem` constructor copies the name into a field of 50 bytes
with `strcpy`; a longer name runs over it, which has no defined continuation.

`slot_counts` is the behaviour of one slot in the table: it is that of a semaphore alone, whatever
happens to the others.
-/

namespace Nachos

open Transition Function Semaphore

/-- `MAX_SEMAPHORE` of `stable.h`. -/
abbrev MAX_SEMAPHORE : Nat := 10

/-- The size of the field `name` of `Sem`. -/
def NAME_SIZE : Nat := 50

/-- A `Sem` that has been constructed: its name and the terminator fit into the field. -/
structure Sem (T : Type*) where
  name : List Byte
  fits : name.length < NAME_SIZE
  sem : Semaphore.Shared T

/-- `STable`. Bits and pointers agree, and no two semaphores have one name. -/
structure STable (T : Type*) where
  bm : BitMap
  semTab : Fin MAX_SEMAPHORE → Option (Sem T)
  size : bm.numBits = MAX_SEMAPHORE
  used : ∀ i : Fin MAX_SEMAPHORE, bm.bit i = (semTab i).isSome
  distinct : ∀ i j a b, semTab i = some a → semTab j = some b → a.name = b.name → i = j

namespace STable

variable {T : Type*} {st st' : STable T} {name : List Byte} {i : Fin MAX_SEMAPHORE} {v : Int}
  {e : Sem T} {j : Fin MAX_SEMAPHORE}

/-- `STable::STable`. -/
def new (raw : Nat → BitVec 32) : STable T where
  bm := .new MAX_SEMAPHORE raw
  semTab := fun _ => none
  size := BitMap.new_numBits ..
  used i := BitMap.bit_new i.isLt raw
  distinct _ _ _ _ h := nomatch h

/-- The test in the loops over the slots: the slot is in use and its name equal by `strcmp`. -/
def named (st : STable T) (name : List Byte) (i : Fin MAX_SEMAPHORE) : Bool :=
  st.bm.bit i && (st.semTab i).any fun e => decide (name = e.name)

/-- The loop that `Create`, `Wait` and `Signal` have in common. -/
def find (st : STable T) (name : List Byte) : Option (Fin MAX_SEMAPHORE) :=
  (List.finRange MAX_SEMAPHORE).find? (st.named name)

theorem named_iff : st.named name i = true ↔ ∃ e, st.semTab i = some e ∧ e.name = name := by
  rw [named, st.used i]
  cases st.semTab i <;> simp [eq_comm]

/-- The slot found is the one with the name. -/
theorem find_eq_some : st.find name = some i ↔ ∃ e, st.semTab i = some e ∧ e.name = name := by
  constructor
  · intro h
    exact named_iff.mp (List.find?_some h)
  · rintro ⟨e, he, hname⟩
    cases hfind : st.find name with
    | none =>
      have hno := List.find?_eq_none.mp hfind i (List.mem_finRange i)
      exact absurd (named_iff.mpr ⟨e, he, hname⟩) hno
    | some j =>
      obtain ⟨e', he', hname'⟩ := named_iff.mp (List.find?_some hfind)
      rw [st.distinct j i e' e he' he (hname'.trans hname.symm)]

/-- No slot is found exactly if no semaphore has the name. -/
theorem find_eq_none : st.find name = none ↔ ∀ i e, st.semTab i = some e → e.name ≠ name := by
  rw [Option.eq_none_iff_forall_ne_some]
  constructor
  · intro h i e he hname
    exact h i (find_eq_some.mpr ⟨e, he, hname⟩)
  · intro h i hi
    obtain ⟨e, he, hname⟩ := find_eq_some.mp hi
    exact h i e he hname

/-- What `FindFreeSlot` answers if it does not answer `-1`. -/
theorem free_slot (h : ¬ st.bm.findFreeSlot.1 < 0) :
    ∃ i : Fin MAX_SEMAPHORE, st.bm.findFreeSlot = (((i : Nat) : Int), st.bm.markBit i) ∧
      st.semTab i = none := by
  rcases st.bm.findFreeSlot_cases with ⟨i, hi, hbit, hslot⟩ | ⟨-, hslot⟩
  · rw [st.size] at hi
    refine ⟨⟨i, hi⟩, hslot, ?_⟩
    have hused := st.used ⟨i, hi⟩
    rw [hbit] at hused
    exact Option.isSome_eq_false_iff.mp hused.symm |> Option.isNone_iff_eq_none.mp
  · rw [hslot] at h
    exact absurd (show (-1 : Int) < 0 by decide) h

/-- `FindFreeSlot` answers `-1` exactly if every slot is in use. -/
theorem full_iff : st.bm.findFreeSlot.1 < 0 ↔ ∀ i, st.semTab i ≠ none := by
  constructor
  · intro hid i hi
    rcases st.bm.findFreeSlot_cases with ⟨j, -, -, hslot⟩ | ⟨hfull, -⟩
    · rw [hslot] at hid
      omega
    · have hbit := hfull i (by rw [st.size]; exact i.isLt)
      rw [st.used, hi] at hbit
      cases hbit
  · intro hfull
    by_contra hid
    obtain ⟨i, -, hi⟩ := free_slot hid
    exact hfull i hi

/-- The table with a new semaphore in a free slot. -/
def store (st : STable T) (i : Fin MAX_SEMAPHORE) (e : Sem T) (hnew : st.find e.name = none) :
    STable T where
  bm := st.bm.markBit i
  semTab := update st.semTab i (some e)
  size := st.size
  used j := by
    rw [BitMap.bit_markBit (by rw [st.size]; exact i.isLt), st.used j]
    by_cases hji : j = i
    · simp [hji]
    · simp [hji, Fin.val_inj]
  distinct j k a b ha hb hname := by
    have hother := find_eq_none.mp hnew
    by_cases hj : j = i <;> by_cases hk : k = i
    · rw [hj, hk]
    · subst hj
      rw [update_self, Option.some.injEq] at ha
      rw [update_of_ne hk] at hb
      exact absurd (ha ▸ hname.symm) (hother k b hb)
    · subst hk
      rw [update_self, Option.some.injEq] at hb
      rw [update_of_ne hj] at ha
      exact absurd (hb ▸ hname) (hother j a ha)
    · rw [update_of_ne hj] at ha
      rw [update_of_ne hk] at hb
      exact st.distinct j k a b ha hb hname

/-- `STable::Create`: the slot of the new semaphore, or no slot for the answer `-1`. The whole is
`none` if `strcpy` runs over the field. -/
def create (st : STable T) (name : List Byte) (init : Int) :
    Option (Option (Fin MAX_SEMAPHORE) × STable T) :=
  match hnew : st.find name with
  | some _ => some (none, st)
  | none =>
    let id := st.bm.findFreeSlot.1
    if hid : id < 0 then some (none, st)
    else if fits : name.length < NAME_SIZE then
      let slot : Fin MAX_SEMAPHORE := ⟨id.toNat, by
        obtain ⟨i, hi, -⟩ := free_slot hid
        have hid : id = ((i : Nat) : Int) := congrArg Prod.fst hi
        rw [hid, Int.toNat_natCast]
        exact i.isLt⟩
      some (some slot, st.store slot ⟨name, fits, .new init⟩ hnew)
    else none

/-- The table after a step of the semaphore in a slot. -/
def setSem (st : STable T) (i : Fin MAX_SEMAPHORE) (sem : Semaphore.Shared T) : STable T where
  bm := st.bm
  semTab := update st.semTab i ((st.semTab i).map fun e => { e with sem := sem })
  size := st.size
  used j := by
    by_cases hji : j = i
    · subst hji
      rw [st.used, update_self, Option.isSome_map]
    · rw [st.used, update_of_ne hji]
  distinct j k a b ha hb hname := by
    have hback : ∀ l c, update st.semTab i
        ((st.semTab i).map fun e => { e with sem := sem }) l = some c →
        ∃ c', st.semTab l = some c' ∧ c'.name = c.name := by
      intro l c hc
      by_cases hl : l = i
      · subst hl
        rw [update_self] at hc
        obtain ⟨c', hc', rfl⟩ := Option.map_eq_some_iff.mp hc
        exact ⟨c', hc', rfl⟩
      · rw [update_of_ne hl] at hc
        exact ⟨c, hc, rfl⟩
    obtain ⟨a', ha', hna⟩ := hback j a ha
    obtain ⟨b', hb', hnb⟩ := hback k b hb
    exact st.distinct j k a' b' ha' hb' (hna.trans (hname.trans hnb.symm))

/-- What `Create` can do. -/
theorem create_cases {init : Int} {r : Option (Fin MAX_SEMAPHORE)}
    (h : st.create name init = some (r, st')) :
    (r = none ∧ st' = st) ∨ ∃ i fits hnew, r = some i ∧ st.semTab i = none ∧
      st' = st.store i ⟨name, fits, .new init⟩ hnew := by
  unfold create at h
  split at h
  · obtain ⟨rfl, rfl⟩ := Prod.mk.inj (Option.some.inj h)
    exact .inl ⟨rfl, rfl⟩
  · rename_i hnew
    dsimp only at h
    split_ifs at h with hid fits
    · obtain ⟨rfl, rfl⟩ := Prod.mk.inj (Option.some.inj h)
      exact .inl ⟨rfl, rfl⟩
    · obtain ⟨rfl, rfl⟩ := Prod.mk.inj (Option.some.inj h)
      refine .inr ⟨_, fits, hnew, rfl, ?_, rfl⟩
      obtain ⟨i, hi, hfree⟩ := free_slot hid
      convert hfree using 2
      simp [hi]

@[simp] theorem store_semTab (st : STable T) (i : Fin MAX_SEMAPHORE) (e : Sem T)
    (hnew : st.find e.name = none) :
    (st.store i e hnew).semTab = update st.semTab i (some e) := rfl

theorem setSem_self (h : st.semTab i = some e) (sem : Semaphore.Shared T) :
    (st.setSem i sem).semTab i = some { e with sem := sem } := by
  have hslot : (st.setSem i sem).semTab i = (st.semTab i).map fun e => { e with sem := sem } :=
    update_self ..
  rw [hslot, h]
  rfl

theorem setSem_of_ne (h : j ≠ i) (sem : Semaphore.Shared T) :
    (st.setSem i sem).semTab j = st.semTab j :=
  update_of_ne h _ _

/-! ## The system calls on the table -/

/-- A system call with the string that the process passes. -/
inductive SemCall where
  | CreateSemaphore (name : List Byte) (semval : BitVec 32)
  | Up (name : List Byte)
  | Down (name : List Byte)
  deriving DecidableEq, Repr

/-- The name that the handler has after `User2System`. -/
def SemCall.copied : SemCall → List Byte
  | .CreateSemaphore name _ => name.take (MAX_FILENAME_LEN + 1).toNat
  | .Up name => name.take (MaxFileLength + 1).toNat
  | .Down name => name.take (MaxFileLength + 1).toNat

/-- A thread makes a system call, or a thread woken in the semaphore of a slot runs the loop test
of its `P` again. -/
inductive Act (T : Type*) where
  | call (t : T) (c : SemCall)
  | retest (t : T) (i : Fin MAX_SEMAPHORE)
  deriving DecidableEq, Repr

/-- A semaphore made under a name, with the slot it is in; what happens at the semaphore of a
slot; a call that returns `-1`. -/
inductive Event (T : Type*) where
  | created (name : List Byte) (semval : Int) (i : Fin MAX_SEMAPHORE)
  | acted (i : Fin MAX_SEMAPHORE) (event : Semaphore.Event T)
  | refused (c : SemCall)
  deriving DecidableEq, Repr

/-- The events at the semaphore of one slot. -/
def eventsAt (i : Fin MAX_SEMAPHORE) (trace : List (Event T)) : List (Semaphore.Event T) :=
  trace.filterMap fun
    | .acted j event => if j = i then some event else none
    | _ => none

variable [DecidableEq T]

/-- The thread is inside a `P` of some semaphore of the table. -/
def asleep (st : STable T) (t : T) : Bool :=
  (List.finRange MAX_SEMAPHORE).any fun i =>
    (st.semTab i).any fun e => decide (t ∈ e.sem.sem.queue ∨ t ∈ e.sem.woken)

/-- A step of the semaphore in a slot. -/
def act (st : STable T) (i : Fin MAX_SEMAPHORE) (a : Semaphore.Act T) :
    Option (List (Event T) × STable T) :=
  match st.semTab i with
  | none => none
  | some e => (Semaphore.step e.sem a).map fun r => (r.1.map (.acted i), st.setSem i r.2)

/-- `STable::Wait` and `STable::Signal`, up to the point where the semaphore lets go of the
processor. -/
def use (st : STable T) (c : SemCall) (a : Semaphore.Act T) :
    Option (List (Event T) × STable T) :=
  match st.find c.copied with
  | none => some ([.refused c], st)
  | some i => st.act i a

/-- One section with interrupts off. -/
def step : Step (STable T) (Act T) (Event T)
  | st, .call t c =>
    if st.asleep t then none
    else match c with
      | .CreateSemaphore name semval => match st.create c.copied semval.toInt with
          | none => none
          | some (none, st') => some ([.refused c], st')
          | some (some i, st') => some ([.created name semval.toInt i], st')
      | .Up _ => st.use c .V
      | .Down _ => st.use c (.P t)
  | st, .retest t i => st.act i (.retest t)

/-- A call of `Up` that finds the semaphore of a slot. -/
def UpOn (st : STable T) (i : Fin MAX_SEMAPHORE) (a : Act T) : Prop :=
  ∃ t name, a = .call t (.Up name) ∧ st.find (SemCall.Up name).copied = some i

/-- The semaphore of one slot takes a step in answer to an action. -/
def Acted (st : STable T) (a : Act T) (events : List (Event T)) (st' : STable T) : Prop :=
  ∃ i b e evs sem, st.semTab i = some e ∧ Semaphore.step e.sem b = some (evs, sem) ∧
    (b = .V → UpOn st i a) ∧ events = evs.map (.acted i) ∧ st' = st.setSem i sem

variable {a : Act T} {events trace : List (Event T)}

variable {b : Semaphore.Act T}

theorem acted_of_act (hup : b = .V → UpOn st i a) (h : st.act i b = some (events, st')) :
    Acted st a events st' := by
  unfold act at h
  split at h
  · cases h
  · rename_i e he
    obtain ⟨⟨evs, sem⟩, hstep, heq⟩ := Option.map_eq_some_iff.mp h
    obtain ⟨rfl, rfl⟩ := Prod.mk.inj heq
    exact ⟨i, b, e, evs, sem, he, hstep, hup, rfl, rfl⟩

theorem use_cases {c : SemCall} (hup : ∀ i, st.find c.copied = some i → b = .V → UpOn st i a)
    (h : st.use c b = some (events, st')) :
    (∃ c, events = [.refused c] ∧ st' = st) ∨ Acted st a events st' := by
  unfold use at h
  split at h
  · obtain ⟨rfl, rfl⟩ := Prod.mk.inj (Option.some.inj h)
    exact .inl ⟨c, rfl, rfl⟩
  · rename_i i hfind
    exact .inr (acted_of_act (hup i hfind) h)

/-- What a step does: a call is refused, a semaphore is made in a free slot, or the semaphore of
one slot takes a step. -/
theorem step_cases (h : step st a = some (events, st')) :
    (∃ c, events = [.refused c] ∧ st' = st) ∨
      (∃ name semval i fits hnew, events = [.created name semval.toInt i] ∧
        st.semTab i = none ∧ st' = st.store i
          ⟨(SemCall.CreateSemaphore name semval).copied, fits, .new semval.toInt⟩ hnew) ∨
      Acted st a events st' := by
  cases a with
  | retest t i =>
    have h : st.act i (.retest t) = some (events, st') := h
    exact .inr (.inr (acted_of_act (by rintro ⟨⟩) h))
  | call t c =>
    simp only [step] at h
    split at h
    · cases h
    · cases c with
      | CreateSemaphore name semval =>
        dsimp only at h
        split at h
        · cases h
        · rename_i st'' hcreate
          obtain ⟨rfl, rfl⟩ := Prod.mk.inj (Option.some.inj h)
          rcases create_cases hcreate with ⟨-, rfl⟩ | ⟨i, -, -, hi, -⟩
          · exact .inl ⟨_, rfl, rfl⟩
          · cases hi
        · rename_i i st'' hcreate
          obtain ⟨rfl, rfl⟩ := Prod.mk.inj (Option.some.inj h)
          rcases create_cases hcreate with ⟨hi, -⟩ | ⟨j, fits, hnew, hj, hfree, rfl⟩
          · cases hi
          · cases hj
            exact .inr (.inl ⟨name, semval, i, fits, hnew, rfl, hfree, rfl⟩)
      | Up name => exact (use_cases (fun i hi _ => ⟨t, name, rfl, hi⟩) h).imp_right .inr
      | Down name =>
        have h : st.use (.Down name) (.P t) = some (events, st') := h
        exact (use_cases (by rintro _ _ ⟨⟩) h).imp_right .inr

/-! ## One slot -/

/-- The counter of the semaphore in a slot. -/
def value (st : STable T) (i : Fin MAX_SEMAPHORE) : Option Int :=
  (st.semTab i).map fun e => e.sem.sem.value

/-- No `Up` of the semaphore in slot `i` takes its counter past `INT_MAX`. -/
def InRange (i : Fin MAX_SEMAPHORE) (st : STable T) (a : Act T) : Prop :=
  UpOn st i a → st.value i ≠ some INT_MAX

/-- `UpOn` is decided by looking the name up. -/
instance UpOn.decidable (st : STable T) (i : Fin MAX_SEMAPHORE) (a : Act T) :
    Decidable (UpOn st i a) :=
  match a with
  | .call t (.Up name) => decidable_of_iff (st.find (SemCall.Up name).copied = some i)
      ⟨fun h => ⟨t, name, rfl, h⟩, fun ⟨_, _, ha, h⟩ => by cases ha; exact h⟩
  | .call _ (.CreateSemaphore _ _) => isFalse fun ⟨_, _, ha, _⟩ => nomatch ha
  | .call _ (.Down _) => isFalse fun ⟨_, _, ha, _⟩ => nomatch ha
  | .retest _ _ => isFalse fun ⟨_, _, ha, _⟩ => nomatch ha

/-- `InRange` is decided by a comparison. -/
instance InRange.decidable (i : Fin MAX_SEMAPHORE) (st : STable T) (a : Act T) :
    Decidable (InRange i st a) :=
  inferInstanceAs (Decidable (UpOn st i a → st.value i ≠ some INT_MAX))

/-- The semaphore in slot `i`, made with `v`, has counted what happened at it. -/
def Counted (i : Fin MAX_SEMAPHORE) (v : Int) (trace : List (Event T)) (st : STable T) : Prop :=
  ∃ e, st.semTab i = some e ∧ Semaphore.Counted v (eventsAt i trace) e.sem

omit [DecidableEq T] in
theorem eventsAt_append (i : Fin MAX_SEMAPHORE) (trace events : List (Event T)) :
    eventsAt i (trace ++ events) = eventsAt i trace ++ eventsAt i events :=
  List.filterMap_append

omit [DecidableEq T] in
theorem eventsAt_acted (i : Fin MAX_SEMAPHORE) (evs : List (Semaphore.Event T)) :
    eventsAt i (evs.map (.acted i)) = evs := by
  simp [eventsAt, List.filterMap_map]

omit [DecidableEq T] in
theorem eventsAt_acted_of_ne (h : j ≠ i) (evs : List (Semaphore.Event T)) :
    eventsAt i (evs.map (.acted j)) = [] := by
  simp [eventsAt, List.filterMap_map, h]

/-- A step of the table is a step of the semaphore in the slot, or leaves it alone. -/
theorem counted_step (h : Counted i v trace st) (hok : InRange i st a)
    (hs : step st a = some (events, st')) : Counted i v (trace ++ events) st' := by
  obtain ⟨e, he, hcount⟩ := h
  -- nothing happens at the slot
  have hkeep : st'.semTab i = st.semTab i → eventsAt i events = [] →
      Counted i v (trace ++ events) st' := by
    intro hslot hevents
    refine ⟨e, hslot.trans he, ?_⟩
    rwa [eventsAt_append, hevents, List.append_nil]
  rcases step_cases hs with ⟨c, rfl, rfl⟩ | ⟨name, semval, j, fits, hnew, rfl, hfree, rfl⟩ |
    ⟨j, b, e', evs, sem, he', hsem, hup, rfl, rfl⟩
  · exact hkeep rfl rfl
  · have hne : i ≠ j := by
      rintro rfl
      rw [he] at hfree
      cases hfree
    exact hkeep (update_of_ne hne _ _) rfl
  · by_cases hji : j = i
    · subst hji
      obtain rfl : e = e' := Option.some.inj (he.symm.trans he')
      refine ⟨_, setSem_self he sem, ?_⟩
      rw [eventsAt_append, eventsAt_acted]
      refine counted_step hcount ?_ hsem
      cases b with
      | V =>
        have hmax : e.sem.sem.value ≠ INT_MAX := by
          simpa [value, he] using hok (hup rfl)
        exact lt_of_le_of_ne hcount.small hmax
      | _ => exact True.intro
    · exact hkeep (setSem_of_ne (Ne.symm hji) sem) (eventsAt_acted_of_ne hji evs)

/-- An `Up` at the largest `int` makes the counter negative. -/
theorem up_at_max (hup : UpOn st i a) (hmax : st.value i = some INT_MAX)
    (hs : step st a = some (events, st')) :
    ∃ e', st'.semTab i = some e' ∧ e'.sem.sem.value < 0 := by
  obtain ⟨t, name, rfl, hfind⟩ := hup
  obtain ⟨e, he, hmax⟩ := Option.map_eq_some_iff.mp hmax
  simp only [step] at hs
  split at hs
  · cases hs
  · simp only [use, hfind, act, he, Semaphore.step, Option.map_some, Option.some.injEq] at hs
    obtain ⟨-, rfl⟩ := Prod.mk.inj hs
    refine ⟨_, setSem_self he _, ?_⟩
    simp only [Semaphore.Shared.release, Semaphore.V, hmax]
    exact wrapInt_INT_MAX_succ

omit [DecidableEq T] in
/-- The semaphore just made. -/
theorem counted_new (he : st.semTab i = some e) (hsem : e.sem = .new v) (hv : 0 ≤ v)
    (hmax : v ≤ INT_MAX) : Counted i v [] st := by
  refine ⟨e, he, ?_⟩
  rw [hsem]
  refine ⟨by simp [Semaphore.Shared.new, Semaphore.new, Semaphore.balance, eventsAt], hv, hmax,
    fun hq => absurd rfl hq, by simp [Semaphore.Shared.new, Semaphore.new]⟩

/-- What the users of a semaphore made with `v` count on: its value is not negative, and no more
calls of `Down` have completed than `v` and the calls of `Up` allow. -/
def Counts (i : Fin MAX_SEMAPHORE) (v : Int) (trace : List (Event T)) (st : STable T) : Prop :=
  ∃ e, st.semTab i = some e ∧ 0 ≤ e.sem.sem.value ∧
    ((eventsAt i trace).countP Semaphore.Event.isCompleted : Int) ≤
      max v 0 + (eventsAt i trace).countP Semaphore.Event.isReleased

omit [DecidableEq T] in
theorem Counted.counts (h : Counted i v trace st) : Counts i v trace st := by
  obtain ⟨e, he, hcount⟩ := h
  refine ⟨e, he, hcount.nonneg, ?_⟩
  have hvalue := hcount.value
  have hnonneg := hcount.nonneg
  rw [hvalue, Semaphore.balance] at hnonneg
  omega

/-- What a `CreateSemaphore` that returns 0 has put into its slot. -/
theorem created_slot {st₀ : STable T} {semval : Int}
    (h : step st₀ a = some ([.created name semval i], st)) :
    ∃ e, st.semTab i = some e ∧ e.sem = .new semval := by
  rcases step_cases h with ⟨c, hc, -⟩ | ⟨n, v, j, fits, hnew, heq, -, rfl⟩ |
    ⟨j, b, e, evs, sem, -, -, -, hevs, -⟩
  · cases hc
  · cases heq
    exact ⟨_, update_self .., rfl⟩
  · cases evs <;> cases hevs

/-- If the counter is never negative, no `Up` has found it at `INT_MAX`. -/
theorem allowed_of_counts {acts : List (Act T)} (hexec : execute step st acts = some (trace, st'))
    (h : ∀ done rest, acts = done ++ rest → ∀ tr s, execute step st done = some (tr, s) →
      Counts i v tr s) : Allowed step (InRange i) st acts := by
  refine allowed_of_turns fun done act rest hacts tr s hdone hup hvalue => ?_
  -- the action has taken place, and left the counter negative
  rw [hacts, execute_append, hdone] at hexec
  obtain ⟨q, hq, -⟩ := Option.map_eq_some_iff.mp hexec
  simp only [execute, Option.bind_eq_bind, Option.bind_eq_some_iff] at hq
  obtain ⟨⟨events, s'⟩, hs, -⟩ := hq
  obtain ⟨e, he, hneg⟩ := up_at_max hup hvalue hs
  have hstep : execute step st (done ++ [act]) = some (tr ++ events, s') := by
    rw [execute_append, hdone]
    simp [execute, hs]
  obtain ⟨e', he', hpos, -⟩ := h (done ++ [act]) rest (by simp [hacts]) _ _ hstep
  obtain rfl : e = e' := Option.some.inj (he.symm.trans he')
  omega

/-- For every `CreateSemaphore` that returns 0, with any value, and every schedule of calls by any
threads on any of the semaphores: the value of the new semaphore is never negative and the
completed calls of `Down` stay within the initial value and the calls of `Up`, exactly if the
initial value is not negative and no `Up` finds the counter at `INT_MAX`. -/
theorem user_semaphore_counts_iff {st₀ st st' : STable T} {t : T} {name : List Byte}
    {semval : BitVec 32} {i : Fin MAX_SEMAPHORE} {acts : List (Act T)} {trace : List (Event T)}
    (hcreate : step st₀ (.call t (.CreateSemaphore name semval)) =
      some ([.created name semval.toInt i], st))
    (hexec : execute step st acts = some (trace, st')) :
    (∀ done rest, acts = done ++ rest → ∀ tr s, execute step st done = some (tr, s) →
        Counts i semval.toInt tr s) ↔
      0 ≤ semval.toInt ∧ Allowed step (InRange i) st acts := by
  obtain ⟨e, he, hsem⟩ := created_slot hcreate
  constructor
  · intro h
    refine ⟨?_, allowed_of_counts hexec h⟩
    obtain ⟨e', he', hvalue, -⟩ := h [] acts rfl [] st rfl
    obtain rfl : e = e' := Option.some.inj (he.symm.trans he')
    rwa [hsem] at hvalue
  · rintro ⟨hnonneg, hallowed⟩ done rest rfl tr s hdone
    have hmax : semval.toInt ≤ INT_MAX := by
      have := BitVec.toInt_lt (x := semval)
      unfold INT_MAX
      omega
    have hcounted : Counted i semval.toInt tr s :=
      (run_of_execute hdone hallowed.left).traceInvariant (counted_new he hsem hnonneg hmax)
        fun tr s act events t hinv hok hs => counted_step hinv hok hs
    exact hcounted.counts

/-- The table after thread 0 has made a first semaphore, under the name `m`. -/
def single (semval : BitVec 32) : STable Nat :=
  (STable.new fun _ => 0).store 0 ⟨[109], by decide, .new semval.toInt⟩
    (find_eq_none.mpr fun _ _ h => nomatch h)

theorem single_created (semval : BitVec 32) :
    step (STable.new fun _ => 0) (.call 0 (.CreateSemaphore [109] semval)) =
      some ([.created [109] semval.toInt 0], single semval) := rfl

/-- A binary semaphore: thread 0 takes the unit, thread 1 sleeps, an `Up` wakes it and it
completes. -/
theorem user_semaphore_counts_binary : ∃ acts trace st,
    execute step (single 1) acts = some (trace, st) ∧
    (eventsAt 0 trace).countP Semaphore.Event.isCompleted = 2 ∧ Counts 0 1 trace st := by
  let acts : List (Act Nat) :=
    [.call 0 (.Down [109]), .call 1 (.Down [109]), .call 0 (.Up [109]), .retest 1 0]
  have hobserved : (execute step (single 1) acts).map (fun r => (r.1, r.2.value 0)) =
      some ([.acted 0 (.completed 0), .acted 0 (.slept 1), .acted 0 .released,
        .acted 0 (.completed 1)], some 0) := by decide +kernel
  obtain ⟨st, hexec, -⟩ := execute_observed (fun st : STable Nat => st.value 0) hobserved
  have hallowed : Allowed step (InRange 0) (single 1) acts := by decide +kernel
  have hcounts := (user_semaphore_counts_iff (single_created 1) hexec).mpr ⟨by decide, hallowed⟩
  exact ⟨acts, _, st, hexec, by decide, hcounts acts [] (List.append_nil _).symm _ _ hexec⟩

/-- A semaphore made with -1 has a negative value at once, and a `Down` completes although nobody
has called `Up`; one made with `INT_MAX` gets a negative value by an `Up`. -/
theorem user_semaphore_miscounts :
    (∃ st st', step (STable.new fun _ => 0) (.call 0 (.CreateSemaphore [109] (-1))) =
        some ([.created [109] (-1) 0], st) ∧
      st.value 0 = some (-1) ∧ step st (.call 0 (.Down [109])) =
        some ([.acted 0 (.completed (0 : Nat))], st') ∧
      ¬ Counts 0 (-1) [.acted 0 (.completed 0)] st') ∧
    ∃ st st', step (STable.new fun _ => 0) (.call 0 (.CreateSemaphore [109] 0x7fffffff)) =
        some ([.created [109] INT_MAX 0], st) ∧
      step st (.call (0 : Nat) (.Up [109])) = some ([.acted 0 .released], st') ∧
      st'.value 0 = some (-2 ^ 31) := by
  refine ⟨⟨single (-1), (single (-1)).setSem 0 ⟨⟨-2, []⟩, []⟩, single_created (-1), rfl, rfl, ?_⟩,
    ⟨single 0x7fffffff, (single 0x7fffffff).setSem 0 ⟨⟨-2 ^ 31, []⟩, []⟩,
      single_created 0x7fffffff, rfl, rfl⟩⟩
  rintro ⟨e, -, -, hcount⟩
  exact absurd hcount (by decide)

end STable

end Nachos
