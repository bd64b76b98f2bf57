import Nachos.Userprog.STable
import Nachos.Userprog.UserCopy

/-!
# The names of user semaphores

`CreateSemaphore` copies up to `MAX_FILENAME_LEN + 1` characters of its name, `Up` and `Down` only
`MaxFileLength + 1`. `handler_requests` takes this from the handlers: with the string in mapped
memory they call the table with `SemCall.copied`. Over runs of the table, `names_resolve_iff` says
for which strings the two lengths make no difference.
-/

namespace Nachos.STable

open Transition Syscall

/-! ## From the handlers to the table -/

/-- The string that the process passes. -/
def SemCall.name : SemCall → List Byte
  | .CreateSemaphore name _ => name
  | .Up name => name
  | .Down name => name

/-- The call that the handler makes on `semTab`. -/
def SemCall.request (c : SemCall) : Call :=
  match c with
  | .CreateSemaphore _ semval => .semCreate c.copied semval.toInt
  | .Up _ => .semSignal c.copied
  | .Down _ => .semWait c.copied

section Handlers

variable {host : Host} {W : Type} {advances : Bool} {table : List TranslationEntry} {k : Kernel W}

/-- The handler of the system call. -/
def SemCall.handler (env : Env W) : SemCall → Sys host W advances Unit
  | .CreateSemaphore _ _ => handleCreateSemaphore env
  | .Up _ => handleUp env
  | .Down _ => handleDown env

/-- Make a call and return its answer in `r2`. -/
def askTable (env : Env W) (c : Call) : Sys host W advances Unit :=
  Sys.call env c >>= fun r => Sys.setR2 r.1

/-- The arguments are in the registers, and the string is in mapped memory. -/
def SemCall.Passed (c : SemCall) (table : List TranslationEntry) (k : Kernel W) : Prop :=
  Holds (fun i => byteAt table k.machine.mainMemory (k.machine.registers R4 + BitVec.ofNat 32 i))
    0 c.name ∧ ∀ name semval, c = .CreateSemaphore name semval → k.machine.registers R5 = semval

/-- The common part of the three handlers. -/
theorem semaphoreCall_requests (env : Env W) (htab : k.machine.tables = linear table)
    (hset : k.machine.Settled) {name : List Byte}
    (hname : Holds (fun i => byteAt table k.machine.mainMemory
      (k.machine.registers R4 + BitVec.ofNat 32 i)) 0 name) {limit : Int} (hlow : -1 ≤ limit)
    (hhigh : limit ≠ 2 ^ 31 - 1) (c : List Byte → Call) :
    ∃ k', Untouched table k k' ∧ (semaphoreCall env limit c : Sys host W advances Unit).run k =
      (askTable env (c (name.take limit.toNat)) : Sys host W advances Unit).run k' := by
  obtain ⟨k', hcopy, hk'⟩ := user2System_run host advances env htab hset (k.machine.registers R4)
    limit hlow hhigh
  have htext := cString_copyText limit.toNat hname (env.uninit k.world)
  obtain ⟨buffer, hbuffer, hcString⟩ := Option.map_eq_some_iff.mp htext
  rw [hbuffer] at hcopy
  refine ⟨k', hk', ?_⟩
  rw [semaphoreCall, Sys.run_reg_bind, Confined.run_bind_ok hcopy, hcString, askTable]
  congr 2
  funext r
  dsimp only
  split
  · rename_i hres
    rw [hres]
  · rfl

/-- A handler calls the table with the copied name and returns the answer in `r2`. -/
theorem handler_requests (env : Env W) (htab : k.machine.tables = linear table)
    (hset : k.machine.Settled) (c : SemCall) (hpassed : c.Passed table k) :
    ∃ k', Untouched table k k' ∧ (c.handler env : Sys host W advances Unit).run k =
      (askTable env c.request : Sys host W advances Unit).run k' := by
  obtain ⟨hname, hval⟩ := hpassed
  cases c with
  | CreateSemaphore name semval =>
    simp only [SemCall.handler, handleCreateSemaphore, Sys.run_reg_bind,
      hval name semval rfl]
    exact semaphoreCall_requests env htab hset hname (by decide) (by decide)
      (fun name => .semCreate name semval.toInt)
  | Up name => exact semaphoreCall_requests env htab hset hname (by decide) (by decide) .semSignal
  | Down name => exact semaphoreCall_requests env htab hset hname (by decide) (by decide) .semWait

end Handlers

/-! ## Names over runs of the table -/

variable {T : Type*} {trace : List (Event T)} {i : Fin MAX_SEMAPHORE} {st : STable T} {p : T}
  {t : List Byte} {name : List Byte} {events : List (Event T)} {c : SemCall}

/-- A `CreateSemaphore` of the string has returned 0, and its semaphore is in slot `i`. -/
def Created (trace : List (Event T)) (name : List Byte) (i : Fin MAX_SEMAPHORE) : Prop :=
  ∃ semval, Event.created name semval i ∈ trace

/-- The names in the table are the strings under which semaphores were created. -/
def Named (trace : List (Event T)) (st : STable T) : Prop :=
  ∀ name i, Created trace name i ↔ ∃ e, st.semTab i = some e ∧ e.name = name

/-- A name that fits into its field has been copied whole. -/
theorem copied_of_fits {semval : BitVec 32}
    (h : (SemCall.CreateSemaphore name semval).copied.length < NAME_SIZE) :
    (SemCall.CreateSemaphore name semval).copied = name := by
  simp only [SemCall.copied, List.length_take, MAX_FILENAME_LEN, NAME_SIZE] at h ⊢
  exact List.take_of_length_le (by omega)

theorem created_append :
    Created (trace ++ events) name i ↔ Created trace name i ∨ Created events name i := by
  simp only [Created, List.mem_append, exists_or]

/-- A slot has one name. -/
theorem Named.unique (h : Named trace st) {s s' : List Byte} (hs : Created trace s i)
    (hs' : Created trace s' i) : s = s' := by
  obtain ⟨e, he, rfl⟩ := (h s i).mp hs
  obtain ⟨e', he', rfl⟩ := (h s' i).mp hs'
  rw [Option.some.inj (he.symm.trans he')]

variable [DecidableEq T]

theorem named_step {st' : STable T} {a : Act T} (h : Named trace st)
    (hs : step st a = some (events, st')) : Named (trace ++ events) st' := by
  intro name i
  rw [created_append, h name i]
  rcases step_cases hs with ⟨c, rfl, rfl⟩ | ⟨new, semval, j, fits, hnew, rfl, hfree, rfl⟩ |
    ⟨j, b, e, evs, sem, he, -, -, rfl, rfl⟩
  · simp [Created]
  · rw [store_semTab]
    have hevent : Created (T := T) [.created new semval.toInt j] name i ↔ name = new ∧ i = j := by
      simp [Created]
    rw [hevent]
    by_cases hij : i = j
    · subst hij
      simp [hfree, copied_of_fits fits, eq_comm]
    · simp [hij]
  · have hevent : ¬ Created (evs.map (.acted j)) name i := by
      rintro ⟨semval, hmem⟩
      obtain ⟨event, -, heq⟩ := List.mem_map.mp hmem
      cases heq
    by_cases hij : i = j
    · subst hij
      simp [hevent, setSem_self he, he]
    · simp [hevent, setSem_of_ne hij]

/-- What runs of the table keep. -/
theorem named_run {raw : Nat → BitVec 32} (h : Run step anyAct (STable.new raw) trace st) :
    Named trace st := by
  refine h.traceInvariant ?_ fun tr s a events t hinv _ hs => named_step hinv hs
  intro name i
  simp [Created, STable.new]

/-! ## Which semaphore a call acts on -/

/-- The call of thread `p` has its effect on the semaphore in slot `i`. -/
def ActsOn (st : STable T) (p : T) (c : SemCall) (i : Fin MAX_SEMAPHORE) : Prop :=
  ∃ event st', step st (.call p c) = some ([.acted i event], st')

/-- The call of thread `p` returns `-1`. -/
def Refused (st : STable T) (p : T) (c : SemCall) : Prop :=
  step st (.call p c) = some ([.refused c], st)

/-- A thread that is not asleep is in no queue, and no `V` has woken it. -/
theorem awake (h : st.asleep p = false) {e : Sem T} (he : st.semTab i = some e) :
    ¬ (p ∈ e.sem.sem.queue ∨ p ∈ e.sem.woken) := by
  have hslot := List.any_eq_false.mp h i (List.mem_finRange i)
  simpa [he] using hslot

/-- An `Up` or a `Down` of a thread that is not asleep goes to the slot that is found, and returns
`-1` if none is. -/
theorem call_outcome (hawake : st.asleep p = false) (hc : c = .Up t ∨ c = .Down t) :
    (∀ i, ActsOn st p c i ↔ st.find c.copied = some i) ∧
      (Refused st p c ↔ st.find c.copied = none) := by
  obtain ⟨a, hstep, hsingle⟩ : ∃ a : Semaphore.Act T, step st (.call p c) = st.use c a ∧
      ∀ i e, st.semTab i = some e → ∃ event sem, Semaphore.step e.sem a = some ([event], sem) := by
    rcases hc with rfl | rfl
    · exact ⟨.V, by simp [step, hawake], fun i e _ => ⟨_, _, rfl⟩⟩
    · refine ⟨.P p, by simp [step, hawake], fun i e he => ?_⟩
      rw [Semaphore.step, if_neg (awake hawake he)]
      by_cases hzero : e.sem.sem.value = 0
      · exact ⟨_, _, congrArg some (Semaphore.pass_of_zero hzero)⟩
      · exact ⟨_, _, congrArg some (Semaphore.pass_of_ne_zero hzero)⟩
  simp only [ActsOn, Refused, hstep, use]
  cases hfind : st.find c.copied with
  | none => simp
  | some j =>
    obtain ⟨e, he, -⟩ := find_eq_some.mp hfind
    obtain ⟨event, sem, hsem⟩ := hsingle j e he
    simp [act, he, hsem]

/-- `Up` and `Down` act on the semaphore created under what is copied of the string. -/
theorem Named.outcome (h : Named trace st) (hawake : st.asleep p = false)
    (hc : c = .Up t ∨ c = .Down t) :
    (∀ i, ActsOn st p c i ↔ Created trace (SemCall.Up t).copied i) ∧
      (Refused st p c ↔ ∀ i, ¬ Created trace (SemCall.Up t).copied i) := by
  have hcopied : c.copied = (SemCall.Up t).copied := by
    rcases hc with rfl | rfl <;> rfl
  have houtcome := call_outcome hawake hc
  rw [hcopied] at houtcome
  refine ⟨fun i => ?_, ?_⟩
  · rw [houtcome.1, find_eq_some, h]
  · rw [houtcome.2, find_eq_none]
    simp only [h _ _, not_exists, not_and, ne_eq]

/-- The string `t` names the semaphore created under it and no other: for `Up` and for `Down`, by
thread `p`. -/
structure Resolves (trace : List (Event T)) (st : STable T) (p : T) (t : List Byte) : Prop where
  acts : ∀ c, c = .Up t ∨ c = .Down t → ∀ s i, Created trace s i → (ActsOn st p c i ↔ t = s)
  refused : ∀ c, c = .Up t ∨ c = .Down t → (Refused st p c ↔ ∀ i, ¬ Created trace t i)

/-- What `Up` and `Down` look up is not mistaken for another string: the name is short enough to be
copied whole, or neither it nor what is copied of it is a name of the table. -/
def Distinguished (trace : List (Event T)) (t : List Byte) : Prop :=
  t.length ≤ MaxFileLength + 1 ∨
    ∀ i, ¬ Created trace t i ∧ ¬ Created trace (SemCall.Up t).copied i

/-- The name is copied whole exactly if it is short enough. -/
theorem copied_eq_iff : (SemCall.Up t).copied = t ↔ (t.length : Int) ≤ MaxFileLength + 1 := by
  rw [SemCall.copied, List.take_eq_self_iff]
  simp only [MaxFileLength]
  omega

/-- In every run of `CreateSemaphore`, `Up` and `Down` calls, for every string `t` and every
thread that can call: `Up` and `Down` of `t` act on a semaphore exactly if it was created under
`t`, and return `-1` exactly if none was, if and only if `t` has at most `MaxFileLength + 1`
characters or neither `t` nor its first `MaxFileLength + 1` characters are the name of a
semaphore. A `CreateSemaphore` whose name runs over the field of `Sem` ends the run. -/
theorem names_resolve_iff {raw : Nat → BitVec 32} {trace : List (Event T)} {st : STable T}
    (h : Run step anyAct (STable.new raw) trace st) {p : T} (hawake : st.asleep p = false)
    (t : List Byte) : Resolves trace st p t ↔ Distinguished trace t := by
  have hnamed := named_run h
  constructor
  · intro hres
    by_cases hlen : (t.length : Int) ≤ MaxFileLength + 1
    · exact .inl hlen
    · have hne := fun heq => hlen (copied_eq_iff.mp heq)
      have hup := (hnamed.outcome hawake (.inl (rfl : SemCall.Up t = .Up t))).1
      refine .inr fun i => ⟨fun ht => ?_, fun hcopy => ?_⟩
      · -- `Up t` would act on the semaphore created under `t`
        have hon := (hup i).mp ((hres.acts _ (.inl rfl) t i ht).mpr rfl)
        exact hne (hnamed.unique hon ht)
      · -- `Up t` acts on a semaphore that was created under another string
        exact hne ((hres.acts _ (.inl rfl) _ i hcopy).mp ((hup i).mpr hcopy)).symm
  · rintro (hlen | hnone)
    · refine ⟨fun c hc s i hs => ?_, fun c hc => ?_⟩
      · rw [(hnamed.outcome hawake hc).1, copied_eq_iff.mpr hlen]
        constructor
        · intro ht
          exact hnamed.unique ht hs
        · rintro rfl
          exact hs
      · rw [(hnamed.outcome hawake hc).2, copied_eq_iff.mpr hlen]
    · refine ⟨fun c hc s i hs => ?_, fun c hc => ?_⟩
      · rw [(hnamed.outcome hawake hc).1]
        refine iff_of_false (hnone i).2 ?_
        rintro rfl
        exact (hnone i).1 hs
      · rw [(hnamed.outcome hawake hc).2]
        exact iff_of_true (fun i => (hnone i).2) fun i => (hnone i).1

/-- A short name resolves. -/
theorem names_resolve_short : ∃ trace st,
    Run step anyAct (STable.new fun _ => 0) trace st ∧ Created trace [109] 0 ∧
      Resolves trace st (0 : Nat) [109] := by
  have hrun : Run step anyAct (STable.new fun _ => 0) [.created [109] 1 0] (single 1) :=
    .snoc .refl True.intro (single_created 1)
  have hawake : (single 1).asleep 0 = false := by decide
  have hresolves := (names_resolve_iff hrun hawake [109]).mpr (.inl (by decide))
  exact ⟨_, _, hrun, ⟨1, by decide⟩, hresolves⟩

/-- A semaphore made under a string of 34 characters is not found under it; one made under 33
characters is used by an `Up` of the string with one character more. -/
theorem long_names_confused :
    (∃ st, Run step anyAct (STable.new fun _ => 0) [.created (.replicate 34 97) 1 0] st ∧
      Refused st (0 : Nat) (.Up (.replicate 34 97))) ∧
    ∃ st, Run step anyAct (STable.new fun _ => 0) [.created (.replicate 33 97) 1 0] st ∧
      ActsOn st (0 : Nat) (.Up (.replicate 34 97)) 0 := by
  have hrun : ∀ {n} {st : STable Nat},
      step (STable.new fun _ => 0) (.call 0 (.CreateSemaphore (.replicate n 97) 1)) =
        some ([.created (.replicate n 97) 1 0], st) →
      Run step anyAct (STable.new fun _ => 0) [.created (.replicate n 97) 1 0] st :=
    fun h => .snoc .refl True.intro h
  exact ⟨⟨_, hrun rfl, rfl⟩, ⟨_, hrun rfl, .released, _, rfl⟩⟩

end Nachos.STable
