import Nachos.Library.Transition
import Nachos.Machine.Footprint
import Nachos.Userprog.Kernel

/-!
# Context switches between user processes

One machine, with one register file and one page-table pointer, under any number of threads. The
thread that is running executes user instructions (`OneInstruction`, with the entry to the kernel
when it raises an exception) and, inside a system call, kernel code that uses the machine;
`Scheduler::Run` gives the processor to another thread at any of these points. A thread with an
address space is a user process, and the guards `space != NULL` leave the user state of the other
threads alone.

`machine->pageTable` points to the array that belongs to an address space, so the bits that
`Translate` sets stay there when the pointer moves on. Here the pointer is the thread whose
address space it is.
-/

namespace Nachos.ContextSwitch

open Transition BlockWrite Relation Function

/-- What `Thread` has for user programs. -/
structure Thread where
  userRegisters : Reg → BitVec 32
  /-- `space->pageTable`, of `space->numPages` entries; `none` for `space == NULL`. -/
  space : Option (List TranslationEntry)

/-- The machine and the threads. -/
structure System (T : Type*) where
  currentThread : T
  threads : T → Thread
  registers : Reg → BitVec 32
  mainMemory : Store Byte
  pageTable : Option T
  pageTableSize : Nat

namespace System

variable {T : Type*}

/-- The address space of the running thread. -/
def space (s : System T) : Option (List TranslationEntry) := (s.threads s.currentThread).space

/-- The machine as `OneInstruction` and kernel code see it: `pageTableSize` entries from
`pageTable` on, and no TLB. -/
def machine (s : System T) : Machine where
  registers := s.registers
  mainMemory := s.mainMemory
  tables := ⟨none, (s.pageTable.bind fun owner => (s.threads owner).space).map
    (·.take s.pageTableSize)⟩

variable [DecidableEq T]

/-- The system after the machine has been used: the entries are where `pageTable` points to. -/
def setMachine (s : System T) (m : Machine) : System T :=
  { s with
    registers := m.registers
    mainMemory := m.mainMemory
    threads := match s.pageTable, m.tables.pageTable with
      | some owner, some entries => update s.threads owner
          { s.threads owner with
            space := (s.threads owner).space.map fun old => entries ++ old.drop s.pageTableSize }
      | _, _ => s.threads }

/-- `Thread::SaveUserState` of the running thread. -/
def saveUserState (s : System T) : System T :=
  { s with
    threads := update s.threads s.currentThread
      { s.threads s.currentThread with userRegisters := s.registers } }

/-- `Thread::RestoreUserState` of the running thread. -/
def restoreUserState (s : System T) : System T :=
  { s with registers := (s.threads s.currentThread).userRegisters }

/-- `AddrSpace::RestoreState` of the running thread's address space. -/
def restoreState (s : System T) (pageTable : List TranslationEntry) : System T :=
  { s with pageTable := some s.currentThread, pageTableSize := pageTable.length }

/-- `Scheduler::Run` up to `SWITCH`. `AddrSpace::SaveState` does nothing. -/
def leave (s : System T) : System T := if s.space.isSome then s.saveUserState else s

/-- `Scheduler::Run`. -/
def run (s : System T) (nextThread : T) : System T :=
  let next := { s.leave with currentThread := nextThread }
  match next.space with
  | some pageTable => next.restoreUserState.restoreState pageTable
  | none => next

end System

/-- What the running thread can do: a user instruction, kernel code of a system call that uses the
machine, the `DelayedLoad` of an interrupt that comes due, or giving up the processor. -/
inductive Act (host : Host) (T : Type*) where
  | instruction
  | kernel (x : Cpu host Unit)
  | due
  | switch (nextThread : T)

variable {T : Type*} {host : Host} {s s' : System T} {table : List TranslationEntry}
  {act : Act host T} {events : List Empty} {p : Int} {m : Machine} {t : T}
  {registers : Reg → BitVec 32} {memory : Store Byte}

/-- One step of the running thread. A failed `ASSERT` ends the system. -/
def step [DecidableEq T] (host : Host) : Step (System T) (Act host T) Empty
  | s, .instruction => if s.space.isNone then none
      else match (Cpu.oneInstruction : Cpu host Unit).run s.machine with
        | (.ok (), m) => some ([], s.setMachine m)
        | (.error (.raise _ badVAddr), m) => some ([], s.setMachine (m.enter badVAddr))
        | (.error .abort, _) => none
        | (.error .undefined, _) => none
  | s, .kernel x => if s.space.isNone then none else some ([], s.setMachine (x.run s.machine).2)
  | s, .due => some ([], { s with registers := (s.machine.delayedLoad 0 0).registers })
  | s, .switch nextThread => some ([], s.run nextThread)

/-! ## The invariant -/

/-- The frames of a thread's address space. -/
def System.frames (s : System T) (t : T) : List Int :=
  ((s.threads t).space.map Nachos.frames).getD []

/-- The processes map pairwise disjoint frames that exist, and the machine uses the page table of
the running one. -/
structure Isolated (s : System T) : Prop where
  disjoint : ∀ t u, t ≠ u → ∀ f ∈ s.frames t, f ∉ s.frames u
  below : ∀ t, ∀ f ∈ s.frames t, 0 ≤ f ∧ f < NumPhysPages
  installed : ∀ table, s.space = some table →
    s.pageTable = some s.currentThread ∧ s.pageTableSize = table.length

/-- What a step of the running thread leaves as it is. -/
structure Private (s s' : System T) : Prop where
  threads : ∀ u, u ≠ s.currentThread → s'.threads u = s.threads u
  frames : ∀ u, s'.frames u = s.frames u
  memory : ∀ u, u ≠ s.currentThread → ∀ p, InFrames (s.frames u) p →
    s'.mainMemory p = s.mainMemory p

/-- Disjointness speaks of frame numbers only. -/
theorem Isolated.of_private (h : Isolated s) (hp : Private s s')
    (hinstalled : ∀ table, s'.space = some table →
      s'.pageTable = some s'.currentThread ∧ s'.pageTableSize = table.length) : Isolated s' := by
  refine ⟨fun t u htu => ?_, fun t => ?_, hinstalled⟩
  · rw [hp.frames, hp.frames]
    exact h.disjoint t u htu
  · rw [hp.frames]
    exact h.below t

/-- A byte is in one frame. -/
theorem inFrame_unique {f g : Int} (hf : InFrame f p) (hg : InFrame g p) : f = g := by
  simp only [InFrame, PageSize, SectorSize] at hf hg
  omega

/-- The bytes of another process are outside the frames of the running one. -/
theorem Isolated.outside (h : Isolated s) {u : T} (hu : u ≠ s.currentThread)
    (hp : InFrames (s.frames u) p) : ¬ InFrames (s.frames s.currentThread) p := by
  rintro ⟨g, hg, hpg⟩
  obtain ⟨f, hf, hpf⟩ := hp
  rw [inFrame_unique hpf hpg] at hf
  exact h.disjoint u _ hu g hf hg

/-! ## Using the machine -/

/-- The running process uses the machine with its own page table. -/
theorem Isolated.within (h : Isolated s) (hspace : s.space = some table) :
    Within (s.frames s.currentThread) s.mainMemory s.machine := by
  obtain ⟨hptr, hsize⟩ := h.installed table hspace
  unfold System.space at hspace
  refine ⟨⟨table, ?_, ?_⟩, fun _ _ => rfl⟩
  · simp [System.machine, hptr, hspace, hsize, linear]
  · simp [System.frames, hspace]

variable [DecidableEq T]

/-- What the running process does to the machine stays within its frames. -/
theorem setMachine_private (h : Isolated s) (hspace : s.space = some table)
    (hm : Within (s.frames s.currentThread) s.mainMemory m) :
    Private s (s.setMachine m) ∧ Isolated (s.setMachine m) := by
  obtain ⟨hptr, hsize⟩ := h.installed table hspace
  obtain ⟨entries, htables, hentries⟩ := hm.table
  have hspace' : (s.threads s.currentThread).space = some table := hspace
  have hframes : frames entries = frames table := by
    rw [hentries, System.frames, hspace']
    rfl
  have hlength : entries.length = table.length := by
    simpa [frames] using congrArg List.length hframes
  have hthreads : (s.setMachine m).threads = update s.threads s.currentThread
      { s.threads s.currentThread with space := some entries } := by
    simp [System.setMachine, hptr, htables, linear, hspace', hsize]
  have hprivate : Private s (s.setMachine m) := by
    refine ⟨fun u hu => ?_, fun u => ?_, fun u hu p hp => hm.outside p (h.outside hu hp)⟩
    · rw [hthreads, update_of_ne hu]
    · by_cases hu : u = s.currentThread
      · subst hu
        simp [System.frames, hthreads, hspace', hframes]
      · rw [System.frames, hthreads, update_of_ne hu, System.frames]
  refine ⟨hprivate, h.of_private hprivate fun table' htable' => ⟨hptr, ?_⟩⟩
  have hentries' : (s.setMachine m).space = some entries := by
    change ((s.setMachine m).threads s.currentThread).space = some entries
    rw [hthreads, update_self]
  obtain rfl : entries = table' := Option.some.inj (hentries'.symm.trans htable')
  exact hsize.trans hlength.symm

/-! ## Switching -/

/-- A thread with an address space has its registers saved, and nothing else of the threads
changes. -/
theorem leave_threads (s : System T) :
    s.leave.threads = if s.space.isSome then update s.threads s.currentThread
      { s.threads s.currentThread with userRegisters := s.registers } else s.threads := by
  unfold System.leave
  split <;> rfl

theorem leave_space (s : System T) (u : T) :
    (s.leave.threads u).space = (s.threads u).space := by
  rw [leave_threads]
  split
  · by_cases hu : u = s.currentThread
    · rw [hu, update_self]
    · rw [update_of_ne hu]
  · rfl

@[simp] theorem run_threads (s : System T) (nextThread : T) :
    (s.run nextThread).threads = s.leave.threads := by
  unfold System.run
  dsimp only
  split <;> rfl

@[simp] theorem run_currentThread (s : System T) (nextThread : T) :
    (s.run nextThread).currentThread = nextThread := by
  unfold System.run
  dsimp only
  split <;> rfl

@[simp] theorem run_mainMemory (s : System T) (nextThread : T) :
    (s.run nextThread).mainMemory = s.mainMemory := by
  unfold System.run System.leave
  dsimp only
  split <;> split <;> rfl

/-- The user state of a process that has been given the processor. -/
theorem run_restored {nextThread : T} (h : (s.threads nextThread).space = some table) :
    (s.run nextThread).registers = (s.leave.threads nextThread).userRegisters ∧
      (s.run nextThread).pageTable = some nextThread ∧
      (s.run nextThread).pageTableSize = table.length := by
  have hspace : System.space { s.leave with currentThread := nextThread } = some table :=
    (leave_space s nextThread).trans h
  simp [System.run, hspace, System.restoreState, System.restoreUserState]

/-- `Scheduler::Run` keeps everything of the other threads. -/
theorem run_private (h : Isolated s) (nextThread : T) :
    Private s (s.run nextThread) ∧ Isolated (s.run nextThread) := by
  have hprivate : Private s (s.run nextThread) := by
    refine ⟨fun u hu => ?_, fun u => ?_, fun _ _ _ _ => by rw [run_mainMemory]⟩
    · rw [run_threads, leave_threads]
      split
      · exact update_of_ne hu ..
      · rfl
    · rw [System.frames, run_threads, leave_space, System.frames]
  refine ⟨hprivate, h.of_private hprivate fun table htable => ?_⟩
  rw [System.space, run_threads, leave_space, run_currentThread] at htable
  rw [run_currentThread]
  exact (run_restored htable).2

/-- A step of the running thread changes no byte of another process's frames. -/
theorem step_private (h : Isolated s) (hs : step host s act = some (events, s')) :
    Private s s' ∧ Isolated s' := by
  cases act with
  | switch nextThread =>
    obtain ⟨-, rfl⟩ := Prod.mk.inj (Option.some.inj hs)
    exact run_private h nextThread
  | due =>
    obtain ⟨-, rfl⟩ := Prod.mk.inj (Option.some.inj hs)
    exact ⟨⟨fun _ _ => rfl, fun _ => rfl, fun _ _ _ _ => rfl⟩,
      h.disjoint, h.below, h.installed⟩
  | kernel x =>
    simp only [step] at hs
    split at hs
    · cases hs
    · rename_i hsome
      obtain ⟨table, hspace⟩ := Option.ne_none_iff_exists'.mp (by simpa using hsome)
      obtain ⟨-, rfl⟩ := Prod.mk.inj (Option.some.inj hs)
      exact setMachine_private h hspace ((h.within hspace).run (h.below _) x)
  | instruction =>
    simp only [step] at hs
    split at hs
    · cases hs
    · rename_i hsome
      obtain ⟨table, hspace⟩ := Option.ne_none_iff_exists'.mp (by simpa using hsome)
      have hwithin := (h.within hspace).run (h.below _) (Cpu.oneInstruction : Cpu host Unit)
      split at hs
      · rename_i m hrun
        obtain ⟨-, rfl⟩ := Prod.mk.inj (Option.some.inj hs)
        rw [hrun] at hwithin
        exact setMachine_private h hspace hwithin
      · rename_i which badVAddr m hrun
        obtain ⟨-, rfl⟩ := Prod.mk.inj (Option.some.inj hs)
        rw [hrun] at hwithin
        refine setMachine_private h hspace ?_
        rw [Machine.enter, Machine.delayedLoad_eq]
        exact (hwithin.registers _).registers _
      · cases hs
      · cases hs

/-- What whole runs keep. -/
theorem isolated_run {s₀ : System T} {trace : List Empty} (h₀ : Isolated s₀)
    (h : Run (step host) anyAct s₀ trace s) : Isolated s ∧ ∀ u, s.frames u = s₀.frames u := by
  induction h with
  | refl => exact ⟨h₀, fun _ => rfl⟩
  | snoc _ _ hs ih =>
    obtain ⟨hprivate, hisolated⟩ := step_private ih.1 hs
    exact ⟨hisolated, fun u => (hprivate.frames u).trans (ih.2 u)⟩

/-- Only `Scheduler::Run` changes the running thread. -/
theorem step_currentThread (hs : step host s act = some (events, s')) :
    (∃ nextThread, s' = s.run nextThread) ∨ s'.currentThread = s.currentThread := by
  cases act with
  | switch nextThread =>
    obtain ⟨-, rfl⟩ := Prod.mk.inj (Option.some.inj hs)
    exact .inl ⟨nextThread, rfl⟩
  | due =>
    obtain ⟨-, rfl⟩ := Prod.mk.inj (Option.some.inj hs)
    exact .inr rfl
  | kernel x =>
    simp only [step] at hs
    split at hs <;> cases hs
    exact .inr rfl
  | instruction =>
    simp only [step] at hs
    split at hs
    · cases hs
    · split at hs <;> cases hs <;> exact .inr rfl

/-! ## System calls -/

/-- Any sequence of accesses is what some program on the machine does. -/
theorem exists_program {m' : Machine} (h : ReflTransGen (Access host) m m') :
    ∃ x : Cpu host Unit, (x.run m).2 = m' := by
  classical
  refine ⟨.update (fun n => if n = m then m' else n) fun n => ?_, if_pos rfl⟩
  split
  · rename_i heq
    rwa [heq]
  · exact .refl

/-- What kernel code of a system call does in one go is a step of the running process, unless it
is a call during which other threads may run. -/
theorem kernelAccess_step {W : Type} {advances : Bool} {k k' : Kernel W} (hspace : s.space ≠ none)
    (hk : k.machine = s.machine) (h : KernelAccess host W advances k k') :
    (∃ c r, k' = k.answered c r) ∨
      ∃ act : Act host T, step host s act = some ([], s.setMachine k'.machine) := by
  have haccess : ReflTransGen (Access host) k.machine k'.machine →
      ∃ act : Act host T, step host s act = some ([], s.setMachine k'.machine) := by
    intro hmachine
    rw [hk] at hmachine
    obtain ⟨x, hx⟩ := exists_program hmachine
    exact ⟨.kernel x, by simp [step, hspace, hx]⟩
  cases h with
  | result v => exact .inr (haccess (.single (.register ..)))
  | memory hmem hreg => exact .inr (haccess hmem)
  | trap badVAddr =>
    exact .inr (haccess ((ReflTransGen.single (.register ..)).trans (delayedLoad_access ..)))
  | fileTable table => exact .inr (haccess .refl)
  | call c r => exact .inl ⟨c, r, rfl⟩
  | advance hadv =>
    exact .inr (haccess
      (((ReflTransGen.single (.register ..)).tail (.register ..)).tail (.register ..)))

/-! ## A process while it is switched out -/

/-- The steps of the threads other than `t`. -/
def ByOthers (t : T) : System T → Act host T → Prop := fun s _ => s.currentThread ≠ t

/-- `ByOthers` is decided by a comparison. -/
instance ByOthers.decidable (t : T) (s : System T) (act : Act host T) :
    Decidable (ByOthers t s act) :=
  inferInstanceAs (Decidable (s.currentThread ≠ t))

/-- The process `t` has been switched out with the given registers, page table and memory, and has
taken no step since. -/
structure Suspended (t : T) (registers : Reg → BitVec 32) (table : List TranslationEntry)
    (memory : Store Byte) (s : System T) : Prop where
  isolated : Isolated s
  thread : s.threads t = ⟨registers, some table⟩
  memory : ∀ p, InFrames (frames table) p → s.mainMemory p = memory p
  resumed : s.currentThread = t →
    s.registers = registers ∧ s.pageTable = some t ∧ s.pageTableSize = table.length

/-- Giving the processor to a thread keeps what is saved of a process that does not have it. -/
theorem suspended_run (nextThread : T) (h : Isolated s)
    (hthread : s.leave.threads t = ⟨registers, some table⟩)
    (hmemory : ∀ p, InFrames (frames table) p → s.mainMemory p = memory p) :
    Suspended t registers table memory (s.run nextThread) := by
  refine ⟨(run_private h nextThread).2, by rw [run_threads, hthread], by simpa using hmemory, ?_⟩
  rw [run_currentThread]
  rintro rfl
  have hspace : (s.threads nextThread).space = some table := by
    rw [← leave_space, hthread]
  have hrestored := run_restored hspace
  rwa [hthread] at hrestored

/-- What a step of another thread keeps. -/
theorem suspended_step (h : Suspended t registers table memory s) (hother : ByOthers t s act)
    (hs : step host s act = some (events, s')) : Suspended t registers table memory s' := by
  obtain ⟨hprivate, hisolated⟩ := step_private h.isolated hs
  have hthread : s'.threads t = ⟨registers, some table⟩ :=
    (hprivate.threads t hother.symm).trans h.thread
  rcases step_currentThread hs with ⟨nextThread, rfl⟩ | hcurrent
  · exact suspended_run nextThread h.isolated (by rwa [run_threads] at hthread) h.memory
  · refine ⟨hisolated, hthread, fun p hp => ?_, fun ht => absurd (hcurrent.symm.trans ht) hother⟩
    have hframes : s.frames t = frames table := by
      rw [System.frames, h.thread]
      rfl
    rw [hprivate.memory t hother.symm p (by rwa [hframes]), h.memory p hp]

/-- The state in which a process was switched out comes back when it is resumed. -/
structure Resumed (s s' : System T) : Prop where
  registers : s'.registers = s.registers
  pageTable : s'.pageTable = s.pageTable
  pageTableSize : s'.pageTableSize = s.pageTableSize
  /-- The entries of the page table, with their bits. -/
  space : s'.space = s.space
  memory : ∀ p, InFrames (s.frames s.currentThread) p → s'.mainMemory p = s.mainMemory p

/-- For any processes with pairwise disjoint frames below `NumPhysPages` and any schedule of user
instructions, kernel code and context switches: no step changes a byte of another process's
frames, and when a process is switched out and, after any steps of others, resumed, the registers,
`pageTable` and `pageTableSize` are what they were, and so are its page table and its memory. -/
theorem process_isolation {s₀ s : System T} {trace : List Empty} (h₀ : Isolated s₀)
    (h : Run (step host) anyAct s₀ trace s) :
    (∀ act events s', step host s act = some (events, s') → ∀ u, u ≠ s.currentThread →
        ∀ p, InFrames (s₀.frames u) p → s'.mainMemory p = s.mainMemory p) ∧
      ∀ nextThread trace' s', s.space ≠ none →
        Run (step host) (ByOthers s.currentThread) (s.run nextThread) trace' s' →
        s'.currentThread = s.currentThread → Resumed s s' := by
  obtain ⟨hisolated, hframes⟩ := isolated_run h₀ h
  refine ⟨fun act events s' hs u hu p hp => ?_, fun nextThread trace' s' hspace hrun hback => ?_⟩
  · exact (step_private hisolated hs).1.memory u hu p (by rwa [hframes])
  · obtain ⟨table, htable⟩ := Option.ne_none_iff_exists'.mp hspace
    have hsaved : s.leave.threads s.currentThread = ⟨s.registers, some table⟩ := by
      rw [leave_threads, if_pos (by rw [htable]; rfl), update_self, ← htable]
      rfl
    have hown : s.frames s.currentThread = frames table := by
      rw [System.frames, ← System.space, htable]
      rfl
    have hsuspended : Suspended s.currentThread s.registers table s.mainMemory s' :=
      hrun.invariant (suspended_run nextThread hisolated hsaved fun _ _ => rfl)
        fun _ _ _ _ hs₁ hother hs => suspended_step hs₁ hother hs
    obtain ⟨hregisters, hpageTable, hsize⟩ := hsuspended.resumed hback
    obtain ⟨hptr, hnum⟩ := hisolated.installed table htable
    refine ⟨hregisters, hpageTable.trans hptr.symm, hsize.trans hnum.symm, ?_, ?_⟩
    · rw [htable, System.space, hback, hsuspended.thread]
    · rw [hown]
      exact hsuspended.memory

/-- Two processes of one page, in the frames 3 and 5, and a thread without address space; the first
process is running. -/
def pair : System (Fin 3) where
  currentThread := 0
  threads := fun t =>
    { userRegisters := fun _ => 0
      space := match t with
        | 0 => some [⟨0, 3, true, false, false, false⟩]
        | 1 => some [⟨0, 5, true, false, false, false⟩]
        | 2 => none }
  registers := fun _ => 0
  mainMemory := fun _ => 0
  pageTable := some 0
  pageTableSize := 1

theorem pair_isolated : Isolated pair := by
  refine ⟨by decide, by decide, ?_⟩
  intro table htable
  cases htable
  exact ⟨rfl, rfl⟩

/-- The second process writes to its page, executes an instruction and switches to the thread
without address space, which switches back to the first. -/
theorem process_isolation_pair : ∃ s',
    s'.mainMemory (5 * 512) = 7 ∧ s'.currentThread = pair.currentThread ∧ Resumed pair s' := by
  let acts : List (Act .littleEndian (Fin 3)) :=
    [.kernel (Cpu.writeMem 0 1 7), .instruction, .switch 2, .switch 0]
  let observe (s : System (Fin 3)) := (s.mainMemory (5 * 512), s.currentThread)
  have hobserved : (execute (step .littleEndian) (pair.run 1) acts).map
      (fun r => (r.1, observe r.2)) = some ([], (7, 0)) := by decide +kernel
  obtain ⟨s', hexec, hs'⟩ := execute_observed observe hobserved
  obtain ⟨hbyte, hback⟩ := Prod.mk.inj hs'
  have hallowed : Allowed (step .littleEndian) (ByOthers pair.currentThread) (pair.run 1) acts := by
    decide +kernel
  exact ⟨s', hbyte, hback, (process_isolation pair_isolated .refl).2 1 [] s'
    (Option.some_ne_none _) (run_of_execute hexec hallowed) hback⟩

end Nachos.ContextSwitch
