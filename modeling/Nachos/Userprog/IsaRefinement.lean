import Nachos.Library.Refinement
import Nachos.Machine.IsaSwitch
import Nachos.Userprog.Hazards

/-!
# The simulator runs user programs as the MIPS-I does

`OneInstruction` keeps a loaded value back for one instruction, works with a page table that it
changes at every access, and is interrupted at any time. The machine of `Machine/Isa.lean` has none
of this. `Represents` relates the two: the register file of the simulator with its pending load
committed is that of the abstract machine, and the page table makes its array of bytes of main
memory. As long as a program stays clear of what the simulator does differently (`Defined`), every
run of the simulator, with interrupts and answered system calls in any places, is a run of the
abstract machine with the same exceptions.
-/

namespace Nachos

open Refinement Syscall Machine

namespace Isa

/-- The next instruction has a meaning that the simulator gives it too, and does not use the
register that has just been loaded. -/
structure Defined (a : Isa) (word : BitVec 32) : Prop extends a.Follows word where
  delay : HazardFree (a.loading.setWidth 32) (decode word)

/-! ## The relation -/

/-- The machine shows the abstract state once the pending load is committed, and that load is of
the last instruction. -/
structure Represents (table : List TranslationEntry) (m : Machine) (a : Isa) : Prop where
  shows : Shows table (m.delayedLoad 0 0) a
  proper : m.Proper
  loading : m.registers LoadReg = 0 ∨ m.registers LoadReg = a.loading.setWidth 32

variable {host : Host} {table : List TranslationEntry} {m m₁ : Machine} {a b : Isa} {r : BitVec 5}
  {v word : BitVec 32}

theorem userMemory_delayedLoad (m : Machine) (nextReg nextValue : BitVec 32) :
    userMemory (m.delayedLoad nextReg nextValue) = userMemory m := by
  unfold userMemory
  rw [delayedLoad_tables, delayedLoad_mainMemory]

/-- Committing a load that is none changes nothing that is shown. -/
theorem shows_delayedLoad_iff (hload : m.registers LoadReg = 0) :
    Shows table (m.delayedLoad 0 0) a ↔ Shows table m a := by
  have hregs : ∀ r : Reg, r ≠ 0 → r ≤ NextPCReg →
      (m.delayedLoad 0 0).registers r = m.registers r := fun r h0 hr =>
    delayedLoad_of_none hload h0 (ne_of_lt (lt_of_le_of_lt hr (by decide)))
      (ne_of_lt (lt_of_le_of_lt hr (by decide)))
  have htables := congrArg Tables.mapping (m.delayedLoad_tables 0 0)
  constructor
  · intro h
    exact h.congr (fun r h0 hr => (hregs r h0 hr).symm) (userMemory_delayedLoad m 0 0).symm
      htables.symm
  · intro h
    exact h.congr hregs (userMemory_delayedLoad m 0 0) htables

/-- A machine without a pending load. -/
theorem represents_of_shows (h : Shows table m a) (hload : m.registers LoadReg = 0)
    (hzero : m.registers R0 = 0) : Represents table m a :=
  ⟨(shows_delayedLoad_iff hload).mpr h, ⟨hzero, by rw [hload]; decide⟩, .inl hload⟩

/-- A register file in which a load is committed. -/
theorem delayedLoad_gpr {r' : BitVec 5} (h0 : r' ≠ 0)
    (hload : m.registers LoadReg = r.setWidth 32) :
    (m.delayedLoad 0 0).registers (Nachos.gpr r') =
      if r' = r then m.registers LoadValueReg else m.registers (Nachos.gpr r') := by
  rw [delayedLoad_apply, if_neg (mt (gpr_eq_zero_iff r').mp h0),
    if_neg (gpr_ne r' (by decide)).symm, if_neg (gpr_ne r' (by decide)).symm,
    commitLoad_apply, hload]
  have hnum : (r.setWidth 32).toNat = (Nachos.gpr r').val ↔ r' = r := by
    rw [BitVec.toNat_setWidth_of_le (by decide), ← BitVec.toNat_inj, eq_comm]
    rfl
  simp only [hnum]

/-- The pending load is of a general register. -/
theorem delayedLoad_special (h : m.Proper) {x : Reg} (hlow : HiReg ≤ x) (hhigh : x ≤ NextPCReg) :
    (m.delayedLoad 0 0).registers x = m.registers x := by
  rw [delayedLoad_apply, if_neg (ne_of_gt (lt_of_lt_of_le (by decide) hlow)),
    if_neg (ne_of_lt (lt_of_le_of_lt hhigh (by decide))),
    if_neg (ne_of_lt (lt_of_le_of_lt hhigh (by decide))), commitLoad_apply, if_neg]
  exact ne_of_lt (lt_of_lt_of_le h.load hlow)

/-- Behind an instruction the loaded value is pending. -/
theorem represents_installed (h : Shows table m a) (hload : m.registers LoadReg = 0)
    (pcAfter : BitVec 32) (r : BitVec 5) (v : BitVec 32) :
    Represents table (m.installed ⟨pcAfter, r.setWidth 32, v⟩)
      ((a.write r v).advance pcAfter r) := by
  generalize hn : m.installed ⟨pcAfter, r.setWidth 32, v⟩ = n
  have hproper : n.Proper := by
    subst hn
    exact ⟨installed_zero .., by rw [installed_loadReg]; exact Cpu.setWidth_lt r⟩
  have hloading : n.registers LoadReg = r.setWidth 32 := by
    subst hn
    exact installed_loadReg
  have hvalue : n.registers LoadValueReg = v := by
    subst hn
    exact installed_loadValueReg
  have hmemory : n.mainMemory = m.mainMemory ∧ n.tables = m.tables := by
    subst hn
    exact m.installed_memory _
  refine ⟨⟨fun r' h0 => ?_, ?_, ?_, ?_, ?_, ?_, ?_⟩, hproper, .inr hloading⟩
  · rw [delayedLoad_gpr h0 hloading, hvalue]
    show _ = (a.write r v).gpr r'
    split
    · rename_i heq
      rw [← heq, a.write_self v h0]
    · rename_i hne
      rw [a.write_of_ne v hne, ← h.gpr r' h0, ← hn,
        installed_gpr hload (gpr_lt r') (mt (gpr_eq_zero_iff r').mp h0)]
  · rw [delayedLoad_special hproper (by decide) (by decide), ← hn, installed_apply]
    exact (delayedLoad_of_none hload (by decide) (by decide) (by decide)).trans h.hi
  · rw [delayedLoad_special hproper (by decide) (by decide), ← hn, installed_apply]
    exact (delayedLoad_of_none hload (by decide) (by decide) (by decide)).trans h.lo
  · rw [delayedLoad_special hproper (by decide) (by decide), ← hn, installed_pc hload]
    exact h.nextPC
  · rw [delayedLoad_special hproper (by decide) (by decide), ← hn]
    exact installed_nextPC
  · rw [userMemory_delayedLoad]
    unfold userMemory
    rw [hmemory.1, hmemory.2]
    exact h.memory
  · rw [delayedLoad_tables, hmemory.2]
    exact h.mapping

/-! ## One instruction -/

/-- What `OneInstruction` does from a machine without a pending load. -/
theorem oneInstruction_settled (hflat : Flat table) (h : Shows table m a)
    (hzero : m.registers R0 = 0) (hload : m.registers LoadReg = 0)
    (hdef : ∀ word, a.read (accessFault table) a.pc 4 = .ok word → a.Defined word) :
    (∃ n b, (Cpu.oneInstruction : Cpu host _).run m = (.ok (), n) ∧
      a.step (accessFault table) = .ok b ∧ Represents table n b) ∨
    ∃ n x v, (Cpu.oneInstruction : Cpu host _).run m = (.error (.raise x v), n) ∧
      a.step (accessFault table) = .error (x, v) ∧ Shows table n a ∧ n.registers LoadReg = 0 := by
  unfold Isa.step
  rcases @readMem_read host _ _ _ hflat h a.pc _ (.inr (.inr rfl)) with
    ⟨word, tables, hread, hrun, hshows⟩ | ⟨x, hread, hrun⟩
  · rw [← h.pc] at hrun
    have hsim := @simulated_execute host _ _ _ _ hflat hshows hzero (hdef word hread).toFollows
    have hkeeps := (Cpu.keeps_execute (by decide) :
      Cpu.Keeps LoadReg (Cpu.execute (decode word) : Cpu host _)) (m.touched tables)
    rw [hread]
    show (∃ n b, _ ∧ a.execute (accessFault table) word = _ ∧ _) ∨
      ∃ n x v, _ ∧ a.execute (accessFault table) word = _ ∧ _
    generalize a.execute (accessFault table) word = result at hsim
    generalize hexecute : (Cpu.execute (decode word) : Cpu host _).run (m.touched tables) = outcome
      at hsim hkeeps
    cases hsim with
    | ok pcAfter r v hn =>
      exact .inl ⟨_, _, Cpu.oneInstruction_ok hrun hexecute, rfl,
        represents_installed hn (hkeeps.trans hload) pcAfter r v⟩
    | error hn =>
      exact .inr ⟨_, _, _, Cpu.oneInstruction_error hrun hexecute, rfl, hn, hkeeps.trans hload⟩
  · rw [← h.pc] at hrun
    have hstop : (Cpu.oneInstruction : Cpu host _).run m =
        (.error (.raise x (m.registers PCReg)), m) :=
      (Confined.run_bind_error hrun : (Cpu.readMem (m.registers PCReg) 4 >>= fun raw =>
        Cpu.execute (decode raw) >>= Cpu.install : Cpu host _).run m = _)
    refine .inr ⟨m, x, m.registers PCReg, hstop, ?_, h, hload⟩
    rw [hread, h.pc]
    rfl

/-- Two machines that differ in whether the pending load is committed show the same. -/
theorem settled_eq {load : BitVec 32} {clean : Prop} {m m' : Machine} (h : Early load clean m m') :
    m'.delayedLoad 0 0 = m.delayedLoad 0 0 := by
  have hregs : (m'.delayedLoad 0 0).registers = (m.delayedLoad 0 0).registers :=
    funext fun r => h.delayedLoad 0 fun _ => rfl
  rw [delayedLoad_eq, hregs, delayedLoad_eq m, h.memory, h.tables]

/-- On entry to the kernel no load is pending. -/
theorem represents_enter (h : Shows table m a) (hload : m.registers LoadReg = 0)
    (badVAddr : BitVec 32) (loading : BitVec 5) :
    Represents table (m.enter badVAddr) { a with loading := loading } := by
  have hbad : (m.writeRegister BadVAddrReg badVAddr).registers LoadReg = 0 :=
    (writeRegister_of_ne _ _ (by decide)).trans hload
  have hshows : Shows table (m.writeRegister BadVAddrReg badVAddr) { a with loading := loading } :=
    ⟨fun r h0 => (writeRegister_of_ne _ _ (gpr_ne r (by decide)).symm).trans (h.gpr r h0),
      h.hi, h.lo, h.pc, h.nextPC, h.memory, h.mapping⟩
  exact represents_of_shows ((shows_delayedLoad_iff hbad).mpr hshows)
    (delayedLoad_apply ..) (delayedLoad_apply ..)

/-- An interrupt commits the pending load. -/
theorem Represents.interrupt (h : Represents table m a) :
    Represents table (m.delayedLoad 0 0) a :=
  represents_of_shows h.shows (delayedLoad_apply ..) (delayedLoad_apply ..)

/-- The kernel lets the program go on behind its system call. -/
theorem Shows.incrementR (h : Shows table m a) :
    Shows table m.incrementR (a.advance (a.nextPC + 4) 0) := by
  refine ⟨fun r h0 => ?_, ?_, ?_, ?_, ?_, h.memory, h.mapping⟩
  · rw [incrementR_apply, if_neg (gpr_ne r (by decide)).symm, if_neg (gpr_ne r (by decide)).symm,
      if_neg (gpr_ne r (by decide)).symm]
    exact h.gpr r h0
  · exact (incrementR_apply ..).trans h.hi
  · exact (incrementR_apply ..).trans h.lo
  · exact (incrementR_apply ..).trans h.nextPC
  · rw [incrementR_apply, if_pos rfl]
    exact congrArg (· + 4) h.nextPC

/-- The kernel has answered a system call. -/
theorem Represents.answer (h : Represents table m a) (hloading : a.loading = 0) (v : BitVec 32) :
    Represents table (m.writeRegister R2 v).incrementR
      ((a.write 2 v).advance (a.nextPC + 4) 0) := by
  have hload : m.registers LoadReg = 0 := by
    rcases h.loading with hzero | hnum
    · exact hzero
    · rw [hnum, hloading]
      rfl
  have hshows := ((shows_delayedLoad_iff hload).mp h.shows).write 2 v
  refine represents_of_shows hshows.incrementR ?_ ?_
  · exact (incrementR_apply ..).trans ((writeRegister_of_ne _ _ (by decide)).trans hload)
  · exact (incrementR_apply ..).trans
      ((writeRegister_of_ne _ _ (by decide)).trans h.proper.zero)

/-- The register of the last load is the one that may be pending. -/
theorem Represents.hazardFree (hflat : Flat table) (h : Represents table m a)
    (hdef : ∀ word, a.read (accessFault table) a.pc 4 = .ok word → a.Defined word) :
    m.HazardFree host := by
  intro instr hinstr
  rw [Cpu.fetched_eq] at hinstr
  rcases hrun : (Cpu.readMem (m.registers PCReg) 4 : Cpu host _).run m with ⟨x | word, m₁⟩ <;>
    rw [hrun] at hinstr <;> cases hinstr
  · have hpc : m.registers PCReg = a.pc :=
      (delayedLoad_special h.proper (by decide) (by decide)).symm.trans h.shows.pc
    -- the instruction is the one the abstract machine fetches
    have hread : a.read (accessFault table) a.pc 4 = .ok word := by
      have hsame := @readMem_outcome host m (m.delayedLoad 0 0) a.pc 4
        (m.delayedLoad_mainMemory 0 0) (congrArg Tables.mapping (m.delayedLoad_tables 0 0))
      rw [← hpc, hrun] at hsame
      rcases @readMem_read host _ _ _ hflat h.shows a.pc _ (.inr (.inr rfl)) with
        ⟨v, tables, hread, hfetch, -⟩ | ⟨x, -, hfetch⟩
      · rw [← hpc] at hfetch
        rw [hfetch] at hsame
        cases hsame
        exact hread
      · rw [← hpc] at hfetch
        rw [hfetch] at hsame
        cases hsame
    rcases h.loading with hzero | hnum
    · rw [hzero]
      exact ⟨fun r _ hr => hr.1 rfl, fun r _ hr => hr.1 rfl⟩
    · rw [hnum]
      exact (hdef word hread).delay

/-- What `OneInstruction` does from any machine that represents the abstract one. -/
theorem oneInstruction_simulates (hflat : Flat table) (h : Represents table m a)
    (hdef : ∀ word, a.read (accessFault table) a.pc 4 = .ok word → a.Defined word) :
    (∃ n b, (Cpu.oneInstruction : Cpu host _).run m = (.ok (), n) ∧
      a.step (accessFault table) = .ok b ∧ Represents table n b) ∨
    ∃ n x v, (Cpu.oneInstruction : Cpu host _).run m = (.error (.raise x v), n) ∧
      a.step (accessFault table) = .error (x, v) ∧
      Represents table (n.enter v) { a with loading := 0 } := by
  have hearly := (Agree.refl True m).early_delayedLoad h.proper
  have hnone : (m.delayedLoad 0 0).registers LoadReg = 0 := delayedLoad_apply ..
  have hzero : (m.delayedLoad 0 0).registers R0 = 0 := delayedLoad_apply ..
  have hsettled := @oneInstruction_settled host _ _ _ hflat h.shows hzero hnone hdef
  have hfree : m.HazardFree host := h.hazardFree hflat hdef
  rcases Cpu.oneInstruction_alike hearly hfree with
    ⟨n, n', hrun, hrun', hproper, hagree⟩ | ⟨trap, n, n', hrun, hrun', hlate⟩
  · rcases hsettled with ⟨n₁, b, hok, hstep, hrep⟩ | ⟨n₁, x, v, herror, -⟩
    · rw [hrun'] at hok
      obtain rfl : n' = n₁ := congrArg Prod.snd hok
      refine .inl ⟨n, b, hrun, hstep, ?_, hproper, ?_⟩
      · rw [← settled_eq (hagree.early hproper)]
        exact hrep.shows
      · rw [← hagree.others LoadReg (by decide)]
        exact hrep.loading
    · rw [hrun'] at herror
      cases herror
  · rcases hsettled with ⟨n₁, b, hok, -⟩ | ⟨n₁, x, v, herror, hstep, hshows, hload⟩
    · rw [hrun'] at hok
      cases hok
    · rw [hrun'] at herror
      cases herror
      refine .inr ⟨n, x, v, hrun, hstep, ?_⟩
      rw [← hlate.enter v]
      exact represents_enter hshows hload v 0

/-! ## Runs -/

/-- What happens to a user program: its next instruction is executed, an interrupt comes between two
instructions, or the kernel answers the system call that has just been raised. -/
inductive Act where
  | instruction
  | interrupt
  | answer (result : BitVec 32)

/-- The simulator. An exception enters the kernel, which commits the pending load. -/
def simulate (host : Host) (m : Machine) : Act → Option (List Exception × Machine)
  | .instruction => match (Cpu.oneInstruction : Cpu host _).run m with
      | (.ok (), n) => some ([], n)
      | (.error (.raise x v), n) => some ([(x, v)], n.enter v)
      | (.error _, _) => none
  | .interrupt => some ([], m.delayedLoad 0 0)
  | .answer result => some ([], (m.writeRegister R2 result).incrementR)

/-- The abstract machine, which does not see an interrupt. -/
def next (protection : Protection) (a : Isa) : Act → List Exception × Isa
  | .instruction => match a.step protection with
      | .ok b => ([], b)
      | .error x => ([x], { a with loading := 0 })
  | .interrupt => ([], a)
  | .answer result => ([], (a.write 2 result).advance (a.nextPC + 4) 0)

/-- What a program must keep to, and when a system call can be answered. -/
def Precondition (protection : Protection) (a : Isa) : Act → Prop
  | .instruction => ∀ word, a.read protection a.pc 4 = .ok word → a.Defined word
  | .interrupt => True
  | .answer _ => a.loading = 0

/-- The simulator implements the abstract machine. -/
theorem implements_isa (host : Host) (hflat : Flat table) :
    Implements (simulate host) (Precondition (accessFault table))
      (Spec.ofFun (next (accessFault table))) (Represents table) := by
  refine ⟨fun m a act h hpre => ?_⟩
  cases act with
  | instruction =>
    unfold simulate Spec.ofFun next
    rcases @oneInstruction_simulates host _ _ _ hflat h hpre with
      ⟨n, b, hrun, hstep, hrep⟩ | ⟨n, x, v, hrun, hstep, hrep⟩
    · rw [hrun, hstep]
      exact ⟨[], n, b, rfl, rfl, hrep⟩
    · rw [hrun, hstep]
      exact ⟨_, _, _, rfl, rfl, hrep⟩
  | interrupt => exact ⟨_, _, _, rfl, rfl, h.interrupt⟩
  | answer result => exact ⟨_, _, _, rfl, rfl, h.answer hpre result⟩

/-- The abstract state of a machine. -/
def view (m : Machine) : Isa where
  gpr r := if r = 0 then 0 else (m.delayedLoad 0 0).registers (Nachos.gpr r)
  zero := if_pos rfl
  hi := m.registers HiReg
  lo := m.registers LoReg
  pc := m.registers PCReg
  nextPC := m.registers NextPCReg
  loading := (m.registers LoadReg).setWidth 5
  memory := userMemory m

/-- Every machine with a linear page table represents a state. -/
theorem represents_view (hproper : m.Proper)
    (hmapping : m.tables.mapping = (linear table).mapping) :
    Represents table m (view m) := by
  refine ⟨⟨fun r h0 => (if_neg h0).symm, delayedLoad_special hproper (by decide) (by decide),
    delayedLoad_special hproper (by decide) (by decide),
    delayedLoad_special hproper (by decide) (by decide),
    delayedLoad_special hproper (by decide) (by decide), userMemory_delayedLoad m 0 0, ?_⟩,
    hproper, .inr ?_⟩
  · rw [delayedLoad_tables, hmapping]
  · have hlt := hproper.load
    apply BitVec.eq_of_toNat_eq
    simp only [view, BitVec.toNat_setWidth, NumGPRegs] at hlt ⊢
    omega

/-- Every run of the simulator on a program that keeps to the preconditions, with interrupts and
answered system calls in any places, goes on without an abort, raises the exceptions the MIPS-I
raises and ends in the state the MIPS-I ends in. An answer is that of a call that writes `r2` and
nothing else of the program. -/
theorem simulator_refines_isa (host : Host) (hflat : Flat table) (hproper : m.Proper)
    (hmapping : m.tables.mapping = (linear table).mapping) {acts : List Act}
    (hacts : Permitted (Spec.ofFun (next (accessFault table))) (Precondition (accessFault table))
      (view m) acts) :
    ∃ n, Transition.execute (simulate host) m acts =
        some ((follow (next (accessFault table)) (view m) acts).1, n) ∧
      Represents table n (follow (next (accessFault table)) (view m) acts).2 :=
  (implements_isa host hflat).follow (represents_view hproper hmapping) hacts

/-- `LW r2, 8(r0)` and `SYSCALL`, and the word 5, in one page. -/
def loadAndCall : Machine :=
  (program [8, 0, 0x02, 0x8c, 0x0c, 0, 0, 0, 5, 0, 0, 0]).machine

theorem flat_onePage : Flat onePage := by
  constructor
  · decide
  · intro i j e e' he he' _ _ _
    match i, j with
    | 0, 0 => rfl
    | i + 1, _ => cases he
    | _, j + 1 => cases he'

/-- The load, an interrupt, the call and its answer. -/
theorem permitted_loadAndCall (v : BitVec 32) :
    Permitted (Spec.ofFun (next (accessFault onePage))) (Precondition (accessFault onePage))
      (view loadAndCall) [.instruction, .interrupt, .instruction, .answer v] := by
  refine permitted_cons (fun word hword => ?_) (permitted_cons trivial
    (permitted_cons (fun word hword => ?_) (permitted_cons rfl trivial)))
  · cases hword
    exact ⟨follows_of_plain (by decide), by decide⟩
  · cases hword
    exact ⟨follows_of_plain (by decide), by decide⟩

theorem simulator_refines_loadAndCall : ∃ n : Machine,
    Transition.execute (simulate .littleEndian) loadAndCall
      [.instruction, .interrupt, .instruction, .answer 7] = some ([(.SyscallException, 0)], n) ∧
    (n.delayedLoad 0 0).registers R2 = 7 ∧ (n.delayedLoad 0 0).registers PCReg = 8 := by
  obtain ⟨n, hrun, hrep⟩ := simulator_refines_isa (m := loadAndCall) .littleEndian flat_onePage
    ⟨rfl, by decide⟩ rfl (permitted_loadAndCall 7)
  exact ⟨n, hrun, hrep.shows.gpr 2 (by decide), hrep.shows.pc⟩

end Isa

end Nachos
