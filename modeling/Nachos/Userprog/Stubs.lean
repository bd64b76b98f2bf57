import Nachos.Userprog.IsaRefinement

/-!
# System calls through their stubs

A user program calls the kernel through a stub of `test/start.s`: the code of the call is put into
`r2`, `SYSCALL` traps, and a jump to `r31` goes back to the caller. The assembler puts a `NOP` into
the delay slot of that jump, as in `test/halt`. Here the instructions run on the simulated machine
in the loop of `Machine::Run`, the trap enters `ExceptionHandler`, and interrupts may come after
every instruction. For an implemented call the caller gets what the handler has left in `r2`, with
all other general registers, `hi` and `lo` as they were (`stub_returns`).
-/

namespace Nachos

open Syscall

/-- The number of a code, as `syscall.h` defines it. -/
def SC.code (sc : SC) : BitVec 32 := BitVec.ofNat 32 (SC.codes.idxOf sc)

theorem SC.ofCode_code (sc : SC) : SC.ofCode sc.code = some sc := by
  cases sc <;> rfl

/-- `addiu $2,$0,SC_x`. -/
def SC.load (sc : SC) : BitVec 32 := 0x24020000#32 ||| sc.code

/-- `syscall`. -/
def syscallWord : BitVec 32 := 0x0000000c#32

/-- `j $31`. -/
def returnWord : BitVec 32 := 0x03e00008#32

/-- A stub of `start.s`, with the `NOP` in the delay slot of the jump. -/
def SC.stub (sc : SC) : List (BitVec 32) := [sc.load, syscallWord, returnWord, 0]

namespace Isa

/-- The words stand in memory from an address on, and can be fetched. -/
def Loaded (protection : Protection) (memory : UserMemory) : BitVec 32 → List (BitVec 32) → Prop
  | _, [] => True
  | addr, word :: rest => protection addr 4 false = none ∧
      memory.read addr.toNat 4 = some word ∧ Loaded protection memory (addr + 4) rest

variable {protection : Protection} {a b : Isa} {word : BitVec 32} {rest : List (BitVec 32)}

/-- A loaded word is fetched. -/
theorem read_of_loaded (h : Loaded protection a.memory a.pc (word :: rest)) :
    a.read protection a.pc 4 = .ok word := by
  unfold Isa.read
  rw [h.1]
  show Except.ok ((a.memory.read a.pc.toNat 4).getD 0) = .ok word
  rw [h.2.1]
  rfl

/-! ## The four instructions -/

theorem execute_load_code (a : Isa) (sc : SC) :
    a.execute protection sc.load = .ok ((a.write 2 sc.code).advance (a.nextPC + 4) 0) := by
  have halu : ∀ rs rt : BitVec 32, mipsAlu sc.load rs rt = some ⟨2, rs + sc.code, false⟩ := by
    cases sc <;> exact fun rs rt => rfl
  have hrs : rsField sc.load = 0 := by cases sc <;> rfl
  unfold Isa.execute
  dsimp only
  rw [halu, hrs, a.zero, show 0 + sc.code = sc.code from BitVec.zero_add _]
  rfl

theorem execute_nop (a : Isa) :
    a.execute protection 0 = .ok (a.advance (a.nextPC + 4) 0) := by
  have hnop : a.execute protection 0 =
      .ok ((a.write 0 (a.gpr 0 <<< 0)).advance (a.nextPC + 4) 0) := rfl
  rw [hnop, write_zero]

/-! ## Rounds of the loop -/

section Rounds

variable {host : Host} {W : Type} {table : List TranslationEntry} {k k' : Kernel W}

/-- A round in which the instruction is completed. -/
theorem round_ok (env : Env W) (hflat : Flat table) (h : Represents table k.machine a)
    (hread : a.read (accessFault table) a.pc 4 = .ok word) (hdef : a.Defined word)
    (hexecute : a.execute (accessFault table) word = .ok b) (due : Bool) :
    ∃ m, Syscall.round host env due k = (.ok (), { k with machine := m }) ∧
      Represents table m b := by
  have hdef' : ∀ word', a.read (accessFault table) a.pc 4 = .ok word' → a.Defined word' := by
    intro word' hword'
    rw [hread] at hword'
    cases hword'
    exact hdef
  have hstep : a.step (accessFault table) = .ok b := by
    rw [Isa.step, hread]
    exact hexecute
  rcases @oneInstruction_simulates host _ _ _ hflat h hdef' with
    ⟨n, b', hrun, hstep', hrep⟩ | ⟨n, x, v, -, hstep', -⟩
  · rw [hstep] at hstep'
    cases hstep'
    unfold Syscall.round
    rw [hrun]
    cases due with
    | false => exact ⟨n, rfl, hrep⟩
    | true => exact ⟨n.delayedLoad 0 0, rfl, hrep.interrupt⟩
  · rw [hstep] at hstep'
    cases hstep'

/-- A round that ends in `ExceptionHandler`. -/
theorem round_syscall (env : Env W) (hflat : Flat table) (h : Represents table k.machine a)
    (hread : a.read (accessFault table) a.pc 4 = .ok syscallWord) (due : Bool) :
    ∃ m, Represents table m { a with loading := 0 } ∧ m.Settled ∧
      (∀ stop k', (exceptionHandler env .SyscallException : Sys host W true Unit).run
          { k with machine := m } = (.error stop, k') →
        Syscall.round host env due k = (.error stop, k')) ∧
      ∀ k', (exceptionHandler env .SyscallException : Sys host W true Unit).run
          { k with machine := m } = (.ok (), k') →
        Syscall.round host env due k = (.ok (),
          { k' with machine := if due then k'.machine.delayedLoad 0 0 else k'.machine }) := by
  have hdef : ∀ word, a.read (accessFault table) a.pc 4 = .ok word → a.Defined word := by
    intro word hword
    rw [hread] at hword
    cases hword
    refine ⟨follows_of_plain (by decide), ?_⟩
    exact ⟨fun r hr => absurd hr (by decide +revert), fun r hr => absurd hr (by decide +revert)⟩
  have hstep : a.step (accessFault table) = .error (.SyscallException, 0) := by
    rw [Isa.step, hread]
    rfl
  rcases @oneInstruction_simulates host _ _ _ hflat h hdef with
    ⟨n, b', -, hstep', -⟩ | ⟨n, x, v, hrun, hstep', hrep⟩
  · rw [hstep] at hstep'
    cases hstep'
  · rw [hstep] at hstep'
    cases hstep'
    refine ⟨n.enter 0, hrep, enter_settled n 0, fun stop k' hhandler => ?_,
      fun k' hhandler => ?_⟩
    all_goals
      have hraise : (raiseException env .SyscallException 0 : Sys host W true Unit).run
          { k with machine := n } = _ := hhandler
      unfold Syscall.round
      rw [hrun]
      dsimp only
      rw [hraise]
    cases due <;> rfl

theorem runLoop_ok {env : Env W} {due : Bool} {dues : List Bool}
    (h : Syscall.round host env due k = (.ok (), k')) :
    runLoop host env (due :: dues) k = runLoop host env dues k' := by
  rw [runLoop, h]

theorem runLoop_error {env : Env W} {due : Bool} {dues : List Bool} {stop : Stop}
    (h : Syscall.round host env due k = (.error stop, k')) :
    runLoop host env (due :: dues) k = (.error stop, k') := by
  rw [runLoop, h]

/-- Accesses to the machine leave alone what the page table maps. -/
theorem mapping_accesses {m m' : Machine} (h : Relation.ReflTransGen (Access host) m m') :
    m'.tables.mapping = m.tables.mapping := by
  induction h with
  | refl => rfl
  | tail _ hstep ih =>
    cases hstep with
    | register r v => exact ih
    | touch ht => exact (mapping_of_translate ht).trans ih
    | store ht _ => exact (mapping_of_translate ht).trans ih

/-- No kernel code changes what the page table maps. -/
theorem mapping_sys {α : Type} (x : Sys host W true α) (k : Kernel W) :
    (x.run k).2.machine.tables.mapping = k.machine.tables.mapping := by
  refine Confined.invariant (P := fun s => s.machine.tables.mapping = k.machine.tables.mapping)
    ?_ x rfl
  intro s t hstep hs
  cases hstep with
  | result v => exact hs
  | memory hmem _ => exact (mapping_accesses hmem).trans hs
  | trap b => exact (congrArg Tables.mapping (Machine.delayedLoad_tables _ 0 0)).trans hs
  | fileTable t => exact hs
  | call c r => exact (congrArg Tables.mapping (s.answered_tables c r)).trans hs
  | advance h => exact hs

/-- What a call leaves behind when it returns: `r2` and memory as the handler has left them, and
the program behind the call. -/
def afterCall (a : Isa) (result : BitVec 32) (memory : UserMemory) : Isa :=
  advance { a.write 2 result with memory := memory } (a.nextPC + 4) 0

/-- An implemented call that returns. -/
theorem represents_afterCall {env : Env W} {sc : SC} (h : Represents table k.machine a)
    (hsettled : k.machine.Settled) (hcode : a.gpr 2 = sc.code)
    (hsc : sc ∉ [SC.Create, .Open, .Read, .Write, .Close, .Fork, .Yield])
    (hfloat : ¬ (sc = .PrintFloat ∧ a.gpr 4 = 0))
    (hrun : (exceptionHandler env .SyscallException : Sys host W true Unit).run k = (.ok (), k')) :
    Represents table k'.machine
      (a.afterCall (k'.machine.registers R2) (userMemory k'.machine)) := by
  have hshows : Shows table k.machine a := (shows_delayedLoad_iff hsettled.1).mp h.shows
  have hmapping := mapping_sys (exceptionHandler env .SyscallException : Sys host W true Unit) k
  rw [hrun] at hmapping
  obtain ⟨type, k₁, hreg, hrest⟩ := Confined.ok_of_bind hrun
  cases hreg
  have hofCode : SC.ofCode (k.machine.registers R2) = some sc := by
    rw [show k.machine.registers R2 = a.gpr 2 from hshows.gpr 2 (by decide), hcode,
      SC.ofCode_code]
  obtain ⟨handle, hhandle⟩ := Option.isSome_iff_exists.mp
    ((@isSome_handler_iff host W env sc).mpr hsc)
  rw [hofCode] at hrest
  simp only [Option.bind_some, hhandle] at hrest
  obtain ⟨_, k₂, hdone, hadvance⟩ := Confined.ok_of_bind hrest
  cases hadvance
  have hkept : Kept k.machine k₂.machine := by
    refine handler_kept hhandle hsettled (fun hzero => hfloat ⟨hzero.1, ?_⟩) hdone
    rw [← hshows.gpr 4 (by decide)]
    exact hzero.2
  have hset₂ := hkept.settled hsettled
  have hshows₂ : Shows table k₂.machine { a.write 2 (k₂.machine.registers R2) with
      memory := userMemory k₂.machine } := by
    refine ⟨fun r h0 => ?_, (hkept _ (by decide) (by decide)).trans hshows.hi,
      (hkept _ (by decide) (by decide)).trans hshows.lo,
      (hkept _ (by decide) (by decide)).trans hshows.pc,
      (hkept _ (by decide) (by decide)).trans hshows.nextPC, rfl, hmapping.trans hshows.mapping⟩
    by_cases hr : r = 2
    · rw [hr]
      exact (a.write_self (r := 2) _ (by decide)).symm
    · refine Eq.trans ?_ (a.write_of_ne _ hr).symm
      rw [← hshows.gpr r h0]
      exact hkept _ (fun heq => hr (gpr_inj (heq.trans (by decide : R2 = Nachos.gpr 2))))
        (gpr_ne r (by decide)).symm
  exact represents_of_shows hshows₂.incrementR ((incrementR_apply ..).trans hset₂.1)
    ((incrementR_apply ..).trans hset₂.2.2)

/-- The first instruction of a stub only minds a load into `r2`. -/
theorem hazardFree_load (sc : SC) (hdelay : a.loading ≠ 2) :
    HazardFree (a.loading.setWidth 32) (decode sc.load) := by
  have hnum : (a.loading.setWidth 32).toNat = a.loading.toNat :=
    BitVec.toNat_setWidth_of_le (by decide)
  have hop : (decode sc.load).operands = [0] ∧ (decode sc.load).target = some 2 := by
    cases sc <;> decide
  unfold HazardFree Pending
  rw [hop.1, hop.2]
  constructor
  · intro r hr
    cases List.mem_singleton.mp hr
    rintro ⟨hne, hzero⟩
    exact hne (BitVec.eq_of_toNat_eq hzero)
  · intro r hr
    cases hr
    rintro ⟨-, htwo⟩
    rw [hnum] at htwo
    exact hdelay (BitVec.eq_of_toNat_eq htwo)

theorem write_write (a : Isa) (r : BitVec 5) (v w : BitVec 32) :
    (a.write r v).write r w = a.write r w := by
  refine Isa.ext (funext fun r' => ?_) rfl rfl rfl rfl rfl rfl
  show (if r' = 0 then 0 else if r' = r then w else
    if r' = 0 then 0 else if r' = r then v else a.gpr r') =
      if r' = 0 then 0 else if r' = r then w else a.gpr r'
  split_ifs <;> rfl

/-- The way back: the jump and its delay slot. -/
theorem return_to_caller (env : Env W) (hflat : Flat table) (h : Represents table k.machine a)
    (hcode : Loaded (accessFault table) a.memory a.pc [returnWord, 0])
    (hnext : a.nextPC = a.pc + 4) (hpc : a.pc.toNat < 268435448) (hloading : a.loading = 0)
    (d d' : Bool) :
    ∃ m, runLoop host env [d, d'] k = (.ok (), { k with machine := m }) ∧
      Represents table m { a with pc := a.gpr 31, nextPC := a.gpr 31 + 4 } := by
  have hfree : ∀ instr, HazardFree ((0 : BitVec 5).setWidth 32) instr :=
    fun instr => ⟨fun r _ hr => hr.1 rfl, fun r _ hr => hr.1 rfl⟩
  have hdef : a.Defined returnWord := by
    refine ⟨⟨trivial, trivial, by decide, ?_, ?_, fun _ => ⟨hnext, hpc⟩⟩, ?_⟩
    · exact fun hmem => absurd hmem (by decide)
    · exact fun hop => absurd hop (by decide)
    · rw [hloading]
      exact hfree _
  obtain ⟨m, hround, hrep⟩ := @round_ok _ _ _ host W table k env hflat h (read_of_loaded hcode) hdef
    rfl d
  have hread : (a.advance (a.gpr 31) 0).read (accessFault table) (a.advance (a.gpr 31) 0).pc 4 =
      .ok 0 := by
    have hslot : Loaded (accessFault table) a.memory a.nextPC [0] := by
      rw [hnext]
      exact hcode.2.2
    exact read_of_loaded hslot
  obtain ⟨m', hround', hrep'⟩ := @round_ok _ _ _ host W table { k with machine := m } env hflat hrep
    hread ⟨follows_of_plain (by decide), hfree _⟩ (execute_nop _) d'
  refine ⟨m', ?_, ?_⟩
  · rw [runLoop_ok hround, runLoop_ok hround']
    rfl
  · rw [show ({ a with pc := a.gpr 31, nextPC := a.gpr 31 + 4 } : Isa) =
      { a with pc := a.gpr 31, nextPC := a.gpr 31 + 4, loading := 0 } by rw [← hloading]]
    exact hrep'

/-- A call through its stub. The instructions of the stub bring the program to the kernel with the
code in `r2`. If the handler stops the machine or the process, so does the loop. If it returns, and
the call has not overwritten the stub, the program is back at its caller with the result of the
handler in `r2`, whatever interrupts have come; the general registers but `r2`, and `hi` and `lo`,
are as before the call. -/
theorem stub_returns (env : Env W) (hflat : Flat table) (h : Represents table k.machine a)
    {sc : SC} (hsc : sc ∉ [SC.Create, .Open, .Read, .Write, .Close, .Fork, .Yield])
    (hfloat : ¬ (sc = .PrintFloat ∧ a.gpr 4 = 0))
    (hstub : Loaded (accessFault table) a.memory a.pc sc.stub) (hnext : a.nextPC = a.pc + 4)
    (hpc : a.pc.toNat < 268435440) (hdelay : a.loading ≠ 2) (d₁ d₂ d₃ d₄ : Bool) :
    ∃ m, Represents table m ((a.write 2 sc.code).advance (a.pc + 8) 0) ∧ m.Settled ∧
      (∀ stop k', (exceptionHandler env .SyscallException : Sys host W true Unit).run
          { k with machine := m } = (.error stop, k') →
        runLoop host env [d₁, d₂, d₃, d₄] k = (.error stop, k')) ∧
      ∀ k', (exceptionHandler env .SyscallException : Sys host W true Unit).run
          { k with machine := m } = (.ok (), k') →
        Loaded (accessFault table) (userMemory k'.machine) a.pc sc.stub →
        ∃ m', runLoop host env [d₁, d₂, d₃, d₄] k = (.ok (), { k' with machine := m' }) ∧
          Represents table m' { a.write 2 (k'.machine.registers R2) with
            memory := userMemory k'.machine
            pc := a.gpr 31
            nextPC := a.gpr 31 + 4
            loading := 0 } := by
  have height : a.nextPC + 4 = a.pc + 8 := by
    rw [hnext, BitVec.add_assoc]
    rfl
  -- `addiu`
  obtain ⟨m₁, hround₁, hrep₁⟩ := @round_ok _ _ _ host W table k env hflat h
    (read_of_loaded hstub) ⟨follows_of_plain (by cases sc <;> decide), hazardFree_load sc hdelay⟩
    (execute_load_code a sc) d₁
  rw [height] at hrep₁
  -- `syscall`
  have hread₂ : ((a.write 2 sc.code).advance (a.pc + 8) 0).read (accessFault table)
      ((a.write 2 sc.code).advance (a.pc + 8) 0).pc 4 = .ok syscallWord := by
    have htrap : Loaded (accessFault table) a.memory a.nextPC [syscallWord, returnWord, 0] := by
      rw [hnext]
      exact hstub.2.2
    exact read_of_loaded htrap
  obtain ⟨m₂, hrep₂, hsettled, herror, hok⟩ := @round_syscall _ host W table
    { k with machine := m₁ } env hflat hrep₁ hread₂ d₂
  refine ⟨m₂, hrep₂, hsettled, ?_, ?_⟩
  · intro stop k' hhandler
    rw [runLoop_ok hround₁, runLoop_error (herror stop k' hhandler)]
  · intro k' hhandler hkept
    have hcode : (a.write 2 sc.code).gpr 2 = sc.code := a.write_self sc.code (by decide)
    have harg : (a.write 2 sc.code).gpr 4 = a.gpr 4 := a.write_of_ne sc.code (by decide)
    have hcall := @represents_afterCall ((a.write 2 sc.code).advance (a.pc + 8) 0) host W table
      { k with machine := m₂ } k' env sc hrep₂ hsettled hcode hsc
      (fun hzero => hfloat ⟨hzero.1, harg.symm.trans hzero.2⟩) hhandler
    have hreturn : Loaded (accessFault table) (userMemory k'.machine) (a.pc + 8)
        [returnWord, 0] := by
      rw [show a.pc + 8 = a.pc + 4 + 4 by bv_omega]
      exact hkept.2.2.2.2
    have hpc₃ : (a.pc + 8).toNat < 268435448 := by
      rw [BitVec.toNat_add, show (8 : BitVec 32).toNat = 8 from rfl]
      omega
    obtain ⟨m', hrun, hrep⟩ := @return_to_caller _ host W table
      { k' with machine := if d₂ then k'.machine.delayedLoad 0 0 else k'.machine } env hflat
      (by cases d₂; exacts [hcall, hcall.interrupt]) hreturn rfl hpc₃ rfl d₃ d₄
    refine ⟨m', ?_, ?_⟩
    · rw [runLoop_ok hround₁, runLoop_ok (hok k' hhandler)]
      exact hrun
    · have hlink : ((a.write 2 sc.code).write 2 (k'.machine.registers R2)).gpr 31 = a.gpr 31 := by
        rw [write_write]
        exact a.write_of_ne _ (by decide)
      rw [← hlink, ← write_write a 2 sc.code]
      exact hrep

/-- The stub of `PrintInt` at address 0, called from 0x40 with the argument 0. -/
def callingPrintInt : Kernel Unit where
  machine :=
    { registers := fun r => if r = NextPCReg then 4 else if r = RetAddrReg then 0x40 else 0
      mainMemory := fun p =>
        ((SC.stub .PrintInt).flatMap (hostWordBytes .littleEndian)).getD p.toNat 0
      tables := linear onePage }
  fileTable := fun _ => none
  world := ()
  log := []

theorem loaded_callingPrintInt :
    Loaded (accessFault onePage) (view callingPrintInt.machine).memory
      (view callingPrintInt.machine).pc (SC.stub .PrintInt) := by
  refine ⟨rfl, ?_, rfl, ?_, rfl, ?_, rfl, ?_, trivial⟩ <;> decide

/-- What the kernel does with it. -/
theorem handler_printInt_zero {m : Machine} (h2 : m.registers R2 = 12) (h4 : m.registers R4 = 0) :
    (exceptionHandler (answering 0) .SyscallException : Sys .littleEndian Unit true Unit).run
        { callingPrintInt with machine := m } =
      (.ok (), { callingPrintInt with
        machine := m.incrementR, log := [(.consoleWrite [0x30], 0)] }) := by
  have hprint : (handlePrintInt (answering 0) : Sys .littleEndian Unit false Unit).run
      { callingPrintInt with machine := m } =
      (.ok (), { callingPrintInt with machine := m, log := [(.consoleWrite [0x30], 0)] }) := by
    unfold handlePrintInt
    rw [Sys.run_reg_bind]
    dsimp only
    rw [h4]
    rfl
  unfold exceptionHandler
  rw [Sys.run_reg_bind]
  dsimp only
  rw [h2]
  exact Confined.run_bind_ok (x := Sys.plain (handlePrintInt (answering 0))) hprint

/-- `PrintInt` of 0, with an interrupt after the call. -/
theorem stub_returns_printInt : ∃ k',
    runLoop .littleEndian (answering 0) [false, true, false, false] callingPrintInt =
      (.ok (), k') ∧
    k'.log = [(.consoleWrite [0x30], 0)] ∧
    (k'.machine.delayedLoad 0 0).registers PCReg = 0x40 := by
  obtain ⟨m, hrep, hsettled, -, hok⟩ := @stub_returns _ .littleEndian Unit onePage callingPrintInt
    (answering 0) flat_onePage (represents_view ⟨rfl, by decide⟩ rfl) .PrintInt (by decide)
    (by decide) loaded_callingPrintInt rfl (by decide) (by decide) false true false false
  have hshows := (shows_delayedLoad_iff hsettled.1).mp hrep.shows
  have hrun := handler_printInt_zero (hshows.gpr 2 (by decide)) (hshows.gpr 4 (by decide))
  obtain ⟨m', hloop, hrep'⟩ := hok _ hrun (by
    rw [show userMemory m.incrementR = userMemory m from rfl, hshows.memory]
    exact loaded_callingPrintInt)
  exact ⟨_, hloop, rfl, hrep'.shows.pc⟩

end Rounds

end Isa

end Nachos
