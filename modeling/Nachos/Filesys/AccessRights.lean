import Nachos.Filesys.FileTable
import Nachos.Userprog.BadPointers
import Nachos.Userprog.HostFiles

/-!
# Types of open files as access rights

A file is opened with type 0 for reading and writing or with type 1 for reading only. Along every
run the descriptors from 2 on have one of these two types. `ReadFile` serves type 0 and refuses
type 1; `WriteFile` does not look at the type. So the rights are respected exactly on the
descriptors of type 0.
-/

namespace Nachos.FileSystem

open Syscall Transition Function Confined Sys

variable {host : Host} {W : Type} {advances : Bool} {env : Env W} {k k' : Kernel W}
  {id : Fin N_FILES_IN_TABLE} {f : OpenFile} {m : Machine} {events : List FileEvent} {n : Int}
  {r : Except Stop Unit} {bytes : List Byte}

/-! ## What the rights ask for -/

/-- The call was refused: it returned -1, no cursor moved and the host was asked for nothing. -/
def WriteRefused (k k' : Kernel W) : Prop :=
  k'.machine.registers R2 = -1 ∧ k'.fileTable = k.fileTable ∧ k'.log = k.log

/-- The call was served: the host was asked for `charcount` bytes of the file from its cursor on,
their number became the result, or -2 if there were none, and they were copied to the user. -/
def ReadServed (host : Host) (env : Env W) (id : Fin N_FILES_IN_TABLE) (f : OpenFile)
    (k k' : Kernel W) : Prop :=
  ∃ nbytes data k₁ k₂ copied,
    (read env id f (k.machine.registers R5).toInt : Sys host W true _).run k =
      (.ok (nbytes, data), k₁) ∧
    k₁.log = k.log ++ [(.readAt f.file (k.machine.registers R5).toInt f.currentOffset, nbytes)] ∧
    (reportBytes (some id) nbytes : Sys host W true _).run k₁ = (.ok (), k₂) ∧
    k₂.machine.registers R2 = BitVec.ofInt 32 (if nbytes = 0 then -2 else nbytes) ∧
    (Sys.system2User (k.machine.registers R4) nbytes data : Sys host W true _).run k₂ =
      (.ok copied, k')

/-- The host was asked to write to the file at its cursor, and the call did not return -1. -/
def WriteServed (f : OpenFile) (k k' : Kernel W) : Prop :=
  k'.machine.registers R2 ≠ -1 ∧
    ∃ bytes answer, k'.log = k.log ++ [(.writeAt f.file bytes f.currentOffset, answer)]

/-- The rights on descriptor `id`, whose entry is `f`: for every buffer and count in the registers
of a caller, a `WriteFile` that returns is refused if the type is 1, and a `ReadFile` that returns
is served if the type is 0 or 1. -/
def RightsRespected (host : Host) (env : Env W) (k : Kernel W) (id : Fin N_FILES_IN_TABLE)
    (f : OpenFile) : Prop :=
  ∀ m events k', m.registers R6 = BitVec.ofNat 32 id.val →
    (f.type = 1 → step host env k (.WriteFile, m) = some (events, k') →
      WriteRefused { k with machine := m } k') ∧
    (f.type = 0 ∨ f.type = 1 → step host env k (.ReadFile, m) = some (events, k') →
      ReadServed host env id f { k with machine := m } k')

/-- Nothing keeps a `ReadFile` on the entry `f` from coming back: the count fits into the buffer of
the handler, the host answers with -1 or with at most so many bytes, and the caller's buffer is
mapped and writable. -/
structure Deliverable (env : Env W) (world : W) (m : Machine) (f : OpenFile) : Prop where
  small : (m.registers R5).toInt ≤ MAX_FILECONTENT_LEN
  answered : ∃ reply, env.serve (.readAt f.file (m.registers R5).toInt f.currentOffset) world
      m.mainMemory = .ok reply ∧
    (reply.result = -1 ∨
      reply.result = reply.data.length ∧ reply.data.length ≤ (m.registers R5).toInt.toNat)
  mapped : ∃ table place, m.tables = linear table ∧
    Set.InjOn place (Set.Iio (m.registers R5).toInt.toNat) ∧
    ∀ j < (m.registers R5).toInt.toNat,
      lookup table (m.registers R4 + BitVec.ofNat 32 j) = .ok (place j) ∧
        Writable table (m.registers R4 + BitVec.ofNat 32 j)

/-! ## What the two calls do -/

theorem step_eq_some {call : FileCall} (h : step host env k (call, m) = some (events, k')) :
    (call.handle env : Sys host W true Unit).run { k with machine := m } = (.ok (), k') := by
  simp only [step] at h
  split at h
  · rename_i k₁ hrun
    cases h
    exact hrun
  · cases h

theorem reportBytes_R2 (h : (reportBytes (some id) n : Sys host W advances Unit).run k = (r, k')) :
    k'.machine.registers R2 = BitVec.ofInt 32 (if n = 0 then -2 else n) := by
  unfold reportBytes at h
  split at h
  · rename_i hn
    cases h
    rw [if_pos hn]
    exact Machine.writeRegister_self ..
  · rename_i hn
    cases h
    rw [if_neg hn]
    exact Machine.writeRegister_self ..

/-- The result is always reported. -/
theorem reportBytes_returns (host : Host) (advances : Bool) (id : Fin N_FILES_IN_TABLE) (n : Int)
    (k : Kernel W) :
    ∃ k', (reportBytes (some id) n : Sys host W advances Unit).run k = (.ok (), k') ∧
      k'.machine.tables = k.machine.tables := by
  unfold reportBytes
  split <;> exact ⟨_, rfl, rfl⟩

/-- Reading user memory asks the host for nothing. -/
theorem readByte_log {addr : BitVec 32} {r : Option (BitVec 32)}
    (h : (Sys.readByte addr : Sys host W advances _).run k = (.ok r, k')) : k'.log = k.log := by
  obtain ⟨outcome, k₁, hread, h⟩ := ok_of_bind h
  cases hread
  split at h
  · cases h
    rfl
  · rename_i which badVAddr _
    obtain ⟨_, k₂, htrap, h⟩ := ok_of_bind h
    cases h
    cases which <;> cases htrap <;> rfl
  · cases h
  · cases h

/-- The loop of `User2System` asks the host for nothing and stores at most `n` bytes. -/
theorem copyIn_log (virtAddr : BitVec 32) (n idx : Nat) (oneChar : BitVec 32)
    (h : (Sys.copyIn virtAddr n idx oneChar : Sys host W advances _).run k = (.ok bytes, k')) :
    k'.log = k.log ∧ bytes.length ≤ n := by
  induction n generalizing idx oneChar k bytes k' with
  | zero =>
    cases h
    exact ⟨rfl, Nat.le_refl _⟩
  | succ n ih =>
    obtain ⟨byte, k₁, hread, h⟩ := ok_of_bind h
    have hlog := readByte_log hread
    dsimp only at h
    split at h
    · cases h
      exact ⟨hlog, by simp⟩
    · obtain ⟨rest, k₂, hrest, h⟩ := ok_of_bind h
      cases h
      obtain ⟨hlog₂, hlength⟩ := ih _ _ hrest
      exact ⟨hlog₂.trans hlog, by simpa using hlength⟩

theorem user2System_log {virtAddr : BitVec 32} {limit : Int}
    (h : (Sys.user2System env virtAddr limit : Sys host W advances _).run k = (.ok bytes, k')) :
    k'.log = k.log ∧ bytes.length ≤ limit.toNat := by
  unfold Sys.user2System at h
  split at h
  · cases h
  · exact copyIn_log _ _ _ _ h

theorem reportBytes_log (h : (reportBytes (some id) n : Sys host W advances Unit).run k = (r, k')) :
    k'.log = k.log := by
  unfold reportBytes at h
  split at h <;> (cases h; rfl)

/-- The number of bytes written is never reported as -1. -/
theorem written_ne_neg_one {n : Nat} (hn : n < 2 ^ 31) :
    BitVec.ofInt 32 (if (n : Int) = 0 then -2 else n) ≠ -1 := by
  split
  · decide
  · intro h
    have hint := congrArg BitVec.toInt h
    rw [BitVec.toInt_ofInt, Int.bmod_eq_of_le (by omega) (by omega)] at hint
    have hneg : (-1 : BitVec 32).toInt = -1 := by decide
    omega

section Slot

variable (hid : 2 ≤ id.val) (hfileid : k.machine.registers R6 = BitVec.ofNat 32 id.val)
  (hf : k.fileTable id = some f)
include hid hfileid hf

/-- `ReadFile` on a descriptor from 2 on. -/
theorem handleReadFile_slot :
    (handleReadFile env : Sys host W advances Unit).run k =
      (if f.type ≠ 0 then Sys.setR2 (-1)
      else do
        let (nbytes, data) ← read env id f (k.machine.registers R5).toInt
        if data.length > MAX_FILECONTENT_LEN then .stop .undefined
        else do
          reportBytes (some id) nbytes
          let _ ← Sys.system2User (k.machine.registers R4) nbytes data :
        Sys host W advances Unit).run k := by
  obtain ⟨h0, h1, -⟩ := ofNat_slot_ne hid
  rw [handleReadFile, run_reg_bind, run_reg_bind, run_reg_bind, hfileid, if_neg h0,
    if_neg h1, run_fileTable_bind, slot?_eq_some.mpr rfl]
  dsimp only
  rw [hf]

/-- The type 1 is refused. -/
theorem readFile_refused (htype : f.type ≠ 0) :
    (handleReadFile env : Sys host W advances Unit).run k =
      (.ok (), { k with machine := k.machine.writeRegister R2 (-1) }) := by
  rw [handleReadFile_slot hid hfileid hf, if_pos htype]
  rfl

/-- The type 0 is served. -/
theorem readFile_served (htype : f.type = 0)
    (h : (handleReadFile env : Sys host W true Unit).run k = (.ok (), k')) :
    ReadServed host env id f k k' := by
  rw [handleReadFile_slot hid hfileid hf, if_neg (by simpa using htype)] at h
  obtain ⟨⟨nbytes, data⟩, k₁, hread, h⟩ := ok_of_bind h
  dsimp only at h
  split at h
  · cases h
  obtain ⟨_, k₂, hreport, h⟩ := ok_of_bind h
  obtain ⟨copied, k₃, hcopy, h⟩ := ok_of_bind h
  cases h
  refine ⟨nbytes, data, k₁, k₂, copied, hread, ?_, hreport, reportBytes_R2 hreport, hcopy⟩
  obtain ⟨reply, k₀, hcall, hrest⟩ := ok_of_bind hread
  have hlog := call_log hcall
  cases hrest
  exact hlog

/-- The type 0 is served whenever nothing stands in the way. -/
theorem readFile_returns (htype : f.type = 0) (h : Deliverable env k.world k.machine f) :
    ∃ k', (handleReadFile env : Sys host W advances Unit).run k = (.ok (), k') := by
  obtain ⟨hsmall, ⟨reply, hreply, hresult⟩, table, place, htab, hinj, hmap⟩ := h
  rw [handleReadFile_slot hid hfileid hf, if_neg (by simpa using htype)]
  obtain ⟨k₁, hread, htab₁⟩ := read_answered hreply
  rw [run_bind_ok hread]
  dsimp only
  obtain ⟨k₂, hreport, htab₂⟩ := reportBytes_returns host advances id reply.result k₁
  rcases hresult with hfailed | ⟨hresult, hlength⟩
  · rw [hfailed] at hreport ⊢
    rw [if_neg (by simp), run_bind_ok hreport]
    exact ⟨_, rfl⟩
  · rw [hresult] at hreport ⊢
    rw [Int.toNat_natCast, List.take_length, if_neg (by omega), run_bind_ok hreport]
    obtain ⟨r, k₃, hcopy, -⟩ := @system2User_run host W advances reply.data
      (k.machine.registers R4) place table k₂ (by rw [htab₂, htab₁, htab])
      (fun j hj => (hmap j (by omega)).1) (fun j hj => (hmap j (by omega)).2)
      (hinj.mono fun j hj => lt_of_lt_of_le hj hlength)
    rw [run_bind_ok hcopy]
    exact ⟨_, rfl⟩

/-- `WriteFile` on a descriptor from 2 on writes, whatever the type is. -/
theorem writeFile_served (h : (handleWriteFile env : Sys host W true Unit).run k = (.ok (), k')) :
    WriteServed f k k' := by
  obtain ⟨h0, h1, -⟩ := ofNat_slot_ne hid
  rw [handleWriteFile, run_reg_bind, run_reg_bind, run_reg_bind, hfileid] at h
  obtain ⟨buffer, k₁, hcopy, h⟩ := ok_of_bind h
  obtain ⟨hlog₁, hlength⟩ := user2System_log hcopy
  rw [if_neg h0, if_neg h1, run_fileTable_bind, slot?_eq_some.mpr rfl] at h
  dsimp only at h
  rw [keepsFiles_user2System.eq hcopy, hf] at h
  obtain ⟨nbytes, k₂, hwrite, h⟩ := ok_of_bind h
  obtain ⟨reply, k₃, hcall, hset⟩ := ok_of_bind hwrite
  have hlog₃ := call_log hcall
  have hR2 := reportBytes_R2 h
  have hlog := reportBytes_log h
  cases hset
  refine ⟨?_, _, reply.1, hlog.trans (hlog₃.trans (by rw [hlog₁]))⟩
  rw [hR2]
  apply written_ne_neg_one
  have hstring : (cString buffer).length ≤ buffer.length := (List.takeWhile_prefix _).length_le
  have hcount := (k.machine.registers R5).toInt_lt
  simp only [List.length_take]
  omega

end Slot

/-! ## The types in the table -/

/-- The descriptors from 2 on have type 0 or 1. -/
def Typed (table : FileTable) : Prop :=
  ∀ (i : Fin N_FILES_IN_TABLE) f, 2 ≤ i.val → table i = some f → f.type = 0 ∨ f.type = 1

theorem typed_cursorsMoved {table table' : FileTable} (h : Typed table)
    (hmoved : CursorsMoved table table') : Typed table' := by
  intro i f hi hf
  have hentry := (hmoved i).2
  rw [hf, Option.map_some] at hentry
  obtain ⟨f₀, hf₀, heq⟩ := Option.map_eq_some_iff.mp hentry.symm
  rw [← (Prod.mk.inj heq).2]
  exact h i f₀ hi hf₀

/-- `OpenFile` with another type than 0 and 1 gives -1 or a descriptor of the console. -/
theorem handleOpenFile_other (h0 : k.machine.registers R5 ≠ 0) (h1 : k.machine.registers R5 ≠ 1)
    (h : (handleOpenFile env : Sys host W true Unit).run k = (.ok (), k')) :
    k'.machine.registers R2 ∈ [-1#32, 0#32, 1#32] := by
  rw [handleOpenFile, run_reg_bind, run_reg_bind] at h
  split at h
  · rw [(setR2_run h).1]
    decide
  rename_i htype
  obtain ⟨buffer, k₁, hcopy, h⟩ := ok_of_bind h
  dsimp only at h
  split at h
  · split at h <;> (rw [(setR2_run h).1]; decide)
  rename_i hstdin
  split at h
  · split at h <;> (rw [(setR2_run h).1]; decide)
  rename_i hstdout
  exact absurd ⟨h0, h1, fun h2 => hstdin (.inr h2), fun h3 => hstdout (.inr h3)⟩ htype

/-- `OpenFile` puts no other type into the table. -/
theorem typed_handleOpenFile (hk : Typed k.fileTable)
    (h : (handleOpenFile env : Sys host W true Unit).run k = (.ok (), k')) :
    Typed k'.fileTable := by
  have hspec := handleOpenFile_spec h
  by_cases hconsole : k'.machine.registers R2 = 0 ∨ k'.machine.registers R2 = 1
  · rwa [hspec.console hconsole]
  rcases hspec.other (fun h0 => hconsole (.inl h0)) (fun h1 => hconsole (.inr h1)) with
    ⟨-, ht⟩ | ⟨i, file, hresult, hi, -, -, ht⟩
  · rwa [ht]
  · intro j f hj hf
    rw [ht] at hf
    by_cases hji : j = i
    · subst hji
      rw [update_self] at hf
      cases hf
      by_contra hother
      rw [not_or] at hother
      have hne := ofNat_slot_ne hi
      have hin := handleOpenFile_other (fun h0 => hother.1 (by rw [h0]; rfl))
        (fun h1 => hother.2 (by rw [h1]; rfl)) h
      rw [hresult] at hin
      simp only [List.mem_cons, List.not_mem_nil, or_false] at hin
      exact hin.elim hne.2.2 (Or.elim · hne.1 hne.2.1)
    · rw [update_of_ne hji] at hf
      exact hk j f hj hf

theorem typed_handleCloseFile (hk : Typed k.fileTable)
    (h : (handleCloseFile env : Sys host W true Unit).run k = (.ok (), k')) :
    Typed k'.fileTable := by
  rcases handleCloseFile_spec h with ⟨i, -, -, -, -, ht⟩ | ⟨-, -, ht⟩
  · intro j f hj hf
    rw [ht] at hf
    by_cases hji : j = i
    · subst hji
      simp at hf
    · rw [update_of_ne hji] at hf
      exact hk j f hj hf
  · rwa [ht]

/-- What one call keeps. -/
theorem typed_step {act : FileCall × Machine} (hk : Typed k.fileTable)
    (h : step host env k act = some (events, k')) : Typed k'.fileTable := by
  obtain ⟨call, m⟩ := act
  have hrun := step_eq_some h
  have hm : Typed ({ k with machine := m } : Kernel W).fileTable := hk
  generalize ({ k with machine := m } : Kernel W) = k₁ at hrun hm
  cases call with
  | OpenFile => exact typed_handleOpenFile hm hrun
  | CloseFile => exact typed_handleCloseFile hm hrun
  | ReadFile => exact typed_cursorsMoved hm (handleReadFile_cursors hrun)
  | WriteFile => exact typed_cursorsMoved hm (handleWriteFile_cursors hrun)

theorem typed_constructed (fd₀ fd₁ : Int) : Typed (constructed fd₀ fd₁) := by
  intro i f hi hf
  rw [constructed, update_of_ne (by rintro rfl; simp at hi),
    update_of_ne (by rintro rfl; simp at hi)] at hf
  cases hf

/-! ## The rights -/

/-- A read through a descriptor of type 1 always comes back with -1. -/
theorem step_readFile_refused (hid : 2 ≤ id.val) (hf : k.fileTable id = some f)
    (htype : f.type = 1) (hm : m.registers R6 = BitVec.ofNat 32 id.val) :
    step host env k (.ReadFile, m) = some ([⟨.ReadFile, m.registers R4, -1⟩],
      { k with machine := m.writeRegister R2 (-1) }) := by
  have hrun : (FileCall.ReadFile.handle env : Sys host W true Unit).run { k with machine := m } =
      (.ok (), { k with machine := m.writeRegister R2 (-1) }) :=
    readFile_refused hid hm hf (by rw [htype]; decide)
  simp only [step, hrun, Machine.writeRegister_self]

/-- A served read has asked the host. -/
theorem ReadServed.log_ne (h : ReadServed host env id f k k') : k'.log ≠ k.log := by
  obtain ⟨nbytes, data, k₁, k₂, copied, -, hlog, hreport, -, hcopy⟩ := h
  intro heq
  have hgrows := log_grows (Sys.system2User (k.machine.registers R4) nbytes data :
    Sys host W true _) k₂
  rw [hcopy, heq, reportBytes_log hreport, hlog] at hgrows
  have hlength := hgrows.length_le
  simp at hlength

/-- After the constructor and any sequence of calls, a descriptor from 2 on has type 0 or 1. Its
right is respected exactly if the type is 0: every `WriteFile` on it that returns has written to
the file, and on type 1 every `ReadFile` returns -1. On type 0 a `ReadFile` returns for a mapped
buffer, a count up to `MAX_FILECONTENT_LEN` and a host that answers. -/
theorem access_rights_iff (host : Host) (env : Env W) (k₀ k k' : Kernel W)
    (trace : List FileEvent) (hstart : (construct env : Sys host W true Unit).run k₀ = (.ok (), k))
    (hrun : Run (step host env) anyAct k trace k') {id : Fin N_FILES_IN_TABLE} (hid : 2 ≤ id.val)
    {f : OpenFile} (hf : k'.fileTable id = some f) :
    (f.type = 0 ∨ f.type = 1) ∧ (RightsRespected host env k' id f ↔ f.type = 0) ∧
    (∀ m events k'', m.registers R6 = BitVec.ofNat 32 id.val →
      step host env k' (.WriteFile, m) = some (events, k'') →
      WriteServed f { k' with machine := m } k'') ∧
    (f.type = 1 → ∀ m, m.registers R6 = BitVec.ofNat 32 id.val →
      step host env k' (.ReadFile, m) = some ([⟨.ReadFile, m.registers R4, -1⟩],
        { k' with machine := m.writeRegister R2 (-1) })) ∧
    (f.type = 0 → ∀ m, m.registers R6 = BitVec.ofNat 32 id.val → Deliverable env k'.world m f →
      ∃ events k'', step host env k' (.ReadFile, m) = some (events, k'')) := by
  obtain ⟨fd₀, fd₁, hconstructed, -⟩ := construct_spec hstart
  have htyped : Typed k'.fileTable := by
    apply hrun.invariant
    · rw [hconstructed]
      exact typed_constructed fd₀ fd₁
    · intro s act events t hs _ hstep
      exact typed_step hs hstep
  have htype := htyped id f hid hf
  refine ⟨htype, ⟨fun hrespected => ?_, fun hzero => ?_⟩, ?_, ?_, ?_⟩
  · refine htype.resolve_right fun hone => ?_
    let m : Machine := k'.machine.writeRegister R6 (BitVec.ofNat 32 id.val)
    have hm : m.registers R6 = BitVec.ofNat 32 id.val := Machine.writeRegister_self ..
    exact ((hrespected m _ _ hm).2 htype (step_readFile_refused hid hf hone hm)).log_ne rfl
  · intro m events k'' hm
    refine ⟨fun hone => absurd (hzero.symm.trans hone) (by decide), fun _ hstep => ?_⟩
    exact readFile_served (k := { k' with machine := m }) hid hm hf hzero (step_eq_some hstep)
  · intro m events k'' hm hstep
    exact writeFile_served (k := { k' with machine := m }) hid hm hf (step_eq_some hstep)
  · intro hone m hm
    exact step_readFile_refused hid hf hone hm
  · intro hzero m hm hdeliverable
    apply step_of_run
    exact readFile_returns (k := { k' with machine := m }) hid hm hf hzero hdeliverable

/-- A program with the name and the text `"x"` at address 0, the open type or the count in `r5` and
descriptor 2 in `r6`. -/
def caller (r5 : BitVec 32) : Machine where
  registers := fun r => if r = R5 then r5 else if r = R6 then 2 else 0
  mainMemory := fun p => if p = 0 then 0x78 else 0
  tables := linear onePage

/-- A file opened with type 0. -/
theorem access_rights_type_zero : ∃ k k' f,
    (construct (answering 5) : Sys .littleEndian Unit true Unit).run blank = (.ok (), k) ∧
    Run (step .littleEndian (answering 5)) anyAct k [⟨.OpenFile, 0, 2⟩] k' ∧
    k'.fileTable 2 = some f ∧ RightsRespected .littleEndian (answering 5) k' 2 f := by
  have hact : ∀ k : Kernel Unit, anyAct k (FileCall.OpenFile, caller 0) := fun _ => trivial
  refine ⟨_, _, _, rfl, .snoc .refl (hact _) rfl, rfl, ?_⟩
  exact (access_rights_iff .littleEndian (answering 5) blank _ _ _ rfl
    (.snoc .refl (hact _) rfl) (by decide) rfl).2.1.mpr rfl

/-- A file opened with type 1: `WriteFile` writes to it and moves its cursor, `ReadFile` returns
-1. -/
theorem read_only_written : ∃ k k',
    (construct (answering 5) : Sys .littleEndian Unit true Unit).run blank = (.ok (), k) ∧
    Run (step .littleEndian (answering 5)) anyAct k
      [⟨.OpenFile, 0, 2⟩, ⟨.WriteFile, 0, 1⟩, ⟨.ReadFile, 0, -1⟩] k' ∧
    k'.fileTable 2 = some ⟨5, 1, 1⟩ ∧ (.writeAt 5 [0x78] 0, 5) ∈ k'.log := by
  let k := ((construct (answering 5) : Sys .littleEndian Unit true Unit).run blank).2
  obtain ⟨trace, k', hrun, rfl, hfile, hlog⟩ := run_reaches (step .littleEndian (answering 5)) k
    (fun trace k' => trace = [⟨.OpenFile, 0, 2⟩, ⟨.WriteFile, 0, 1⟩, ⟨.ReadFile, 0, -1⟩] ∧
      k'.fileTable 2 = some ⟨5, 1, 1⟩ ∧ (.writeAt 5 [0x78] 0, 5) ∈ k'.log)
    [(.OpenFile, caller 1), (.WriteFile, caller 1), (.ReadFile, caller 1)] (by decide +kernel)
  exact ⟨k, k', rfl, hrun, hfile, hlog⟩

end Nachos.FileSystem
