import Mathlib.Data.List.TakeWhile
import Nachos.Userprog.HostFiles

/-!
# Writing a file piece by piece

`WriteFile` takes the buffer for a C string, so a zero byte ends what is written. A call that writes
nothing is treated as the end of the file: the cursor goes back to the start, and the next call
overwrites what is there. `write_files_append_iff` says that nothing else goes wrong.
-/

namespace Nachos.Syscall

open FileSystem BlockWrite

variable {host : Host} {W : Type} {env : Env W} {contents : W → Int → List Byte}
  {id : Fin N_FILES_IN_TABLE}

/-- A call of `WriteFile`, with a count for which `User2System` gets its buffer. -/
structure WriteCall (id : Fin N_FILES_IN_TABLE) extends FileCall id where
  allocated : count ≠ 2147483647

/-- The bytes that the program wants to write. -/
def WriteCall.bytes (c : WriteCall id) : List Byte := c.buffer c.machine.mainMemory c.count

theorem WriteCall.length_bytes (c : WriteCall id) : c.bytes.length = c.count := by
  simp [WriteCall.bytes, FileCall.buffer]

/-! ## One call -/

/-- Of mapped bytes the string up to the first zero byte arrives. -/
theorem cString_copyText_mapped {read : Nat → Except ExceptionType Byte} (bytes : List Byte)
    {idx : Nat} (hread : ∀ i b, bytes[i]? = some b → read (idx + i) = .ok b) (oneChar : BitVec 32) :
    ∃ buffer, copyText read bytes.length idx oneChar = some buffer ∧
      cString buffer = cString bytes := by
  induction bytes generalizing idx oneChar with
  | nil => exact ⟨[], rfl, rfl⟩
  | cons b rest ih =>
    have hhead : read idx = .ok b := hread 0 b rfl
    rw [List.length_cons, copyText, hhead]
    by_cases hzero : b = 0
    · subst hzero
      exact ⟨[0], rfl, rfl⟩
    · obtain ⟨buffer, hbuffer, htext⟩ := @ih (idx + 1) (fun i b' hb' => by
        rw [show idx + 1 + i = idx + (i + 1) by omega]
        exact hread (i + 1) b' hb') (b.signExtend 32)
      refine ⟨b :: buffer, ?_, ?_⟩
      · simp only [nextChar, signExtend_ne_zero hzero, if_false, hbuffer, Option.map_some,
          setWidth_signExtend]
      · simp only [cString] at htext ⊢
        rw [List.takeWhile_cons_of_pos (by simpa using hzero),
          List.takeWhile_cons_of_pos (by simpa using hzero), htext]

/-- `User2System` brings the string in the buffer of a call into the kernel. -/
theorem user2System_bytes (c : WriteCall id) {k : Kernel W} (hmachine : k.machine = c.machine) :
    ∃ buffer k', (Sys.user2System env (c.machine.registers R4) (c.machine.registers R5).toInt :
        Sys host W false _).run k = (.ok buffer, k') ∧
      cString buffer = cString c.bytes ∧ Untouched c.table k k' := by
  have hlimit : (c.count : Int) < 2147483648 := by
    rw [← c.charcount]
    exact BitVec.toInt_lt
  have hallocated := c.allocated
  obtain ⟨k', hcopy, huntouched⟩ := user2System_run host false env
    ((congrArg Machine.tables hmachine).trans c.tables) (hmachine ▸ c.settled)
    (c.machine.registers R4) (c.machine.registers R5).toInt (by rw [c.charcount]; omega)
    (by rw [c.charcount]; omega)
  obtain ⟨buffer, hbuffer, hstring⟩ := @cString_copyText_mapped
    (fun i => byteAt c.table k.machine.mainMemory (c.machine.registers R4 + BitVec.ofNat 32 i))
    c.bytes 0 (fun i b hb => by
      have hi : i < c.count := c.length_bytes ▸ (List.getElem?_eq_some_iff.mp hb).1
      have hb : c.machine.mainMemory (c.place i) = b := by
        simpa [WriteCall.bytes, FileCall.buffer, hi] using hb
      rw [Nat.zero_add, byteAt, c.mapped i hi, hmachine, ← hb]
      rfl) (env.uninit k.world)
  have hcount : (c.machine.registers R5).toInt.toNat = c.bytes.length := by
    rw [c.charcount, Int.toNat_natCast, c.length_bytes]
  rw [hcount, hbuffer] at hcopy
  exact ⟨buffer, k', hcopy, hstring, huntouched⟩

/-- A call at the position `pos` writes the string in the buffer there. -/
theorem handleWriteFile_run (hfiles : HostFiles env contents) (c : WriteCall id) (hid : 2 ≤ id.val)
    {k : Kernel W} (hmachine : k.machine = c.machine) {file : Int} {pos : Nat}
    (hentry : k.fileTable id = some ⟨file, pos, 0⟩) {text written : List Byte}
    (htext : contents k.world file = text) (hpos : pos ≤ text.length)
    (hwritten : cString c.bytes = written) :
    ∃ k', (handleWriteFile env : Sys host W false _).run k = (.ok (), k') ∧
      contents k'.world file = text.take pos ++ written ++ text.drop (pos + written.length) ∧
      k'.fileTable id =
        some ⟨file, (if written.length = 0 then 0 else pos + written.length : Nat), 0⟩ ∧
      (k'.machine.registers R2).toInt =
        (if written.length = 0 then (-2 : Int) else written.length) := by
  subst htext hwritten
  have hlength : (cString c.bytes).length ≤ c.count := by
    rw [← c.length_bytes]
    exact (List.takeWhile_prefix _).length_le
  have hlimit : (c.count : Int) < 2147483648 := by
    rw [← c.charcount]
    exact BitVec.toInt_lt
  obtain ⟨hstdin, hstdout, hslot⟩ := c.slot hid
  obtain ⟨buffer, k₀, hcopy, hstring, huntouched⟩ :=
    @user2System_bytes host W env id c k hmachine
  have hset₀ : k₀.machine.Settled := huntouched.kept.settled (hmachine ▸ c.settled)
  obtain ⟨result, world', hwrite, hcontents⟩ := @write_run host W id env contents hfiles k₀ hset₀
    file pos (by rwa [huntouched.world]) (cString c.bytes)
  obtain ⟨k', hreport, htable, hresult, hworld, -, -⟩ :=
    @reportBytes_run host W id (moved k₀ id ⟨file, pos + (cString c.bytes).length, 0⟩
      (.writeAt file (cString c.bytes) pos) result world')
      ⟨file, pos + (cString c.bytes).length, 0⟩ (cString c.bytes).length (by omega)
      (Function.update_self ..)
  refine ⟨k', ?_, ?_, ?_, hresult⟩
  · unfold handleWriteFile
    rw [Sys.run_reg_bind, Sys.run_reg_bind, Sys.run_reg_bind, hmachine, Confined.run_bind_ok hcopy,
      if_neg hstdin, if_neg hstdout, Sys.run_fileTable_bind, hslot]
    dsimp only
    rw [huntouched.fileTable, hentry]
    dsimp only
    rw [hstring, c.charcount, List.take_of_length_le (by omega), Confined.run_bind_ok hwrite,
      hreport]
  · rw [hworld]
    show contents world' file = _
    rw [hcontents, huntouched.world]
  · rw [htable]
    split <;> simp

/-! ## The whole file -/

/-- After the call the file is `text` and the bytes of the call, the cursor is at its end, and a
positive count is returned. -/
structure Appended (contents : W → Int → List Byte) (file : Int) (text : List Byte)
    (r : Returned (WriteCall id) W) : Prop where
  file_eq : contents r.after.world file = text ++ r.call.bytes
  atEnd : position r.after id = (text ++ r.call.bytes).length
  result_eq : 0 < r.call.count → r.result = r.call.count

/-- After each call the file is `text` and the bytes of all calls so far. -/
def Appends (contents : W → Int → List Byte) (file : Int) :
    List Byte → List (Returned (WriteCall id) W) → Prop
  | _, [] => True
  | text, r :: rest =>
    Appended contents file text r ∧ Appends contents file (text ++ r.call.bytes) rest

/-- One call with the cursor at the end of the file. -/
theorem write_call (hfiles : HostFiles env contents) (c : WriteCall id) (hid : 2 ≤ id.val)
    {k : Kernel W} (hmachine : k.machine = c.machine) {file : Int} {text : List Byte}
    (hentry : k.fileTable id = some ⟨file, text.length, 0⟩)
    (htext : contents k.world file = text) {k' : Kernel W}
    (hrun : (handleWriteFile env : Sys host W false _).run k = (.ok (), k')) :
    Appended contents file text ⟨c, k, k'⟩ ↔ 0 ∉ c.bytes ∧ (c.count = 0 → text = []) := by
  obtain ⟨k₁, hrun₁, hcontents, htable, hresult⟩ := @handleWriteFile_run host W env contents id
    hfiles c hid k hmachine file text.length hentry text _ htext (Nat.le_refl _) rfl
  obtain rfl : k' = k₁ := congrArg Prod.snd (hrun.symm.trans hrun₁)
  have hposition : position k' id = (if (cString c.bytes).length = 0 then 0
      else text.length + (cString c.bytes).length : Nat) := by
    rw [position, htable]
    rfl
  rw [List.take_length, List.drop_eq_nil_of_le (by omega), List.append_nil] at hcontents
  have hlength := c.length_bytes
  constructor
  · rintro ⟨hfile, hend, -⟩
    have hall : cString c.bytes = c.bytes := List.append_cancel_left (hcontents.symm.trans hfile)
    constructor
    · intro hzero
      rw [← hall] at hzero
      simpa using List.mem_takeWhile_imp hzero
    · intro hcount
      rw [hposition, hall, if_pos (by omega), List.length_append] at hend
      exact List.length_eq_zero_iff.mp (by omega)
  · rintro ⟨hzero, hempty⟩
    have hall : cString c.bytes = c.bytes := by
      rw [cString, List.takeWhile_eq_self_iff]
      intro b hb
      simpa using fun h : b = 0 => hzero (h ▸ hb)
    rw [hall] at hcontents hposition hresult
    refine ⟨hcontents, ?_, fun hcount => ?_⟩
    · show position k' id = (text ++ c.bytes).length
      rw [hposition, List.length_append]
      split
      · have := List.length_eq_zero_iff.mpr (hempty (by omega))
        omega
      · rfl
    · show (k'.machine.registers R2).toInt = c.count
      have hcount : 0 < c.count := hcount
      rw [hresult, if_neg (by omega), hlength]

/-- The calls from a file with its cursor at the end. -/
theorem calls_writeFile (hfiles : HostFiles env contents) (hid : 2 ≤ id.val)
    (cs : List (WriteCall id)) {k : Kernel W} {file : Int} {pos : Nat}
    (hentry : k.fileTable id = some ⟨file, pos, 0⟩) {text : List Byte}
    (htext : contents k.world file = text) (hpos : pos ≤ text.length) :
    ∃ trace, calls (handleWriteFile env : Sys host W false _) (fun c => c.machine) k cs =
        .ok trace ∧
      (pos = text.length → (Appends contents file text trace ↔
        (∀ c ∈ cs, 0 ∉ c.bytes) ∧ cs.Pairwise (fun c d => d.count = 0 → c.count = 0) ∧
          (text ≠ [] → ∀ c ∈ cs, c.count ≠ 0))) := by
  induction cs generalizing k pos text with
  | nil => exact ⟨[], rfl, fun _ => by simp [Appends]⟩
  | cons c rest ih =>
    obtain ⟨k', hrun, hcontents, hentry', hresult⟩ := @handleWriteFile_run host W env contents id
      hfiles c hid { k with machine := c.machine } rfl file pos hentry text _ htext hpos rfl
    have hinside : (if (cString c.bytes).length = 0 then 0 else pos + (cString c.bytes).length) ≤
        (contents k'.world file).length := by
      rw [hcontents]
      simp only [List.length_append, List.length_take, List.length_drop]
      split <;> omega
    obtain ⟨trace, htrace, hiff⟩ := ih hentry' rfl hinside
    refine ⟨_, calls_cons hrun htrace, fun hend => ?_⟩
    subst hend
    have hcall := @write_call host W env contents id hfiles c hid { k with machine := c.machine }
      rfl file text hentry htext k' hrun
    rw [List.forall_mem_cons, List.pairwise_cons, List.forall_mem_cons]
    rw [Appends, hcall]
    by_cases hgood : 0 ∉ c.bytes ∧ (c.count = 0 → text = [])
    · -- the next call finds the cursor at the end again
      obtain ⟨hfile, hend, -⟩ := hcall.mpr hgood
      have hnext : (if (cString c.bytes).length = 0 then 0
          else text.length + (cString c.bytes).length) = (text ++ c.bytes).length := by
        rw [position, hentry'] at hend
        exact Int.ofNat_inj.mp hend
      rw [hfile] at hiff
      rw [hiff hnext]
      have hbytes : text ++ c.bytes ≠ [] ↔ text ≠ [] ∨ c.count ≠ 0 := by
        rw [← c.length_bytes, Ne, List.append_eq_nil_iff, not_and_or, Ne, Ne,
          List.length_eq_zero_iff]
      rw [hbytes]
      constructor
      · rintro ⟨-, hzeros, hpairs, hcounts⟩
        refine ⟨⟨hgood.1, hzeros⟩, ⟨fun d hd hnone => ?_, hpairs⟩, fun hne => ⟨?_, ?_⟩⟩
        · by_contra hsome
          exact hcounts (.inr hsome) d hd hnone
        · exact fun hnone => hne (hgood.2 hnone)
        · exact hcounts (.inl hne)
      · rintro ⟨⟨-, hzeros⟩, ⟨hhead, hpairs⟩, hcounts⟩
        refine ⟨hgood, hzeros, hpairs, fun hne d hd hnone => ?_⟩
        rcases hne with hne | hsome
        · exact (hcounts hne).2 d hd hnone
        · exact hsome (hhead d hd hnone)
    · refine iff_of_false (fun h => hgood h.1) fun h => hgood ⟨h.1.1, fun hnone => ?_⟩
      by_contra hne
      exact (h.2.2 hne).1 hnone

/-- A file that is empty and open with type 0 is written by any sequence of calls. They append
exactly if no byte to be written is zero and no call with count 0 comes after one that writes. -/
theorem write_files_append_iff (host : Host) (hfiles : HostFiles env contents) (hid : 2 ≤ id.val)
    {k : Kernel W} {file : Int} (hopen : k.fileTable id = some ⟨file, 0, 0⟩)
    (hnew : contents k.world file = []) (cs : List (WriteCall id)) :
    ∃ trace, calls (handleWriteFile env : Sys host W false _) (fun c => c.machine) k cs =
        .ok trace ∧
      (Appends contents file [] trace ↔
        (∀ c ∈ cs, 0 ∉ c.bytes) ∧ cs.Pairwise fun c d => d.count = 0 → c.count = 0) := by
  obtain ⟨trace, htrace, hiff⟩ :=
    @calls_writeFile host W env contents id hfiles hid cs k file 0 hopen [] hnew (Nat.le_refl 0)
  refine ⟨trace, htrace, (hiff rfl).trans ?_⟩
  simp

theorem page_allocated {count : Nat} (h : count ≤ PageSize) : count ≠ 2147483647 := by
  simp only [PageSize, SectorSize] at h
  omega

/-- A call with the given bytes in its buffer. -/
def pageWrite (bytes : List Byte) (count : Nat) (h : count ≤ PageSize) : WriteCall firstSlot where
  toFileCall := pageCall bytes count h
  allocated := page_allocated h

/-- A call that writes nothing, and two that write. -/
theorem write_files_append_three : ∃ trace,
    calls (handleWriteFile oneFile : Sys .littleEndian _ false _) (fun c => c.machine)
        (fileKernel []) [pageWrite [] 0 (by decide), pageWrite [97, 98] 2 (by decide),
          pageWrite [99] 1 (by decide)] = .ok trace ∧
      Appends (fun text _ => text) 3 [] trace := by
  obtain ⟨trace, htrace, hiff⟩ := @write_files_append_iff _ oneFile _ firstSlot .littleEndian
    oneFile_hostFiles (by decide) (fileKernel []) 3 rfl rfl [pageWrite [] 0 (by decide),
      pageWrite [97, 98] 2 (by decide), pageWrite [99] 1 (by decide)]
  refine ⟨trace, htrace, hiff.mpr ⟨?_, ?_⟩⟩
  · simp only [List.forall_mem_cons]
    decide
  · simp only [List.pairwise_cons, List.forall_mem_cons]
    decide

/-- Of the bytes `a`, 0, `b` the first one is written; and after a call with count 0 the next one
overwrites what is there. -/
theorem write_file_stops_or_overwrites :
    (∃ r, calls (handleWriteFile oneFile : Sys .littleEndian _ false _) (fun c => c.machine)
        (fileKernel []) [pageWrite [97, 0, 98] 3 (by decide)] = .ok [r] ∧
      r.after.world = [97] ∧ r.result = 1 ∧ ¬ Appends (fun text _ => text) 3 [] [r]) ∧
    ∃ r₁ r₂ r₃, calls (handleWriteFile oneFile : Sys .littleEndian _ false _) (fun c => c.machine)
        (fileKernel []) [pageWrite [97] 1 (by decide), pageWrite [] 0 (by decide),
          pageWrite [98] 1 (by decide)] = .ok [r₁, r₂, r₃] ∧
      position r₂.after firstSlot = 0 ∧ r₃.after.world = [98] ∧
      ¬ Appends (fun text _ => text) 3 [] [r₁, r₂, r₃] := by
  have hwrite := @handleWriteFile_run .littleEndian _ oneFile _ firstSlot oneFile_hostFiles
  constructor
  · obtain ⟨k, hrun, hfile, -, hresult⟩ := @hwrite (pageWrite [97, 0, 98] 3 (by decide)) (by decide)
      { fileKernel [] with machine := (pageWrite [97, 0, 98] 3 (by decide)).machine } rfl 3 0 rfl
      [] [97] rfl (Nat.le_refl 0) rfl
    refine ⟨_, calls_cons hrun rfl, hfile, hresult, fun h => ?_⟩
    have hwhole : [97#8] = [97#8, 0#8, 98#8] := hfile.symm.trans h.1.file_eq
    exact absurd hwhole (by decide)
  · obtain ⟨k₁, hrun₁, hfile₁, hentry₁, -⟩ := @hwrite (pageWrite [97] 1 (by decide)) (by decide)
      { fileKernel [] with machine := (pageWrite [97] 1 (by decide)).machine } rfl 3 0 rfl
      [] [97] rfl (Nat.le_refl 0) rfl
    obtain ⟨k₂, hrun₂, hfile₂, hentry₂, -⟩ := @hwrite (pageWrite [] 0 (by decide)) (by decide)
      { k₁ with machine := (pageWrite [] 0 (by decide)).machine } rfl 3 1 hentry₁
      [97] [] hfile₁ (by decide) rfl
    obtain ⟨k₃, hrun₃, hfile₃, -, -⟩ := @hwrite (pageWrite [98] 1 (by decide)) (by decide)
      { k₂ with machine := (pageWrite [98] 1 (by decide)).machine } rfl 3 0 hentry₂
      [97] [98] hfile₂ (by decide) rfl
    have hposition : position k₂ firstSlot = 0 := by
      rw [position, hentry₂]
      rfl
    refine ⟨_, _, _, calls_cons hrun₁ (calls_cons hrun₂ (calls_cons hrun₃ rfl)), hposition, hfile₃,
      fun h => ?_⟩
    have hend : (0 : Int) = 1 := hposition.symm.trans h.2.1.atEnd
    exact absurd hend (by decide)

end Nachos.Syscall
