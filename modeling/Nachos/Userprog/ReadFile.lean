import Nachos.Userprog.HostFiles

/-!
# Reading a file from its start to its end

A program reads an open file by one `ReadFile` after the other. The cursor, the value in `r2` and
the return to the start at the end of the file are as they should be for every file. What arrives in
the buffer is not: `System2User` stops behind a zero byte, so the rest of the piece is missing
(`read_files_deliver_iff`).
-/

namespace Nachos.Syscall

open FileSystem BlockWrite

variable {host : Host} {W : Type} {env : Env W} {contents : W → Int → List Byte}
  {id : Fin N_FILES_IN_TABLE}

/-- A call of `ReadFile` whose buffer the program may write. Different addresses are different
places, as in every page table of the loader. -/
structure ReadCall (id : Fin N_FILES_IN_TABLE) extends FileCall id where
  bounds : 1 ≤ count ∧ count ≤ MAX_FILECONTENT_LEN
  writable : ∀ i < count, Writable table (machine.registers R4 + BitVec.ofNat 32 i)
  distinct : Set.InjOn place (Set.Iio count)

/-! ## One call -/

/-- A call at the position `pos` takes the next piece of the file. Of its bytes those up to the
first zero byte are stored. -/
theorem handleReadFile_run (hfiles : HostFiles env contents) (c : ReadCall id) (hid : 2 ≤ id.val)
    {k : Kernel W} (hmachine : k.machine = c.machine) {file : Int} {pos : Nat}
    (hentry : k.fileTable id = some ⟨file, pos, 0⟩) {piece : List Byte}
    (hpiece : ((contents k.world file).drop pos).take c.count = piece) :
    ∃ k', (handleReadFile env : Sys host W false _).run k = (.ok (), k') ∧
      contents k'.world = contents k.world ∧
      k'.fileTable id = some ⟨file, if piece.length = 0 then 0 else pos + piece.length, 0⟩ ∧
      (k'.machine.registers R2).toInt = (if piece.length = 0 then (-2 : Int) else piece.length) ∧
      (∀ j < copied piece, k'.machine.mainMemory (c.place j) = piece.getD j 0) ∧
      ∀ q : Int, (∀ j < copied piece, (c.place j : Int) ≠ q) →
        k'.machine.mainMemory q = k.machine.mainMemory q := by
  have hlength : piece.length ≤ c.count := by
    rw [← hpiece]
    exact List.length_take_le ..
  have hmax := c.bounds.2
  obtain ⟨hstdin, hstdout, hslot⟩ := c.slot hid
  have hset : k.machine.Settled := hmachine ▸ c.settled
  obtain ⟨world', hread, hcontents⟩ := @read_run host W id env contents hfiles k hset file pos
    c.count piece hpiece
  obtain ⟨k₁, hreport, htable₁, hresult₁, hworld₁, hmemory₁, htables₁⟩ :=
    @reportBytes_run host W id (moved k id ⟨file, pos + piece.length, 0⟩
      (.readAt file c.count pos) piece.length world') ⟨file, pos + piece.length, 0⟩ piece.length
      (by rw [MAX_FILECONTENT_LEN] at hmax; omega) (Function.update_self ..)
  obtain ⟨r, k', hcopy, hregs, htable, hworld, hin, hout⟩ :=
    @system2User_run host W false piece (c.machine.registers R4) c.place c.table k₁
      (htables₁.trans (by rw [← c.tables, ← hmachine]; rfl))
      (fun j hj => c.mapped j (by omega)) (fun j hj => c.writable j (by omega))
      (c.distinct.mono fun j hj => Set.mem_Iio.mpr (by have := Set.mem_Iio.mp hj; omega))
  refine ⟨k', ?_, ?_, ?_, ?_, hin, fun q hq => (hout q hq).trans (congrFun hmemory₁ q)⟩
  · unfold handleReadFile
    rw [Sys.run_reg_bind, Sys.run_reg_bind, Sys.run_reg_bind, hmachine, if_neg hstdin,
      if_neg hstdout, Sys.run_fileTable_bind, hslot]
    dsimp only
    rw [hentry]
    dsimp only
    rw [if_neg (by simp), c.charcount, Confined.run_bind_ok hread]
    dsimp only
    rw [if_neg (by omega), Confined.run_bind_ok hreport, Confined.run_bind_ok hcopy]
    rfl
  · rw [hworld, hworld₁]
    exact hcontents
  · rw [htable, htable₁]
  · rw [hregs, hresult₁]

/-! ## The whole file -/

/-- A call that returns `n > 0` leaves the next `n` bytes of the file in the buffer and nothing
beyond. -/
def Delivered (text : List Byte) (r : Returned (ReadCall id) W) : Prop :=
  ∀ n : Nat, 0 < n → r.result = n →
    r.call.buffer r.after.machine.mainMemory n =
        (text.drop (position r.before id).toNat).take n ∧
      ∀ q : Int, (∀ i < n, (r.call.place i : Int) ≠ q) →
        r.after.machine.mainMemory q = r.before.machine.mainMemory q

/-- The result is `-2` exactly at the end of the file, and then the next call starts again. After
`n` bytes it goes on behind them. -/
structure Advances (text : List Byte) (r : Returned (ReadCall id) W) : Prop where
  endOfFile : r.result = -2 ↔ position r.before id = text.length
  restarts : r.result = -2 → position r.after id = 0
  goesOn : r.result ≠ -2 → 0 < r.result ∧ position r.after id = position r.before id + r.result

/-- The program reads the file as it is. -/
structure ReadsFile (text : List Byte) (trace : List (Returned (ReadCall id) W)) : Prop where
  delivered : ∀ r ∈ trace, Delivered text r
  advances : ∀ r ∈ trace, Advances text r
  /-- The pieces up to the first `-2` are the file. -/
  whole : (∃ r ∈ trace, r.result = -2) →
    (trace.takeWhile fun r => r.result ≠ -2).flatMap (fun r =>
      r.call.buffer r.after.machine.mainMemory r.result.toNat) = text

/-- From the position `pos` on, every byte that comes behind a zero byte in its piece stands at its
place in the buffer already. -/
def NothingLost (text : List Byte) : Nat → List (ReadCall id) → Prop
  | _, [] => True
  | pos, c :: rest =>
    let piece := (text.drop pos).take c.count
    (∀ i j, j < i → i < piece.length → piece[j]? = some 0 →
      c.machine.mainMemory (c.place i) = piece.getD i 0) ∧
    NothingLost text (if piece.length = 0 then 0 else pos + piece.length) rest

/-- What is left in the buffer when the bytes up to the first zero byte have been stored. -/
theorem buffer_eq_iff (c : ReadCall id) {piece : List Byte} (hlength : piece.length ≤ c.count)
    {before after : Store Byte}
    (hin : ∀ j < copied piece, after (c.place j) = piece.getD j 0)
    (hout : ∀ q : Int, (∀ j < copied piece, (c.place j : Int) ≠ q) → after q = before q) :
    c.buffer after piece.length = piece ↔
      ∀ i j, j < i → i < piece.length → piece[j]? = some 0 →
        before (c.place i) = piece.getD i 0 := by
  have hle := copied_le_length piece
  have hsame : c.buffer after piece.length = piece ↔
      ∀ i < piece.length, after (c.place i) = piece.getD i 0 := by
    rw [FileCall.buffer]
    constructor
    · intro heq i hi
      have hget := congrArg (·.getD i 0) heq
      simpa [List.getD_eq_getElem?_getD, hi] using hget
    · intro hall
      apply List.ext_getElem (by simp)
      intro i hi hi'
      rw [List.getElem_map, List.getElem_range, hall i hi', List.getD_eq_getElem?_getD,
        List.getElem?_eq_getElem hi', Option.getD_some]
  -- behind the first zero byte the buffer is as it was
  have hrest : ∀ i < piece.length, copied piece ≤ i → after (c.place i) = before (c.place i) := by
    intro i hi hbehind
    apply hout
    intro j hj h
    have := c.distinct (Set.mem_Iio.mpr (by omega)) (Set.mem_Iio.mpr (by omega))
      (Int.ofNat_inj.mp h)
    omega
  rw [hsame]
  constructor
  · intro hall i j hji hi hzero
    rw [← hrest i hi ((copied_le_iff hi).mpr ⟨j, hji, hzero⟩)]
    exact hall i hi
  · intro hall i hi
    by_cases hbehind : copied piece ≤ i
    · obtain ⟨j, hji, hzero⟩ := (copied_le_iff hi).mp hbehind
      rw [hrest i hi hbehind]
      exact hall i j hji hi hzero
    · exact hin i (by omega)

/-- A call whose result is the length of the next piece delivers it exactly if the piece has
arrived in the buffer. -/
theorem delivered_iff {c : ReadCall id} {k k' : Kernel W} {text piece : List Byte} {pos : Nat}
    (hbefore : position k id = pos) (hpiece : (text.drop pos).take c.count = piece)
    (hresult : (k'.machine.registers R2).toInt =
      (if piece.length = 0 then (-2 : Int) else piece.length))
    (hout : ∀ q : Int, (∀ j < copied piece, (c.place j : Int) ≠ q) →
      k'.machine.mainMemory q = k.machine.mainMemory q) :
    Delivered text ⟨c, k, k'⟩ ↔ c.buffer k'.machine.mainMemory piece.length = piece := by
  by_cases hempty : piece.length = 0
  · rw [List.length_eq_zero_iff.mp hempty]
    refine iff_of_true (fun n hn h => ?_) rfl
    have hcall : (k'.machine.registers R2).toInt = n := h
    rw [hresult, if_pos hempty] at hcall
    omega
  · rw [if_neg hempty] at hresult
    have hnext : (List.drop (position k id).toNat text).take piece.length = piece := by
      rw [hbefore, Int.toNat_natCast, ← hpiece, List.length_take]
      exact List.take_eq_take_min.symm
    constructor
    · intro hall
      have := (hall piece.length (by omega) hresult).1
      rwa [hnext] at this
    · intro heq n hn h
      obtain rfl : n = piece.length := by
        have hcall : (k'.machine.registers R2).toInt = n := h
        omega
      exact ⟨heq.trans hnext.symm, fun q hq => hout q fun j hj =>
        hq j (by have := copied_le_length piece; omega)⟩

/-- One call, at a position inside the file. -/
theorem read_call (hfiles : HostFiles env contents) (c : ReadCall id) (hid : 2 ≤ id.val)
    {k : Kernel W} (hmachine : k.machine = c.machine) {file : Int} {pos : Nat}
    (hentry : k.fileTable id = some ⟨file, pos, 0⟩) {text piece : List Byte}
    (htext : contents k.world file = text) (hpos : pos ≤ text.length)
    (hpiece : (text.drop pos).take c.count = piece) :
    ∃ k', (handleReadFile env : Sys host W false _).run k = (.ok (), k') ∧
      contents k'.world file = text ∧
      k'.fileTable id = some ⟨file, (if piece.length = 0 then 0 else pos + piece.length : Nat), 0⟩ ∧
      (Returned.mk c k k').result = (if piece.length = 0 then (-2 : Int) else piece.length) ∧
      Advances text ⟨c, k, k'⟩ ∧
      (Delivered text ⟨c, k, k'⟩ ↔ ∀ i j, j < i → i < piece.length → piece[j]? = some 0 →
        c.machine.mainMemory (c.place i) = piece.getD i 0) := by
  subst htext
  obtain ⟨k', hrun, hcontents, htable, hresult, hin, hout⟩ :=
    @handleReadFile_run host W env contents id hfiles c hid k hmachine file pos hentry piece hpiece
  have hcount := c.bounds.1
  have hsize : piece.length = min c.count ((contents k.world file).length - pos) := by
    rw [← hpiece, List.length_take, List.length_drop]
  have hbefore : position k id = pos := by
    rw [position, hentry]
    rfl
  have hafter : position k' id = if piece.length = 0 then 0 else (pos : Int) + piece.length := by
    rw [position, htable]
    rfl
  refine ⟨k', hrun, congrFun hcontents file, ?_, hresult, ⟨?_, ?_, ?_⟩, ?_⟩
  · rw [htable]
    split <;> simp
  · show (k'.machine.registers R2).toInt = -2 ↔ position k id = _
    rw [hresult, hbefore]
    split <;> omega
  · show (k'.machine.registers R2).toInt = -2 → position k' id = 0
    rw [hresult, hafter]
    split <;> omega
  · show (k'.machine.registers R2).toInt ≠ -2 → 0 < (k'.machine.registers R2).toInt ∧
      position k' id = position k id + (k'.machine.registers R2).toInt
    rw [hresult, hafter, hbefore]
    split <;> omega
  · have hbuffer := buffer_eq_iff c (by omega) hin hout
    rw [hmachine] at hbuffer
    rw [delivered_iff hbefore hpiece hresult hout, hbuffer]

/-- The calls from the position `pos` on. -/
theorem calls_readFile (hfiles : HostFiles env contents) (hid : 2 ≤ id.val)
    (cs : List (ReadCall id)) {k : Kernel W} {file : Int} {pos : Nat}
    (hentry : k.fileTable id = some ⟨file, pos, 0⟩) {text : List Byte}
    (htext : contents k.world file = text) (hpos : pos ≤ text.length) :
    ∃ trace, calls (handleReadFile env : Sys host W false _) (fun c => c.machine) k cs = .ok trace ∧
      (∀ r ∈ trace, Advances text r) ∧
      ((∀ r ∈ trace, Delivered text r) ↔ NothingLost text pos cs) ∧
      ((∀ r ∈ trace, Delivered text r) → (∃ r ∈ trace, r.result = -2) →
        (trace.takeWhile fun r => r.result ≠ -2).flatMap (fun r =>
          r.call.buffer r.after.machine.mainMemory r.result.toNat) = text.drop pos) := by
  induction cs generalizing k pos with
  | nil => exact ⟨[], rfl, by simp, by simp [NothingLost], by simp⟩
  | cons c rest ih =>
    obtain ⟨k', hrun, htext', hentry', hresult, hadvances, hdelivered⟩ :=
      @read_call host W env contents id hfiles c hid { k with machine := c.machine } rfl file pos
        hentry text _ htext hpos rfl
    have hsize : ((text.drop pos).take c.count).length ≤ text.length - pos := by
      rw [List.length_take, List.length_drop]
      exact Nat.min_le_right ..
    obtain ⟨trace, htrace, hall, hiff, hwhole⟩ := ih hentry' htext' (by split <;> omega)
    refine ⟨_, calls_cons hrun htrace, ?_, ?_, ?_⟩
    · exact List.forall_mem_cons.mpr ⟨hadvances, hall⟩
    · rw [List.forall_mem_cons, hdelivered, hiff]
      rfl
    · intro hgood hend
      rw [List.forall_mem_cons] at hgood
      by_cases hempty : ((text.drop pos).take c.count).length = 0
      · -- this call is at the end of the file
        rw [if_pos hempty] at hresult
        have hlast := hadvances.endOfFile.mp hresult
        have hhere : position { k with machine := c.machine } id = pos := by
          rw [position, hentry]
          rfl
        rw [List.takeWhile_cons_of_neg (by simpa using hresult), List.flatMap_nil,
          List.drop_eq_nil_of_le]
        exact Int.ofNat_le.mp (hlast ▸ hhere ▸ le_refl _)
      · rw [if_neg hempty] at hresult
        rw [if_neg hempty] at hwhole
        obtain ⟨hpiece, -⟩ := hgood.1 _ (Nat.pos_of_ne_zero hempty) hresult
        have hhere : position { k with machine := c.machine } id = pos := by
          rw [position, hentry]
          rfl
        have hlater : ∃ r ∈ trace, r.result = -2 := by
          obtain ⟨r, hr, hminus⟩ := hend
          rcases List.mem_cons.mp hr with rfl | hr
          · omega
          · exact ⟨r, hr, hminus⟩
        rw [List.takeWhile_cons_of_pos (by rw [hresult]; exact decide_eq_true (by omega)),
          List.flatMap_cons, hwhole hgood.2 hlater, hresult, Int.toNat_natCast]
        dsimp only at hpiece ⊢
        rw [hpiece, hhere, Int.toNat_natCast, ← List.drop_drop, List.take_append_drop]

/-- For every file, every sequence of `ReadFile` calls on a descriptor that was opened with type 0
returns, and it delivers the file exactly if every byte that comes behind a zero byte in its piece
stands at its place in the buffer before the call already. -/
theorem read_files_deliver_iff (host : Host) (hfiles : HostFiles env contents) (hid : 2 ≤ id.val)
    {k : Kernel W} {file : Int} (hopen : k.fileTable id = some ⟨file, 0, 0⟩)
    (cs : List (ReadCall id)) :
    ∃ trace, calls (handleReadFile env : Sys host W false _) (fun c => c.machine) k cs = .ok trace ∧
      (ReadsFile (contents k.world file) trace ↔ NothingLost (contents k.world file) 0 cs) := by
  obtain ⟨trace, htrace, hall, hiff, hwhole⟩ :=
    @calls_readFile host W env contents id hfiles hid cs k file 0 hopen _ rfl (Nat.zero_le _)
  refine ⟨trace, htrace, fun h => hiff.mp h.delivered, fun h => ?_⟩
  have hdelivered := hiff.mpr h
  exact ⟨hdelivered, hall, hwhole hdelivered⟩

/-- A call with a buffer of zeros. -/
def pageRead (count : Nat) (h : 1 ≤ count ∧ count ≤ PageSize) : ReadCall firstSlot where
  toFileCall := pageCall [] count h.2
  bounds := ⟨h.1, h.2.trans (by decide)⟩
  writable := by
    intro i hi e he
    obtain rfl := List.mem_singleton.mp (List.mem_of_getElem? he)
    rfl
  distinct := fun i _ j _ h => h

/-- A file of three bytes is read by two calls, and a third returns `-2`. -/
theorem read_files_deliver_three : ∃ trace,
    calls (handleReadFile oneFile : Sys .littleEndian _ false _) (fun c => c.machine)
        (fileKernel [97, 98, 0]) (List.replicate 3 (pageRead 2 (by decide))) = .ok trace ∧
      ReadsFile [97, 98, 0] trace := by
  obtain ⟨trace, htrace, hiff⟩ := @read_files_deliver_iff _ oneFile _ firstSlot .littleEndian
    oneFile_hostFiles (by decide) (fileKernel [97, 98, 0]) 3 rfl
    (List.replicate 3 (pageRead 2 (by decide)))
  refine ⟨trace, htrace, hiff.mpr ⟨?_, ?_, ?_, trivial⟩⟩
  · intro i j hji hi hzero
    have hi : i < 2 := hi
    obtain rfl : j = 0 := by omega
    cases hzero
  · intro i j hji hi hzero
    have hi : i < 1 := hi
    omega
  · intro i j hji hi hzero
    exact absurd hi (Nat.not_lt_zero i)

/-- Of a piece with a zero byte in the middle the last byte does not arrive. -/
theorem read_file_loses_byte : ∃ r,
    calls (handleReadFile oneFile : Sys .littleEndian _ false _) (fun c => c.machine)
        (fileKernel [97, 0, 98]) [pageRead 3 (by decide)] = .ok [r] ∧
      r.result = 3 ∧ r.call.buffer r.after.machine.mainMemory 3 = [97, 0, 0] ∧
      ¬ ReadsFile [97, 0, 98] [r] := by
  obtain ⟨k', hrun, -, -, hresult, hin, hout⟩ := @handleReadFile_run .littleEndian _ oneFile _
    firstSlot oneFile_hostFiles (pageRead 3 (by decide)) (by decide)
    { fileKernel [97, 0, 98] with machine := (pageRead 3 (by decide)).machine } rfl 3 0 rfl
    [97, 0, 98] rfl
  have hfirst : k'.machine.mainMemory 0 = 97 := hin 0 (by decide)
  have hsecond : k'.machine.mainMemory 1 = 0 := hin 1 (by decide)
  have hthird : k'.machine.mainMemory 2 = 0 := hout 2 fun j hj h => by
    have hj : j < 2 := hj
    have h : (j : Int) = 2 := h
    omega
  have hbuffer : (pageRead 3 (by decide)).buffer k'.machine.mainMemory 3 = [97, 0, 0] := by
    show [k'.machine.mainMemory 0, k'.machine.mainMemory 1, k'.machine.mainMemory 2] = _
    rw [hfirst, hsecond, hthird]
  refine ⟨_, calls_cons hrun rfl, hresult, hbuffer, fun h => ?_⟩
  have hpiece := (h.delivered _ (List.mem_singleton.mpr rfl) 3 (by decide) hresult).1
  have hlost : [97#8, 0#8, 0#8] = [97#8, 0#8, 98#8] := hbuffer.symm.trans hpiece
  exact absurd hlost (by decide)

end Nachos.Syscall
