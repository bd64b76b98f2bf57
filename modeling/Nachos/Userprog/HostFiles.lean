import Nachos.Userprog.UserCopy

/-!
# Calls on one open file

What the stub file system asks of UNIX (`HostFiles`), and how a program that makes one file call
after the other is run: between two calls it may do to its registers and its memory what it likes,
so each call comes with the machine that the handler finds (`FileCall`). `system2User_run` says what
`System2User` leaves in a mapped buffer: the bytes up to the first zero byte.
-/

namespace Nachos.Syscall

open BlockWrite

variable {host : Host} {W : Type} {id : Fin N_FILES_IN_TABLE}

/-! ## Files of the host -/

/-- `lseek`, `read` and `write` of UNIX are correct: `contents` is what the files hold. -/
structure HostFiles (env : Env W) (contents : W → Int → List Byte) : Prop where
  readAt : ∀ (file : Int) (numBytes position : Nat) (world : W) (memory : Store Byte),
    ∃ world' due, env.serve (.readAt file numBytes position) world memory =
        .ok ⟨(((contents world file).drop position).take numBytes).length,
          ((contents world file).drop position).take numBytes, world', memory, due⟩ ∧
      contents world' = contents world
  writeAt : ∀ (file : Int) (bytes : List Byte) (position : Nat) (world : W) (memory : Store Byte),
    position ≤ (contents world file).length →
    ∃ result world' due, env.serve (.writeAt file bytes position) world memory =
        .ok ⟨result, [], world', memory, due⟩ ∧
      contents world' file = (contents world file).take position ++ bytes ++
        (contents world file).drop (position + bytes.length)

/-- A host with one file, which is the world. -/
def oneFile : Env (List Byte) where
  serve
    | .readAt _ numBytes position, text, memory =>
      let data := (text.drop position.toNat).take numBytes.toNat
      .ok ⟨data.length, data, text, memory, false⟩
    | .writeAt _ bytes position, text, memory =>
      .ok ⟨bytes.length, [], text.take position.toNat ++ bytes ++
        text.drop (position.toNat + bytes.length), memory, false⟩
    | _, text, memory => .ok ⟨0, [], text, memory, false⟩
  uninit _ := 0
  floatValue _ _ := 0
  floatText _ := []

theorem oneFile_hostFiles : HostFiles oneFile fun text _ => text where
  readAt _ _ _ text _ := ⟨text, false, rfl, rfl⟩
  writeAt _ bytes _ _ _ _ := ⟨bytes.length, _, false, rfl, rfl⟩

/-! ## Calls one after the other -/

/-- A call of `ReadFile` or `WriteFile` on the descriptor `id` with a mapped buffer: the machine
when the handler begins, and where in physical memory the bytes of the buffer are. -/
structure FileCall (id : Fin N_FILES_IN_TABLE) where
  machine : Machine
  count : Nat
  table : List TranslationEntry
  place : Nat → Nat
  tables : machine.tables = linear table
  settled : machine.Settled
  charcount : (machine.registers R5).toInt = count
  fileid : (machine.registers R6).toInt = id
  mapped : ∀ i < count, lookup table (machine.registers R4 + BitVec.ofNat 32 i) = .ok (place i)

/-- The descriptor of the first file that is opened. -/
def firstSlot : Fin N_FILES_IN_TABLE := ⟨2, by decide⟩

theorem toInt_ofNat_page {count : Nat} (h : count ≤ PageSize) :
    (BitVec.ofNat 32 count).toInt = count := by
  simp only [PageSize, SectorSize] at h
  rw [BitVec.toInt_ofNat', Int.bmod_eq_of_le (by omega) (by omega)]

theorem onePage_mapped {count : Nat} (h : count ≤ PageSize) :
    ∀ i < count, lookup onePage (0#32 + BitVec.ofNat 32 i) = .ok i := by
  intro i hi
  have hsmall : (0#32 + BitVec.ofNat 32 i).toNat = i := by
    simp only [PageSize, SectorSize] at h
    rw [BitVec.zero_add, BitVec.toNat_ofNat, Nat.mod_eq_of_lt (by omega)]
  rw [lookup_onePage (by omega), hsmall]

/-- A call with a buffer at address 0 of a program with one page. -/
def pageCall (bytes : List Byte) (count : Nat) (h : count ≤ PageSize) : FileCall firstSlot where
  machine :=
    { registers := fun r => if r = R5 then BitVec.ofNat 32 count else if r = R6 then 2 else 0
      mainMemory := fun p => bytes.getD p.toNat 0
      tables := linear onePage }
  count := count
  table := onePage
  place := fun i => i
  tables := rfl
  settled := ⟨rfl, rfl, rfl⟩
  charcount := toInt_ofNat_page h
  fileid := rfl
  mapped := onePage_mapped h

/-- The first `n` bytes of the buffer. -/
def FileCall.buffer {id : Fin N_FILES_IN_TABLE} (c : FileCall id) (memory : Store Byte) (n : Nat) :
    List Byte :=
  (List.range n).map fun i => memory (c.place i)

/-- A call that has returned. -/
structure Returned (C W : Type) where
  call : C
  before : Kernel W
  after : Kernel W

/-- The value in `r2`. -/
def Returned.result {C : Type} (r : Returned C W) : Int := (r.after.machine.registers R2).toInt

/-- The calls of a program, in order, each with the machine it begins with. -/
def calls {C : Type} (handle : Sys host W false Unit) (machine : C → Machine) :
    Kernel W → List C → Except Stop (List (Returned C W))
  | _, [] => .ok []
  | k, c :: rest =>
    let before := { k with machine := machine c }
    match handle.run before with
    | (.error e, _) => .error e
    | (.ok (), after) => (calls handle machine after rest).map (⟨c, before, after⟩ :: ·)

theorem calls_cons {C : Type} {handle : Sys host W false Unit} {machine : C → Machine}
    {k k' : Kernel W} {c : C} {rest : List C} {trace : List (Returned C W)}
    (hrun : handle.run { k with machine := machine c } = (.ok (), k'))
    (hrest : calls handle machine k' rest = .ok trace) :
    calls handle machine k (c :: rest) =
      .ok (⟨c, { k with machine := machine c }, k'⟩ :: trace) := by
  simp only [calls, hrun, hrest]
  rfl

/-- The cursor of the open file `id`. -/
def position (k : Kernel W) (id : Fin N_FILES_IN_TABLE) : Int :=
  ((k.fileTable id).map (·.currentOffset)).getD 0

/-- A kernel with one file open, at its start. -/
def fileKernel (text : List Byte) : Kernel (List Byte) where
  machine := ⟨fun _ => 0, fun _ => 0, linear []⟩
  fileTable := fun id => if id = firstSlot then some ⟨3, 0, 0⟩ else none
  world := text
  log := []

/-! ## The state after a call into the host -/

/-- An interrupt during a call changes nothing when no load is pending. -/
theorem answered_of_settled {k : Kernel W} (hset : k.machine.Settled) (c : Call) (r : Reply W)
    (hmemory : r.memory = k.machine.mainMemory) :
    k.answered c r = { k with world := r.world, log := k.log ++ [(c, r.result)] } := by
  have hsame : { k.machine with mainMemory := r.memory } = k.machine := by rw [hmemory]
  rw [Kernel.answered]
  dsimp only
  rw [hsame, delayedLoad_of_settled hset, ite_self]

/-- The state after `Read` or `Write` of an open file, which is `f` now. -/
def moved (k : Kernel W) (id : Fin N_FILES_IN_TABLE) (f : OpenFile) (c : Call) (result : Int)
    (world : W) : Kernel W :=
  { k with
    fileTable := Function.update k.fileTable id (some f)
    world := world
    log := k.log ++ [(c, result)] }

section OpenFile

variable {env : Env W} {contents : W → Int → List Byte}

/-- `OpenFile::Read` takes the next piece of the file. -/
theorem read_run (hfiles : HostFiles env contents) {k : Kernel W} (hset : k.machine.Settled)
    {file : Int} {pos count : Nat} {piece : List Byte}
    (hpiece : ((contents k.world file).drop pos).take count = piece) :
    ∃ world', (FileSystem.read env id ⟨file, pos, 0⟩ count : Sys host W false _).run k =
        (.ok ((piece.length : Int), piece), moved k id ⟨file, pos + piece.length, 0⟩
          (.readAt file count pos) piece.length world') ∧
      contents world' = contents k.world := by
  obtain ⟨world', due, hserve, hcontents⟩ :=
    hfiles.readAt file count pos k.world k.machine.mainMemory
  rw [hpiece] at hserve
  refine ⟨world', ?_, hcontents⟩
  rw [FileSystem.read, Confined.run_bind_ok (Sys.call_run hserve), answered_of_settled hset _ _ rfl]
  show (Except.ok (_, piece.take (piece.length : Int).toNat), _) = _
  rw [Int.toNat_natCast, List.take_length]
  rfl

/-- `OpenFile::Write` puts the bytes at the position. -/
theorem write_run (hfiles : HostFiles env contents) {k : Kernel W} (hset : k.machine.Settled)
    {file : Int} {pos : Nat} (hpos : pos ≤ (contents k.world file).length) (bytes : List Byte) :
    ∃ result world', (FileSystem.write env id ⟨file, pos, 0⟩ bytes : Sys host W false _).run k =
        (.ok (bytes.length : Int), moved k id ⟨file, pos + bytes.length, 0⟩
          (.writeAt file bytes pos) result world') ∧
      contents world' file = (contents k.world file).take pos ++ bytes ++
        (contents k.world file).drop (pos + bytes.length) := by
  obtain ⟨result, world', due, hserve, hcontents⟩ :=
    hfiles.writeAt file bytes pos k.world k.machine.mainMemory hpos
  refine ⟨result, world', ?_, hcontents⟩
  rw [FileSystem.write, Confined.run_bind_ok (Sys.call_run hserve),
    answered_of_settled hset _ _ rfl]
  rfl

end OpenFile

/-- A descriptor from 2 on is neither `stdin` nor `stdout`, and it is an index of the table. -/
theorem FileCall.slot (c : FileCall id) (hid : 2 ≤ id.val) :
    c.machine.registers R6 ≠ 0 ∧ c.machine.registers R6 ≠ 1 ∧
      FileSystem.slot? (c.machine.registers R6).toInt = some id := by
  have hfile := c.fileid
  refine ⟨fun h => ?_, fun h => ?_, ?_⟩
  · rw [h] at hfile
    simp at hfile
    omega
  · rw [h] at hfile
    have hone : (1 : BitVec 32).toInt = 1 := by decide
    omega
  · have hlt := id.isLt
    rw [hfile, FileSystem.slot?, dif_pos (by omega)]
    simp

/-- The end of `ReadFile` and `WriteFile` after `n` bytes have been moved. -/
theorem reportBytes_run {k : Kernel W} {f : OpenFile} {n : Nat} (hn : n < 2147483648)
    (hentry : k.fileTable id = some f) :
    ∃ k', (reportBytes (some id) n : Sys host W false _).run k = (.ok (), k') ∧
      k'.fileTable id = some { f with currentOffset := if n = 0 then 0 else f.currentOffset } ∧
      (k'.machine.registers R2).toInt = (if n = 0 then (-2 : Int) else n) ∧ k'.world = k.world ∧
      k'.machine.mainMemory = k.machine.mainMemory ∧ k'.machine.tables = k.machine.tables := by
  by_cases hzero : n = 0
  · subst hzero
    refine ⟨_, rfl, ?_, ?_, rfl, rfl, rfl⟩
    · show Function.update k.fileTable id _ id = _
      rw [Function.update_self]
      show (k.fileTable id).map _ = _
      rw [hentry]
      rfl
    · show ((k.machine.writeRegister R2 _).registers R2).toInt = _
      rw [Machine.writeRegister_self]
      rfl
  · have hreport : (reportBytes (some id) n : Sys host W false _) = Sys.setR2 n := by
      rw [reportBytes, if_neg (by omega)]
    rw [hreport]
    refine ⟨_, rfl, ?_, ?_, rfl, rfl, rfl⟩
    · rw [if_neg hzero]
      exact hentry
    · show ((k.machine.writeRegister R2 _).registers R2).toInt = _
      rw [Machine.writeRegister_self, if_neg hzero, BitVec.toInt_ofInt]
      exact Int.bmod_eq_of_le (by omega) (by omega)

/-! ## What arrives in user memory -/

/-- The number of bytes `System2User` stores: it stops behind a zero byte. -/
def copied : List Byte → Nat
  | [] => 0
  | b :: rest => if b = 0 then 1 else copied rest + 1

theorem copied_le_length (bytes : List Byte) : copied bytes ≤ bytes.length := by
  induction bytes with
  | nil => exact Nat.le_refl 0
  | cons b rest ih =>
    rw [copied, List.length_cons]
    split
    · omega
    · omega

/-- A byte is not stored exactly if a zero byte comes before it. -/
theorem copied_le_iff {bytes : List Byte} {i : Nat} (hi : i < bytes.length) :
    copied bytes ≤ i ↔ ∃ j < i, bytes[j]? = some 0 := by
  induction bytes generalizing i with
  | nil => exact absurd hi (Nat.not_lt_zero i)
  | cons b rest ih =>
    rw [copied]
    split
    · rename_i hzero
      constructor
      · intro h
        exact ⟨0, by omega, by rw [hzero]; rfl⟩
      · rintro ⟨j, hj, -⟩
        omega
    · rename_i hne
      cases i with
      | zero =>
        constructor
        · intro h
          omega
        · rintro ⟨j, hj, -⟩
          omega
      | succ i =>
        rw [Nat.add_le_add_iff_right, ih (by simpa using hi)]
        constructor
        · rintro ⟨j, hj, hzero⟩
          exact ⟨j + 1, by omega, hzero⟩
        · rintro ⟨j, hj, hzero⟩
          cases j with
          | zero => exact absurd (Option.some.inj hzero) hne
          | succ j => exact ⟨j, by omega, hzero⟩

/-- The pages of the table that the addresses lie in are not read-only. -/
def Writable (table : List TranslationEntry) (a : BitVec 32) : Prop :=
  ∀ e, table[a.toNat / PageSize]? = some e → e.readOnly = false

/-- The bits set by an access do not protect a page. -/
theorem Writable.modify {table : List TranslationEntry} {a : BitVec 32} (h : Writable table a)
    (i : Nat) : Writable (table.modify i (·.touch true)) a := by
  intro e he
  rw [List.getElem?_modify] at he
  obtain ⟨e₀, he₀, rfl⟩ := Option.map_eq_some_iff.mp he
  have hro := h e₀ he₀
  split
  · exact hro
  · exact hro

/-- The state after a byte has been written through an entry of the page table. -/
def putByte (k : Kernel W) (table : List TranslationEntry) (a : BitVec 32) (p : Nat) (b : Byte) :
    Kernel W :=
  let tables := linear (table.modify (a.toNat / PageSize) (·.touch true))
  { k with machine := (k.machine.touched tables).store p [b] }

/-- `WriteMem` of one byte from kernel code, to a mapped page. -/
theorem writeByte_run {advances : Bool} {table : List TranslationEntry} {k : Kernel W}
    (htab : k.machine.tables = linear table) {a : BitVec 32} {p : Nat}
    (hmap : lookup table a = .ok p) (hwrite : Writable table a) (b : Byte) :
    (Sys.writeByte a (b.signExtend 32) : Sys host W advances _).run k =
      (.ok (some ()), putByte k table a p b) := by
  have hrun : (Cpu.writeMem a 1 (b.signExtend 32) : Cpu host _).run k.machine =
      (.ok (), (putByte k table a p b).machine) := by
    simp only [Cpu.writeMem, htab, translate_one table a true fun _ => hwrite, hmap]
    show (Except.ok (), (k.machine.touched _).store p [(b.signExtend 32).setWidth 8]) = _
    rw [setWidth_signExtend]
    rfl
  unfold Sys.writeByte Sys.access
  simp only [Confined.run_bind, hrun]
  rfl

/-- One byte written. -/
theorem write_byte (memory : Store Byte) (p : Nat) (b : Byte) (q : Int) :
    write memory ⟨p, [b]⟩ q = if q = p then b else memory q := by
  unfold write Block.get?
  dsimp only
  split_ifs with hle heq heq
  · subst heq
    simp
  · have hout : [b][(q - p).toNat]? = none := by
      rw [List.getElem?_eq_none_iff, List.length_singleton]
      omega
    rw [hout, Option.getD_none]
  · omega
  · rfl

/-- The loop of `System2User` from index `i` on stores the bytes up to the first zero byte, each
at its place, and changes nothing else but bits of the page table. -/
theorem copyOut_run (advances : Bool) (buffer : List Byte) (virtAddr : BitVec 32)
    (place : Nat → Nat) (n : Nat) {i : Nat} (hlength : i + n = buffer.length)
    {table : List TranslationEntry} {k : Kernel W} (htab : k.machine.tables = linear table)
    (hmap : ∀ j < buffer.length, lookup table (virtAddr + BitVec.ofNat 32 j) = .ok (place j))
    (hwrite : ∀ j < buffer.length, Writable table (virtAddr + BitVec.ofNat 32 j))
    (hinj : Set.InjOn place (Set.Iio buffer.length)) :
    ∃ r k', (Sys.copyOut virtAddr buffer n i : Sys host W advances _).run k = (.ok r, k') ∧
      k'.machine.registers = k.machine.registers ∧ k'.fileTable = k.fileTable ∧
      k'.world = k.world ∧
      (∀ j < copied (buffer.drop i),
        k'.machine.mainMemory (place (i + j)) = buffer.getD (i + j) 0) ∧
      ∀ q : Int, (∀ j < copied (buffer.drop i), (place (i + j) : Int) ≠ q) →
        k'.machine.mainMemory q = k.machine.mainMemory q := by
  induction n generalizing i table k with
  | zero =>
    have hdone : buffer.drop i = [] := List.drop_eq_nil_of_le (by omega)
    rw [hdone]
    exact ⟨_, k, rfl, rfl, rfl, rfl, fun j hj => absurd hj (Nat.not_lt_zero j), fun _ _ => rfl⟩
  | succ n ih =>
    have hi : i < buffer.length := by omega
    have hbyte : buffer.getD i 0 = buffer.get ⟨i, hi⟩ := by
      rw [List.getD_eq_getElem?_getD, List.getElem?_eq_getElem hi]
      rfl
    have hdrop : buffer.drop i = buffer.getD i 0 :: buffer.drop (i + 1) := by
      rw [hbyte, List.drop_eq_getElem_cons hi]
      rfl
    have hstore := @writeByte_run host W advances table k htab _ _ (hmap i hi) (hwrite i hi)
      (buffer.getD i 0)
    rw [Sys.copyOut, Confined.run_bind_ok hstore, hdrop, copied]
    by_cases hzero : buffer.getD i 0 = 0
    · -- a zero byte is stored, and the loop ends
      have hext : ((buffer.getD i 0).signExtend 32 : BitVec 32) = 0 := by rw [hzero]; rfl
      rw [if_pos hext, if_pos hzero]
      refine ⟨_, _, rfl, rfl, rfl, rfl, fun j hj => ?_, fun q hq => ?_⟩
      · obtain rfl : j = 0 := by omega
        show write _ _ _ = _
        rw [Nat.add_zero, write_byte, if_pos rfl]
      · show write _ _ _ = _
        rw [write_byte, if_neg fun h => hq 0 Nat.one_pos h.symm]
        rfl
    · rw [if_neg (signExtend_ne_zero hzero), if_neg hzero]
      obtain ⟨r, k', hrun, hregs, hfiles, hworld, hin, hout⟩ := @ih (i + 1) (by omega)
        (table.modify ((virtAddr + BitVec.ofNat 32 i).toNat / PageSize) (·.touch true))
        (putByte k table (virtAddr + BitVec.ofNat 32 i) (place i) (buffer.getD i 0))
        rfl (fun j hj => by rw [lookup_modify, hmap j hj]) fun j hj => (hwrite j hj).modify _
      refine ⟨r, k', hrun, hregs, hfiles, hworld, fun j hj => ?_, fun q hq => ?_⟩
      · cases j with
        | zero =>
          -- the later bytes go to other places
          rw [Nat.add_zero, hout]
          · show write _ _ _ = _
            rw [write_byte, if_pos rfl]
          · intro j hj h
            have hlater := copied_le_length (buffer.drop (i + 1))
            rw [List.length_drop] at hlater
            have := hinj (Set.mem_Iio.mpr (by omega)) (Set.mem_Iio.mpr hi)
              (Int.ofNat_inj.mp h)
            omega
        | succ j =>
          have := hin j (by omega)
          rwa [show i + 1 + j = i + (j + 1) by omega] at this
      · rw [hout q fun j hj => by
          rw [show i + 1 + j = i + (j + 1) by omega]
          exact hq (j + 1) (by omega)]
        show write _ _ _ = _
        rw [write_byte, if_neg fun h => hq 0 (by omega) h.symm]
        rfl

/-- `System2User` of all bytes of a buffer to a mapped place. -/
theorem system2User_run (advances : Bool) (buffer : List Byte) (virtAddr : BitVec 32)
    (place : Nat → Nat) {table : List TranslationEntry} {k : Kernel W}
    (htab : k.machine.tables = linear table)
    (hmap : ∀ j < buffer.length, lookup table (virtAddr + BitVec.ofNat 32 j) = .ok (place j))
    (hwrite : ∀ j < buffer.length, Writable table (virtAddr + BitVec.ofNat 32 j))
    (hinj : Set.InjOn place (Set.Iio buffer.length)) :
    ∃ r k', (Sys.system2User virtAddr buffer.length buffer : Sys host W advances _).run k =
        (.ok r, k') ∧
      k'.machine.registers = k.machine.registers ∧ k'.fileTable = k.fileTable ∧
      k'.world = k.world ∧
      (∀ j < copied buffer, k'.machine.mainMemory (place j) = buffer.getD j 0) ∧
      ∀ q : Int, (∀ j < copied buffer, (place j : Int) ≠ q) →
        k'.machine.mainMemory q = k.machine.mainMemory q := by
  rw [Sys.system2User, if_neg (by omega)]
  split
  · rename_i hempty
    obtain rfl : buffer = [] := List.length_eq_zero_iff.mp (by omega)
    exact ⟨_, k, rfl, rfl, rfl, rfl, fun j hj => absurd hj (Nat.not_lt_zero j), fun _ _ => rfl⟩
  · have hloop := @copyOut_run host W advances buffer virtAddr place buffer.length 0
      (Nat.zero_add _) table k htab hmap hwrite hinj
    simpa only [Int.toNat_natCast, Nat.zero_add, List.drop_zero] using hloop

end Nachos.Syscall
