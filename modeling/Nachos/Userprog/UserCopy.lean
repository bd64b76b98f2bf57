import Nachos.Userprog.Exception

/-!
# What `User2System` copies

`copyText` is the buffer as a function of what the bytes of user memory are found to be: an
unmapped byte repeats the character before it (or the initial value of `oneChar`), and a page
fault ends the machine. `user2System_run` says that `User2System` computes it and that nothing but
table bits and `BadVAddrReg` changes meanwhile. `cString_copyText` is the case of a mapped string:
the first `limit` characters arrive. `copyText_stale` is the case of an unmapped byte.
-/

namespace Nachos

/-! ## Reading a byte through a linear page table -/

/-- The physical address that a read of one byte goes to. -/
def lookup (table : List TranslationEntry) (virtAddr : BitVec 32) : Except ExceptionType Nat :=
  match table[virtAddr.toNat / PageSize]? with
  | none => .error .AddressErrorException
  | some e =>
    if !e.valid then .error .PageFaultException
    else
      let pageFrame := (BitVec.ofInt 32 e.physicalPage).toNat
      if NumPhysPages ≤ pageFrame then .error .BusErrorException
      else .ok (pageFrame * PageSize + virtAddr.toNat % PageSize)

/-- `Translate` for one byte, which is read, or written to a page that is not read-only. -/
theorem translate_one (table : List TranslationEntry) (virtAddr : BitVec 32) (writing : Bool)
    (hwrite : writing = true →
      ∀ e, table[virtAddr.toNat / PageSize]? = some e → e.readOnly = false) :
    translate (linear table) virtAddr 1 writing = match lookup table virtAddr with
      | .error e => .fault e
      | .ok p => .ok p (linear (table.modify (virtAddr.toNat / PageSize) (·.touch writing))) := by
  have haligned : misaligned virtAddr 1 = false := rfl
  simp only [translate, linear, haligned, lookup, Bool.false_eq_true, if_false]
  cases htable : table[virtAddr.toNat / PageSize]? with
  | none => rfl
  | some e =>
    have hpermitted : (e.readOnly && writing) = false := by
      cases writing with
      | false => exact Bool.and_false _
      | true => rw [hwrite rfl e htable, Bool.false_and]
    dsimp only
    cases e.valid with
    | false => rfl
    | true =>
      have hoffset : virtAddr.toNat % PageSize < PageSize := Nat.mod_lt _ (by decide)
      simp only [Bool.not_true, Bool.false_eq_true, if_false, translateEntry, hpermitted]
      split_ifs with hframe hsize
      · rfl
      · rw [List.modify_eq_set_getElem?, htable]
        rfl
      · simp only [NumPhysPages, MemorySize, PageSize, SectorSize] at *
        omega

/-- The bits set by an access are not looked at. -/
theorem lookup_modify (table : List TranslationEntry) (i : Nat) (writing : Bool) :
    lookup (table.modify i (·.touch writing)) = lookup table := by
  funext virtAddr
  simp only [lookup, List.getElem?_modify]
  cases table[virtAddr.toNat / PageSize]? with
  | none => rfl
  | some e =>
    simp only [Option.map_eq_map, Option.map_some]
    split <;> rfl

/-- The page table after a read. -/
def touchAt (table : List TranslationEntry) (virtAddr : BitVec 32) : List TranslationEntry :=
  table.modify (virtAddr.toNat / PageSize) (·.touch false)

/-- `Translate` for one byte that is read. -/
theorem translate_byte (table : List TranslationEntry) (virtAddr : BitVec 32) :
    translate (linear table) virtAddr 1 false = match lookup table virtAddr with
      | .error e => .fault e
      | .ok p => .ok p (linear (touchAt table virtAddr)) :=
  translate_one table virtAddr false (fun h => by cases h)

/-- The bits set by a read are not looked at. -/
theorem lookup_touchAt (table : List TranslationEntry) (a : BitVec 32) :
    lookup (touchAt table a) = lookup table :=
  lookup_modify table _ false

/-- In a single page of frame 0 a virtual address is its physical address. -/
theorem lookup_onePage {a : BitVec 32} (h : a.toNat < PageSize) :
    lookup onePage a = .ok a.toNat := by
  have hpage : a.toNat / PageSize = 0 := Nat.div_eq_of_lt h
  have hoffset : a.toNat % PageSize = a.toNat := Nat.mod_eq_of_lt h
  simp [lookup, onePage, hpage, hoffset, NumPhysPages]

namespace Syscall

variable {host : Host} {W : Type} {advances : Bool} {table : List TranslationEntry} {k : Kernel W}
  {read : Nat → Except ExceptionType Byte}

/-- What a read of user memory leaves alone. -/
structure Untouched (table : List TranslationEntry) (k k' : Kernel W) : Prop where
  fileTable : k'.fileTable = k.fileTable
  world : k'.world = k.world
  log : k'.log = k.log
  mainMemory : k'.machine.mainMemory = k.machine.mainMemory
  kept : Kept k.machine k'.machine
  tables : ∃ table', k'.machine.tables = linear table' ∧ lookup table' = lookup table

/-- The byte found at a virtual address, or the exception. -/
def byteAt (table : List TranslationEntry) (memory : BlockWrite.Store Byte) (a : BitVec 32) :
    Except ExceptionType Byte :=
  (lookup table a).map fun p : Nat => memory p

theorem Untouched.refl (htab : k.machine.tables = linear table) : Untouched table k k :=
  ⟨rfl, rfl, rfl, rfl, fun _ _ _ => rfl, table, htab, rfl⟩

theorem Untouched.trans {table' : List TranslationEntry} {k₁ k₂ k₃ : Kernel W}
    (htable : lookup table' = lookup table) (h₁ : Untouched table k₁ k₂)
    (h₂ : Untouched table' k₂ k₃) : Untouched table k₁ k₃ := by
  obtain ⟨table'', htab, hlookup⟩ := h₂.tables
  exact ⟨h₂.fileTable.trans h₁.fileTable, h₂.world.trans h₁.world, h₂.log.trans h₁.log,
    h₂.mainMemory.trans h₁.mainMemory, h₁.kept.trans h₂.kept, table'', htab,
    hlookup.trans htable⟩

/-- What a page fault ends, and everything else lets go on. -/
def orHalt {α : Type} : Option α → Except Stop α
  | none => .error .halt
  | some a => .ok a

/-- The value of `oneChar` after a `ReadMem`. -/
def nextChar (oneChar : BitVec 32) : Except ExceptionType Byte → Option (BitVec 32)
  | .ok b => some (b.signExtend 32)
  | .error .PageFaultException => none
  | .error _ => some oneChar

/-- The bytes that the loop of `User2System` stores when `read` is what it finds at each index;
`none` if a page fault halts the machine. -/
def copyText (read : Nat → Except ExceptionType Byte) :
    Nat → Nat → BitVec 32 → Option (List Byte)
  | 0, _, _ => some []
  | n + 1, idx, oneChar => match nextChar oneChar (read idx) with
      | none => none
      | some oneChar =>
        if oneChar = 0 then some [0]
        else (copyText read n (idx + 1) oneChar).map (oneChar.setWidth 8 :: ·)

/-- `ReadMem` of one byte from kernel code. -/
theorem readByte_run (host : Host) (advances : Bool) (htab : k.machine.tables = linear table)
    (hset : k.machine.Settled) (a : BitVec 32) :
    ∃ k', Untouched table k k' ∧
      ((∃ r, (Sys.readByte a : Sys host W advances _).run k = (.ok r, k') ∧
          ∀ c, nextChar c (byteAt table k.machine.mainMemory a) = some (r.getD c)) ∨
        ((Sys.readByte a : Sys host W advances _).run k = (.error .halt, k') ∧
          ∀ c, nextChar c (byteAt table k.machine.mainMemory a) = none)) := by
  have henter : Untouched table k (k.enter a) := by
    rw [Kernel.enter, enter_of_settled hset]
    exact ⟨rfl, rfl, rfl, rfl, fun r _ hr => Machine.writeRegister_of_ne _ _ hr, table, htab, rfl⟩
  have hread : (Cpu.readMem a 1 : Cpu host _).run k.machine = match lookup table a with
      | .error e => (.error (.raise e a), k.machine)
      | .ok p => (.ok ((k.machine.mainMemory p).signExtend 32),
          k.machine.touched (linear (touchAt table a))) := by
    simp only [Cpu.readMem, htab, translate_byte]
    cases lookup table a <;> rfl
  unfold Sys.readByte Sys.access byteAt
  cases hlookup : lookup table a with
  | ok p =>
    rw [hlookup] at hread
    simp only [Confined.run_bind, hread]
    exact ⟨{ k with machine := k.machine.touched (linear (touchAt table a)) },
      ⟨rfl, rfl, rfl, rfl, fun _ _ _ => rfl, touchAt table a, rfl, lookup_touchAt ..⟩,
      .inl ⟨some ((k.machine.mainMemory p).signExtend 32), rfl, fun _ => rfl⟩⟩
  | error e =>
    rw [hlookup] at hread
    simp only [Confined.run_bind, hread]
    refine ⟨_, henter, ?_⟩
    cases e
    case PageFaultException => exact .inr ⟨rfl, fun _ => rfl⟩
    all_goals exact .inl ⟨none, rfl, fun _ => rfl⟩

/-- The loop of `User2System` computes `copyText`. -/
theorem copyIn_run (host : Host) (advances : Bool) (n : Nat)
    (htab : k.machine.tables = linear table) (hset : k.machine.Settled) (virtAddr : BitVec 32)
    (idx : Nat) (oneChar : BitVec 32) :
    ∃ k', (Sys.copyIn virtAddr n idx oneChar : Sys host W advances _).run k =
      (orHalt (copyText (fun i => byteAt table k.machine.mainMemory
        (virtAddr + BitVec.ofNat 32 i)) n idx oneChar), k') ∧ Untouched table k k' := by
  induction n generalizing table k idx oneChar with
  | zero => exact ⟨k, rfl, .refl htab⟩
  | succ n ih =>
    obtain ⟨k₁, hk₁, hread⟩ := readByte_run host advances htab hset
      (virtAddr + BitVec.ofNat 32 idx)
    rw [Sys.copyIn, copyText]
    rcases hread with ⟨r, hread, hchar⟩ | ⟨hread, hchar⟩
    · rw [Confined.run_bind_ok hread, hchar]
      dsimp only
      split
      · exact ⟨k₁, rfl, hk₁⟩
      · -- the rest of the loop finds the same bytes
        obtain ⟨table₁, htab₁, hlookup⟩ := hk₁.tables
        obtain ⟨k₂, hrest, hk₂⟩ := ih htab₁ (hk₁.kept.settled hset) (idx + 1) (r.getD oneChar)
        have hbytes : byteAt table₁ k₁.machine.mainMemory =
            byteAt table k.machine.mainMemory := by
          funext a
          rw [byteAt, byteAt, hlookup, hk₁.mainMemory]
        rw [hbytes] at hrest
        refine ⟨k₂, ?_, hk₁.trans hlookup hk₂⟩
        rw [Confined.run_bind, hrest]
        cases copyText _ n (idx + 1) (r.getD oneChar) <;> rfl
    · rw [Confined.run_bind_error hread, hchar]
      exact ⟨k₁, rfl, hk₁⟩

/-- `User2System` with a limit for which the buffer can be allocated. -/
theorem user2System_run (host : Host) (advances : Bool) (env : Env W)
    (htab : k.machine.tables = linear table) (hset : k.machine.Settled) (virtAddr : BitVec 32)
    (limit : Int) (hlow : -1 ≤ limit) (hhigh : limit ≠ 2 ^ 31 - 1) :
    ∃ k', (Sys.user2System env virtAddr limit : Sys host W advances _).run k =
      (orHalt (copyText (fun i => byteAt table k.machine.mainMemory
        (virtAddr + BitVec.ofNat 32 i)) limit.toNat 0 (env.uninit k.world)), k') ∧
      Untouched table k k' := by
  rw [Sys.user2System, if_neg (by omega)]
  exact copyIn_run host advances limit.toNat htab hset virtAddr 0 (env.uninit k.world)

/-! ## A string in mapped memory -/

/-- A string without zero bytes stands in memory from index `idx` on, with its terminator. -/
def Holds (read : Nat → Except ExceptionType Byte) (idx : Nat) (s : List Byte) : Prop :=
  (∀ (i : Nat) (h : i < s.length), read (idx + i) = .ok (s.get ⟨i, h⟩)) ∧ 0 ∉ s ∧
    read (idx + s.length) = .ok 0

/-- Storing a character and reading it back as a `char` gives it unchanged. -/
theorem setWidth_signExtend (c : Byte) : (c.signExtend 32).setWidth 8 = c := by
  apply BitVec.eq_of_getLsbD_eq
  intro i hi
  rw [BitVec.getLsbD_setWidth, BitVec.getLsbD_signExtend]
  simp [hi, show i < 32 by omega]

theorem signExtend_ne_zero {c : Byte} (h : c ≠ 0) : c.signExtend 32 ≠ 0 := by
  intro h0
  apply h
  rw [← setWidth_signExtend c, h0]
  rfl

/-- Of a string in mapped memory the first `n` characters arrive. -/
theorem cString_copyText (n : Nat) {idx : Nat} {s : List Byte} (h : Holds read idx s)
    (oneChar : BitVec 32) : (copyText read n idx oneChar).map cString = some (s.take n) := by
  induction n generalizing idx s oneChar with
  | zero => rfl
  | succ n ih =>
    obtain ⟨hread, hzero, hend⟩ := h
    cases s with
    | nil =>
      rw [copyText, show read idx = .ok 0 from hend]
      rfl
    | cons c rest =>
      have hc : read idx = .ok c := hread 0 (by simp)
      have hne : c ≠ 0 := fun h0 => hzero (by simp [h0])
      have hrest : Holds read (idx + 1) rest := by
        refine ⟨fun i hi => ?_, fun h0 => hzero (List.mem_cons_of_mem _ h0), ?_⟩
        · have := hread (i + 1) (by simpa using hi)
          rwa [show idx + (i + 1) = idx + 1 + i by omega] at this
        · rwa [List.length_cons, show idx + (rest.length + 1) = idx + 1 + rest.length by omega]
            at hend
      have hext := signExtend_ne_zero hne
      have ih := ih hrest (c.signExtend 32)
      rw [copyText, hc]
      simp only [nextChar, hext, if_false, Option.map_map, setWidth_signExtend,
        List.take_succ_cons]
      cases hcopy : copyText read n (idx + 1) (c.signExtend 32) with
      | none => simp [hcopy] at ih
      | some text =>
        simp only [hcopy, Option.map_some, Option.some.injEq] at ih
        simp only [Option.map_some, Function.comp_apply, cString] at ih ⊢
        rw [List.takeWhile_cons_of_pos (by simpa using hne), ih]

/-! ## An unmapped byte -/

/-- The value of `oneChar` when the loop comes to index `j` and all bytes before were mapped. -/
def staleChar (read : Nat → Except ExceptionType Byte) (oneChar : BitVec 32) : Nat → BitVec 32
  | 0 => oneChar
  | j + 1 => match read j with
      | .ok b => b.signExtend 32
      | .error _ => oneChar

/-- The first unmapped byte that the loop comes to is taken to be the character before it. -/
theorem copyText_stale {e : ExceptionType} (j idx : Nat) {n : Nat} {oneChar : BitVec 32}
    {buffer : List Byte} (hj : j < n) (hmapped : ∀ i < j, ∃ b, read (idx + i) = .ok b ∧ b ≠ 0)
    (hbad : read (idx + j) = .error e) (hcopy : copyText read n idx oneChar = some buffer) :
    buffer[j]? = some ((staleChar (fun i => read (idx + i)) oneChar j).setWidth 8) := by
  obtain ⟨n, rfl⟩ : ∃ n', n = n' + 1 := ⟨n - 1, by omega⟩
  rw [copyText] at hcopy
  induction j generalizing n idx oneChar buffer with
  | zero =>
    rw [show read idx = .error e from hbad] at hcopy
    cases e
    case PageFaultException => cases hcopy
    all_goals
      dsimp only [nextChar] at hcopy
      split at hcopy
      · rename_i h0
        cases hcopy
        simp [staleChar, h0]
      · obtain ⟨rest, -, rfl⟩ := Option.map_eq_some_iff.mp hcopy
        rfl
  | succ j ih =>
    obtain ⟨b, hb, hne⟩ := hmapped 0 (by omega)
    rw [Nat.add_zero] at hb
    rw [hb] at hcopy
    simp only [nextChar, signExtend_ne_zero hne, if_false] at hcopy
    obtain ⟨rest, hrest, rfl⟩ := Option.map_eq_some_iff.mp hcopy
    obtain ⟨n, rfl⟩ : ∃ n', n = n' + 1 := ⟨n - 1, by omega⟩
    rw [copyText] at hrest
    have hshift : ∀ i, read (idx + 1 + i) = read (idx + (i + 1)) := by
      intro i
      rw [show idx + 1 + i = idx + (i + 1) by omega]
    have hnext := ih (idx + 1) (fun i hi => hshift i ▸ hmapped (i + 1) (by omega))
      (hshift j ▸ hbad) n (by omega) hrest
    rw [List.getElem?_cons_succ, hnext]
    -- the character before is `b` or a later one
    cases j with
    | zero => simp [staleChar, hb]
    | succ j =>
      obtain ⟨b', hb', -⟩ := hmapped (j + 1) (by omega)
      simp [staleChar, hshift, hb']

end Syscall

end Nachos
