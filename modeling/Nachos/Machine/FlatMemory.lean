import Nachos.Library.WordBytes
import Nachos.Machine.Footprint
import Nachos.Machine.Mapping

/-!
# User memory as a flat array of bytes

Through a linear page table that maps its valid pages to different frames, `ReadMem` and `WriteMem`
are the operations of an array of bytes, indexed by virtual addresses, with the least significant
byte of a value first. `flat_memory` says so for one access, with the faults of `Translate`, and
`run_eq_runFlat` for any sequence of accesses of mixed sizes. The byte order of the host does not
matter.
-/

namespace Nachos

open BlockWrite WordBytes BitVec

/-! ## Byte order -/

/-- `WordToHost` on a big-endian host turns the four bytes round. -/
theorem wordToHost_bigEndian (w : BitVec 32) :
    wordToHost .bigEndian w = wordOf fun k => byteOf w (3 - k) := by
  have h0 : ∀ k < 4, ∀ i < 8, (0x000000ff#32).getLsbD (8 * k + i) = decide (k = 0) := by decide
  have h1 : ∀ k < 4, ∀ i < 8, (0x0000ff00#32).getLsbD (8 * k + i) = decide (k = 1) := by decide
  have h2 : ∀ k < 4, ∀ i < 8, (0x00ff0000#32).getLsbD (8 * k + i) = decide (k = 2) := by decide
  have h3 : ∀ k < 4, ∀ i < 8, (0xff000000#32).getLsbD (8 * k + i) = decide (k = 3) := by decide
  rw [← wordOf_byteOf (wordToHost .bigEndian w)]
  refine wordOf_congr fun k hk => ?_
  unfold byteOf wordToHost
  ext i hi
  simp only [getElem_extractLsb', getLsbD_or, getLsbD_and,
    getLsbD_ushiftRight, getLsbD_shiftLeft, h0 k hk i hi, h1 k hk i hi,
    h2 k hk i hi, h3 k hk i hi]
  -- one mask is left for each byte
  have hcases : k = 0 ∨ k = 1 ∨ k = 2 ∨ k = 3 := by omega
  rcases hcases with rfl | rfl | rfl | rfl
  · simp
  · simp [show 8 + (8 + i) = 16 + i by omega]
  · simp [show 16 + i - 8 = 8 + i by omega, show 16 + i < 32 by omega, show 8 ≤ 16 + i by omega]
  · simp [show 24 + i < 32 by omega]

/-- `ShortToHost` on a big-endian host turns the two bytes round. -/
theorem shortToHost_bigEndian (s : BitVec 16) :
    shortToHost .bigEndian s = s.extractLsb' 0 8 ++ s.extractLsb' 8 8 := by
  have hlow : ∀ i < 16, (0x00ff#16).getLsbD i = decide (i < 8) := by decide
  have hhigh : ∀ i < 16, (0xff00#16).getLsbD i = decide (8 ≤ i) := by decide
  apply eq_of_getLsbD_eq
  intro i hi
  simp only [shortToHost, getLsbD_or, getLsbD_and, getLsbD_ushiftRight,
    getLsbD_shiftLeft, getLsbD_append, getLsbD_extractLsb', hlow i hi,
    hhigh i hi]
  by_cases h : i < 8
  · simp [h]
  · simp [h, hi, show i - 8 < 8 by omega, show 8 ≤ i by omega]

/-- The value in the first `size` bytes of a block, the least significant byte first: a single byte
with its sign, two bytes without. -/
def littleEndianValue (b : Bytes) : Nat → Option (BitVec 32)
  | 1 => some ((b 0).signExtend 32)
  | 2 => some ((b 1 ++ b 0).setWidth 32)
  | 4 => some (wordOf b)
  | _ => none

/-- The value depends on the bytes it is made of. -/
theorem littleEndianValue_congr {b b' : Bytes} {size : Nat}
    (hsize : size = 1 ∨ size = 2 ∨ size = 4) (h : ∀ i < size, b i = b' i) :
    littleEndianValue b size = littleEndianValue b' size := by
  rcases hsize with rfl | rfl | rfl
  · rw [littleEndianValue, littleEndianValue, h 0 (by decide)]
  · rw [littleEndianValue, littleEndianValue, h 0 (by decide), h 1 (by decide)]
  · rw [littleEndianValue, littleEndianValue, wordOf_congr h]

theorem exists_littleEndianValue (b : Bytes) {size : Nat}
    (hsize : size = 1 ∨ size = 2 ∨ size = 4) : ∃ v, littleEndianValue b size = some v := by
  rcases hsize with rfl | rfl | rfl <;> exact ⟨_, rfl⟩

/-- The lowest `size` bytes of a value, the least significant one first. -/
def littleEndianBytes (value : BitVec 32) (size : Nat) : List (BitVec 8) :=
  (List.range size).map (byteOf value)

@[simp] theorem length_littleEndianBytes (value : BitVec 32) (size : Nat) :
    (littleEndianBytes value size).length = size := by
  simp [littleEndianBytes]

/-- `ReadMem` reads little-endian values on every host. -/
theorem readBytes_eq (host : Host) (memory : Store (BitVec 8)) (p : Int) {size : Nat}
    (hsize : size = 1 ∨ size = 2 ∨ size = 4) :
    readBytes host memory p size = littleEndianValue (fun i => memory (p + i)) size := by
  rcases hsize with rfl | rfl | rfl
  · simp [readBytes, littleEndianValue]
  · cases host with
    | littleEndian => simp [readBytes, littleEndianValue, shortToHost, hostShort]
    | bigEndian =>
      rw [readBytes, littleEndianValue, shortToHost_bigEndian, hostShort,
        BitVec.extractLsb'_append_eq_right, BitVec.extractLsb'_append_eq_left]
      simp
  · cases host with
    | littleEndian => simp [readBytes, littleEndianValue, wordToHost, hostWord, wordOf]
    | bigEndian =>
      -- the word as the host sees it, with the bytes in the opposite order
      have hword : hostWord .bigEndian (memory p) (memory (p + 1)) (memory (p + 2))
          (memory (p + 3)) = wordOf fun j => memory (p + (3 - j : Nat)) := by
        simp [hostWord, wordOf]
      rw [readBytes, littleEndianValue, wordToHost_bigEndian, hword]
      refine congrArg some (wordOf_congr fun k hk => ?_)
      rw [byteOf_wordOf _ (by omega), show 3 - (3 - k) = k by omega]

/-- `WriteMem` writes little-endian bytes on every host. -/
theorem writtenBytes_eq (host : Host) (value : BitVec 32) {size : Nat}
    (hsize : size = 1 ∨ size = 2 ∨ size = 4) :
    writtenBytes host value size = some (littleEndianBytes value size) := by
  rcases hsize with rfl | rfl | rfl
  · simp [writtenBytes, littleEndianBytes, byteOf, setWidth_eq_extractLsb']
  · have hlow : (value.setWidth 16).extractLsb' 0 8 = byteOf value 0 :=
      BitVec.extractLsb'_setWidth_of_le (by decide)
    have hhigh : (value.setWidth 16).extractLsb' 8 8 = byteOf value 1 :=
      BitVec.extractLsb'_setWidth_of_le (by decide)
    cases host with
    | littleEndian =>
      simp [writtenBytes, littleEndianBytes, hostShortBytes, shortToMachine, shortToHost, hlow,
        hhigh, List.range_succ]
    | bigEndian =>
      simp only [writtenBytes, hostShortBytes, shortToMachine, shortToHost_bigEndian, hlow, hhigh]
      rw [BitVec.extractLsb'_append_eq_right, BitVec.extractLsb'_append_eq_left]
      rfl
  · cases host with
    | littleEndian => rfl
    | bigEndian =>
      have hbyte : ∀ k < 4, byteOf (wordOf fun j => byteOf value (3 - j)) k =
          byteOf value (3 - k) := fun k hk => byteOf_wordOf _ hk
      simp only [writtenBytes, hostWordBytes, wordToMachine, wordToHost_bigEndian]
      exact congrArg some (congr (congrArg List.cons (hbyte 3 (by decide)))
        (congr (congrArg List.cons (hbyte 2 (by decide)))
          (congr (congrArg List.cons (hbyte 1 (by decide)))
            (congr (congrArg List.cons (hbyte 0 (by decide))) rfl))))

/-! ## The array of bytes -/

/-- The bytes a user program can address, by their virtual address. -/
abbrev UserMemory := Nat → Option (BitVec 8)

/-- The little-endian value of `size` bytes. -/
def UserMemory.read (memory : UserMemory) (a size : Nat) : Option (BitVec 32) :=
  if ∀ i < size, (memory (a + i)).isSome then
    littleEndianValue (fun i => (memory (a + i)).getD 0) size
  else none

/-- The array after bytes have been written from an address on. -/
def UserMemory.write (memory : UserMemory) (a : Nat) (bytes : List (BitVec 8)) : UserMemory :=
  fun x => if a ≤ x ∧ x < a + bytes.length then bytes[x - a]? else memory x

/-- The place in main memory of the byte at a virtual address. -/
def physical (table : List TranslationEntry) (a : Nat) : Option Int :=
  match table[a / PageSize]? with
  | none => none
  | some e => if e.valid then some (e.physicalPage * PageSize + (a % PageSize : Nat)) else none

/-- The array of bytes that the page table makes of main memory. -/
def userMemory (m : Machine) : UserMemory :=
  fun a => m.tables.pageTable.bind fun table => (physical table a).map m.mainMemory

/-- The fault of an access: a misaligned address and one beyond the table first, then an invalid
page, then a write to a page that is read-only. -/
def accessFault (table : List TranslationEntry) (addr : BitVec 32) (size : Nat) (writing : Bool) :
    Option ExceptionType :=
  if addr.toNat % size ≠ 0 then some .AddressErrorException
  else match table[addr.toNat / PageSize]? with
    | none => some .AddressErrorException
    | some e =>
      if !e.valid then some .PageFaultException
      else if e.readOnly && writing then some .ReadOnlyException
      else none

/-- A page table that maps different valid pages to different frames of main memory. -/
structure Flat (table : List TranslationEntry) : Prop where
  frame : ∀ e ∈ table, e.valid = true → 0 ≤ e.physicalPage ∧ e.physicalPage < NumPhysPages
  distinct : ∀ (i j : Nat) (e e' : TranslationEntry), table[i]? = some e → table[j]? = some e' →
    e.valid = true → e'.valid = true → e.physicalPage = e'.physicalPage → i = j

section

variable {table : List TranslationEntry} {addr : BitVec 32} {size : Nat} {writing : Bool}

/-- The fault is the one `Translate` reports. -/
theorem translate_of_accessFault {x : ExceptionType} (hsize : size = 1 ∨ size = 2 ∨ size = 4)
    (h : accessFault table addr size writing = some x) :
    translate (linear table) addr size writing = .fault x := by
  have halign : misaligned addr size = false ↔ addr.toNat % size = 0 :=
    misaligned_eq_false_iff hsize
  unfold accessFault at h
  unfold translate linear
  split at h
  · rename_i hrem
    cases h
    rw [if_pos (by simpa using mt halign.mp hrem)]
  · rename_i hrem
    rw [if_neg (by simpa using halign.mpr (by simpa using hrem))]
    dsimp only
    cases he : table[addr.toNat / PageSize]? with
    | none =>
      rw [he] at h
      cases h
      rfl
    | some e =>
      rw [he] at h
      dsimp only at h ⊢
      split at h
      · rename_i hvalid
        cases h
        rw [if_pos hvalid]
      · rename_i hvalid
        rw [if_neg hvalid]
        split at h
        · rename_i hro
          cases h
          rw [translateEntry, if_pos hro]
        · cases h

/-- An access without a fault is aligned, its page is valid, and `Translate` finds the byte. -/
theorem translate_of_allowed (hflat : Flat table) (hsize : size = 1 ∨ size = 2 ∨ size = 4)
    (h : accessFault table addr size writing = none) :
    ∃ e p, table[addr.toNat / PageSize]? = some e ∧ e.valid = true ∧
      addr.toNat % PageSize + size ≤ PageSize ∧
      (p : Nat) = e.physicalPage * PageSize + (addr.toNat % PageSize : Nat) ∧
      translate (linear table) addr size writing =
        .ok p (linear (table.set (addr.toNat / PageSize) (e.touch writing))) := by
  unfold accessFault at h
  split at h
  · cases h
  rename_i hrem
  split at h
  · cases h
  rename_i e he
  split at h
  · cases h
  rename_i hvalid
  split at h
  · cases h
  rename_i hro
  have halign : misaligned addr size = false :=
    (misaligned_eq_false_iff hsize).mpr (by simpa using hrem)
  have hframe := hflat.frame e (List.mem_of_getElem? he) (by simpa using hvalid)
  have hpage : ((BitVec.ofInt 32 e.physicalPage).toNat : Int) = e.physicalPage := by
    simp only [NumPhysPages, toNat_ofInt] at hframe ⊢
    omega
  have hinside := offset_add_size_le halign hsize
  refine ⟨e, (BitVec.ofInt 32 e.physicalPage).toNat * PageSize + addr.toNat % PageSize, he,
    by simpa using hvalid, hinside, by rw [Nat.cast_add, Nat.cast_mul, hpage], ?_⟩
  unfold translate linear
  simp only [halign, Bool.false_eq_true, if_false, he, hvalid]
  unfold translateEntry
  rw [if_neg hro]
  dsimp only
  rw [if_neg, if_pos]
  · simp only [MemorySize, PageSize, SectorSize, NumPhysPages] at hinside hframe ⊢
    omega
  · simp only [NumPhysPages] at hframe ⊢
    omega

/-- The bytes of one page follow each other in main memory. -/
theorem physical_add {e : TranslationEntry} {p : Nat}
    (he : table[addr.toNat / PageSize]? = some e) (hvalid : e.valid = true)
    (hinside : addr.toNat % PageSize + size ≤ PageSize)
    (hp : (p : Int) = e.physicalPage * PageSize + (addr.toNat % PageSize : Nat)) {i : Nat}
    (hi : i < size) : physical table (addr.toNat + i) = some ((p : Int) + i) := by
  have hdiv : (addr.toNat + i) / PageSize = addr.toNat / PageSize := by
    simp only [PageSize, SectorSize] at hinside ⊢
    omega
  have hmod : (addr.toNat + i) % PageSize = addr.toNat % PageSize + i := by
    simp only [PageSize, SectorSize] at hinside ⊢
    omega
  unfold physical
  rw [hdiv, hmod, he, hp]
  simp only [hvalid, if_true]
  rw [Nat.cast_add, Int.add_assoc]

/-- Different virtual addresses are at different places. -/
theorem physical_inj (hflat : Flat table) {a b : Nat} {p : Int} (ha : physical table a = some p)
    (hb : physical table b = some p) : a = b := by
  have hplace : ∀ {x : Nat}, physical table x = some p → ∃ e, table[x / PageSize]? = some e ∧
      e.valid = true ∧ p = e.physicalPage * PageSize + (x % PageSize : Nat) := by
    intro x hx
    unfold physical at hx
    split at hx
    · cases hx
    · rename_i e he
      split at hx
      · rename_i hvalid
        cases hx
        exact ⟨e, he, hvalid, rfl⟩
      · cases hx
  obtain ⟨e, he, hvalid, hpa⟩ := hplace ha
  obtain ⟨e', he', hvalid', hpb⟩ := hplace hb
  simp only [PageSize, SectorSize] at he he' hpa hpb
  have hpage : a / 512 = b / 512 := hflat.distinct _ _ e e' he he' hvalid hvalid' (by omega)
  have hoffset : a % 512 = b % 512 := by
    rw [hpage] at he
    have := he.symm.trans he'
    cases this
    omega
  omega

/-! ## Setting bits does not move a byte -/

variable {table' : List TranslationEntry}

/-- Where a byte is depends on what the table maps. -/
theorem physical_congr (h : table'.map (·.mapping) = table.map (·.mapping)) :
    physical table' = physical table := by
  have hmapping : ∀ t : List TranslationEntry, physical (t.map (·.mapping)) = physical t := by
    intro t
    funext a
    unfold physical
    rw [List.getElem?_map]
    cases t[a / PageSize]? <;> rfl
  rw [← hmapping table', h, hmapping table]

/-- The fault of an access depends on what the table maps. -/
theorem accessFault_congr (h : table'.map (·.mapping) = table.map (·.mapping)) :
    accessFault table' = accessFault table := by
  have hmapping : ∀ t : List TranslationEntry,
      accessFault (t.map (·.mapping)) = accessFault t := by
    intro t
    funext a size writing
    unfold accessFault
    rw [List.getElem?_map]
    cases t[a.toNat / PageSize]? <;> rfl
  rw [← hmapping table', h, hmapping table]

/-- So does being flat. -/
theorem Flat.congr (hflat : Flat table) (h : table'.map (·.mapping) = table.map (·.mapping)) :
    Flat table' := by
  have hentry : ∀ {i : Nat} {e' : TranslationEntry}, table'[i]? = some e' →
      ∃ e, table[i]? = some e ∧ e.mapping = e'.mapping := by
    intro i e' he'
    have hi := congrArg (·[i]?) h
    simpa [he', eq_comm] using hi
  constructor
  · intro e' he' hvalid
    obtain ⟨i, hi⟩ := List.mem_iff_getElem?.mp he'
    obtain ⟨e, he, hmapping⟩ := hentry hi
    have hpage : e.physicalPage = e'.physicalPage := congrArg (·.physicalPage) hmapping
    have hv : e.valid = e'.valid := congrArg (·.valid) hmapping
    exact hpage ▸ hflat.frame e (List.mem_of_getElem? he) (hv.trans hvalid)
  · intro i j e e' he he' hvalid hvalid' hpage
    obtain ⟨d, hd, hmapping⟩ := hentry he
    obtain ⟨d', hd', hmapping'⟩ := hentry he'
    exact hflat.distinct i j d d' hd hd' ((congrArg (·.valid) hmapping).trans hvalid)
      ((congrArg (·.valid) hmapping').trans hvalid') ((congrArg (·.physicalPage) hmapping).trans
        (hpage.trans (congrArg (·.physicalPage) hmapping').symm))

/-- The array of bytes of a machine with a linear table. -/
theorem userMemory_apply {m : Machine} (hm : m.tables = linear table) (a : Nat) :
    userMemory m a = (physical table a).map m.mainMemory := by
  rw [userMemory, hm]
  rfl

/-! ## One access -/

variable {m : Machine} {host : Host}

/-- An access that faults leaves the machine as it is. -/
theorem access_of_fault (host : Host) {x : ExceptionType} (hm : m.tables = linear table)
    (hsize : size = 1 ∨ size = 2 ∨ size = 4) :
    (accessFault table addr size false = some x →
      (Cpu.readMem addr size : Cpu host _).run m = (.error (.raise x addr), m)) ∧
    (accessFault table addr size true = some x → ∀ value,
      (Cpu.writeMem addr size value : Cpu host _).run m = (.error (.raise x addr), m)) := by
  constructor
  · intro h
    simp only [Cpu.readMem, hm, translate_of_accessFault hsize h]
  · intro h value
    simp only [Cpu.writeMem, hm, translate_of_accessFault hsize h]

/-- A read without a fault returns the value in the array. -/
theorem readMem_of_allowed (host : Host) (hm : m.tables = linear table) (hflat : Flat table)
    (hsize : size = 1 ∨ size = 2 ∨ size = 4) (h : accessFault table addr size false = none) :
    ∃ v m', (Cpu.readMem addr size : Cpu host _).run m = (.ok v, m') ∧
      (userMemory m).read addr.toNat size = some v ∧ m'.mainMemory = m.mainMemory ∧
      userMemory m' = userMemory m := by
  obtain ⟨e, p, he, hvalid, hinside, hp, htranslate⟩ := translate_of_allowed hflat hsize h
  have hbyte : ∀ i < size, userMemory m (addr.toNat + i) = some (m.mainMemory (p + i)) := by
    intro i hi
    rw [userMemory_apply hm, physical_add he hvalid hinside hp hi, Option.map_some]
  have hread : (userMemory m).read addr.toNat size =
      littleEndianValue (fun i => m.mainMemory (p + i)) size := by
    rw [UserMemory.read, if_pos fun i hi => by rw [hbyte i hi, Option.isSome_some]]
    exact littleEndianValue_congr hsize fun i hi => by rw [hbyte i hi, Option.getD_some]
  obtain ⟨v, hv⟩ := exists_littleEndianValue (fun i => m.mainMemory (p + i)) hsize
  refine ⟨v, m.touched (linear (table.set (addr.toNat / PageSize) (e.touch false))), ?_,
    hread.trans hv, rfl, ?_⟩
  · simp only [Cpu.readMem, hm, htranslate, readBytes_eq host m.mainMemory p hsize, hv]
  · funext a
    rw [userMemory_apply hm, userMemory_apply (m := m.touched (linear _)) rfl,
      physical_congr (map_mapping_set he false)]
    rfl

/-- A write without a fault puts the bytes of the value into the array, and into main memory
nothing else. -/
theorem writeMem_of_allowed (host : Host) (hm : m.tables = linear table) (hflat : Flat table)
    (hsize : size = 1 ∨ size = 2 ∨ size = 4) (h : accessFault table addr size true = none)
    (value : BitVec 32) :
    ∃ m', (Cpu.writeMem addr size value : Cpu host _).run m = (.ok (), m') ∧
      userMemory m' = (userMemory m).write addr.toNat (littleEndianBytes value size) ∧
      ∀ q, (∀ i < size, physical table (addr.toNat + i) ≠ some q) →
        m'.mainMemory q = m.mainMemory q := by
  obtain ⟨e, p, he, hvalid, hinside, hp, htranslate⟩ := translate_of_allowed hflat hsize h
  have hplace : ∀ i < size, physical table (addr.toNat + i) = some ((p : Int) + i) :=
    fun i hi => physical_add he hvalid hinside hp hi
  have hkeep : ∀ q, (∀ i < size, physical table (addr.toNat + i) ≠ some q) →
      write m.mainMemory ⟨p, littleEndianBytes value size⟩ q = m.mainMemory q := by
    intro q hq
    refine write_of_not_covered ?_ m.mainMemory
    rintro ⟨hlow, hhigh⟩
    simp only [length_littleEndianBytes] at hlow hhigh
    refine hq (q - p).toNat (by omega) ?_
    rw [hplace _ (by omega)]
    exact congrArg some (by omega)
  refine ⟨(m.touched (linear (table.set (addr.toNat / PageSize) (e.touch true)))).store p
    (littleEndianBytes value size), ?_, ?_, hkeep⟩
  · simp only [Cpu.writeMem, hm, htranslate, writtenBytes_eq host value hsize]
  · funext a
    rw [userMemory_apply (m := (m.touched (linear _)).store _ _) rfl,
      physical_congr (map_mapping_set he true), UserMemory.write, length_littleEndianBytes]
    show (physical table a).map (write m.mainMemory ⟨p, littleEndianBytes value size⟩) = _
    split
    · rename_i hin
      obtain ⟨i, rfl⟩ := Nat.exists_eq_add_of_le hin.1
      rw [hplace i (by omega), Option.map_some, write, Block.get?, if_pos (by simp),
        show ((p : Int) + i - p).toNat = i by omega, Nat.add_sub_cancel_left,
        List.getElem?_eq_getElem (by rw [length_littleEndianBytes]; omega)]
      rfl
    · rename_i hout
      rw [userMemory_apply hm]
      cases ha : physical table a with
      | none => rfl
      | some q =>
        refine congrArg some (hkeep q fun i hi hq => hout ?_)
        have := physical_inj hflat ha hq
        omega

end

/-- User memory is a flat array of little-endian bytes. A read or write faults exactly as
`accessFault` says and then changes neither memory nor a bit of the table. Otherwise a write
replaces the bytes of the access in the array and no other byte of main memory, and a read returns
their value. -/
theorem flat_memory (host : Host) {table : List TranslationEntry} {m : Machine}
    (hm : m.tables = linear table) (hflat : Flat table) (addr : BitVec 32) {size : Nat}
    (hsize : size = 1 ∨ size = 2 ∨ size = 4) (value : BitVec 32) :
    (match accessFault table addr size false with
      | some x => (Cpu.readMem addr size : Cpu host _).run m = (.error (.raise x addr), m)
      | none => ∃ v m', (Cpu.readMem addr size : Cpu host _).run m = (.ok v, m') ∧
          (userMemory m).read addr.toNat size = some v ∧ m'.mainMemory = m.mainMemory ∧
          userMemory m' = userMemory m) ∧
    (match accessFault table addr size true with
      | some x => (Cpu.writeMem addr size value : Cpu host _).run m = (.error (.raise x addr), m)
      | none => ∃ m', (Cpu.writeMem addr size value : Cpu host _).run m = (.ok (), m') ∧
          userMemory m' = (userMemory m).write addr.toNat (littleEndianBytes value size) ∧
          ∀ q, (∀ i < size, physical table (addr.toNat + i) ≠ some q) →
            m'.mainMemory q = m.mainMemory q) := by
  constructor
  · cases h : accessFault table addr size false with
    | some x => exact (access_of_fault _ hm hsize).1 h
    | none => exact readMem_of_allowed _ hm hflat hsize h
  · cases h : accessFault table addr size true with
    | some x => exact (access_of_fault _ hm hsize).2 h value
    | none => exact writeMem_of_allowed _ hm hflat hsize h value

/-- Two pages, the first in frame 3 and the second read-only in frame 1. -/
def twoPages : List TranslationEntry :=
  [⟨0, 3, true, false, false, false⟩, ⟨1, 1, true, true, false, false⟩]

theorem flat_twoPages : Flat twoPages := by
  constructor
  · decide
  · intro i j e e' he he' hvalid hvalid' hpage
    match i, j with
    | 0, 0 => rfl
    | 1, 1 => rfl
    | 0, 1 =>
      cases he
      cases he'
      cases hpage
    | 1, 0 =>
      cases he
      cases he'
      cases hpage
    | i + 2, _ => cases he
    | _, j + 2 => cases he'

/-- On a big-endian host, a word at 8 is written, and a write at 516 is refused. -/
theorem flat_memory_twoPages :
    (∃ m', (Cpu.writeMem 8 4 0x01020304 : Cpu .bigEndian _).run
        ⟨fun _ => 0, fun _ => 0, linear twoPages⟩ = (.ok (), m') ∧
      (userMemory m').read 8 2 = some 0x0304) ∧
    (Cpu.writeMem 516 4 7 : Cpu .bigEndian _).run ⟨fun _ => 0, fun _ => 0, linear twoPages⟩ =
      (.error (.raise .ReadOnlyException 516), ⟨fun _ => 0, fun _ => 0, linear twoPages⟩) := by
  have hwrite := (flat_memory .bigEndian (m := ⟨fun _ => 0, fun _ => 0, linear twoPages⟩) rfl
    flat_twoPages 8 (.inr (.inr rfl)) 0x01020304).2
  have hrefused := (flat_memory .bigEndian (m := ⟨fun _ => 0, fun _ => 0, linear twoPages⟩) rfl
    flat_twoPages 516 (.inr (.inr rfl)) 7).2
  refine ⟨?_, hrefused⟩
  obtain ⟨m', hrun, huser, -⟩ := hwrite
  refine ⟨m', hrun, ?_⟩
  rw [huser]
  decide

/-! ## Sequences of accesses -/

/-- An access to user memory. -/
inductive MemOp where
  | read (addr : BitVec 32) (size : Nat)
  | write (addr : BitVec 32) (size : Nat) (value : BitVec 32)

/-- The number of bytes of an access. -/
def MemOp.size : MemOp → Nat
  | read _ size => size
  | write _ size _ => size

/-- An access on the machine, with what a read returns. -/
def MemOp.perform (host : Host) (m : Machine) : MemOp → Except Trap (Option (BitVec 32)) × Machine
  | read addr size =>
    let r := (Cpu.readMem addr size : Cpu host _).run m
    (r.1.map some, r.2)
  | write addr size value =>
    let r := (Cpu.writeMem addr size value : Cpu host _).run m
    (r.1.map fun _ => none, r.2)

/-- The same access on the array of bytes. -/
def MemOp.performFlat (table : List TranslationEntry) (memory : UserMemory) :
    MemOp → Except Trap (Option (BitVec 32)) × UserMemory
  | read addr size => match accessFault table addr size false with
      | some x => (.error (.raise x addr), memory)
      | none => (.ok (memory.read addr.toNat size), memory)
  | write addr size value => match accessFault table addr size true with
      | some x => (.error (.raise x addr), memory)
      | none => (.ok none, memory.write addr.toNat (littleEndianBytes value size))

/-- A sequence of accesses on the machine. -/
def MemOp.run (host : Host) (m : Machine) :
    List MemOp → List (Except Trap (Option (BitVec 32))) × Machine
  | [] => ([], m)
  | op :: ops =>
    let rest := run host (op.perform host m).2 ops
    ((op.perform host m).1 :: rest.1, rest.2)

/-- A sequence of accesses on the array of bytes. -/
def MemOp.runFlat (table : List TranslationEntry) (memory : UserMemory) :
    List MemOp → List (Except Trap (Option (BitVec 32))) × UserMemory
  | [] => ([], memory)
  | op :: ops =>
    let rest := runFlat table (op.performFlat table memory).2 ops
    ((op.performFlat table memory).1 :: rest.1, rest.2)

section

variable {table : List TranslationEntry} {host : Host} {m : Machine}

/-- No access changes what the table maps. -/
theorem MemOp.mapping_perform (op : MemOp) (m : Machine) :
    (op.perform host m).2.tables.mapping = m.tables.mapping := by
  cases op with
  | read addr size => exact mapping_run _ m
  | write addr size value => exact mapping_run _ m

/-- Tables that map what a linear table maps are a linear table. -/
theorem linear_of_mapping (h : m.tables.mapping = (linear table).mapping) :
    ∃ table', m.tables = linear table' ∧ table'.map (·.mapping) = table.map (·.mapping) := by
  generalize m.tables = tables at h ⊢
  obtain ⟨tlb, pageTable⟩ := tables
  cases tlb with
  | some tlb => cases h
  | none =>
    cases pageTable with
    | none => cases h
    | some table' => exact ⟨table', rfl, Option.some.inj (congrArg Tables.pageTable h)⟩

/-- One access on the machine is the access on the array. -/
theorem MemOp.perform_eq (host : Host) (hflat : Flat table)
    (hm : m.tables.mapping = (linear table).mapping) {op : MemOp}
    (hsize : op.size = 1 ∨ op.size = 2 ∨ op.size = 4) :
    (op.perform host m).1 = (op.performFlat table (userMemory m)).1 ∧
      userMemory (op.perform host m).2 = (op.performFlat table (userMemory m)).2 := by
  obtain ⟨table', htables, hmap⟩ := linear_of_mapping hm
  have hflat' := hflat.congr hmap
  cases op with
  | read addr size =>
    dsimp only [MemOp.size] at hsize
    simp only [perform, performFlat, ← accessFault_congr hmap]
    cases h : accessFault table' addr size false with
    | some x => simp [(access_of_fault host htables hsize).1 h, Except.map]
    | none =>
      obtain ⟨v, m', hrun, hread, -, huser⟩ :=
        readMem_of_allowed host htables hflat' hsize h
      simp [hrun, hread, huser, Except.map]
  | write addr size value =>
    dsimp only [MemOp.size] at hsize
    simp only [perform, performFlat, ← accessFault_congr hmap]
    cases h : accessFault table' addr size true with
    | some x => simp [(access_of_fault host htables hsize).2 h value, Except.map]
    | none =>
      obtain ⟨m', hrun, huser, -⟩ :=
        writeMem_of_allowed host htables hflat' hsize h value
      simp [hrun, huser, Except.map]

/-- Any sequence of reads and writes of mixed sizes on the machine gives the results of the same
sequence on the array of bytes. -/
theorem MemOp.run_eq_runFlat (hflat : Flat table)
    (hm : m.tables.mapping = (linear table).mapping) {ops : List MemOp}
    (hsize : ∀ op ∈ ops, op.size = 1 ∨ op.size = 2 ∨ op.size = 4) :
    (run host m ops).1 = (runFlat table (userMemory m) ops).1 ∧
      userMemory (run host m ops).2 = (runFlat table (userMemory m) ops).2 := by
  induction ops generalizing m with
  | nil => exact ⟨rfl, rfl⟩
  | cons op ops ih =>
    obtain ⟨hresult, huser⟩ := perform_eq host hflat hm (hsize op List.mem_cons_self)
    obtain ⟨hrest, hlast⟩ := ih ((op.mapping_perform m).trans hm)
      fun op' h => hsize op' (List.mem_cons_of_mem _ h)
    rw [huser] at hrest hlast
    exact ⟨congr (congrArg List.cons hresult) hrest, hlast⟩

end

end Nachos
