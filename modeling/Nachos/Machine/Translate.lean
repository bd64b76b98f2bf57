import Mathlib.Data.List.Basic

/-!
# Address translation

`Machine::Translate` of `machine/translate.cc` with the constants of `machine/machine.h`. The
tables are lists, so `pageTableSize` is a length. A failing `ASSERT` is the result `abort`; an
exception leaves the tables alone; a success gives the physical address and the table with the
`use` and `dirty` bits set.
-/

namespace Nachos

/-- `SectorSize` of `machine/disk.h`. -/
def SectorSize : Nat := 512

/-- `PageSize` of `machine.h`. -/
def PageSize : Nat := SectorSize

/-- `NumPhysPages` of `machine.h`. -/
def NumPhysPages : Nat := 128

/-- `MemorySize` of `machine.h`. -/
def MemorySize : Nat := NumPhysPages * PageSize

/-- `TLBSize` of `machine.h`. -/
def TLBSize : Nat := 4

/-- The byte order of the machine the simulator runs on: `HOST_IS_BIG_ENDIAN` or not. -/
inductive Host where
  | littleEndian
  | bigEndian
  deriving DecidableEq, Repr

/-- `WordToHost`. -/
def wordToHost (host : Host) (word : BitVec 32) : BitVec 32 :=
  match host with
  | .littleEndian => word
  | .bigEndian =>
    ((word >>> 24) &&& 0x000000ff#32) ||| ((word >>> 8) &&& 0x0000ff00#32) |||
      ((word <<< 8) &&& 0x00ff0000#32) ||| ((word <<< 24) &&& 0xff000000#32)

/-- Four consecutive bytes as the host reads them through an `unsigned int` pointer. -/
def hostWord (host : Host) (b0 b1 b2 b3 : BitVec 8) : BitVec 32 :=
  match host with
  | .littleEndian => b3 ++ b2 ++ b1 ++ b0
  | .bigEndian => b0 ++ b1 ++ b2 ++ b3

/-- The bytes the host writes through an `unsigned int` pointer. -/
def hostWordBytes (host : Host) (w : BitVec 32) : List (BitVec 8) :=
  match host with
  | .littleEndian =>
    [w.extractLsb' 0 8, w.extractLsb' 8 8, w.extractLsb' 16 8, w.extractLsb' 24 8]
  | .bigEndian =>
    [w.extractLsb' 24 8, w.extractLsb' 16 8, w.extractLsb' 8 8, w.extractLsb' 0 8]

/-- `ExceptionType` of `machine.h`, without the final counter. -/
inductive ExceptionType where
  | NoException
  | SyscallException
  | PageFaultException
  | ReadOnlyException
  | BusErrorException
  | AddressErrorException
  | OverflowException
  | IllegalInstrException
  deriving DecidableEq, Repr

/-- An entry of a page table or of the TLB. -/
structure TranslationEntry where
  virtualPage : Int
  physicalPage : Int
  valid : Bool
  readOnly : Bool
  use : Bool
  dirty : Bool
  deriving DecidableEq, Repr

/-- The translation hardware: the two table pointers of `Machine`, `none` for `NULL`. -/
structure Tables where
  tlb : Option (List TranslationEntry)
  pageTable : Option (List TranslationEntry)
  deriving DecidableEq, Repr

/-- How a translation ends. -/
inductive Translation where
  | abort
  | fault (exception : ExceptionType)
  | ok (physAddr : Nat) (tables : Tables)
  deriving DecidableEq, Repr

/-- The `use` and `dirty` bits after a successful access. -/
def TranslationEntry.touch (e : TranslationEntry) (writing : Bool) : TranslationEntry :=
  { e with use := true, dirty := e.dirty || writing }

/-- The alignment test at the start of `Machine::Translate`. -/
def misaligned (virtAddr : BitVec 32) (size : Nat) : Bool :=
  (size == 4 && virtAddr &&& 3#32 != 0#32) || (size == 2 && virtAddr &&& 1#32 != 0#32)

/-- The part of `Machine::Translate` after the entry has been found: permission, frame number,
`use` and `dirty` bits, physical address. The frame number is converted to unsigned, which makes
a negative one too large. -/
def translateEntry (e : TranslationEntry) (offset size : Nat) (writing : Bool)
    (update : TranslationEntry → Tables) : Translation :=
  if e.readOnly && writing then .fault .ReadOnlyException
  else
    let pageFrame := (BitVec.ofInt 32 e.physicalPage).toNat
    if NumPhysPages ≤ pageFrame then .fault .BusErrorException
    else
      let physAddr := pageFrame * PageSize + offset
      if physAddr + size ≤ MemorySize then .ok physAddr (update (e.touch writing)) else .abort

/-- `Machine::Translate`. -/
def translate (m : Tables) (virtAddr : BitVec 32) (size : Nat) (writing : Bool) : Translation :=
  if misaligned virtAddr size then .fault .AddressErrorException
  else
    let vpn := virtAddr.toNat / PageSize
    let offset := virtAddr.toNat % PageSize
    match m.tlb, m.pageTable with
    | some _, some _ => .abort
    | none, none => .abort
    | none, some table =>
      match table[vpn]? with
      | none => .fault .AddressErrorException
      | some e =>
        if !e.valid then .fault .PageFaultException
        else translateEntry e offset size writing
          (fun e' => { m with pageTable := some (table.set vpn e') })
    | some tlb, none =>
      -- the loop over the TLB stops at the first valid entry for this virtual page
      match (tlb.take TLBSize).findIdx?
          (fun e => e.valid && BitVec.ofInt 32 e.virtualPage == BitVec.ofNat 32 vpn) with
      | none => .fault .PageFaultException
      | some i =>
        match tlb[i]? with
        | none => .fault .PageFaultException
        | some e => translateEntry e offset size writing
            (fun e' => { m with tlb := some (tlb.set i e') })

/-! ## Translation through a linear page table -/

/-- The hardware state of a process without TLB: `AddrSpace::RestoreState` installs its page
table. -/
def linear (table : List TranslationEntry) : Tables := ⟨none, some table⟩

/-- The page table of one page, in frame 0. -/
def onePage : List TranslationEntry := [⟨0, 0, true, false, false, false⟩]

/-- The frame numbers of a page table, in the order of the virtual pages. -/
def frames (table : List TranslationEntry) : List Int := table.map (·.physicalPage)

@[simp] theorem touch_physicalPage (e : TranslationEntry) (writing : Bool) :
    (e.touch writing).physicalPage = e.physicalPage := rfl

variable {table : List TranslationEntry} {e : TranslationEntry}

/-- Setting `use` and `dirty` bits does not move a page. -/
theorem frames_set_touch {vpn : Nat} (h : table[vpn]? = some e) (writing : Bool) :
    frames (table.set vpn (e.touch writing)) = frames table := by
  obtain ⟨hlt, he⟩ := List.getElem?_eq_some_iff.mp h
  have hset : ((table.map (·.physicalPage)).set vpn e.physicalPage) =
      table.map (·.physicalPage) := by
    apply List.ext_getElem?
    intro i
    rw [List.getElem?_set]
    split
    · rename_i hi
      subst hi
      simp [hlt, he]
    · rfl
  rw [frames, List.map_set, touch_physicalPage, hset, frames]

/-- An entry whose frame exists is never reported as a bus error. -/
theorem translateEntry_ne_bus (h0 : 0 ≤ e.physicalPage) (h1 : e.physicalPage < NumPhysPages)
    (offset size : Nat) (writing : Bool) (update : TranslationEntry → Tables) :
    translateEntry e offset size writing update ≠ .fault .BusErrorException := by
  have hframe : ¬ NumPhysPages ≤ (BitVec.ofInt 32 e.physicalPage).toNat := by
    simp only [NumPhysPages, BitVec.toNat_ofInt] at h1 ⊢
    omega
  unfold translateEntry
  split
  · simp
  · simp only [hframe, if_false]
    split <;> simp

/-- With every frame below `NumPhysPages`, `Translate` never returns `BusErrorException`. -/
theorem translate_ne_bus (h : ∀ f ∈ frames table, 0 ≤ f ∧ f < NumPhysPages) (virtAddr : BitVec 32)
    (size : Nat) (writing : Bool) :
    translate (linear table) virtAddr size writing ≠ .fault .BusErrorException := by
  unfold translate linear
  split
  · simp
  · dsimp only
    split
    · simp
    · rename_i e he
      split
      · simp
      · have hf := h e.physicalPage (List.mem_map_of_mem (List.mem_of_getElem? he))
        exact translateEntry_ne_bus hf.1 hf.2 _ _ _ _

/-- A successful translation only sets bits of the entry it used. -/
theorem translate_ok {virtAddr : BitVec 32} {size : Nat} {writing : Bool} {physAddr : Nat}
    {tables : Tables} (h : translate (linear table) virtAddr size writing = .ok physAddr tables) :
    ∃ e, table[virtAddr.toNat / PageSize]? = some e ∧
      physAddr = (BitVec.ofInt 32 e.physicalPage).toNat * PageSize + virtAddr.toNat % PageSize ∧
      tables = linear (table.set (virtAddr.toNat / PageSize) (e.touch writing)) := by
  unfold translate linear at h
  split at h
  · cases h
  · dsimp only at h
    split at h
    · cases h
    · rename_i e he
      split at h
      · cases h
      · unfold translateEntry at h
        split at h
        · cases h
        · dsimp only at h
          split at h
          · cases h
          · split at h
            · cases h
              exact ⟨e, he, rfl, rfl⟩
            · cases h

end Nachos
