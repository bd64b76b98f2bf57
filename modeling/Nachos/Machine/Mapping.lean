import Nachos.Machine.Machine

/-!
# Translation and the `use` and `dirty` bits

A translation that succeeds sets bits of one entry of the tables. What the tables map is the rest
of them: it is left alone (`mapping_of_translate`), and the outcome of a translation depends on
nothing else (`outcome_translate`).
-/

namespace Nachos

/-- An entry without its `use` and `dirty` bits. -/
def TranslationEntry.mapping (e : TranslationEntry) : TranslationEntry :=
  { e with use := false, dirty := false }

/-- The tables without the `use` and `dirty` bits: what they map. -/
def Tables.mapping (t : Tables) : Tables :=
  ⟨t.tlb.map (·.map (·.mapping)), t.pageTable.map (·.map (·.mapping))⟩

/-- How a translation ends, without the tables. -/
inductive Translation.Outcome where
  | abort
  | fault (exception : ExceptionType)
  | ok (physAddr : Nat)

/-- Forget the tables. -/
def Translation.outcome : Translation → Translation.Outcome
  | .abort => .abort
  | .fault exception => .fault exception
  | .ok physAddr _ => .ok physAddr

/-- What an entry gives, from the two fields that count. -/
def entryOutcome (readOnly : Bool) (physicalPage : Int) (offset size : Nat) (writing : Bool) :
    Translation.Outcome :=
  if readOnly && writing then .fault .ReadOnlyException
  else if NumPhysPages ≤ (BitVec.ofInt 32 physicalPage).toNat then .fault .BusErrorException
  else if (BitVec.ofInt 32 physicalPage).toNat * PageSize + offset + size ≤ MemorySize then
    .ok ((BitVec.ofInt 32 physicalPage).toNat * PageSize + offset)
  else .abort

theorem outcome_translateEntry (e : TranslationEntry) (offset size : Nat) (writing : Bool)
    (update : TranslationEntry → Tables) :
    (translateEntry e offset size writing update).outcome =
      entryOutcome e.readOnly e.physicalPage offset size writing := by
  unfold translateEntry entryOutcome
  split
  · rfl
  · dsimp only
    split
    · rfl
    · split <;> rfl

/-- A translation depends on what the tables map, not on the bits. -/
theorem outcome_translate (t : Tables) (virtAddr : BitVec 32) (size : Nat) (writing : Bool) :
    (translate t virtAddr size writing).outcome =
      (translate t.mapping virtAddr size writing).outcome := by
  obtain ⟨tlb, table⟩ := t
  unfold translate
  split
  · rfl
  cases tlb with
  | none =>
    cases table with
    | none => rfl
    | some table =>
      dsimp only [Tables.mapping, Option.map_none, Option.map_some]
      rw [List.getElem?_map]
      cases table[virtAddr.toNat / PageSize]? with
      | none => rfl
      | some e =>
        dsimp only [Option.map_some]
        cases hvalid : e.valid with
        | false =>
          have hvalid' : e.mapping.valid = false := hvalid
          simp only [hvalid']
          rfl
        | true =>
          have hvalid' : e.mapping.valid = true := hvalid
          simp only [hvalid', Bool.not_true, Bool.false_eq_true, if_false,
            outcome_translateEntry]
          rfl
  | some tlb =>
    cases table with
    | some table => rfl
    | none =>
      dsimp only [Tables.mapping, Option.map_none, Option.map_some]
      have hkey : ∀ e : TranslationEntry, (e.mapping.valid &&
          BitVec.ofInt 32 e.mapping.virtualPage ==
            BitVec.ofNat 32 (virtAddr.toNat / PageSize)) = (e.valid &&
          BitVec.ofInt 32 e.virtualPage ==
            BitVec.ofNat 32 (virtAddr.toNat / PageSize)) := fun _ => rfl
      rw [← List.map_take, List.findIdx?_map]
      simp only [Function.comp_def, hkey]
      generalize (tlb.take TLBSize).findIdx? _ = found
      cases found with
      | none => rfl
      | some i =>
        dsimp only
        rw [List.getElem?_map]
        cases tlb[i]? with
        | none => rfl
        | some e =>
          simp only [outcome_translateEntry, Option.map_some]
          rfl

variable {e : TranslationEntry} {size p : Nat} {writing : Bool} {t' : Tables} {host : Host}

/-- The entry a successful access leaves behind. -/
theorem translateEntry_ok {offset : Nat} {update : TranslationEntry → Tables}
    (h : translateEntry e offset size writing update = .ok p t') :
    t' = update (e.touch writing) := by
  unfold translateEntry at h
  split at h
  · cases h
  · dsimp only at h
    split at h
    · cases h
    · split at h
      · cases h
        rfl
      · cases h

/-- Setting the bits of an entry does not change what its table maps. -/
theorem map_mapping_set {l : List TranslationEntry} {i : Nat} (h : l[i]? = some e)
    (writing : Bool) : (l.set i (e.touch writing)).map (·.mapping) = l.map (·.mapping) := by
  obtain ⟨hi, rfl⟩ := List.getElem?_eq_some_iff.mp h
  have hi' : i < (l.map (·.mapping)).length := by rwa [List.length_map]
  have hself : (l[i].touch writing).mapping = (l.map (·.mapping))[i] := by
    rw [List.getElem_map]
    rfl
  rw [List.map_set, hself, List.set_getElem_self]

/-- A translation only sets bits. -/
theorem mapping_of_translate {t : Tables} {virtAddr : BitVec 32}
    (h : translate t virtAddr size writing = .ok p t') : t'.mapping = t.mapping := by
  obtain ⟨tlb, table⟩ := t
  unfold translate at h
  split at h
  · cases h
  cases tlb with
  | none =>
    cases table with
    | none => cases h
    | some table =>
      dsimp only at h
      split at h
      · cases h
      rename_i e he
      split at h
      · cases h
      rw [translateEntry_ok h, Tables.mapping, Tables.mapping]
      dsimp only [Option.map_some]
      rw [map_mapping_set he]
  | some tlb =>
    cases table with
    | some table => cases h
    | none =>
      dsimp only at h
      split at h
      · cases h
      split at h
      · cases h
      rename_i e he
      rw [translateEntry_ok h, Tables.mapping, Tables.mapping]
      dsimp only [Option.map_some]
      rw [map_mapping_set he]

/-! ## Programs on the machine -/

/-- No program on the machine changes what the tables map. -/
theorem mapping_run {α : Type} (x : Cpu host α) (m : Machine) :
    (x.run m).2.tables.mapping = m.tables.mapping := by
  refine Confined.invariant (P := fun s => s.tables.mapping = m.tables.mapping) ?_ x rfl
  intro s t hstep hs
  cases hstep with
  | register r v => exact hs
  | touch h => exact (mapping_of_translate h).trans hs
  | store h hbytes => exact (mapping_of_translate h).trans hs

/-- What is read depends on memory and on what the tables map. -/
theorem readMem_outcome {m m' : Machine} (addr : BitVec 32) (size : Nat)
    (hmemory : m'.mainMemory = m.mainMemory) (hmapping : m'.tables.mapping = m.tables.mapping) :
    ((Cpu.readMem addr size : Cpu host _).run m').1 =
      ((Cpu.readMem addr size : Cpu host _).run m).1 := by
  have houtcome : (translate m'.tables addr size false).outcome =
      (translate m.tables addr size false).outcome := by
    rw [outcome_translate, hmapping, ← outcome_translate]
  simp only [Cpu.readMem, hmemory]
  cases h : translate m.tables addr size false <;>
    cases h' : translate m'.tables addr size false <;> rw [h, h'] at houtcome <;> cases houtcome
  · rfl
  · dsimp only
    split <;> rfl

end Nachos
