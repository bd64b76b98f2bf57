import Nachos.Machine.Machine

/-!
# The memory that accesses through a page table reach

Every access to memory goes through `Translate`. With a linear page table whose frames exist, an
aligned access of 1, 2 or 4 bytes stays inside one frame of the table. So a program on the machine
changes no byte outside the frames of the table, and no frame number of the table
(`Within.run`).
-/

namespace Nachos

open BlockWrite

/-- The byte is in the frame. -/
def InFrame (f p : Int) : Prop := f * PageSize ≤ p ∧ p < (f + 1) * PageSize

/-- The byte is in one of the frames. -/
def InFrames (fs : List Int) (p : Int) : Prop := ∃ f ∈ fs, InFrame f p

variable {virtAddr : BitVec 32} {size : Nat} {tables : Tables} {p : Nat} {writing : Bool}

/-- An access that `Translate` lets through is aligned. -/
theorem aligned_of_translate {tables' : Tables}
    (h : translate tables virtAddr size writing = .ok p tables') :
    misaligned virtAddr size = false := by
  unfold translate at h
  split at h
  · cases h
  · rename_i haligned
    simpa using haligned

/-- The alignment test looks at the remainder by the size. -/
theorem misaligned_eq_false_iff (hsize : size = 1 ∨ size = 2 ∨ size = 4) :
    misaligned virtAddr size = false ↔ virtAddr.toNat % size = 0 := by
  have hmask : ∀ k, k < 32 → (virtAddr &&& BitVec.ofNat 32 (2 ^ k - 1) = 0#32 ↔
      virtAddr.toNat % 2 ^ k = 0) := by
    intro k hk
    have hlt : 2 ^ k - 1 < 2 ^ 32 := by
      have := Nat.pow_lt_pow_right (a := 2) (by omega) hk
      omega
    rw [← BitVec.toNat_inj, BitVec.toNat_and, BitVec.toNat_ofNat, Nat.mod_eq_of_lt hlt,
      Nat.and_two_pow_sub_one_eq_mod]
    rfl
  rcases hsize with rfl | rfl | rfl
  · simp [misaligned, Nat.mod_one]
  · simpa [misaligned] using hmask 1 (by decide)
  · simpa [misaligned] using hmask 2 (by decide)

/-- An aligned access does not cross the end of its page. -/
theorem offset_add_size_le (h : misaligned virtAddr size = false)
    (hsize : size = 1 ∨ size = 2 ∨ size = 4) : virtAddr.toNat % PageSize + size ≤ PageSize := by
  rw [misaligned_eq_false_iff hsize] at h
  simp only [PageSize, SectorSize]
  rcases hsize with rfl | rfl | rfl <;> omega

/-- The bytes of a successful access are inside one frame of the table. -/
theorem translate_in_frame {table : List TranslationEntry}
    (hframes : ∀ f ∈ frames table, 0 ≤ f ∧ f < NumPhysPages)
    (hsize : size = 1 ∨ size = 2 ∨ size = 4)
    (h : translate (linear table) virtAddr size writing = .ok p tables) :
    ∃ f ∈ frames table, f * PageSize ≤ p ∧ (p : Int) + size ≤ (f + 1) * PageSize := by
  obtain ⟨e, he, hp, -⟩ := translate_ok h
  have hmem : e.physicalPage ∈ frames table := List.mem_map_of_mem (List.mem_of_getElem? he)
  have hrange := hframes _ hmem
  have hoffset := offset_add_size_le (aligned_of_translate h) hsize
  have hframe : ((BitVec.ofInt 32 e.physicalPage).toNat : Int) = e.physicalPage := by
    simp only [NumPhysPages, BitVec.toNat_ofInt] at hrange ⊢
    omega
  refine ⟨e.physicalPage, hmem, ?_⟩
  simp only [PageSize, SectorSize] at hp hoffset ⊢
  omega

/-- The page table maps the frames `fs`, and memory outside of them is as in `memory`. -/
structure Within (fs : List Int) (memory : Store (BitVec 8)) (m : Machine) : Prop where
  table : ∃ table, m.tables = linear table ∧ frames table = fs
  outside : ∀ p, ¬ InFrames fs p → m.mainMemory p = memory p

namespace Within

variable {fs : List Int} {memory : Store (BitVec 8)} {m m' : Machine} {host : Host}

/-- Registers do not matter. -/
theorem registers (h : Within fs memory m) (registers : Reg → BitVec 32) :
    Within fs memory { m with registers := registers } := ⟨h.table, h.outside⟩

/-- A translation sets bits only. -/
theorem touched (h : Within fs memory m) {virtAddr : BitVec 32} {size p : Nat} {writing : Bool}
    {tables : Tables} (htr : translate m.tables virtAddr size writing = .ok p tables) :
    Within fs memory (m.touched tables) := by
  obtain ⟨table, htable, rfl⟩ := h.table
  rw [htable] at htr
  obtain ⟨e, he, -, rfl⟩ := translate_ok htr
  exact ⟨⟨_, rfl, frames_set_touch he writing⟩, h.outside⟩

/-- What one access keeps. -/
theorem access (h : Within fs memory m) (hfs : ∀ f ∈ fs, 0 ≤ f ∧ f < NumPhysPages)
    (hstep : Access host m m') : Within fs memory m' := by
  cases hstep with
  | register r v => exact h.registers _
  | touch htr => exact h.touched htr
  | store htr hbytes =>
    rename_i virtAddr value size p tables bytes
    have htouched := h.touched htr
    refine ⟨htouched.table, fun q hq => ?_⟩
    obtain ⟨table, htable, rfl⟩ := h.table
    rw [htable] at htr
    obtain ⟨hlen, hsize⟩ := length_of_writtenBytes hbytes
    obtain ⟨f, hf, hlow, hhigh⟩ := translate_in_frame hfs hsize htr
    have hcovers : ¬ (Block.mk (p : Int) bytes).Covers q := by
      rintro ⟨hpq, hqp⟩
      refine hq ⟨f, hf, ?_⟩
      simp only [hlen] at hpq hqp
      unfold InFrame
      omega
    have hkeep : writeAll m.mainMemory [⟨p, bytes⟩] q = m.mainMemory q :=
      writeAll_of_not_covered (by simpa using hcovers) _
    exact hkeep.trans (h.outside q hq)

/-- What a program on the machine keeps. -/
theorem run {α : Type} (h : Within fs memory m) (hfs : ∀ f ∈ fs, 0 ≤ f ∧ f < NumPhysPages)
    (x : Cpu host α) : Within fs memory (x.run m).2 :=
  Confined.invariant (P := Within fs memory) (fun _ _ hstep hs => hs.access hfs hstep) x h

end Within

end Nachos
