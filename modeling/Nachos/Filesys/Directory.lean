import Nachos.Filesys.Disk

/-!
# The directory

`Directory` of `filesys/directory.cc`: a table of entries, each with a name of at most
`FileNameMaxLen` characters and the sector of a file header. Names are compared with `strncmp` and
stored with `strncpy`, so what counts of a name is its beginning, the `key`. The files in a
directory are the entries in use.
-/

namespace Nachos.Filesys

open WordBytes

/-- `FileNameMaxLen` of `directory.h`. -/
def FileNameMaxLen : Nat := 9

/-- `NumDirEntries` of `filesys.cc`. -/
def NumDirEntries : Nat := 10

/-- `sizeof(DirectoryEntry)`: a `bool`, an `int` at offset 4 and ten characters at offset 8. -/
def entrySize : Nat := 20

/-- A C string: characters up to the first zero. -/
structure CString where
  chars : List (BitVec 8)
  noNul : 0 ∉ chars
  deriving DecidableEq

/-- The string in memory. -/
def CString.bytes (s : CString) : Bytes := fun k => s.chars.getD k 0

/-- `strncmp(a, b, n) == 0`, from the `k`th character on. -/
def strncmpEq (a b : Bytes) : Nat → Nat → Bool
  | _, 0 => true
  | k, n + 1 => if a k ≠ b k then false else if a k = 0 then true else strncmpEq a b (k + 1) n

/-- `strncpy(dest, source, n)`. -/
def strncpy (dest : Bytes) (source : CString) (n : Nat) : Bytes :=
  fun k => if k < n then source.bytes k else dest k

/-- The string in at most `n` characters from the `k`th on. -/
def cut (b : Bytes) : Nat → Nat → List (BitVec 8)
  | _, 0 => []
  | k, n + 1 => if b k = 0 then [] else b k :: cut b (k + 1) n

/-- `DirectoryEntry`. -/
structure DirectoryEntry where
  inUse : Bool
  sector : Int
  name : Bytes

/-- What counts of a name. -/
abbrev Key := List (BitVec 8)

/-- The key of a name. -/
def CString.key (s : CString) : Key := s.chars.take FileNameMaxLen

/-- The key in an entry. -/
def DirectoryEntry.key (e : DirectoryEntry) : Key := cut e.name 0 FileNameMaxLen

/-- The file in an entry. -/
def DirectoryEntry.file (e : DirectoryEntry) : Option (Key × Int) :=
  if e.inUse then some (e.key, e.sector) else none

/-- The table of a `Directory`. -/
abbrev Directory := List DirectoryEntry

namespace Directory

/-- The files in a directory. -/
def files (table : Directory) : List (Key × Int) := table.filterMap DirectoryEntry.file

/-- `Directory::FindIndex`; `none` stands for `-1`. -/
def findIndex (table : Directory) (name : CString) : Option Nat :=
  table.findIdx? fun e => e.inUse && strncmpEq e.name name.bytes 0 FileNameMaxLen

/-- `Directory::Find`. -/
def find (table : Directory) (name : CString) : Int :=
  match table.findIndex name with
  | some i => (table.map DirectoryEntry.sector).getD i (-1)
  | none => -1

/-- `Directory::Add`; `none` stands for `FALSE`. -/
def add (table : Directory) (name : CString) (newSector : Int) : Option Directory :=
  if (table.findIndex name).isSome then none
  else (table.findIdx? fun e => !e.inUse).map fun i =>
    table.modify i fun e => ⟨true, newSector, strncpy e.name name FileNameMaxLen⟩

/-- `Directory::Remove`; `none` stands for `FALSE`. -/
def remove (table : Directory) (name : CString) : Option Directory :=
  (table.findIndex name).map fun i => table.modify i fun e => { e with inUse := false }

end Directory

/-! ## The table in memory and on the disk -/

/-- A byte of an entry in memory. The bytes between the fields are never looked at. -/
def DirectoryEntry.byte (e : DirectoryEntry) (o : Nat) : BitVec 8 :=
  if o = 0 then if e.inUse then 1 else 0
  else if 4 ≤ o ∧ o < 8 then byteOf (BitVec.ofInt 32 e.sector) (o - 4)
  else if 8 ≤ o ∧ o < 18 then e.name (o - 8)
  else 0

/-- The entry in memory. -/
def DirectoryEntry.ofBytes (b : Bytes) : DirectoryEntry where
  inUse := b 0 != 0
  sector := (wordOf fun j => b (4 + j)).toInt
  name := fun k => if k < FileNameMaxLen + 1 then b (8 + k) else 0

namespace Directory

/-- The table in memory. -/
def bytes (table : Directory) : Bytes := fun o =>
  (table[o / entrySize]?).elim 0 fun e => e.byte (o % entrySize)

/-- The table of `size` entries in memory. -/
def ofBytes (b : Bytes) (size : Nat) : Directory :=
  (List.range size).map fun i => DirectoryEntry.ofBytes fun o => b (entrySize * i + o)

/-- `Directory::Directory`. -/
def new (size : Nat) (raw : Bytes) : Directory :=
  (ofBytes raw size).map fun e => { e with inUse := false }

/-- `Directory::FetchFrom`. -/
def fetchFrom (table : Directory) (disk : Disk) (file : FileHeader) : Except Failure Directory := do
  let r ← readAt disk file table.bytes (table.length * entrySize : Nat) 0
  pure (ofBytes r.2 table.length)

/-- `Directory::WriteBack`. -/
def writeBack (table : Directory) (disk : Disk) (file : FileHeader) (raw : Bytes) :
    Except Failure Disk := do
  let r ← writeAt disk file table.bytes raw (table.length * entrySize : Nat) 0
  pure r.2

end Directory

/-! ## Strings -/

/-- `strncmp` compares the strings up to the bound. -/
theorem strncmpEq_iff (a b : Bytes) (k n : Nat) :
    strncmpEq a b k n = true ↔ cut a k n = cut b k n := by
  induction n generalizing k with
  | zero => simp [strncmpEq, cut]
  | succ n ih =>
    simp only [strncmpEq, cut]
    by_cases hab : a k = b k
    · by_cases ha : a k = 0
      · simp [← hab, ha]
      · rw [if_neg (not_not.mpr hab), if_neg ha, if_neg ha, if_neg (hab ▸ ha), ih, hab]
        simp
    · -- the strings differ here, also when one of them ends
      rw [if_pos hab]
      by_cases ha : a k = 0
      · have hb : b k ≠ 0 := fun hb => hab (ha.trans hb.symm)
        rw [if_pos ha, if_neg hb]
        simp
      · rw [if_neg ha]
        by_cases hb : b k = 0
        · rw [if_pos hb]
          simp
        · rw [if_neg hb]
          simp [hab]

/-- A string depends on its own characters. -/
theorem cut_congr {a b : Bytes} {k n : Nat} (h : ∀ j, k ≤ j → j < k + n → a j = b j) :
    cut a k n = cut b k n := by
  induction n generalizing k with
  | zero => rfl
  | succ n ih =>
    rw [cut, cut, h k (le_refl k) (by omega), ih fun j hj hlt => h j (by omega) (by omega)]

theorem cut_bytes (s : CString) (k n : Nat) : cut s.bytes k n = (s.chars.drop k).take n := by
  induction n generalizing k with
  | zero => simp [cut]
  | succ n ih =>
    rw [cut, ih, CString.bytes]
    by_cases hk : k < s.chars.length
    · have hne : s.chars[k] ≠ 0 := fun heq => s.noNul (heq ▸ List.getElem_mem hk)
      have hget : s.chars.getD k 0 = s.chars[k] := by simp [hk]
      rw [hget, if_neg hne, List.drop_eq_getElem_cons hk, List.take_succ_cons]
    · have hk := Nat.le_of_not_lt hk
      have hget : s.chars.getD k 0 = 0 := by simp [hk]
      rw [hget, if_pos rfl, List.drop_eq_nil_of_le hk, List.take_nil]

theorem CString.key_eq (s : CString) : s.key = cut s.bytes 0 FileNameMaxLen := by
  rw [cut_bytes, List.drop_zero, CString.key]

theorem key_strncpy (dest : Bytes) (s : CString) :
    cut (strncpy dest s FileNameMaxLen) 0 FileNameMaxLen = s.key := by
  rw [CString.key_eq]
  exact cut_congr fun j _ hj => if_pos (by omega)

/-- The test of `FindIndex`. -/
theorem match_iff (e : DirectoryEntry) (name : CString) :
    (e.inUse && strncmpEq e.name name.bytes 0 FileNameMaxLen) = true ↔
      ∃ sector, e.file = some (name.key, sector) := by
  rw [Bool.and_eq_true, strncmpEq_iff, ← CString.key_eq, DirectoryEntry.file]
  cases e.inUse with
  | false => simp
  | true => simp [DirectoryEntry.key, eq_comm]

/-! ## Operations on the files -/

/-- The first element that passes a test, and what is before it. -/
theorem findIdx?_split {α : Type*} {p : α → Bool} {l : List α} {i : Nat}
    (h : l.findIdx? p = some i) :
    ∃ before a after, l = before ++ a :: after ∧ before.length = i ∧ p a = true ∧
      ∀ x ∈ before, p x = false := by
  induction l generalizing i with
  | nil => simp at h
  | cons b rest ih =>
    rw [List.findIdx?_cons] at h
    cases hb : p b with
    | true =>
      simp only [hb, if_true, Option.some.injEq] at h
      exact ⟨[], b, rest, rfl, by simpa using h, hb, by simp⟩
    | false =>
      simp only [hb, Bool.false_eq_true, if_false, Option.map_eq_some_iff] at h
      obtain ⟨j, hj, rfl⟩ := h
      obtain ⟨before, a, after, rfl, rfl, ha, hbefore⟩ := ih hj
      refine ⟨b :: before, a, after, rfl, by simp, ha, fun x hx => ?_⟩
      rcases List.mem_cons.mp hx with rfl | hx
      · exact hb
      · exact hbefore x hx

theorem modify_split {α : Type*} {before after : List α} {a : α} {f : α → α} :
    (before ++ a :: after).modify before.length f = before ++ f a :: after := by
  induction before with
  | nil => rfl
  | cons b rest ih => simpa using ih

namespace Directory

variable {table table' : Directory} {name : CString} {newSector : Int}

/-- `Find` of a name that is not there. -/
theorem findIndex_eq_none (h : table.findIndex name = none) :
    ∀ f ∈ table.files, f.1 ≠ name.key := by
  intro f hf heq
  obtain ⟨e, he, hfile⟩ := List.mem_filterMap.mp hf
  have hmatch := (match_iff e name).mpr ⟨f.2, by rw [hfile, ← heq]⟩
  rw [findIndex, List.findIdx?_eq_none_iff] at h
  simp [h e he] at hmatch

/-- `Find` of a name that is there. -/
theorem findIndex_eq_some {i : Nat} (h : table.findIndex name = some i) :
    ∃ before e after, table = before ++ e :: after ∧ before.length = i ∧
      e.file = some (name.key, table.find name) := by
  obtain ⟨before, e, after, rfl, rfl, he, -⟩ := findIdx?_split h
  obtain ⟨sector, hsector⟩ := (match_iff e name).mp he
  refine ⟨before, e, after, rfl, rfl, ?_⟩
  have hinUse : e.inUse = true := (Bool.and_eq_true_iff.mp he).1
  rw [hsector, find, h]
  simp only [DirectoryEntry.file, hinUse, if_true, Option.some.injEq, Prod.mk.injEq] at hsector
  simp [hsector.2]

theorem find_cases (table : Directory) (name : CString) :
    (table.find name = -1 ∧ table.findIndex name = none) ∨
      ((name.key, table.find name) ∈ table.files ∧ ∃ i, table.findIndex name = some i) := by
  cases h : table.findIndex name with
  | none => exact .inl ⟨by rw [find, h], rfl⟩
  | some i =>
    obtain ⟨before, e, after, htable, -, hfile⟩ := findIndex_eq_some h
    refine .inr ⟨List.mem_filterMap.mpr ⟨e, ?_, hfile⟩, i, rfl⟩
    rw [htable]
    exact List.mem_append_right _ List.mem_cons_self

/-- `Add` puts the file between the others. -/
theorem add_spec (h : table.add name newSector = some table') :
    (∀ f ∈ table.files, f.1 ≠ name.key) ∧ table'.length = table.length ∧
      ∃ before after, table.files = before ++ after ∧
        table'.files = before ++ (name.key, newSector) :: after := by
  unfold add at h
  split at h
  · cases h
  · rename_i hnone
    rw [Option.map_eq_some_iff] at h
    obtain ⟨i, hfree, rfl⟩ := h
    obtain ⟨before, e, after, rfl, rfl, he, -⟩ := findIdx?_split hfree
    have hunused : e.file = none := by
      rw [DirectoryEntry.file, if_neg (by simpa using he)]
    refine ⟨findIndex_eq_none (by simpa using hnone), List.length_modify .., files before,
      files after, ?_, ?_⟩
    · simp [files, List.filterMap_append, hunused]
    · rw [modify_split]
      simp [files, List.filterMap_append, DirectoryEntry.file, DirectoryEntry.key, key_strncpy]

/-- `Remove` takes the file out. -/
theorem remove_spec (h : table.findIndex name ≠ none) :
    ∃ table', table.remove name = some table' ∧ table'.length = table.length ∧
      ∃ before after, table.files = before ++ (name.key, table.find name) :: after ∧
        table'.files = before ++ after := by
  obtain ⟨i, hi⟩ := Option.ne_none_iff_exists'.mp h
  obtain ⟨before, e, after, htable, rfl, hfile⟩ := findIndex_eq_some hi
  refine ⟨_, by rw [remove, hi]; rfl, List.length_modify .., files before, files after, ?_, ?_⟩
  · conv_lhs => rw [htable]
    simp [files, List.filterMap_append, hfile]
  · conv_lhs => rw [htable, modify_split]
    simp [files, List.filterMap_append, DirectoryEntry.file]

/-- There is room as long as some entry is not in use. -/
theorem add_ok (hnone : table.findIndex name = none) (hroom : table.files.length < table.length) :
    ∃ table', table.add name newSector = some table' := by
  rw [add, hnone, if_neg (by simp)]
  cases hfree : table.findIdx? (fun e => !e.inUse) with
  | some i => exact ⟨_, rfl⟩
  | none =>
    rw [List.findIdx?_eq_none_iff] at hfree
    have hall : ∀ e ∈ table, (e.file).isSome = true := fun e he => by
      have hinUse : e.inUse = true := by simpa using hfree e he
      simp [DirectoryEntry.file, hinUse]
    have hlength : table.files.length = table.length := by
      rw [files, List.length_filterMap_eq_countP, List.countP_eq_length]
      exact hall
    omega

/-- A file that has been added took an entry that was not in use. -/
theorem add_room (h : table.add name newSector = some table') :
    table.files.length < table.length := by
  obtain ⟨-, hlength, before, after, hfiles, hfiles'⟩ := add_spec h
  have hle : table'.files.length ≤ table'.length := List.length_filterMap_le _ _
  rw [hlength, hfiles', List.length_append, List.length_cons] at hle
  rw [hfiles, List.length_append]
  omega

@[simp] theorem length_ofBytes (b : Bytes) (size : Nat) : (ofBytes b size).length = size := by
  simp [ofBytes]

@[simp] theorem length_new (size : Nat) (raw : Bytes) : (new size raw).length = size := by
  simp [new]

theorem files_new (size : Nat) (raw : Bytes) : (new size raw).files = [] := by
  simp [files, new, DirectoryEntry.file]

end Directory

/-- An entry depends on its own bytes. -/
theorem DirectoryEntry.ofBytes_congr {b b' : Bytes} (h : ∀ o < 18, b o = b' o) :
    DirectoryEntry.ofBytes b = DirectoryEntry.ofBytes b' := by
  have hsector : (wordOf fun j => b (4 + j)) = wordOf fun j => b' (4 + j) :=
    wordOf_congr fun j hj => h _ (by omega)
  have hname : (fun k => if k < FileNameMaxLen + 1 then b (8 + k) else 0) =
      fun k => if k < FileNameMaxLen + 1 then b' (8 + k) else 0 := by
    funext k
    by_cases hk : k < FileNameMaxLen + 1
    · rw [if_pos hk, if_pos hk, h _ (by simp only [FileNameMaxLen] at hk; omega)]
    · rw [if_neg hk, if_neg hk]
  rw [DirectoryEntry.ofBytes, DirectoryEntry.ofBytes, h 0 (by decide), hsector, hname]

/-- The file in an entry that has been through memory. -/
theorem DirectoryEntry.file_ofBytes {e : DirectoryEntry}
    (h : ∀ f, e.file = some f → 0 ≤ f.2 ∧ f.2 < NumSectors) :
    (DirectoryEntry.ofBytes e.byte).file = e.file := by
  have hinUse : (DirectoryEntry.ofBytes e.byte).inUse = e.inUse := by
    cases he : e.inUse <;> simp [DirectoryEntry.ofBytes, DirectoryEntry.byte, he]
  cases he : e.inUse with
  | false => rw [DirectoryEntry.file, DirectoryEntry.file, hinUse, he]; rfl
  | true =>
    have hrange := h (e.key, e.sector) (by simp [DirectoryEntry.file, he])
    simp only [NumSectors] at hrange
    have hword : (wordOf fun j => e.byte (4 + j)) = BitVec.ofInt 32 e.sector := by
      rw [← wordOf_byteOf (BitVec.ofInt 32 e.sector)]
      refine wordOf_congr fun j hj => ?_
      rw [DirectoryEntry.byte, if_neg (by omega), if_pos (by omega), Nat.add_sub_cancel_left]
    have hkey : (DirectoryEntry.ofBytes e.byte).key = e.key := by
      refine cut_congr fun j _ hj => ?_
      have hname : (DirectoryEntry.ofBytes e.byte).name j = e.byte (8 + j) := if_pos (by omega)
      simp only [FileNameMaxLen] at hj
      rw [hname, DirectoryEntry.byte, if_neg (by omega), if_neg (by omega), if_pos (by omega),
        Nat.add_sub_cancel_left]
    have hsector : (DirectoryEntry.ofBytes e.byte).sector = e.sector := by
      rw [DirectoryEntry.ofBytes, hword]
      exact WordBytes.toInt_ofInt_of_fits ⟨by omega, by omega⟩
    rw [DirectoryEntry.file, DirectoryEntry.file, hinUse, hkey, hsector]

namespace Directory

variable {table : Directory} {b : Bytes} {file : FileHeader} {d : Int}

theorem bytes_entry {i o : Nat} (hi : i < table.length) (ho : o < entrySize) :
    table.bytes (entrySize * i + o) = table[i].byte o := by
  have hdiv : (entrySize * i + o) / entrySize = i := by
    rw [Nat.mul_add_div (by decide), Nat.div_eq_of_lt ho, Nat.add_zero]
  have hmod : (entrySize * i + o) % entrySize = o := by
    rw [Nat.mul_add_mod, Nat.mod_eq_of_lt ho]
  rw [bytes, hdiv, hmod, List.getElem?_eq_getElem hi]
  rfl

/-- The table depends on its own bytes. -/
theorem ofBytes_congr {b' : Bytes} {size : Nat} (h : ∀ o < size * entrySize, b o = b' o) :
    ofBytes b size = ofBytes b' size := by
  refine List.map_congr_left fun i hi => DirectoryEntry.ofBytes_congr fun o ho => h _ ?_
  have hi := List.mem_range.mp hi
  simp only [entrySize]
  omega

/-- The files of a directory survive in memory and on the disk. -/
theorem files_ofBytes (h : ∀ f ∈ table.files, 0 ≤ f.2 ∧ f.2 < NumSectors)
    (hb : ∀ o < table.length * entrySize, b o = table.bytes o) :
    (ofBytes b table.length).files = table.files := by
  have hentry : (List.range table.length).map (fun i =>
      (DirectoryEntry.ofBytes fun o => b (entrySize * i + o)).file) =
        table.map DirectoryEntry.file := by
    refine List.ext_getElem (by simp) fun i hi hi' => ?_
    have hi : i < table.length := by simpa using hi
    have hsame : (DirectoryEntry.ofBytes fun o => b (entrySize * i + o)) =
        DirectoryEntry.ofBytes table[i].byte := by
      refine DirectoryEntry.ofBytes_congr fun o ho => ?_
      rw [← bytes_entry hi (by simp only [entrySize]; omega)]
      exact hb _ (by simp only [entrySize]; omega)
    have hrange : ∀ f, table[i].file = some f → 0 ≤ f.2 ∧ f.2 < NumSectors := fun f hf =>
      h f (List.mem_filterMap.mpr ⟨_, List.getElem_mem hi, hf⟩)
    rw [List.getElem_map, List.getElem_range, List.getElem_map, hsame,
      DirectoryEntry.file_ofBytes hrange]
  have hfiles : ∀ l : Directory, l.files = (l.map DirectoryEntry.file).filterMap id := fun l => by
    rw [files, List.filterMap_map, Function.id_comp]
  rw [hfiles, hfiles, ← hentry, ofBytes, List.map_map]
  rfl

/-- Reading the directory from its file. -/
theorem fetchFrom_eq {disk : Disk} (h : file.OneSector (table.length * entrySize) d) :
    table.fetchFrom disk file = .ok (ofBytes (disk d) table.length) := by
  rw [fetchFrom, readAt_whole h]
  exact congrArg Except.ok (ofBytes_congr fun o ho => if_pos ho)

/-- Writing the directory to its file. -/
theorem writeBack_spec (disk : Disk) (raw : Bytes)
    (h : file.OneSector (table.length * entrySize) d)
    (hfiles : ∀ f ∈ table.files, 0 ≤ f.2 ∧ f.2 < NumSectors) :
    ∃ data, table.writeBack disk file raw = .ok (Function.update disk d data) ∧
      (ofBytes data table.length).files = table.files := by
  obtain ⟨data, hdata, hwrite⟩ := writeAt_whole disk table.bytes raw h
  refine ⟨data, ?_, files_ofBytes hfiles hdata⟩
  rw [writeBack, hwrite]
  rfl

end Directory

end Nachos.Filesys
