import Nachos.Filesys.Directory
import Nachos.Library.Refinement
import Nachos.Userprog.STable

/-!
# The semaphore table as the code keeps it

`STable` of `userprog/stable.cc` in its own data: a bitmap, an array of pointers and in each `Sem` a
field of 50 bytes for the name, filled by `strcpy` and compared by `strcmp`. Which slots are in use
is said twice, by the bits and by the pointers, and nothing in the data keeps two semaphores from
having one name. Following a null pointer, a failing `ASSERT`, a `strcpy` that runs over the field
and a `strcmp` that runs past it are failures.

The table refines `Nachos.STable`, where the agreement of bits and pointers and the uniqueness of
names are part of the type: from the empty table on, every sequence of calls with names that fit
runs without a failure, as there.
-/

namespace Nachos.SemTable

open Filesys Refinement Transition Function

/-- `Sem`: the bytes of the field `name`, and the semaphore. -/
structure Sem (T : Type) where
  name : List Byte
  sem : Semaphore.Shared T

/-- The fields of `STable`. -/
structure Table (T : Type) where
  bm : BitMap
  semTab : Fin MAX_SEMAPHORE → Option (Sem T)

variable {T : Type}

/-- `strcpy(field, source)`. -/
def strcpy (field source : List Byte) : Option (List Byte) :=
  if source.length < field.length then some (source ++ 0 :: field.drop (source.length + 1))
  else none

/-- `strcmp(s, field) == 0` for a string of the given characters. -/
def strcmpEq : List Byte → List Byte → Option Bool
  | [], b :: _ => some (decide (b = 0))
  | c :: s, b :: field => if c = b then strcmpEq s field else some false
  | _, [] => none

/-- `Sem::Sem`; `field` is what the heap held. -/
def Sem.new (field : List Byte) (na : CString) (i : Int) : Option (Sem T) :=
  (strcpy field na.chars).map fun name => ⟨name, .new i⟩

/-- `Sem::GetName`, as the string that the caller sees. -/
def Sem.getName (e : Sem T) : List Byte := cString e.name

/-- `STable::STable`. -/
def Table.new (raw : Nat → BitVec 32) : Table T where
  bm := .new MAX_SEMAPHORE raw
  semTab := fun _ => none

/-- The loop that `Create`, `Wait` and `Signal` have in common, over the slots to go. -/
def Table.scan (tb : Table T) (name : CString) :
    List (Fin MAX_SEMAPHORE) → Option (Option (Fin MAX_SEMAPHORE))
  | [] => some none
  | i :: rest => do
    let used ← tb.bm.test i
    if used then do
      let e ← tb.semTab i
      let same ← strcmpEq name.chars e.name
      if same then pure (some i) else tb.scan name rest
    else tb.scan name rest

/-- The slot that the loop finds. -/
def Table.find (tb : Table T) (name : CString) : Option (Option (Fin MAX_SEMAPHORE)) :=
  tb.scan name (List.finRange MAX_SEMAPHORE)

/-- `semTab[id] = new Sem(name, init)`. -/
def Table.store (tb : Table T) (id : Int) (bm : BitMap) (e : Sem T) : Option (Table T) :=
  if h : id.toNat < MAX_SEMAPHORE then
    some ⟨bm, update tb.semTab ⟨id.toNat, h⟩ (some e)⟩
  else none

/-- `STable::Create`. -/
def Table.create (tb : Table T) (name : CString) (init : Int) (field : List Byte) :
    Option (Int × Table T) := do
  let found ← tb.find name
  match found with
  | some _ => pure (-1, tb)
  | none =>
    let (id, bm) := tb.bm.findFreeSlot
    if id < 0 then pure (-1, { tb with bm := bm })
    else do
      let e ← Sem.new field name init
      let tb' ← tb.store id bm e
      pure (0, tb')

/-- What happens in a call: it returns, or something happens at the semaphore of a slot. `Wait` has
returned 0 with the completion of the `P`, and `Signal` with the `V`. -/
inductive Event (T : Type) where
  | returned (value : Int)
  | acted (i : Fin MAX_SEMAPHORE) (event : Semaphore.Event T)
  deriving DecidableEq, Repr

section

variable [DecidableEq T]

/-- The semaphore of a slot takes a step. -/
def Table.act (tb : Table T) (i : Fin MAX_SEMAPHORE) (a : Semaphore.Act T) :
    Option (List (Event T) × Table T) := do
  let e ← tb.semTab i
  let (events, sem) ← Semaphore.step e.sem a
  pure (events.map (.acted i),
    { tb with semTab := update tb.semTab i (some { e with sem := sem }) })

/-- `STable::Wait` and `STable::Signal`, up to the point where the semaphore lets go of the
processor. -/
def Table.use (tb : Table T) (name : CString) (a : Semaphore.Act T) :
    Option (List (Event T) × Table T) := do
  let found ← tb.find name
  match found with
  | some i => tb.act i a
  | none => pure ([.returned (-1)], tb)

/-- `STable::Wait`, called by thread `t`. -/
def Table.wait (tb : Table T) (name : CString) (t : T) := tb.use name (.P t)

/-- `STable::Signal`. -/
def Table.signal (tb : Table T) (name : CString) := tb.use name .V

/-- A call, or a thread woken in the semaphore of a slot that tests its value again. `field` is what
the heap held where the new `Sem` is put. -/
inductive Act (T : Type) where
  | create (name : CString) (init : Int) (field : List Byte)
  | wait (name : CString) (t : T)
  | signal (name : CString)
  | retest (t : T) (i : Fin MAX_SEMAPHORE)

/-- One section with interrupts off. -/
def step : Step (Table T) (Act T) (Event T)
  | tb, .create name init field =>
    (tb.create name init field).map fun r => ([.returned r.1], r.2)
  | tb, .wait name t => tb.wait name t
  | tb, .signal name => tb.signal name
  | tb, .retest t i => tb.act i (.retest t)

/-- Names are shorter than the field, a thread that is inside `P` does not make another call, and
only woken threads test a value again. -/
def Allowable (tb : Table T) : Act T → Prop
  | .create name _ field => name.chars.length < NAME_SIZE ∧ field.length = NAME_SIZE
  | .wait name t => name.chars.length < NAME_SIZE ∧
      ∀ i, ∀ e ∈ tb.semTab i, t ∉ e.sem.sem.queue ∧ t ∉ e.sem.woken
  | .signal name => name.chars.length < NAME_SIZE
  | .retest t i => ∃ e ∈ tb.semTab i, t ∈ e.sem.woken

/-- `Allowable` is decided by looking at the slots. -/
instance Allowable.decidable (tb : Table T) (act : Act T) : Decidable (Allowable tb act) :=
  match act with
  | .create name _ field =>
    inferInstanceAs (Decidable (name.chars.length < NAME_SIZE ∧ field.length = NAME_SIZE))
  | .wait name t => inferInstanceAs (Decidable (name.chars.length < NAME_SIZE ∧
      ∀ i, ∀ e ∈ tb.semTab i, t ∉ e.sem.sem.queue ∧ t ∉ e.sem.woken))
  | .signal name => inferInstanceAs (Decidable (name.chars.length < NAME_SIZE))
  | .retest t i => inferInstanceAs (Decidable (∃ e ∈ tb.semTab i, t ∈ e.sem.woken))

end

/-! ## Strings -/

/-- The field holds the string, with the terminator and what was behind it. -/
def Holds (field name : List Byte) : Prop := 0 ∉ name ∧ ∃ behind, field = name ++ 0 :: behind

theorem holds_strcpy {field field' : List Byte} {name : CString}
    (h : strcpy field name.chars = some field') : Holds field' name.chars := by
  unfold strcpy at h
  split at h
  · cases h
    exact ⟨name.noNul, _, rfl⟩
  · cases h

/-- The string that the field holds is the one that is read back. -/
theorem Holds.cString_eq {field name : List Byte} (h : Holds field name) :
    cString field = name := by
  obtain ⟨hnul, behind, rfl⟩ := h
  rw [cString, List.takeWhile_append_of_pos]
  · simp
  · intro c hc
    have hne : c ≠ 0 := fun heq => hnul (heq ▸ hc)
    simpa using hne

/-- `strcmp` compares the strings. -/
theorem strcmpEq_of_holds {s field name : List Byte} (hs : 0 ∉ s) (h : Holds field name) :
    strcmpEq s field = some (decide (s = name)) := by
  obtain ⟨hnul, behind, rfl⟩ := h
  induction s generalizing name with
  | nil =>
    cases name with
    | nil => rfl
    | cons c name =>
      have hc : c ≠ 0 := fun heq => hnul (heq ▸ List.mem_cons_self)
      rw [List.cons_append, strcmpEq, decide_eq_false hc, decide_eq_false (by simp)]
  | cons c s ih =>
    have hc : c ≠ 0 := fun heq => hs (heq ▸ List.mem_cons_self)
    have hs' : 0 ∉ s := fun hmem => hs (List.mem_cons_of_mem _ hmem)
    cases name with
    | nil => rw [List.nil_append, strcmpEq, if_neg hc, decide_eq_false (by simp)]
    | cons d name =>
      have hnul' : 0 ∉ name := fun hmem => hnul (List.mem_cons_of_mem _ hmem)
      rw [List.cons_append, strcmpEq]
      by_cases hcd : c = d
      · rw [if_pos hcd, ih hs' hnul']
        simp [hcd]
      · rw [if_neg hcd]
        simp [hcd]

/-! ## The table with its invariant -/

/-- One semaphore, as the code keeps it and with its name. -/
structure SameSem (e : Sem T) (e' : Nachos.Sem T) : Prop where
  name : Holds e.name e'.name
  sem : e.sem = e'.sem

/-- The same bits, and the same semaphores in the same slots. -/
structure Represents (tb : Table T) (st : STable T) : Prop where
  bm : tb.bm = st.bm
  slots : ∀ i, Option.Rel SameSem (tb.semTab i) (st.semTab i)

section

variable {tb : Table T} {st : STable T} {name : CString} {i : Fin MAX_SEMAPHORE} {e' : Nachos.Sem T}
  {e : Sem T} {field : List Byte}

theorem represents_new (raw : Nat → BitVec 32) :
    Represents (Table.new raw : Table T) (STable.new raw) :=
  ⟨rfl, fun _ => .none⟩

/-- The bits agree. -/
theorem Represents.test_eq (h : Represents tb st) (i : Fin MAX_SEMAPHORE) :
    tb.bm.test (i : Nat) = some (st.bm.bit i) := by
  have hlt : (i : Nat) < st.bm.numBits := by
    rw [st.size]
    exact i.isLt
  rw [h.bm, BitMap.test, if_pos ⟨Int.natCast_nonneg _, Int.ofNat_lt.mpr hlt⟩, Int.toNat_natCast]

/-- A slot is empty in both tables, or has one semaphore in both. -/
theorem Represents.slot_cases (h : Represents tb st) (i : Fin MAX_SEMAPHORE) :
    (tb.semTab i = none ∧ st.semTab i = none) ∨
      ∃ e e', tb.semTab i = some e ∧ st.semTab i = some e' ∧ SameSem e e' := by
  have hslot := h.slots i
  cases htb : tb.semTab i <;> cases hst : st.semTab i <;> rw [htb, hst] at hslot <;> cases hslot
  · exact .inl ⟨rfl, rfl⟩
  · rename_i e e' hsame
    exact .inr ⟨e, e', rfl, rfl, hsame⟩

/-- The semaphores agree. -/
theorem Represents.slot (h : Represents tb st) (he : st.semTab i = some e') :
    ∃ e, tb.semTab i = some e ∧ SameSem e e' := by
  rcases h.slot_cases i with ⟨-, hnone⟩ | ⟨e, e'', htb, hst, hsame⟩
  · rw [he] at hnone
    cases hnone
  · obtain rfl : e' = e'' := Option.some.inj (he.symm.trans hst)
    exact ⟨e, htb, hsame⟩

theorem Represents.slot_of_code (h : Represents tb st) (he : tb.semTab i = some e) :
    ∃ e', st.semTab i = some e' ∧ SameSem e e' := by
  rcases h.slot_cases i with ⟨hnone, -⟩ | ⟨e'', e', htb, hst, hsame⟩
  · rw [he] at hnone
    cases hnone
  · obtain rfl : e = e'' := Option.some.inj (he.symm.trans htb)
    exact ⟨e', hst, hsame⟩

/-- Both tables have the same slots in use. -/
theorem Represents.isSome_eq (h : Represents tb st) (i : Fin MAX_SEMAPHORE) :
    (tb.semTab i).isSome = (st.semTab i).isSome := by
  rcases h.slot_cases i with ⟨htb, hst⟩ | ⟨e, e', htb, hst, -⟩ <;> rw [htb, hst] <;> rfl

/-- The loop finds the slot that has the name. -/
theorem Represents.scan_eq (h : Represents tb st) (name : CString)
    (slots : List (Fin MAX_SEMAPHORE)) :
    tb.scan name slots = some (slots.find? (st.named name.chars)) := by
  induction slots with
  | nil => rfl
  | cons i rest ih =>
    rw [Table.scan, h.test_eq]
    cases hbit : st.bm.bit i with
    | false =>
      have hnamed : st.named name.chars i = false := by rw [STable.named, hbit, Bool.false_and]
      simp [hnamed, ih]
    | true =>
      have hused : (st.semTab i).isSome = true := (st.used i).symm.trans hbit
      obtain ⟨e', he'⟩ := Option.isSome_iff_exists.mp hused
      obtain ⟨e, he, hsame⟩ := h.slot he'
      have hnamed : st.named name.chars i = decide (name.chars = e'.name) := by
        rw [STable.named, hbit, he', Bool.true_and, Option.any_some]
      have hcmp := strcmpEq_of_holds name.noNul hsame.name
      cases hdec : decide (name.chars = e'.name) <;>
        simp [he, hcmp, hdec, hnamed, ih]

/-- `find` agrees. -/
theorem Represents.find_eq (h : Represents tb st) (name : CString) :
    tb.find name = some (st.find name.chars) :=
  h.scan_eq name _

/-- How many semaphores there are. -/
def Table.count (tb : Table T) : Nat :=
  (List.finRange MAX_SEMAPHORE).countP fun i => (tb.semTab i).isSome

/-- Some semaphore is called so. -/
def Table.HasName (tb : Table T) (name : CString) : Prop :=
  ∃ i e, tb.semTab i = some e ∧ e.getName = name.chars

/-- Below the limit a slot is free. -/
theorem Represents.count_lt_iff (h : Represents tb st) :
    tb.count < MAX_SEMAPHORE ↔ ∃ i, st.semTab i = none := by
  have hcount : tb.count < (List.finRange MAX_SEMAPHORE).length ↔
      ∃ i ∈ List.finRange MAX_SEMAPHORE, (tb.semTab i).isSome = false :=
    List.countP_lt_length_iff
  rw [List.length_finRange] at hcount
  rw [hcount]
  simp [h.isSome_eq]

theorem Represents.find_of_name (h : Represents tb st) (he : tb.semTab i = some e)
    (hname : e.getName = name.chars) : st.find name.chars = some i := by
  obtain ⟨e', he', hsame⟩ := h.slot_of_code he
  have hname' : e'.name = name.chars := hsame.name.cString_eq.symm.trans hname
  exact STable.find_eq_some.mpr ⟨e', he', hname'⟩

/-- The names agree. -/
theorem Represents.hasName_iff (h : Represents tb st) :
    tb.HasName name ↔ st.find name.chars ≠ none := by
  constructor
  · rintro ⟨i, e, he, hname⟩
    rw [h.find_of_name he hname]
    exact Option.some_ne_none i
  · intro hfind
    obtain ⟨i, hi⟩ := Option.ne_none_iff_exists'.mp hfind
    obtain ⟨e', he', hname'⟩ := STable.find_eq_some.mp hi
    obtain ⟨e, he, hsame⟩ := h.slot he'
    exact ⟨i, e, he, hsame.name.cString_eq.trans hname'⟩

/-- No name is used twice. -/
theorem Represents.names_differ (h : Represents tb st) {j : Fin MAX_SEMAPHORE} {f : Sem T}
    (he : tb.semTab i = some e) (hf : tb.semTab j = some f) (hname : e.getName = f.getName) :
    i = j := by
  obtain ⟨e', he', hsame⟩ := h.slot_of_code he
  obtain ⟨f', hf', hsame'⟩ := h.slot_of_code hf
  refine st.distinct i j e' f' he' hf' ?_
  rw [← hsame.name.cString_eq, ← hsame'.name.cString_eq]
  exact hname

/-- The semaphores are the same after the same change of one slot. -/
theorem slots_update (h : Represents tb st) (he : SameSem e e') (j : Fin MAX_SEMAPHORE) :
    Option.Rel SameSem (update tb.semTab i (some e) j)
      (update st.semTab i (some e') j) := by
  by_cases hj : j = i
  · subst hj
    rw [update_self, update_self]
    exact .some he
  · rw [update_of_ne hj, update_of_ne hj]
    exact h.slots j

/-! ### `Create` -/

/-- The table with a new semaphore in slot `i`. -/
def Table.added (tb : Table T) (i : Fin MAX_SEMAPHORE) (e : Sem T) : Table T :=
  ⟨tb.bm.markBit i, update tb.semTab i (some e)⟩

/-- `Create` answers -1 and leaves the table as it is. -/
def Refused (tb : Table T) (st : STable T) (name : CString) (init : Int) (field : List Byte) :
    Prop :=
  tb.create name init field = some (-1, tb) ∧ st.create name.chars init = some (none, st)

/-- `Create` answers 0 and puts the semaphore `e` into slot `i`, which was free. -/
def Created (tb : Table T) (st : STable T) (name : CString) (init : Int) (field : List Byte)
    (i : Fin MAX_SEMAPHORE) (e : Sem T) : Prop :=
  st.semTab i = none ∧ tb.create name init field = some (0, tb.added i e) ∧
    ∃ fits hnew, SameSem e ⟨name.chars, fits, .new init⟩ ∧
      st.create name.chars init =
        some (some i, st.store i ⟨name.chars, fits, .new init⟩ hnew)

/-- A name in use is refused. -/
theorem Represents.create_found (h : Represents tb st) (hfind : st.find name.chars = some i)
    (init : Int) (field : List Byte) : Refused tb st name init field := by
  constructor
  · rw [Table.create, h.find_eq, hfind]
    rfl
  · unfold STable.create
    split
    · rfl
    · rename_i hnone
      rw [hfind] at hnone
      cases hnone

/-- So is a new one if the table is full. -/
theorem Represents.create_full (h : Represents tb st) (hfind : st.find name.chars = none)
    (hfull : ∀ i, st.semTab i ≠ none) (init : Int) (field : List Byte) :
    Refused tb st name init field := by
  have hslot : st.bm.findFreeSlot = (-1, st.bm) := by
    have hid := STable.full_iff.mpr hfull
    rcases st.bm.findFreeSlot_cases with ⟨i, -, -, hslot⟩ | ⟨-, hslot⟩
    · rw [hslot] at hid
      omega
    · exact hslot
  constructor
  · have htb : tb.bm.findFreeSlot = (-1, tb.bm) := by rw [h.bm, hslot]
    rw [Table.create, h.find_eq, hfind]
    simp [htb]
  · unfold STable.create
    split
    · rfl
    · simp [hslot]

/-- Otherwise a slot is taken. -/
theorem Represents.create_free (h : Represents tb st) (hfind : st.find name.chars = none)
    (hfree : ∃ i, st.semTab i = none) (hshort : name.chars.length < NAME_SIZE) (init : Int)
    (hfield : field.length = NAME_SIZE) : ∃ i e, Created tb st name init field i e := by
  have hid : ¬ st.bm.findFreeSlot.1 < 0 := by
    obtain ⟨i, hi⟩ := hfree
    exact fun hneg => STable.full_iff.mp hneg i hi
  obtain ⟨i, hslot, hi⟩ := STable.free_slot hid
  obtain ⟨bytes, hcopy⟩ : ∃ bytes, strcpy field name.chars = some bytes := by
    rw [strcpy, if_pos (by rw [hfield]; exact hshort)]
    exact ⟨_, rfl⟩
  have hnew : (Sem.new field name init : Option (Sem T)) = some ⟨bytes, .new init⟩ := by
    rw [Sem.new, hcopy]
    rfl
  refine ⟨i, ⟨bytes, .new init⟩, hi, ?_, hshort, hfind, ⟨holds_strcpy hcopy, rfl⟩, ?_⟩
  · rw [Table.create, h.find_eq, hfind]
    simp [h.bm, hslot, hnew, Table.store, Table.added]
  · unfold STable.create
    split
    · rename_i hsome
      rw [hfind] at hsome
      cases hsome
    · simp [hslot, hshort]

/-- `Create` with a free slot and a new name. -/
theorem Represents.create_new (h : Represents tb st) (hcount : tb.count < MAX_SEMAPHORE)
    (hname : ¬ tb.HasName name) (hshort : name.chars.length < NAME_SIZE) (init : Int)
    (hfield : field.length = NAME_SIZE) :
    ∃ i e, tb.semTab i = none ∧ e.getName = name.chars ∧ e.sem = .new init ∧
      tb.create name init field = some (0, tb.added i e) := by
  rw [h.hasName_iff, not_not] at hname
  obtain ⟨i, e, hi, hcreate, fits, -, hsame, -⟩ :=
    h.create_free hname (h.count_lt_iff.mp hcount) hshort init hfield
  have hempty := h.isSome_eq i
  rw [hi] at hempty
  exact ⟨i, e, Option.isNone_iff_eq_none.mp (Option.isSome_eq_false_iff.mp hempty),
    hsame.name.cString_eq, hsame.sem, hcreate⟩

/-- `Create` with a full table or a name that some semaphore has. -/
theorem Represents.create_refused (h : Represents tb st)
    (hnot : ¬ (tb.count < MAX_SEMAPHORE ∧ ¬ tb.HasName name)) (init : Int) (field : List Byte) :
    tb.create name init field = some (-1, tb) := by
  rw [h.count_lt_iff, h.hasName_iff, not_not] at hnot
  cases hfind : st.find name.chars with
  | some i => exact (h.create_found hfind init field).1
  | none =>
    have hfull : ∀ i, st.semTab i ≠ none := fun i hi => hnot ⟨⟨i, hi⟩, hfind⟩
    exact (h.create_full hfind hfull init field).1

/-- The tables agree again. -/
theorem Created.represents {init : Int} (h : Represents tb st)
    (hcreated : Created tb st name init field i e) :
    ∃ tb' st', tb.create name init field = some (0, tb') ∧
      st.create name.chars init = some (some i, st') ∧ Represents tb' st' := by
  obtain ⟨-, hcreate, fits, hnew, hsame, hcreate'⟩ := hcreated
  refine ⟨_, _, hcreate, hcreate', ?_, slots_update h hsame⟩
  show tb.bm.markBit i = st.bm.markBit i
  rw [h.bm]

/-! ### `Wait` and `Signal` -/

variable [DecidableEq T]

/-- A step of the semaphore of a slot is one of the semaphore in that slot of the table with its
invariant. -/
theorem Represents.act (h : Represents tb st) {a : Semaphore.Act T}
    {events : List (Semaphore.Event T)} {sem : Semaphore.Shared T} (he : tb.semTab i = some e)
    (he' : st.semTab i = some e') (hsame : SameSem e e')
    (hsem : Semaphore.step e.sem a = some (events, sem)) :
    ∃ tb', tb.act i a = some (events.map (.acted i), tb') ∧ Represents tb' (st.setSem i sem) := by
  refine ⟨{ tb with semTab := update tb.semTab i (some { e with sem := sem }) }, ?_, h.bm,
    fun j => ?_⟩
  · simp [Table.act, he, hsem]
  · have hset : (st.setSem i sem).semTab =
        update st.semTab i (some { e' with sem := sem }) := by
      show update st.semTab i ((st.semTab i).map fun e => { e with sem := sem }) = _
      rw [he']
      rfl
    have hsame' : SameSem { e with sem := sem } { e' with sem := sem } := ⟨hsame.name, rfl⟩
    rw [hset]
    exact slots_update h hsame' j

end

/-! ## The calls -/

section

variable [DecidableEq T]

/-- The semaphore that a call names, and what it does there. -/
def Act.semaphore : Act T → Option (CString × Semaphore.Act T)
  | .wait name t => some (name, .P t)
  | .signal name => some (name, .V)
  | .create _ _ _ => none
  | .retest _ _ => none

/-- The calls on the table with its invariant. -/
inductive TableCall : Spec (STable T) (Act T) (Event T)
  | created {st st' : STable T} {name : CString} {init : Int} {i : Fin MAX_SEMAPHORE}
      (field : List Byte) : st.create name.chars init = some (some i, st') →
      TableCall st (.create name init field) [.returned 0] st'
  | refused {st st' : STable T} {name : CString} {init : Int} (field : List Byte) :
      st.create name.chars init = some (none, st') →
      TableCall st (.create name init field) [.returned (-1)] st'
  | used {st : STable T} {act : Act T} {name : CString} {a : Semaphore.Act T}
      {i : Fin MAX_SEMAPHORE} {e : Nachos.Sem T} {events : List (Semaphore.Event T)}
      {sem : Semaphore.Shared T} : act.semaphore = some (name, a) →
      st.find name.chars = some i → st.semTab i = some e →
      Semaphore.step e.sem a = some (events, sem) →
      TableCall st act (events.map (.acted i)) (st.setSem i sem)
  | unknown {st : STable T} {act : Act T} {name : CString} {a : Semaphore.Act T} :
      act.semaphore = some (name, a) → st.find name.chars = none →
      TableCall st act [.returned (-1)] st
  | retested {st : STable T} {t : T} {i : Fin MAX_SEMAPHORE} {e : Nachos.Sem T}
      {events : List (Semaphore.Event T)} {sem : Semaphore.Shared T} :
      st.semTab i = some e → Semaphore.step e.sem (.retest t) = some (events, sem) →
      TableCall st (.retest t i) (events.map (.acted i)) (st.setSem i sem)

/-- A call that names a semaphore, with what it does there being possible in every slot. -/
theorem use_refines {tb : Table T} {st : STable T} (h : Represents tb st) {act : Act T}
    {name : CString} {a : Semaphore.Act T} (hact : act.semaphore = some (name, a))
    (hpossible : ∀ i e, tb.semTab i = some e → ∃ r, Semaphore.step e.sem a = some r) :
    ∃ events tb' st', tb.use name a = some (events, tb') ∧ TableCall st act events st' ∧
      Represents tb' st' := by
  cases hfind : st.find name.chars with
  | none =>
    refine ⟨_, tb, st, ?_, .unknown hact hfind, h⟩
    rw [Table.use, h.find_eq, hfind]
    rfl
  | some i =>
    obtain ⟨e', he', -⟩ := STable.find_eq_some.mp hfind
    obtain ⟨e, he, hsame⟩ := h.slot he'
    obtain ⟨⟨events, sem⟩, hsem⟩ := hpossible i e he
    obtain ⟨tb', hstep, hrep⟩ := h.act he he' hsame hsem
    refine ⟨_, tb', _, ?_, .used hact hfind he' (hsame.sem ▸ hsem), hrep⟩
    rw [Table.use, h.find_eq, hfind]
    exact hstep

/-- The table of the code refines the table with its invariant. -/
theorem call_refines : Refines (step (T := T)) Allowable TableCall Represents := by
  refine ⟨fun tb st act h hok => ?_⟩
  cases act with
  | create name init field =>
    obtain ⟨hshort, hfield⟩ := hok
    cases hfind : st.find name.chars with
    | some i =>
      obtain ⟨hcreate, hcreate'⟩ := h.create_found hfind init field
      exact ⟨_, tb, st, by rw [step, hcreate]; rfl, .refused field hcreate', h⟩
    | none =>
      by_cases hfree : ∃ i, st.semTab i = none
      · obtain ⟨i, e, hcreated⟩ := h.create_free hfind hfree hshort init hfield
        obtain ⟨tb', st', hcreate, hcreate', hrep⟩ := hcreated.represents h
        exact ⟨_, tb', st', by rw [step, hcreate]; rfl, .created field hcreate', hrep⟩
      · obtain ⟨hcreate, hcreate'⟩ := h.create_full hfind (not_exists.mp hfree) init field
        exact ⟨_, tb, st, by rw [step, hcreate]; rfl, .refused field hcreate', h⟩
  | wait name t =>
    refine use_refines h rfl fun i e he => ?_
    obtain ⟨hqueue, hwoken⟩ := hok.2 i e he
    exact ⟨_, if_neg (not_or.mpr ⟨hqueue, hwoken⟩)⟩
  | signal name => exact use_refines h rfl fun i e he => ⟨_, rfl⟩
  | retest t i =>
    obtain ⟨e, he, hwoken⟩ := hok
    obtain ⟨e', he', hsame⟩ := h.slot_of_code he
    have hsem : Semaphore.step e.sem (.retest t) = some _ := if_pos hwoken
    obtain ⟨tb', hstep, hrep⟩ := h.act he he' hsame hsem
    exact ⟨_, tb', _, hstep, .retested he' (hsame.sem ▸ hsem), hrep⟩

/-! ## The invariant -/

/-- The table after a step of the semaphore `e` of slot `i`. -/
def Table.stepped (tb : Table T) (i : Fin MAX_SEMAPHORE) (e : Sem T)
    (r : List (Semaphore.Event T) × Semaphore.Shared T) : List (Event T) × Table T :=
  (r.1.map (.acted i),
    { tb with semTab := update tb.semTab i (some { e with sem := r.2 }) })

/-- What the table is counted on for: `Create` fails or succeeds as it should and adds one
semaphore, and `Wait` and `Signal` are those of the semaphore with the name. -/
structure Correct (tb : Table T) : Prop where
  bits : ∀ i : Fin MAX_SEMAPHORE, tb.bm.test (i : Nat) = some (tb.semTab i).isSome
  names : ∀ i j e f, tb.semTab i = some e → tb.semTab j = some f → e.getName = f.getName → i = j
  create_iff : ∀ (name : CString) (init : Int) (field : List Byte),
    name.chars.length < NAME_SIZE → field.length = NAME_SIZE →
    ((∃ tb', tb.create name init field = some (0, tb')) ↔
      tb.count < MAX_SEMAPHORE ∧ ¬ tb.HasName name)
  create_new : ∀ (name : CString) (init : Int) (field : List Byte),
    name.chars.length < NAME_SIZE → field.length = NAME_SIZE →
    tb.count < MAX_SEMAPHORE → ¬ tb.HasName name →
    ∃ i e, tb.semTab i = none ∧ e.getName = name.chars ∧ e.sem = .new init ∧
      tb.create name init field = some (0, tb.added i e)
  create_refused : ∀ (name : CString) (init : Int) (field : List Byte),
    ¬ (tb.count < MAX_SEMAPHORE ∧ ¬ tb.HasName name) →
    tb.create name init field = some (-1, tb)
  wait_named : ∀ (name : CString) (t : T) (i : Fin MAX_SEMAPHORE) (e : Sem T),
    tb.semTab i = some e → e.getName = name.chars →
    tb.wait name t = (Semaphore.step e.sem (.P t)).map (tb.stepped i e)
  signal_named : ∀ (name : CString) (i : Fin MAX_SEMAPHORE) (e : Sem T),
    tb.semTab i = some e → e.getName = name.chars →
    tb.signal name = (Semaphore.step e.sem .V).map (tb.stepped i e)
  wait_unknown : ∀ (name : CString) (t : T), ¬ tb.HasName name →
    tb.wait name t = some ([.returned (-1)], tb)
  signal_unknown : ∀ name : CString, ¬ tb.HasName name →
    tb.signal name = some ([.returned (-1)], tb)

section

variable {tb : Table T} {st : STable T} {name : CString} {i : Fin MAX_SEMAPHORE}

/-- `Wait` and `Signal` with a name that some semaphore has. -/
theorem Represents.use_named (h : Represents tb st) {e : Sem T} (he : tb.semTab i = some e)
    (hname : e.getName = name.chars) (a : Semaphore.Act T) :
    tb.use name a = (Semaphore.step e.sem a).map (tb.stepped i e) := by
  rw [Table.use, h.find_eq, h.find_of_name he hname]
  simp only [Option.bind_eq_bind, Option.bind_some, Table.act, he]
  cases Semaphore.step e.sem a <;> rfl

/-- `Wait` and `Signal` with a name that no semaphore has. -/
theorem Represents.use_unknown (h : Represents tb st) (hname : ¬ tb.HasName name)
    (a : Semaphore.Act T) : tb.use name a = some ([.returned (-1)], tb) := by
  rw [h.hasName_iff, not_not] at hname
  rw [Table.use, h.find_eq, hname]
  rfl

/-- The code's table is correct. -/
theorem Represents.correct (h : Represents tb st) : Correct tb where
  bits i := by rw [h.test_eq, st.used, h.isSome_eq]
  names _ _ _ _ he hf hname := h.names_differ he hf hname
  create_iff name init field hshort hfield := by
    constructor
    · rintro ⟨tb', hcreate⟩
      by_contra hnot
      rw [h.create_refused hnot] at hcreate
      cases hcreate
    · rintro ⟨hcount, hname⟩
      obtain ⟨i, e, -, -, -, hcreate⟩ := h.create_new hcount hname hshort init hfield
      exact ⟨_, hcreate⟩
  create_new _ init _ hshort hfield hcount hname := h.create_new hcount hname hshort init hfield
  create_refused _ init field hnot := h.create_refused hnot init field
  wait_named _ t _ _ he hname := h.use_named he hname (.P t)
  signal_named _ _ _ he hname := h.use_named he hname .V
  wait_unknown _ t hname := h.use_unknown hname (.P t)
  signal_unknown _ hname := h.use_unknown hname .V

end

/-- After every sequence of calls with names that fit, from the empty table on and with threads
sleeping and waking up in between: the calls have run to their end, bits and pointers agree, no two
semaphores have one name, `Create` adds a semaphore exactly if there is room and the name is new,
and `Wait` and `Signal` are steps of the semaphore with the name. -/
theorem semaphore_table_invariant {raw : Nat → BitVec 32} {acts : List (Act T)}
    (hacts : Allowed step Allowable (Table.new raw) acts) :
    ∃ trace tb, execute step (Table.new raw) acts = some (trace, tb) ∧ Correct tb := by
  obtain ⟨trace, tb, st, hexec, -, hrep⟩ := call_refines.execute (represents_new raw) hacts
  exact ⟨trace, tb, hexec, hrep.correct⟩

/-- The name `m`. -/
def nameM : CString := ⟨[109], by decide⟩

/-- A semaphore is made twice under one name, two threads wait, one of them sleeps and is woken by
a signal, and a name is unknown. -/
theorem semaphore_table_invariant_two_threads : ∃ acts trace tb,
    acts.length = 7 ∧ execute step (Table.new fun _ => 0) acts = some (trace, tb) ∧
    trace = [.returned 0, .returned (-1), .acted 0 (.completed 0), .acted 0 (.slept 1),
      .acted 0 .released, .acted 0 (.completed 1), .returned (-1)] ∧
    Correct (tb : Table Nat) := by
  let field := List.replicate NAME_SIZE (7 : Byte)
  let acts : List (Act Nat) :=
    [.create nameM 1 field, .create nameM 3 field, .wait nameM 0, .wait nameM 1, .signal nameM,
      .retest 1 0, .signal ⟨[109, 110], by decide⟩]
  have hallowed : Allowed step Allowable (Table.new fun _ => 0) acts := by decide +kernel
  obtain ⟨trace, tb, hexec, hcorrect⟩ := semaphore_table_invariant hallowed
  have htrace : (execute step (Table.new fun _ => 0) acts).map Prod.fst =
      some [.returned 0, .returned (-1), .acted 0 (.completed 0), .acted 0 (.slept 1),
        .acted 0 .released, .acted 0 (.completed 1), .returned (-1)] := by decide +kernel
  rw [hexec] at htrace
  exact ⟨acts, trace, tb, rfl, hexec, Option.some.inj htrace, hcorrect⟩

end

end Nachos.SemTable
