import Nachos.Test.Luggage

/-!
# Where the token is

The three programs of the luggage demo hand a single token around with the semaphores `main`,
`passengers` and `scanners`. A `Stage` says where the token is and what `scannersmain` and
`passengers` have open there; a `Side` says how far `scanners`, which `maincounter` lets run ahead,
is with the current line. They need that every line has something in it (`Orderly`), that
`scannerid.txt` exists and that the file table does not run full: `passengers` leaves two
descriptors open for each line.
-/

namespace Nachos.Luggage

open Slots Transition

/-! ## System calls and descriptors -/

/-- The descriptors of each process. -/
abbrev Descriptors := Program → List (Nat × Descriptor)

/-- The descriptors of the three processes. -/
def lists (m p c : List (Nat × Descriptor)) : Descriptors
  | .scannersmain => m
  | .passengers => p
  | .scanners => c

/-- One of the processes has other descriptors. -/
abbrev Descriptors.set (l : Descriptors) (x : Program) (own : List (Nat × Descriptor)) :
    Descriptors :=
  match x with
  | .scannersmain => lists own (l .passengers) (l .scanners)
  | .passengers => lists (l .scannersmain) own (l .scanners)
  | .scanners => lists (l .scannersmain) (l .passengers) own

/-- The file table holds the listed descriptors. -/
def Owns (f : Files) (l : Descriptors) : Prop := ∀ x, Own f.table x (l x)

/-- The text of a file behind a `WriteF`. -/
def Files.written (text : List Byte) (position : Nat) (bytes : List Byte) : List Byte :=
  if bytes.takeWhile (· ≠ 0) = [] then text
  else overwrite text position (bytes.takeWhile (· ≠ 0))

namespace Owns

variable {f : Files} {l : Descriptors} {x : Program} {i : Nat} {d : Descriptor}
  {pre rest : List (Nat × Descriptor)}

/-- A listed descriptor is in the table. -/
theorem lookup (h : Owns f l) (hmem : (i, d) ∈ l x) : f.table i = some (x, d) :=
  ((h x).mem i d).mpr hmem

/-- One process takes a free entry, changes an entry of its own or gives one back. -/
theorem update (h : Owns f l) {entry : Option (Program × Descriptor)}
    {own : List (Nat × Descriptor)} (hold : ∀ y, y ≠ x → ∀ e, f.table i ≠ some (y, e))
    (hnew : ∀ y, y ≠ x → ∀ e, entry ≠ some (y, e))
    (hx : Own (Function.update f.table i entry) x own) :
    ∀ y, Own (Function.update f.table i entry) y (l.set x own y) := by
  have hother (y : Program) (hy : y ≠ x) : Own (Function.update f.table i entry) y (l y) :=
    (h y).update_other (hold y hy) (hnew y hy)
  intro y
  cases x <;> cases y <;> first | exact hx | exact hother _ (by decide)

/-- With fewer than 98 descriptors there is a free entry. -/
theorem exists_free (h : Owns f l)
    (hlt : (l .scannersmain).length + (l .passengers).length + (l .scanners).length < 98) :
    ∃ i, freeSlot f.table entries = some i := by
  refine @exists_freeSlot _ _ _ _ ((l .scannersmain ++ l .passengers ++ l .scanners).map Prod.fst)
    List.nodup_range' ?_ ?_
  · intro i hi
    obtain ⟨⟨x, d⟩, hd⟩ := Option.ne_none_iff_exists'.mp hi
    have hmem := ((h x).mem i d).mp hd
    refine List.mem_map.mpr ⟨(i, d), ?_, rfl⟩
    cases x <;> simp [hmem]
  · simp [entries]
    omega

/-- `OpenF` of a file that exists. -/
theorem openF (h : Owns f l) {name : FileName} (hfree : ∃ i, freeSlot f.table entries = some i)
    {text : List Byte} (htext : f.contents name = some text) (x : Program) :
    ∃ i table, f.openF x name = (some i, { f with table := table }) ∧
      Owns { f with table := table } (l.set x ((i, ⟨name, 0⟩) :: l x)) := by
  obtain ⟨i, hslot⟩ := hfree
  have hfree := freeSlot_free hslot
  refine ⟨i, Function.update f.table i (some (x, ⟨name, 0⟩)), ?_,
    h.update ?_ ?_ ((h x).insert hfree _)⟩
  · rw [Files.openF, htext, hslot]
  · intro y _ e
    simp [hfree]
  · intro y hy e heq
    cases heq
    exact hy rfl

variable {id : Option Nat}

/-- `CloseF` of a descriptor of the process. -/
theorem closeF (h : Owns f l) (x : Program) (hid : id = some i) (hx : l x = (i, d) :: rest) :
    ∃ table, f.closeF id = { f with table := table } ∧
      Owns { f with table := table } (l.set x rest) := by
  subst hid
  have hown := h x
  rw [hx] at hown
  refine ⟨Function.update f.table i none, rfl, h.update ?_ ?_ hown.erase⟩
  · intro y hy e heq
    rw [hown.head] at heq
    cases heq
    exact hy rfl
  · intro y _ e heq
    cases heq

/-- The cursor of one descriptor moves. -/
theorem seek (h : Owns f l) (hx : l x = pre ++ (i, d) :: rest) (name : FileName) (position : Nat) :
    Owns (f.seek i x name position)
      (l.set x (pre ++ (i, ⟨name, position⟩) :: rest)) := by
  have hown := h x
  rw [hx] at hown
  have hhead := hown.perm List.perm_middle
  refine h.update ?_ ?_ ((hhead.move _).perm List.perm_middle.symm)
  · intro y hy e heq
    rw [hhead.head] at heq
    cases heq
    exact hy rfl
  · intro y hy e heq
    cases heq
    exact hy rfl

variable {name : FileName} {o : Nat} {text : List Byte}

/-- `ReadF` of one byte of the file; at its end the cursor goes back. -/
theorem readF (h : Owns f l) (x : Program) (pre : List (Nat × Descriptor)) (hid : id = some i)
    (hx : l x = pre ++ (i, ⟨name, o⟩) :: rest) (htext : f.contents name = some text)
    {b : Option Byte} (hb : text[o]? = b) :
    ∃ table, f.readF id = (b, { f with table := table }) ∧
      Owns { f with table := table }
        (l.set x (pre ++ (i, ⟨name, b.elim 0 fun _ => o + 1⟩) :: rest)) := by
  subst hid
  have hd : f.table i = some (x, ⟨name, o⟩) := h.lookup (by rw [hx]; simp)
  refine ⟨_, ?_, h.seek hx name _⟩
  cases b <;> simp only [Files.readF, hd, htext, Option.getD_some, hb] <;> rfl

/-- `WriteF` to a descriptor of the process. -/
theorem writeF (h : Owns f l) (x : Program) (pre : List (Nat × Descriptor))
    (hid : id = some i) (hx : l x = pre ++ (i, ⟨name, o⟩) :: rest)
    (htext : f.contents name = some text) (bytes : List Byte) :
    ∃ p table, f.writeF id bytes =
        ⟨Function.update f.contents name (some (Files.written text o bytes)), table⟩ ∧
      Owns ⟨Function.update f.contents name (some (Files.written text o bytes)), table⟩
        (l.set x (pre ++ (i, ⟨name, p⟩) :: rest)) := by
  subst hid
  have hd : f.table i = some (x, ⟨name, o⟩) := h.lookup (by rw [hx]; simp)
  by_cases hbytes : bytes.takeWhile (· ≠ 0) = []
  · have hwrite : f.writeF (some i) bytes = f.seek i x name 0 := by
      simp only [Files.writeF, hd]
      exact if_pos hbytes
    rw [hwrite, Files.written, if_pos hbytes, ← htext, Function.update_eq_self]
    exact ⟨0, _, rfl, h.seek hx name 0⟩
  · have hwrite : f.writeF (some i) bytes =
        { f.seek i x name (o + (bytes.takeWhile (· ≠ 0)).length) with
          contents := Function.update f.contents name
            (some (Files.overwrite text o (bytes.takeWhile (· ≠ 0)))) } := by
      simp only [Files.writeF, hd, htext, Option.getD_some]
      exact if_neg hbytes
    rw [hwrite, Files.written, if_neg hbytes]
    exact ⟨_, _, rfl, h.seek hx name _⟩

end Owns

section Written

variable {text bytes : List Byte} {o : Nat} {b c : Byte}

/-- Where a byte of the new text comes from. -/
theorem mem_written (h : c ∈ Files.written text o bytes) : c ∈ text ∨ c = 0 ∨ c ∈ bytes := by
  rw [Files.written] at h
  split at h
  · exact .inl h
  · simp only [Files.overwrite, List.mem_append] at h
    rcases h with ((h | h) | h) | h
    · exact .inl (List.mem_of_mem_take h)
    · exact .inr (.inl (List.eq_of_mem_replicate h))
    · exact .inr (.inr ((List.takeWhile_sublist _).mem h))
    · exact .inl (List.mem_of_mem_drop h)

/-- A byte other than a newline makes no new line. -/
theorem newline_not_mem_written (htext : newline ∉ text) (hb : b ≠ newline) :
    newline ∉ Files.written text o [b] := by
  intro hmem
  rcases mem_written hmem with hmem | hzero | hmem
  · exact htext hmem
  · exact absurd hzero (by decide)
  · exact hb (List.mem_singleton.mp hmem).symm

/-- A byte that is not zero is written. -/
theorem mem_written_self (hb : b ≠ 0) : b ∈ Files.written text o [b] := by
  have htake : [b].takeWhile (· ≠ 0) = [b] := List.takeWhile_cons_of_pos (decide_eq_true hb)
  rw [Files.written, htake, if_neg (List.cons_ne_nil _ _)]
  simp [Files.overwrite]

/-- Writing does not empty a file. -/
theorem written_ne_nil (htext : text ≠ []) : Files.written text o bytes ≠ [] := by
  rw [Files.written]
  split
  · exact htext
  · rename_i hbytes
    exact List.append_ne_nil_of_left_ne_nil (List.append_ne_nil_of_right_ne_nil _ hbytes) _

end Written

/-! ## The input -/

/-- The bytes of the line that `scannersmain` has not read yet. -/
def restOfLine (input : List Byte) (cursor : Nat) : List Byte :=
  (input.drop cursor).takeWhile (· ≠ newline)

/-- Where the next line begins; at the end of the file the next read starts over. -/
def afterLine (input : List Byte) (cursor : Nat) : Nat :=
  if newline ∈ input.drop cursor then cursor + (restOfLine input cursor).length + 1 else 0

/-- Each of the next `n` lines has a byte other than zero. -/
def Orderly (input : List Byte) : (n cursor : Nat) → Prop
  | 0, _ => True
  | n + 1, cursor =>
    (∃ b ∈ restOfLine input cursor, b ≠ 0) ∧ Orderly input n (afterLine input cursor)

variable {input : List Byte} {c : Nat} {m : ScannersMain} {own : List (Nat × Descriptor)} {b : Byte}
  {control : MainControl}

/-- At the end of the input. -/
theorem restOfLine_of_none (h : input[c]? = none) :
    restOfLine input c = [] ∧ afterLine input c = 0 := by
  have hdrop : input.drop c = [] := List.drop_eq_nil_iff.mpr (List.getElem?_eq_none_iff.mp h)
  simp [restOfLine, afterLine, hdrop]

/-- The byte at the cursor comes first. -/
theorem drop_of_some (h : input[c]? = some b) : input.drop c = b :: input.drop (c + 1) := by
  obtain ⟨hlt, rfl⟩ := List.getElem?_eq_some_iff.mp h
  exact List.drop_eq_getElem_cons hlt

/-- At the end of a line. -/
theorem restOfLine_of_newline (h : input[c]? = some newline) :
    restOfLine input c = [] ∧ afterLine input c = c + 1 := by
  simp [restOfLine, afterLine, drop_of_some h]

/-- Inside a line. -/
theorem restOfLine_of_some (h : input[c]? = some b) (hb : b ≠ newline) :
    restOfLine input c = b :: restOfLine input (c + 1) ∧
      afterLine input c = afterLine input (c + 1) := by
  have hrest : restOfLine input c = b :: restOfLine input (c + 1) := by
    rw [restOfLine, drop_of_some h]
    exact List.takeWhile_cons_of_pos (decide_eq_true hb)
  refine ⟨hrest, ?_⟩
  rw [afterLine, afterLine, hrest, drop_of_some h, List.length_cons]
  have hmem : newline ∈ b :: input.drop (c + 1) ↔ newline ∈ input.drop (c + 1) := by
    rw [List.mem_cons]
    exact or_iff_right fun heq => hb heq.symm
  simp only [hmem]
  split
  · omega
  · rfl

/-! ## The place of `scanners` -/

/-- What `scanners` can do: it has not been started, it has not finished with the current line, it
has, or it is at the weight in `lugweight.txt`. -/
inductive Side where
  | unborn (counter : Nat)
  | turn
  | gone
  | scanning (lug : List Byte)

/-- `scanners` waits for `maincounter`, or has not been started. -/
def Scanners.Out (c : Scanners) : Prop := c.control = .unborn ∨ c.control = .downMaincounter

/-- `scanners` has the weight in `lugweight.txt` to scan; the list holds its descriptors. -/
inductive Scanning (lug : List Byte) (c : Scanners) : List (Nat × Descriptor) → Prop where
  | open_ {i o : Nat} (hc : c.control = .openLugWeight) (hid : c.writeScannerId = some i) :
      Scanning lug c [(i, ⟨.scannerid, o⟩)]
  | read {i o k q : Nat} (hc : c.control = .readLugWeight) (hid : c.writeScannerId = some i)
      (hlug : c.readLugWeight = some k) (hend : c.readEndline = false)
      (hseen : newline ∉ lug.take q) :
      Scanning lug c [(k, ⟨.lugweight, q⟩), (i, ⟨.scannerid, o⟩)]
  | close {i o k q : Nat} (hc : c.control = .closeLugWeight) (hid : c.writeScannerId = some i)
      (hlug : c.readLugWeight = some k) (hend : c.readEndline = true ↔ newline ∈ lug) :
      Scanning lug c [(k, ⟨.lugweight, q⟩), (i, ⟨.scannerid, o⟩)]
  | write {i o : Nat} (hc : c.control = .writeScannerId) (hid : c.writeScannerId = some i)
      (hend : c.readEndline = true ↔ newline ∈ lug) : Scanning lug c [(i, ⟨.scannerid, o⟩)]
  | closeId {i o : Nat} (hc : c.control = .closeScannerId) (hid : c.writeScannerId = some i)
      (hend : c.readEndline = true) (hlug : newline ∈ lug) :
      Scanning lug c [(i, ⟨.scannerid, o⟩)]
  | upLast (hc : c.control = .upPassengers) (hend : c.readEndline = true) (hlug : newline ∈ lug) :
      Scanning lug c []
  | upMore {i o : Nat} (hc : c.control = .upPassengers) (hid : c.writeScannerId = some i)
      (hend : c.readEndline = false) (hlug : newline ∉ lug) : Scanning lug c [(i, ⟨.scannerid, o⟩)]

/-- `scanners` has not finished with the current line and waits for a weight, or is on its way
there. -/
inductive Turn (maincounter : Nat) (c : Scanners) : List (Nat × Descriptor) → Prop where
  | due (hn : maincounter = 1) (hc : c.Out) : Turn maincounter c []
  | opening (hn : maincounter = 0) (hc : c.control = .openScannerId) : Turn maincounter c []
  | opened {i o : Nat} (hn : maincounter = 0) (hc : c.control = .downScanners)
      (hid : c.writeScannerId = some i) : Turn maincounter c [(i, ⟨.scannerid, o⟩)]

/-- The value of `maincounter`, the place of `scanners` and its descriptors. -/
def Side.Holds (side : Side) (maincounter : Nat) (c : Scanners) (own : List (Nat × Descriptor)) :
    Prop :=
  match side with
  | .unborn n => maincounter = n ∧ c.control = .unborn ∧ own = []
  | .turn => Turn maincounter c own
  | .gone => maincounter = 0 ∧ c.Out ∧ own = []
  | .scanning lug => maincounter = 0 ∧ Scanning lug c own

/-! ## The place of `scannersmain` -/

/-- The descriptors of `scannersmain` between two lines, its cursor in `input.txt` at `cursor`. -/
def ScannersMain.Idle (m : ScannersMain) (cursor : Nat) (own : List (Nat × Descriptor)) : Prop :=
  ∃ i j o, m.readInput = some i ∧ m.writeOutput = some j ∧
    own = [(i, ⟨.input, cursor⟩), (j, ⟨.output, o⟩)]

/-- `scannersmain` has just opened `input.txt` and `output.txt`, or is between two lines. -/
def ScannersMain.Between (m : ScannersMain) (input : List Byte) (own : List (Nat × Descriptor)) :
    Prop :=
  ∃ cursor, m.Idle cursor own ∧ Orderly input m.numPoint cursor

/-- A line in `passengers.txt`: not empty, and without a newline. -/
structure Line (contents : FileName → Option (List Byte)) (text : List Byte) : Prop where
  file : contents .passengers = some text
  nonempty : text ≠ []
  noNewline : newline ∉ text

/-- `scannersmain` prepares the next line. -/
inductive Preparing (input : List Byte) (contents : FileName → Option (List Byte))
    (m : ScannersMain) : List (Nat × Descriptor) → Prop where
  | create {c : Nat} {own : List (Nat × Descriptor)} (hm : m.control = .createPassengers)
      (hidle : m.Idle c own) (horderly : Orderly input (m.numPoint + 1) c) :
      Preparing input contents m own
  | open_ {c : Nat} {own : List (Nat × Descriptor)} (hm : m.control = .openPassengers)
      (hidle : m.Idle c own) (horderly : Orderly input (m.numPoint + 1) c)
      (hfile : contents .passengers = some []) : Preparing input contents m own
  | read {c w o : Nat} {own : List (Nat × Descriptor)} {text : List Byte}
      (hm : m.control = .readInput) (hidle : m.Idle c own) (hw : m.writePassengers = some w)
      (hfile : contents .passengers = some text) (hnew : newline ∉ text)
      (hline : text ≠ [] ∨ ∃ b ∈ restOfLine input c, b ≠ 0)
      (horderly : Orderly input m.numPoint (afterLine input c)) :
      Preparing input contents m ((w, ⟨.passengers, o⟩) :: own)
  | write {c w o : Nat} {own : List (Nat × Descriptor)} {text : List Byte}
      (hm : m.control = .writePassengers) (hidle : m.Idle c own) (hw : m.writePassengers = some w)
      (hfile : contents .passengers = some text) (hnew : newline ∉ text)
      (htemp : m.tempbuffer ≠ newline)
      (hline : text ≠ [] ∨ m.tempbuffer ≠ 0 ∨ ∃ b ∈ restOfLine input c, b ≠ 0)
      (horderly : Orderly input m.numPoint (afterLine input c)) :
      Preparing input contents m ((w, ⟨.passengers, o⟩) :: own)
  | close {w o : Nat} {own : List (Nat × Descriptor)} {text : List Byte}
      (hm : m.control = .closePassengers) (hbetween : m.Between input own)
      (hw : m.writePassengers = some w) (hline : Line contents text) :
      Preparing input contents m ((w, ⟨.passengers, o⟩) :: own)
  | up {own : List (Nat × Descriptor)} {text : List Byte} (hm : m.control = .upPassengers)
      (hbetween : m.Between input own) (hline : Line contents text) :
      Preparing input contents m own

/-- `scannersmain` reads `scannerid.txt`. -/
inductive Reporting (input : List Byte) (m : ScannersMain) : List (Nat × Descriptor) → Prop where
  | open_ {own : List (Nat × Descriptor)} (hm : m.control = .openScannerId)
      (hbetween : m.Between input own) : Reporting input m own
  | read {r o : Nat} {own : List (Nat × Descriptor)} (hm : m.control.readingId = true)
      (hbetween : m.Between input own) (hr : m.readScannerId = some r) :
      Reporting input m ((r, ⟨.scannerid, o⟩) :: own)
  | up {own : List (Nat × Descriptor)} (hm : m.control = .upMaincounter)
      (hbetween : m.Between input own) : Reporting input m own

/-- `scannersmain` is at its end. -/
inductive Stopping (m : ScannersMain) : List (Nat × Descriptor) → Prop where
  | closeInput {c : Nat} {own : List (Nat × Descriptor)} (hm : m.control = .closeInput)
      (hidle : m.Idle c own) : Stopping m own
  | closeOutput {j o : Nat} (hm : m.control = .closeOutput) (hj : m.writeOutput = some j) :
      Stopping m [(j, ⟨.output, o⟩)]
  | returned {own : List (Nat × Descriptor)} (hm : m.control = .returned)
      (hlength : own.length ≤ 2) : Stopping m own

/-! ## The place of `passengers` -/

/-- The weight that is being written is the last one of the line. -/
def Passengers.Last (p : Passengers) : Prop := p.filePointer + 1 = p.fileLength

/-- `passengers` has `passengers.txt` open and is at one of its bytes. -/
structure Carrying (p : Passengers) (text : List Byte) (i : Nat) : Prop where
  id : p.readPassengers = some i
  length : p.fileLength = text.length
  pointer : p.filePointer < text.length

/-- `lugweight.txt` holds a weight, with a newline behind the last one of the line. -/
structure Weight (contents : FileName → Option (List Byte)) (p : Passengers) (lug : List Byte) :
    Prop where
  file : contents .lugweight = some lug
  newline_iff : newline ∈ lug ↔ p.Last

/-- `passengers` has the token and splits the line; the list holds the descriptors it uses. -/
inductive Working (contents : FileName → Option (List Byte)) (p : Passengers) (text : List Byte) :
    List (Nat × Descriptor) → Prop where
  | create (hp : p.control = .createScannerId) : Working contents p text []
  | open_ (hp : p.control = .openPassengers) : Working contents p text []
  | length {i : Nat} (hp : p.control = .readLength) (hid : p.readPassengers = some i)
      (hlength : p.fileLength ≤ text.length) :
      Working contents p text [(i, ⟨.passengers, p.fileLength⟩)]
  | close {i o : Nat} (hp : p.control = .closePassengers) (hid : p.readPassengers = some i)
      (hlength : p.fileLength = text.length) : Working contents p text [(i, ⟨.passengers, o⟩)]
  | reopen (hp : p.control = .reopenPassengers) (hlength : p.fileLength = text.length) :
      Working contents p text []
  | createLug {i : Nat} (hp : p.control = .createLugWeight) (hid : p.readPassengers = some i)
      (hlength : p.fileLength = text.length) : Working contents p text [(i, ⟨.passengers, 0⟩)]
  | openLug {i : Nat} (hp : p.control = .openLugWeight) (hid : p.readPassengers = some i)
      (hlength : p.fileLength = text.length) (hlug : contents .lugweight = some []) :
      Working contents p text [(i, ⟨.passengers, 0⟩)]
  | read {i k o : Nat} {lug : List Byte} (hp : p.control = .readPassengers)
      (hcarry : Carrying p text i) (hk : p.writeLugWeight = some k)
      (hlug : contents .lugweight = some lug) (hnew : newline ∉ lug) :
      Working contents p text [(k, ⟨.lugweight, o⟩), (i, ⟨.passengers, p.filePointer⟩)]
  | write {i k o : Nat} {lug : List Byte} (hp : p.control = .writeLugWeight)
      (hcarry : Carrying p text i) (hk : p.writeLugWeight = some k)
      (hlug : contents .lugweight = some lug) (hnew : newline ∉ lug)
      (htemp : p.tempbuffer ≠ newline) :
      Working contents p text [(k, ⟨.lugweight, o⟩), (i, ⟨.passengers, p.filePointer + 1⟩)]
  | endline {i k o : Nat} {lug : List Byte} (hp : p.control = .writeEndline)
      (hcarry : Carrying p text i) (hk : p.writeLugWeight = some k)
      (hlug : contents .lugweight = some lug) (hlast : p.Last) :
      Working contents p text [(k, ⟨.lugweight, o⟩), (i, ⟨.passengers, p.filePointer + 1⟩)]
  | closeLug {i k o : Nat} {lug : List Byte} (hp : p.control = .closeLugWeight)
      (hcarry : Carrying p text i) (hk : p.writeLugWeight = some k)
      (hlug : Weight contents p lug) :
      Working contents p text [(k, ⟨.lugweight, o⟩), (i, ⟨.passengers, p.filePointer + 1⟩)]
  | up {i : Nat} {lug : List Byte} (hp : p.control = .upScanners) (hcarry : Carrying p text i)
      (hlug : Weight contents p lug) :
      Working contents p text [(i, ⟨.passengers, p.filePointer + 1⟩)]

/-- `passengers` has handed a weight over and waits for `scanners`. -/
structure Handed (contents : FileName → Option (List Byte)) (p : Passengers)
    (text lug : List Byte) (i : Nat) : Prop where
  control : p.control = .downScanned
  carrying : Carrying p text i
  weight : Weight contents p lug

/-- `passengers` opens `lugweight.txt` again. -/
structure Resuming (contents : FileName → Option (List Byte)) (p : Passengers)
    (text : List Byte) (i : Nat) : Prop where
  control : p.control = .recreateLugWeight ∨
    p.control = .reopenLugWeight ∧ contents .lugweight = some []
  carrying : Carrying p text i

/-- Behind the last weight of a line `scanners` has finished with the line. -/
def Passengers.side (p : Passengers) : Side :=
  if p.filePointer + 1 = p.fileLength then .gone else .turn

/-- `passengers` is outside of its loop, and `scanners` has been told about the next line or not. -/
inductive Ready (p : Passengers) : Side → Prop where
  | starting (hp : p.control = .upMaincounter) : Ready p .gone
  | idle (hp : p.control = .downPassengers) : Ready p .turn

/-! ## The stages -/

/-- What the stages look at: all but `maincounter`, `scanners` and the file table. -/
structure View where
  contents : FileName → Option (List Byte)
  main : ScannersMain
  passengers : Passengers
  semMain : Nat
  semPassengers : Nat
  semScanners : Nat

def State.view (s : State) : View :=
  ⟨s.files.contents, s.main, s.passengers, s.sems.main, s.sems.passengers, s.sems.scanners⟩

/-- The values of the semaphores `main`, `passengers` and `scanners`. -/
def View.Tokens (v : View) (main passengers scanners : Nat) : Prop :=
  v.semMain = main ∧ v.semPassengers = passengers ∧ v.semScanners = scanners

/-- `scannersmain` waits for `main` while the line is in `passengers.txt`; `leaked` are the
descriptors left open for the lines before. -/
structure Busy (input : List Byte) (K : Nat) (v : View) (lm : List (Nat × Descriptor))
    (text : List Byte) (leaked : List (Nat × Descriptor)) : Prop where
  control : v.main.control = .downMain
  between : v.main.Between input lm
  line : Line v.contents text
  leaks : leaked.length + 2 * v.main.numPoint + 2 = 2 * K

/-- `scannersmain` waits for `main` and the line is done. -/
structure Done (input : List Byte) (K : Nat) (v : View) (lm lp : List (Nat × Descriptor)) :
    Prop where
  control : v.main.control = .downMain
  between : v.main.Between input lm
  leaks : lp.length + 2 * v.main.numPoint = 2 * K

/-- Where the token is when there are `K` lines; `lm` and `lp` are the descriptors of
`scannersmain` and of `passengers`. -/
inductive Stage (input : List Byte) (K : Nat) (v : View) (lm : List (Nat × Descriptor)) :
    List (Nat × Descriptor) → Side → Prop where
  | execPassengers (hm : v.main.control = .execPassengers) (hbetween : v.main.Between input lm)
      (hlines : v.main.numPoint = K) (hp : v.passengers.control = .unborn)
      (htokens : v.Tokens 0 0 0) : Stage input K v lm [] (.unborn 0)
  | execScanners {n : Nat} (hm : v.main.control = .execScanners)
      (hbetween : v.main.Between input lm) (hlines : v.main.numPoint = K)
      (hp : v.passengers.control = .upMaincounter ∧ n = 0 ∨
        v.passengers.control = .downPassengers ∧ n = 1)
      (htokens : v.Tokens 0 0 0) : Stage input K v lm [] (.unborn n)
  | preparing {lp : List (Nat × Descriptor)} {side : Side}
      (hm : Preparing input v.contents v.main lm)
      (hleaks : lp.length + 2 * v.main.numPoint + 2 = 2 * K) (hp : Ready v.passengers side)
      (htokens : v.Tokens 0 0 0) : Stage input K v lm lp side
  | toPassengers {lp : List (Nat × Descriptor)} {side : Side} {text : List Byte}
      (hm : Busy input K v lm text lp) (hp : Ready v.passengers side)
      (htokens : v.Tokens 0 1 0) : Stage input K v lm lp side
  | working {own leaked : List (Nat × Descriptor)} {text : List Byte}
      (hm : Busy input K v lm text leaked) (hp : Working v.contents v.passengers text own)
      (htokens : v.Tokens 0 0 0) : Stage input K v lm (own ++ leaked) .turn
  | toScanners {i : Nat} {leaked : List (Nat × Descriptor)} {text lug : List Byte}
      (hm : Busy input K v lm text leaked) (hp : Handed v.contents v.passengers text lug i)
      (htokens : v.Tokens 0 0 1) :
      Stage input K v lm ((i, ⟨.passengers, v.passengers.filePointer + 1⟩) :: leaked) .turn
  | scanning {i : Nat} {leaked : List (Nat × Descriptor)} {text lug : List Byte}
      (hm : Busy input K v lm text leaked) (hp : Handed v.contents v.passengers text lug i)
      (htokens : v.Tokens 0 0 0) :
      Stage input K v lm ((i, ⟨.passengers, v.passengers.filePointer + 1⟩) :: leaked)
        (.scanning lug)
  | scanned {i : Nat} {leaked : List (Nat × Descriptor)} {text lug : List Byte} {side : Side}
      (hm : Busy input K v lm text leaked) (hp : Handed v.contents v.passengers text lug i)
      (hside : side = v.passengers.side) (htokens : v.Tokens 0 1 0) :
      Stage input K v lm ((i, ⟨.passengers, v.passengers.filePointer + 1⟩) :: leaked) side
  | resuming {i : Nat} {leaked : List (Nat × Descriptor)} {text : List Byte} {side : Side}
      (hm : Busy input K v lm text leaked) (hp : Resuming v.contents v.passengers text i)
      (hside : side = v.passengers.side) (htokens : v.Tokens 0 0 0) :
      Stage input K v lm ((i, ⟨.passengers, v.passengers.filePointer + 1⟩) :: leaked) side
  | finishing {lp : List (Nat × Descriptor)} (hm : Done input K v lm lp)
      (hp : v.passengers.control = .upMain) (htokens : v.Tokens 0 0 0) :
      Stage input K v lm lp .gone
  | toMain {lp : List (Nat × Descriptor)} (hm : Done input K v lm lp)
      (hp : v.passengers.control = .downPassengers) (htokens : v.Tokens 1 0 0) :
      Stage input K v lm lp .gone
  | reporting {lp : List (Nat × Descriptor)} (hm : Reporting input v.main lm)
      (hleaks : lp.length + 2 * v.main.numPoint = 2 * K)
      (hp : v.passengers.control = .downPassengers) (htokens : v.Tokens 0 0 0) :
      Stage input K v lm lp .gone
  | stopping {lp : List (Nat × Descriptor)} {side : Side} (hm : Stopping v.main lm)
      (hleaks : lp.length ≤ 2 * K)
      (hp : Ready v.passengers side ∨ v.passengers.control = .unborn ∧ side = .gone)
      (htokens : v.Tokens 0 0 0) : Stage input K v lm lp side

/-- The files that are there all the time. -/
def Present (input : List Byte) (contents : FileName → Option (List Byte)) : Prop :=
  contents .input = some input ∧ (∃ text, contents .output = some text) ∧
    ∃ text, contents .scannerid = some text

/-- The state of the demo with the descriptors of the three programs. -/
structure Orchestrated (input : List Byte) (K : Nat) (s : State)
    (lm lp lc : List (Nat × Descriptor)) (side : Side) : Prop where
  owns : Owns s.files (lists lm lp lc)
  present : Present input s.files.contents
  stage : Stage input K s.view lm lp side
  holds : side.Holds s.sems.maincounter s.scanners lc

/-- There is one token. -/
def Tokened (input : List Byte) (K : Nat) (s : State) : Prop :=
  ∃ lm lp lc side, Orchestrated input K s lm lp lc side

/-! ## The stage that belongs to a place of `scannersmain` -/

/-- The parts of `scannersmain`. -/
inductive Phase where
  | starting
  | preparing
  | waiting
  | reporting
  | stopping
  deriving DecidableEq, Repr

def MainControl.phase : MainControl → Phase
  | .execPassengers | .execScanners => .starting
  | .createPassengers | .openPassengers | .readInput | .writePassengers | .closePassengers
  | .upPassengers => .preparing
  | .downMain => .waiting
  | .openScannerId | .readScannerId | .writeId | .writeSpaces | .writeEndline | .closeScannerId
  | .upMaincounter => .reporting
  | .closeInput | .closeOutput | .returned => .stopping

/-- The control points of rewriting. -/
theorem MainControl.phase_of_rewriting (h : control.rewriting = true) :
    control.phase = .preparing := by
  revert h
  cases control <;> decide

/-- The control points of reading an id. -/
theorem MainControl.phase_of_readingId (h : control.readingId = true) :
    control.phase = .reporting := by
  revert h
  cases control <;> decide

/-- The phase of the control points while it prepares. -/
theorem Preparing.phase {contents : FileName → Option (List Byte)}
    (h : Preparing input contents m own) : m.control.phase = .preparing := by
  cases h with
  | create hm => exact congrArg MainControl.phase hm
  | open_ hm => exact congrArg MainControl.phase hm
  | read hm => exact congrArg MainControl.phase hm
  | write hm => exact congrArg MainControl.phase hm
  | close hm => exact congrArg MainControl.phase hm
  | up hm => exact congrArg MainControl.phase hm

/-- While it reports. -/
theorem Reporting.phase (h : Reporting input m own) : m.control.phase = .reporting := by
  cases h with
  | open_ hm => exact congrArg MainControl.phase hm
  | read hm => exact MainControl.phase_of_readingId hm
  | up hm => exact congrArg MainControl.phase hm

/-- While it stops. -/
theorem Stopping.phase (h : Stopping m own) : m.control.phase = .stopping := by
  cases h with
  | closeInput hm => exact congrArg MainControl.phase hm
  | closeOutput hm => exact congrArg MainControl.phase hm
  | returned hm => exact congrArg MainControl.phase hm

/-- What the place of `scannersmain` says about the others. -/
def Phase.Allows (phase : Phase) (p : Passengers) (side : Side) : Prop :=
  match phase with
  | .starting => ∃ n, side = .unborn n
  | .preparing => Ready p side
  | .reporting => side = .gone
  | .waiting | .stopping => True

/-- In each stage the phase allows what the others do. -/
theorem Stage.phase {K : Nat} {v : View} {lm lp : List (Nat × Descriptor)} {side : Side}
    (h : Stage input K v lm lp side) : v.main.control.phase.Allows v.passengers side := by
  cases h with
  | execPassengers hm => rw [hm]; exact ⟨0, rfl⟩
  | execScanners hm => rw [hm]; exact ⟨_, rfl⟩
  | preparing hm _ hp => rw [hm.phase]; exact hp
  | toPassengers hm => rw [hm.control]; trivial
  | working hm => rw [hm.control]; trivial
  | toScanners hm => rw [hm.control]; trivial
  | scanning hm => rw [hm.control]; trivial
  | scanned hm => rw [hm.control]; trivial
  | resuming hm => rw [hm.control]; trivial
  | finishing hm => rw [hm.control]; trivial
  | toMain hm => rw [hm.control]; trivial
  | reporting hm => rw [hm.phase]; rfl
  | stopping hm => rw [hm.phase]; trivial

/-! ## There is always a free descriptor -/

section Lengths

variable {input : List Byte} {K : Nat} {contents : FileName → Option (List Byte)}
  {m : ScannersMain} {p : Passengers} {own : List (Nat × Descriptor)} {side : Side}

/-- Between two lines it has two files open. -/
theorem ScannersMain.Idle.length {c : Nat} (h : m.Idle c own) : own.length = 2 := by
  obtain ⟨i, j, o, _, _, rfl⟩ := h
  rfl

/-- So it has when it has just opened them. -/
theorem ScannersMain.Between.length (h : m.Between input own) : own.length = 2 := by
  obtain ⟨c, hidle, _⟩ := h
  exact hidle.length

/-- While it prepares there is at most one more. -/
theorem Preparing.length_le (h : Preparing input contents m own) : own.length ≤ 3 := by
  cases h with
  | create hm hidle => exact Nat.le_succ_of_le (Nat.le_of_eq hidle.length)
  | open_ hm hidle => exact Nat.le_succ_of_le (Nat.le_of_eq hidle.length)
  | read hm hidle => exact Nat.succ_le_succ (Nat.le_of_eq hidle.length)
  | write hm hidle => exact Nat.succ_le_succ (Nat.le_of_eq hidle.length)
  | close hm hbetween => exact Nat.succ_le_succ (Nat.le_of_eq hbetween.length)
  | up hm hbetween => exact Nat.le_succ_of_le (Nat.le_of_eq hbetween.length)

/-- The same while it reports. -/
theorem Reporting.length_le (h : Reporting input m own) : own.length ≤ 3 := by
  cases h with
  | open_ hm hbetween => exact Nat.le_succ_of_le (Nat.le_of_eq hbetween.length)
  | read hm hbetween => exact Nat.succ_le_succ (Nat.le_of_eq hbetween.length)
  | up hm hbetween => exact Nat.le_succ_of_le (Nat.le_of_eq hbetween.length)

/-- No more are opened at the end. -/
theorem Stopping.length_le (h : Stopping m own) : own.length ≤ 2 := by
  cases h with
  | closeInput hm hidle => exact Nat.le_of_eq hidle.length
  | closeOutput => exact Nat.le_succ 1
  | returned hm hlength => exact hlength

/-- A passenger at work has at most two files open. -/
theorem Working.length_le {text : List Byte} (h : Working contents p text own) :
    own.length ≤ 2 := by
  cases h <;> simp

/-- What the processes but `passengers` can have open. -/
def Side.room : Side → Nat
  | .unborn _ | .gone => 0
  | .turn => 1
  | .scanning _ => 2

/-- What the scanners' side has open fits into its room. -/
theorem Side.Holds.length_le {n : Nat} {c : Scanners} (h : side.Holds n c own) :
    own.length ≤ side.room := by
  cases side with
  | unborn k =>
    obtain ⟨_, _, rfl⟩ := h
    exact Nat.le_refl 0
  | turn => cases h <;> simp [Side.room]
  | gone =>
    obtain ⟨_, _, rfl⟩ := h
    exact Nat.le_refl 0
  | scanning lug =>
    obtain ⟨_, hc⟩ := h
    cases hc <;> simp [Side.room]

/-- One descriptor is room enough for a side that is ready. -/
theorem Ready.room_le (h : Ready p side) : side.room ≤ 1 := by
  cases h <;> decide

/-- The same for the side that the passengers see. -/
theorem Passengers.room_side_le (p : Passengers) : p.side.room ≤ 1 := by
  rw [Passengers.side]
  split <;> decide

/-- With at most 47 lines, which leave 94 descriptors open, 97 are enough. -/
theorem Stage.length_le {v : View} {lm lp : List (Nat × Descriptor)}
    (h : Stage input K v lm lp side) (hK : K ≤ 47) : lm.length + lp.length + side.room ≤ 97 := by
  cases h with
  | execPassengers hm hbetween =>
    have := hbetween.length
    simp only [List.length_nil, Side.room]
    omega
  | execScanners hm hbetween =>
    have := hbetween.length
    simp only [List.length_nil, Side.room]
    omega
  | preparing hm hleaks hp =>
    have := hm.length_le
    have := hp.room_le
    omega
  | toPassengers hm hp =>
    have := hm.between.length
    have := hm.leaks
    have := hp.room_le
    omega
  | working hm hp =>
    have := hm.between.length
    have := hm.leaks
    have := hp.length_le
    simp only [List.length_append, Side.room]
    omega
  | toScanners hm hp =>
    have := hm.between.length
    have := hm.leaks
    simp only [List.length_cons, Side.room]
    omega
  | scanning hm hp =>
    have := hm.between.length
    have := hm.leaks
    simp only [List.length_cons, Side.room]
    omega
  | scanned hm hp hside =>
    have := hm.between.length
    have := hm.leaks
    have := v.passengers.room_side_le
    simp only [List.length_cons, hside]
    omega
  | resuming hm hp hside =>
    have := hm.between.length
    have := hm.leaks
    have := v.passengers.room_side_le
    simp only [List.length_cons, hside]
    omega
  | finishing hm hp =>
    have := hm.between.length
    have := hm.leaks
    simp only [Side.room]
    omega
  | toMain hm hp =>
    have := hm.between.length
    have := hm.leaks
    simp only [Side.room]
    omega
  | reporting hm hleaks hp =>
    have := hm.length_le
    simp only [Side.room]
    omega
  | stopping hm hleaks hp =>
    have := hm.length_le
    have hroom : side.room ≤ 1 := by
      rcases hp with hp | ⟨_, rfl⟩
      · exact hp.room_le
      · decide
    omega

/-- A slot of the table is free. -/
theorem Orchestrated.exists_free {s : State} {lm lp lc : List (Nat × Descriptor)}
    (h : Orchestrated input K s lm lp lc side) (hK : K ≤ 47) :
    ∃ i, freeSlot s.files.table entries = some i := by
  have hstage := h.stage.length_le hK
  have hside := h.holds.length_le
  refine h.owns.exists_free ?_
  show lm.length + lp.length + lc.length < 98
  omega

end Lengths

end Nachos.Luggage
