import Nachos.Library.Decimal
import Nachos.Library.WordBytes
import Nachos.Threads.ConsoleRead
import Nachos.Userprog.Syscalls

/-!
# Reading an integer

`handle_SC_ReadInt` should leave the value of a line in `r2` if the line is a decimal integer, and 0
otherwise. Its check for characters that are not digits asks whether a character is below `'0'` and
above `'9'`, which none is; so any character goes into the number, and for a line without a digit
the zero behind the line does. `readInt_grammar_iff` says for which lines the result is right.
-/

namespace Nachos

open WordBytes ConsoleRead Reader

/-! ## One line from the keyboard -/

namespace ConsoleRead

/-- The loops of `Read` on the characters of the keyboard, for a thread that is alone; `none` when
it waits for more. -/
def Reader.readAll (r : Reader) (input : List (BitVec 8)) : Option Reader :=
  if r.loop < r.numBytes ∧ r.eolncond = false then
    match input with
    | [] => none
    | c :: rest => ({ r with point := .get }.take c).readAll rest
  else some r

variable {r : Reader} {c : BitVec 8} {line : List (BitVec 8)}

theorem Reader.readAll_cons (h : r.loop < r.numBytes ∧ r.eolncond = false) (c : BitVec 8)
    (rest : List (BitVec 8)) :
    r.readAll (c :: rest) = ({ r with point := .get }.take c).readAll rest := by
  rw [readAll, if_pos h]

theorem Reader.readAll_done (h : ¬ (r.loop < r.numBytes ∧ r.eolncond = false))
    (input : List (BitVec 8)) : r.readAll input = some r := by
  cases input <;> rw [readAll, if_neg h]

/-- The characters of a line that `Read` stores: `EOF` is skipped and Ctrl-A is the end. -/
def typed (line : List (BitVec 8)) : List (BitVec 8) :=
  (line.filter (· ≠ EOF)).takeWhile (· ≠ ctrlA)

theorem typed_cons_ctrlA (line : List (BitVec 8)) : typed (ctrlA :: line) = [] := by
  simp [typed, show ctrlA ≠ EOF by decide]

theorem typed_cons (hEOF : c ≠ EOF) (hctrlA : c ≠ ctrlA) (line : List (BitVec 8)) :
    typed (c :: line) = c :: typed line := by
  simp [typed, hEOF, hctrlA]

theorem length_typed_le (line : List (BitVec 8)) : (typed line).length ≤ line.length :=
  (List.takeWhile_sublist _).length_le.trans (List.length_filter_le _ _)

/-- A line without `EOF` and Ctrl-A is stored as it is. -/
theorem typed_eq_self (h : ∀ c ∈ line, c ≠ EOF ∧ c ≠ ctrlA) : typed line = line := by
  induction line with
  | nil => rfl
  | cons c line ih =>
    obtain ⟨hEOF, hctrlA⟩ := h c List.mem_cons_self
    rw [typed_cons hEOF hctrlA, ih fun d hd => h d (List.mem_cons_of_mem _ hd)]

/-! What `take` does with the three sorts of characters, for a reader that waits for one. -/

theorem Reader.take_EOF (r : Reader) : ({ r with point := .get } : Reader).take EOF =
    { r with ch := some EOF, point := .await } := by
  simp [Reader.take]

theorem Reader.take_end (r : Reader) (hEOF : c ≠ EOF) (hend : c = newline ∨ c = ctrlA) :
    ({ r with point := .get } : Reader).take c =
    { r with ch := some c, eolncond := true, point := .test } := by
  simp [Reader.take, hEOF, hend]

theorem Reader.take_char (r : Reader) (hEOF : c ≠ EOF) (hplain : ¬ (c = newline ∨ c = ctrlA)) :
    ({ r with point := .get } : Reader).take c =
    { r with ch := some c, into := r.into.set r.loop c, loop := r.loop + 1, point := .test } := by
  simp [Reader.take, hEOF, hplain]

/-- `EOF` is skipped. -/
theorem Reading.skip (h : Reading r) (hloop : r.loop < r.numBytes) (heoln : r.eolncond = false) :
    Reading { r with ch := some EOF, point := .await } :=
  ⟨h.asks, h.bound, h.size, h.buffer, h.plain,
    fun htrue => absurd (htrue.symm.trans heoln) Bool.true_eq_false.mp,
    fun _ _ => ⟨EOF, rfl, by decide⟩, fun _ => ⟨hloop, heoln⟩⟩

/-- A read that goes on with a line ends with it. -/
theorem Reading.readAll_line (h : Reading r) (heoln : r.eolncond = false) (hline : newline ∉ line)
    (hroom : r.loop + line.length ≤ r.numBytes) :
    ∃ r', r.readAll (line ++ [newline]) = some r' ∧ Reading r' ∧
      ¬ (r'.loop < r'.numBytes ∧ r'.eolncond = false) ∧ r'.stored = r.stored ++ typed line ∧
      (r'.ender = some ctrlA ↔ ctrlA ∈ line) := by
  induction line generalizing r with
  | nil =>
    by_cases hloop : r.loop < r.numBytes
    · have hget : Reading { r with point := .get } := h.move fun _ => ⟨hloop, heoln⟩
      have hEOF : newline ≠ EOF := by decide
      have htake := r.take_end hEOF (.inl rfl)
      obtain ⟨hread, -⟩ := hget.finish rfl hEOF (.inl rfl)
      rw [htake] at hread
      refine ⟨_, ?_, hread, by simp, by simp [Reader.stored, typed], ?_⟩
      · rw [List.nil_append, readAll_cons ⟨hloop, heoln⟩, htake]
        exact readAll_done (by simp) _
      · simp [Reader.ender, show newline ≠ ctrlA by decide]
    · refine ⟨r, ?_, h, fun hgo => hloop hgo.1, by simp [typed], by simp [Reader.ender, heoln]⟩
      exact readAll_done (fun hgo => hloop hgo.1) _
  | cons c line ih =>
    rw [List.length_cons] at hroom
    have hloop : r.loop < r.numBytes := by omega
    have hget : Reading { r with point := .get } := h.move fun _ => ⟨hloop, heoln⟩
    have hnl : c ≠ newline := fun heq => hline (heq ▸ List.mem_cons_self)
    have hrest : newline ∉ line := fun hmem => hline (List.mem_cons_of_mem _ hmem)
    rw [List.cons_append, readAll_cons ⟨hloop, heoln⟩]
    by_cases hEOF : c = EOF
    · subst hEOF
      rw [take_EOF, show typed (EOF :: line) = typed line by simp [typed]]
      obtain ⟨r', hall, hr', hend, hstored, hender⟩ :=
        ih (h.skip hloop heoln) heoln hrest (by dsimp only; omega)
      refine ⟨r', hall, hr', hend, hstored, ?_⟩
      rw [hender, List.mem_cons]
      exact ⟨.inr, fun hmem => hmem.resolve_left (by decide)⟩
    · by_cases hctrlA : c = ctrlA
      · subst hctrlA
        obtain ⟨hread, -⟩ := hget.finish rfl hEOF (.inr rfl)
        rw [r.take_end hEOF (.inr rfl)] at hread ⊢
        exact ⟨_, readAll_done (by simp) _, hread, by simp,
          by simp [Reader.stored, typed_cons_ctrlA], by simp [Reader.ender]⟩
      · have hplain : ¬ (c = newline ∨ c = ctrlA) := not_or.mpr ⟨hnl, hctrlA⟩
        obtain ⟨hread, htaken, -⟩ := hget.store rfl hEOF hplain
        rw [r.take_char hEOF hplain] at hread htaken ⊢
        have hstored : (r.into.set r.loop c).take (r.loop + 1) = r.stored ++ [c] := by
          simpa [Reader.taken, Reader.ender, heoln, Reader.stored] using htaken
        obtain ⟨r', hall, hr', hend, hstored', hender⟩ :=
          ih hread heoln hrest (by dsimp only; omega)
        refine ⟨r', hall, hr', hend, ?_, ?_⟩
        · rw [hstored', Reader.stored, hstored, typed_cons hEOF hctrlA, List.append_assoc]
          rfl
        · rw [hender, List.mem_cons]
          exact ⟨.inr, fun hmem => hmem.resolve_left fun heq => hctrlA heq.symm⟩

/-- What `Read` makes of a line that fits in its buffer. -/
theorem readAll_line {numBytes : Nat} (hasks : 1 ≤ numBytes) (hline : newline ∉ line)
    (hlength : line.length ≤ numBytes) :
    ∃ r, (Reader.start numBytes).readAll (line ++ [newline]) = some r ∧ r.stored = typed line ∧
      r.result = .ok (if ctrlA ∈ line then -1 else ((typed line).length : Int)) := by
  obtain ⟨r, hall, hr, hend, hstored, hender⟩ :=
    (reading_start hasks).readAll_line rfl hline (by simpa [Reader.start] using hlength)
  have hstored : r.stored = typed line := by simpa [Reader.start, Reader.stored] using hstored
  obtain ⟨result, hresult, hanswered⟩ := hr.answered hend
  refine ⟨r, hall, hstored, hresult.trans (congrArg Except.ok ?_)⟩
  split
  · rename_i hmem
    exact hanswered.minusOne.mpr (hender.mpr hmem)
  · rename_i hmem
    rw [hanswered.count (mt hender.mp hmem), hstored]

end ConsoleRead

/-! ## The grammar -/

/-- A decimal integer: an optional sign, digits, and optionally a dot with zeros behind it. -/
structure Numeral where
  negative : Bool
  digits : List Byte
  /-- The number of zeros behind the dot, if there is one. -/
  zeros : Option Nat
  nonempty : digits ≠ []
  decimal : ∀ c ∈ digits, Decimal.IsDigit c

namespace Numeral

/-- The sign. -/
def sign (n : Numeral) : List Byte := if n.negative then [0x2d] else []

/-- The dot and the zeros behind it. -/
def fraction (n : Numeral) : List Byte :=
  match n.zeros with
  | none => []
  | some k => 0x2e :: List.replicate k 0x30

/-- The characters. -/
def text (n : Numeral) : List Byte := n.sign ++ (n.digits ++ n.fraction)

/-- The number. -/
def value (n : Numeral) : Int :=
  if n.negative then -(Decimal.value n.digits : Int) else Decimal.value n.digits

end Numeral

/-- What `ReadInt` should leave in `r2` for a line: the value of the numeral if the line is one and
its value is an `int`, and 0 otherwise. -/
structure Expected (line : List Byte) (v : Int) : Prop where
  integer : ∀ n : Numeral, n.text = line → FitsInt n.value → v = n.value
  other : (∀ n : Numeral, n.text = line → ¬ FitsInt n.value) → v = 0

namespace Syscall

/-! ## What `ReadInt` computes -/

/-- The value of `firstIndex`. -/
def firstIndex (stored : List Byte) : Nat := if stored.getD 0 0 = 0x2d then 1 else 0

/-- The line has a dot with something else than zeros behind it. After a Ctrl-A the length is -1
and the check is left out. -/
def RefusedLine (stored : List Byte) (ended : Bool) : Prop :=
  ended = false ∧
    ∃ c ∈ ((stored.drop (firstIndex stored)).dropWhile (· ≠ 0x2e)).tail, c ≠ 0x30

instance (stored : List Byte) (ended : Bool) : Decidable (RefusedLine stored ended) :=
  inferInstanceAs (Decidable (_ ∧ _))

/-- The characters that the second loop adds up: those up to the dot. If there is none, or after a
Ctrl-A, it is the character at `firstIndex`, which is zero behind the end of the line. -/
def summed (stored : List Byte) (ended : Bool) : List Byte :=
  if ended = true ∨ stored.drop (firstIndex stored) = [] then [stored.getD (firstIndex stored) 0]
  else (stored.drop (firstIndex stored)).takeWhile (· ≠ 0x2e)

/-- The sum without overflow. -/
def sum (chars : List Byte) : Int := chars.foldl (fun number c => number * 10 + (c.toInt - 48)) 0

/-- The second loop computes the sum modulo `2 ^ 32`. -/
theorem foldl_ofInt (chars : List Byte) (acc : Int) :
    chars.foldl (fun (number : BitVec 32) c => number * 10 + (c.signExtend 32 - 48))
        (BitVec.ofInt 32 acc) =
      BitVec.ofInt 32 (chars.foldl (fun number c => number * 10 + (c.toInt - 48)) acc) := by
  induction chars generalizing acc with
  | nil => rfl
  | cons c chars ih =>
    rw [List.foldl_cons, List.foldl_cons, ← ih]
    congr 1
    rw [Int.sub_eq_add_neg, BitVec.ofInt_add, BitVec.ofInt_mul, BitVec.ofInt_add,
      BitVec.sub_eq_add_neg]
    rfl

variable {i : Nat} {chars : List Byte} {buffer : Nat → Byte}

theorem getD_of_lt {l : List Byte} (hi : i < l.length) : l.getD i 0 = l[i] := by
  rw [List.getD_eq_getElem?_getD, List.getElem?_eq_getElem hi, Option.getD_some]

/-- Reading a list at all its indices. -/
theorem map_range_eq (hchars : ∀ i < chars.length, buffer i = chars.getD i 0) :
    (List.range chars.length).map buffer = chars := by
  apply List.ext_getElem?
  intro i
  by_cases hi : i < chars.length
  · rw [List.getElem?_map, List.getElem?_range hi, Option.map_some, hchars i hi,
      List.getElem?_eq_getElem hi, getD_of_lt hi]
  · rw [List.getElem?_eq_none (by simpa using hi), List.getElem?_eq_none (by simpa using hi)]

/-- The second loop on the characters from `first` on. -/
theorem digitsValue_eq {first : Nat} {lastIndex : Int}
    (hlength : (lastIndex + 1 - first).toNat = chars.length)
    (hchars : ∀ i < chars.length, buffer (first + i) = chars.getD i 0) :
    digitsValue buffer first lastIndex = BitVec.ofInt 32 (sum chars) := by
  unfold digitsValue sum
  rw [hlength, ← foldl_ofInt]
  conv_rhs => rw [← map_range_eq hchars, List.foldl_map]
  rfl

/-- The inner loop looks at all characters behind the dot. -/
theorem zeros_behind_iff (stored : List Byte) (i : Nat) :
    (∀ j < stored.length, i < j → stored.getD j 0 = 0x30) ↔
      ∀ d ∈ stored.drop (i + 1), d = 0x30 := by
  constructor
  · intro h d hd
    obtain ⟨j, hj⟩ := List.mem_iff_getElem?.mp hd
    rw [List.getElem?_drop] at hj
    obtain ⟨hlt, rfl⟩ := List.getElem?_eq_some_iff.mp hj
    have hzero := h _ hlt (by omega)
    rwa [getD_of_lt hlt] at hzero
  · intro h j hj hij
    rw [getD_of_lt hj]
    refine h _ (List.mem_iff_getElem?.mpr ⟨j - (i + 1), ?_⟩)
    rw [List.getElem?_drop, show i + 1 + (j - (i + 1)) = j by omega,
      List.getElem?_eq_getElem hj]

/-- The check of `ReadInt` behind the index `i`, where the line goes on with `rest`. -/
theorem scanInt_eq {stored rest : List Byte} (lastIndex : Int) (hrest : stored.drop i = rest) :
    scanInt (fun j => stored.getD j 0) stored.length rest.length i lastIndex =
      if ∃ c ∈ (rest.dropWhile (· ≠ 0x2e)).tail, c ≠ 0x30 then none
      else some (if rest = [] then lastIndex
        else i + (rest.takeWhile (· ≠ 0x2e)).length - 1) := by
  induction rest generalizing i lastIndex with
  | nil => simp [scanInt]
  | cons c rest ih =>
    have hi : stored[i]? = some c := by
      rw [← List.head?_drop, hrest, List.head?_cons]
    have hget : stored.getD i 0 = c := by
      rw [List.getD_eq_getElem?_getD, hi, Option.getD_some]
    have htail : stored.drop (i + 1) = rest := by
      rw [← List.tail_drop, hrest, List.tail_cons]
    rw [List.length_cons, scanInt, hget]
    by_cases hdot : c = 0x2e
    · -- the dot: everything behind it must be a zero
      have hzeros := zeros_behind_iff stored i
      rw [htail] at hzeros
      rw [if_pos hdot]
      simp only [hzeros, hdot]
      by_cases hall : ∀ d ∈ rest, d = 0x30
      · rw [if_pos hall, if_neg (by simpa using hall)]
        simp
      · rw [if_neg hall, if_pos (by simpa using hall)]
    · have hnever : ∀ d : Byte, ¬ (d.slt 0x30 ∧ BitVec.slt 0x39 d) := by decide
      rw [if_neg hdot, if_neg (hnever c), ih i htail]
      simp only [hdot, List.dropWhile_cons, List.takeWhile_cons, ne_eq, not_false_eq_true,
        decide_true, if_true, reduceCtorEq, if_false, List.length_cons]
      split
      · rfl
      · split
        · rename_i hnil
          simp [hnil]
        · push_cast
          congr 1
          omega

/-- The two loops together: the line is refused, or its characters are added up. -/
theorem scan_spec (stored : List Byte) (ended : Bool) {numbytes : Int}
    (hnumbytes : numbytes = if ended then -1 else (stored.length : Int)) :
    RefusedLine stored ended ∧ scanInt (fun j => stored.getD j 0) numbytes.toNat
        (numbytes.toNat - firstIndex stored) (firstIndex stored) (firstIndex stored) = none ∨
      ¬ RefusedLine stored ended ∧ ∃ lastIndex, scanInt (fun j => stored.getD j 0) numbytes.toNat
        (numbytes.toNat - firstIndex stored) (firstIndex stored) (firstIndex stored) =
          some lastIndex ∧
        digitsValue (fun j => stored.getD j 0) (firstIndex stored) lastIndex =
          BitVec.ofInt 32 (sum (summed stored ended)) := by
  have hone : digitsValue (fun i => stored.getD i 0) (firstIndex stored) (firstIndex stored) =
      BitVec.ofInt 32 (sum [stored.getD (firstIndex stored) 0]) :=
    digitsValue_eq (by simp) fun i hi => by
      rw [show i = 0 by simpa using hi]
      rfl
  subst hnumbytes
  cases ended with
  | true =>
    refine .inr ⟨fun h => ?_, firstIndex stored, ?_, ?_⟩
    · cases h.1
    · rw [if_pos rfl, show ((-1 : Int)).toNat = 0 from rfl, Nat.zero_sub]
      rfl
    · rw [hone, summed, if_pos (by simp)]
  | false =>
    have hrounds : stored.length - firstIndex stored =
        (stored.drop (firstIndex stored)).length := by
      rw [List.length_drop]
    rw [if_neg Bool.false_ne_true, Int.toNat_natCast, hrounds, scanInt_eq _ rfl]
    by_cases hrefused : ∃ c ∈ ((stored.drop (firstIndex stored)).dropWhile (· ≠ 0x2e)).tail,
        c ≠ 0x30
    · exact .inl ⟨⟨rfl, hrefused⟩, if_pos hrefused⟩
    refine .inr ⟨fun h => hrefused h.2, _, if_neg hrefused, ?_⟩
    by_cases hnil : stored.drop (firstIndex stored) = []
    · rw [if_pos hnil, hone, summed, if_pos (.inr hnil)]
    · rw [if_neg hnil, summed, if_neg (by simpa using hnil)]
      refine digitsValue_eq (by omega) fun i hi => ?_
      obtain ⟨t, ht⟩ := List.takeWhile_prefix (l := stored.drop (firstIndex stored))
        fun c : Byte => decide (c ≠ 0x2e)
      rw [List.getD_eq_getElem?_getD, List.getD_eq_getElem?_getD, ← List.getElem?_drop]
      conv_lhs => rw [← ht, List.getElem?_append_left hi]

/-- What the line was read as: the sum with its sign. -/
def signedSum (stored : List Byte) (ended : Bool) : Int :=
  if stored.getD 0 0 = 0x2d then -sum (summed stored ended) else sum (summed stored ended)

/-- `ReadInt` refuses the line or computes the sum of its characters with the sign. -/
theorem readIntValue_eq (stored : List Byte) (ended : Bool) :
    readIntValue stored (if ended then -1 else (stored.length : Int)) =
      if RefusedLine stored ended then 0 else BitVec.ofInt 32 (signedSum stored ended) := by
  unfold readIntValue
  dsimp only
  rw [← firstIndex]
  obtain ⟨hrefused, hscan⟩ | ⟨hrefused, lastIndex, hscan, hvalue⟩ := scan_spec stored ended rfl
  · rw [hscan, if_pos hrefused]
  · rw [hscan, if_neg hrefused]
    dsimp only
    rw [hvalue, signedSum]
    split
    · rw [BitVec.mul_neg, BitVec.ofInt_neg]
      exact congrArg Neg.neg (BitVec.mul_one _)
    · rfl

/-! ## Numerals -/

/-- No digit is a sign, a dot, `EOF` or Ctrl-A. -/
theorem digit_ne {c : Byte} (h : Decimal.IsDigit c) :
    c ≠ 0x2d ∧ c ≠ 0x2e ∧ c ≠ EOF ∧ c ≠ ctrlA := by
  revert h
  revert c
  decide

/-- The sum of digits is their value. -/
theorem sum_digits {digits : List Byte} (h : ∀ c ∈ digits, Decimal.IsDigit c) :
    sum digits = Decimal.value digits := by
  have hfold : ∀ acc : Nat,
      digits.foldl (fun (number : Int) c => number * 10 + (c.toInt - 48)) acc =
        (digits.foldl (fun n c => n * 10 + (c.toNat - 48)) acc : Nat) := by
    induction digits with
    | nil => exact fun _ => rfl
    | cons c digits ih =>
      intro acc
      obtain ⟨hlow, hhigh⟩ := h c List.mem_cons_self
      have hc : c.toInt = c.toNat := BitVec.toInt_eq_toNat_of_lt (by omega)
      rw [List.foldl_cons, List.foldl_cons, hc,
        ← ih fun d hd => h d (List.mem_cons_of_mem _ hd)]
      congr 1
      push_cast [hlow]
      omega
  exact hfold 0

section Numerals

variable (n : Numeral)

/-- Behind the sign, a numeral goes on with its digits. -/
theorem drop_firstIndex_text : n.text.drop (firstIndex n.text) = n.digits ++ n.fraction ∧
    (n.text.getD 0 0 = 0x2d ↔ n.negative = true) := by
  unfold Numeral.text Numeral.sign firstIndex
  cases n.negative with
  | true => simp
  | false =>
    obtain ⟨c, rest, hdigits⟩ := List.exists_cons_of_ne_nil n.nonempty
    have hc : ¬ c = 45#8 :=
      (digit_ne (n.decimal c (by rw [hdigits]; exact List.mem_cons_self))).1
    simp [hdigits, hc]

/-- The digits go up to the dot. -/
theorem takeWhile_text : (n.digits ++ n.fraction).takeWhile (· ≠ 0x2e) = n.digits ∧
    (n.digits ++ n.fraction).dropWhile (· ≠ 0x2e) = n.fraction := by
  have hdigits : ∀ c ∈ n.digits, decide (c ≠ (0x2e : Byte)) = true := fun c hc =>
    decide_eq_true (digit_ne (n.decimal c hc)).2.1
  rw [List.takeWhile_append_of_pos hdigits, List.dropWhile_append_of_pos hdigits]
  unfold Numeral.fraction
  cases n.zeros <;> simp

/-- `ReadInt` reads a numeral as its value. -/
theorem readIntValue_text :
    readIntValue n.text n.text.length = BitVec.ofInt 32 n.value := by
  obtain ⟨hdrop, hsign⟩ := drop_firstIndex_text n
  obtain ⟨htake, hrest⟩ := takeWhile_text n
  have hrefused : ¬ RefusedLine n.text false := by
    rintro ⟨-, c, hc, hne⟩
    rw [hdrop, hrest, Numeral.fraction] at hc
    cases hzeros : n.zeros with
    | none => simp [hzeros] at hc
    | some k =>
      simp only [hzeros, List.tail_cons, List.mem_replicate] at hc
      exact hne hc.2
  have hsummed : summed n.text false = n.digits := by
    rw [summed, hdrop, if_neg (by simp [n.nonempty]), htake]
  have hvalue := readIntValue_eq n.text false
  rw [if_neg hrefused, signedSum, hsummed, sum_digits n.decimal] at hvalue
  simp only [hsign] at hvalue
  exact hvalue

/-- The characters of a numeral. -/
theorem char_of_mem_text {c : Byte} (h : c ∈ n.text) :
    c = 0x2d ∨ c = 0x2e ∨ Decimal.IsDigit c := by
  simp only [Numeral.text, List.mem_append] at h
  rcases h with h | h | h
  · unfold Numeral.sign at h
    split at h
    · exact .inl (List.mem_singleton.mp h)
    · cases h
  · exact .inr (.inr (n.decimal c h))
  · unfold Numeral.fraction at h
    split at h
    · cases h
    · rcases List.mem_cons.mp h with rfl | h
      · exact .inr (.inl rfl)
      · rw [(List.mem_replicate.mp h).2]
        exact .inr (.inr (by decide))

/-- A numeral is stored as it is typed. -/
theorem mem_text {c : Byte} (h : c ∈ n.text) :
    c ≠ newline ∧ c ≠ EOF ∧ c ≠ ctrlA := by
  have hchar := char_of_mem_text n h
  revert hchar
  generalize c = d
  revert d
  decide

end Numerals

/-! ## The handler -/

section Handler

variable {host : Host} {W : Type}

/-- The answer of the console to a `Read` of 255 characters when a line is typed. -/
def Delivers (line : List Byte) (reply : Reply W) : Prop :=
  ∃ r, (Reader.start 255).readAll (line ++ [newline]) = some r ∧
    r.result = .ok reply.result ∧ r.stored = reply.data

/-- The lines for which `ReadInt` leaves the right value: numerals of an `int`, lines with something
else than zeros behind a dot, and those whose characters add up to 0 modulo `2 ^ 32`. -/
def ReadsRight (line : List Byte) : Prop :=
  (∃ n : Numeral, n.text = line ∧ FitsInt n.value) ∨
    RefusedLine (typed line) (decide (ctrlA ∈ line)) ∨
    (4294967296 : Int) ∣
      sum (summed (typed line) (decide (ctrlA ∈ line)))

theorem ofInt_eq_zero_iff (x : Int) : BitVec.ofInt 32 x = 0 ↔ (4294967296 : Int) ∣ x := by
  rw [← BitVec.toNat_inj, BitVec.toNat_ofInt]
  show (x % 4294967296).toNat = 0 ↔ _
  omega

/-- `handle_SC_ReadInt` leaves the value for the line in `r2`. -/
theorem handleReadInt_run (host : Host) {env : Env W} {k : Kernel W} {line : List Byte}
    (hline : newline ∉ line) (hlength : line.length ≤ 255) {reply : Reply W}
    (hserve : env.serve (.consoleRead 255) k.world k.machine.mainMemory = .ok reply)
    (hreply : Delivers line reply) :
    ∃ k', (handleReadInt env : Sys host W false Unit).run k = (.ok (), k') ∧
      k'.machine.registers R2 = readIntValue (typed line)
        (if decide (ctrlA ∈ line) then -1
          else ((typed line).length : Int)) := by
  obtain ⟨r, hall, hresult, hdata⟩ := hreply
  obtain ⟨r', hall', hstored, hresult'⟩ := readAll_line (by decide) hline hlength
  cases hall.symm.trans hall'
  have hresult : reply.result =
      if ctrlA ∈ line then -1 else ((typed line).length : Int) :=
    Except.ok.inj (hresult.symm.trans hresult')
  have hdata : reply.data.take (255 : Int).toNat = typed line := by
    rw [← hdata, hstored]
    exact List.take_of_length_le ((length_typed_le line).trans hlength)
  have hread : (Sys.consoleRead env 255 : Sys host W false _).run k =
      (.ok (typed line, if decide (ctrlA ∈ line) then -1
        else ((typed line).length : Int)), k.answered (.consoleRead 255) reply) := by
    rw [Sys.consoleRead, Confined.run_bind_ok (Sys.call_run hserve)]
    dsimp only
    rw [hdata, hresult]
    simp only [decide_eq_true_eq]
    split
    · rfl
    · rw [if_neg (by omega)]
      rfl
  refine ⟨_, Confined.run_bind_ok hread, ?_⟩
  exact (Machine.writeRegister_self ..).trans (BitVec.ofInt_toInt)

/-- For every line of at most 255 characters, `ReadInt` leaves in `r2` what it should exactly for
the lines that `ReadsRight` lists. -/
theorem readInt_grammar_iff (host : Host) {env : Env W} {k : Kernel W} {line : List Byte}
    (hline : newline ∉ line) (hlength : line.length ≤ 255) {reply : Reply W}
    (hserve : env.serve (.consoleRead 255) k.world k.machine.mainMemory = .ok reply)
    (hreply : Delivers line reply) :
    ∃ k', (handleReadInt env : Sys host W false Unit).run k = (.ok (), k') ∧
      (Expected line (k'.machine.registers R2).toInt ↔ ReadsRight line) := by
  obtain ⟨k', hrun, hr2⟩ := handleReadInt_run host hline hlength hserve hreply
  refine ⟨k', hrun, ?_⟩
  have hnumeral : ∀ n : Numeral, n.text = line → FitsInt n.value →
      (k'.machine.registers R2).toInt = n.value := by
    rintro n rfl hint
    rw [hr2, typed_eq_self fun c hc => (mem_text n hc).2,
      if_neg (by simpa using fun h => (mem_text n h).2.2 rfl), readIntValue_text]
    exact toInt_ofInt_of_fits hint
  by_cases hsome : ∃ n : Numeral, n.text = line ∧ FitsInt n.value
  · refine ⟨fun _ => .inl hsome, fun _ => ⟨hnumeral, fun hnone => ?_⟩⟩
    obtain ⟨n, htext, hint⟩ := hsome
    exact absurd hint (hnone n htext)
  · have hnone : ∀ n : Numeral, n.text = line → ¬ FitsInt n.value :=
      fun n htext hint => hsome ⟨n, htext, hint⟩
    have hexpected : Expected line (k'.machine.registers R2).toInt ↔
        k'.machine.registers R2 = 0 := by
      constructor
      · intro h
        exact BitVec.toInt_inj.mp (h.other hnone)
      · intro h
        refine ⟨fun n htext hint => absurd hint (hnone n htext), fun _ => ?_⟩
        rw [h]
        rfl
    rw [hexpected, hr2, readIntValue_eq, ReadsRight, or_iff_right hsome]
    split
    · rename_i hrefused
      exact ⟨fun _ => .inl hrefused, fun _ => rfl⟩
    · rename_i hrefused
      rw [or_iff_right hrefused, ofInt_eq_zero_iff, signedSum]
      split
      · rw [Int.dvd_neg]
      · exact Iff.rfl

/-- A keyboard on which one line is typed. -/
def keyboard (line : List Byte) : Env Unit where
  serve
    | .consoleRead numBytes, _, memory =>
      match (Reader.start numBytes.toNat).readAll (line ++ [newline]) with
      | none => .error .blocked
      | some r => match r.result with
          | .error _ => .error .undefined
          | .ok result => .ok ⟨result, r.stored, (), memory, false⟩
    | _, _, memory => .ok ⟨0, [], (), memory, false⟩
  uninit _ := 0
  floatValue _ _ := 0
  floatText _ := []

/-- The keyboard delivers its line. -/
theorem keyboard_serve (line : List Byte) (hline : newline ∉ line)
    (hlength : line.length ≤ 255) (memory : BlockWrite.Store Byte) :
    ∃ reply, (keyboard line).serve (.consoleRead 255) () memory = .ok reply ∧
      Delivers line reply := by
  obtain ⟨r, hall, hstored, hresult⟩ := readAll_line (by decide) hline hlength
  refine ⟨⟨if ctrlA ∈ line then -1 else ((typed line).length : Int),
    r.stored, (), memory, false⟩, ?_, r, hall, hresult, rfl⟩
  show (match (Reader.start (255 : Int).toNat).readAll
      (line ++ [newline]) with
    | none => Except.error Stop.blocked
    | some r => match r.result with
        | .error _ => .error .undefined
        | .ok result => .ok (⟨result, r.stored, (), memory, false⟩ : Reply Unit)) = _
  rw [show (255 : Int).toNat = 255 from rfl, hall]
  dsimp only
  rw [hresult]

/-- A kernel with empty memory and file table. -/
def emptyKernel : Kernel Unit :=
  ⟨⟨fun _ => 0, fun _ => 0, ⟨none, none⟩⟩, fun _ => none, (), []⟩

/-- `-12.00` is read as -12. -/
theorem readInt_grammar_minusTwelve : ∃ k',
    (handleReadInt (keyboard [0x2d, 0x31, 0x32, 0x2e, 0x30, 0x30]) :
      Sys .littleEndian Unit false Unit).run emptyKernel = (.ok (), k') ∧
    (k'.machine.registers R2).toInt = -12 := by
  let n : Numeral := ⟨true, [0x31, 0x32], some 2, by decide, by decide⟩
  obtain ⟨reply, hserve, hreply⟩ := keyboard_serve
    [0x2d, 0x31, 0x32, 0x2e, 0x30, 0x30] (by decide) (by decide)
    emptyKernel.machine.mainMemory
  obtain ⟨k', hrun, hiff⟩ := readInt_grammar_iff .littleEndian (k := emptyKernel)
    (by decide) (by decide) hserve hreply
  exact ⟨k', hrun, (hiff.mpr (.inl ⟨n, rfl, by decide⟩)).integer n rfl (by decide)⟩

/-- The empty line is read as -48, and `12a` as 169. -/
theorem readInt_accepts_others :
    (∃ k', (handleReadInt (keyboard []) : Sys .littleEndian Unit false Unit).run emptyKernel =
        (.ok (), k') ∧ (k'.machine.registers R2).toInt = -48 ∧
        ¬ Expected [] (k'.machine.registers R2).toInt) ∧
      ∃ k', (handleReadInt (keyboard [0x31, 0x32, 0x61]) :
        Sys .littleEndian Unit false Unit).run emptyKernel = (.ok (), k') ∧
        (k'.machine.registers R2).toInt = 169 ∧
        ¬ Expected [0x31, 0x32, 0x61] (k'.machine.registers R2).toInt := by
  constructor
  · obtain ⟨reply, hserve, hreply⟩ := keyboard_serve [] (by decide) (by decide)
      emptyKernel.machine.mainMemory
    obtain ⟨k', hrun, hr2⟩ := handleReadInt_run .littleEndian (k := emptyKernel)
      (by decide) (by decide) hserve hreply
    have hvalue : (k'.machine.registers R2).toInt = -48 := by
      rw [hr2]
      decide
    refine ⟨k', hrun, hvalue, fun h => ?_⟩
    have hzero := h.other fun n htext _ => n.nonempty (by simp_all [Numeral.text])
    rw [hvalue] at hzero
    cases hzero
  · obtain ⟨reply, hserve, hreply⟩ := keyboard_serve [0x31, 0x32, 0x61] (by decide)
      (by decide) emptyKernel.machine.mainMemory
    obtain ⟨k', hrun, hr2⟩ := handleReadInt_run .littleEndian (k := emptyKernel)
      (by decide) (by decide) hserve hreply
    have hvalue : (k'.machine.registers R2).toInt = 169 := by
      rw [hr2]
      decide
    refine ⟨k', hrun, hvalue, fun h => ?_⟩
    have hzero := h.other fun n htext _ => by
      have hchar := char_of_mem_text n (c := 0x61) (by rw [htext]; decide)
      revert hchar
      decide
    rw [hvalue] at hzero
    cases hzero

end Handler

end Syscall

end Nachos
