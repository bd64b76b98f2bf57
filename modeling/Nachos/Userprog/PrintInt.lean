import Nachos.Userprog.ReadInt

/-!
# Printing an integer

`handle_SC_PrintInt` writes the decimal numeral of the number in `r4`, and `handle_SC_ReadInt` reads
that numeral back, for every `int` but the least one: that one is its own negative, so its digits
are computed from negative remainders (`printInt_readInt_iff`).
-/

namespace Nachos

/-- The numeral of a number, without leading zeros. -/
def canonical (n : Int) : Numeral where
  negative := decide (n < 0)
  digits := Decimal.numeral n.natAbs
  zeros := none
  nonempty := Decimal.numeral_ne_nil _
  decimal := fun _ => Decimal.isDigit_of_mem_numeral

theorem value_canonical (n : Int) : (canonical n).value = n := by
  unfold Numeral.value canonical
  simp only [Decimal.value_numeral, decide_eq_true_eq]
  omega

theorem text_canonical (n : Int) : (canonical n).text =
    if n < 0 then 0x2d :: Decimal.numeral n.natAbs else Decimal.numeral n.natAbs := by
  simp only [Numeral.text, Numeral.sign, Numeral.fraction, canonical, decide_eq_true_eq,
    List.append_nil]
  split <;> rfl

namespace Syscall

/-! ## Digits -/

/-- The length counter counts the digits. -/
theorem numLength_eq {fuel m : Nat} (h : m < 10 ^ fuel) :
    numLength fuel m = (Nat.digits 10 m).length := by
  induction fuel generalizing m with
  | zero =>
    rw [show m = 0 by simpa using h]
    rfl
  | succ fuel ih =>
    rw [numLength]
    by_cases hm : m = 0
    · simp [hm]
    · have hdiv : ((m : Int)).tdiv 10 = (m / 10 : Nat) := by
        rw [Int.tdiv_eq_ediv_of_nonneg (by omega)]
        omega
      rw [if_neg (by omega), hdiv, ih (by rw [Nat.pow_succ] at h; omega),
        Nat.digits_def' (n := m) (by decide) (by omega), List.length_cons]

/-- The buffer is filled with the digits. -/
theorem fillDigits_eq (m : Nat) (buffer : List Byte) :
    fillDigits (Nat.digits 10 m).length m buffer =
      ((Nat.digits 10 m).map Decimal.digit).reverse ++ buffer := by
  induction m using Nat.strong_induction_on generalizing buffer with
  | _ m ih =>
    by_cases hm : m = 0
    · simp [hm, fillDigits]
    · have hdiv : ((m : Int)).tdiv 10 = (m / 10 : Nat) := by
        rw [Int.tdiv_eq_ediv_of_nonneg (by omega)]
        omega
      have hmod : BitVec.ofInt 8 (((m : Int)).tmod 10 + 48) = Decimal.digit (m % 10) := by
        rw [Int.tmod_eq_emod_of_nonneg (by omega), Decimal.digit, ← BitVec.ofInt_natCast]
        congr 1
        omega
      rw [Nat.digits_def' (by decide) (by omega), List.length_cons, fillDigits, hdiv, hmod,
        ih (m / 10) (by omega), List.map_cons, List.reverse_cons, List.append_assoc]
      rfl

/-- The digits of a positive `int`. -/
theorem fillDigits_numLength {m : Nat} (hpos : 0 < m) (h : m < 10000000000) :
    fillDigits (numLength 10 m) m [] = Decimal.numeral m := by
  rw [numLength_eq (by simpa using h), fillDigits_eq, List.append_nil, Decimal.numeral,
    if_neg (by omega)]

theorem numLength_numeral {m : Nat} (hpos : 0 < m) (h : m < 10000000000) :
    numLength 10 m = (Decimal.numeral m).length := by
  rw [numLength_eq (by simpa using h), Decimal.numeral, if_neg (by omega), List.length_reverse,
    List.length_map]

theorem numLength_le (fuel : Nat) (m : Int) : numLength fuel m ≤ fuel := by
  induction fuel generalizing m with
  | zero => exact Nat.le_refl _
  | succ fuel ih =>
    rw [numLength]
    split
    · exact Nat.zero_le _
    · exact Nat.succ_le_succ (ih _)

/-- The numeral of an `int` fits in the buffer of `ReadInt`. -/
theorem length_text_canonical (n : BitVec 32) : (canonical n.toInt).text.length ≤ 255 := by
  have hlow := BitVec.le_toInt n
  have hhigh := BitVec.toInt_lt (x := n)
  have hlength : (Decimal.numeral n.toInt.natAbs).length ≤ 10 := by
    by_cases hzero : n.toInt.natAbs = 0
    · simp [hzero, Decimal.numeral]
    · rw [← numLength_numeral (by omega) (by omega)]
      exact numLength_le 10 _
  rw [text_canonical]
  split
  · rw [List.length_cons]
    omega
  · omega

/-! ## The handlers -/

section Handler

variable {host : Host} {W V : Type}

/-- The console has been given these bytes, and nothing else has been asked for. -/
def Wrote (k k' : Kernel W) (bytes : List Byte) : Prop :=
  ∃ result, k'.log = k.log ++ [(.consoleWrite bytes, result)]

/-- The bytes that `PrintInt` writes for a number. -/
def printed (number : BitVec 32) : List Byte :=
  if number = 0 then [0x30]
  else if number.toInt < 0 then
    0x2d :: fillDigits (numLength 10 (number * -1).toInt) (number * -1).toInt []
  else fillDigits (numLength 10 number.toInt) number.toInt []

theorem length_fillDigits (n : Nat) (number : Int) (buffer : List Byte) :
    (fillDigits n number buffer).length = n + buffer.length := by
  induction n generalizing number buffer with
  | zero => simp [fillDigits]
  | succ n ih =>
    rw [fillDigits, ih, List.length_cons]
    omega

/-- A call of `Write` for a whole buffer. -/
theorem consoleWrite_run (host : Host) {env : Env W} {k : Kernel W}
    (hserve : ∀ bytes, ∃ reply, env.serve (.consoleWrite bytes) k.world k.machine.mainMemory =
      .ok reply) (bytes : List Byte) (numBytes : Int) (hlength : numBytes = bytes.length) :
    ∃ k', (Sys.consoleWrite env bytes numBytes : Sys host W false Int).run k = (.ok numBytes, k') ∧
      Wrote k k' bytes := by
  obtain ⟨reply, hreply⟩ := hserve bytes
  have hbytes : (List.range numBytes.toNat).map (bytes.getD · 0) = bytes := by
    rw [hlength, Int.toNat_natCast]
    exact map_range_eq fun _ _ => rfl
  refine ⟨k.answered (.consoleWrite bytes) reply, ?_, reply.result, rfl⟩
  rw [Sys.consoleWrite, hbytes, Confined.run_bind_ok (Sys.call_run hreply)]
  rfl

/-- `handle_SC_PrintInt` returns after one call of `Write`. -/
theorem handlePrintInt_run (host : Host) {env : Env W} {k : Kernel W}
    (hserve : ∀ bytes, ∃ reply, env.serve (.consoleWrite bytes) k.world k.machine.mainMemory =
      .ok reply) :
    ∃ k', (handlePrintInt env : Sys host W false Unit).run k = (.ok (), k') ∧
      Wrote k k' (printed (k.machine.registers R4)) := by
  unfold handlePrintInt printed
  rw [Sys.run_reg_bind]
  dsimp only
  split
  · obtain ⟨k', hrun, hwrote⟩ := consoleWrite_run host hserve [0x30] 1 rfl
    exact ⟨k', Confined.run_bind_ok hrun, hwrote⟩
  · split
    · obtain ⟨k', hrun, hwrote⟩ := consoleWrite_run host hserve
        (0x2d :: fillDigits (numLength 10 (k.machine.registers R4 * -1).toInt)
          (k.machine.registers R4 * -1).toInt [])
        ((numLength 10 (k.machine.registers R4 * -1).toInt : Int) + 1)
        (by rw [List.length_cons, length_fillDigits]; simp)
      exact ⟨k', Confined.run_bind_ok hrun, hwrote⟩
    · obtain ⟨k', hrun, hwrote⟩ := consoleWrite_run host hserve
        (fillDigits (numLength 10 (k.machine.registers R4).toInt)
          (k.machine.registers R4).toInt [])
        (numLength 10 (k.machine.registers R4).toInt : Int)
        (by rw [length_fillDigits]; simp)
      exact ⟨k', Confined.run_bind_ok hrun, hwrote⟩

/-- The numeral is printed exactly for the numbers other than the least `int`. -/
theorem printed_eq_iff (n : BitVec 32) :
    printed n = (canonical n.toInt).text ↔ n ≠ 0x80000000 := by
  have hlow := BitVec.le_toInt n
  have hhigh := BitVec.toInt_lt (x := n)
  constructor
  · rintro h rfl
    have hchar := char_of_mem_text (canonical (0x80000000 : BitVec 32).toInt) (c := 0x28)
      (by rw [← h]; decide)
    revert hchar
    decide
  · intro hmin
    have hmin : n.toInt ≠ -2147483648 := fun h =>
      hmin (BitVec.toInt_inj.mp (h.trans (by decide)))
    rw [text_canonical, printed]
    split
    · rename_i hzero
      subst hzero
      decide
    · rename_i hzero
      have hzero : n.toInt ≠ 0 := fun h => hzero (BitVec.toInt_inj.mp (h.trans (by decide)))
      split
      · rename_i hneg
        have hneg' : (n * -1).toInt = (n.toInt.natAbs : Int) := by
          rw [show n * -1 = -n from (BitVec.mul_neg ..).trans (congrArg Neg.neg (BitVec.mul_one n)),
            BitVec.toInt_neg, Int.bmod_eq_of_le (by omega) (by omega)]
          omega
        rw [hneg', fillDigits_numLength (by omega) (by omega)]
      · rename_i hpos
        have habs : n.toInt = (n.toInt.natAbs : Int) := by omega
        rw [show fillDigits (numLength 10 n.toInt) n.toInt [] =
          fillDigits (numLength 10 (n.toInt.natAbs : Int)) (n.toInt.natAbs : Int) [] by
            rw [← habs], fillDigits_numLength (by omega) (by omega)]

/-- `PrintInt` writes the numeral of the number in `r4`, and `ReadInt`, when that numeral is typed,
leaves the number in `r2`, exactly if the number is not the least `int`. -/
theorem printInt_readInt_iff (host : Host) {env : Env W} {k : Kernel W}
    (hwrite : ∀ bytes, ∃ reply, env.serve (.consoleWrite bytes) k.world k.machine.mainMemory =
      .ok reply) {env₁ : Env V} (k₁ : Kernel V) {reply : Reply V}
    (hread : env₁.serve (.consoleRead 255) k₁.world k₁.machine.mainMemory = .ok reply)
    (hreply : Delivers (canonical (k.machine.registers R4).toInt).text reply) :
    ∃ k' k₂, (handlePrintInt env : Sys host W false Unit).run k = (.ok (), k') ∧
      (handleReadInt env₁ : Sys host V false Unit).run k₁ = (.ok (), k₂) ∧
      (Wrote k k' (canonical (k.machine.registers R4).toInt).text ∧
          k₂.machine.registers R2 = k.machine.registers R4 ↔
        k.machine.registers R4 ≠ 0x80000000) := by
  generalize hn : k.machine.registers R4 = n at hreply ⊢
  obtain ⟨k', hrun, hwrote⟩ := handlePrintInt_run host hwrite
  obtain ⟨k₂, hrun₂, hr2⟩ := handleReadInt_run host
    (fun h => (mem_text _ h).1 rfl) (length_text_canonical n) hread hreply
  refine ⟨k', k₂, hrun, hrun₂, ?_⟩
  have hback : k₂.machine.registers R2 = n := by
    rw [hr2, ConsoleRead.typed_eq_self fun c hc => (mem_text _ hc).2,
      if_neg (by simpa using fun h => (mem_text _ h).2.2 rfl), readIntValue_text,
      value_canonical, BitVec.ofInt_toInt]
  rw [hn] at hwrote
  rw [← printed_eq_iff, and_iff_left hback]
  constructor
  · rintro ⟨result, hlog⟩
    obtain ⟨result', hlog'⟩ := hwrote
    have hlast := List.append_cancel_left (hlog'.symm.trans hlog)
    simp only [List.cons.injEq, Prod.mk.injEq, Call.consoleWrite.injEq] at hlast
    exact hlast.1.1
  · intro heq
    exact heq ▸ hwrote

/-- A kernel with a number in `r4`. -/
def printingKernel (n : BitVec 32) : Kernel Unit :=
  { emptyKernel with machine := emptyKernel.machine.writeRegister R4 n }

theorem keyboard_write (line : List Byte) (k : Kernel Unit) (bytes : List Byte) :
    ∃ reply, (keyboard line).serve (.consoleWrite bytes) k.world k.machine.mainMemory =
      .ok reply := ⟨_, rfl⟩

/-- The `int` above the least. -/
theorem printInt_readInt_aboveLeast : ∃ k' k₂,
    (handlePrintInt (keyboard []) : Sys .littleEndian Unit false Unit).run
      (printingKernel 0x80000001) = (.ok (), k') ∧
    (handleReadInt (keyboard (canonical (0x80000001 : BitVec 32).toInt).text) :
      Sys .littleEndian Unit false Unit).run emptyKernel = (.ok (), k₂) ∧
    Wrote (printingKernel 0x80000001) k' (canonical (0x80000001 : BitVec 32).toInt).text ∧
    k₂.machine.registers R2 = 0x80000001 := by
  -- the number stays a variable, so that its numeral is not computed
  generalize hn : (0x80000001 : BitVec 32) = n
  have hr4 : (printingKernel n).machine.registers R4 = n := Machine.writeRegister_self ..
  obtain ⟨reply, hserve, hreply⟩ := keyboard_serve (canonical n.toInt).text
    (fun h => (mem_text _ h).1 rfl) (length_text_canonical n) emptyKernel.machine.mainMemory
  obtain ⟨k', k₂, hprint, hread, hiff⟩ := printInt_readInt_iff .littleEndian
    (k := printingKernel n) (keyboard_write [] _) emptyKernel hserve
    (by rw [hr4]; exact hreply)
  rw [hr4] at hiff
  exact ⟨k', k₂, hprint, hread, hiff.mpr (by rw [← hn]; decide)⟩

/-- For the least `int`, `PrintInt` writes `-./,),(-*,(`. -/
theorem printInt_least : ∃ k', (handlePrintInt (keyboard []) :
      Sys .littleEndian Unit false Unit).run (printingKernel 0x80000000) = (.ok (), k') ∧
    Wrote (printingKernel 0x80000000) k'
      [0x2d, 0x2e, 0x2f, 0x2c, 0x29, 0x2c, 0x28, 0x2d, 0x2a, 0x2c, 0x28] ∧
    [0x2d, 0x2e, 0x2f, 0x2c, 0x29, 0x2c, 0x28, 0x2d, 0x2a, 0x2c, 0x28] ≠
      (canonical (0x80000000 : BitVec 32).toInt).text := by
  have hprinted : printed 0x80000000 =
      [0x2d, 0x2e, 0x2f, 0x2c, 0x29, 0x2c, 0x28, 0x2d, 0x2a, 0x2c, 0x28] := by decide
  obtain ⟨k', hrun, hwrote⟩ := handlePrintInt_run .littleEndian
    (k := printingKernel 0x80000000) (keyboard_write [] _)
  rw [show (printingKernel 0x80000000).machine.registers R4 = 0x80000000 from
    Machine.writeRegister_self .., hprinted] at hwrote
  exact ⟨k', hrun, hwrote, fun h => (printed_eq_iff _).mp (hprinted.trans h) rfl⟩

end Handler

end Syscall

end Nachos
