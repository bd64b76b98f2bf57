import Nachos.Test.Tokens

/-!
# The token is passed on

One step of each of the three programs keeps the one token of the luggage demo, and so does every
run. While there is one token, `scannersmain` reads `scannerid.txt` only when `scanners` has closed
it and writes `passengers.txt` only when `passengers` does not read it, and `scanners` reads
`lugweight.txt` only while `passengers` waits for it.
-/

namespace Nachos.Luggage

open Slots Transition

section Steps

variable {input : List Byte} {K : Nat} {s s' : State} {lm lp lc : List (Nat × Descriptor)}
  {side : Side} {files : Files} {own leaked : List (Nat × Descriptor)} {o i : Nat}
  {text lug : List Byte} {v : View} {p : Passengers} {m : ScannersMain} {control : MainControl}
  {k : Nat} {c : Scanners}

/-! ## Steps of `scannersmain` -/

/-- The test `while (numPoint--)`, with the line before done. -/
theorem stage_loop (v : View) (hbetween : v.main.Between input lm)
    (hleaks : lp.length + 2 * v.main.numPoint = 2 * K) (hp : Ready v.passengers side)
    (htokens : v.Tokens 0 0 0) : Stage input K { v with main := v.main.loop } lm lp side := by
  obtain ⟨cursor, hidle, horderly⟩ := hbetween
  cases hn : v.main.numPoint with
  | zero =>
    have hloop : v.main.loop = { v.main with control := .closeInput } := if_pos hn
    rw [hloop]
    exact .stopping (.closeInput rfl hidle) (by omega) (.inl hp) htokens
  | succ n =>
    have hloop : v.main.loop = { v.main with numPoint := n, control := .createPassengers } := by
      rw [ScannersMain.loop, if_neg (by omega), hn]
      rfl
    rw [hn] at horderly
    rw [hloop]
    refine .preparing (.create rfl hidle horderly) ?_ hp htokens
    show lp.length + 2 * n + 2 = 2 * K
    omega

/-- `scannersmain` goes on preparing the line. -/
theorem tokened_preparing (hp : Ready s.passengers side) (htokens : s.view.Tokens 0 0 0)
    (hholds : side.Holds s.sems.maincounter s.scanners lc)
    (hleaks : lp.length + 2 * m.numPoint + 2 = 2 * K) (howns : Owns files (lists own lp lc))
    (hpresent : Present input files.contents) (hm : Preparing input files.contents m own) :
    Tokened input K { s with files := files, main := m } :=
  ⟨own, lp, lc, side, howns, hpresent, .preparing hm hleaks hp htokens, hholds⟩

/-- `scannersmain` reads a byte of the line, or finds that the line has ended. -/
theorem readInput_step {c w : Nat}
    (h : Orchestrated input K s ((w, ⟨.passengers, o⟩) :: own) lp lc side)
    (hleaks : lp.length + 2 * s.main.numPoint + 2 = 2 * K) (hp : Ready s.passengers side)
    (htokens : s.view.Tokens 0 0 0) (hm : s.main.control = .readInput) (hidle : s.main.Idle c own)
    (hw : s.main.writePassengers = some w) (hfile : s.files.contents .passengers = some text)
    (hnew : newline ∉ text) (hline : text ≠ [] ∨ ∃ b ∈ restOfLine input c, b ≠ 0)
    (horderly : Orderly input s.main.numPoint (afterLine input c)) (hstep : stepMain s = .ok s') :
    Tokened input K s' := by
  obtain ⟨i, j, q, hi, hj, rfl⟩ := hidle
  -- where the line ends, the text has something in it
  have hfull (hrest : restOfLine input c = []) : Line s.files.contents text := by
    rw [hrest] at hline
    exact ⟨hfile, hline.resolve_right fun ⟨b, hmem, _⟩ => List.not_mem_nil hmem, hnew⟩
  cases hb : input[c]? with
  | none =>
    obtain ⟨hrest, hafter⟩ := restOfLine_of_none hb
    obtain ⟨table, hread, howns⟩ :=
      h.owns.readF .scannersmain [(w, ⟨.passengers, o⟩)] hi rfl h.present.1 hb
    simp only [stepMain, hm, hread] at hstep
    cases hstep
    rw [hafter] at horderly
    refine tokened_preparing hp htokens h.holds hleaks howns h.present ?_
    exact .close rfl ⟨0, ⟨i, j, q, hi, hj, rfl⟩, horderly⟩ hw (hfull hrest)
  | some b =>
    obtain ⟨table, hread, howns⟩ :=
      h.owns.readF .scannersmain [(w, ⟨.passengers, o⟩)] hi rfl h.present.1 hb
    simp only [stepMain, hm, hread] at hstep
    split at hstep
    · cases hstep
    cases hstep
    refine tokened_preparing hp htokens h.holds hleaks howns h.present ?_
    by_cases hend : b = newline
    · subst hend
      obtain ⟨hrest, hafter⟩ := restOfLine_of_newline hb
      rw [hafter] at horderly
      exact .close rfl ⟨c + 1, ⟨i, j, q, hi, hj, rfl⟩, horderly⟩ hw (hfull hrest)
    · obtain ⟨hrest, hafter⟩ := restOfLine_of_some hb hend
      rw [hafter] at horderly
      have hline' : text ≠ [] ∨ b ≠ 0 ∨ ∃ b ∈ restOfLine input (c + 1), b ≠ 0 := by
        simpa only [hrest, List.mem_cons, exists_eq_or_imp] using hline
      exact .write (if_neg hend) ⟨i, j, q, hi, hj, rfl⟩ hw hfile hnew hend hline' horderly

/-- `scannersmain` copies a line of the input to `passengers.txt` and hands the token over. -/
theorem preparing_step (h : Orchestrated input K s lm lp lc side) (hK : K ≤ 47)
    (hm : Preparing input s.files.contents s.main lm)
    (hleaks : lp.length + 2 * s.main.numPoint + 2 = 2 * K) (hp : Ready s.passengers side)
    (htokens : s.view.Tokens 0 0 0) (hstep : stepMain s = .ok s') : Tokened input K s' := by
  cases hm with
  | create hm hidle horderly =>
    simp only [stepMain, hm] at hstep
    cases hstep
    refine tokened_preparing hp htokens h.holds hleaks h.owns h.present ?_
    exact .open_ rfl hidle horderly rfl
  | open_ hm hidle horderly hfile =>
    obtain ⟨w, table, hopen, howns⟩ := h.owns.openF (h.exists_free hK) hfile .scannersmain
    simp only [stepMain, hm, hopen] at hstep
    cases hstep
    refine tokened_preparing hp htokens h.holds hleaks howns h.present ?_
    exact .read rfl hidle rfl hfile List.not_mem_nil (.inr horderly.1) horderly.2
  | read hm hidle hw hfile hnew hline horderly =>
    exact readInput_step h hleaks hp htokens hm hidle hw hfile hnew hline horderly hstep
  | @write c w o own text hm hidle hw hfile hnew htemp hline horderly =>
    obtain ⟨p, table, hwrite, howns⟩ :=
      h.owns.writeF .scannersmain [] hw rfl hfile [s.main.tempbuffer]
    simp only [stepMain, hm, hwrite] at hstep
    cases hstep
    have hline' : Files.written text o [s.main.tempbuffer] ≠ [] ∨
        ∃ b ∈ restOfLine input c, b ≠ 0 := by
      rcases hline with hne | hb | hrest
      · exact .inl (written_ne_nil hne)
      · exact .inl (List.ne_nil_of_mem (mem_written_self hb))
      · exact .inr hrest
    refine tokened_preparing hp htokens h.holds hleaks howns h.present ?_
    exact .read rfl hidle hw rfl (newline_not_mem_written hnew htemp) hline' horderly
  | close hm hbetween hw hline =>
    obtain ⟨table, hclose, howns⟩ := h.owns.closeF .scannersmain hw rfl
    simp only [stepMain, hm, hclose] at hstep
    cases hstep
    refine tokened_preparing hp htokens h.holds hleaks howns h.present ?_
    exact .up rfl hbetween hline
  | up hm hbetween hline =>
    simp only [stepMain, hm] at hstep
    cases hstep
    exact ⟨lm, lp, lc, side, h.owns, h.present,
      .toPassengers ⟨rfl, hbetween, hline, hleaks⟩ hp
        ⟨htokens.1, congrArg (· + 1) htokens.2.1, htokens.2.2⟩, h.holds⟩

theorem readingId_cases (h : control.readingId = true) :
    control = .readScannerId ∨ control = .writeId ∨ control = .writeSpaces ∨
      control = .writeEndline ∨ control = .closeScannerId := by
  cases control <;> simp [MainControl.readingId] at h ⊢

/-- `scannersmain` goes on reading `scannerid.txt`. -/
theorem tokened_reporting (hp : s.passengers.control = .downPassengers)
    (htokens : s.view.Tokens 0 0 0) (hholds : Side.gone.Holds s.sems.maincounter s.scanners lc)
    (hleaks : lp.length + 2 * m.numPoint = 2 * K) (howns : Owns files (lists own lp lc))
    (hpresent : Present input files.contents) (hm : Reporting input m own) :
    Tokened input K { s with files := files, main := m } :=
  ⟨own, lp, lc, .gone, howns, hpresent, .reporting hm hleaks hp htokens, hholds⟩

/-- A write to the output leaves the other files as they are. -/
theorem writeOutput_step {r : Nat}
    (h : Orchestrated input K s ((r, ⟨.scannerid, o⟩) :: own) lp lc .gone)
    (hleaks : lp.length + 2 * s.main.numPoint = 2 * K)
    (hp : s.passengers.control = .downPassengers) (htokens : s.view.Tokens 0 0 0)
    (hbetween : s.main.Between input own) (hr : s.main.readScannerId = some r)
    (hcontrol : control.readingId = true) (bytes : List Byte) :
    Tokened input K { s with
      files := s.files.writeF s.main.writeOutput bytes
      main := { s.main with control := control } } := by
  obtain ⟨cursor, ⟨i, j, q, hi, hj, rfl⟩, horderly⟩ := hbetween
  obtain ⟨text, hout⟩ := h.present.2.1
  obtain ⟨p, table, hwrite, howns⟩ := h.owns.writeF .scannersmain
    [(r, ⟨.scannerid, o⟩), (i, ⟨.input, cursor⟩)] hj rfl hout bytes
  rw [hwrite]
  refine tokened_reporting hp htokens h.holds hleaks howns
    ⟨h.present.1, ⟨_, rfl⟩, h.present.2.2⟩ ?_
  exact .read hcontrol ⟨cursor, ⟨i, j, p, hi, hj, rfl⟩, horderly⟩ hr

/-- `scannersmain` copies `scannerid.txt` to the output and lets `scanners` go on with the next
line. -/
theorem reporting_step (h : Orchestrated input K s lm lp lc .gone) (hK : K ≤ 47)
    (hm : Reporting input s.main lm) (hleaks : lp.length + 2 * s.main.numPoint = 2 * K)
    (hp : s.passengers.control = .downPassengers) (htokens : s.view.Tokens 0 0 0)
    (hstep : stepMain s = .ok s') : Tokened input K s' := by
  obtain ⟨idText, hid⟩ := h.present.2.2
  cases hm with
  | open_ hm hbetween =>
    obtain ⟨r, table, hopen, howns⟩ := h.owns.openF (h.exists_free hK) hid .scannersmain
    simp only [stepMain, hm, hopen] at hstep
    cases hstep
    refine tokened_reporting hp htokens h.holds hleaks howns h.present ?_
    exact .read rfl hbetween rfl
  | @read r o own hm hbetween hr =>
    rcases readingId_cases hm with hc | hc | hc | hc | hc
    · cases hb : idText[o]? with
      | none =>
        obtain ⟨table, hread, howns⟩ := h.owns.readF .scannersmain [] hr rfl hid hb
        simp only [stepMain, hc, hread] at hstep
        cases hstep
        refine tokened_reporting hp htokens h.holds hleaks howns h.present ?_
        exact .read rfl hbetween hr
      | some b =>
        obtain ⟨table, hread, howns⟩ := h.owns.readF .scannersmain [] hr rfl hid hb
        simp only [stepMain, hc, hread] at hstep
        cases hstep
        refine tokened_reporting hp htokens h.holds hleaks howns h.present ?_
        exact .read rfl hbetween hr
    · simp only [stepMain, hc] at hstep
      cases hstep
      exact writeOutput_step h hleaks hp htokens hbetween hr rfl _
    · simp only [stepMain, hc] at hstep
      cases hstep
      exact writeOutput_step h hleaks hp htokens hbetween hr rfl _
    · simp only [stepMain, hc] at hstep
      cases hstep
      exact writeOutput_step h hleaks hp htokens hbetween hr rfl _
    · obtain ⟨table, hclose, howns⟩ := h.owns.closeF .scannersmain hr rfl
      simp only [stepMain, hc, hclose] at hstep
      cases hstep
      refine tokened_reporting hp htokens h.holds hleaks howns h.present ?_
      exact .up rfl hbetween
  | up hm hbetween =>
    simp only [stepMain, hm] at hstep
    cases hstep
    obtain ⟨hcounter, hout, rfl⟩ := h.holds
    exact ⟨lm, lp, [], .turn, h.owns, h.present,
      stage_loop s.view hbetween hleaks (.idle hp) htokens,
      .due (congrArg (· + 1) hcounter) hout⟩

/-- `scannersmain` closes its files. -/
theorem stopping_step (h : Orchestrated input K s lm lp lc side) (hm : Stopping s.main lm)
    (hleaks : lp.length ≤ 2 * K)
    (hp : Ready s.passengers side ∨ s.passengers.control = .unborn ∧ side = .gone)
    (htokens : s.view.Tokens 0 0 0) (hstep : stepMain s = .ok s') : Tokened input K s' := by
  cases hm with
  | closeInput hm hidle =>
    obtain ⟨i, j, q, hi, hj, rfl⟩ := hidle
    obtain ⟨table, hclose, howns⟩ := h.owns.closeF .scannersmain hi rfl
    simp only [stepMain, hm, hclose] at hstep
    cases hstep
    exact ⟨_, lp, lc, side, howns, h.present,
      .stopping (.closeOutput rfl hj) hleaks hp htokens, h.holds⟩
  | closeOutput hm hj =>
    obtain ⟨table, hclose, howns⟩ := h.owns.closeF .scannersmain hj rfl
    simp only [stepMain, hm, hclose] at hstep
    cases hstep
    exact ⟨_, lp, lc, side, howns, h.present,
      .stopping (.returned rfl (Nat.zero_le 2)) hleaks hp htokens, h.holds⟩
  | returned hm hlength =>
    simp only [stepMain, hm] at hstep
    cases hstep

/-- `scannersmain` waits as long as it has not been woken up. -/
theorem downMain_refused (hm : s.main.control = .downMain) (htoken : s.sems.main = 0) :
    stepMain s ≠ .ok s' := by
  intro hstep
  simp only [stepMain, hm, if_pos htoken] at hstep
  cases hstep

/-- A step of `scannersmain` leaves one token. -/
theorem stepMain_keeps (h : Orchestrated input K s lm lp lc side) (hK : K ≤ 47)
    (hstep : stepMain s = .ok s') : Tokened input K s' := by
  cases h.stage with
  | execPassengers hm hbetween hlines hp htokens =>
    have hm : s.main.control = .execPassengers := hm
    simp only [stepMain, hm] at hstep
    cases hstep
    exact ⟨lm, [], lc, .unborn 0, h.owns, h.present,
      .execScanners rfl hbetween hlines (.inl ⟨rfl, rfl⟩) htokens, h.holds⟩
  | execScanners hm hbetween hlines hp htokens =>
    have hm : s.main.control = .execScanners := hm
    simp only [stepMain, hm] at hstep
    cases hstep
    obtain ⟨hcounter, _, rfl⟩ := h.holds
    have hleaks : 0 + 2 * s.main.numPoint = 2 * K := by
      rw [Nat.zero_add]
      exact congrArg (2 * ·) hlines
    rcases hp with ⟨hp, rfl⟩ | ⟨hp, rfl⟩
    · exact ⟨lm, [], [], .gone, h.owns, h.present,
        stage_loop s.view hbetween hleaks (.starting hp) htokens,
        hcounter, .inr rfl, rfl⟩
    · exact ⟨lm, [], [], .turn, h.owns, h.present,
        stage_loop s.view hbetween hleaks (.idle hp) htokens,
        .due hcounter (.inr rfl)⟩
  | preparing hm hleaks hp htokens => exact preparing_step h hK hm hleaks hp htokens hstep
  | toPassengers hm hp htokens => exact absurd hstep (downMain_refused hm.control htokens.1)
  | working hm hp htokens => exact absurd hstep (downMain_refused hm.control htokens.1)
  | toScanners hm hp htokens => exact absurd hstep (downMain_refused hm.control htokens.1)
  | scanning hm hp htokens => exact absurd hstep (downMain_refused hm.control htokens.1)
  | scanned hm hp hside htokens => exact absurd hstep (downMain_refused hm.control htokens.1)
  | resuming hm hp hside htokens => exact absurd hstep (downMain_refused hm.control htokens.1)
  | finishing hm hp htokens => exact absurd hstep (downMain_refused hm.control htokens.1)
  | toMain hm hp htokens =>
    have hcontrol : s.main.control = .downMain := hm.control
    have hone : s.sems.main = 1 := htokens.1
    simp only [stepMain, hcontrol, if_neg (hone.symm ▸ Nat.one_ne_zero)] at hstep
    cases hstep
    exact ⟨lm, lp, lc, .gone, h.owns, h.present,
      .reporting (.open_ rfl hm.between) hm.leaks hp
        ⟨congrArg (· - 1) hone, htokens.2⟩, h.holds⟩
  | reporting hm hleaks hp htokens => exact reporting_step h hK hm hleaks hp htokens hstep
  | stopping hm hleaks hp htokens => exact stopping_step h hm hleaks hp htokens hstep

/-! ## Steps of `passengers` -/

theorem Busy.congr {v' : View} (h : Busy input K v lm text leaked) (hmain : v'.main = v.main)
    (hfile : v'.contents .passengers = v.contents .passengers) :
    Busy input K v' lm text leaked := by
  refine ⟨?_, ?_, ⟨hfile.trans h.line.file, h.line.nonempty, h.line.noNewline⟩, ?_⟩ <;> rw [hmain]
  · exact h.control
  · exact h.between
  · exact h.leaks

theorem Passengers.loop_of_lt (h : p.filePointer < p.fileLength) :
    p.loop = { p with control := .readPassengers } := by
  rw [Passengers.loop, if_pos h]

/-- Behind a byte of the line, `lugweight.txt` holding no newline yet. -/
theorem working_endLug {contents : FileName → Option (List Byte)} (hcarry : Carrying p text i)
    (hk : p.writeLugWeight = some k) (hlug : contents .lugweight = some lug)
    (hnew : newline ∉ lug) :
    Working contents p.endLug text
      [(k, ⟨.lugweight, o⟩), (i, ⟨.passengers, p.filePointer + 1⟩)] := by
  obtain ⟨hid, hlength, hpointer⟩ := hcarry
  rw [Passengers.endLug]
  split
  · rename_i hlast
    exact .endline rfl ⟨hid, hlength, hpointer⟩ hk hlug hlast
  rename_i hlast
  split
  · exact .closeLug rfl ⟨hid, hlength, hpointer⟩ hk ⟨hlug, iff_of_false hnew hlast⟩
  · have hlt : p.filePointer + 1 < p.fileLength := by omega
    rw [Passengers.loop_of_lt hlt]
    exact .read rfl ⟨hid, hlength, hlength ▸ hlt⟩ hk hlug hnew

/-- `passengers` goes on splitting the line. -/
theorem tokened_working (own : List (Nat × Descriptor)) (hm : Busy input K s.view lm text leaked)
    (htokens : s.view.Tokens 0 0 0) (hholds : Side.turn.Holds s.sems.maincounter s.scanners lc)
    (howns : Owns files (lists lm (own ++ leaked) lc)) (hpresent : Present input files.contents)
    (hfile : files.contents .passengers = s.files.contents .passengers)
    (hp : Working files.contents p text own) :
    Tokened input K { s with files := files, passengers := p } :=
  ⟨lm, own ++ leaked, lc, .turn, howns, hpresent, .working (hm.congr rfl hfile) hp htokens, hholds⟩

/-- A step of the loop of `getFileLength`. -/
theorem readLength_step (h : Orchestrated input K s lm
      ([(i, ⟨.passengers, s.passengers.fileLength⟩)] ++ leaked) lc .turn)
    (hm : Busy input K s.view lm text leaked) (htokens : s.view.Tokens 0 0 0)
    (hp : s.passengers.control = .readLength) (hid : s.passengers.readPassengers = some i)
    (hlength : s.passengers.fileLength ≤ text.length) (hstep : stepPassengers s = .ok s') :
    Tokened input K s' := by
  cases hb : text[s.passengers.fileLength]? with
  | none =>
    obtain ⟨table, hread, howns⟩ := h.owns.readF .passengers [] hid rfl hm.line.file hb
    simp only [stepPassengers, hp, hread] at hstep
    cases hstep
    refine tokened_working [_] hm htokens h.holds howns h.present rfl ?_
    exact .close rfl hid (Nat.le_antisymm hlength (List.getElem?_eq_none_iff.mp hb))
  | some b =>
    obtain ⟨table, hread, howns⟩ := h.owns.readF .passengers [] hid rfl hm.line.file hb
    simp only [stepPassengers, hp, hread] at hstep
    cases hstep
    obtain ⟨hlt, _⟩ := List.getElem?_eq_some_iff.mp hb
    refine tokened_working [_] hm htokens h.holds howns h.present rfl ?_
    exact .length rfl hid hlt

/-- `passengers` finds out how long the line is and writes the bytes of a weight. -/
theorem working_step (h : Orchestrated input K s lm (own ++ leaked) lc .turn) (hK : K ≤ 47)
    (hm : Busy input K s.view lm text leaked)
    (hp : Working s.files.contents s.passengers text own) (htokens : s.view.Tokens 0 0 0)
    (hstep : stepPassengers s = .ok s') : Tokened input K s' := by
  cases hp with
  | create hp =>
    simp only [stepPassengers, hp] at hstep
    cases hstep
    refine tokened_working [] hm htokens h.holds h.owns
      ⟨h.present.1, h.present.2.1, _, rfl⟩ rfl ?_
    exact .open_ rfl
  | open_ hp =>
    obtain ⟨i, table, hopen, howns⟩ :=
      h.owns.openF (h.exists_free hK) hm.line.file .passengers
    simp only [stepPassengers, hp, hopen] at hstep
    cases hstep
    refine tokened_working [_] hm htokens h.holds howns h.present rfl ?_
    exact .length rfl rfl (Nat.zero_le _)
  | length hp hid hlength => exact readLength_step h hm htokens hp hid hlength hstep
  | close hp hid hlength =>
    obtain ⟨table, hclose, howns⟩ := h.owns.closeF .passengers hid rfl
    simp only [stepPassengers, hp, hclose] at hstep
    cases hstep
    refine tokened_working [] hm htokens h.holds howns h.present rfl ?_
    exact .reopen rfl hlength
  | reopen hp hlength =>
    obtain ⟨i, table, hopen, howns⟩ :=
      h.owns.openF (h.exists_free hK) hm.line.file .passengers
    simp only [stepPassengers, hp, hopen] at hstep
    cases hstep
    refine tokened_working [_] hm htokens h.holds howns h.present rfl ?_
    exact .createLug rfl rfl hlength
  | createLug hp hid hlength =>
    simp only [stepPassengers, hp] at hstep
    cases hstep
    refine tokened_working [_] hm htokens h.holds h.owns h.present rfl ?_
    exact .openLug rfl hid hlength rfl
  | openLug hp hid hlength hlug =>
    obtain ⟨k, table, hopen, howns⟩ := h.owns.openF (h.exists_free hK) hlug .passengers
    have hpos : 0 < text.length := List.length_pos_of_ne_nil hm.line.nonempty
    have hlt : 0 < s.passengers.fileLength := hlength.symm ▸ hpos
    simp only [stepPassengers, hp, hopen, Option.isNone_some, Bool.false_eq_true, if_false]
      at hstep
    cases hstep
    rw [Passengers.loop_of_lt hlt]
    refine tokened_working [_, _] hm htokens h.holds howns h.present rfl ?_
    exact .read rfl ⟨hid, hlength, hpos⟩ rfl hlug List.not_mem_nil
  | @read i k o lug hp hcarry hk hlug hnew =>
    have hb := List.getElem?_eq_getElem hcarry.pointer
    obtain ⟨table, hread, howns⟩ :=
      h.owns.readF .passengers [(k, ⟨.lugweight, o⟩)] hcarry.id rfl hm.line.file hb
    simp only [stepPassengers, hp, hread, Option.getD_some] at hstep
    cases hstep
    refine tokened_working [_, _] hm htokens h.holds howns h.present rfl ?_
    split
    · exact working_endLug ⟨hcarry.id, hcarry.length, hcarry.pointer⟩ hk hlug hnew
    · refine .write rfl ⟨hcarry.id, hcarry.length, hcarry.pointer⟩ hk hlug hnew ?_
      intro heq
      exact hm.line.noNewline (heq ▸ List.getElem_mem hcarry.pointer)
  | @write i k o lug hp hcarry hk hlug hnew htemp =>
    obtain ⟨q, table, hwrite, howns⟩ :=
      h.owns.writeF .passengers [] hk rfl hlug [s.passengers.tempbuffer]
    simp only [stepPassengers, hp, hwrite] at hstep
    cases hstep
    refine tokened_working [_, _] hm htokens h.holds howns h.present rfl ?_
    exact working_endLug hcarry hk rfl (newline_not_mem_written hnew htemp)
  | endline hp hcarry hk hlug hlast =>
    obtain ⟨q, table, hwrite, howns⟩ := h.owns.writeF .passengers [] hk rfl hlug [newline]
    simp only [stepPassengers, hp, hwrite] at hstep
    cases hstep
    refine tokened_working [_, _] hm htokens h.holds howns h.present rfl ?_
    exact .closeLug rfl ⟨hcarry.id, hcarry.length, hcarry.pointer⟩ hk
      ⟨rfl, iff_of_true (mem_written_self (by decide)) hlast⟩
  | closeLug hp hcarry hk hlug =>
    obtain ⟨table, hclose, howns⟩ := h.owns.closeF .passengers hk rfl
    simp only [stepPassengers, hp, hclose] at hstep
    cases hstep
    refine tokened_working [_] hm htokens h.holds howns h.present rfl ?_
    exact .up rfl ⟨hcarry.id, hcarry.length, hcarry.pointer⟩ ⟨hlug.file, hlug.newline_iff⟩
  | @up i lug hp hcarry hlug =>
    simp only [stepPassengers, hp] at hstep
    cases hstep
    have hhanded : Handed s.files.contents { s.passengers with control := .downScanned }
        text lug i :=
      ⟨rfl, ⟨hcarry.id, hcarry.length, hcarry.pointer⟩, ⟨hlug.file, hlug.newline_iff⟩⟩
    exact ⟨lm, (i, ⟨.passengers, s.passengers.filePointer + 1⟩) :: leaked, lc, .turn, h.owns,
      h.present, .toScanners (hm.congr rfl rfl) hhanded
        ⟨htokens.1, htokens.2.1, congrArg (· + 1) htokens.2.2⟩, h.holds⟩

/-- `passengers` opens `lugweight.txt` for the next weight, or a last time behind the last one. -/
theorem resuming_step (h : Orchestrated input K s lm
      ((i, ⟨.passengers, s.passengers.filePointer + 1⟩) :: leaked) lc side) (hK : K ≤ 47)
    (hm : Busy input K s.view lm text leaked) (hp : Resuming s.files.contents s.passengers text i)
    (hside : side = s.passengers.side) (htokens : s.view.Tokens 0 0 0)
    (hstep : stepPassengers s = .ok s') : Tokened input K s' := by
  obtain ⟨hp, hid, hlength, hpointer⟩ := hp
  rcases hp with hp | ⟨hp, hlug⟩
  · simp only [stepPassengers, hp] at hstep
    cases hstep
    refine ⟨lm, (i, ⟨.passengers, s.passengers.filePointer + 1⟩) :: leaked, lc, side, h.owns,
      h.present, ?_, h.holds⟩
    exact .resuming (hm.congr rfl rfl) ⟨.inr ⟨rfl, rfl⟩, hid, hlength, hpointer⟩ hside htokens
  · obtain ⟨k, table, hopen, howns⟩ := h.owns.openF (h.exists_free hK) hlug .passengers
    simp only [stepPassengers, hp, hopen, Option.isNone_some, Bool.false_eq_true, if_false]
      at hstep
    cases hstep
    by_cases hlast : s.passengers.filePointer + 1 = s.passengers.fileLength
    · -- the last weight: both descriptors stay open
      have hgone : s.passengers.side = .gone := if_pos hlast
      rw [hgone] at hside
      subst hside
      refine ⟨lm, _, lc, .gone, howns, h.present,
        .finishing ⟨hm.control, hm.between, ?_⟩ ?_ htokens, h.holds⟩
      · have := hm.leaks
        show leaked.length + 1 + 1 + 2 * s.view.main.numPoint = 2 * K
        omega
      · exact if_neg (show ¬ s.passengers.filePointer + 1 < s.passengers.fileLength by omega)
    · have hturn : s.passengers.side = .turn := if_neg hlast
      rw [hturn] at hside
      subst hside
      have hlt : s.passengers.filePointer + 1 < s.passengers.fileLength := by omega
      rw [Passengers.loop_of_lt hlt]
      refine tokened_working [_, _] hm htokens h.holds howns h.present rfl ?_
      exact .read rfl ⟨hid, hlength, hlength ▸ hlt⟩ rfl hlug List.not_mem_nil

/-- The first `Up("maincounter")` of `passengers`. -/
theorem starting_step (h : Orchestrated input K s lm lp lc .gone)
    (hp : s.passengers.control = .upMaincounter)
    (hstage : Stage input K
      { s.view with passengers := { s.passengers with control := .downPassengers } } lm lp .turn)
    (hstep : stepPassengers s = .ok s') : Tokened input K s' := by
  obtain ⟨hcounter, hout, rfl⟩ := h.holds
  simp only [stepPassengers, hp] at hstep
  cases hstep
  exact ⟨lm, lp, [], .turn, h.owns, h.present, hstage, .due (congrArg (· + 1) hcounter) hout⟩

/-- `passengers` waits as long as it has not been woken up. -/
theorem downPassengers_refused
    (hp : s.passengers.control = .downPassengers ∨ s.passengers.control = .downScanned)
    (htoken : s.sems.passengers = 0) : stepPassengers s ≠ .ok s' := by
  intro hstep
  rcases hp with hp | hp <;> simp only [stepPassengers, hp, if_pos htoken] at hstep <;> cases hstep

theorem unborn_refused (hp : s.passengers.control = .unborn) : stepPassengers s ≠ .ok s' := by
  intro hstep
  simp only [stepPassengers, hp] at hstep
  cases hstep

/-- A step of `passengers` leaves one token. -/
theorem stepPassengers_keeps (h : Orchestrated input K s lm lp lc side) (hK : K ≤ 47)
    (hstep : stepPassengers s = .ok s') : Tokened input K s' := by
  cases h.stage with
  | execPassengers hm hbetween hlines hp htokens => exact absurd hstep (unborn_refused hp)
  | execScanners hm hbetween hlines hp htokens =>
    rcases hp with ⟨hp, rfl⟩ | ⟨hp, rfl⟩
    · have hp : s.passengers.control = .upMaincounter := hp
      obtain ⟨hcounter, hc, rfl⟩ := h.holds
      simp only [stepPassengers, hp] at hstep
      cases hstep
      exact ⟨lm, [], [], .unborn 1, h.owns, h.present,
        .execScanners hm hbetween hlines (.inr ⟨rfl, rfl⟩) htokens,
        congrArg (· + 1) hcounter, hc, rfl⟩
    · exact absurd hstep (downPassengers_refused (.inl hp) htokens.2.1)
  | preparing hm hleaks hp htokens =>
    cases hp with
    | starting hp => exact starting_step h hp (.preparing hm hleaks (.idle rfl) htokens) hstep
    | idle hp => exact absurd hstep (downPassengers_refused (.inl hp) htokens.2.1)
  | toPassengers hm hp htokens =>
    cases hp with
    | starting hp =>
      exact starting_step h hp (.toPassengers (hm.congr rfl rfl) (.idle rfl) htokens) hstep
    | idle hp =>
      have hp : s.passengers.control = .downPassengers := hp
      have hone : s.sems.passengers = 1 := htokens.2.1
      simp only [stepPassengers, hp, if_neg (hone.symm ▸ Nat.one_ne_zero)] at hstep
      cases hstep
      refine ⟨lm, [] ++ lp, lc, .turn, h.owns, h.present, ?_, h.holds⟩
      exact .working (hm.congr rfl rfl) (.create rfl)
        ⟨htokens.1, congrArg (· - 1) hone, htokens.2.2⟩
  | working hm hp htokens => exact working_step h hK hm hp htokens hstep
  | toScanners hm hp htokens =>
    exact absurd hstep (downPassengers_refused (.inr hp.control) htokens.2.1)
  | scanning hm hp htokens =>
    exact absurd hstep (downPassengers_refused (.inr hp.control) htokens.2.1)
  | scanned hm hp hside htokens =>
    have hcontrol : s.passengers.control = .downScanned := hp.control
    have hone : s.sems.passengers = 1 := htokens.2.1
    obtain ⟨hid, hlength, hpointer⟩ := hp.carrying
    simp only [stepPassengers, hcontrol, if_neg (hone.symm ▸ Nat.one_ne_zero)] at hstep
    cases hstep
    refine ⟨lm, _, lc, side, h.owns, h.present, ?_, h.holds⟩
    exact .resuming (hm.congr rfl rfl) ⟨.inl rfl, hid, hlength, hpointer⟩ hside
      ⟨htokens.1, congrArg (· - 1) hone, htokens.2.2⟩
  | resuming hm hp hside htokens => exact resuming_step h hK hm hp hside htokens hstep
  | finishing hm hp htokens =>
    have hp : s.passengers.control = .upMain := hp
    simp only [stepPassengers, hp] at hstep
    cases hstep
    exact ⟨lm, lp, lc, .gone, h.owns, h.present,
      .toMain ⟨hm.control, hm.between, hm.leaks⟩ rfl ⟨congrArg (· + 1) htokens.1, htokens.2⟩,
      h.holds⟩
  | toMain hm hp htokens =>
    exact absurd hstep (downPassengers_refused (.inl hp) htokens.2.1)
  | reporting hm hleaks hp htokens =>
    exact absurd hstep (downPassengers_refused (.inl hp) htokens.2.1)
  | stopping hm hleaks hp htokens =>
    rcases hp with hp | ⟨hp, rfl⟩
    · cases hp with
      | starting hp =>
        exact starting_step h hp (.stopping hm hleaks (.inl (.idle rfl)) htokens) hstep
      | idle hp => exact absurd hstep (downPassengers_refused (.inl hp) htokens.2.1)
    · exact absurd hstep (unborn_refused hp)

/-! ## Steps of `scanners` -/

/-- The test `if (readEndline == 1)`. -/
theorem scanning_endScan (hid : c.writeScannerId = some i)
    (hend : c.readEndline = true ↔ newline ∈ lug) :
    Scanning lug c.endScan [(i, ⟨.scannerid, o⟩)] := by
  rw [Scanners.endScan]
  split
  · rename_i htrue
    exact .closeId rfl hid htrue (hend.mp htrue)
  · rename_i hfalse
    exact .upMore rfl hid (Bool.eq_false_iff.mpr hfalse) fun hmem => hfalse (hend.mpr hmem)

theorem Scanners.assign_kept (c : Scanners) :
    c.assign.1.writeScannerId = c.writeScannerId ∧ c.assign.1.readEndline = c.readEndline := by
  rw [Scanners.assign]
  split
  · exact ⟨rfl, rfl⟩
  · split <;> exact ⟨rfl, rfl⟩

/-- `scanners` goes on with the weight. -/
theorem tokened_scanning (hm : Busy input K s.view lm text leaked)
    (hp : Handed s.files.contents s.passengers text lug i) (htokens : s.view.Tokens 0 0 0)
    (hcounter : s.sems.maincounter = 0) (howns : Owns files (lists lm
      ((i, ⟨.passengers, s.passengers.filePointer + 1⟩) :: leaked) own))
    (hpresent : Present input files.contents)
    (hfile : files.contents .passengers = s.files.contents .passengers)
    (hlug : files.contents .lugweight = s.files.contents .lugweight) (hc : Scanning lug c own) :
    Tokened input K { s with files := files, scanners := c } :=
  ⟨lm, _, own, .scanning lug, howns, hpresent,
    .scanning (hm.congr rfl hfile)
      ⟨hp.control, hp.carrying, ⟨hlug.trans hp.weight.file, hp.weight.newline_iff⟩⟩ htokens,
    hcounter, hc⟩

/-- `scanners` reads a byte of `lugweight.txt`, or finds that it has ended. -/
theorem readLugWeight_step {j q : Nat} (h : Orchestrated input K s lm
      ((i, ⟨.passengers, s.passengers.filePointer + 1⟩) :: leaked)
      [(k, ⟨.lugweight, q⟩), (j, ⟨.scannerid, o⟩)] (.scanning lug))
    (hm : Busy input K s.view lm text leaked)
    (hp : Handed s.files.contents s.passengers text lug i) (htokens : s.view.Tokens 0 0 0)
    (hcounter : s.sems.maincounter = 0) (hc : s.scanners.control = .readLugWeight)
    (hid : s.scanners.writeScannerId = some j) (hk : s.scanners.readLugWeight = some k)
    (hend : s.scanners.readEndline = false) (hseen : newline ∉ lug.take q)
    (hstep : stepScanners s = .ok s') : Tokened input K s' := by
  cases hb : lug[q]? with
  | none =>
    obtain ⟨table, hread, howns⟩ := h.owns.readF .scanners [] hk rfl hp.weight.file hb
    simp only [stepScanners, hc, hread] at hstep
    cases hstep
    refine tokened_scanning hm hp htokens hcounter howns h.present rfl rfl ?_
    have hall : lug.take q = lug := List.take_of_length_le (List.getElem?_eq_none_iff.mp hb)
    rw [hall] at hseen
    exact .close rfl hid hk (iff_of_false (by simp [hend]) hseen)
  | some b =>
    obtain ⟨table, hread, howns⟩ := h.owns.readF .scanners [] hk rfl hp.weight.file hb
    simp only [stepScanners, hc, hread] at hstep
    cases hstep
    refine tokened_scanning hm hp htokens hcounter howns h.present rfl rfl ?_
    have hnext (hne : b ≠ newline) : newline ∉ lug.take (q + 1) := by
      rw [List.take_add_one, hb, List.mem_append]
      rintro (hmem | hmem)
      · exact hseen hmem
      · exact hne (List.mem_singleton.mp hmem).symm
    split
    · rename_i hdigit
      refine .read rfl hid hk hend (hnext ?_)
      rintro rfl
      exact absurd hdigit (by decide)
    · split
      · rename_i hnew
        exact .close rfl hid hk (iff_of_true rfl (hnew ▸ List.mem_of_getElem? hb))
      · rename_i hnew
        exact .read hc hid hk hend (hnext hnew)

/-- `scanners` reads a weight, assigns it to a scanner and hands the token back. -/
theorem scanning_step (h : Orchestrated input K s lm
      ((i, ⟨.passengers, s.passengers.filePointer + 1⟩) :: leaked) lc (.scanning lug))
    (hK : K ≤ 47) (hm : Busy input K s.view lm text leaked)
    (hp : Handed s.files.contents s.passengers text lug i) (htokens : s.view.Tokens 0 0 0)
    (hstep : stepScanners s = .ok s') : Tokened input K s' := by
  obtain ⟨hcounter, hc⟩ := h.holds
  have hfile := hp.weight.file
  cases hc with
  | open_ hc hid =>
    obtain ⟨k, table, hopen, howns⟩ := h.owns.openF (h.exists_free hK) hfile .scanners
    simp only [stepScanners, hc, hopen] at hstep
    cases hstep
    refine tokened_scanning hm hp htokens hcounter howns h.present rfl rfl ?_
    exact .read rfl hid rfl rfl (by simp)
  | read hc hid hk hend hseen =>
    exact readLugWeight_step h hm hp htokens hcounter hc hid hk hend hseen hstep
  | close hc hid hk hend =>
    obtain ⟨table, hclose, howns⟩ := h.owns.closeF .scanners hk rfl
    simp only [stepScanners, hc, hclose] at hstep
    cases hstep
    refine tokened_scanning hm hp htokens hcounter howns h.present rfl rfl ?_
    split
    · exact scanning_endScan hid hend
    · exact .write rfl hid hend
  | write hc hid hend =>
    obtain ⟨idText, hidText⟩ := h.present.2.2
    obtain ⟨hid', hend'⟩ := s.scanners.assign_kept
    obtain ⟨q, table, hwrite, howns⟩ :=
      h.owns.writeF .scanners [] hid rfl hidText s.scanners.assign.2
    simp only [stepScanners, hc, hwrite] at hstep
    cases hstep
    refine tokened_scanning hm hp htokens hcounter howns
      ⟨h.present.1, h.present.2.1, _, rfl⟩ rfl rfl ?_
    exact scanning_endScan (hid'.trans hid) (hend' ▸ hend)
  | closeId hc hid hend hlug =>
    obtain ⟨table, hclose, howns⟩ := h.owns.closeF .scanners hid rfl
    simp only [stepScanners, hc, hclose] at hstep
    cases hstep
    refine tokened_scanning hm hp htokens hcounter howns h.present rfl rfl ?_
    exact .upLast rfl hend hlug
  | upLast hc hend hlug =>
    simp only [stepScanners, hc] at hstep
    cases hstep
    have hgone : s.passengers.side = .gone := if_pos (hp.weight.newline_iff.mp hlug)
    refine ⟨lm, _, [], .gone, h.owns, h.present, ?_, hcounter, .inr (if_pos hend), rfl⟩
    exact .scanned (hm.congr rfl rfl) hp hgone.symm
      ⟨htokens.1, congrArg (· + 1) htokens.2.1, htokens.2.2⟩
  | upMore hc hid hend hlug =>
    simp only [stepScanners, hc] at hstep
    cases hstep
    have hturn : s.passengers.side = .turn :=
      if_neg fun hlast => hlug (hp.weight.newline_iff.mpr hlast)
    refine ⟨lm, _, _, .turn, h.owns, h.present, ?_, .opened hcounter ?_ hid⟩
    · exact .scanned (hm.congr rfl rfl) hp hturn.symm
        ⟨htokens.1, congrArg (· + 1) htokens.2.1, htokens.2.2⟩
    · simp [hend]

/-- When the semaphore `scanners` has been raised, a weight has been handed over. -/
theorem Stage.scanners_cases (h : Stage input K v lm lp side) :
    v.semScanners = 0 ∨ v.Tokens 0 0 1 ∧ ∃ i leaked text lug,
      lp = (i, ⟨.passengers, v.passengers.filePointer + 1⟩) :: leaked ∧
      Busy input K v lm text leaked ∧ Handed v.contents v.passengers text lug i := by
  cases h with
  | toScanners hm hp htokens => exact .inr ⟨htokens, _, _, _, _, rfl, hm, hp⟩
  | execPassengers _ _ _ _ htokens => exact .inl htokens.2.2
  | execScanners _ _ _ _ htokens => exact .inl htokens.2.2
  | preparing _ _ _ htokens => exact .inl htokens.2.2
  | toPassengers _ _ htokens => exact .inl htokens.2.2
  | working _ _ htokens => exact .inl htokens.2.2
  | scanning _ _ htokens => exact .inl htokens.2.2
  | scanned _ _ _ htokens => exact .inl htokens.2.2
  | resuming _ _ _ htokens => exact .inl htokens.2.2
  | finishing _ _ htokens => exact .inl htokens.2.2
  | toMain _ _ htokens => exact .inl htokens.2.2
  | reporting _ _ _ htokens => exact .inl htokens.2.2
  | stopping _ _ _ htokens => exact .inl htokens.2.2

theorem Passengers.side_ne (p : Passengers) :
    (∀ n, p.side ≠ .unborn n) ∧ ∀ lug, p.side ≠ .scanning lug := by
  rw [Passengers.side]
  split <;> exact ⟨fun n => Side.noConfusion, fun lug => Side.noConfusion⟩

/-- While `scanners` has the weight, `passengers` waits. -/
theorem Stage.scanning_cases (h : Stage input K v lm lp (.scanning lug)) :
    v.Tokens 0 0 0 ∧ ∃ i leaked text,
      lp = (i, ⟨.passengers, v.passengers.filePointer + 1⟩) :: leaked ∧
      Busy input K v lm text leaked ∧ Handed v.contents v.passengers text lug i := by
  cases h with
  | scanning hm hp htokens => exact ⟨htokens, _, _, _, rfl, hm, hp⟩
  | preparing _ _ hp => cases hp
  | toPassengers _ hp => cases hp
  | scanned _ _ hside => exact absurd hside.symm (v.passengers.side_ne.2 lug)
  | resuming _ _ hside => exact absurd hside.symm (v.passengers.side_ne.2 lug)
  | stopping _ _ hp =>
    rcases hp with hp | ⟨_, hside⟩
    · cases hp
    · cases hside

/-- `scanners` runs ahead to its `Down("scanners")`. -/
theorem turn_step (h : Orchestrated input K s lm lp lc .turn) (hK : K ≤ 47)
    (hstep : stepScanners s = .ok s') : Tokened input K s' := by
  cases h.holds with
  | due hn hc =>
    rcases hc with hc | hc
    · simp only [stepScanners, hc] at hstep
      cases hstep
    · simp only [stepScanners, hc, if_neg (hn.symm ▸ Nat.one_ne_zero)] at hstep
      cases hstep
      exact ⟨lm, lp, [], .turn, h.owns, h.present, h.stage,
        .opening (congrArg (· - 1) hn) rfl⟩
  | opening hn hc =>
    obtain ⟨idText, hid⟩ := h.present.2.2
    obtain ⟨i, table, hopen, howns⟩ := h.owns.openF (h.exists_free hK) hid .scanners
    simp only [stepScanners, hc, hopen] at hstep
    cases hstep
    exact ⟨lm, lp, _, .turn, howns, h.present, h.stage, .opened hn rfl rfl⟩
  | opened hn hc hid =>
    simp only [stepScanners, hc] at hstep
    split at hstep
    · cases hstep
    · rename_i hne
      obtain hzero | ⟨htokens, i, leaked, text, lug, rfl, hm, hp⟩ := h.stage.scanners_cases
      · exact absurd hzero hne
      · cases hstep
        refine ⟨lm, _, _, .scanning lug, h.owns, h.present, ?_, hn, .open_ rfl hid⟩
        exact .scanning (hm.congr rfl rfl) hp
          ⟨htokens.1, htokens.2.1, congrArg (· - 1) htokens.2.2⟩

/-- A step of `scanners` leaves one token. -/
theorem stepScanners_keeps (h : Orchestrated input K s lm lp lc side) (hK : K ≤ 47)
    (hstep : stepScanners s = .ok s') : Tokened input K s' := by
  cases side with
  | unborn n =>
    obtain ⟨_, hc, _⟩ := h.holds
    simp only [stepScanners, hc] at hstep
    cases hstep
  | turn => exact turn_step h hK hstep
  | gone =>
    obtain ⟨hn, hc | hc, _⟩ := h.holds
    · simp only [stepScanners, hc] at hstep
      cases hstep
    · simp only [stepScanners, hc, if_pos hn] at hstep
      cases hstep
  | scanning lug =>
    obtain ⟨htokens, i, leaked, text, rfl, hm, hp⟩ := h.stage.scanning_cases
    exact scanning_step h hK hm hp htokens hstep

/-! ## Runs -/

/-- Before `scanners` is started there is nothing of a line yet. -/
theorem Stage.unborn_cases {n : Nat} (h : Stage input K v lm lp (.unborn n)) :
    v.Tokens 0 0 0 ∧ lm.length = 2 ∧ lp = [] ∧
      ((v.passengers.control = .unborn ∨ v.passengers.control = .upMaincounter) ∧ n = 0 ∨
        v.passengers.control = .downPassengers ∧ n = 1) := by
  cases h with
  | execPassengers _ hbetween _ hp htokens =>
    exact ⟨htokens, hbetween.length, rfl, .inl ⟨.inl hp, rfl⟩⟩
  | execScanners _ hbetween _ hp htokens =>
    refine ⟨htokens, hbetween.length, rfl, ?_⟩
    rcases hp with ⟨hp, hn⟩ | hp
    · exact .inl ⟨.inr hp, hn⟩
    · exact .inr hp
  | preparing _ _ hp => cases hp
  | toPassengers _ hp => cases hp
  | scanned _ _ hside => exact absurd hside.symm (v.passengers.side_ne.1 n)
  | resuming _ _ hside => exact absurd hside.symm (v.passengers.side_ne.1 n)
  | stopping _ _ hp =>
    rcases hp with hp | ⟨_, hside⟩
    · cases hp
    · cases hside

/-- A failed `Exec` ends `scannersmain`. -/
theorem execFails_keeps (h : Orchestrated input K s lm lp lc side)
    (hstep : perform s .execFails = .ok s') : Tokened input K s' := by
  simp only [perform] at hstep
  split at hstep
  · rename_i hexec
    cases hstep
    have hphase : s.view.main.control.phase = .starting := by
      rcases hexec with hexec | hexec
      · exact congrArg MainControl.phase hexec
      · exact congrArg MainControl.phase hexec
    have hallows := h.stage.phase
    rw [hphase] at hallows
    obtain ⟨n, rfl⟩ := hallows
    obtain ⟨htokens, hlength, rfl, hp⟩ := h.stage.unborn_cases
    obtain ⟨hcounter, hc, rfl⟩ := h.holds
    have hmain : Stopping { s.main with control := .returned } lm :=
      .returned rfl (Nat.le_of_eq hlength)
    rcases hp with ⟨hp | hp, rfl⟩ | ⟨hp, rfl⟩
    · exact ⟨lm, [], [], .gone, h.owns, h.present,
        .stopping hmain (Nat.zero_le _) (.inr ⟨hp, rfl⟩) htokens, hcounter, .inl hc, rfl⟩
    · exact ⟨lm, [], [], .gone, h.owns, h.present,
        .stopping hmain (Nat.zero_le _) (.inl (.starting hp)) htokens, hcounter, .inl hc, rfl⟩
    · exact ⟨lm, [], [], .turn, h.owns, h.present,
        .stopping hmain (Nat.zero_le _) (.inl (.idle hp)) htokens, .due hcounter (.inl hc)⟩
  · cases hstep

/-- A step of any of the programs leaves one token. -/
theorem perform_keeps (hK : K ≤ 47) (h : Tokened input K s) {act : Act}
    (hstep : perform s act = .ok s') : Tokened input K s' := by
  obtain ⟨lm, lp, lc, side, h⟩ := h
  cases act with
  | go program =>
    cases program with
    | scannersmain => exact stepMain_keeps h hK hstep
    | passengers => exact stepPassengers_keeps h hK hstep
    | scanners => exact stepScanners_keeps h hK hstep
  | execFails => exact execFails_keeps h hstep

end Steps

/-- There is one token when `scannersmain` makes its first `Exec`. -/
theorem tokened_start (i : Setting) (hid : i.before .scannerid ≠ none)
    (horderly : Orderly i.input (parsePoints i.line) (i.line.length + 1)) :
    Tokened i.input (parsePoints i.line) i.start := by
  obtain ⟨idText, hidText⟩ := Option.ne_none_iff_exists'.mp hid
  refine ⟨[(2, ⟨.input, i.line.length + 1⟩), (3, ⟨.output, 0⟩)], [], [], .unborn 0, ?_,
    ⟨rfl, ⟨[], rfl⟩, idText, hidText⟩, ?_, rfl, rfl, rfl⟩
  · have hmain := ((@own_nil Program Descriptor (fun _ => none) .scannersmain fun _ => rfl).insert
      (i := 2) rfl ⟨.input, i.line.length + 1⟩).insert (i := 3) rfl ⟨.output, 0⟩
    have hother (x : Program) (hx : x ≠ .scannersmain) : Own i.start.files.table x [] := by
      refine ((own_nil fun _ => rfl).update_other ?_ ?_).update_other ?_ ?_
      · exact fun e => by simp
      · exact fun e heq => hx (by cases heq; rfl)
      · exact fun e => by simp
      · exact fun e heq => hx (by cases heq; rfl)
    intro x
    cases x with
    | scannersmain => exact hmain.perm (List.Perm.swap ..)
    | passengers => exact hother _ (by decide)
    | scanners => exact hother _ (by decide)
  · exact .execPassengers rfl ⟨_, ⟨2, 3, 0, rfl, rfl, rfl⟩, horderly⟩ rfl rfl ⟨rfl, rfl, rfl⟩

/-- There is one token in every state of a run. -/
theorem tokened_run {i : Setting} (hid : i.before .scannerid ≠ none)
    (hlines : parsePoints i.line ≤ 47)
    (horderly : Orderly i.input (parsePoints i.line) (i.line.length + 1)) {trace : List Empty}
    {s : State} (hrun : Run step anyAct i.start trace s) :
    Tokened i.input (parsePoints i.line) s := by
  apply hrun.invariant
  · exact tokened_start i hid horderly
  · intro s act events s' hs _ hstep
    obtain ⟨r, hr, heq⟩ := Option.map_eq_some_iff.mp hstep
    cases heq
    exact perform_keeps hlines hs (ok_of_toOption hr)

theorem Side.Holds.scanning_of_lugweight {side : Side} {n : Nat} {c : Scanners}
    {own : List (Nat × Descriptor)} {j o : Nat} (h : side.Holds n c own)
    (hmem : (j, ⟨.lugweight, o⟩) ∈ own) : ∃ lug, side = .scanning lug := by
  cases side with
  | scanning lug => exact ⟨lug, rfl⟩
  | unborn k =>
    obtain ⟨_, _, rfl⟩ := h
    exact absurd hmem List.not_mem_nil
  | gone =>
    obtain ⟨_, _, rfl⟩ := h
    exact absurd hmem List.not_mem_nil
  | turn => cases h <;> simp at hmem

/-- The files before, with `input.txt` in two parts and possibly a `scannerid.txt`. -/
def demo (line rest : List Byte) (scannerid : Option (List Byte)) : Setting where
  line := line
  rest := rest
  before := fun name => if name = .scannerid then scannerid else none
  tempbuffer := 0

/-- The three programs in turn, each for a number of system calls. -/
def turns (scannersmain passengers scanners : Nat) : List Act :=
  List.replicate scannersmain (.go .scannersmain) ++
    List.replicate passengers (.go .passengers) ++ List.replicate scanners (.go .scanners)

/-- In every run with `scannerid.txt` there before, with at most 47 lines and with something in
every line: `scannersmain` does not read `scannerid.txt` while `scanners` has it open and does not
rewrite `passengers.txt` while `passengers` reads it, and `scanners` has `lugweight.txt` open only
while `passengers` waits for it. With at most one line `passengers` then has not left it open. -/
theorem luggage_tokens (i : Setting) (hid : i.before .scannerid ≠ none)
    (hlines : parsePoints i.line ≤ 47)
    (horderly : Orderly i.input (parsePoints i.line) (i.line.length + 1)) {trace : List Empty}
    {s : State} (hrun : Run step anyAct i.start trace s) :
    ¬ (s.main.control.readingId = true ∧ HasOpen s .scanners .scannerid) ∧
      ¬ (s.main.control.rewriting = true ∧ s.passengers.control.reading = true) ∧
      (HasOpen s .scanners .lugweight → s.passengers.control = .downScanned) ∧
      (parsePoints i.line ≤ 1 →
        ¬ (HasOpen s .passengers .lugweight ∧ HasOpen s .scanners .lugweight)) := by
  obtain ⟨lm, lp, lc, side, h⟩ := tokened_run hid hlines horderly hrun
  refine ⟨?_, ?_, ?_, ?_⟩
  · rintro ⟨hreading, j, o, hopen⟩
    have hallows := h.stage.phase
    rw [show s.view.main.control.phase = .reporting from
      MainControl.phase_of_readingId hreading] at hallows
    obtain rfl : side = .gone := hallows
    obtain ⟨_, _, rfl⟩ := h.holds
    exact List.not_mem_nil (((h.owns .scanners).mem j _).mp hopen)
  · rintro ⟨hrewriting, hreading⟩
    have hallows := h.stage.phase
    rw [show s.view.main.control.phase = .preparing from
      MainControl.phase_of_rewriting hrewriting] at hallows
    have hready : Ready s.passengers side := hallows
    cases hready with
    | starting hp => rw [hp] at hreading; cases hreading
    | idle hp => rw [hp] at hreading; cases hreading
  · rintro ⟨j, o, hopen⟩
    obtain ⟨lug, rfl⟩ := h.holds.scanning_of_lugweight (((h.owns .scanners).mem j _).mp hopen)
    obtain ⟨_, _, _, _, _, _, hp⟩ := h.stage.scanning_cases
    exact hp.control
  · rintro hone ⟨⟨k, q, hpassengers⟩, ⟨j, o, hopen⟩⟩
    obtain ⟨lug, rfl⟩ := h.holds.scanning_of_lugweight (((h.owns .scanners).mem j _).mp hopen)
    obtain ⟨_, w, leaked, text, rfl, hm, _⟩ := h.stage.scanning_cases
    have hleaks := hm.leaks
    obtain rfl : leaked = [] := List.eq_nil_of_length_eq_zero (by omega)
    have hmem := ((h.owns .passengers).mem k _).mp hpassengers
    cases List.mem_singleton.mp hmem

/-- The line `5 6`, at the point at which `scanners` reads the first weight. -/
theorem luggage_tokens_line :
    ∃ trace s, Run step anyAct (demo [0x31] [0x35, 0x20, 0x36, 0x0a] (some [])).start trace s ∧
      HasOpen s .scanners .lugweight ∧ ¬ HasOpen s .passengers .lugweight := by
  have hrun : (execute step (demo [0x31] [0x35, 0x20, 0x36, 0x0a] (some [])).start
      (turns 13 17 4)).map (fun r => (r.1, r.2.files.table 6)) =
      some ([], some (.scanners, ⟨.lugweight, 0⟩)) := by decide +kernel
  obtain ⟨s, hexec, hopen⟩ := execute_observed (fun s : State => s.files.table 6) hrun
  have hreach := run_of_execute hexec (allowed_anyAct _ _)
  have horderly : Orderly (demo [0x31] [0x35, 0x20, 0x36, 0x0a] (some [])).input 1 2 :=
    ⟨⟨0x35, by decide, by decide⟩, trivial⟩
  have h := luggage_tokens _ (by decide) (by decide) horderly hreach
  have hscanners : HasOpen s .scanners .lugweight := ⟨6, 0, hopen⟩
  exact ⟨_, s, hreach, hscanners, fun hpassengers => h.2.2.2 (by decide) ⟨hpassengers, hscanners⟩⟩

/-- With two lines `passengers` still has `lugweight.txt` open from the first one when `scanners`
reads the second one. A blank line makes `passengers` go on to `main` while `scanners` has
`scannerid.txt` open. Without a `scannerid.txt`, `scanners` raises `passengers` once too often, and
`passengers` reads `passengers.txt` while `scannersmain` writes it. -/
theorem luggage_two_tokens :
    (∃ trace s,
      Run step anyAct (demo [0x32] [0x35, 0x0a, 0x36, 0x0a] (some [])).start trace s ∧
      HasOpen s .passengers .lugweight ∧ HasOpen s .scanners .lugweight) ∧
    (∃ trace s, Run step anyAct (demo [0x31] [0x0a] (some [])).start trace s ∧
      s.main.control.readingId = true ∧ HasOpen s .scanners .scannerid) ∧
    ∃ trace s, Run step anyAct (demo [0x31] [0x35, 0x20, 0x36, 0x0a] none).start trace s ∧
      s.main.control.rewriting = true ∧ s.passengers.control.reading = true := by
  refine ⟨?_, ?_, ?_⟩
  · have hrun : (execute step (demo [0x32] [0x35, 0x0a, 0x36, 0x0a] (some [])).start
        (turns 9 15 10 ++ turns 0 4 0 ++ turns 16 14 4)).map
        (fun r => (r.1, r.2.files.table 5, r.2.files.table 8)) =
        some ([], some (.passengers, ⟨.lugweight, 0⟩), some (.scanners, ⟨.lugweight, 0⟩)) := by
      decide +kernel
    obtain ⟨s, hexec, hopen⟩ :=
      execute_observed (fun s : State => (s.files.table 5, s.files.table 8)) hrun
    obtain ⟨hpassengers, hscanners⟩ := Prod.mk.inj hopen
    exact ⟨_, s, run_of_execute hexec (allowed_anyAct _ _), ⟨5, 0, hpassengers⟩, ⟨8, 0, hscanners⟩⟩
  · have hrun : (execute step (demo [0x31] [0x0a] (some [])).start
        (turns 7 10 2 ++ turns 2 0 0)).map (fun r => (r.1, r.2.main.control, r.2.files.table 6)) =
        some ([], .readScannerId, some (.scanners, ⟨.scannerid, 0⟩)) := by decide +kernel
    obtain ⟨s, hexec, hopen⟩ :=
      execute_observed (fun s : State => (s.main.control, s.files.table 6)) hrun
    obtain ⟨hcontrol, hscanners⟩ := Prod.mk.inj hopen
    exact ⟨_, s, run_of_execute hexec (allowed_anyAct _ _), by rw [hcontrol]; rfl,
      ⟨6, 0, hscanners⟩⟩
  · have hrun : (execute step (demo [0x31] [0x35, 0x20, 0x36, 0x0a] none).start
        (turns 2 1 3 ++ turns 1 3 0)).map
        (fun r => (r.1, r.2.main.control, r.2.passengers.control)) =
        some ([], .openPassengers, .readLength) := by decide +kernel
    obtain ⟨s, hexec, hopen⟩ :=
      execute_observed (fun s : State => (s.main.control, s.passengers.control)) hrun
    obtain ⟨hmain, hpassengers⟩ := Prod.mk.inj hopen
    exact ⟨_, s, run_of_execute hexec (allowed_anyAct _ _), by rw [hmain]; rfl,
      by rw [hpassengers]; rfl⟩

end Nachos.Luggage
