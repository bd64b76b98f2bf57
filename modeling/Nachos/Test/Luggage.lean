import Nachos.Library.Slots
import Nachos.Library.Transition

/-!
# The luggage demo

The user programs `test/scannersmain.c`, `test/passengers.c` and `test/scanners.c`, one control
point for each system call. A program takes one step at a time, up to the end of its next system
call, and the three interleave in any order. Calls that only print are left out.

The system calls are those of `userprog/exception.cc` in the build with `FILESYS_STUB`, for the
five files the programs use: `CreateF` always reports success, `OpenF` needs the file and a free
entry of the file table, which has 98 of them behind the two of the console and is shared by all
processes, `ReadF` of one byte reports `-2` at the end of the file and then the next read starts
over, and so it does behind a `WriteF` of no bytes. `Down` blocks as long as the value of the
semaphore is zero.
-/

namespace Nachos.Luggage

open Slots Transition Function

/-- A `char`. -/
abbrev Byte := BitVec 8

/-- `'\n'`. -/
abbrev newline : Byte := 10

/-- `' '`. -/
abbrev blank : Byte := 32

/-- The three processes. -/
inductive Program where
  | scannersmain
  | passengers
  | scanners
  deriving DecidableEq, Repr

inductive FileName where
  | input
  | output
  | passengers
  | lugweight
  | scannerid
  deriving DecidableEq, Repr

/-! ## System calls -/

/-- An open file. -/
structure Descriptor where
  name : FileName
  currentOffset : Nat
  deriving DecidableEq, Repr

/-- The files of the host and the file table, with the process that opened each entry. -/
structure Files where
  contents : FileName → Option (List Byte)
  table : Table Program Descriptor

/-- The entries of the file table that can be taken. -/
def entries : List Nat := List.range' 2 98

namespace Files

/-- `CreateF`. -/
def createF (f : Files) (name : FileName) : Files :=
  { f with contents := update f.contents name (some []) }

/-- `OpenF` with type 0; `none` is the result `-1`. -/
def openF (f : Files) (x : Program) (name : FileName) : Option Nat × Files :=
  match f.contents name, freeSlot f.table entries with
  | some _, some i => (some i, { f with table := update f.table i (some (x, ⟨name, 0⟩)) })
  | _, _ => (none, f)

/-- `CloseF`. -/
def closeF (f : Files) (id : Option Nat) : Files :=
  match id with
  | none => f
  | some i => { f with table := update f.table i none }

/-- Set the cursor of an open file. -/
def seek (f : Files) (i : Nat) (x : Program) (name : FileName) (position : Nat) : Files :=
  { f with table := update f.table i (some (x, ⟨name, position⟩)) }

/-- `ReadF` of one byte: the byte, or `none` when the result is negative. -/
def readF (f : Files) (id : Option Nat) : Option Byte × Files :=
  match id with
  | none => (none, f)
  | some i => match f.table i with
      | none => (none, f)
      | some (x, d) => match ((f.contents d.name).getD [])[d.currentOffset]? with
          | none => (none, f.seek i x d.name 0)
          | some b => (some b, f.seek i x d.name (d.currentOffset + 1))

/-- Bytes written at a position of a file; a gap reads as zeros. -/
def overwrite (content : List Byte) (position : Nat) (bytes : List Byte) : List Byte :=
  content.take position ++ List.replicate (position - content.length) 0 ++ bytes ++
    content.drop (position + bytes.length)

/-- `WriteF` of a string, which ends at its first zero byte. -/
def writeF (f : Files) (id : Option Nat) (text : List Byte) : Files :=
  let bytes := text.takeWhile (· ≠ 0)
  match id with
  | none => f
  | some i => match f.table i with
      | none => f
      | some (x, d) =>
        if bytes = [] then f.seek i x d.name 0
        else { f.seek i x d.name (d.currentOffset + bytes.length) with
          contents := update f.contents d.name
            (some (overwrite ((f.contents d.name).getD []) d.currentOffset bytes)) }

end Files

/-- The values of the four semaphores. -/
structure Semaphores where
  main : Nat
  passengers : Nat
  scanners : Nat
  maincounter : Nat
  deriving DecidableEq, Repr

/-! ## The programs -/

/-- Where `scannersmain` is, from its first `Exec` on. -/
inductive MainControl where
  | execPassengers
  | execScanners
  | createPassengers
  | openPassengers
  | readInput
  | writePassengers
  | closePassengers
  | upPassengers
  | downMain
  | openScannerId
  | readScannerId
  | writeId
  | writeSpaces
  | writeEndline
  | closeScannerId
  | upMaincounter
  | closeInput
  | closeOutput
  | returned
  deriving DecidableEq, Repr

/-- The variables of `scannersmain`; `saveSize` is one more than in the source. -/
structure ScannersMain where
  control : MainControl
  numPoint : Nat
  saveSize : Nat
  readInput : Option Nat
  writeOutput : Option Nat
  writePassengers : Option Nat
  readScannerId : Option Nat
  tempbuffer : Byte
  deriving DecidableEq, Repr

/-- Where `passengers` is. -/
inductive PassengersControl where
  /-- Not started by `Exec` yet. -/
  | unborn
  | upMaincounter
  | downPassengers
  | createScannerId
  | openPassengers
  /-- In `getFileLength`. -/
  | readLength
  | closePassengers
  | reopenPassengers
  | createLugWeight
  | openLugWeight
  | readPassengers
  | writeLugWeight
  | writeEndline
  | closeLugWeight
  | upScanners
  /-- The `Down("passengers")` in the loop. -/
  | downScanned
  | recreateLugWeight
  | reopenLugWeight
  | upMain
  /-- `CloseF(readPassengers)` and `Up("main")` of the error branches. -/
  | failClose
  | failUpMain
  | returned
  deriving DecidableEq, Repr

/-- The variables of `passengers`; `fileLength` is also `cnt` of `getFileLength`. -/
structure Passengers where
  control : PassengersControl
  readPassengers : Option Nat
  writeLugWeight : Option Nat
  fileLength : Nat
  filePointer : Nat
  isEndLug : Bool
  tempbuffer : Byte
  deriving DecidableEq, Repr

/-- Where `scanners` is. -/
inductive ScannersControl where
  | unborn
  | downMaincounter
  | openScannerId
  /-- `Up("passengers")` behind a failed `OpenF("scannerid.txt")`. -/
  | upUnopened
  | downScanners
  | openLugWeight
  | readLugWeight
  | closeLugWeight
  | writeScannerId
  | closeScannerId
  | upPassengers
  /-- `CloseF(writeScannerId)` and `Up("passengers")` of the error branch. -/
  | failClose
  | failUpPassengers
  | returned
  deriving DecidableEq, Repr

/-- The variables of `scanners`; the loads of the three scanners are `int`s. -/
structure Scanners where
  control : ScannersControl
  writeScannerId : Option Nat
  readLugWeight : Option Nat
  weight : BitVec 32
  readEndline : Bool
  scanner1 : BitVec 32
  scanner2 : BitVec 32
  scanner3 : BitVec 32
  deriving DecidableEq, Repr

structure State where
  files : Files
  sems : Semaphores
  main : ScannersMain
  passengers : Passengers
  scanners : Scanners

inductive Failure where
  | refused
  /-- A write behind the end of the literal `saveWeight`. -/
  | overrun
  deriving DecidableEq, Repr

/-! ### `scannersmain` -/

/-- The test `while (numPoint--)`. -/
def ScannersMain.loop (m : ScannersMain) : ScannersMain :=
  if m.numPoint = 0 then { m with control := .closeInput }
  else { m with numPoint := m.numPoint - 1, control := .createPassengers }

/-- The size of the literal `saveWeight`, with the byte that ends it. -/
def saveWeightSize : Nat := 122

/-- The next system call of `scannersmain`. -/
def stepMain (s : State) : Except Failure State :=
  let m := s.main
  match m.control with
  | .execPassengers => .ok { s with
      passengers := { s.passengers with control := .upMaincounter }
      main := { m with control := .execScanners } }
  | .execScanners => .ok { s with
      scanners := { s.scanners with control := .downMaincounter }
      main := m.loop }
  | .createPassengers => .ok { s with
      files := s.files.createF .passengers
      main := { m with control := .openPassengers } }
  | .openPassengers =>
    let (id, files) := s.files.openF .scannersmain .passengers
    .ok { s with
      files := files
      main := { m with
        writePassengers := id
        control := if id.isNone then .closeInput else .readInput } }
  | .readInput => match s.files.readF m.readInput with
      | (none, files) => .ok { s with
          files := files
          main := { m with control := .closePassengers } }
      | (some b, files) =>
        if saveWeightSize ≤ m.saveSize then .error .overrun
        else .ok { s with
          files := files
          main := { m with
            tempbuffer := b
            saveSize := m.saveSize + 1
            control := if b = newline then .closePassengers else .writePassengers } }
  | .writePassengers => .ok { s with
      files := s.files.writeF m.writePassengers [m.tempbuffer]
      main := { m with control := .readInput } }
  | .closePassengers => .ok { s with
      files := s.files.closeF m.writePassengers
      main := { m with control := .upPassengers } }
  | .upPassengers => .ok { s with
      sems := { s.sems with passengers := s.sems.passengers + 1 }
      main := { m with control := .downMain } }
  | .downMain =>
    if s.sems.main = 0 then .error .refused
    else .ok { s with
      sems := { s.sems with main := s.sems.main - 1 }
      main := { m with control := .openScannerId } }
  | .openScannerId =>
    let (id, files) := s.files.openF .scannersmain .scannerid
    .ok { s with
      files := files
      main := { m with
        readScannerId := id
        control := if id.isNone then .closeInput else .readScannerId } }
  | .readScannerId => match s.files.readF m.readScannerId with
      | (none, files) => .ok { s with
          files := files
          main := { m with control := .writeEndline } }
      | (some b, files) => .ok { s with
          files := files
          main := { m with tempbuffer := b, control := .writeId } }
  | .writeId => .ok { s with
      files := s.files.writeF m.writeOutput [m.tempbuffer]
      main := { m with control := .writeSpaces } }
  | .writeSpaces => .ok { s with
      files := s.files.writeF m.writeOutput (List.replicate 7 blank)
      main := { m with control := .readScannerId } }
  | .writeEndline => .ok { s with
      files := s.files.writeF m.writeOutput [13, newline]
      main := { m with control := .closeScannerId } }
  | .closeScannerId => .ok { s with
      files := s.files.closeF m.readScannerId
      main := { m with control := .upMaincounter } }
  | .upMaincounter => .ok { s with
      sems := { s.sems with maincounter := s.sems.maincounter + 1 }
      main := m.loop }
  | .closeInput => .ok { s with
      files := s.files.closeF m.readInput
      main := { m with control := .closeOutput } }
  | .closeOutput => .ok { s with
      files := s.files.closeF m.writeOutput
      main := { m with control := .returned } }
  | .returned => .error .refused

/-! ### `passengers` -/

/-- The test `while (filePointer < fileLength)`. -/
def Passengers.loop (p : Passengers) : Passengers :=
  { p with control := if p.filePointer < p.fileLength then .readPassengers else .upMain }

/-- Behind the first `if` of the loop: the last byte ends the weight, and so does a blank. -/
def Passengers.endLug (p : Passengers) : Passengers :=
  if p.filePointer + 1 = p.fileLength then { p with control := .writeEndline }
  else if p.isEndLug then { p with control := .closeLugWeight }
  else { p with filePointer := p.filePointer + 1 }.loop

/-- The next system call of `passengers`. -/
def stepPassengers (s : State) : Except Failure State :=
  let p := s.passengers
  match p.control with
  | .unborn => .error .refused
  | .upMaincounter => .ok { s with
      sems := { s.sems with maincounter := s.sems.maincounter + 1 }
      passengers := { p with control := .downPassengers } }
  | .downPassengers =>
    if s.sems.passengers = 0 then .error .refused
    else .ok { s with
      sems := { s.sems with passengers := s.sems.passengers - 1 }
      passengers := { p with control := .createScannerId } }
  | .createScannerId => .ok { s with
      files := s.files.createF .scannerid
      passengers := { p with control := .openPassengers } }
  | .openPassengers =>
    let (id, files) := s.files.openF .passengers .passengers
    .ok { s with
      files := files
      passengers := { p with
        readPassengers := id
        fileLength := 0
        control := if id.isNone then .failUpMain else .readLength } }
  | .readLength => match s.files.readF p.readPassengers with
      | (none, files) => .ok { s with
          files := files
          passengers := { p with control := .closePassengers } }
      | (some _, files) => .ok { s with
          files := files
          passengers := { p with fileLength := p.fileLength + 1 } }
  | .closePassengers => .ok { s with
      files := s.files.closeF p.readPassengers
      passengers := { p with control := .reopenPassengers } }
  | .reopenPassengers =>
    let (id, files) := s.files.openF .passengers .passengers
    .ok { s with
      files := files
      passengers := { p with readPassengers := id, control := .createLugWeight } }
  | .createLugWeight => .ok { s with
      files := s.files.createF .lugweight
      passengers := { p with control := .openLugWeight } }
  | .openLugWeight =>
    let (id, files) := s.files.openF .passengers .lugweight
    .ok { s with
      files := files
      passengers := if id.isNone then { p with writeLugWeight := id, control := .failClose }
        else { p with writeLugWeight := id, filePointer := 0 }.loop }
  | .readPassengers =>
    let (byte, files) := s.files.readF p.readPassengers
    -- a failed read leaves the byte as it was
    let b := byte.getD p.tempbuffer
    .ok { s with
      files := files
      passengers :=
        if b = blank then { p with tempbuffer := b, isEndLug := true }.endLug
        else { p with tempbuffer := b, isEndLug := false, control := .writeLugWeight } }
  | .writeLugWeight => .ok { s with
      files := s.files.writeF p.writeLugWeight [p.tempbuffer]
      passengers := p.endLug }
  | .writeEndline => .ok { s with
      files := s.files.writeF p.writeLugWeight [newline]
      passengers := { p with isEndLug := true, control := .closeLugWeight } }
  | .closeLugWeight => .ok { s with
      files := s.files.closeF p.writeLugWeight
      passengers := { p with control := .upScanners } }
  | .upScanners => .ok { s with
      sems := { s.sems with scanners := s.sems.scanners + 1 }
      passengers := { p with control := .downScanned } }
  | .downScanned =>
    if s.sems.passengers = 0 then .error .refused
    else .ok { s with
      sems := { s.sems with passengers := s.sems.passengers - 1 }
      passengers := { p with control := .recreateLugWeight } }
  | .recreateLugWeight => .ok { s with
      files := s.files.createF .lugweight
      passengers := { p with control := .reopenLugWeight } }
  | .reopenLugWeight =>
    let (id, files) := s.files.openF .passengers .lugweight
    .ok { s with
      files := files
      passengers := if id.isNone then { p with writeLugWeight := id, control := .failClose }
        else { p with writeLugWeight := id, filePointer := p.filePointer + 1 }.loop }
  | .upMain => .ok { s with
      sems := { s.sems with main := s.sems.main + 1 }
      passengers := { p with control := .downPassengers } }
  | .failClose => .ok { s with
      files := s.files.closeF p.readPassengers
      passengers := { p with control := .failUpMain } }
  | .failUpMain => .ok { s with
      sems := { s.sems with main := s.sems.main + 1 }
      passengers := { p with control := .returned } }
  | .returned => .error .refused

/-! ### `scanners` -/

/-- The scanner that gets the weight, and the text for `scannerid.txt`. -/
def Scanners.assign (c : Scanners) : Scanners × List Byte :=
  if c.scanner1.sle c.scanner2 ∧ c.scanner1.sle c.scanner3 then
    ({ c with scanner1 := c.scanner1 + c.weight }, [0x31])
  else if c.scanner2.sle c.scanner1 ∧ c.scanner2.sle c.scanner3 then
    ({ c with scanner2 := c.scanner2 + c.weight }, [0x32])
  else ({ c with scanner3 := c.scanner3 + c.weight }, [0x33])

/-- The test `if (readEndline == 1)`. -/
def Scanners.endScan (c : Scanners) : Scanners :=
  if c.readEndline then
    { c with scanner1 := 0, scanner2 := 0, scanner3 := 0, control := .closeScannerId }
  else { c with control := .upPassengers }

/-- The next system call of `scanners`. -/
def stepScanners (s : State) : Except Failure State :=
  let c := s.scanners
  match c.control with
  | .unborn => .error .refused
  | .downMaincounter =>
    if s.sems.maincounter = 0 then .error .refused
    else .ok { s with
      sems := { s.sems with maincounter := s.sems.maincounter - 1 }
      scanners := { c with control := .openScannerId } }
  | .openScannerId =>
    let (id, files) := s.files.openF .scanners .scannerid
    .ok { s with
      files := files
      scanners := { c with
        writeScannerId := id
        control := if id.isNone then .upUnopened else .downScanners } }
  | .upUnopened => .ok { s with
      sems := { s.sems with passengers := s.sems.passengers + 1 }
      scanners := { c with control := .downScanners } }
  | .downScanners =>
    if s.sems.scanners = 0 then .error .refused
    else .ok { s with
      sems := { s.sems with scanners := s.sems.scanners - 1 }
      scanners := { c with control := .openLugWeight } }
  | .openLugWeight =>
    let (id, files) := s.files.openF .scanners .lugweight
    .ok { s with
      files := files
      scanners := { c with
        readLugWeight := id
        weight := 0
        readEndline := false
        control := if id.isNone then .failClose else .readLugWeight } }
  | .readLugWeight => match s.files.readF c.readLugWeight with
      | (none, files) => .ok { s with
          files := files
          scanners := { c with control := .closeLugWeight } }
      | (some b, files) => .ok { s with
          files := files
          scanners :=
            if 0x30 ≤ b ∧ b ≤ 0x39 then
              { c with weight := c.weight * 10 + (b - 0x30).setWidth 32 }
            else if b = newline then { c with readEndline := true, control := .closeLugWeight }
            else c }
  | .closeLugWeight => .ok { s with
      files := s.files.closeF c.readLugWeight
      scanners := if c.weight = 0 then c.endScan else { c with control := .writeScannerId } }
  | .writeScannerId =>
    let (c', text) := c.assign
    .ok { s with
      files := s.files.writeF c.writeScannerId text
      scanners := c'.endScan }
  | .closeScannerId => .ok { s with
      files := s.files.closeF c.writeScannerId
      scanners := { c with control := .upPassengers } }
  | .upPassengers => .ok { s with
      sems := { s.sems with passengers := s.sems.passengers + 1 }
      scanners := { c with
        control := if c.readEndline then .downMaincounter else .downScanners } }
  | .failClose => .ok { s with
      files := s.files.closeF c.writeScannerId
      scanners := { c with control := .failUpPassengers } }
  | .failUpPassengers => .ok { s with
      sems := { s.sems with passengers := s.sems.passengers + 1 }
      scanners := { c with control := .returned } }
  | .returned => .error .refused

/-! ### The system -/

/-- The process that goes on, or an `Exec` that fails. -/
inductive Act where
  | go (program : Program)
  | execFails
  deriving DecidableEq, Repr

def perform (s : State) : Act → Except Failure State
  | .go .scannersmain => stepMain s
  | .go .passengers => stepPassengers s
  | .go .scanners => stepScanners s
  | .execFails =>
    if s.main.control = .execPassengers ∨ s.main.control = .execScanners then
      .ok { s with main := { s.main with control := .returned } }
    else .error .refused

def step : Step State Act Empty := fun s act => (perform s act).toOption.map fun s' => ([], s')

/-- The value `numPoint` gets from the bytes of the first line. -/
def parsePoints (line : List Byte) : Nat :=
  line.foldl (fun n b => if 0x30 ≤ b ∧ b ≤ 0x39 then (n * 10 + (b - 0x30).toNat) % 4294967296
    else n) 0

/-- What is there when `scannersmain` has read the first line of `input.txt` and opened
`output.txt`: the files, of which `input.txt` is `line`, a newline and `rest`, and any values in
the variables of the other programs. -/
structure Setting where
  line : List Byte
  rest : List Byte
  /-- The other files before. -/
  before : FileName → Option (List Byte)
  tempbuffer : Byte

/-- The contents of `input.txt`. -/
def Setting.input (i : Setting) : List Byte := i.line ++ newline :: i.rest

/-- The state in which `scannersmain` makes its first `Exec`. -/
def Setting.start (i : Setting) : State where
  files :=
    { contents := update (update i.before .input (some i.input)) .output (some [])
      table := update (update (fun _ => none) 2
        (some (.scannersmain, ⟨.input, i.line.length + 1⟩))) 3
        (some (.scannersmain, ⟨.output, 0⟩)) }
  sems := ⟨0, 0, 0, 0⟩
  main := ⟨.execPassengers, parsePoints i.line, 0, some 2, some 3, none, none, newline⟩
  passengers := ⟨.unborn, none, none, 0, 0, false, i.tempbuffer⟩
  scanners := ⟨.unborn, none, none, 0, false, 0, 0, 0⟩

/-! ## What must not happen -/

/-- The process has the file open. -/
def HasOpen (s : State) (x : Program) (name : FileName) : Prop :=
  ∃ i offset, s.files.table i = some (x, ⟨name, offset⟩)

/-- `scannersmain` has emptied `passengers.txt` and not closed it yet. -/
def MainControl.rewriting : MainControl → Bool
  | .openPassengers | .readInput | .writePassengers | .closePassengers => true
  | _ => false

/-- `scannersmain` has opened `scannerid.txt` and not closed it yet. -/
def MainControl.readingId : MainControl → Bool
  | .readScannerId | .writeId | .writeSpaces | .writeEndline | .closeScannerId => true
  | _ => false

/-- `passengers` has opened `passengers.txt` and not come to the end of its loop. -/
def PassengersControl.reading : PassengersControl → Bool
  | .readLength | .closePassengers | .reopenPassengers | .createLugWeight | .openLugWeight
  | .readPassengers | .writeLugWeight | .writeEndline | .closeLugWeight | .upScanners
  | .downScanned | .recreateLugWeight | .reopenLugWeight => true
  | _ => false

end Nachos.Luggage
