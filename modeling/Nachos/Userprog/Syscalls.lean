import Nachos.Filesys.FileSystem

/-!
# The system call handlers

The functions `handle_SC_*` of `userprog/exception.cc`. Only `ReadFloat` and `PrintFloat` call
`IncrementR` themselves, which their type shows; output by `printf` is left out.
-/

namespace Nachos

open Sys

/-- `MaxFileLength` of `exception.cc`. -/
def MaxFileLength : Int := 32

/-- `MAX_FILENAME_LEN` of `exception.cc`. -/
def MAX_FILENAME_LEN : Int := 200

/-- `MAX_FILECONTENT_LEN` of `exception.cc`. -/
def MAX_FILECONTENT_LEN : Nat := 2000

namespace Syscall

open FileSystem

variable {host : Host} {W : Type} {advances : Bool}

/-! ## Numbers -/

/-- The first loop of `ReadInt` at index `i` with `n` rounds to go: the last index of the number,
or `none` when the line is not valid. The second test is never true. -/
def scanInt (buffer : Nat → Byte) (numbytes : Nat) : Nat → Nat → Int → Option Int
  | 0, _, lastIndex => some lastIndex
  | n + 1, i, _ =>
    if buffer i = 0x2e then
      if ∀ j < numbytes, i < j → buffer j = 0x30 then some ((i : Int) - 1) else none
    else if (buffer i).slt 0x30 ∧ BitVec.slt 0x39 (buffer i) then none
    else scanInt buffer numbytes n (i + 1) i

/-- The second loop of `ReadInt`, over the indices from `firstIndex` to `lastIndex`. -/
def digitsValue (buffer : Nat → Byte) (firstIndex : Nat) (lastIndex : Int) : BitVec 32 :=
  (List.range (lastIndex + 1 - firstIndex).toNat).foldl
    (fun number i => number * 10 + ((buffer (firstIndex + i)).signExtend 32 - 48)) 0

/-- What `ReadInt` writes to `r2` for a line. -/
def readIntValue (line : List Byte) (numbytes : Int) : BitVec 32 :=
  let buffer i := line.getD i 0
  let isNegative := buffer 0 = 0x2d
  let firstIndex := if isNegative then 1 else 0
  match scanInt buffer numbytes.toNat (numbytes.toNat - firstIndex) firstIndex firstIndex with
  | none => 0
  | some lastIndex =>
    let number := digitsValue buffer firstIndex lastIndex
    if isNegative then number * -1 else number

/-- `handle_SC_ReadInt`. -/
def handleReadInt (env : Env W) : Sys host W advances Unit := do
  let (line, numbytes) ← consoleRead env 255
  setR2 (readIntValue line numbytes).toInt

/-- The length counter of `PrintInt`. An `int` has at most ten digits. -/
def numLength : Nat → Int → Nat
  | 0, _ => 0
  | fuel + 1, tmp => if tmp = 0 then 0 else numLength fuel (tmp.tdiv 10) + 1

/-- The loop of `PrintInt` that fills the buffer from its end, with `n` digits to go. -/
def fillDigits : Nat → Int → List Byte → List Byte
  | 0, _, buffer => buffer
  | n + 1, number, buffer =>
    fillDigits n (number.tdiv 10) (BitVec.ofInt 8 (number.tmod 10 + 48) :: buffer)

/-- `handle_SC_PrintInt`. -/
def handlePrintInt (env : Env W) : Sys host W advances Unit := do
  let number ← reg R4
  if number = 0 then do
    let _ ← consoleWrite env [0x30] 1
  else if number.toInt < 0 then do
    let number := (number * -1).toInt
    let length := numLength 10 number
    let _ ← consoleWrite env (0x2d :: fillDigits length number []) (length + 1)
  else do
    let number := number.toInt
    let length := numLength 10 number
    let _ ← consoleWrite env (fillDigits length number []) length

/-- The validity check of `ReadFloat`, after `dotCount` dots. -/
def scanFloat : Nat → List Byte → Bool
  | _, [] => true
  | dotCount, c :: rest =>
    if c = 0x2e then if dotCount + 1 > 1 then false else scanFloat (dotCount + 1) rest
    else if (c.slt 0x30 ∨ BitVec.slt 0x39 c) ∧ c ≠ 0x2d then false
    else scanFloat dotCount rest

/-- `handle_SC_ReadFloat`. -/
def handleReadFloat (env : Env W) : Sys host W true Unit := do
  let (line, numbytes) ← plain (consoleRead env 255)
  let firstIndex := if line.getD 0 0 = 0x2d then 1 else 0
  if scanFloat 0 ((line.take numbytes.toNat).drop firstIndex) then
    plain (setR2 (env.floatValue line numbytes))
  else do
    plain (setR2 0)
    incrementR
    .stop .halt

/-- `handle_SC_PrintFloat`. A register is zero as a `float` exactly if it is zero. -/
def handlePrintFloat (env : Env W) : Sys host W true Unit := do
  let number ← reg R4
  if number = 0 then do
    let _ ← plain (consoleWrite env [0x30, 0x2e, 0x30] 3)
    incrementR
  else do
    let text := env.floatText number.toInt
    let _ ← plain (consoleWrite env text text.length)

/-! ## Characters and strings -/

/-- `handle_SC_ReadChar`. -/
def handleReadChar (env : Env W) : Sys host W advances Unit := do
  let (line, numBytes) ← consoleRead env 255
  if numBytes > 1 then do
    setR2 0
    .stop .halt
  else if numBytes = 0 then do
    setR2 0
    .stop .halt
  else setR2 (line.getD 0 0).toInt

/-- `handle_SC_PrintChar`. -/
def handlePrintChar (env : Env W) : Sys host W advances Unit := do
  let c ← reg R4
  let _ ← consoleWrite env [c.setWidth 8] 1

/-- `handle_SC_ReadString`. -/
def handleReadString (env : Env W) : Sys host W advances Unit := do
  let virtAddr ← reg R4
  let length ← reg R5
  let _ ← user2System env virtAddr length.toInt
  -- `Read` clears the buffer first
  let (line, _) ← consoleRead env length.toInt
  let _ ← system2User virtAddr length.toInt line

/-- `handle_SC_PrintString`. -/
def handlePrintString (env : Env W) : Sys host W advances Unit := do
  let virtAddr ← reg R4
  let buffer ← user2System env virtAddr 255
  let length := (cString buffer).length
  let _ ← consoleWrite env buffer (length + 1)

/-! ## Files -/

/-- `handle_SC_CreateFile` behind `User2System`, for the file system that a build has: `create` is
`fileSystem->Create` and `setR2` is `machine->WriteRegister(2, ..)`. -/
def createFile {m : Type → Type} [Monad m] (create : List Byte → m Int) (setR2 : Int → m Unit)
    (buffer : List Byte) : m Unit :=
  let fname := cString buffer
  if fname.length = 0 then setR2 (-1)
  else do
    let succ ← create fname
    if succ = -1 then setR2 (-1)
    setR2 0

/-- `handle_SC_CreateFile`. -/
def handleCreateFile (env : Env W) : Sys host W advances Unit := do
  let virtualAddr ← reg R4
  let buffer ← user2System env virtualAddr MAX_FILENAME_LEN
  createFile (create env) setR2 buffer

/-- The end of `ReadFile` and `WriteFile`: `r2` gets the number of bytes, or `-2` for none, and
then the cursor of a file goes back to the start. -/
def reportBytes (id : Option (Fin N_FILES_IN_TABLE)) (nbytes : Int) : Sys host W advances Unit :=
  if nbytes = 0 then do
    setR2 (-2)
    let table ← fileTable
    match id with
    | none => pure ()
    | some id => setFile id ((table id).map fun f => { f with currentOffset := 0 })
  else setR2 nbytes

/-- `handle_SC_ReadFile`. More than `MAX_FILECONTENT_LEN` bytes overrun the buffer. -/
def handleReadFile (env : Env W) : Sys host W advances Unit := do
  let virtualAddress ← reg R4
  let charcount ← reg R5
  let fileid ← reg R6
  if fileid = 0 then
    if charcount.toInt > MAX_FILECONTENT_LEN then .stop .undefined
    else do
      let (line, nbytes) ← consoleRead env charcount.toInt
      reportBytes none nbytes
      let _ ← system2User virtualAddress nbytes line
  else if fileid = 1 then setR2 (-1)
  else do
    let table ← fileTable
    match slot? fileid.toInt with
    | none => setR2 (-1)
    | some id => match table id with
        | none => setR2 (-1)
        | some f =>
          if f.type ≠ 0 then setR2 (-1)
          else do
            let (nbytes, data) ← read env id f charcount.toInt
            if data.length > MAX_FILECONTENT_LEN then .stop .undefined
            else do
              reportBytes (some id) nbytes
              let _ ← system2User virtualAddress nbytes data

/-- `handle_SC_WriteFile`. -/
def handleWriteFile (env : Env W) : Sys host W advances Unit := do
  let virtualAddress ← reg R4
  let charcount ← reg R5
  let fileid ← reg R6
  let buffer ← user2System env virtualAddress charcount.toInt
  if fileid = 0 then setR2 (-1)
  else if fileid = 1 then do
    let nbytes ← consoleWrite env buffer (charcount.toInt + 1)
    reportBytes none nbytes
  else do
    let table ← fileTable
    match slot? fileid.toInt with
    | none => setR2 (-1)
    | some id => match table id with
        | none => setR2 (-1)
        | some f => do
          let text := cString buffer
          let nbytes ← write env id f (text.take (min (charcount.toInt + 1).toNat text.length))
          reportBytes (some id) nbytes

/-- `handle_SC_CloseFile`. -/
def handleCloseFile (env : Env W) : Sys host W advances Unit := do
  let fileid ← reg R4
  if fileid = 0 then setR2 (-1)
  else if fileid = 1 then setR2 (-1)
  else do
    let table ← fileTable
    match slot? fileid.toInt with
    | none => setR2 (-1)
    | some id => match table id with
        | none => setR2 (-1)
        | some f => do
          let _ ← call env (.close f.file)
          setFile id none
          setR2 0

/-- `handle_SC_OpenFile`. -/
def handleOpenFile (env : Env W) : Sys host W advances Unit := do
  let virAddrName ← reg R4
  let type ← reg R5
  if type ≠ 0 ∧ type ≠ 1 ∧ type ≠ 2 ∧ type ≠ 3 then setR2 (-1)
  else do
    let buffer ← user2System env virAddrName MAX_FILENAME_LEN
    let fname := cString buffer
    if fname = stdinName ∨ type = 2 then
      if fname = stdinName ∧ type = 2 then setR2 0 else setR2 (-1)
    else if fname = stdoutName ∨ type = 3 then
      if fname = stdoutName ∧ type = 3 then setR2 1 else setR2 (-1)
    else do
      let f ← openTyped env fname type.toInt
      if f = -1 then setR2 (-1) else setR2 f

/-! ## Processes and semaphores -/

/-- `handle_SC_Join`. -/
def handleJoin (env : Env W) : Sys host W advances Unit := do
  let id ← reg R4
  let (res, _) ← call env (.joinUpdate id.toInt)
  setR2 res

/-- `handle_SC_Exit`. -/
def handleExit (env : Env W) : Sys host W advances Unit := do
  let exitStatus ← reg R4
  if exitStatus ≠ 0 then pure ()
  else do
    let _ ← call env (.exitUpdate exitStatus.toInt)
    .stop .finish

/-- The common part of the three semaphore handlers: copy the name and make a call with it. -/
def semaphoreCall (env : Env W) (limit : Int) (c : List Byte → Call) :
    Sys host W advances Unit := do
  let virtAddr ← reg R4
  let buffer ← user2System env virtAddr limit
  let (res, _) ← call env (c (cString buffer))
  if res = -1 then setR2 (-1) else setR2 res

/-- `handle_SC_CreateSemaphore`. -/
def handleCreateSemaphore (env : Env W) : Sys host W advances Unit := do
  let semval ← reg R5
  semaphoreCall env (MAX_FILENAME_LEN + 1) fun name => .semCreate name semval.toInt

/-- `handle_SC_Up`. -/
def handleUp (env : Env W) : Sys host W advances Unit :=
  semaphoreCall env (MaxFileLength + 1) .semSignal

/-- `handle_SC_Down`. -/
def handleDown (env : Env W) : Sys host W advances Unit :=
  semaphoreCall env (MaxFileLength + 1) .semWait

/-- `handle_SC_Exec`. -/
def handleExec (env : Env W) : Sys host W advances Unit := do
  let virtAddr ← reg R4
  let buffer ← user2System env virtAddr MAX_FILENAME_LEN
  let name := cString buffer
  let f ← openFile env name
  match f with
  | none => setR2 (-1)
  | some file => do
    let _ ← call env (.close file)
    let (res, _) ← call env (.execUpdate name)
    setR2 res

end Syscall

end Nachos
