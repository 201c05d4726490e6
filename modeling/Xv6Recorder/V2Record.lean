/-
# Syscall records of the second recorder (`v2/rr.h`, `v2/sysproc.c`)

The in-memory log of one record or replay session: calls with up to five tagged fields
(`struct Call`), the functions that append a field (`setInt`, `setByte`, …), the append
to the log (`addSyscall`), the fetch from it (`getSyscall`) and the comparator of replay
(`compareSyscalls`).

They work on `Core`: the globals of `rr.h` and `trap.c` and the `killed` mark of the
calling process.  Where the source calls `exit()`, which does not come back, the program
stops with `Halt.exited`, and `trap` then does what `exit` does.  As in the third
recorder, console output is not modelled, a `panic` stops the model, and so does an
access outside an array.
-/
import Mathlib.Logic.Function.Basic
import Xv6Recorder.Kernel

open Bytes Xv6

namespace V2

/-! ## Limits and tags -/

/-- `MAX_SYS_CALLS`: calls per session. -/
def maxSysCalls : ℕ := 1000

/-- `MAX_FIELD_SIZE`: fields per call. -/
def maxFieldSize : ℕ := 5

instance : NeZero maxFieldSize := ⟨by decide⟩

/-- `MAX_BYTE_SIZE`: bytes per byte field. -/
def maxByteSize : ℕ := 250

/-- `UNINITIALIZED`: the syscall byte of an unused call. -/
def uninitialized : Byte := 0

def noneType : Byte := 0
def byteType : Byte := 1
def intType : Byte := 2
def uintType : Byte := 3
def pstatType : Byte := 4

/-! ## Calls -/

/-- `union Data` as the bytes it occupies: `num`, `unum` and `bytes.size` at offset `0`,
`bytes.content` at `4`, and the fields of the packed `pstat` at `0`, `2`, `6`, `10`,
`12`. -/
abbrev Data := Memory

namespace Data

def num (d : Data) : Word := field 32 0 d
def unum (d : Data) : Word := field 32 0 d
def size (d : Data) : Word := field 32 0 d
def content (d : Data) (j : ℕ) : Byte := d (4 + j)

/-- The five fields of `pstat`. -/
def pstat (d : Data) : Stat :=
  ⟨field 16 0 d, field 32 2 d, field 32 6 d, field 16 10 d, field 32 12 d⟩

end Data

/-- `struct Field`. -/
@[ext] structure Field where
  type : Byte
  data : Data

/-- `struct Call`. -/
@[ext] structure Call where
  syscall : Byte
  size : Byte
  fields : Fin maxFieldSize → Field

/-- The globals of one session, with the two file names of `trap.c`. -/
structure Session where
  recordSyscalls : Word
  replaySyscalls : Word
  rrPid : Word
  calls : ℕ → Call
  syscallIdx : ℕ
  recordFilename : List Byte
  replayFilename : List Byte

/-- What the recorder's own functions read and write: the session globals and the
`killed` mark of `myproc()`. -/
structure Core where
  session : Session
  killed : Bool

/-- Why a run of the model stops. -/
inductive Halt where
  | panic (msg : String)
  | outOfBounds
  | exited
deriving DecidableEq

/-- Programs over `Core`. -/
abbrev RecM := EStateM Halt Core

/-- Change the session. -/
def onSession (f : Session → Session) : RecM Unit :=
  modify fun c => { c with session := f c.session }

/-- `replay_syscalls = -1`, and exit. -/
def replayExit {α : Type} : RecM α := do
  onSession fun s => { s with replaySyscalls := -1 }
  throw .exited

/-- `record_syscalls = -1`, and exit. -/
def recordExit {α : Type} : RecM α := do
  onSession fun s => { s with recordSyscalls := -1 }
  throw .exited

/-- Both flags `-1`, and exit. -/
def bothExit {α : Type} : RecM α := do
  onSession fun s => { s with replaySyscalls := -1, recordSyscalls := -1 }
  throw .exited

/-! ## Building a call -/

/-- The field that `initNone` stores.  The union bytes that the source leaves
uninitialised are zero here. -/
def noneField : Field := ⟨noneType, fun _ => 0⟩

/-- A call without fields. -/
def createSyscall (syscall : Byte) : Call := ⟨syscall, 0, fun _ => noneField⟩

/-- The common tail of the `set` functions: the check against `MAX_FIELD_SIZE`, and the
store at `fields[size]`. -/
def setField (msg : String) (call : Call) (field : Field) : RecM Call :=
  if h : call.size.toNat < maxFieldSize then
    pure { call with
      fields := Function.update call.fields ⟨call.size.toNat, h⟩ field
      size := call.size + 1 }
  else throw (.panic msg)

def setInt (call : Call) (num : Word) : RecM Call :=
  setField "In sysproc.c, SetInt, you have attempted to add more fields than allowed"
    call ⟨intType, putField 0 num (fun _ => 0)⟩

def setUint (call : Call) (unum : Word) : RecM Call :=
  setField "In sysproc.c, SetUint, you have attempted to add more fields than allowed"
    call ⟨uintType, putField 0 unum (fun _ => 0)⟩

/-- The `struct Byte` of a list: the size, then the content padded with zeros. -/
def byteStruct (bytes : List Byte) : Data :=
  overlay (putField 0 (BitVec.ofNat 32 bytes.length) (fun _ => 0)) 4 bytes

def transformNULLTerminatedStrToByte (buffer : List Byte) : RecM Data :=
  if maxByteSize < buffer.length then bothExit else pure (byteStruct buffer)

/-- The `size` bytes behind `buffer`, which is not there when the pointer was never set.
`memmove` takes the size as an unsigned number. -/
def transformCharPointerToByte (buffer : Option Memory) (size : Word) : RecM Data :=
  if (maxByteSize : ℤ) < size.toInt then bothExit
  else if maxByteSize < size.toNat then throw .outOfBounds
  else
    match buffer with
    | some buffer => pure (byteStruct (slice buffer 0 size.toNat))
    | none => if size = 0 then pure (byteStruct []) else throw .outOfBounds

def setByte (call : Call) (bytes : Data) : RecM Call :=
  setField "In sysproc.c, SetByte, you have attempted to add more fields than allowed"
    call ⟨byteType, bytes⟩

/-- The bytes of a `struct PackedStat`. -/
def packedStat (st : Stat) : List Byte :=
  toBytes st.type ++ toBytes st.dev ++ toBytes st.ino ++ toBytes st.nlink ++ toBytes st.size

def setPackedStat (call : Call) (pstat : Stat) : RecM Call :=
  setField "In sysproc.c, setPackedStat, you have attempted to add more fields than allowed"
    call ⟨pstatType, overlay (fun _ => 0) 0 (packedStat pstat)⟩

/-- The data of a field.  The handlers call this with constants below `MAX_FIELD_SIZE`, so the
panic for larger positions is not modelled. -/
def getFieldData (call : Call) (pos : Fin maxFieldSize) : Data := (call.fields pos).data

/-! ## The log -/

/-- The table and the index as `resetSyscalls` leaves them. -/
def resetSyscalls (s : Session) : Session :=
  { s with
    syscallIdx := 0
    calls := fun i => if i < maxSysCalls then createSyscall uninitialized else s.calls i }

/-- The globals as the kernel boots. -/
def Session.boot : Session where
  recordSyscalls := 0
  replaySyscalls := 0
  rrPid := -1
  calls := fun _ => createSyscall uninitialized
  syscallIdx := 0
  recordFilename := []
  replayFilename := []

/-- Append a call to the log, or exit when the log is full. -/
def addSyscall (recorded : Call) : RecM Unit := do
  let c ← get
  if maxSysCalls ≤ c.session.syscallIdx then recordExit
  else
    onSession fun s => { s with
      calls := Function.update s.calls s.syscallIdx recorded
      syscallIdx := s.syscallIdx + 1 }

/-- Fetch the next call of the log, or exit when the index is at its end. -/
def getSyscall : RecM Call := do
  let c ← get
  if maxSysCalls ≤ c.session.syscallIdx then bothExit
  else do
    onSession fun s => { s with syscallIdx := s.syscallIdx + 1 }
    pure (c.session.calls c.session.syscallIdx)

/-- The content loop of `compareSyscalls`, over at most as many bytes as the array has:
beyond them it loads outside the two unions. -/
def compareContent (replayed recorded : Data) : RecM Unit :=
  let n := replayed.size.toInt.toNat
  if (List.range (min n maxByteSize)).all fun i => replayed.content i == recorded.content i then
    if n ≤ maxByteSize then pure () else throw .outOfBounds
  else replayExit

/-- One pass of the loop of `compareSyscalls`. -/
def compareField (replayed recorded : Field) : RecM Unit :=
  if replayed.type ≠ recorded.type then replayExit
  else if replayed.type = noneType then pure ()
  else if replayed.type = intType ∨ replayed.type = uintType then
    if replayed.data.num ≠ recorded.data.num then replayExit else pure ()
  else if replayed.type = byteType then
    if replayed.data.size ≠ recorded.data.size then replayExit
    else compareContent replayed.data recorded.data
  else if replayed.type = pstatType then pure ()
  else replayExit

/-- The loop of `compareSyscalls` over the given positions. -/
def compareFields (replayed recorded : Call) : List (Fin maxFieldSize) → RecM Unit
  | [] => pure ()
  | i :: rest => do
    compareField (replayed.fields i) (recorded.fields i)
    compareFields replayed recorded rest

/-- Compare all fields of two calls, and exit at the first that differs. -/
def compareSyscalls (replayed recorded : Call) : RecM Unit :=
  compareFields replayed recorded (List.finRange maxFieldSize)

end V2
