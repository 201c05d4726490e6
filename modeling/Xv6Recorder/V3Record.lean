/-
# Syscall records of the third recorder (`v3/rr.h`, `v3/sysproc.c`)

The in-memory log of one record or replay session: the tagged-union records
(`struct SCR`), the functions that append inputs and outputs to one (`addInt`,
`addStr`, …), the append to the log (`addSRC`) and the comparator that replay
runs against it (`compareSCRS`).

All of this works on `Core`: the globals of `rr.h` and `trap.c` together with the
`killed` mark of the calling process, the only thing outside the globals that the
error helper `RecRepErr` touches.  Console output is not modelled.

A store outside an array has no meaning in C; it stops the model with
`Halt.outOfBounds`.  `Halt.panic` is the kernel's own `panic`.
-/
import Mathlib.Logic.Function.Basic
import Xv6Recorder.Kernel

open Bytes Xv6

namespace V3

/-! ## Limits, tags and syscall numbers -/

/-- `MAX_SCRS`: records per session. -/
def maxScrs : ℕ := 1000

/-- `MAX_ARGC`: arguments per record. -/
def maxArgc : ℕ := 4

/-- `MAX_RAW_SIZE`: bytes per raw argument. -/
def maxRawSize : ℕ := 200

/-- `MAX_FILE_SIZE`: bytes in `buffer`. -/
def maxFileSize : ℕ := 60000

/-- `UNITIALIZED_SCR`: the syscall byte of an unused record. -/
def unitializedScr : Byte := 0

def noneType : Byte := 0
def intType : Byte := 1
def uintType : Byte := 2
def byteType : Byte := 3
def statType : Byte := 5

/-! The recorded part of `syscall.h`. -/

namespace SYS

def read : Byte := 5
def fstat : Byte := 8
def chdir : Byte := 9
def getpid : Byte := 11
def uptime : Byte := 14
def «open» : Byte := 15
def mknod : Byte := 17
def unlink : Byte := 18
def link : Byte := 19
def mkdir : Byte := 20
def close : Byte := 21

end SYS

/-- The number of input arguments of a syscall, which is the index of its first
output; `-1` for a number that is not recorded. -/
def get1stOutputPos (syscall : Byte) : ℤ :=
  if syscall = SYS.uptime ∨ syscall = SYS.getpid then 0
  else if syscall = SYS.fstat ∨ syscall = SYS.close ∨ syscall = SYS.mkdir ∨
      syscall = SYS.chdir ∨ syscall = SYS.unlink then 1
  else if syscall = SYS.read ∨ syscall = SYS.open ∨ syscall = SYS.link then 2
  else if syscall = SYS.mknod then 3
  else -1

/-! ## Records -/

/-- `union Val` as the bytes it occupies: `num`, `unum` and `raw.size` at offset
`0`, `raw.data` at offset `4`, the fields of `st` at `0`, `4`, `8`, `12`, `16`. -/
abbrev Val := Memory

namespace Val

def num (v : Val) : Word := field 32 0 v
def unum (v : Val) : Word := field 32 0 v
def rawSize (v : Val) : Word := field 32 0 v
def rawData (v : Val) (j : ℕ) : Byte := v (4 + j)
def stType (v : Val) : BitVec 16 := field 16 0 v
def stDev (v : Val) : Word := field 32 4 v
def stIno (v : Val) : Word := field 32 8 v
def stNlink (v : Val) : BitVec 16 := field 16 12 v
def stSize (v : Val) : Word := field 32 16 v

end Val

/-- `struct Arg`. -/
structure Arg where
  type : Byte
  val : Val

/-- `struct SCR`. -/
structure SCR where
  syscall : Byte
  argc : Byte
  args : Fin maxArgc → Arg

/-- The globals of one session, with the two file names of `trap.c`.

`recordedScrs` at an index outside `0 … MAX_SCRS - 1` stands for whatever lies
around the array, and `behindArgs i j` for what `recorded_scrs[i].args[j]` is when `j`
is out of range: only loads ever reach them.  `bufferSeen` is a ghost: one past the
highest index of `buffer` that the decoder has loaded since `bufferPos` was last
reset by a start call. -/
structure Session where
  recordSyscalls : Word
  replaySyscalls : Word
  rrPid : Word
  recordedScrs : ℤ → SCR
  behindArgs : ℤ → ℕ → Arg
  scrsIdx : ℤ
  buffer : Memory
  bufferPos : ℤ
  bufferSeen : ℕ
  recordFilename : List Byte
  replayFilename : List Byte

/-- What the recorder's own functions read and write: the session globals and the
`killed` mark of `myproc()`. -/
structure Core where
  session : Session
  killed : Bool

/-- Why a run of the model stops. -/
inductive Halt where
  | panic (msg : String)
  | outOfBounds
deriving DecidableEq

/-- Programs over `Core`. -/
abbrev RecM := EStateM Halt Core

def isRecording (s : Session) (pid : Word) : Bool :=
  s.recordSyscalls == 1 && s.rrPid == pid

def isReplaying (s : Session) (pid : Word) : Bool :=
  s.replaySyscalls == 1 && s.rrPid == pid

/-- Mark the process killed and poison both modes; the caller runs on. -/
def recRepErr (c : Core) : Core :=
  { session := { c.session with replaySyscalls := -1, recordSyscalls := -1 }
    killed := true }

/-! ## Building a record -/

/-- A record with no arguments.  The union bytes that the source leaves
uninitialised are zero here. -/
def createSCR (syscall : Byte) : SCR :=
  { syscall, argc := 0, args := fun _ => { type := noneType, val := fun _ => 0 } }

/-- The globals as the kernel boots: all zero. -/
def Session.boot : Session where
  recordSyscalls := 0
  replaySyscalls := 0
  rrPid := 0
  recordedScrs := fun _ => createSCR unitializedScr
  behindArgs := fun _ _ => { type := noneType, val := fun _ => 0 }
  scrsIdx := 0
  buffer := fun _ => 0
  bufferPos := 0
  bufferSeen := 0
  recordFilename := []
  replayFilename := []

/-- The common tail of the `add` functions: the `MAX_ARGC` check, whose error
helper returns, and then the store at `args[argc]`. -/
def pushArg (scr : SCR) (arg : Arg) : RecM SCR := fun c =>
  if h : scr.argc.toNat < maxArgc then
    .ok { scr with
      args := Function.update scr.args ⟨scr.argc.toNat, h⟩ arg
      argc := scr.argc + 1 } c
  else .error .outOfBounds (recRepErr c)

def addInt (scr : SCR) (val : Word) : RecM SCR :=
  pushArg scr { type := intType, val := putField 0 val (fun _ => 0) }

def addUInt (scr : SCR) (val : Word) : RecM SCR :=
  pushArg scr { type := uintType, val := putField 0 val (fun _ => 0) }

/-- The union holding a raw argument: size, then data padded with zeros. -/
def rawVal (bytes : List Byte) : Val :=
  overlay (putField 0 (BitVec.ofNat 32 bytes.length) (fun _ => 0)) 4 bytes

/-- Append a NUL-terminated string.  A string that does not fit calls the error
helper and is then copied past the end of `raw.data`. -/
def addStr (scr : SCR) (buffer : List Byte) : RecM SCR := fun c =>
  if maxRawSize < buffer.length then .error .outOfBounds (recRepErr c)
  else (pushArg scr { type := byteType, val := rawVal buffer }).run c

/-- Append `size` bytes read through `buffer`.  `memmove` takes the size as an
unsigned number, so a negative one is a copy past the end of `raw.data` too. -/
def addRaw (scr : SCR) (buffer : Memory) (size : Word) : RecM SCR := fun c =>
  if (maxRawSize : ℤ) < size.toInt then .error .outOfBounds (recRepErr c)
  else if maxRawSize < size.toNat then .error .outOfBounds c
  else (pushArg scr { type := byteType, val := rawVal (slice buffer 0 size.toNat) }).run c

/-- The union holding a stat argument. -/
def statVal (st : Stat) : Val :=
  putField 0 st.type (putField 4 st.dev (putField 16 st.size (putField 8 st.ino
    (putField 12 st.nlink (fun _ => 0)))))

def addStat (scr : SCR) (st : Stat) : RecM SCR :=
  pushArg scr { type := statType, val := statVal st }

/-! ## The log -/

/-- Append a record to the log, or fail when the log is full. -/
def addSRC (scr : SCR) (c : Core) : Core :=
  if (maxScrs : ℤ) ≤ c.session.scrsIdx then recRepErr c
  else
    { c with session := { c.session with
        recordedScrs := Function.update c.session.recordedScrs c.session.scrsIdx scr
        scrsIdx := c.session.scrsIdx + 1 } }

/-- One pass of the comparison loop: the switch on the type of the recorded
argument.  Every mismatch, and every type that has no case, is an error. -/
def inputMatches (recorded scr : Arg) : Bool :=
  if recorded.type = intType then
    recorded.val.num == scr.val.num
  else if recorded.type = byteType then
    recorded.val.rawSize == scr.val.rawSize &&
      (List.range scr.val.rawSize.toInt.toNat).all
        (fun j => scr.val.rawData j == recorded.val.rawData j)
  else false

/-- The loop over the input positions of the recorded syscall. -/
def inputsMatch (recorded scr : SCR) : Bool :=
  (List.finRange maxArgc).all fun i =>
    !decide ((i : ℤ) < get1stOutputPos recorded.syscall) ||
      inputMatches (recorded.args i) (scr.args i)

/-- Fetch the next record of the log and compare it with the call being replayed.
Failure is reported only through the flags and the `killed` mark. -/
def compareSCRS (scr : SCR) (c : Core) : SCR × Core :=
  if (maxScrs : ℤ) ≤ c.session.scrsIdx then (createSCR unitializedScr, recRepErr c)
  else
    let recorded := c.session.recordedScrs c.session.scrsIdx
    let c' := { c with session := { c.session with scrsIdx := c.session.scrsIdx + 1 } }
    if recorded.syscall = unitializedScr then (recorded, recRepErr c')
    else if recorded.syscall ≠ scr.syscall then (recorded, recRepErr c')
    else if inputsMatch recorded scr then (recorded, c')
    else (recorded, recRepErr c')

end V3
