/-
# The eleven recorded system calls (`v2/sysfile.c`, `v2/sysproc.c`)

Every handler tests for a replaying and then for a recording caller, and below both
tests stands the original code.  The replay branch fetches the next logged call; what
happens when there is none is written out in each handler, and in some of them control
goes on below the branch.  `Handler.run` is this skeleton.

The kernel code that the handlers run, original and pasted copy, has the same text as in
the third recorder and is taken from there, apart from the copy in `sys_unlink`, which
has kept two `return`s.
-/
import Xv6Recorder.V2Record
import Xv6Recorder.V3Handlers

open Bytes StateError Xv6
open V3 (Kind Input)

namespace V2

/-! ## Programs on the whole machine -/

/-- The machine as one system call sees it: the recorder's state and the kernel. -/
structure Machine (σ ι π : Type) where
  core : Core
  kern : Kern σ ι π

/-- System call programs. -/
abbrev SysM (σ ι π : Type) := EStateM Halt (Machine σ ι π)

section

variable {σ ι π α : Type}

/-- Run a program of the recorder. -/
def onCore (x : RecM α) : SysM σ ι π α :=
  zoom Machine.core (fun c m => { m with core := c }) id x

/-- Run a kernel program. -/
def onKern (x : KM σ ι π α) : SysM σ ι π α :=
  zoom Machine.kern (fun k m => { m with kern := k }) Halt.panic x

theorem run_onCore_of_ok {m : Machine σ ι π} {a : α} {x : RecM α} {c : Core}
    (h : x.run m.core = .ok a c) :
    (onCore x : SysM σ ι π α).run m = .ok a { m with core := c } :=
  run_zoom_of_ok h

theorem run_onCore_of_error {m : Machine σ ι π} {x : RecM α} {e : Halt} {c : Core}
    (h : x.run m.core = .error e c) :
    (onCore x : SysM σ ι π α).run m = .error e { m with core := c } :=
  run_zoom_of_error h

theorem run_onKern_of_ok {m : Machine σ ι π} {a : α} {x : KM σ ι π α} {k : Kern σ ι π}
    (h : x.run m.kern = .ok a k) : (onKern x).run m = .ok a { m with kern := k } :=
  run_zoom_of_ok h

theorem run_onKern_of_error {m : Machine σ ι π} {x : KM σ ι π α} {msg : String}
    {k : Kern σ ι π} (h : x.run m.kern = .error msg k) :
    (onKern x).run m = .error (.panic msg) { m with kern := k } :=
  run_zoom_of_error h

/-- `curr_pid == rr_pid && replay_syscalls == 1`. -/
def isReplaying (s : Session) (pid : Word) : Bool := pid == s.rrPid && s.replaySyscalls == 1

/-- `curr_pid == rr_pid && record_syscalls == 1`. -/
def isRecording (s : Session) (pid : Word) : Bool := pid == s.rrPid && s.recordSyscalls == 1

/-! ## Inputs -/

/-- Fetch an `int`, and leave by `fail` when that is not possible. -/
def fetchInt (fail : RecM Word) (pos : ℕ) : SysM σ ι π Word := do
  let m ← get
  match argint m.kern.proc pos with
  | some num => pure num
  | none => onCore fail

/-- Fetch a string, and leave by `fail` when that is not possible. -/
def fetchStr (fail : RecM (List Byte)) (pos : ℕ) : SysM σ ι π (List Byte) := do
  let m ← get
  match argstr m.kern.proc pos with
  | some str => pure str
  | none => onCore fail

/-- Fetch a pointer to `size` bytes, and leave by `fail` when that is not possible. -/
def fetchPtr (fail : RecM Word) (pos : ℕ) (size : Word) : SysM σ ι π Word := do
  let m ← get
  match argptr m.kern.proc pos size with
  | some addr => pure addr
  | none => onCore fail

/-- A fetched input. -/
inductive Arg where
  | int (num : Word)
  | str (text : List Byte)

/-- Fetch one input. -/
def fetchInput (fail : {α : Type} → RecM α) : Input → SysM σ ι π Arg
  | .int pos => do
    let num ← fetchInt fail pos
    pure (.int num)
  | .str pos => do
    let text ← fetchStr fail pos
    pure (.str text)

/-- Fetch all inputs of a handler, in order. -/
def fetchInputs (fail : {α : Type} → RecM α) : List Input → SysM σ ι π (List Arg)
  | [] => pure []
  | input :: inputs => do
    let arg ← fetchInput fail input
    let args ← fetchInputs fail inputs
    pure (arg :: args)

/-- `setInt(&call, …)` or `setByte(&call, transformNULLTerminatedStrToByte(…))`. -/
def setInput (call : Call) : Arg → RecM Call
  | .int num => setInt call num
  | .str text => do
    let bytes ← transformNULLTerminatedStrToByte text
    setByte call bytes

def setInputs : Call → List Arg → RecM Call
  | call, [] => pure call
  | call, arg :: args => do
    let call ← setInput call arg
    setInputs call args

/-! ## The common skeleton -/

/-- What a handler does when the log has no further call, after `replay_syscalls = -1`. -/
inductive Exhausted where
  /-- `exit()` -/
  | exit
  /-- `kill(rr_pid)` and `return -1` -/
  | killReturn
  /-- `kill(rr_pid)`, and on to the code below the branch -/
  | kill
deriving DecidableEq

/-- The value to return, unless control goes on below the branch. -/
def Exhausted.run : Exhausted → RecM (Option Word)
  | .exit => throw .exited
  | .killReturn => do
    modify fun c => { c with killed := true }
    pure (some (-1))
  | .kill => do
    modify fun c => { c with killed := true }
    pure none

/-- The parts in which the handlers differ. -/
structure Handler (σ ι π : Type) where
  /-- The argument of `createSyscall`. -/
  number : Byte
  exhausted : Exhausted
  /-- Replay, when the logged call has the same number. -/
  replay (recorded : Call) : SysM σ ι π Word
  record : SysM σ ι π Word
  original : KM σ ι π Word

/-- The replay branch: the value to return, unless control goes on below it. -/
def Handler.replayBranch (h : Handler σ ι π) : SysM σ ι π (Option Word) := do
  let recorded ← onCore getSyscall
  if recorded.syscall = uninitialized then do
    onCore (onSession fun s => { s with replaySyscalls := -1 })
    onCore h.exhausted.run
  else if recorded.syscall = h.number then do
    let r ← h.replay recorded
    pure (some r)
  else onCore replayExit

/-- What stands below the replay branch. -/
def Handler.below (h : Handler σ ι π) : SysM σ ι π Word := do
  let m ← get
  if isRecording m.core.session m.kern.proc.pid then h.record else onKern h.original

/-- A recorded system call. -/
def Handler.run (h : Handler σ ι π) : SysM σ ι π Word := do
  let m ← get
  if isReplaying m.core.session m.kern.proc.pid then do
    match ← h.replayBranch with
    | some r => pure r
    | none => h.below
  else h.below

/-- Replay for the calls whose only output is their return value: build the call from the
inputs and the recorded output, compare, and return that output. -/
def replayOutput (fail : {α : Type} → RecM α) (number : Byte) (inputs : List Input)
    (setOutput : Call → Word → RecM Call) (pos : Fin maxFieldSize) (recorded : Call) :
    SysM σ ι π Word := do
  let args ← fetchInputs fail inputs
  onCore do
    let replayed ← setInputs (createSyscall number) args
    let replayed ← setOutput replayed (getFieldData recorded pos).num
    compareSyscalls replayed recorded
    pure (getFieldData recorded pos).num

/-- Record for the calls whose only output is an `int`. -/
def recordOutput (number : Byte) (inputs : List Input) (body : KM σ ι π Word) :
    SysM σ ι π Word := do
  let args ← fetchInputs recordExit inputs
  let recorded ← onCore (setInputs (createSyscall number) args)
  let status ← onKern body
  let recorded ← onCore (setInt recorded status)
  onCore (addSyscall recorded)
  pure status

/-! ## `getpid` and `uptime` -/

def getpidOriginal : KM σ ι π Word := do
  let k ← get
  pure k.proc.pid

def sysGetpid : Handler σ ι π where
  number := V3.SYS.getpid
  exhausted := .kill
  replay := replayOutput replayExit V3.SYS.getpid [] setInt 0
  record := recordOutput V3.SYS.getpid [] getpidOriginal
  original := getpidOriginal

def uptimeOriginal : KM σ ι π Word := do
  let k ← get
  pure k.ticks

def sysUptime : Handler σ ι π where
  number := V3.SYS.uptime
  exhausted := .kill
  replay := replayOutput replayExit V3.SYS.uptime [] setUint 0
  record := do
    let xticks ← onKern uptimeOriginal
    let recorded ← onCore (setUint (createSyscall V3.SYS.uptime) xticks)
    onCore (addSyscall recorded)
    pure xticks
  original := uptimeOriginal

variable (ops : FsOps σ ι π)

/-! ## `read`, `close` and `fstat` -/

def replayRead (recorded : Call) : SysM σ ι π Word := do
  let fd ← fetchInt recordExit 0
  let n ← fetchInt recordExit 2
  let p ← fetchPtr recordExit 1 n
  onCore do
    let replayed ← setInt (createSyscall V3.SYS.read) fd
    let replayed ← setInt replayed n
    let replayed ← setInt replayed (getFieldData recorded 2).num
    let replayed ← setByte replayed (getFieldData recorded 3)
    compareSyscalls replayed recorded
  -- the copy is of `n` bytes, however long the content is
  if maxByteSize < n.toNat then throw .outOfBounds
  else do
    onKern (copyout p (getFieldData recorded 3).content n.toNat)
    pure (getFieldData recorded 2).num

def recordRead : SysM σ ι π Word := do
  let fd ← fetchInt recordExit 0
  let n ← fetchInt recordExit 2
  let recorded ← onCore (setInt (createSyscall V3.SYS.read) fd)
  let recorded ← onCore (setInt recorded n)
  let r ← onKern (V3.readRecorded ops)
  let m ← get
  onCore do
    let recorded ← setInt recorded r.1
    let bytes ← transformCharPointerToByte
      (r.2.map fun a j => m.kern.proc.mem (a.1.toNat + j)) n
    let recorded ← setByte recorded bytes
    addSyscall recorded
  pure r.1

def sysRead : Handler σ ι π where
  number := V3.SYS.read
  exhausted := .exit
  replay := replayRead
  record := recordRead ops
  original := V3.readOriginal ops

/-- The inputs are set only after the call has run. -/
def recordClose : SysM σ ι π Word := do
  let fd ← fetchInt recordExit 0
  let status ← onKern (V3.closeRecorded ops)
  onCore do
    let recorded ← setInt (createSyscall V3.SYS.close) fd
    let recorded ← setInt recorded status
    addSyscall recorded
  pure status

/-- A failed fetch in the replay branch poisons the replay flag, unlike elsewhere. -/
def sysClose : Handler σ ι π where
  number := V3.SYS.close
  exhausted := .kill
  replay := replayOutput replayExit V3.SYS.close [.int 0] setInt 1
  record := recordClose ops
  original := V3.closeOriginal ops

/-- The five stores through the pointer of a replayed `fstat`. -/
def storePackedStat (addr : ℕ) (st : Stat) (mem : Memory) : Memory :=
  putField (addr + 16) st.size (putField (addr + 12) st.nlink (putField (addr + 8) st.ino
    (putField (addr + 4) st.dev (putField addr st.type mem))))

def replayFstat (recorded : Call) : SysM σ ι π Word := do
  let fd ← fetchInt recordExit 0
  let st ← fetchPtr recordExit 1 statSize
  onCore do
    let replayed ← setInt (createSyscall V3.SYS.fstat) fd
    let replayed ← setInt replayed (getFieldData recorded 1).num
    let replayed ← setPackedStat replayed (getFieldData recorded 2).pstat
    compareSyscalls replayed recorded
  onKern (storeUser (storePackedStat st.toNat (getFieldData recorded 2).pstat))
  pure (getFieldData recorded 1).num

def recordFstat : SysM σ ι π Word := do
  let fd ← fetchInt recordExit 0
  let recorded ← onCore (setInt (createSyscall V3.SYS.fstat) fd)
  let r ← onKern (V3.fstatRecorded ops)
  let m ← get
  let recorded ← onCore (setInt recorded r.1)
  match r.2 with
  -- `transformStatPointerToPackedStat` through a pointer that was never set
  | none => throw .outOfBounds
  | some st => do
    let recorded ← onCore (setPackedStat recorded (loadStat m.kern.proc.mem st.toNat))
    onCore (addSyscall recorded)
    pure r.1

def sysFstat : Handler σ ι π where
  number := V3.SYS.fstat
  exhausted := .killReturn
  replay := replayFstat
  record := recordFstat ops
  original := V3.fstatOriginal ops

/-! ## `link` and `unlink` -/

def sysLink : Handler σ ι π where
  number := V3.SYS.link
  exhausted := .exit
  replay := replayOutput recordExit V3.SYS.link [.str 0, .str 1] setInt 2
  record := recordOutput V3.SYS.link [.str 0, .str 1] (V3.linkRecorded ops)
  original := V3.linkOriginal ops

/-- The pasted code of `sys_unlink`: the status, or nothing where it still has
`return -1`, which leaves the handler. -/
def unlinkRecorded : KM σ ι π (Option Word) := do
  let k ← get
  match argstr k.proc 0 with
  | none => pure none
  | some path => do
    onFs ops.beginOp
    match ← onFs (ops.nameiparent k.proc.cwd path) with
    | none => do
      onFs ops.endOp
      pure none
    | some (dp, name) => do
      let status ← V3.unlinkFound ops dp name
      pure (some status)

def recordUnlink : SysM σ ι π Word := do
  let args ← fetchInputs recordExit [.str 0]
  let recorded ← onCore (setInputs (createSyscall V3.SYS.unlink) args)
  match ← onKern (unlinkRecorded ops) with
  | none => pure (-1)
  | some status => do
    let recorded ← onCore (setInt recorded status)
    onCore (addSyscall recorded)
    pure status

def sysUnlink : Handler σ ι π where
  number := V3.SYS.unlink
  exhausted := .exit
  replay := replayOutput recordExit V3.SYS.unlink [.str 0] setInt 1
  record := recordUnlink ops
  original := V3.unlinkOriginal ops

/-! ## `open`, `mkdir`, `mknod` and `chdir` -/

def sysOpen : Handler σ ι π where
  number := V3.SYS.open
  exhausted := .exit
  replay := replayOutput recordExit V3.SYS.open [.str 0, .int 1] setInt 2
  record := recordOutput V3.SYS.open [.str 0, .int 1] (V3.openRecorded ops)
  original := V3.openOriginal ops

def sysMkdir : Handler σ ι π where
  number := V3.SYS.mkdir
  exhausted := .exit
  replay := replayOutput recordExit V3.SYS.mkdir [.str 0] setInt 1
  record := recordOutput V3.SYS.mkdir [.str 0] (V3.mkdirRecorded ops)
  original := V3.mkdirOriginal ops

def sysMknod : Handler σ ι π where
  number := V3.SYS.mknod
  exhausted := .exit
  replay := replayOutput recordExit V3.SYS.mknod [.str 0, .int 1, .int 2] setInt 3
  record := recordOutput V3.SYS.mknod [.str 0, .int 1, .int 2] (V3.mknodRecorded ops)
  original := V3.mknodOriginal ops

def sysChdir : Handler σ ι π where
  number := V3.SYS.chdir
  exhausted := .exit
  replay := replayOutput recordExit V3.SYS.chdir [.str 0] setInt 1
  record := recordOutput V3.SYS.chdir [.str 0] (V3.chdirRecorded ops)
  original := V3.chdirOriginal ops

/-! ## The dispatch table -/

/-- The recorded entries of `syscalls[]`. -/
def handler : Kind → Handler σ ι π
  | .getpid => sysGetpid
  | .uptime => sysUptime
  | .read => sysRead ops
  | .close => sysClose ops
  | .fstat => sysFstat ops
  | .link => sysLink ops
  | .unlink => sysUnlink ops
  | .open => sysOpen ops
  | .mkdir => sysMkdir ops
  | .mknod => sysMknod ops
  | .chdir => sysChdir ops

end

end V2
