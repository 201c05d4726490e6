/-
# Sessions: starting, stopping, exiting (`v3/sysproc.c`, `v3/sysfile.c`, `v3/trap.c`)

The four session system calls with the file helpers they use, `sys_exit`, and the
system call path of `trap`, which decides whether a result reaches user mode.
-/
import Xv6Recorder.V3Handlers

open Bytes StateError Xv6

namespace V3

section

variable {σ ι π : Type}

/-- Change the session. -/
def onSession (f : Session → Session) : SysM σ ι π Unit :=
  onCore (modify fun c => { c with session := f c.session })

/-- The text that `__strcpy(dest, src, maxlen)` leaves in `dest`. -/
def strcpy (src : List Byte) (maxlen : ℕ) : List Byte := src.take (maxlen - 1)

/-- The loop that resets every record. -/
def resetScrs (scrs : ℤ → SCR) : ℤ → SCR := fun i =>
  if 0 ≤ i ∧ i < maxScrs then createSCR unitializedScr else scrs i

/-- The resets that the two start calls share. -/
def Session.reset (s : Session) (pid : Word) : Session :=
  { s with
    recordedScrs := resetScrs s.recordedScrs
    scrsIdx := 0
    rrPid := pid
    bufferPos := 0
    bufferSeen := 0 }

/-! ## File helpers -/

variable (ops : FsOps σ ι π)

/-- The first half of `my_open`: the inode, locked, unless there is none. -/
def myOpenFind (path : List Byte) (omode : Word) : KM σ ι π (Option ι) := do
  onFs ops.beginOp
  let k ← get
  if omode &&& oCreate ≠ 0 then do
    match ← create ops path tFile 0 0 with
    | none => do
      onFs ops.endOp
      pure none
    | some ip => pure (some ip)
  else
    match ← onFs (ops.namei k.proc.cwd path) with
    | none => do
      onFs ops.endOp
      pure none
    | some ip => do
      onFs (ops.ilock ip)
      let k ← get
      if (ops.inode k.fs ip).type = tDir ∧ omode ≠ oRdonly then do
        iunlockput ops ip
        onFs ops.endOp
        pure none
      else pure (some ip)

/-- The second half of `my_open`: an open file and a descriptor for the inode. -/
def myOpenInode (ip : ι) (omode : Word) : KM σ ι π Word := do
  match ← filealloc with
  | none => do
    iunlockput ops ip
    onFs ops.endOp
    pure (-1)
  | some f =>
    match ← fdalloc f with
    | none => do
      fileclose ops f
      iunlockput ops ip
      onFs ops.endOp
      pure (-1)
    | some fd => do
      onFs (ops.iunlock ip)
      onFs ops.endOp
      modify (openedFile f ip omode)
      pure (BitVec.ofNat 32 fd)

def myOpen (path : List Byte) (omode : Word) : KM σ ι π Word := do
  match ← myOpenFind ops path omode with
  | none => pure (-1)
  | some ip => myOpenInode ops ip omode

def myRead (fd n : Word) : KM σ ι π (Word × List Byte) := do
  let k ← get
  match myArgfd k.proc fd with
  | none => pure (-1, [])
  | some (_, f) => fileread ops f n

def myWrite (fd : Word) (src : List Byte) : KM σ ι π Word := do
  let k ← get
  match myArgfd k.proc fd with
  | none => pure (-1)
  | some (_, f) => filewrite ops f src

def myClose (fd : Word) : KM σ ι π Word := do
  let k ← get
  match myArgfd k.proc fd with
  | none => pure (-1)
  | some (fd, f) => do
    modify (setFd fd none)
    fileclose ops f
    pure 0

/-! ## Recording -/

/-- Neither the replay flag nor anything else of an earlier session is looked at. -/
def sysRecordStart : SysM σ ι π Word := do
  let m ← get
  match argstr m.kern.proc 0 with
  | none => pure (-1)
  | some filename => do
    onSession fun s => { s with recordFilename := strcpy filename 255, recordSyscalls := 1 }
    onSession fun s => s.reset m.kern.proc.pid
    let m ← get
    pure m.core.session.recordSyscalls

/-- The error exit of the file part of `sys_record_stop`. -/
def recordFail : SysM σ ι π Word := do
  onSession fun s => { s with recordSyscalls := -1 }
  onCore (modify recRepErr)
  let m ← get
  pure m.core.session.recordSyscalls

/-- The file part of `sys_record_stop`. -/
def saveSession : SysM σ ι π Word := do
  let m ← get
  let fd ← onKern (myOpen ops m.core.session.recordFilename (oCreate ||| oRdwr))
  if fd = -1 then recordFail
  else do
    let w ← onKern (myWrite ops fd
      (slice m.core.session.buffer 0 m.core.session.bufferPos.toNat))
    if w = -1 then recordFail
    else do
      let c ← onKern (myClose ops fd)
      if c = -1 then recordFail
      else do
        let m ← get
        pure m.core.session.recordSyscalls

def sysRecordStop : SysM σ ι π Word := do
  let m ← get
  if isRecording m.core.session m.kern.proc.pid then do
    let ok ← onCore packScrs
    if ok then do
      onSession fun s => { s with recordSyscalls := 0 }
      saveSession ops
    else do
      onCore (modify recRepErr)
      pure (-1)
  else pure m.core.session.recordSyscalls

/-! ## Replaying -/

/-- The error exits of the file part of `sys_replay_start`. -/
def replayFail : SysM σ ι π Word := do
  onSession fun s => { s with replaySyscalls := -1 }
  onCore (modify recRepErr)
  let m ← get
  pure m.core.session.replaySyscalls

/-- The file part of `sys_replay_start`: what `my_read` returned, with its bytes
stored in `buffer`; nothing after an error. -/
def loadSession : SysM σ ι π (Option Word) := do
  let m ← get
  let fd ← onKern (myOpen ops m.core.session.replayFilename oRdwr)
  if fd = -1 then pure none
  else do
    let r ← onKern (myRead ops fd (BitVec.ofNat 32 maxFileSize))
    onSession fun s => { s with buffer := overlay s.buffer 0 r.2 }
    if r.1 = -1 then pure none
    else do
      let c ← onKern (myClose ops fd)
      if c = -1 then pure none else pure (some r.1)

/-- The decoding part of `sys_replay_start`.  A record that the decoder rejects leaves
the replay flag and the record count as they are. -/
def decodeSession (rStatus : Word) : SysM σ ι π Word := do
  let ok ← onCore (unpackScrs rStatus.toInt)
  if ok then do
    let m ← get
    pure m.core.session.replaySyscalls
  else pure (-1)

omit ops in
theorem decodeSession_of_ok {m : Machine σ ι π} {rStatus : Word} {ok : Bool} {c : Core}
    (h : (unpackScrs rStatus.toInt).run m.core = .ok ok c) :
    (decodeSession rStatus : SysM σ ι π Word).run m
      = .ok (if ok then c.session.replaySyscalls else -1) { m with core := c } := by
  rw [decodeSession, run_bind_of_ok (run_onCore_of_ok h)]
  cases ok <;> rfl

def sysReplayStart : SysM σ ι π Word := do
  let m ← get
  match argstr m.kern.proc 0 with
  | none => pure (-1)
  | some filename => do
    onSession fun s => { s with replayFilename := strcpy filename 255, replaySyscalls := 1 }
    onSession fun s => s.reset m.kern.proc.pid
    match ← loadSession ops with
    | none => replayFail
    | some rStatus => decodeSession rStatus

def sysReplayStop : SysM σ ι π Word := do
  let m ← get
  if isReplaying m.core.session m.kern.proc.pid then
    onSession fun s => { s with replaySyscalls := 0 }
  let m ← get
  pure m.core.session.replaySyscalls

/-! ## Exit and the system call trap -/

/-- The loop of `exit` that closes all open files. -/
def closeAll : List (Fin nofile) → KM σ ι π Unit
  | [] => pure ()
  | fd :: fds => do
    let k ← get
    match k.proc.ofile fd with
    | none => pure ()
    | some f => do
      fileclose ops f
      modify (setFd fd none)
    closeAll fds

/-- `exit` of `proc.c`, up to the point where the process becomes a zombie. -/
def exit : KM σ ι π Unit := do
  let k ← get
  if k.proc.isInit then throw "init exiting"
  else do
    closeAll ops (List.finRange nofile)
    onFs ops.beginOp
    let k ← get
    onFs (ops.iput k.proc.cwd)
    onFs ops.endOp

def sysExit : SysM σ ι π Unit := do
  let _ ← sysReplayStop
  let _ ← sysRecordStop ops
  onKern (exit ops)

/-- The system calls that concern a session. -/
inductive Syscall where
  | call (kind : Kind)
  | recordStart
  | recordStop
  | replayStart
  | replayStop
  | exit
deriving DecidableEq

/-- The calls that start a session. -/
def Syscall.isStart : Syscall → Bool
  | .recordStart | .replayStart => true
  | _ => false

/-- `syscall`: the value for `eax`, or nothing when the process has exited. -/
def syscall (frame : Frame) : Syscall → SysM σ ι π (Option Word)
  | .call kind => do
    let r ← (handler ops kind).run frame
    pure (some r)
  | .recordStart => do
    let r ← sysRecordStart
    pure (some r)
  | .recordStop => do
    let r ← sysRecordStop ops
    pure (some r)
  | .replayStart => do
    let r ← sysReplayStart ops
    pure (some r)
  | .replayStop => do
    let r ← sysReplayStop
    pure (some r)
  | .exit => do
    sysExit ops
    pure none

/-- The system call path of `trap`: the value that user mode sees, or nothing when
the process has exited instead. -/
def trap (frame : Frame) (sc : Syscall) : SysM σ ι π (Option Word) := do
  let m ← get
  if m.core.killed then do
    onKern (exit ops)
    pure none
  else
    match ← syscall ops frame sc with
    | none => pure none
    | some eax => do
      let m ← get
      if m.core.killed then do
        onKern (exit ops)
        pure none
      else pure (some eax)

end

end V3
