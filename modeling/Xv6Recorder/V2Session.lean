/-
# Sessions of the second recorder (`v2/sysproc.c`, `v2/trap.c`)

The four session system calls, `sys_exit`, which runs both stop calls, and the system call
path of `trap`.  The two stop calls test the mode flag and not the owner: whoever makes
them ends the session.  The file helpers `my_open`, `my_read`, `my_write`, `my_close` and
`exit` have the same text as in the third recorder.

The local buffers of the two calls that move a session to or from its file hold, where
nothing was stored, what the kernel stack holds: the parameter `stack`.  The size of the kernel
stack is not modelled; the two buffers have 60000 bytes each, and the stack has 4096.
-/
import Xv6Recorder.V2Codec
import Xv6Recorder.V2Handlers
import Xv6Recorder.V3Session

open Bytes StateError Xv6
open V3 (Kind myOpen myRead myWrite myClose strcpy)

namespace V2

section

variable {σ ι π α : Type}

/-- Run a codec program from a fresh cursor on a local buffer. -/
def onBuffer (buffer : Memory) (x : CodecM α) : SysM σ ι π (α × Cursor) := fun m =>
  match x.run ⟨buffer, 0⟩ with
  | .ok a c => .ok (a, c) m
  | .error e _ => .error e m

theorem run_onBuffer_of_ok {buffer : Memory} {x : CodecM α} {a : α} {c : Cursor}
    (h : x.run ⟨buffer, 0⟩ = .ok a c) (m : Machine σ ι π) :
    (onBuffer buffer x).run m = .ok (a, c) m := by
  rw [EStateM.run, onBuffer, h]

theorem run_onBuffer_of_error {buffer : Memory} {x : CodecM α} {e : Halt} {c : Cursor}
    (h : x.run ⟨buffer, 0⟩ = .error e c) (m : Machine σ ι π) :
    (onBuffer buffer x).run m = .error e m := by
  rw [EStateM.run, onBuffer, h]

/-! ## Recording -/

def sysRecordStart : SysM σ ι π Word := do
  let m ← get
  match argstr m.kern.proc 0 with
  | none => pure (-1)
  | some filename => do
    onCore (onSession fun s => { s with
      recordFilename := strcpy filename 255, recordSyscalls := 1, replaySyscalls := 0 })
    onCore (onSession fun s => { resetSyscalls s with rrPid := m.kern.proc.pid })
    let m ← get
    pure m.core.session.recordSyscalls

variable (ops : FsOps σ ι π) (stack : Memory)

/-- The file part of `sys_record_stop`. -/
def saveSession : SysM σ ι π Unit := do
  let m ← get
  let fd ← onKern (myOpen ops m.core.session.recordFilename (oCreate ||| oRdwr))
  if fd = -1 then onCore recordExit
  else do
    let r ← onBuffer stack (compressCalls m.core.session.calls m.core.session.syscallIdx 0)
    let w ← onKern (myWrite ops fd (slice r.2.data 0 r.2.pos))
    if w = -1 then onCore recordExit
    else do
      let c ← onKern (myClose ops fd)
      if c = -1 then onCore recordExit else pure ()

def sysRecordStop : SysM σ ι π Word := do
  let m ← get
  if m.core.session.recordSyscalls = 1 then do
    onCore (onSession fun s => { s with recordSyscalls := 0 })
    saveSession ops stack
    onCore (onSession fun s => { s with rrPid := -1 })
  let m ← get
  pure m.core.session.recordSyscalls

/-! ## Replaying -/

/-- The file part of `sys_replay_start`. -/
def loadSession : SysM σ ι π Unit := do
  let m ← get
  let fd ← onKern (myOpen ops m.core.session.replayFilename oRdwr)
  if fd = -1 then onCore replayExit
  else do
    let r ← onKern (myRead ops fd (BitVec.ofNat 32 bufferSize))
    if r.1 = -1 then onCore replayExit
    else do
      let m ← get
      let calls ← onBuffer (overlay stack 0 r.2)
        (uncompressCalls r.1.toInt maxSysCalls 0 m.core.session.calls)
      onCore (onSession fun s => { s with calls := calls.1 })
      let c ← onKern (myClose ops fd)
      if c = -1 then onCore replayExit else pure ()

def sysReplayStart : SysM σ ι π Word := do
  let m ← get
  match argstr m.kern.proc 0 with
  | none => pure (-1)
  | some filename => do
    onCore (onSession fun s => { s with
      replayFilename := strcpy filename 255, replaySyscalls := 1, recordSyscalls := 0 })
    onCore (onSession fun s => { resetSyscalls s with rrPid := m.kern.proc.pid })
    loadSession ops stack
    let m ← get
    pure m.core.session.replaySyscalls

/-- The owner is forgotten whether or not a replay was going on. -/
def sysReplayStop : SysM σ ι π Word := do
  let m ← get
  if m.core.session.replaySyscalls = 1 then
    onCore (onSession fun s => { s with replaySyscalls := 0 })
  onCore (onSession fun s => { s with rrPid := -1 })
  let m ← get
  pure m.core.session.replaySyscalls

/-! ## Exit and the system call trap -/

def sysExit : SysM σ ι π Word := do
  let _ ← sysReplayStop
  let _ ← sysRecordStop ops stack
  throw .exited

/-- `syscall`: the value for `eax`. -/
def syscall : V3.Syscall → SysM σ ι π Word
  | .call kind => (handler ops kind).run
  | .recordStart => sysRecordStart
  | .recordStop => sysRecordStop ops stack
  | .replayStart => sysReplayStart ops stack
  | .replayStop => sysReplayStop
  | .exit => sysExit ops stack

/-- `exit`, after which nothing is returned to user mode. -/
def leave : SysM σ ι π (Option Word) := do
  onKern (V3.exit ops)
  pure none

/-- The system call path of `trap`: the value that user mode sees, or nothing when the
process has exited instead, here or where the handler called `exit`. -/
def trap (sc : V3.Syscall) : SysM σ ι π (Option Word) := fun m =>
  if m.core.killed then (leave ops).run m
  else
    match (syscall ops stack sc).run m with
    | .ok eax m' => if m'.core.killed then (leave ops).run m' else .ok (some eax) m'
    | .error .exited m' => (leave ops).run m'
    | .error e m' => .error e m'

end

end V2
