/-
# The eleven recorded system calls (`v3/sysfile.c`, `v3/sysproc.c`)

Every handler has the same three branches.  While its caller is replaying it
builds a record from its inputs, compares it with the next record of the log and
returns the recorded output; while its caller is recording it builds the same
record, runs a second copy of the kernel code, appends the outputs and logs the
record; otherwise it runs the original code.  `Handler.run` is this skeleton, and
each handler fills it in.  The two copies of the kernel code are kept apart.
-/
import Xv6Recorder.Kernel
import Xv6Recorder.V3Codec

open Bytes StateError Xv6

namespace V3

/-! ## Programs on the whole machine -/

/-- The machine as one system call sees it: the recorder's state and the kernel. -/
structure Machine (σ ι π : Type) where
  core : Core
  kern : Kern σ ι π

/-- System call programs. -/
abbrev SysM (σ ι π : Type) := EStateM Halt (Machine σ ι π)

/-- What the kernel stack holds where the code loads without having stored:
`around i` lies at index `i` of the `args` of the local record when `i` is out of
range, and `n` is in the local of that name. -/
structure Frame where
  around : ℤ → Arg
  n : Word

section

variable {σ ι π α : Type}

/-- Run a program of the recorder. -/
def onCore (x : RecM α) : SysM σ ι π α :=
  zoom Machine.core (fun c m => { m with core := c }) id x

/-- Run a kernel program. -/
def onKern (x : KM σ ι π α) : SysM σ ι π α :=
  zoom Machine.kern (fun k m => { m with kern := k }) Halt.panic x

theorem run_onCore_of_ok {m : Machine σ ι π} {a : α} {x : RecM α} {c : Core}
    (h : x.run m.core = .ok a c) :
    (onCore x : SysM σ ι π α).run m = .ok a { m with core := c } :=
  run_zoom_of_ok h

theorem run_onCore_of_error {m : Machine σ ι π} {x : RecM α} {e : Halt} {c : Core}
    (h : x.run m.core = .error e c) :
    (onCore x : SysM σ ι π α).run m = .error e { m with core := c } :=
  run_zoom_of_error h

theorem run_onKern_of_ok {m : Machine σ ι π} {a : α} {x : KM σ ι π α} {k : Kern σ ι π}
    (h : x.run m.kern = .ok a k) : (onKern x).run m = .ok a { m with kern := k } :=
  run_zoom_of_ok h

theorem run_onKern_of_error {m : Machine σ ι π} {x : KM σ ι π α} {msg : String}
    {k : Kern σ ι π} (h : x.run m.kern = .error msg k) :
    (onKern x).run m = .error (.panic msg) { m with kern := k } :=
  run_zoom_of_error h

/-- The recorder's state stays as it is. -/
def Machine.SameCore (m m' : Machine σ ι π) : Prop := m'.core = m.core

instance : IsPreorder (Machine σ ι π) Machine.SameCore where
  refl _ := rfl
  trans _ _ _ h h' := h'.trans h

theorem sameCore_onKern (x : KM σ ι π α) : Keeps Machine.SameCore (onKern x) :=
  Keeps.zoom (Q := fun _ _ => True) (fun _ => trivial) fun _ _ _ => rfl

/-- `scr.args[i]`, in range or not. -/
def SCR.argAt (scr : SCR) (frame : Frame) (i : ℤ) : Arg :=
  if h : 0 ≤ i ∧ i < maxArgc then scr.args ⟨i.toNat, by omega⟩ else frame.around i

/-- `scr.args[get1stOutputPos(scr.syscall)].val.num`. -/
def SCR.firstOutput (scr : SCR) (frame : Frame) : Word :=
  (scr.argAt frame (get1stOutputPos scr.syscall)).val.num

/-! ## Inputs -/

/-- `myargint`: a failed fetch calls the error helper and gives `-1`. -/
def myargint (pos : ℕ) : SysM σ ι π Word := do
  let m ← get
  match argint m.kern.proc pos with
  | some val => pure val
  | none => do
    onCore (modify recRepErr)
    pure (-1)

/-- `myargstr`: a failed fetch calls the error helper and gives the empty string. -/
def myargstr (pos : ℕ) : SysM σ ι π (List Byte) := do
  let m ← get
  match argstr m.kern.proc pos with
  | some val => pure val
  | none => do
    onCore (modify recRepErr)
    pure []

/-- An input of a handler: the fetch function and the argument it fetches. -/
inductive Input where
  | int (pos : ℕ)
  | str (pos : ℕ)
deriving DecidableEq

/-- `addInt(&scr, myargint(pos, …))` or `addStr(&scr, myargstr(pos, …))`. -/
def Input.add (scr : SCR) : Input → SysM σ ι π SCR
  | .int pos => do
    let val ← myargint pos
    onCore (addInt scr val)
  | .str pos => do
    let val ← myargstr pos
    onCore (addStr scr val)

/-- Add all inputs of a handler, in order. -/
def addInputs : List Input → SCR → SysM σ ι π SCR
  | [], scr => pure scr
  | input :: inputs, scr => do
    let scr ← input.add scr
    addInputs inputs scr

/-- `compareSCRS` on the whole machine. -/
def compare (scr : SCR) : SysM σ ι π SCR :=
  onCore fun c => .ok (compareSCRS scr c).1 (compareSCRS scr c).2

/-! ## The common skeleton -/

/-- The parts in which the handlers differ. -/
structure Handler (σ ι π : Type) where
  /-- The argument of `createSCR`. -/
  number : Byte
  inputs : List Input
  /-- Replay, after `compareSCRS`. -/
  replay (frame : Frame) (recorded : SCR) : SysM σ ι π Word
  /-- Record, after the inputs: run the call and add its outputs. -/
  record (scr : SCR) : SysM σ ι π SCR
  original : KM σ ι π Word

/-- Build the record, compare it with the log, and answer from the log. -/
def Handler.replayBranch (h : Handler σ ι π) (frame : Frame) : SysM σ ι π Word := do
  let scr ← addInputs h.inputs (createSCR h.number)
  let recorded ← compare scr
  h.replay frame recorded

/-- Build the record, run the call, log the record, and answer from the record. -/
def Handler.recordBranch (h : Handler σ ι π) (frame : Frame) : SysM σ ι π Word := do
  let scr ← addInputs h.inputs (createSCR h.number)
  let scr ← h.record scr
  onCore (modify (addSRC scr))
  pure (scr.firstOutput frame)

/-- A recorded system call. -/
def Handler.run (h : Handler σ ι π) (frame : Frame) : SysM σ ι π Word := do
  let m ← get
  if isReplaying m.core.session m.kern.proc.pid then h.replayBranch frame
  else if isRecording m.core.session m.kern.proc.pid then h.recordBranch frame
  else onKern h.original

/-- Replay for the calls whose only output is their return value. -/
def replayOutput (frame : Frame) (recorded : SCR) : SysM σ ι π Word :=
  pure (recorded.firstOutput frame)

/-- Record for the calls whose only output is an `int`. -/
def recordOutput (body : KM σ ι π Word) (scr : SCR) : SysM σ ι π SCR := do
  let output ← onKern body
  onCore (addInt scr output)

/-! ## `getpid` and `uptime` -/

def sysGetpid : Handler σ ι π where
  number := SYS.getpid
  inputs := []
  replay := replayOutput
  record := recordOutput do
    let k ← get
    pure k.proc.pid
  original := do
    let k ← get
    pure k.proc.pid

def sysUptime : Handler σ ι π where
  number := SYS.uptime
  inputs := []
  replay := replayOutput
  record scr := do
    let m ← get
    onCore (addUInt scr m.kern.ticks)
  original := do
    let k ← get
    pure k.ticks

variable (ops : FsOps σ ι π)

/-! ## `read`, `close` and `fstat` -/

/-- The recorded copy of `read`: the result, and the pointer and size that the later
`addRaw` uses.  The pointer is not set when a check fails. -/
def readRecorded : KM σ ι π (Word × Option (Word × Word)) := do
  let k ← get
  match argfd k.proc 0, argint k.proc 2 with
  | some (_, f), some n =>
    match argptr k.proc 1 n with
    | some p => do
      let r ← fileread ops f n
      storeUser fun mem => overlay mem p.toNat r.2
      pure (r.1, some (p, n))
    | none => pure (-1, none)
  | _, _ => pure (-1, none)

def readOriginal : KM σ ι π Word := do
  let k ← get
  match argfd k.proc 0, argint k.proc 2 with
  | some (_, f), some n =>
    match argptr k.proc 1 n with
    | some p => do
      let r ← fileread ops f n
      storeUser fun mem => overlay mem p.toNat r.2
      pure r.1
    | none => pure (-1)
  | _, _ => pure (-1)

/-- The replayed `read`: copy as many bytes as the record says, whether or not the
comparison succeeded. -/
def replayRead (frame : Frame) (recorded : SCR) : SysM σ ι π Word := do
  let m ← get
  let pos := get1stOutputPos recorded.syscall
  match argptr m.kern.proc 1 ((argint m.kern.proc 2).getD frame.n) with
  | none => do
    onCore (modify recRepErr)
    pure (-1)
  | some p => do
    onKern (copyout p (recorded.argAt frame (pos + 1)).val.rawData
      (recorded.argAt frame (pos - 1)).val.num.toNat)
    pure (recorded.argAt frame pos).val.num

def sysRead : Handler σ ι π where
  number := SYS.read
  inputs := [.int 0, .int 2]
  replay := replayRead
  record scr := do
    let r ← onKern (readRecorded ops)
    let scr ← onCore (addInt scr r.1)
    match r.2 with
    -- `addRaw` through a pointer that was never set
    | none => throw .outOfBounds
    | some (p, n) => do
      let m ← get
      onCore (addRaw scr (fun j => m.kern.proc.mem (p.toNat + j)) n)
  original := readOriginal ops

def closeRecorded : KM σ ι π Word := do
  let k ← get
  match argfd k.proc 0 with
  | none => pure (-1)
  | some (fd, f) => do
    modify (setFd fd none)
    fileclose ops f
    pure 0

def closeOriginal : KM σ ι π Word := do
  let k ← get
  match argfd k.proc 0 with
  | none => pure (-1)
  | some (fd, f) => do
    modify (setFd fd none)
    fileclose ops f
    pure 0

def sysClose : Handler σ ι π where
  number := SYS.close
  inputs := [.int 0]
  replay := replayOutput
  record := recordOutput (closeRecorded ops)
  original := closeOriginal ops

/-- `filestat` through a checked user pointer. -/
def filestatUser (f : Fin nfile) (st : Word) : KM σ ι π Word := do
  let r ← filestat ops f
  match r.2 with
  | some stat => storeUser (storeStat st.toNat stat)
  | none => pure ()
  pure r.1

/-- The recorded copy of `fstat`: the result, and the pointer that the later
`addStat` uses. -/
def fstatRecorded : KM σ ι π (Word × Option Word) := do
  let k ← get
  match argfd k.proc 0, argptr k.proc 1 statSize with
  | some (_, f), some st => do
    let r ← filestatUser ops f st
    pure (r, some st)
  | _, _ => pure (-1, none)

def fstatOriginal : KM σ ι π Word := do
  let k ← get
  match argfd k.proc 0, argptr k.proc 1 statSize with
  | some (_, f), some st => filestatUser ops f st
  | _, _ => pure (-1)

/-- The replayed `fstat`: five stores, whether or not the comparison succeeded. -/
def replayFstat (frame : Frame) (recorded : SCR) : SysM σ ι π Word := do
  let m ← get
  let pos := get1stOutputPos recorded.syscall
  match argptr m.kern.proc 1 statSize with
  | none => do
    onCore (modify recRepErr)
    pure (-1)
  | some st => do
    let val := (recorded.argAt frame (pos + 1)).val
    onKern (storeUser fun mem =>
      putField (st.toNat + 4) val.stDev (putField (st.toNat + 12) val.stNlink
        (putField (st.toNat + 8) val.stIno (putField (st.toNat + 16) val.stSize
          (putField st.toNat val.stType mem)))))
    pure (recorded.argAt frame pos).val.num

def sysFstat : Handler σ ι π where
  number := SYS.fstat
  inputs := [.int 0]
  replay := replayFstat
  record scr := do
    let r ← onKern (fstatRecorded ops)
    let scr ← onCore (addInt scr r.1)
    match r.2 with
    | none => throw .outOfBounds
    | some st => do
      let m ← get
      onCore (addStat scr (loadStat m.kern.proc.mem st.toNat))
  original := fstatOriginal ops

/-! ## `link` and `unlink` -/

def linkRecorded : KM σ ι π Word := do
  let k ← get
  match argstr k.proc 0, argstr k.proc 1 with
  | some old, some new => do
    onFs ops.beginOp
    match ← onFs (ops.namei k.proc.cwd old) with
    | none => do
      onFs ops.endOp
      pure (-1)
    | some ip => do
      onFs (ops.ilock ip)
      let k ← get
      if (ops.inode k.fs ip).type = tDir then do
        iunlockput ops ip
        onFs ops.endOp
        pure (-1)
      else do
        assign ops ip fun n => { n with nlink := n.nlink + 1 }
        onFs (ops.iupdate ip)
        onFs (ops.iunlock ip)
        match ← onFs (ops.nameiparent k.proc.cwd new) with
        | none => do
          onFs (ops.ilock ip)
          assign ops ip fun n => { n with nlink := n.nlink - 1 }
          onFs (ops.iupdate ip)
          iunlockput ops ip
          onFs ops.endOp
          pure (-1)
        | some (dp, name) => do
          onFs (ops.ilock dp)
          let k ← get
          let failed ←
            if (ops.inode k.fs dp).dev ≠ (ops.inode k.fs ip).dev then pure true
            else do
              let r ← onFs (ops.dirlink dp name (ops.inode k.fs ip).inum)
              pure (decide (r.toInt < 0))
          if failed then do
            iunlockput ops dp
            onFs (ops.ilock ip)
            assign ops ip fun n => { n with nlink := n.nlink - 1 }
            onFs (ops.iupdate ip)
            iunlockput ops ip
            onFs ops.endOp
            pure (-1)
          else do
            iunlockput ops dp
            onFs (ops.iput ip)
            onFs ops.endOp
            pure 0
  | _, _ => pure (-1)

/-- The label `bad` of `sys_link`. -/
def linkBad (ip : ι) : KM σ ι π Word := do
  onFs (ops.ilock ip)
  assign ops ip fun n => { n with nlink := n.nlink - 1 }
  onFs (ops.iupdate ip)
  iunlockput ops ip
  onFs ops.endOp
  pure (-1)

def linkOriginal : KM σ ι π Word := do
  let k ← get
  match argstr k.proc 0, argstr k.proc 1 with
  | some old, some new => do
    onFs ops.beginOp
    match ← onFs (ops.namei k.proc.cwd old) with
    | none => do
      onFs ops.endOp
      pure (-1)
    | some ip => do
      onFs (ops.ilock ip)
      let k ← get
      if (ops.inode k.fs ip).type = tDir then do
        iunlockput ops ip
        onFs ops.endOp
        pure (-1)
      else do
        assign ops ip fun n => { n with nlink := n.nlink + 1 }
        onFs (ops.iupdate ip)
        onFs (ops.iunlock ip)
        match ← onFs (ops.nameiparent k.proc.cwd new) with
        | none => linkBad ops ip
        | some (dp, name) => do
          onFs (ops.ilock dp)
          let k ← get
          let failed ←
            if (ops.inode k.fs dp).dev ≠ (ops.inode k.fs ip).dev then pure true
            else do
              let r ← onFs (ops.dirlink dp name (ops.inode k.fs ip).inum)
              pure (decide (r.toInt < 0))
          if failed then do
            iunlockput ops dp
            linkBad ops ip
          else do
            iunlockput ops dp
            onFs (ops.iput ip)
            onFs ops.endOp
            pure 0
  | _, _ => pure (-1)

def sysLink : Handler σ ι π where
  number := SYS.link
  inputs := [.str 0, .str 1]
  replay := replayOutput
  record := recordOutput (linkRecorded ops)
  original := linkOriginal ops

/-- The copied code of `sys_unlink` once the parent directory has been found. -/
def unlinkFound (dp : ι) (name : List Byte) : KM σ ι π Word := do
  onFs (ops.ilock dp)
  if namecmp name dot ∨ namecmp name dotdot then do
    iunlockput ops dp
    onFs ops.endOp
    pure (-1)
  else
    match ← onFs (ops.dirlookup dp name) with
    | none => do
      iunlockput ops dp
      onFs ops.endOp
      pure (-1)
    | some (ip, off) => do
      onFs (ops.ilock ip)
      let k ← get
      if (ops.inode k.fs ip).nlink.toInt < 1 then throw "unlink: nlink < 1"
      else do
        let full ←
          if (ops.inode k.fs ip).type = tDir then do
            let empty ← isdirempty ops ip
            pure (!empty)
          else pure false
        if full then do
          iunlockput ops ip
          iunlockput ops dp
          onFs ops.endOp
          pure (-1)
        else do
          let r ← onFs (ops.writei dp (List.replicate direntSize 0) off)
          if r ≠ BitVec.ofNat 32 direntSize then throw "unlink: writei"
          else do
            let k ← get
            if (ops.inode k.fs ip).type = tDir then do
              assign ops dp fun n => { n with nlink := n.nlink - 1 }
              onFs (ops.iupdate dp)
            iunlockput ops dp
            assign ops ip fun n => { n with nlink := n.nlink - 1 }
            onFs (ops.iupdate ip)
            iunlockput ops ip
            onFs ops.endOp
            pure 0

def unlinkRecorded : KM σ ι π Word := do
  let k ← get
  match argstr k.proc 0 with
  | none => pure (-1)
  | some path => do
    onFs ops.beginOp
    match ← onFs (ops.nameiparent k.proc.cwd path) with
    | none => do
      onFs ops.endOp
      pure (-1)
    | some (dp, name) => unlinkFound ops dp name

/-- The label `bad` of `sys_unlink`. -/
def unlinkBad (dp : ι) : KM σ ι π Word := do
  iunlockput ops dp
  onFs ops.endOp
  pure (-1)

def unlinkOriginal : KM σ ι π Word := do
  let k ← get
  match argstr k.proc 0 with
  | none => pure (-1)
  | some path => do
    onFs ops.beginOp
    match ← onFs (ops.nameiparent k.proc.cwd path) with
    | none => do
      onFs ops.endOp
      pure (-1)
    | some (dp, name) => do
      onFs (ops.ilock dp)
      if namecmp name dot ∨ namecmp name dotdot then unlinkBad ops dp
      else
        match ← onFs (ops.dirlookup dp name) with
        | none => unlinkBad ops dp
        | some (ip, off) => do
          onFs (ops.ilock ip)
          let k ← get
          if (ops.inode k.fs ip).nlink.toInt < 1 then throw "unlink: nlink < 1"
          else do
            let full ←
              if (ops.inode k.fs ip).type = tDir then do
                let empty ← isdirempty ops ip
                pure (!empty)
              else pure false
            if full then do
              iunlockput ops ip
              unlinkBad ops dp
            else do
              let r ← onFs (ops.writei dp (List.replicate direntSize 0) off)
              if r ≠ BitVec.ofNat 32 direntSize then throw "unlink: writei"
              else do
                let k ← get
                if (ops.inode k.fs ip).type = tDir then do
                  assign ops dp fun n => { n with nlink := n.nlink - 1 }
                  onFs (ops.iupdate dp)
                iunlockput ops dp
                assign ops ip fun n => { n with nlink := n.nlink - 1 }
                onFs (ops.iupdate ip)
                iunlockput ops ip
                onFs ops.endOp
                pure 0

def sysUnlink : Handler σ ι π where
  number := SYS.unlink
  inputs := [.str 0]
  replay := replayOutput
  record := recordOutput (unlinkRecorded ops)
  original := unlinkOriginal ops

/-! ## `open` -/

/-- The five assignments that turn a fresh `struct file` into an open inode. -/
def openedFile (f : Fin nfile) (ip : ι) (omode : Word) (k : Kern σ ι π) : Kern σ ι π :=
  setFile f { k.ftable f with
    type := .inode ip
    off := 0
    readable := decide (omode &&& oWronly = 0)
    writable := decide (omode &&& oWronly ≠ 0 ∨ omode &&& oRdwr ≠ 0) } k

def openRecorded : KM σ ι π Word := do
  let k ← get
  match argstr k.proc 0, argint k.proc 1 with
  | some path, some omode => do
    onFs ops.beginOp
    let found ←
      if omode &&& oCreate ≠ 0 then do
        match ← create ops path tFile 0 0 with
        | none => do
          onFs ops.endOp
          pure none
        | some ip => pure (some ip)
      else
        match ← onFs (ops.namei k.proc.cwd path) with
        | none => do
          onFs ops.endOp
          pure none
        | some ip => do
          onFs (ops.ilock ip)
          let k ← get
          if (ops.inode k.fs ip).type = tDir ∧ omode ≠ oRdonly then do
            iunlockput ops ip
            onFs ops.endOp
            pure none
          else pure (some ip)
    match found with
    | none => pure (-1)
    | some ip =>
      match ← filealloc with
      | none => do
        iunlockput ops ip
        onFs ops.endOp
        pure (-1)
      | some f =>
        match ← fdalloc f with
        | none => do
          fileclose ops f
          iunlockput ops ip
          onFs ops.endOp
          pure (-1)
        | some fd => do
          onFs (ops.iunlock ip)
          onFs ops.endOp
          modify (openedFile f ip omode)
          pure (BitVec.ofNat 32 fd)
  | _, _ => pure (-1)

def openOriginal : KM σ ι π Word := do
  let k ← get
  match argstr k.proc 0, argint k.proc 1 with
  | some path, some omode => do
    onFs ops.beginOp
    let found ←
      if omode &&& oCreate ≠ 0 then do
        match ← create ops path tFile 0 0 with
        | none => do
          onFs ops.endOp
          pure none
        | some ip => pure (some ip)
      else
        match ← onFs (ops.namei k.proc.cwd path) with
        | none => do
          onFs ops.endOp
          pure none
        | some ip => do
          onFs (ops.ilock ip)
          let k ← get
          if (ops.inode k.fs ip).type = tDir ∧ omode ≠ oRdonly then do
            iunlockput ops ip
            onFs ops.endOp
            pure none
          else pure (some ip)
    match found with
    | none => pure (-1)
    | some ip =>
      match ← filealloc with
      | none => do
        iunlockput ops ip
        onFs ops.endOp
        pure (-1)
      | some f =>
        match ← fdalloc f with
        | none => do
          fileclose ops f
          iunlockput ops ip
          onFs ops.endOp
          pure (-1)
        | some fd => do
          onFs (ops.iunlock ip)
          onFs ops.endOp
          modify (openedFile f ip omode)
          pure (BitVec.ofNat 32 fd)
  | _, _ => pure (-1)

def sysOpen : Handler σ ι π where
  number := SYS.open
  inputs := [.str 0, .int 1]
  replay := replayOutput
  record := recordOutput (openRecorded ops)
  original := openOriginal ops

/-! ## `mkdir`, `mknod` and `chdir` -/

def mkdirRecorded : KM σ ι π Word := do
  onFs ops.beginOp
  let k ← get
  let found ←
    match argstr k.proc 0 with
    | none => pure none
    | some path => create ops path tDir 0 0
  match found with
  | none => do
    onFs ops.endOp
    pure (-1)
  | some ip => do
    iunlockput ops ip
    onFs ops.endOp
    pure 0

def mkdirOriginal : KM σ ι π Word := do
  onFs ops.beginOp
  let k ← get
  let found ←
    match argstr k.proc 0 with
    | none => pure none
    | some path => create ops path tDir 0 0
  match found with
  | none => do
    onFs ops.endOp
    pure (-1)
  | some ip => do
    iunlockput ops ip
    onFs ops.endOp
    pure 0

def sysMkdir : Handler σ ι π where
  number := SYS.mkdir
  inputs := [.str 0]
  replay := replayOutput
  record := recordOutput (mkdirRecorded ops)
  original := mkdirOriginal ops

def mknodRecorded : KM σ ι π Word := do
  onFs ops.beginOp
  let k ← get
  let found ←
    match argstr k.proc 0, argint k.proc 1, argint k.proc 2 with
    | some path, some major, some minor =>
      create ops path tDev (major.setWidth 16) (minor.setWidth 16)
    | _, _, _ => pure none
  match found with
  | none => do
    onFs ops.endOp
    pure (-1)
  | some ip => do
    iunlockput ops ip
    onFs ops.endOp
    pure 0

def mknodOriginal : KM σ ι π Word := do
  onFs ops.beginOp
  let k ← get
  let found ←
    match argstr k.proc 0, argint k.proc 1, argint k.proc 2 with
    | some path, some major, some minor =>
      create ops path tDev (major.setWidth 16) (minor.setWidth 16)
    | _, _, _ => pure none
  match found with
  | none => do
    onFs ops.endOp
    pure (-1)
  | some ip => do
    iunlockput ops ip
    onFs ops.endOp
    pure 0

def sysMknod : Handler σ ι π where
  number := SYS.mknod
  inputs := [.str 0, .int 1, .int 2]
  replay := replayOutput
  record := recordOutput (mknodRecorded ops)
  original := mknodOriginal ops

def chdirRecorded : KM σ ι π Word := do
  onFs ops.beginOp
  let k ← get
  let found ←
    match argstr k.proc 0 with
    | none => pure none
    | some path => onFs (ops.namei k.proc.cwd path)
  match found with
  | none => do
    onFs ops.endOp
    pure (-1)
  | some ip => do
    onFs (ops.ilock ip)
    let k ← get
    if (ops.inode k.fs ip).type ≠ tDir then do
      iunlockput ops ip
      onFs ops.endOp
      pure (-1)
    else do
      onFs (ops.iunlock ip)
      onFs (ops.iput k.proc.cwd)
      onFs ops.endOp
      modify fun k => { k with proc := { k.proc with cwd := ip } }
      pure 0

def chdirOriginal : KM σ ι π Word := do
  onFs ops.beginOp
  let k ← get
  let found ←
    match argstr k.proc 0 with
    | none => pure none
    | some path => onFs (ops.namei k.proc.cwd path)
  match found with
  | none => do
    onFs ops.endOp
    pure (-1)
  | some ip => do
    onFs (ops.ilock ip)
    let k ← get
    if (ops.inode k.fs ip).type ≠ tDir then do
      iunlockput ops ip
      onFs ops.endOp
      pure (-1)
    else do
      onFs (ops.iunlock ip)
      onFs (ops.iput k.proc.cwd)
      onFs ops.endOp
      modify fun k => { k with proc := { k.proc with cwd := ip } }
      pure 0

/-- `sys_chdir` builds its record with `createSCR(SYS_mkdir)`. -/
def sysChdir : Handler σ ι π where
  number := SYS.mkdir
  inputs := [.str 0]
  replay := replayOutput
  record := recordOutput (chdirRecorded ops)
  original := chdirOriginal ops

/-! ## The dispatch table -/

/-- The recorded system calls. -/
inductive Kind where
  | getpid | uptime | read | close | fstat | link | unlink | open | mkdir | mknod | chdir
deriving DecidableEq

/-- The recorded entries of `syscalls[]`. -/
def handler : Kind → Handler σ ι π
  | .getpid => sysGetpid
  | .uptime => sysUptime
  | .read => sysRead ops
  | .close => sysClose ops
  | .fstat => sysFstat ops
  | .link => sysLink ops
  | .unlink => sysUnlink ops
  | .open => sysOpen ops
  | .mkdir => sysMkdir ops
  | .mknod => sysMknod ops
  | .chdir => sysChdir ops

end

end V3
