/-
# The recorded system calls of the first recorder (`v1/xv6-master/sysfile.c`, `sysproc.c`)

`getpid`, `read`, `open` and `close`.  Each handler first captures its inputs, whatever the
mode, and hands a text that does not fit to `errorHandling`; then it replays, or runs the
original code and, when recording, appends a record.  The calls of the other kinds are the
original ones.

The original code of `open` and `close` has the same text as in the third recorder.
-/
import Xv6Recorder.V1Session

open Bytes StateError Xv6
open V3 (Kind)

namespace V1

section

variable {σ ι π : Type}

/-! ## Replaying and recording -/

/-- A value with the type under which it is recorded. -/
structure Typed where
  type : Byte
  val : DataVal

/-- A union whose `intVal`, respectively `strVal`, has been assigned.  The bytes that are not
assigned are zero here; they are not read. -/
def Typed.int (num : Word) : Typed := ⟨intType, DataVal.setInt num fun _ => 0⟩
def Typed.str (str : Str) : Typed := ⟨strType, DataVal.setStr str fun _ => 0⟩

variable (ops : FsOps σ ι π) (locals : Locals)

/-- The validations of the inputs, from field `i` on. -/
def validateInputs (record : Record) : (i : ℕ) → List Typed → SysM σ ι π Unit
  | _, [] => pure ()
  | i, input :: inputs => do
    let code ← access (validateInputField record input.type (BitVec.ofNat 32 i) input.val)
    errorHandling ops code
    validateInputs record (i + 1) inputs

/-- The replay branch: the next record, the inputs, and the output behind them. -/
def replayCall (syscall : Word) (inputs : List Typed) : SysM σ ι π Word := do
  let m ← get
  let r ← access (getRecord m.session.rg (recordConstructor syscall))
  onSession fun s => { s with rg := r.2.1 }
  errorHandling ops r.1
  validateInputs ops r.2.2 0 inputs
  let out ← access (validateOutputField r.2.2 intType (BitVec.ofNat 32 inputs.length) fun _ => 0)
  errorHandling ops out.1
  pure out.2.intVal

/-- The calls of `recordField`, the `i`-th of the handler first. -/
def recordFields (record : Record) : (i : ℕ) → List (Typed × Byte) → SysM σ ι π Record
  | _, [] => pure record
  | i, (t, dir) :: fields => do
    let r ← access (recordField (locals.newField i) record t.type dir t.val)
    errorHandling ops r.1
    recordFields r.2 (i + 1) fields

/-- The record branch. -/
def recordCall (syscall : Word) (inputs : List Typed) (output : Word) : SysM σ ι π Unit := do
  let record ← recordFields ops locals (recordConstructor syscall) 0
    (inputs.map (fun t => (t, isInput)) ++ [(Typed.int output, isOutput)])
  let m ← get
  let r ← access (addRecord m.session.rg record)
  onSession fun s => { s with rg := r.2 }
  errorHandling ops r.1

/-- A handler: its number, the capture of its inputs, and the original code. -/
structure Handler (σ ι π : Type) where
  syscall : Word
  inputs : SysM σ ι π (List Typed)
  original : KM σ ι π Word

def Handler.run (h : Handler σ ι π) : SysM σ ι π Word := do
  let inputs ← h.inputs
  let m ← get
  if m.session.replaySyscalls = 1 then replayCall ops h.syscall inputs
  else do
    let output ← onKern h.original
    let m ← get
    if m.session.recordSyscalls = 1 then recordCall ops locals h.syscall inputs output
    pure output

/-! ## Capturing texts -/

omit ops in
/-- The text at a user address, up to its first zero byte.  A scan that leaves the mapped pages
faults. -/
def textAt (p : Proc ι) (addr : Word) : Option (List Byte) :=
  let bytes := slice p.mem addr.toNat (pgroundup p.sz - addr.toNat)
  if 0 ∈ bytes then some (bytes.takeWhile (· != 0)) else none

/-- `errorHandling(&rg, convertToStr(text, &str1))`, with the string. -/
def capture (text : List Byte) : SysM σ ι π Typed := do
  errorHandling ops (convertToStr text).1
  pure (.str (convertToStr text).2)

/-- The string at a user address. -/
def captureAt (addr : Word) : SysM σ ι π Typed := do
  let m ← get
  match textAt m.kern.proc addr with
  | none => throw .fault
  | some text => capture ops text

/-! ## The four handlers -/

def sysGetpid : Handler σ ι π where
  syscall := 11
  inputs := pure []
  original := do
    let k ← get
    pure k.proc.pid

/-- The body of the loop of `sys_read` below the replay branch. -/
def readOriginal : KM σ ι π Word := do
  let k ← get
  match argint k.proc 0, argfd k.proc 0, argint k.proc 2 with
  | some _, some (_, f), some n =>
    match argptr k.proc 1 n with
    | some p => do
      let r ← fileread ops f n
      storeUser fun mem => overlay mem p.toNat r.2
      pure r.1
    | none => pure (-1)
  | _, _, _ => pure (-1)

/-- The buffer is captured as a text before it has been read into; a pointer that `argptr` does
not accept is captured as the empty text.  When `n` cannot be fetched it is not initialised. -/
def sysRead : Handler σ ι π where
  syscall := 5
  inputs := do
    let m ← get
    let n := argint m.kern.proc 2
    let text ←
      match argptr m.kern.proc 1 (n.getD locals.n) with
      | none => capture ops []
      | some p => captureAt ops p
    pure [.int ((argint m.kern.proc 0).getD (-1)), text, .int (n.getD (-1))]
  original := readOriginal ops

def sysOpen : Handler σ ι π where
  syscall := 15
  inputs := do
    let m ← get
    let text ← capture ops ((argstr m.kern.proc 0).getD [])
    pure [text, .int ((argint m.kern.proc 1).getD 0)]
  original := V3.openRecorded ops

def sysClose : Handler σ ι π where
  syscall := 21
  inputs := do
    let m ← get
    pure [.int ((argint m.kern.proc 0).getD (-1))]
  original := V3.closeRecorded ops

/-! ## System calls -/

/-- The system calls of the eleven kinds. -/
def sysCall : Kind → SysM σ ι π Word
  | .getpid => sysGetpid.run ops locals
  | .read => (sysRead ops locals).run ops locals
  | .open => (sysOpen ops).run ops locals
  | .close => (sysClose ops).run ops locals
  | kind => onKern (V3.handler ops kind).original

/-- `syscall`: the value for `eax`. -/
def syscall : V3.Syscall → SysM σ ι π Word
  | .call kind => sysCall ops locals kind
  | .recordStart => sysRecordStart
  | .recordStop => sysRecordStop ops
  | .replayStart => sysReplayStart ops locals
  | .replayStop => sysReplayStop
  | .exit => sysExit ops

/-- The system call path of `trap`: the value that user mode sees, or nothing when the process
has exited instead. -/
def trap (sc : V3.Syscall) : SysM σ ι π (Option Word) := fun m =>
  match (syscall ops locals sc).run m with
  | .ok eax m' => .ok (some eax) m'
  | .error .exited m' =>
    (do
      onKern (V3.exit ops)
      pure none : SysM σ ι π (Option Word)).run m'
  | .error e m' => .error e m'

end

end V1
