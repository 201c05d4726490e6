/-
# Sessions of the first recorder (`v1/xv6-master/sysproc.c`, `v1/xv6-master/trap.c`)

The globals, the four session system calls, and `errorHandling`, which ends the session and the
process.  A session is saved as the bytes of the record group, and loaded by copying bytes over
the group.  There is no owner: the flags hold for every process.

The file helpers and `exit` have the same text as in the third recorder.  Console output is not
modelled, nor is what is read only to be printed.  Locals that the source does not initialise hold
what the kernel stack holds: the parameter `Locals`.  The size of the kernel stack is not modelled;
the file buffers are larger than its 4096 bytes.
-/
import Xv6Recorder.Layout
import Xv6Recorder.V1Record
import Xv6Recorder.V3Session

open Bytes StateError Xv6
open V3 (myOpen myRead myWrite myClose strcpy)

namespace V1

/-! ## The bytes of a record group -/

/-- `sizeof` of the packed structures. -/
def sizeofStr : ℕ := 205
def sizeofField : ℕ := 211
def sizeofRecord : ℕ := 849
def sizeofGroup : ℕ := 5102

def Field.bytes (f : Field) : List Byte :=
  f.isInput :: f.type :: (toBytes f.intVal ++ f.strVal.bytes)

def Record.bytes (r : Record) : List Byte :=
  r.syscall :: (toBytes r.fieldCount ++ (List.ofFn fun i => (r.fields i).bytes).flatten)

def RecordGroup.bytes (rg : RecordGroup) : List Byte :=
  toBytes rg.counter ++ (toBytes rg.size ++ (List.ofFn fun i => (rg.records i).bytes).flatten)

/-- The structures at an offset. -/
def loadField (mem : Memory) (off : ℕ) : Field :=
  ⟨mem off, mem (off + 1), field 32 (off + 2) mem, loadStr mem (off + 6)⟩

def loadRecord (mem : Memory) (off : ℕ) : Record :=
  ⟨mem off, field 32 (off + 1) mem, fun i => loadField mem (off + 5 + sizeofField * i)⟩

def loadGroup (mem : Memory) (off : ℕ) : RecordGroup :=
  ⟨field 32 off mem, field 32 (off + 4) mem, fun i => loadRecord mem (off + 8 + sizeofRecord * i)⟩

theorem length_str_bytes (s : Str) : s.bytes.length = sizeofStr := by
  rw [Str.bytes, List.cons_append, List.length_cons, List.length_append, length_toBytes,
    List.length_ofFn]
  rfl

theorem length_field_bytes (f : Field) : f.bytes.length = sizeofField := by
  rw [Field.bytes, List.length_cons, List.length_cons, List.length_append, length_toBytes,
    length_str_bytes]
  rfl

theorem length_record_bytes (r : Record) : r.bytes.length = sizeofRecord := by
  rw [Record.bytes, List.length_cons, List.length_append, length_toBytes,
    length_flatten_ofFn fun i => length_field_bytes (r.fields i)]
  rfl

theorem length_group_bytes (rg : RecordGroup) : rg.bytes.length = sizeofGroup := by
  rw [RecordGroup.bytes, List.length_append, List.length_append, length_toBytes, length_toBytes,
    length_flatten_ofFn fun i => length_record_bytes (rg.records i)]
  rfl

variable {mem : Memory} {off : ℕ}

theorem loadStr_of_stands {s : Str} (h : Stands mem off s.bytes) : loadStr mem off = s := by
  rw [Str.bytes, List.cons_append] at h
  obtain ⟨hvalid, h⟩ := stands_cons h
  obtain ⟨hsize, hcontent⟩ := stands_append.mp h
  rw [length_toBytes] at hcontent
  exact Str.ext hvalid (hsize.field rfl) (funext fun i => hcontent.ofFn i)

theorem loadField_of_stands {f : Field} (h : Stands mem off f.bytes) : loadField mem off = f := by
  obtain ⟨hinput, h⟩ := stands_cons h
  obtain ⟨htype, h⟩ := stands_cons h
  obtain ⟨hint, hstr⟩ := stands_append.mp h
  rw [length_toBytes] at hstr
  exact Field.ext hinput htype (hint.field rfl) (loadStr_of_stands hstr)

theorem loadRecord_of_stands {r : Record} (h : Stands mem off r.bytes) :
    loadRecord mem off = r := by
  obtain ⟨hsyscall, h⟩ := stands_cons h
  obtain ⟨hcount, hfields⟩ := stands_append.mp h
  rw [length_toBytes] at hfields
  exact Record.ext hsyscall (hcount.field rfl) (funext fun i =>
    loadField_of_stands (hfields.array (fun i => length_field_bytes (r.fields i)) i))

/-- **A record group is read back** from where its bytes stand. -/
theorem loadGroup_of_stands {rg : RecordGroup} (h : Stands mem off rg.bytes) :
    loadGroup mem off = rg := by
  obtain ⟨hcounter, h⟩ := stands_append.mp h
  obtain ⟨hsize, hrecords⟩ := stands_append.mp h
  rw [length_toBytes] at hsize hrecords
  rw [length_toBytes] at hrecords
  exact RecordGroup.ext (hcounter.field rfl) (hsize.field rfl) (funext fun i =>
    loadRecord_of_stands (hrecords.array (fun i => length_record_bytes (rg.records i)) i))

/-! ## Programs on the whole machine -/

/-- The globals. -/
structure Session where
  recordSyscalls : Word
  replaySyscalls : Word
  rg : RecordGroup
  recordFilename : List Byte
  replayFilename : List Byte

/-- The globals at boot. -/
def Session.boot : Session := ⟨0, 0, loadGroup (fun _ => 0) 0, [], []⟩

/-- The machine as one system call sees it. -/
structure Machine (σ ι π : Type) where
  session : Session
  kern : Kern σ ι π

/-- Why a run of the model stops: a `panic`, a page fault in kernel mode, an access outside an
array, or `exit()`, which does not come back. -/
inductive Halt where
  | panic (msg : String)
  | fault
  | outOfBounds
  | exited
deriving DecidableEq

/-- System call programs. -/
abbrev SysM (σ ι π : Type) := EStateM Halt (Machine σ ι π)

/-- What the kernel stack holds for the locals that are not initialised: `newField` of the calls of
`recordField`, the file buffer, and `n` in `sys_read`. -/
structure Locals where
  newField : ℕ → Field
  buffer : Memory
  n : Word

section

variable {σ ι π α : Type}

/-- Run a kernel program. -/
def onKern (x : KM σ ι π α) : SysM σ ι π α :=
  zoom Machine.kern (fun k m => { m with kern := k }) Halt.panic x

/-- Change the globals. -/
def onSession (f : Session → Session) : SysM σ ι π Unit :=
  modify fun m => { m with session := f m.session }

/-- The result of a function on records, unless it left an array. -/
def access : Option α → SysM σ ι π α
  | some a => pure a
  | none => throw .outOfBounds

/-- Running a sequence that begins with a change of the globals. -/
theorem run_onSession_bind (f : Session → Session) (g : Unit → SysM σ ι π α) (m : Machine σ ι π) :
    (onSession f >>= g).run m = (g ()).run ⟨f m.session, m.kern⟩ := rfl

/-- Running a sequence that begins with a kernel program. -/
theorem run_onKern_bind {β : Type} {x : KM σ ι π α} {g : α → SysM σ ι π β} {s : Session}
    {k k' : Kern σ ι π} {a : α} (h : x.run k = .ok a k') :
    (onKern x >>= g).run ⟨s, k⟩ = (g a).run ⟨s, k'⟩ :=
  run_bind_of_ok (run_zoom_of_ok h)

theorem onKern_bind_eq_ok {β : Type} {x : KM σ ι π α} {g : α → SysM σ ι π β} {s : Session}
    {k : Kern σ ι π} {b : β} {m' : Machine σ ι π} (h : (onKern x >>= g).run ⟨s, k⟩ = .ok b m') :
    ∃ a k', x.run k = .ok a k' ∧ (g a).run ⟨s, k'⟩ = .ok b m' := by
  obtain ⟨a, m₁, hx, hg⟩ := run_bind_eq_ok.mp h
  obtain ⟨k', hrun, rfl⟩ := run_zoom_eq_ok.mp hx
  exact ⟨a, k', hrun, hg⟩

variable (ops : FsOps σ ι π) (locals : Locals)

/-! ## Recording -/

def sysRecordStart : SysM σ ι π Word := do
  let m ← get
  match argstr m.kern.proc 0 with
  | none => pure (-1)
  | some filename => do
    onSession fun s => { s with recordFilename := strcpy filename 255, recordSyscalls := 1 }
    onSession fun s => { s with rg := recordGroupConstructor }
    let m ← get
    pure m.session.recordSyscalls

/-- The three file calls; none of their results is looked at. -/
def sysRecordStop : SysM σ ι π Word := do
  let m ← get
  if m.session.recordSyscalls = 1 then do
    onSession fun s => { s with recordSyscalls := 0 }
    let fd ← onKern (myOpen ops m.session.recordFilename (oCreate ||| oRdwr))
    let _ ← onKern (myWrite ops fd m.session.rg.bytes)
    let _ ← onKern (myClose ops fd)
    onSession fun s => { s with rg := recordGroupConstructor }
  let m ← get
  pure m.session.recordSyscalls

/-! ## Replaying -/

/-- The file that is opened is that of the last recording.  Where `my_read` stores nothing, the
buffer is not initialised. -/
def sysReplayStart : SysM σ ι π Word := do
  let m ← get
  match argstr m.kern.proc 0 with
  | none => pure (-1)
  | some filename => do
    onSession fun s => { s with replayFilename := strcpy filename 255, replaySyscalls := 1 }
    onSession fun s => { s with rg := recordGroupConstructor }
    let fd ← onKern (myOpen ops m.session.recordFilename (oCreate ||| oRdwr))
    let r ← onKern (myRead ops fd (BitVec.ofNat 32 sizeofGroup))
    onSession fun s => { s with rg := loadGroup (overlay locals.buffer 0 r.2) 0 }
    let _ ← onKern (myClose ops fd)
    let m ← get
    pure m.session.replaySyscalls

def sysReplayStop : SysM σ ι π Word := do
  let m ← get
  if m.session.replaySyscalls = 1 then
    onSession fun s => { s with replaySyscalls := 0, rg := recordGroupConstructor }
  let m ← get
  pure m.session.replaySyscalls

/-! ## Errors and exit -/

def sysExit : SysM σ ι π α := do
  let _ ← sysReplayStop
  let _ ← sysRecordStop ops
  throw .exited

/-- Any code but `VALID` ends both sessions and the process. -/
def errorHandling (errCode : ErrCode) : SysM σ ι π Unit :=
  if errCode = .valid then pure () else sysExit ops

end

end V1
