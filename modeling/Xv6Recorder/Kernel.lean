/-
# The kernel around the recorder (`v3/syscall.c`, `v3/file.c`, `v3/sysfile.c`)

The parts of xv6 that the recorded system calls run on: argument fetching,
the open-file table, descriptors, and `create`.  Below them the inode layer
(`fs.c`, `log.c`, `pipe.c`) is a parameter, `FsOps`: arbitrary functions on an
arbitrary state `σ`, with inode handles `ι` and pipe handles `π`.  Results that
need more than that state what they need of the parameter.

A system call runs to its end before another one starts.  Locks, sleeping and the
process table are not modelled.  A kernel `panic` stops a program with its message.
-/
import Mathlib.Logic.Function.Basic
import Mathlib.Data.List.FinRange
import Xv6Recorder.Bytes
import Xv6Recorder.StateError

open Bytes StateError

namespace Xv6

/-- `int` and `uint`. -/
abbrev Word := BitVec 32

theorem toNat_ofNat_of_lt {n : ℕ} (h : n < 2 ^ 31) : (BitVec.ofNat 32 n).toNat = n := by
  rw [BitVec.toNat_ofNat]
  exact Nat.mod_eq_of_lt (by omega)

theorem toInt_ofNat_of_lt {n : ℕ} (h : n < 2 ^ 31) : (BitVec.ofNat 32 n).toInt = n := by
  have hn := toNat_ofNat_of_lt h
  rw [BitVec.toInt_eq_toNat_of_lt (by omega), hn]

/-- `short`. -/
abbrev Short := BitVec 16

/-- `NOFILE`: descriptors per process. -/
def nofile : ℕ := 16

/-- `NFILE`: open files per system. -/
def nfile : ℕ := 100

theorem nofile_pos : 0 < nofile := by decide
theorem nfile_pos : 0 < nfile := by decide
theorem one_lt_nfile : 1 < nfile := by decide

def tDir : Short := 1
def tFile : Short := 2
def tDev : Short := 3

def oRdonly : Word := 0x000
def oWronly : Word := 0x001
def oRdwr : Word := 0x002
def oCreate : Word := 0x200

/-! ## State -/

/-- The fields of `struct inode` that code above `fs.c` uses. -/
structure Inode where
  dev : Word
  inum : Word
  type : Short
  major : Short
  minor : Short
  nlink : Short
  size : Word
deriving DecidableEq

/-- `struct stat` (and `struct myStat`, which has the same fields). -/
@[ext] structure Stat where
  type : Short
  dev : Word
  ino : Word
  nlink : Short
  size : Word
deriving DecidableEq

/-- `stati`: the metadata of an inode. -/
def stati (n : Inode) : Stat := ⟨n.type, n.dev, n.inum, n.nlink, n.size⟩

/-- `sizeof(struct stat)`. -/
def statSize : Word := 20

/-- The five fields of the `struct stat` at an address. -/
def loadStat (mem : Memory) (addr : ℕ) : Stat :=
  ⟨field 16 addr mem, field 32 (addr + 4) mem, field 32 (addr + 8) mem,
    field 16 (addr + 12) mem, field 32 (addr + 16) mem⟩

/-- Store the five fields, in the order of `stati`. -/
def storeStat (addr : ℕ) (st : Stat) (mem : Memory) : Memory :=
  putField (addr + 16) st.size (putField (addr + 12) st.nlink (putField addr st.type
    (putField (addr + 8) st.ino (putField (addr + 4) st.dev mem))))

/-- The inode layer.  A program may panic; `readi` and `piperead` also return the
bytes that they store through their pointer argument. -/
structure FsOps (σ ι π : Type) where
  beginOp : EStateM String σ Unit
  endOp : EStateM String σ Unit
  namei (cwd : ι) (path : List Byte) : EStateM String σ (Option ι)
  nameiparent (cwd : ι) (path : List Byte) : EStateM String σ (Option (ι × List Byte))
  dirlookup (dp : ι) (name : List Byte) : EStateM String σ (Option (ι × Word))
  dirlink (dp : ι) (name : List Byte) (inum : Word) : EStateM String σ Word
  ialloc (dev : Word) (type : Short) : EStateM String σ (Option ι)
  ilock (ip : ι) : EStateM String σ Unit
  iunlock (ip : ι) : EStateM String σ Unit
  iput (ip : ι) : EStateM String σ Unit
  iupdate (ip : ι) : EStateM String σ Unit
  inode (s : σ) (ip : ι) : Inode
  setInode (ip : ι) (n : Inode) (s : σ) : σ
  readi (ip : ι) (off n : Word) : EStateM String σ (Word × List Byte)
  writei (ip : ι) (src : List Byte) (off : Word) : EStateM String σ Word
  piperead (p : π) (n : Word) : EStateM String σ (Word × List Byte)
  pipewrite (p : π) (src : List Byte) : EStateM String σ Word
  pipeclose (p : π) (writable : Bool) : EStateM String σ Unit

/-- The `type` of a `struct file`, with the pointer that goes with it. -/
inductive FileType (ι π : Type) where
  | none
  | pipe (p : π)
  | inode (ip : ι)

/-- `struct file`. -/
structure File (ι π : Type) where
  type : FileType ι π
  ref : ℤ
  readable : Bool
  writable : Bool
  off : Word

/-- `KERNBASE`: the first kernel virtual address. -/
def kernbase : ℕ := 0x80000000

theorem toNat_lt_kernbase : (320 : Word).toNat < kernbase := by decide

/-- The part of `struct proc` that system calls read and write, apart from `killed`.
`mem` is the address space; its first `sz` bytes belong to the process, and
`allocuvm` lets it grow only below the kernel. -/
structure Proc (ι : Type) where
  pid : Word
  sz : Word
  sz_lt : sz.toNat < kernbase
  esp : Word
  mem : Memory
  ofile : Fin nofile → Option (Fin nfile)
  cwd : ι
  isInit : Bool

/-- The kernel as the running process sees it. -/
structure Kern (σ ι π : Type) where
  proc : Proc ι
  ftable : Fin nfile → File ι π
  ticks : Word
  fs : σ

/-- Kernel programs. -/
abbrev KM (σ ι π : Type) := EStateM String (Kern σ ι π)

section

variable {σ ι π α : Type}

/-- Run a program of the inode layer. -/
def onFs (x : EStateM String σ α) : KM σ ι π α :=
  zoom Kern.fs (fun s k => { k with fs := s }) id x

/-! ## System call arguments -/

/-- Fetch the word at `addr` from the address space. -/
def fetchint (p : Proc ι) (addr : Word) : Option Word :=
  if p.sz ≤ addr ∨ p.sz < addr + 4 then none else some (field 32 addr.toNat p.mem)

/-- Fetch the NUL-terminated string at `addr`, without its NUL. -/
def fetchstr (p : Proc ι) (addr : Word) : Option (List Byte) :=
  if p.sz ≤ addr then none
  else
    let bytes := slice p.mem addr.toNat (p.sz.toNat - addr.toNat)
    if 0 ∈ bytes then some (bytes.takeWhile (· != 0)) else none

def argint (p : Proc ι) (n : ℕ) : Option Word :=
  fetchint p (p.esp + 4 + 4 * BitVec.ofNat 32 n)

/-- Fetch a pointer to a block of `size` bytes inside the address space. -/
def argptr (p : Proc ι) (n : ℕ) (size : Word) : Option Word :=
  match argint p n with
  | none => none
  | some i => if size.toInt < 0 ∨ p.sz ≤ i ∨ p.sz < i + size then none else some i

def argstr (p : Proc ι) (n : ℕ) : Option (List Byte) :=
  match argint p n with
  | none => none
  | some addr => fetchstr p addr

/-- A descriptor in range with the open file behind it (`my_argfd`). -/
def myArgfd (p : Proc ι) (fd : Word) : Option (Fin nofile × Fin nfile) :=
  if h : 0 ≤ fd.toInt ∧ fd.toInt < nofile then
    (p.ofile ⟨fd.toInt.toNat, by omega⟩).map fun f => (⟨fd.toInt.toNat, by omega⟩, f)
  else none

/-- Fetch an argument as a descriptor, with the open file behind it. -/
def argfd (p : Proc ι) (n : ℕ) : Option (Fin nofile × Fin nfile) :=
  match argint p n with
  | none => none
  | some fd => myArgfd p fd

/-- The end of the mapped pages of a process. -/
def pgroundup (sz : Word) : ℕ := (sz.toNat + 4095) / 4096 * 4096

/-- A block that `argptr` accepts is mapped. -/
theorem argptr_le_pgroundup {p : Proc ι} {i : ℕ} {addr n : Word} (h : argptr p i n = some addr)
    (hn : n.toNat ≤ kernbase) : addr.toNat + n.toNat ≤ pgroundup p.sz := by
  have hsz := p.sz_lt
  simp only [kernbase] at hn hsz
  rw [argptr] at h
  split at h
  · simp at h
  · split at h
    · simp at h
    · rename_i i' _ hcond
      obtain rfl := Option.some.inj h
      rw [not_or, not_or] at hcond
      obtain ⟨-, hlt, hle⟩ := hcond
      rw [BitVec.le_def] at hlt
      rw [BitVec.lt_def, BitVec.toNat_add] at hle
      rw [pgroundup]
      omega

/-- `memmove` of `n` bytes of `src` to a user address.  Beyond the mapped pages the
store faults in kernel mode, which `trap` answers with a panic. -/
def copyout (addr : Word) (src : Memory) (n : ℕ) : KM σ ι π Unit := fun k =>
  let limit := pgroundup k.proc.sz
  let store (len : ℕ) : Kern σ ι π :=
    { k with proc := { k.proc with mem := overlay k.proc.mem addr.toNat (slice src 0 len) } }
  if addr.toNat + n ≤ limit then .ok () (store n)
  else .error "trap" (store (limit - addr.toNat))

/-- Change the address space, through a pointer that has been checked. -/
def storeUser (f : Memory → Memory) : KM σ ι π Unit :=
  modify fun k => { k with proc := { k.proc with mem := f k.proc.mem } }

theorem storeUser_run (f : Memory → Memory) (k : Kern σ ι π) :
    (storeUser f).run k = .ok () { k with proc := { k.proc with mem := f k.proc.mem } } := rfl

/-! ## Open files -/

/-- Update an open file. -/
def setFile (f : Fin nfile) (file : File ι π) (k : Kern σ ι π) : Kern σ ι π :=
  { k with ftable := Function.update k.ftable f file }

/-- Update a descriptor. -/
def setFd (fd : Fin nofile) (f : Option (Fin nfile)) (k : Kern σ ι π) : Kern σ ι π :=
  { k with proc := { k.proc with ofile := Function.update k.proc.ofile fd f } }

/-- Take the first free slot of the open-file table. -/
def filealloc : KM σ ι π (Option (Fin nfile)) := do
  let k ← get
  match (List.finRange nfile).find? (fun f => (k.ftable f).ref == 0) with
  | none => pure none
  | some f => do
    set (setFile f { k.ftable f with ref := 1 } k)
    pure (some f)

/-- Take the first free descriptor of the process. -/
def fdalloc (f : Fin nfile) : KM σ ι π (Option (Fin nofile)) := do
  let k ← get
  match (List.finRange nofile).find? (fun fd => (k.proc.ofile fd).isNone) with
  | none => pure none
  | some fd => do
    set (setFd fd (some f) k)
    pure (some fd)

variable (ops : FsOps σ ι π)

def iunlockput (ip : ι) : KM σ ι π Unit := do
  onFs (ops.iunlock ip)
  onFs (ops.iput ip)

/-- Assign fields of an in-memory inode. -/
def assign (ip : ι) (f : Inode → Inode) : KM σ ι π Unit :=
  modify fun k => { k with fs := ops.setInode ip (f (ops.inode k.fs ip)) k.fs }

/-- Drop a reference to an open file, and close it when it was the last. -/
def fileclose (f : Fin nfile) : KM σ ι π Unit := do
  let k ← get
  let ff := k.ftable f
  if ff.ref < 1 then throw "fileclose"
  else if 0 < ff.ref - 1 then set (setFile f { ff with ref := ff.ref - 1 } k)
  else do
    set (setFile f { ff with ref := 0, type := .none } k)
    match ff.type with
    | .pipe p => onFs (ops.pipeclose p ff.writable)
    | .inode ip => do
      onFs ops.beginOp
      onFs (ops.iput ip)
      onFs ops.endOp
    | .none => pure ()

/-- The metadata that `filestat` stores, or nothing for a file that is no inode. -/
def filestat (f : Fin nfile) : KM σ ι π (Word × Option Stat) := do
  let k ← get
  match (k.ftable f).type with
  | .inode ip => do
    onFs (ops.ilock ip)
    let k ← get
    let st := stati (ops.inode k.fs ip)
    onFs (ops.iunlock ip)
    pure (0, some st)
  | _ => pure (-1, none)

/-- Read `n` bytes from an open file at its offset. -/
def fileread (f : Fin nfile) (n : Word) : KM σ ι π (Word × List Byte) := do
  let k ← get
  if (k.ftable f).readable = false then pure (-1, [])
  else
    match (k.ftable f).type with
    | .pipe p => onFs (ops.piperead p n)
    | .inode ip => do
      onFs (ops.ilock ip)
      let r ← onFs (ops.readi ip (k.ftable f).off n)
      if 0 < r.1.toInt then
        modify fun k => setFile f { k.ftable f with off := (k.ftable f).off + r.1 } k
      onFs (ops.iunlock ip)
      pure r
    | .none => throw "fileread"

/-- Bytes per transaction of `filewrite`: `((MAXOPBLOCKS-1-1-2) / 2) * 512`. -/
def maxWrite : ℕ := 1536

/-- One pass of the loop of `filewrite`, with what `writei` returned. -/
def filewriteChunk (f : Fin nfile) (ip : ι) (chunk : List Byte) : KM σ ι π Word := do
  onFs ops.beginOp
  onFs (ops.ilock ip)
  let k ← get
  let r ← onFs (ops.writei ip chunk (k.ftable f).off)
  if 0 < r.toInt then
    modify fun k => setFile f { k.ftable f with off := (k.ftable f).off + r } k
  onFs (ops.iunlock ip)
  onFs ops.endOp
  pure r

/-- The loop of `filewrite` over the bytes that are left; `false` is the `break` on a
negative result.  As many passes as there are bytes are enough, since every pass that
goes on has written a whole chunk. -/
def filewriteLoop (f : Fin nfile) (ip : ι) : (fuel : ℕ) → List Byte → KM σ ι π Bool
  | 0, _ => pure true
  | fuel + 1, src =>
    if src.isEmpty then pure true
    else do
      let r ← filewriteChunk ops f ip (src.take maxWrite)
      if r.toInt < 0 then pure false
      else if r ≠ BitVec.ofNat 32 (src.take maxWrite).length then throw "short filewrite"
      else filewriteLoop f ip fuel (src.drop maxWrite)

/-- Write to an open file at its offset. -/
def filewrite (f : Fin nfile) (src : List Byte) : KM σ ι π Word := do
  let k ← get
  if (k.ftable f).writable = false then pure (-1)
  else
    match (k.ftable f).type with
    | .pipe p => onFs (ops.pipewrite p src)
    | .inode ip => do
      let ok ← filewriteLoop ops f ip src.length src
      pure (if ok then BitVec.ofNat 32 src.length else -1)
    | .none => throw "filewrite"

/-! ## Directories -/

/-- `namecmp`: the first `DIRSIZ` characters agree. -/
def namecmp (s t : List Byte) : Bool := s.take 14 == t.take 14

/-- The names `.` and `..`. -/
def dot : List Byte := [46]
def dotdot : List Byte := [46, 46]

/-- `sizeof(struct dirent)`. -/
def direntSize : ℕ := 16

/-- The loop of `isdirempty` from offset `off` on, over at most `fuel` entries. -/
def isdiremptyLoop (dp : ι) : (fuel off : ℕ) → KM σ ι π Bool
  | 0, _ => pure true
  | fuel + 1, off => do
    let k ← get
    if off < (ops.inode k.fs dp).size.toNat then do
      let r ← onFs (ops.readi dp (BitVec.ofNat 32 off) (BitVec.ofNat 32 direntSize))
      if r.1 ≠ BitVec.ofNat 32 direntSize then throw "isdirempty: readi"
      else if fromBytes 16 (r.2.take 2) ≠ 0 then pure false
      else isdiremptyLoop dp fuel (off + direntSize)
    else pure true

/-- Whether a directory has no entries but `.` and `..`. -/
def isdirempty (dp : ι) : KM σ ι π Bool := do
  let k ← get
  isdiremptyLoop ops dp ((ops.inode k.fs dp).size.toNat / direntSize + 1) (2 * direntSize)

/-- Create the path as a new inode, or return an existing regular file when one is
asked for.  The inode is returned locked. -/
def create (path : List Byte) (type major minor : Short) : KM σ ι π (Option ι) := do
  let k ← get
  match ← onFs (ops.nameiparent k.proc.cwd path) with
  | none => pure none
  | some (dp, name) => do
    onFs (ops.ilock dp)
    match ← onFs (ops.dirlookup dp name) with
    | some (ip, _) => do
      iunlockput ops dp
      onFs (ops.ilock ip)
      let k ← get
      if type = tFile ∧ (ops.inode k.fs ip).type = tFile then pure (some ip)
      else do
        iunlockput ops ip
        pure none
    | none => do
      let k ← get
      match ← onFs (ops.ialloc (ops.inode k.fs dp).dev type) with
      | none => throw "create: ialloc"
      | some ip => do
        onFs (ops.ilock ip)
        assign ops ip fun n => { n with major, minor, nlink := 1 }
        onFs (ops.iupdate ip)
        if type = tDir then do
          assign ops dp fun n => { n with nlink := n.nlink + 1 }
          onFs (ops.iupdate dp)
          let k ← get
          let r ← onFs (ops.dirlink ip dot (ops.inode k.fs ip).inum)
          if r.toInt < 0 then throw "create dots"
          let k ← get
          let r ← onFs (ops.dirlink ip dotdot (ops.inode k.fs dp).inum)
          if r.toInt < 0 then throw "create dots"
        let k ← get
        let r ← onFs (ops.dirlink dp name (ops.inode k.fs ip).inum)
        if r.toInt < 0 then throw "create: dirlink"
        iunlockput ops dp
        pure (some ip)

end

end Xv6
