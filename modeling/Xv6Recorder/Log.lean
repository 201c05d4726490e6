/-
# The log (`log.c`)

A transaction collects the blocks that file system calls modify.  When the last call that
takes part ends, the modified blocks are copied from the cache to the log, the header is
written, which commits the transaction, and only then are the blocks written to where
they belong.  At boot `initlog` does the last part again.

The disk is an array of blocks, and what `bread` returns is the block in the buffer cache,
`data`, which differs from the disk only where a block was modified and not yet written.
`bwrite` waits for the disk, so that the power can fail before and after it, but a block is
written as a whole.  A call to `end_op` that commits does so without the lock; another call
to `begin_op` finds `committing` set and sleeps, so a commit runs on its own.
-/
import Xv6Recorder.Crash
import Xv6Recorder.Kernel

open Bytes Crash

namespace Xv6.Log

/-- `MAXOPBLOCKS`: the blocks that one file system call may write. -/
def maxOpBlocks : ℕ := 10

/-- `LOGSIZE`: data blocks in the log on disk. -/
def logSize : ℕ := maxOpBlocks * 3

/-- `struct logheader`.  Of `block` only the first `LOGSIZE` exist. -/
structure Header where
  n : ℤ
  block : ℕ → Word

/-- `struct log`, with the disk and the buffer cache. -/
structure State where
  disk : ℕ → Memory
  data : ℕ → Memory
  /-- `B_DIRTY`, which keeps a block in the cache. -/
  dirty : ℕ → Bool
  start : ℕ
  size : ℕ
  /-- How many file system calls are executing. -/
  outstanding : ℤ
  /-- In `commit()`, please wait. -/
  committing : Bool
  lh : Header

/-- What stops the kernel. -/
inductive Fault where
  | panic (msg : String)
  /-- An access outside `lh.block`. -/
  | outOfBounds

/-- Programs of `log.c`. -/
abbrev LogM := Prog Fault (ℕ → Memory) State

/-! ## Blocks -/

/-- `memmove` of the block `src` to the block `dst`, in the cache. -/
def moveBlock (dst src : ℕ) (s : State) : State :=
  { s with data := Function.update s.data dst (s.data src) }

/-- Write the cached block to disk. -/
def bwrite (b : ℕ) : LogM Unit :=
  persist State.disk fun s => { s with
    disk := Function.update s.disk b (s.data b), dirty := Function.update s.dirty b false }

/-- `log.lh.block[i]` -/
def blockAt (i : ℕ) : LogM ℕ := do
  if logSize ≤ i then throw .outOfBounds
  else do
    let s ← get
    pure (s.lh.block i).toNat

/-! ## Commit and recovery -/

/-- Copy committed blocks from the log to their home location. -/
def installTrans : LogM Unit := do
  let s ← get
  loop (fun tail => do
    let dst ← blockAt tail
    modify (moveBlock dst (s.start + tail + 1))
    bwrite dst) s.lh.n.toNat 0

/-- The bytes of the header in its block; those behind the first `n` entries stay. -/
def putHeader (lh : Header) (block : Memory) : Memory :=
  (List.range lh.n.toNat).foldl (fun m i => putField (4 + 4 * i) (lh.block i) m)
    (putField 0 (BitVec.ofInt 32 lh.n) block)

/-- Read the log header from disk into the in-memory log header. -/
def readHead : LogM Unit := do
  let s ← get
  modify fun s => { s with lh := { s.lh with n := (field 32 0 (s.data s.start)).toInt } }
  loop (fun i => do
    if logSize ≤ i then throw .outOfBounds
    else modify fun s => { s with lh := { s.lh with
      block := Function.update s.lh.block i (field 32 (4 + 4 * i) (s.data s.start)) } })
    (field 32 0 (s.data s.start)).toInt.toNat 0

/-- Write the in-memory log header to disk.  This is the true point at which the current
transaction commits. -/
def writeHead : LogM Unit := do
  let s ← get
  if (logSize : ℤ) < s.lh.n then throw .outOfBounds
  else do
    modify fun s => { s with
      data := Function.update s.data s.start (putHeader s.lh (s.data s.start)) }
    bwrite s.start

def recoverFromLog : LogM Unit := do
  readHead
  installTrans
  modify fun s => { s with lh := { s.lh with n := 0 } }
  writeHead

/-- `initlog`: the place of the log is in the super block, which is block `1`. -/
def initlog : LogM Unit := do
  modify fun s => { s with
    start := (field 32 16 (s.data 1)).toNat, size := (field 32 12 (s.data 1)).toNat }
  recoverFromLog

/-- The memory of a kernel that has just been started: nothing is cached. -/
def boot (disk : ℕ → Memory) : State where
  disk := disk
  data := disk
  dirty _ := false
  start := 0
  size := 0
  outstanding := 0
  committing := false
  lh := ⟨0, fun _ => 0⟩

/-- Copy modified blocks from the cache to the log. -/
def writeLog : LogM Unit := do
  let s ← get
  loop (fun tail => do
    let src ← blockAt tail
    modify (moveBlock (s.start + tail + 1) src)
    bwrite (s.start + tail + 1)) s.lh.n.toNat 0

def commit : LogM Unit := do
  let s ← get
  if 0 < s.lh.n then do
    writeLog
    writeHead
    installTrans
    modify fun s => { s with lh := { s.lh with n := 0 } }
    writeHead
  else pure ()

/-! ## File system calls -/

/-- One round of the loop of `begin_op`: whether the call goes on, or else sleeps. -/
def beginOp : LogM Bool := do
  let s ← get
  if s.committing then pure false
  else if (logSize : ℤ) < s.lh.n + (s.outstanding + 1) * maxOpBlocks then pure false
  else do
    modify fun s => { s with outstanding := s.outstanding + 1 }
    pure true

/-- Called at the end of each file system call; commits if this was the last outstanding
one. -/
def endOp : LogM Unit := do
  modify fun s => { s with outstanding := s.outstanding - 1 }
  let s ← get
  if s.committing then throw (.panic "log.committing")
  else if s.outstanding = 0 then do
    modify fun s => { s with committing := true }
    commit
    modify fun s => { s with committing := false }
  else pure ()

/-- The position of a block in the header, or the one behind the last. -/
def slot (lh : Header) (b : Word) : ℕ :=
  ((List.range lh.n.toNat).find? fun i => lh.block i == b).getD lh.n.toNat

/-- Record the block number, and pin the block in the cache. -/
def logWrite (b : Word) : LogM Unit := do
  let s ← get
  if (logSize : ℤ) ≤ s.lh.n ∨ (s.size : ℤ) - 1 ≤ s.lh.n then
    throw (.panic "too big a transaction")
  else if s.outstanding < 1 then throw (.panic "log_write outside of trans")
  else modify fun s => { s with
    lh :=
      { n := if (slot s.lh b : ℤ) = s.lh.n then s.lh.n + 1 else s.lh.n
        block := Function.update s.lh.block (slot s.lh b) b }
    dirty := Function.update s.dirty b.toNat true }

/-- What a file system call does to a block: modify it in its buffer, which it holds
locked, and hand it to the log. -/
def update (b : Word) (block : Memory) : LogM Unit := do
  modify fun s => { s with data := Function.update s.data b.toNat block }
  logWrite b

end Xv6.Log
