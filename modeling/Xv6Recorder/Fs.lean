/-
# Inodes and their contents (`fs.c`)

The part of `fs.c` that keeps the bytes of a file: the free map, the block map of an
inode with its lazy allocation, and the loops of `readi` and `writei`.  An inode has a
copy on disk and one in the cache; `ilock` fills the cached copy, `iupdate` writes it
back, and in between only the cached one changes.

The blocks are those of the buffer cache, so the log, which decides when they reach the
disk, does not show.  A `struct inode *` is the number of its inode; that a cache slot
is not given to another inode while it is in use is the business of `iget`.  Names and
the life cycle of inodes, the log, devices and pipes are a parameter, `Outside`.

The three sizes of the disk layout are parameters too: `fs.c` is the same file in the
second and the third recorder, over different values in `fs.h`.
-/
import Xv6Recorder.Kernel

open Bytes StateError

namespace Xv6

/-- `BSIZE`, `NDIRECT` and `NINDIRECT`. -/
structure Geometry where
  bsize : ℕ
  ndirect : ℕ
  nindirect : ℕ
  bsize_pos : 0 < bsize
  /-- The entries of an indirect block fit in it. -/
  entries_fit : 4 * nindirect ≤ bsize

/-- `MAXFILE`: the blocks of the largest file. -/
def Geometry.maxfile (g : Geometry) : ℕ := g.ndirect + g.nindirect

/-- The layout of the third recorder. -/
def geometry3 : Geometry := ⟨512, 12, 128, by decide, by decide⟩

/-- `struct dinode`, and the part of `struct inode` that is a copy of it.  Of `addrs`
only the first `NDIRECT + 1` count. -/
structure Dinode where
  type : Short
  major : Short
  minor : Short
  nlink : Short
  size : Word
  addrs : ℕ → Word

/-- The disk as the buffer cache shows it, and the inode cache. -/
structure Fs where
  /-- `sb.size` -/
  sbSize : Word
  /-- `sb.ninodes` -/
  ninodes : Word
  /-- The free map. -/
  used : ℕ → Bool
  block : ℕ → Memory
  dinode : ℕ → Dinode
  cached : ℕ → Dinode
  valid : ℕ → Bool
  ref : ℕ → ℤ

/-- Programs of `fs.c`. -/
abbrev FsM := EStateM String Fs

/-! ## Blocks -/

/-- Allocate a zeroed disk block: the first one that is free. -/
def balloc : FsM Word := do
  let s ← get
  match (List.range s.sbSize.toNat).find? (fun b => !s.used b) with
  | some b => do
    set { s with
      used := Function.update s.used b true
      block := Function.update s.block b (fun _ => 0) }
    pure (BitVec.ofNat 32 b)
  | none => throw "balloc: out of blocks"

/-! ## Inodes -/

/-- Copy a modified in-memory inode to disk. -/
def iupdate (ip : ℕ) : FsM Unit :=
  modify fun s => { s with dinode := Function.update s.dinode ip (s.cached ip) }

/-- Lock the inode, and read it from disk if necessary. -/
def ilock (ip : ℕ) : FsM Unit := do
  let s ← get
  if s.ref ip < 1 then throw "ilock"
  else if s.valid ip then pure ()
  else do
    set { s with
      cached := Function.update s.cached ip (s.dinode ip)
      valid := Function.update s.valid ip true }
    if (s.dinode ip).type = 0 then throw "ilock: no type"

def iunlock (ip : ℕ) : FsM Unit := do
  let s ← get
  if s.ref ip < 1 then throw "iunlock"

/-! ## Inode content -/

/-- The assignment `ip->addrs[i] = addr`. -/
def setAddr (ip i : ℕ) (addr : Word) (s : Fs) : Fs :=
  { s with
    cached := Function.update s.cached ip
      { s.cached ip with addrs := Function.update (s.cached ip).addrs i addr } }

/-- The block number in `ip->addrs[i]`, allocating if there is none. -/
def addrAt (ip i : ℕ) : FsM Word := do
  let s ← get
  if (s.cached ip).addrs i = 0 then do
    let addr ← balloc
    modify (setAddr ip i addr)
    pure addr
  else pure ((s.cached ip).addrs i)

/-- Entry `j` of the block `b`, seen as an array of `uint`. -/
def entryOf (s : Fs) (b : Word) (j : ℕ) : Word := field 32 (4 * j) (s.block b.toNat)

/-- The assignment `a[j] = addr` in the block `b`. -/
def setEntry (b : Word) (j : ℕ) (addr : Word) (s : Fs) : Fs :=
  { s with block := Function.update s.block b.toNat (putField (4 * j) addr (s.block b.toNat)) }

/-- Entry `j` of the indirect block `b`, allocating if there is none. -/
def entryAt (b : Word) (j : ℕ) : FsM Word := do
  let s ← get
  if entryOf s b j = 0 then do
    let addr ← balloc
    modify (setEntry b j addr)
    pure addr
  else pure (entryOf s b j)

variable (g : Geometry)

/-- The disk block address of the `bn`-th block in inode `ip`.  If there is no such
block, `bmap` allocates one. -/
def bmap (ip bn : ℕ) : FsM Word :=
  if bn < g.ndirect then addrAt ip bn
  else if bn - g.ndirect < g.nindirect then do
    let b ← addrAt ip g.ndirect
    entryAt b (bn - g.ndirect)
  else throw "bmap: out of range"

/-- The loop of `readi` over the `n` bytes from `off` on that are left. -/
def readLoop (ip : ℕ) : (fuel off n : ℕ) → FsM (List Byte)
  | 0, _, _ => pure []
  | fuel + 1, off, n =>
    if n = 0 then pure []
    else do
      let b ← bmap g ip (off / g.bsize)
      let s ← get
      let m := min n (g.bsize - off % g.bsize)
      let rest ← readLoop ip fuel (off + m) (n - m)
      pure (slice (s.block b.toNat) (off % g.bsize) m ++ rest)

/-- Store into the block `b`. -/
def storeBlock (b : Word) (off : ℕ) (bytes : List Byte) (s : Fs) : Fs :=
  { s with block := Function.update s.block b.toNat (overlay (s.block b.toNat) off bytes) }

/-- The loop of `writei` over the bytes that are left. -/
def writeLoop (ip : ℕ) : (fuel off : ℕ) → List Byte → FsM Unit
  | 0, _, _ => pure ()
  | fuel + 1, off, src =>
    if src.isEmpty then pure ()
    else do
      let b ← bmap g ip (off / g.bsize)
      let m := min src.length (g.bsize - off % g.bsize)
      modify (storeBlock b (off % g.bsize) (src.take m))
      writeLoop ip fuel (off + m) (src.drop m)

/-- The entry of the device switch for a major number.  `NDEV` is `10`. -/
def device {α : Type} (devsw : ℕ → Option α) (major : Short) : Option α :=
  if major.toInt < 0 ∨ 10 ≤ major.toInt then none else devsw major.toNat

/-- What the contents of inodes rest on: names, the life cycle of inodes, the log, devices,
pipes. -/
structure Outside (π : Type) where
  beginOp : FsM Unit
  endOp : FsM Unit
  namei (cwd : ℕ) (path : List Byte) : FsM (Option ℕ)
  nameiparent (cwd : ℕ) (path : List Byte) : FsM (Option (ℕ × List Byte))
  dirlookup (dp : ℕ) (name : List Byte) : FsM (Option (ℕ × Word))
  dirlink (dp : ℕ) (name : List Byte) (inum : Word) : FsM Word
  ialloc (dev : Word) (type : Short) : FsM (Option ℕ)
  iput (ip : ℕ) : FsM Unit
  devread : ℕ → Option (Word → FsM (Word × List Byte))
  devwrite : ℕ → Option (List Byte → FsM Word)
  piperead (p : π) (n : Word) : FsM (Word × List Byte)
  pipewrite (p : π) (src : List Byte) : FsM Word
  pipeclose (p : π) (writable : Bool) : FsM Unit

section

variable {π : Type} (out : Outside π)

/-- Read data from an inode. -/
def readi (ip : ℕ) (off n : Word) : FsM (Word × List Byte) := do
  let s ← get
  let d := s.cached ip
  if d.type = tDev then
    match device out.devread d.major with
    | none => pure (-1, [])
    | some read => read n
  else if d.size < off ∨ off + n < off then pure (-1, [])
  else do
    let n := if d.size < off + n then d.size - off else n
    let bytes ← readLoop g ip n.toNat off.toNat n.toNat
    pure (n, bytes)

/-- Write data to an inode. -/
def writei (ip : ℕ) (src : List Byte) (off : Word) : FsM Word := do
  let s ← get
  let d := s.cached ip
  let n := BitVec.ofNat 32 src.length
  if d.type = tDev then
    match device out.devwrite d.major with
    | none => pure (-1)
    | some write => write src
  else if d.size < off ∨ off + n < off then pure (-1)
  else if BitVec.ofNat 32 (g.maxfile * g.bsize) < off + n then pure (-1)
  else do
    writeLoop g ip src.length off.toNat src
    let s ← get
    if 0 < n ∧ (s.cached ip).size < off + n then do
      set { s with cached := Function.update s.cached ip { s.cached ip with size := off + n } }
      iupdate ip
    pure n

/-- The inode layer that `file.c` and `sysfile.c` run on. -/
def fsOps : FsOps Fs ℕ π where
  beginOp := out.beginOp
  endOp := out.endOp
  namei := out.namei
  nameiparent := out.nameiparent
  dirlookup := out.dirlookup
  dirlink := out.dirlink
  ialloc := out.ialloc
  ilock := ilock
  iunlock := iunlock
  iput := out.iput
  iupdate := iupdate
  inode s ip :=
    { dev := 1, inum := BitVec.ofNat 32 ip, type := (s.cached ip).type
      major := (s.cached ip).major, minor := (s.cached ip).minor, nlink := (s.cached ip).nlink
      size := (s.cached ip).size }
  setInode ip n s :=
    { s with
      cached := Function.update s.cached ip
        { s.cached ip with
          type := n.type, major := n.major, minor := n.minor, nlink := n.nlink, size := n.size } }
  readi := readi g out
  writei := writei g out
  piperead := out.piperead
  pipewrite := out.pipewrite
  pipeclose := out.pipeclose

end

end Xv6
