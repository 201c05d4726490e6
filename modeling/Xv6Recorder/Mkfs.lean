/-
# The image builder (`mkfs.c`)

`mkfs` writes the disk the kernel starts from: a superblock, the inodes, the free map and
the blocks of the files named on the command line.  It keeps the block map of an inode in
its own code, `iappend`, and shares with `fs.c` only the macros of `fs.h`.

A macro is text.  `NDIRECT` is one number in the first and the third recorder and the
sum `12 + 496`, without brackets, in the second, so what it stands for depends on where
it is used: `fbn < NDIRECT`, `addrs[NDIRECT]` and `NDIRECT+1` take the sum, and
`fbn - NDIRECT` takes the first number away and adds the others.  A `Constants` keeps the
summands apart.

Offsets and block counts are natural numbers: an offset stays below `MAXFILE * BSIZE`,
which `iappend` asserts, and that is below `2 ^ 32`.  Failures of the host (`lseek`, a short
`write`) are left out.
-/
import Xv6Recorder.Fs
import Xv6Recorder.Layout

open Bytes StateError

namespace Xv6.Mkfs

/-! ## The header `fs.h` -/

/-- The macros of `fs.h`: `BSIZE`, and `NDIRECT` as a first number and those added to it. -/
structure Constants where
  bsize : ℕ
  first : ℕ
  more : List ℕ

namespace Constants

variable (c : Constants)

/-- `NDIRECT` where it stands alone, or is compared or added to. -/
def ndirect : ℕ := c.first + c.more.sum

/-- The expression `x - NDIRECT`. -/
def minusNdirect (x : ℕ) : ℕ := x - c.first + c.more.sum

/-- `NINDIRECT` -/
def nindirect : ℕ := c.bsize / 4

/-- `MAXFILE` -/
def maxfile : ℕ := c.ndirect + c.nindirect

/-- `sizeof(struct dinode)` -/
def dinodeSize : ℕ := 12 + 4 * (c.ndirect + 1)

/-- `IPB`: inodes in a block. -/
def ipb : ℕ := c.bsize / c.dinodeSize

end Constants

/-- `FSSIZE` of `param.h`. -/
def fssize : ℕ := 2000

/-- `NINODES` -/
def ninodes : ℕ := 200

/-- `nlog`, that is `LOGSIZE`. -/
def nlog : ℕ := 30

/-- `sb.inodestart` -/
def inodestart : ℕ := 2 + nlog

namespace Constants

variable (c : Constants)

def nbitmap : ℕ := fssize / (c.bsize * 8) + 1

def ninodeblocks : ℕ := ninodes / c.ipb + 1

/-- `sb.bmapstart` -/
def bmapstart : ℕ := 2 + nlog + c.ninodeblocks

/-- The blocks before the first data block. -/
def nmeta : ℕ := 2 + nlog + c.ninodeblocks + c.nbitmap

end Constants

/-- Constants that pass the assertions at the start of `main`, for a disk with room for the
meta blocks. -/
structure Header extends Constants where
  bsize_pos : 0 < bsize
  dinode_dvd : bsize % toConstants.dinodeSize = 0
  dirent_dvd : bsize % 16 = 0
  maxfile_lt : toConstants.maxfile * bsize < 2 ^ 32
  meta_lt : toConstants.nmeta < fssize

/-- `fs.h` of the second recorder. -/
def header2 : Header :=
  ⟨⟨2048, 12, [496]⟩, by decide, by decide, by decide, by decide, by decide⟩

/-- `fs.h` of the first and the third recorder. -/
def header3 : Header :=
  ⟨⟨512, 12, []⟩, by decide, by decide, by decide, by decide, by decide⟩

/-- What the kernel compiled with the header uses.  `bmap` has `bn -= NDIRECT`, which takes
the whole sum away. -/
def Header.geometry (h : Header) : Geometry where
  bsize := h.bsize
  ndirect := h.ndirect
  nindirect := h.nindirect
  bsize_pos := h.bsize_pos
  entries_fit := Nat.mul_div_le _ _

/-! ## Sectors -/

/-- The image file and the two counters. -/
structure Image where
  sector : ℕ → Memory
  /-- The number of sectors in the file. -/
  length : ℕ
  freeinode : ℕ
  freeblock : ℕ

/-- How `mkfs` stops early. -/
inductive Halt where
  | exit
  | assertion
  /-- An array is used outside its bounds. -/
  | outOfBounds
deriving DecidableEq

abbrev MkfsM := EStateM Halt Image

/-- `zeroes` -/
def zeroes : Memory := fun _ => 0

def wsect (sec : ℕ) (buf : Memory) : MkfsM Unit := do
  if fssize < sec then throw .exit
  else modify fun img => { img with
    sector := Function.update img.sector sec buf
    length := max img.length (sec + 1) }

/-- A sector behind the end of the file cannot be read. -/
def rsect (sec : ℕ) : MkfsM Memory := do
  let img ← get
  if fssize < sec ∨ img.length ≤ sec then throw .exit
  else pure (img.sector sec)

/-- `freeblock++`, as a block number. -/
def nextBlock : MkfsM Word := do
  let img ← get
  set { img with freeblock := img.freeblock + 1 }
  pure (BitVec.ofNat 32 img.freeblock)

/-! ## Inodes -/

variable (h : Header)

/-- The bytes of a `struct dinode`. -/
def dinodeBytes (d : Dinode) : List Byte :=
  toBytes d.type ++ (toBytes d.major ++ (toBytes d.minor ++ (toBytes d.nlink ++ (toBytes d.size ++
    (List.ofFn fun i : Fin (h.ndirect + 1) => toBytes (d.addrs i)).flatten))))

/-- The `struct dinode` at an offset. -/
def loadDinode (mem : Memory) (off : ℕ) : Dinode where
  type := field 16 off mem
  major := field 16 (off + 2) mem
  minor := field 16 (off + 4) mem
  nlink := field 16 (off + 6) mem
  size := field 32 (off + 8) mem
  addrs i := if i ≤ h.ndirect then field 32 (off + 12 + 4 * i) mem else 0

/-- `IBLOCK` -/
def iblock (inum : ℕ) : ℕ := inum / h.ipb + inodestart

/-- Where inode `inum` starts in its block. -/
def ioff (inum : ℕ) : ℕ := inum % h.ipb * h.dinodeSize

def winode (inum : ℕ) (din : Dinode) : MkfsM Unit := do
  let buf ← rsect (iblock h inum)
  wsect (iblock h inum) (overlay buf (ioff h inum) (dinodeBytes h din))

def rinode (inum : ℕ) : MkfsM Dinode := do
  let buf ← rsect (iblock h inum)
  pure (loadDinode h buf (ioff h inum))

/-- The inode `ialloc` writes. -/
def emptyDinode (type : Short) : Dinode := ⟨type, 0, 0, 1, 0, fun _ => 0⟩

def ialloc (type : Short) : MkfsM ℕ := do
  let img ← get
  set { img with freeinode := img.freeinode + 1 }
  winode h img.freeinode (emptyDinode type)
  pure img.freeinode

/-- The free map with the first `used` blocks taken. -/
def bitmap (used : ℕ) : Memory :=
  (List.range used).foldl (fun buf i => Function.update buf (i / 8) (buf (i / 8) ||| 1 <<< (i % 8)))
    zeroes

def balloc (used : ℕ) : MkfsM Unit := do
  if h.bsize * 8 ≤ used then throw .assertion
  else wsect h.bmapstart (bitmap used)

/-! ## `iappend` -/

/-- `if(xint(din.addrs[i]) == 0) din.addrs[i] = xint(freeblock++);` -/
def claimAddr (din : Dinode) (i : ℕ) : MkfsM Dinode :=
  if din.addrs i = 0 then do
    let b ← nextBlock
    pure { din with addrs := Function.update din.addrs i b }
  else pure din

/-- Entry `j` of the indirect block `b`, taking a new block if there is none.  The block is
read into the array `indirect`, which has `NINDIRECT` entries. -/
def claimEntry (b : Word) (j : ℕ) : MkfsM Word := do
  let indirect ← rsect b.toNat
  if h.nindirect ≤ j then throw .outOfBounds
  else if field 32 (4 * j) indirect = 0 then do
    let x ← nextBlock
    wsect b.toNat (putField (4 * j) x indirect)
    pure x
  else pure (field 32 (4 * j) indirect)

/-- The sector `x` of block `fbn` of the inode, and the inode with it. -/
def fileBlock (din : Dinode) (fbn : ℕ) : MkfsM (Word × Dinode) :=
  if fbn < h.ndirect then do
    let din ← claimAddr din fbn
    pure (din.addrs fbn, din)
  else do
    let din ← claimAddr din h.ndirect
    let x ← claimEntry h (din.addrs h.ndirect) (h.minusNdirect fbn)
    pure (x, din)

/-- The loop of `iappend` over the bytes that are left; `off` is where they go. -/
def iappendLoop : (fuel off : ℕ) → Dinode → List Byte → MkfsM Dinode
  | 0, _, din, _ => pure din
  | fuel + 1, off, din, p =>
    if p.isEmpty then pure din
    else if h.maxfile ≤ off / h.bsize then throw .assertion
    else do
      let (x, din) ← fileBlock h din (off / h.bsize)
      let n1 := min p.length ((off / h.bsize + 1) * h.bsize - off)
      let buf ← rsect x.toNat
      wsect x.toNat (overlay buf (off - off / h.bsize * h.bsize) (p.take n1))
      iappendLoop fuel (off + n1) din (p.drop n1)

def iappend (inum : ℕ) (p : List Byte) : MkfsM Unit := do
  let din ← rinode h inum
  let din' ← iappendLoop h p.length din.size.toNat din p
  winode h inum { din' with size := BitVec.ofNat 32 (din.size.toNat + p.length) }

/-! ## `main` -/

/-- `struct superblock`, as `main` fills it in. -/
def superblock : List Byte :=
  ([fssize, fssize - h.nmeta, ninodes, nlog, 2, inodestart, h.bmapstart].map
    fun n => toBytes (BitVec.ofNat 32 n)).flatten

/-- The first part of `main`: an empty file, every sector zeroed, and the superblock. -/
def format : MkfsM Unit := do
  set ({ sector := fun _ => zeroes, length := 0, freeinode := 1, freeblock := h.nmeta } : Image)
  (List.range fssize).forM fun i => wsect i zeroes
  wsect 1 (overlay zeroes 0 (superblock h))

/-- A `struct dirent`: the number, and the name cut or padded to `DIRSIZ` bytes. -/
def dirent (inum : ℕ) (name : List Byte) : List Byte :=
  toBytes (BitVec.ofNat 16 inum) ++ (name ++ List.replicate 14 0).take 14

/-- A file on the command line: its name, and what the calls of `read` return; `none` if it
cannot be opened. -/
structure Arg where
  name : List Byte
  contents : Option (List (List Byte))

/-- Skip a leading `_`. -/
def skipUnderscore : List Byte → List Byte
  | [] => []
  | b :: name => if b = 0x5f then name else b :: name

/-- One round of the loop over the arguments. -/
def addFile (rootino : ℕ) (arg : Arg) : MkfsM Unit := do
  if (0x2f : Byte) ∈ arg.name then throw .assertion
  else match arg.contents with
    | none => throw .exit
    | some chunks => do
      let inum ← ialloc h tFile
      iappend h rootino (dirent inum (skipUnderscore arg.name))
      chunks.forM (iappend h inum)

/-- The end of `main`: the size of the root directory is rounded up, and the free map
written. -/
def finish (rootino : ℕ) : MkfsM Unit := do
  let din ← rinode h rootino
  winode h rootino { din with
    size := BitVec.ofNat 32 ((din.size.toNat / h.bsize + 1) * h.bsize) }
  let img ← get
  balloc h img.freeblock

def main (args : List Arg) : MkfsM Unit := do
  format h
  let rootino ← ialloc h tDir
  if rootino ≠ 1 then throw .assertion
  else do
    iappend h rootino (dirent rootino [0x2e])
    iappend h rootino (dirent rootino [0x2e, 0x2e])
    args.forM (addFile h rootino)
    finish h rootino

/-! ## The kernel's view -/

/-- The file system the kernel finds on an image, with one inode held by a caller.  Where
the inodes and the free map are, and how many inodes there are, is read from the
superblock. -/
def Image.mount (img : Image) (held : ℕ) : Fs where
  sbSize := field 32 0 (img.sector 1)
  ninodes := field 32 8 (img.sector 1)
  used b := (img.sector (b / (h.bsize * 8) + (field 32 24 (img.sector 1)).toNat)
    (b % (h.bsize * 8) / 8)).getLsbD (b % 8)
  block := img.sector
  dinode i :=
    if i < (field 32 8 (img.sector 1)).toNat then
      loadDinode h (img.sector (i / h.ipb + (field 32 20 (img.sector 1)).toNat)) (ioff h i)
    else emptyDinode 0
  cached _ := emptyDinode 0
  valid _ := false
  ref := Function.update (fun _ => 0) held 1

/-- The kernel locks an inode and reads from it. -/
def lockAndRead {π : Type} (out : Outside π) (inum : ℕ) (off n : Word) :
    FsM (Word × List Byte) := do
  ilock inum
  readi h.geometry out inum off n

end Xv6.Mkfs
