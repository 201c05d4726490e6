/-
# Names and the life of inodes (`fs.c`)

The rest of `fs.c`: `iget`, `idup` and `iput`, which count the references to an inode and
free it with its last link, `ialloc`, and the lookup of names, from the entries of one
directory to whole paths.

A `struct inode *` is the number of its inode here, so a slot of the inode cache is the
inode it holds; the slots in use are those with a reference, and `iget` finds no slot when
there are `NINODE` of them.
-/
import Xv6Recorder.Fs

open Bytes StateError

namespace Xv6

/-! ## References -/

/-- `ROOTINO` -/
def rootino : ℕ := 1

/-- `NINODE` -/
def ninode : ℕ := 50

/-- The slots of the inode cache that are in use. -/
def slotsInUse (s : Fs) : ℕ := (List.range s.ninodes.toNat).countP fun ip => decide (0 < s.ref ip)

/-- Find the inode in the cache, or give it a slot. -/
def iget (inum : ℕ) : FsM Unit := do
  let s ← get
  if 0 < s.ref inum then set { s with ref := Function.update s.ref inum (s.ref inum + 1) }
  else if ninode ≤ slotsInUse s then throw "iget: no inodes"
  else set { s with
    ref := Function.update s.ref inum 1
    valid := Function.update s.valid inum false }

/-- Increment the reference count of an inode. -/
def idup (ip : ℕ) : FsM Unit :=
  modify fun s => { s with ref := Function.update s.ref ip (s.ref ip + 1) }

/-- Free a disk block. -/
def bfree (b : Word) : FsM Unit := do
  let s ← get
  if s.used b.toNat then set { s with used := Function.update s.used b.toNat false }
  else throw "freeing free block"

/-- The loop of `itrunc` over the direct blocks from `i` on, `fuel` of them. -/
def itruncDirect (ip : ℕ) : (fuel i : ℕ) → FsM Unit
  | 0, _ => pure ()
  | fuel + 1, i => do
    let s ← get
    if (s.cached ip).addrs i ≠ 0 then do
      bfree ((s.cached ip).addrs i)
      modify (setAddr ip i 0)
    itruncDirect ip fuel (i + 1)

/-- The loop of `itrunc` over the entries of the indirect block `b`. -/
def itruncEntries (b : Word) : (fuel j : ℕ) → FsM Unit
  | 0, _ => pure ()
  | fuel + 1, j => do
    let s ← get
    if entryOf s b j ≠ 0 then bfree (entryOf s b j)
    itruncEntries b fuel (j + 1)

/-- Change the cached copy of an inode. -/
def setCached (ip : ℕ) (f : Dinode → Dinode) : FsM Unit :=
  modify fun s => { s with cached := Function.update s.cached ip (f (s.cached ip)) }

section

variable (g : Geometry)

/-- Truncate an inode: discard its contents. -/
def itrunc (ip : ℕ) : FsM Unit := do
  itruncDirect ip g.ndirect 0
  let s ← get
  let b := (s.cached ip).addrs g.ndirect
  if b ≠ 0 then do
    itruncEntries b g.nindirect 0
    bfree b
    modify (setAddr ip g.ndirect 0)
  setCached ip fun d => { d with size := 0 }
  iupdate ip

/-- Drop a reference to an inode.  If it was the last one and the inode has no links, free
the inode and its contents. -/
def iput (ip : ℕ) : FsM Unit := do
  let s ← get
  if s.valid ip ∧ (s.cached ip).nlink = 0 ∧ s.ref ip = 1 then do
    itrunc g ip
    setCached ip fun d => { d with type := 0 }
    iupdate ip
    modify fun s => { s with valid := Function.update s.valid ip false }
  modify fun s => { s with ref := Function.update s.ref ip (s.ref ip - 1) }

/-- A free inode that has been given a type. -/
def newDinode (type : Short) : Dinode :=
  { type := type, major := 0, minor := 0, nlink := 0, size := 0, addrs := fun _ => 0 }

/-- Allocate an inode: the first one that is free. -/
def ialloc (type : Short) : FsM (Option ℕ) := do
  let s ← get
  match (List.range s.ninodes.toNat).find? (fun i => decide (1 ≤ i ∧ (s.dinode i).type = 0)) with
  | none => throw "ialloc: no inodes"
  | some inum => do
    set { s with dinode := Function.update s.dinode inum (newDinode type) }
    iget inum
    pure (some inum)

/-! ## Directories -/

/-- The inode number of a `struct dirent`. -/
def direntInum (de : List Byte) : ℕ := (fromBytes 16 (de.take 2)).toNat

/-- The string at the start of an array of bytes: it ends before the first null byte. -/
def cstr (l : List Byte) : List Byte := l.takeWhile (· ≠ 0)

/-- The name of a `struct dirent`. -/
def direntName (de : List Byte) : List Byte := cstr (de.drop 2)

/-- A `struct dirent`.  The name is cut at `DIRSIZ` bytes, and filled up with null bytes. -/
def dirent (name : List Byte) (inum : Word) : List Byte :=
  toBytes (inum.setWidth 16) ++ (name.take 14 ++ List.replicate (14 - name.length) 0)

variable {π : Type} (out : Outside π)

/-- The loop of `dirlookup` from offset `off` on, over at most `fuel` entries. -/
def dirlookupLoop (dp : ℕ) (name : List Byte) : (fuel off : ℕ) → FsM (Option (ℕ × Word))
  | 0, _ => pure none
  | fuel + 1, off => do
    let s ← get
    if off < (s.cached dp).size.toNat then do
      let r ← readi g out dp (BitVec.ofNat 32 off) (BitVec.ofNat 32 direntSize)
      if r.1 ≠ BitVec.ofNat 32 direntSize then throw "dirlookup read"
      else if direntInum r.2 ≠ 0 ∧ namecmp name (direntName r.2) then do
        iget (direntInum r.2)
        pure (some (direntInum r.2, BitVec.ofNat 32 off))
      else dirlookupLoop dp name fuel (off + direntSize)
    else pure none

/-- Look for an entry in a directory. -/
def dirlookup (dp : ℕ) (name : List Byte) : FsM (Option (ℕ × Word)) := do
  let s ← get
  if (s.cached dp).type ≠ tDir then throw "dirlookup not DIR"
  else dirlookupLoop g out dp name ((s.cached dp).size.toNat / direntSize + 1) 0

/-- The loop of `dirlink` that looks for an empty entry. -/
def dirlinkLoop (dp : ℕ) : (fuel off : ℕ) → FsM ℕ
  | 0, off => pure off
  | fuel + 1, off => do
    let s ← get
    if off < (s.cached dp).size.toNat then do
      let r ← readi g out dp (BitVec.ofNat 32 off) (BitVec.ofNat 32 direntSize)
      if r.1 ≠ BitVec.ofNat 32 direntSize then throw "dirlink read"
      else if direntInum r.2 = 0 then pure off
      else dirlinkLoop dp fuel (off + direntSize)
    else pure off

/-- Write a new entry into a directory. -/
def dirlink (dp : ℕ) (name : List Byte) (inum : Word) : FsM Word := do
  match ← dirlookup g out dp name with
  | some (ip, _) => do
    iput g ip
    pure (-1)
  | none => do
    let s ← get
    let off ← dirlinkLoop g out dp ((s.cached dp).size.toNat / direntSize + 1) 0
    let r ← writei g out dp (dirent name inum) (BitVec.ofNat 32 off)
    if r ≠ BitVec.ofNat 32 direntSize then throw "dirlink"
    else pure 0

/-! ## Paths -/

/-- Split off the next element of a path, cut at `DIRSIZ` bytes; the rest has no leading
slashes.  `none` if there is no element left. -/
def skipelem (path : List Byte) : Option (List Byte × List Byte) :=
  let p := path.dropWhile (· = 47)
  if p = [] then none
  else some ((p.takeWhile (· ≠ 47)).take 14, (p.dropWhile (· ≠ 47)).dropWhile (· = 47))

/-- Unlock, then put. -/
def iunlockputInode (ip : ℕ) : FsM Unit := do
  iunlock ip
  iput g ip

/-- The loop of `namex` from the inode `ip` on, over at most `fuel` elements.  With `parent`
it stops one level early, and returns the last element too. -/
def namexLoop (parent : Bool) : (fuel ip : ℕ) → (path : List Byte) →
    FsM (Option (ℕ × List Byte))
  | 0, _, _ => pure none
  | fuel + 1, ip, path =>
    match skipelem path with
    | none =>
      if parent then do
        iput g ip
        pure none
      else pure (some (ip, []))
    | some (elem, rest) => do
      ilock ip
      let s ← get
      if (s.cached ip).type ≠ tDir then do
        iunlockputInode g ip
        pure none
      else if parent ∧ rest = [] then do
        iunlock ip
        pure (some (ip, elem))
      else do
        match ← dirlookup g out ip elem with
        | none => do
          iunlockputInode g ip
          pure none
        | some (next, _) => do
          iunlockputInode g ip
          namexLoop parent fuel next rest

/-- Look up a path from a working directory. -/
def namex (cwd : ℕ) (path : List Byte) (parent : Bool) : FsM (Option (ℕ × List Byte)) :=
  if path.head? = some 47 then do
    iget rootino
    namexLoop g out parent (path.length + 1) rootino path
  else do
    idup cwd
    namexLoop g out parent (path.length + 1) cwd path

def namei (cwd : ℕ) (path : List Byte) : FsM (Option ℕ) := do
  let r ← namex g out cwd (cstr path) false
  pure (r.map Prod.fst)

def nameiparent (cwd : ℕ) (path : List Byte) : FsM (Option (ℕ × List Byte)) :=
  namex g out cwd (cstr path) true

/-- The log, devices and pipes of `out`, with the names of `fs.c`. -/
def withNames : Outside π :=
  { out with
    namei := namei g out
    nameiparent := nameiparent g out
    dirlookup := dirlookup g out
    dirlink := dirlink g out
    ialloc := fun _ type => ialloc type
    iput := iput g }

end

end Xv6
