/-
# A disk with one file

The smallest inode layer on which all the programs run: every path names the one
regular file there is, whose contents are the whole state.  It serves to evaluate
the model on concrete calls.
-/
import Xv6Recorder.FileStore

open Bytes

namespace Xv6

namespace OneFile

/-- The inode layer of the one file. -/
def ops : FsOps (List Byte) Unit Unit where
  beginOp := pure ()
  endOp := pure ()
  namei _ _ := pure (some ())
  nameiparent _ path := pure (some ((), path))
  dirlookup _ _ := pure (some ((), 0))
  dirlink _ _ _ := pure (-1)
  ialloc _ _ := pure none
  ilock _ := pure ()
  iunlock _ := pure ()
  iput _ := pure ()
  iupdate _ := pure ()
  inode s _ :=
    { dev := 1, inum := 2, type := tFile, major := 0, minor := 0, nlink := 1
      size := BitVec.ofNat 32 s.length }
  setInode _ _ s := s
  readi _ off n := fun s =>
    if s.length < off.toNat then .ok (-1, []) s
    else
      let bytes := (s.drop off.toNat).take n.toNat
      .ok (BitVec.ofNat 32 bytes.length, bytes) s
  writei _ src off := fun s =>
    if s.length < off.toNat then .ok (-1) s
    else .ok (BitVec.ofNat 32 src.length)
      (s.take off.toNat ++ src ++ s.drop (off.toNat + src.length))
  piperead _ _ := pure (-1, [])
  pipewrite _ _ := pure (-1)
  pipeclose _ _ := pure ()

/-- The one file is at every place. -/
def view : FileView (List Byte) Unit where
  target _ _ := some ()
  bytes s _ := some s
  Parent _ _ _ _ := True
  Fresh _ _ _ := False

theorem quietOn_pure {α : Type} (a : α) :
    view.QuietOn (fun _ => True) (pure a : EStateM String (List Byte) α) :=
  view.quietOn_pure a

/-- The disk is a store, in every state. -/
def store : FileStore ops where
  toFileView := view
  Inv _ := True
  Loaded _ _ := True
  beginOp := quietOn_pure _
  endOp := quietOn_pure _
  ilock h hrun := ⟨quietOn_pure _ h hrun, trivial, fun _ h => h⟩
  iunlock _ := quietOn_pure _
  iput h _ hrun := quietOn_pure _ h hrun
  readi := by
    rintro a s s' ip off n r data - - - hdata hoff - hrun
    obtain rfl : s = data := Option.some.inj hdata
    have hread : (ops.readi ip off n).run s = .ok (BitVec.ofNat 32
        ((s.drop off.toNat).take n.toNat).length, (s.drop off.toNat).take n.toNat) s :=
      if_neg (by omega)
    rw [hread] at hrun
    injection hrun with hr hs
    rw [← hr, ← hs]
    exact ⟨⟨trivial, .refl _ _⟩, rfl⟩
  writei := by
    rintro a s s' ip src off r data - - - hdata hoff - hrun -
    obtain rfl : s = data := Option.some.inj hdata
    have hwrite : (ops.writei ip src off).run s = .ok (BitVec.ofNat 32 src.length)
        (s.take off.toNat ++ src ++ s.drop (off.toNat + src.length)) := if_neg (by omega)
    rw [hwrite] at hrun
    injection hrun with _ hs
    rw [← hs]
    exact ⟨trivial, rfl, rfl⟩
  absolute _ := rfl
  init _ _ _ _ h := h.elim
  namei h _ hrun := ⟨quietOn_pure _ h hrun, rfl⟩
  nameiparent h hrun := ⟨quietOn_pure _ h hrun, trivial⟩
  dirlookup_some h _ _ hrun := ⟨quietOn_pure _ h hrun, rfl⟩
  dirlookup_none _ _ _ hrun := by cases hrun
  ialloc _ _ _ hrun := by cases hrun
  dirlink _ _ _ h := h.elim
  ilock_regular _ _ _ := rfl

/-- A process whose call has the given argument words, with `data` at address `64`. -/
def proc (pid : Word) (args : List Word) (data : List Byte) : Proc Unit where
  pid := pid
  sz := 320
  sz_lt := toNat_lt_kernbase
  esp := 0
  mem := overlay (overlay (fun _ => 0) 4 (args.flatMap toBytes)) 64 data
  ofile := fun fd => if fd.val = 3 then some ⟨0, nfile_pos⟩ else none
  cwd := ()
  isInit := false

/-- A kernel in which that process runs, with the one file open as descriptor `3`. -/
def kern (pid : Word) (args : List Word) (data file : List Byte) :
    Kern (List Byte) Unit Unit where
  proc := proc pid args data
  ftable := fun f =>
    { type := if f.val = 0 then .inode () else .none
      ref := if f.val = 0 then 1 else 0
      readable := true
      writable := true
      off := 0 }
  ticks := 0
  fs := file

end OneFile

end Xv6
