/-
# A session file is read back as it was written

`my_open`, `my_write`, `my_close` and later `my_open`, `my_read`, `my_close`, over the
inode layer of `fs.c`.  The file is not truncated when it is opened, so what is read back
is what was written, followed by what is left of the old file behind it, up to the
capacity of the buffer.  Each of the two passes takes one descriptor and gives it back.
-/
import Xv6Recorder.FsStore
import Xv6Recorder.V3Saving

open Bytes StateError Xv6

namespace V3

/-! ## The session file -/

/-- What a save leaves is as long as the longer of the two files. -/
theorem length_overwritten (b old : List Byte) :
    (b ++ old.drop b.length).length = max b.length old.length := by
  rw [List.length_append, List.length_drop]
  omega

/-- Between the two passes nobody writes the file, and the process keeps its working
directory and its descriptors. -/
structure Undisturbed {π : Type} {out : Outside π} (names : NameLaws geometry3 out)
    (path : List Byte) (k k' : Kern Fs ℕ π) : Prop where
  inv : names.toNaming.Inv k'.fs
  cwd : k'.proc.cwd = k.proc.cwd
  ofile : k'.proc.ofile = k.proc.ofile
  contents : names.store.contents (k.proc.cwd, path) k'.fs
    = names.store.contents (k.proc.cwd, path) k.fs

/-- **Persistence of the session file.**  Written over any old contents and read back,
the file gives the bytes written, then the old contents behind them, up to
`MAX_FILE_SIZE`; the descriptors of the process are as they were. -/
theorem session_file_persistence {π : Type} {out : Outside π} (names : NameLaws geometry3 out)
    {path b : List Byte} (hlen : b.length ≤ maxFileSize)
    {k k₁ k₂ k₃ k' k₁' k₂' k₃' : Kern Fs ℕ π} {fd fd' w closed closed' : Word}
    {r : Word × List Byte} {old : List Byte} (hinv : names.toNaming.Inv k.fs)
    (hold : (names.store.contents (k.proc.cwd, path) k.fs).getD [] = old)
    (hopen : (myOpen (fsOps geometry3 out) path (oCreate ||| oRdwr)).run k = .ok fd k₁)
    (hfd : fd ≠ -1) (hwrite : (myWrite (fsOps geometry3 out) fd b).run k₁ = .ok w k₂)
    (hw : w ≠ -1) (hclose : (myClose (fsOps geometry3 out) fd).run k₂ = .ok closed k₃)
    (hrest : Undisturbed names path k₃ k')
    (hopen' : (myOpen (fsOps geometry3 out) path oRdwr).run k' = .ok fd' k₁') (hfd' : fd' ≠ -1)
    (hread : (myRead (fsOps geometry3 out) fd' (BitVec.ofNat 32 maxFileSize)).run k₁' = .ok r k₂')
    (hr : r.1 ≠ -1) (hclose' : (myClose (fsOps geometry3 out) fd').run k₂' = .ok closed' k₃') :
    r.2 = (b ++ old.drop b.length).take (min maxFileSize (max b.length old.length)) ∧
      r.1 = BitVec.ofNat 32 (min maxFileSize (max b.length old.length)) ∧
      r.2.length = min maxFileSize (max b.length old.length) ∧
      k₃'.proc.ofile = k.proc.ofile := by
  have hmax : maxFileSize < 2 ^ 31 := by decide
  have hsaved := overwrite_holds names.store (k.proc.cwd, path) (by omega) rfl
    ⟨rfl, hinv, hold⟩ hopen hfd hwrite hw hclose
  have hcwd : k'.proc.cwd = k.proc.cwd := by rw [hrest.cwd, hsaved.proc]
  have hcontents : names.store.contents (k.proc.cwd, path) k'.fs
      = some (b ++ old.drop b.length) := by
    have hsame := hrest.contents
    rw [hsaved.proc] at hsame
    rw [hsame, hsaved.contents]
  obtain ⟨hpair, hloaded⟩ := load_reads names.store (k.proc.cwd, path) hcwd
    ⟨rfl, hrest.inv, hcontents⟩ hopen' hfd' hread hr hclose'
  obtain ⟨hstatus, hbytes⟩ := Prod.ext_iff.mp hpair
  rw [toNat_ofNat_of_lt hmax] at hbytes
  have hlength : r.2.length = min maxFileSize (max b.length old.length) := by
    rw [hbytes, List.length_take, length_overwritten]
  refine ⟨?_, by rw [hstatus, hlength], hlength, ?_⟩
  · rw [hbytes, ← length_overwritten, List.take_eq_take_min]
  · rw [hloaded.proc, hrest.ofile, hsaved.proc]

/-! ### Four bytes over six, on the disk with one file -/

namespace FourOverSix

/-- The inode layer over that disk. -/
def ops : FsOps Fs ℕ Unit := fsOps geometry3 OneInode.outside
/-- The bytes of the new session, and below the six of the old one. -/
def new : List Byte := [97, 98, 99, 100]
def old : List Byte := [1, 2, 3, 4, 5, 6]

/-- A process without open files. -/
def idle : Kern Fs ℕ Unit where
  proc :=
    { pid := 3, sz := 320, sz_lt := toNat_lt_kernbase, esp := 0, mem := fun _ => 0, ofile := fun _ => none
      cwd := 0, isInit := false }
  ftable := fun _ => { type := .none, ref := 0, readable := false, writable := false, off := 0 }
  ticks := 0
  fs := OneInode.disk old

/-! The kernel after each of the six calls. -/

def opened : Kern Fs ℕ Unit := endState ((myOpen ops [102] (oCreate ||| oRdwr)).run idle)
def written : Kern Fs ℕ Unit := endState ((myWrite ops 0 new).run opened)
def closed : Kern Fs ℕ Unit := endState ((myClose ops 0).run written)
def reopened : Kern Fs ℕ Unit := endState ((myOpen ops [102] oRdwr).run closed)
def loaded : Kern Fs ℕ Unit :=
  endState ((myRead ops 0 (BitVec.ofNat 32 maxFileSize)).run reopened)
def reclosed : Kern Fs ℕ Unit := endState ((myClose ops 0).run loaded)

/-- Each call succeeds, and the `read` gives the new bytes and the rest of the old ones. -/
theorem open_run : (myOpen ops [102] (oCreate ||| oRdwr)).run idle = .ok 0 opened := by rfl
theorem write_run : (myWrite ops 0 new).run opened = .ok 4 written := by rfl
theorem close_run : (myClose ops 0).run written = .ok 0 closed := by rfl
theorem reopen_run : (myOpen ops [102] oRdwr).run closed = .ok 0 reopened := by rfl
theorem read_run : (myRead ops 0 (BitVec.ofNat 32 maxFileSize)).run reopened
    = .ok (6, [97, 98, 99, 100, 5, 6]) loaded := by rfl
theorem reclose_run : (myClose ops 0).run loaded = .ok 0 reclosed := by rfl

/-- The disk is a sound one. -/
theorem inv_idle : (OneInode.naming geometry3).Inv idle.fs :=
  OneInode.inv_disk (by decide) (by decide)

/-- Nothing happens between the two passes. -/
theorem undisturbed : Undisturbed (OneInode.names geometry3) [102] closed closed where
  inv :=
    (overwrite_holds (OneInode.names geometry3).store (0, [102]) (by decide) rfl
      ⟨rfl, inv_idle, rfl⟩ open_run (by decide) write_run (by decide) close_run).inv
  cwd := rfl
  ofile := rfl
  contents := rfl

end FourOverSix

/-- The four bytes written, and the last two of the old six. -/
theorem session_file_persistence_short :
    [97, 98, 99, 100, 5, 6] = (FourOverSix.new ++ FourOverSix.old.drop FourOverSix.new.length).take
        (min maxFileSize (max FourOverSix.new.length FourOverSix.old.length)) ∧
      6 = BitVec.ofNat 32 (min maxFileSize (max FourOverSix.new.length FourOverSix.old.length)) ∧
      6 = min maxFileSize (max FourOverSix.new.length FourOverSix.old.length) ∧
      FourOverSix.reclosed.proc.ofile = FourOverSix.idle.proc.ofile :=
  session_file_persistence (OneInode.names geometry3) (by decide) FourOverSix.inv_idle (by rfl)
    FourOverSix.open_run (by decide) FourOverSix.write_run (by decide) FourOverSix.close_run
    FourOverSix.undisturbed FourOverSix.reopen_run (by decide) FourOverSix.read_run (by decide)
    FourOverSix.reclose_run

end V3
