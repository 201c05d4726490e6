/-
# A disk with one directory

An inode layer in which every name but the empty one is the name of a regular file of its own.
It serves to evaluate the model on runs with several files: with no file open, a file can be
saved over, and loaded, in three calls each.
-/
import Xv6Recorder.FileStore
import Xv6Recorder.V3Saving

open Bytes StateError
open V3 (myOpen myRead myWrite myClose openedFile)

namespace Xv6

namespace NamedFiles

/-- The contents of the files. -/
abbrev Disk := List Byte → List Byte

/-- The directory, or the file under a name. -/
abbrev Node := Option (List Byte)

/-- The inode under a path. -/
def node (path : List Byte) : Node := if path = [] then none else some path

/-- The bytes of an inode. -/
def fileBytes (s : Disk) : Node → Option (List Byte)
  | none => none
  | some name => some (s name)

/-- The inode layer of the directory. -/
def ops : FsOps Disk Node Unit where
  beginOp := pure ()
  endOp := pure ()
  namei _ path := pure (some (node path))
  nameiparent _ path := pure (if path = [] then none else some (none, path))
  dirlookup _ name := pure (some (node name, 0))
  dirlink _ _ _ := pure (-1)
  ialloc _ _ := pure none
  ilock _ := pure ()
  iunlock _ := pure ()
  iput _ := pure ()
  iupdate _ := pure ()
  inode s ip :=
    { dev := 1, inum := 2, major := 0, minor := 0, nlink := 1
      type := if (fileBytes s ip).isSome then tFile else tDir
      size := BitVec.ofNat 32 ((fileBytes s ip).getD []).length }
  setInode _ _ s := s
  readi ip off n := fun s =>
    match fileBytes s ip with
    | none => .ok (-1, []) s
    | some bytes =>
      if bytes.length < off.toNat then .ok (-1, []) s
      else .ok (BitVec.ofNat 32 ((bytes.drop off.toNat).take n.toNat).length,
        (bytes.drop off.toNat).take n.toNat) s
  writei ip src off := fun s =>
    match ip with
    | none => .ok (-1) s
    | some name =>
      if (s name).length < off.toNat then .ok (-1) s
      else .ok (BitVec.ofNat 32 src.length) (Function.update s name
        ((s name).take off.toNat ++ src ++ (s name).drop (off.toNat + src.length)))
  piperead _ _ := pure (-1, [])
  pipewrite _ _ := pure (-1)
  pipeclose _ _ := pure ()

/-- What is at a place. -/
def view : FileView Disk Node where
  target a _ := some (node a.2)
  bytes := fileBytes
  Parent a _ _ name := name = a.2
  Fresh _ _ _ := False

theorem quietOn_pure {α : Type} (a : α) :
    view.QuietOn (fun _ => True) (pure a : EStateM String Disk α) :=
  view.quietOn_pure a

theorem readi_run {ip : Node} {off n : Word} {s : Disk} {bytes : List Byte}
    (hbytes : fileBytes s ip = some bytes) (hoff : off.toNat ≤ bytes.length) :
    (ops.readi ip off n).run s = .ok (BitVec.ofNat 32 ((bytes.drop off.toNat).take n.toNat).length,
      (bytes.drop off.toNat).take n.toNat) s := by
  rw [EStateM.run, ops]
  dsimp only
  rw [hbytes]
  exact if_neg (by omega)

theorem writei_run {name : List Byte} {src : List Byte} {off : Word} {s : Disk}
    (hoff : off.toNat ≤ (s name).length) :
    (ops.writei (some name) src off).run s = .ok (BitVec.ofNat 32 src.length)
      (Function.update s name
        ((s name).take off.toNat ++ src ++ (s name).drop (off.toNat + src.length))) :=
  if_neg (by omega)

/-- The disk is a store, in every state. -/
def store : FileStore ops where
  toFileView := view
  Inv _ := True
  Loaded _ _ := True
  beginOp := quietOn_pure _
  endOp := quietOn_pure _
  ilock h hrun := ⟨quietOn_pure _ h hrun, trivial, fun _ h => h⟩
  iunlock _ := quietOn_pure _
  iput h _ hrun := quietOn_pure _ h hrun
  readi := by
    intro a s s' ip off n r data _ _ _ hdata hoff _ hrun
    rw [readi_run hdata hoff] at hrun
    injection hrun with hr hs
    rw [← hr, ← hs]
    exact ⟨⟨trivial, .refl _ _⟩, rfl⟩
  writei := by
    intro a s s' ip src off r data _ _ htarget hdata hoff _ hrun _
    cases ip with
    | none => cases hdata
    | some name =>
      obtain rfl := Option.some.inj hdata
      rw [writei_run hoff] at hrun
      injection hrun with _ hs
      refine ⟨trivial, htarget, ?_⟩
      rw [← hs]
      exact congrArg some (Function.update_self _ _ _)
  absolute _ := rfl
  init _ _ _ _ h := h.elim
  namei := by
    intro cwd path s s' ip t h htarget hrun
    refine ⟨quietOn_pure _ h hrun, ?_⟩
    injection hrun with hip _
    exact Option.some.inj (hip.symm.trans htarget)
  nameiparent := by
    intro cwd path s s' dp name h hrun
    refine ⟨quietOn_pure _ h hrun, ?_⟩
    injection hrun with hd _
    split at hd
    · cases hd
    · exact (Prod.ext_iff.mp (Option.some.inj hd)).2.symm
  dirlookup_some := by
    intro a s s' dp name ip off h _ hparent hrun
    refine ⟨quietOn_pure _ h hrun, ?_⟩
    injection hrun with he _
    have hname : name = a.2 := hparent
    show some (node a.2) = some ip
    rw [← hname]
    exact congrArg (Option.map Prod.fst) he
  dirlookup_none _ _ _ hrun := by cases hrun
  ialloc _ _ _ hrun := by cases hrun
  dirlink _ _ _ h := h.elim
  ilock_regular := by
    intro s s' ip _ _ htype
    show (fileBytes s' ip).isSome
    by_contra hnone
    have hdir : (ops.inode s' ip).type = tDir := if_neg hnone
    rw [hdir] at htype
    exact absurd htype (by decide)

/-! ## Saving and loading with no file open -/

/-- No file is open. -/
structure Idle (k : Kern Disk Node Unit) : Prop where
  ofile : ∀ fd, k.proc.ofile fd = none
  ref : ∀ f, (k.ftable f).ref = 0

/-- The first descriptor and the first open file. -/
def fd₀ : Fin nofile := ⟨0, nofile_pos⟩
def file₀ : Fin nfile := ⟨0, nfile_pos⟩

/-- The kernel after a file has been opened. -/
def opened (path : List Byte) (k : Kern Disk Node Unit) : Kern Disk Node Unit :=
  openedFile file₀ (some path) (oCreate ||| oRdwr)
    (setFd fd₀ (some file₀) (setFile file₀ { k.ftable file₀ with ref := 1 } k))

variable {k : Kern Disk Node Unit}

theorem find?_finRange {n : ℕ} (P : Fin (n + 1) → Bool) (h : P 0 = true) :
    (List.finRange (n + 1)).find? P = some 0 := by
  rw [List.finRange_succ, List.find?_cons_of_pos h]

theorem filealloc_run (h : Idle k) : (filealloc : KM Disk Node Unit _).run k
    = .ok (some file₀) (setFile file₀ { k.ftable file₀ with ref := 1 } k) := by
  have hfind : (List.finRange nfile).find? (fun f => (k.ftable f).ref == 0) = some file₀ :=
    @find?_finRange 99 (fun f => (k.ftable f).ref == 0) (beq_iff_eq.mpr (h.ref file₀))
  rw [filealloc, EStateM.run_bind, EStateM.run_get]
  dsimp only
  rw [hfind]
  rfl

theorem fdalloc_run {k : Kern Disk Node Unit} (h : ∀ fd, k.proc.ofile fd = none) (f : Fin nfile) :
    (fdalloc f : KM Disk Node Unit _).run k = .ok (some fd₀) (setFd fd₀ (some f) k) := by
  have hfind : (List.finRange nofile).find? (fun fd => (k.proc.ofile fd).isNone) = some fd₀ :=
    @find?_finRange 15 (fun fd => (k.proc.ofile fd).isNone) (Option.isNone_iff_eq_none.mpr (h fd₀))
  rw [fdalloc, EStateM.run_bind, EStateM.run_get]
  dsimp only
  rw [hfind]
  rfl

variable {path : List Byte}

theorem find_run (hpath : path ≠ []) (k : Kern Disk Node Unit) :
    (V3.myOpenFind ops path (oCreate ||| oRdwr)).run k = .ok (some (some path)) k := by
  have hparent : (onFs (ops.nameiparent k.proc.cwd path) : KM Disk Node Unit _).run k
      = .ok (some (none, path)) k := by
    rw [onFs, run_zoom, ops]
    dsimp only
    rw [if_neg hpath]
    rfl
  have hlookup : (onFs (ops.dirlookup none path) : KM Disk Node Unit _).run k
      = .ok (some (some path, 0)) k := by
    rw [onFs, run_zoom, ops]
    dsimp only
    rw [node, if_neg hpath]
    rfl
  have hcreate : (create ops path tFile 0 0).run k = .ok (some (some path)) k := by
    rw [create, EStateM.run_bind, EStateM.run_get]
    dsimp only
    rw [run_bind_of_ok hparent]
    have hlock : (onFs (ops.ilock none) : KM Disk Node Unit _).run k = .ok () k := rfl
    dsimp only
    rw [run_bind_of_ok hlock, run_bind_of_ok hlookup]
    rfl
  exact run_bind_of_ok hcreate

theorem open_run (hpath : path ≠ []) (h : Idle k) :
    (myOpen ops path (oCreate ||| oRdwr)).run k = .ok 0 (opened path k) := by
  rw [myOpen, run_bind_of_ok (find_run hpath k)]
  dsimp only
  rw [V3.myOpenInode, run_bind_of_ok (filealloc_run h)]
  dsimp only
  have hfd := fdalloc_run (k := setFile file₀ { k.ftable file₀ with ref := 1 } k) h.ofile file₀
  rw [run_bind_of_ok hfd]
  rfl

/-- The open file, `pos` bytes into the file under a name. -/
structure At (path : List Byte) (pos : ℕ) (k : Kern Disk Node Unit) : Prop where
  type : (k.ftable file₀).type = .inode (some path)
  off : (k.ftable file₀).off = BitVec.ofNat 32 pos
  le : pos ≤ (k.fs path).length

/-- The bytes of a file after `src` has been written at `pos`. -/
def overwritten (bytes : List Byte) (pos : ℕ) (src : List Byte) : List Byte :=
  bytes.take pos ++ src ++ bytes.drop (pos + src.length)

/-- The kernel after `src` has been written at `pos`. -/
def written (path : List Byte) (pos : ℕ) (src : List Byte) (k : Kern Disk Node Unit) :
    Kern Disk Node Unit :=
  setFile file₀ { k.ftable file₀ with off := BitVec.ofNat 32 (pos + src.length) }
    { k with fs := Function.update k.fs path (overwritten (k.fs path) pos src) }

theorem chunk_run {path chunk : List Byte} {pos : ℕ} (h : At path pos k)
    (hpos : pos + chunk.length < 2 ^ 31) (hchunk : chunk ≠ []) :
    (filewriteChunk ops file₀ (some path) chunk).run k
      = .ok (BitVec.ofNat 32 chunk.length) (written path pos chunk k) := by
  have hoff : (k.ftable file₀).off.toNat = pos := by
    rw [h.off, toNat_ofNat_of_lt (by omega)]
  have hwrite : (onFs (ops.writei (some path) chunk (k.ftable file₀).off) : KM Disk Node Unit _).run k
      = .ok (BitVec.ofNat 32 chunk.length)
        { k with fs := Function.update k.fs path (overwritten (k.fs path) pos chunk) } := by
    refine run_zoom_of_ok (t := Function.update k.fs path (overwritten (k.fs path) pos chunk)) ?_
    rw [writei_run (by rw [hoff]; exact h.le), hoff]
    rfl
  have hlen : 0 < (BitVec.ofNat 32 chunk.length).toInt := by
    rw [toInt_ofNat_of_lt (by omega)]
    exact_mod_cast List.length_pos_iff.mpr hchunk
  show (onFs (ops.writei (some path) chunk (k.ftable file₀).off) >>= _).run k = _
  have hend : BitVec.ofNat 32 (pos + chunk.length)
      = (k.ftable file₀).off + BitVec.ofNat 32 chunk.length := by
    rw [h.off, BitVec.ofNat_add]
  rw [run_bind_of_ok hwrite, if_pos hlen, written, hend]
  rfl

theorem At.written {path chunk : List Byte} {pos : ℕ} (h : At path pos k) :
    At path (pos + chunk.length) (written path pos chunk k) where
  type := by
    rw [NamedFiles.written, setFile]
    dsimp only
    rw [Function.update_self]
    exact h.type
  off := by
    rw [NamedFiles.written, setFile]
    dsimp only
    rw [Function.update_self]
  le := by
    show pos + chunk.length ≤ (Function.update k.fs path _ path).length
    rw [Function.update_self, overwritten, List.length_append, List.length_append,
      List.length_take, Nat.min_eq_left h.le]
    omega

/-- Two writes, the second behind the first. -/
theorem written_written {path a b : List Byte} {pos : ℕ} (hpos : pos ≤ (k.fs path).length) :
    written path (pos + a.length) b (written path pos a k) = written path pos (a ++ b) k := by
  have hbytes : overwritten (overwritten (k.fs path) pos a) (pos + a.length) b
      = overwritten (k.fs path) pos (a ++ b) := by
    have hlen : ((k.fs path).take pos ++ a).length = pos + a.length := by
      rw [List.length_append, List.length_take, Nat.min_eq_left hpos]
    rw [overwritten, overwritten, List.take_left' hlen, List.drop_append, hlen,
      List.drop_eq_nil_of_le (by rw [hlen]; omega), List.drop_drop, overwritten, List.length_append]
    simp only [List.nil_append, List.append_assoc]
    congr 4
    omega
  simp only [written, setFile, Function.update_self, Function.update_idem, List.length_append,
    Nat.add_assoc, hbytes]

theorem loop_nil (fuel : ℕ) (ip : Node) :
    (filewriteLoop ops file₀ ip fuel []).run k = .ok true k := by
  cases fuel <;> rfl

/-- The loop of `filewrite` writes everything. -/
theorem loop_run (fuel : ℕ) {src : List Byte} {pos : ℕ} (h : At path pos k)
    (hfuel : src.length ≤ fuel) (hpos : pos + src.length < 2 ^ 31) (hsrc : src ≠ []) :
    (filewriteLoop ops file₀ (some path) fuel src).run k = .ok true (written path pos src k) := by
  induction fuel generalizing src pos k with
  | zero => exact absurd (List.length_eq_zero_iff.mp (Nat.le_zero.mp hfuel)) hsrc
  | succ fuel ih =>
    have hsplit := congrArg List.length (List.take_append_drop maxWrite src)
    rw [List.length_append] at hsplit
    have hchunk : src.take maxWrite ≠ [] := by
      rw [ne_eq, List.take_eq_nil_iff, not_or]
      exact ⟨by decide, hsrc⟩
    have hshort : (src.take maxWrite).length < 2 ^ 31 := by omega
    have hpositive := List.length_pos_iff.mpr hchunk
    rw [filewriteLoop, if_neg (by simpa using hsrc),
      run_bind_of_ok (chunk_run h (by omega) hchunk),
      if_neg (by rw [toInt_ofNat_of_lt hshort]; omega), if_neg (not_not.mpr rfl)]
    by_cases hrest : src.drop maxWrite = []
    · rw [hrest, loop_nil]
      rw [hrest, List.length_nil] at hsplit
      rw [List.take_of_length_le (by rw [← List.drop_eq_nil_iff]; exact hrest)]
    · rw [ih h.written (by omega) (by omega) hrest, written_written h.le, List.take_append_drop]

/-- With the file open as descriptor `0`. -/
theorem myArgfd_opened (k : Kern Disk Node Unit) :
    myArgfd (opened path k).proc 0 = some (fd₀, file₀) :=
  V3.myArgfd_ofNat (i := fd₀) (by simp [opened, openedFile, setFile, setFd])

theorem At.opened (path : List Byte) (k : Kern Disk Node Unit) : At path 0 (opened path k) where
  type := by simp [NamedFiles.opened, openedFile, setFile, setFd]
  off := by simp [NamedFiles.opened, openedFile, setFile, setFd]
  le := Nat.zero_le _

theorem write_run {path src : List Byte} (k : Kern Disk Node Unit) (hsrc : src ≠ [])
    (hlen : src.length < 2 ^ 31) : (myWrite ops 0 src).run (opened path k)
      = .ok (BitVec.ofNat 32 src.length) (written path 0 src (opened path k)) := by
  have hloop := loop_run src.length (At.opened path k) le_rfl (by omega) hsrc
  have hwritable : ((opened path k).ftable file₀).writable = true := by
    simp [opened, openedFile, setFile, setFd]
    decide
  rw [myWrite, EStateM.run_bind, EStateM.run_get]
  dsimp only
  rw [myArgfd_opened]
  dsimp only
  rw [filewrite, EStateM.run_bind, EStateM.run_get]
  dsimp only
  rw [hwritable, if_neg (by decide), (At.opened path k).type]
  dsimp only
  rw [run_bind_of_ok hloop]
  rfl

/-- The file is open, and apart from its offset and the disk nothing has changed since. -/
structure Holding (path : List Byte) (k k' : Kern Disk Node Unit) : Prop where
  proc : k'.proc = (opened path k).proc
  ref : ∀ f, (k'.ftable f).ref = ((opened path k).ftable f).ref
  type : (k'.ftable file₀).type = .inode (some path)

theorem Holding.moved (path : List Byte) (k : Kern Disk Node Unit) (off : Word) (s : Disk) :
    Holding path k (setFile file₀ { (opened path k).ftable file₀ with off := off }
      { opened path k with fs := s }) where
  proc := rfl
  ref f := by
    by_cases hf : f = file₀
    · subst hf
      simp [setFile]
    · simp [setFile, Function.update_of_ne hf]
  type := by
    simp only [setFile, Function.update_self]
    exact (At.opened path k).type

theorem read_run (k : Kern Disk Node Unit) (n : Word) :
    ∃ k', (myRead ops 0 n).run (opened path k)
      = .ok (BitVec.ofNat 32 ((k.fs path).take n.toNat).length, (k.fs path).take n.toNat) k' ∧
      Holding path k k' ∧ k'.fs = k.fs := by
  have hreadable : ((opened path k).ftable file₀).readable = true := by
    simp [opened, openedFile, setFile, setFd]
    decide
  have hoff : ((opened path k).ftable file₀).off = 0 := (At.opened path k).off
  have hread : (onFs (ops.readi (some path) ((opened path k).ftable file₀).off n) :
      KM Disk Node Unit _).run (opened path k)
      = .ok (BitVec.ofNat 32 ((k.fs path).take n.toNat).length, (k.fs path).take n.toNat)
        (opened path k) := by
    refine run_zoom_of_ok (t := k.fs) ?_
    rw [hoff]
    exact readi_run rfl (Nat.zero_le _)
  rw [myRead, EStateM.run_bind, EStateM.run_get]
  dsimp only
  rw [myArgfd_opened]
  dsimp only
  rw [fileread, EStateM.run_bind, EStateM.run_get]
  dsimp only
  have hlock : (onFs (ops.ilock (some path)) : KM Disk Node Unit _).run (opened path k)
      = .ok () (opened path k) := rfl
  rw [hreadable, if_neg (by decide), (At.opened path k).type]
  dsimp only
  rw [run_bind_of_ok hlock, run_bind_of_ok hread]
  -- `fileread` moves the offset only when something was read
  by_cases hpos : 0 < (BitVec.ofNat 32 ((k.fs path).take n.toNat).length).toInt
  · rw [if_pos hpos]
    exact ⟨_, rfl, .moved path k _ _, rfl⟩
  · rw [if_neg hpos]
    exact ⟨_, rfl, ⟨rfl, fun _ => rfl, (At.opened path k).type⟩, rfl⟩

/-- Closing the only open file. -/
theorem close_run {k k' : Kern Disk Node Unit} (h : Idle k) (hold : Holding path k k') :
    ∃ k'', (myClose ops 0).run k' = .ok 0 k'' ∧ Idle k'' ∧ k''.fs = k'.fs := by
  have hargfd : myArgfd k'.proc 0 = some (fd₀, file₀) := by
    rw [hold.proc]
    exact myArgfd_opened k
  have href : ((setFd fd₀ none k').ftable file₀).ref = 1 := by
    refine (hold.ref file₀).trans ?_
    simp [opened, openedFile, setFile, setFd]
  have hclose : (fileclose ops file₀).run (setFd fd₀ none k')
      = .ok () (setFile file₀ { k'.ftable file₀ with ref := 0, type := .none }
        (setFd fd₀ none k')) := by
    have htype : ((setFd fd₀ none k').ftable file₀).type = .inode (some path) := hold.type
    rw [fileclose, EStateM.run_bind, EStateM.run_get]
    dsimp only
    rw [href, if_neg (by decide), if_neg (by decide), htype]
    rfl
  rw [myClose, EStateM.run_bind, EStateM.run_get]
  dsimp only
  rw [hargfd]
  -- the descriptor and the file were the only ones in use
  refine ⟨_, run_bind_of_ok hclose, ⟨fun fd => ?_, fun f => ?_⟩, rfl⟩
  · show Function.update k'.proc.ofile fd₀ none fd = none
    rw [hold.proc]
    show Function.update (Function.update k.proc.ofile fd₀ (some file₀)) fd₀ none fd = none
    rw [Function.update_idem]
    by_cases hfd : fd = fd₀
    · rw [hfd, Function.update_self]
    · rw [Function.update_of_ne hfd]
      exact h.ofile fd
  · show (Function.update k'.ftable file₀ _ f).ref = 0
    by_cases hf : f = file₀
    · rw [hf, Function.update_self]
    · rw [Function.update_of_ne hf, hold.ref f]
      simp only [opened, openedFile, setFile, setFd, Function.update_of_ne hf]
      exact h.ref f

/-- **A save** of `src` over the file under a name. -/
theorem save_run {path src : List Byte} (hpath : path ≠ []) (h : Idle k) (hsrc : src ≠ [])
    (hlen : src.length < 2 ^ 31) : ∃ k₁ k₂ k₃,
    (myOpen ops path (oCreate ||| oRdwr)).run k = .ok 0 k₁ ∧
    (myWrite ops 0 src).run k₁ = .ok (BitVec.ofNat 32 src.length) k₂ ∧
    (myClose ops 0).run k₂ = .ok 0 k₃ ∧ Idle k₃ ∧
    k₃.fs = Function.update k.fs path (src ++ (k.fs path).drop src.length) := by
  obtain ⟨k₃, hclose, hidle, hfs⟩ := close_run h (.moved path k _ _)
  refine ⟨_, _, k₃, open_run hpath h, write_run k hsrc hlen, hclose, hidle, hfs.trans ?_⟩
  show Function.update k.fs path (overwritten (k.fs path) 0 src) = _
  rw [overwritten, List.take_zero, List.nil_append, Nat.zero_add]

/-- **A load** of the file under a name. -/
theorem load_run (hpath : path ≠ []) (h : Idle k) (n : Word) : ∃ k₁ k₂ k₃,
    (myOpen ops path (oCreate ||| oRdwr)).run k = .ok 0 k₁ ∧
    (myRead ops 0 n).run k₁
      = .ok (BitVec.ofNat 32 ((k.fs path).take n.toNat).length, (k.fs path).take n.toNat) k₂ ∧
    (myClose ops 0).run k₂ = .ok 0 k₃ ∧ Idle k₃ ∧ k₃.fs = k.fs := by
  obtain ⟨k₂, hread, hold, hfs⟩ := read_run k n
  obtain ⟨k₃, hclose, hidle, hfs'⟩ := close_run h hold
  exact ⟨_, k₂, k₃, open_run hpath h, hread, hclose, hidle, hfs'.trans hfs⟩

end NamedFiles

end Xv6
