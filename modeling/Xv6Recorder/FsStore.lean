/-
# The inode layer of `fs.c` as a store of files

`FileStore` for the part of `fs.c` that keeps the contents of inodes, over what it needs of
names.  `NameLaws` is that interface: which inode a path names depends on the directories only,
a regular file that a path names, and a directory in which a path ends, have a link, the
operations on names find the inode and keep the file system invariant and the contents of
all regular files, `iput` does so for an inode that has a link, and making an entry for a
new inode gives the path that name.
-/
import Xv6Recorder.FileStore
import Xv6Recorder.FsFiles

open Bytes StateError

namespace Xv6

/-! ## Names -/

/-- Types are the same, and so are the bytes of everything but regular files; no inode has
lost its last link, and no free one has come into the cache. -/
structure Fs.SameDirs (g : Geometry) (s s' : Fs) : Prop where
  ninodes : s'.ninodes = s.ninodes
  typed : s.Typed → s'.Typed
  type : ∀ ip, (s'.node ip).type = (s.node ip).type
  bytes : ∀ ip, (s.node ip).type ≠ tFile → s'.bytes g ip = s.bytes g ip
  linked : ∀ ip, (s.node ip).nlink ≠ 0 → (s'.node ip).nlink ≠ 0

/-- What the paths stand for. -/
structure Naming (g : Geometry) where
  /-- The inode that a path names. -/
  Target (a : Place ℕ) (s : Fs) : Option ℕ
  /-- The place is the entry `name`, present or not, of the directory `dp`. -/
  Parent (a : Place ℕ) (s : Fs) (dp : ℕ) (name : List Byte) : Prop
  /-- The directories are in order. -/
  Tidy (s : Fs) : Prop
  target_congr : ∀ {s s'}, s.SameDirs g s' → ∀ a, Target a s' = Target a s
  parent_congr : ∀ {s s'}, s.SameDirs g s' → ∀ {a dp name}, Parent a s dp name →
    Parent a s' dp name
  tidy_congr : ∀ {s s'}, s.SameDirs g s' → Tidy s → Tidy s'
  target_absolute : ∀ {path cwd cwd' s}, Absolute path →
    Target (cwd, path) s = Target (cwd', path) s
  target_linked : ∀ {a s ip}, Tidy s → Target a s = some ip → (s.node ip).type = tFile →
    (s.node ip).nlink ≠ 0
  parent_linked : ∀ {a s dp name}, Tidy s → Parent a s dp name → (s.node dp).nlink ≠ 0

/-- The bytes of an inode that is a regular file. -/
def Fs.fileBytes (g : Geometry) (s : Fs) (ip : ℕ) : Option (List Byte) :=
  if (s.node ip).type = tFile then some (s.bytes g ip) else none

theorem fileBytes_eq_some {g : Geometry} {s : Fs} {ip : ℕ} {data : List Byte} :
    s.fileBytes g ip = some data ↔ (s.node ip).type = tFile ∧ s.bytes g ip = data := by
  rw [Fs.fileBytes]
  split
  case isTrue htype => simp [htype]
  case isFalse htype => simp [htype]

/-- What is observed of the file system.  The inode number in a directory entry has 16
bits, and is not `0`. -/
def Naming.view {g : Geometry} (n : Naming g) : FileView Fs ℕ where
  target := n.Target
  bytes := Fs.fileBytes g
  Parent := n.Parent
  Fresh s ip nlink := (s.node ip).type = tFile ∧ (s.node ip).size = 0 ∧
    (s.node ip).nlink = nlink ∧ 0 < ip ∧ ip < 2 ^ 16

/-- The file system invariant, with the directories in order. -/
def Naming.Inv {g : Geometry} (n : Naming g) (s : Fs) : Prop := s.Inv g ∧ n.Tidy s

/-- What the contents of files need of the operations on names. -/
structure NameLaws (g : Geometry) {π : Type} (out : Outside π) extends Naming g where
  beginOp : toNaming.view.QuietOn toNaming.Inv out.beginOp
  endOp : toNaming.view.QuietOn toNaming.Inv out.endOp
  iput : ∀ {s s' ip}, toNaming.Inv s → (s.node ip).nlink ≠ 0 → (out.iput ip).run s = .ok () s' →
    toNaming.Inv s' ∧ toNaming.view.Same s s'
  namei : ∀ {cwd path s s' ip t}, toNaming.Inv s → Target (cwd, path) s = some t →
    (out.namei cwd path).run s = .ok (some ip) s' →
    (toNaming.Inv s' ∧ toNaming.view.Same s s') ∧ ip = t
  nameiparent : ∀ {cwd path s s' dp name}, toNaming.Inv s →
    (out.nameiparent cwd path).run s = .ok (some (dp, name)) s' →
    (toNaming.Inv s' ∧ toNaming.view.Same s s') ∧ Parent (cwd, path) s' dp name
  dirlookup_some : ∀ {a s s' dp name ip off}, toNaming.Inv s → s.valid dp = true →
    Parent a s dp name → (out.dirlookup dp name).run s = .ok (some (ip, off)) s' →
    (toNaming.Inv s' ∧ toNaming.view.Same s s') ∧ Target a s' = some ip
  dirlookup_none : ∀ {a s s' dp name}, toNaming.Inv s → s.valid dp = true →
    Parent a s dp name → (out.dirlookup dp name).run s = .ok none s' →
    (toNaming.Inv s' ∧ toNaming.view.Same s s') ∧ Target a s' = none ∧ s'.valid dp = true
  ialloc : ∀ {a s s' dev dp name ip}, toNaming.Inv s → s.valid dp = true → Parent a s dp name →
    (out.ialloc dev tFile).run s = .ok (some ip) s' →
    (toNaming.Inv s' ∧ toNaming.view.Same s s') ∧ toNaming.view.Fresh s' ip 0 ∧
      s'.valid dp = true
  dirlink : ∀ {a s s' dp name ip r}, toNaming.Inv s → s.valid dp = true → Parent a s dp name →
    toNaming.view.Fresh s ip 1 →
    (out.dirlink dp name (BitVec.ofNat 32 ip)).run s = .ok r s' → 0 ≤ r.toInt →
    toNaming.Inv s' ∧ Parent a s' dp name ∧ Target a s' = some ip ∧ toNaming.view.Fresh s' ip 1

/-! ## The store -/

section

variable {g : Geometry} (n : Naming g) {s s' : Fs} {ip : ℕ}

/-- Nothing that is observed of the files depends on more than the types and the contents. -/
theorem Naming.sameFiles (hdirs : s.SameDirs g s') (hbytes : s'.bytes g = s.bytes g) :
    n.view.SameFiles s s' where
  target := n.target_congr hdirs
  contents a := by
    have hfile : s'.fileBytes g = s.fileBytes g := by
      funext ip
      rw [Fs.fileBytes, Fs.fileBytes, hdirs.type, hbytes]
    simp only [FileView.contents, Naming.view, n.target_congr hdirs, hfile]
  parent h := n.parent_congr hdirs h

theorem Fs.sameDirs_of_eq (hninodes : s'.ninodes = s.ninodes) (htyped : s.Typed → s'.Typed)
    (hnode : s'.node = s.node) (hbytes : s'.bytes g = s.bytes g) : s.SameDirs g s' :=
  ⟨hninodes, htyped, fun _ => by rw [hnode], fun _ _ => by rw [hbytes],
    fun _ h => by rw [hnode]; exact h⟩

/-- The same inodes with the same bytes look the same. -/
theorem Naming.same (hdirs : s.SameDirs g s') (hnode : s'.node = s.node)
    (hbytes : s'.bytes g = s.bytes g) : n.view.Same s s' where
  toSameFiles := n.sameFiles hdirs hbytes
  fresh {ip nlink} h := by
    simp only [Naming.view, hnode] at h ⊢
    exact h

/-- `ilock` does not change a directory. -/
theorem ilock_sameDirs (h : s.Inv g) (hrun : (ilock ip).run s = .ok () s') :
    s'.Inv g ∧ s.SameDirs g s' ∧ s'.node = s.node ∧ s'.bytes g = s.bytes g ∧
      s'.valid = Function.update s.valid ip true := by
  obtain ⟨hinv, hnode, hbytes, hvalid, hninodes, htype⟩ := ilock_eq_ok h hrun
  refine ⟨hinv, Fs.sameDirs_of_eq hninodes (fun htyped i hi => ?_) hnode hbytes, hnode, hbytes,
    hvalid⟩
  rw [hnode]
  by_cases hip : i = ip
  · subst hip
    exact htype.elim (htyped i) id
  · rw [hvalid, Function.update_of_ne hip] at hi
    exact htyped i hi

/-- A write to a regular file does not change a directory. -/
theorem Wrote.Done.sameDirs {data : List Byte} (h : Wrote.Done g ip data s s')
    (htype : (s.node ip).type = tFile) : s.SameDirs g s' := by
  refine ⟨h.ninodes, fun htyped i hi => ?_, h.type, fun i hi => h.others i ?_,
    fun i hi => by rw [h.nlink]; exact hi⟩
  · rw [h.type]
    rw [h.valid] at hi
    exact htyped i hi
  rintro rfl
  exact hi htype

/-- Linked inodes count a link. -/
theorem Naming.nlink_of_linked (hinv : n.Inv s) (h : n.view.Linked s ip) :
    (s.node ip).nlink ≠ 0 := by
  rcases h with ⟨a, htarget, hsome⟩ | ⟨a, name, hparent⟩
  · rw [n.view.contents_eq htarget] at hsome
    obtain ⟨data, hdata⟩ := Option.isSome_iff_exists.mp hsome
    exact n.target_linked hinv.2 htarget (fileBytes_eq_some.mp hdata).1
  · exact n.parent_linked hinv.2 hparent

end

theorem tFile_ne_tDev {type : Short} (h : type = tFile) : type ≠ tDev := by
  rw [h]
  decide

/-- **The inode layer of `fs.c` is a store of files.** -/
def NameLaws.store {g : Geometry} {π : Type} {out : Outside π} (names : NameLaws g out) :
    FileStore (fsOps g out) where
  toFileView := names.view
  Inv := names.toNaming.Inv
  Loaded s ip := s.valid ip = true
  beginOp := names.beginOp
  endOp := names.endOp
  iput hinv hlinked hrun := names.iput hinv (names.nlink_of_linked hinv hlinked) hrun
  ilock h hrun := by
    obtain ⟨hinv, hdirs, hnode, hbytes, hvalid⟩ := ilock_sameDirs h.1 hrun
    refine ⟨⟨⟨hinv, names.tidy_congr hdirs h.2⟩, names.same hdirs hnode hbytes⟩, ?_,
      fun i hi => ?_⟩
    · rw [hvalid, Function.update_self]
    · rw [hvalid, Function.update_apply, hi, ite_self]
  iunlock ip s a s' h hrun := by
    obtain rfl := iunlock_eq_ok hrun
    exact ⟨h, .refl _ _⟩
  readi h hvalid _ hdata hoff hn hrun := by
    obtain ⟨htype, rfl⟩ := fileBytes_eq_some.mp hdata
    obtain ⟨rfl, hr⟩ := readi_eq_ok h.1 hvalid (tFile_ne_tDev htype) hoff hn hrun
    exact ⟨⟨h, .refl _ _⟩, hr⟩
  writei {a s s' ip src off r data} h hvalid htarget hdata hoff hn hrun hr := by
    obtain ⟨htype, rfl⟩ := fileBytes_eq_some.mp hdata
    have hdone := writei_eq_ok h.1 hvalid (tFile_ne_tDev htype) hoff hn hrun hr
    have hdirs := hdone.sameDirs htype
    exact ⟨⟨hdone.inv, names.tidy_congr hdirs h.2⟩, (names.target_congr hdirs a).trans htarget,
      fileBytes_eq_some.mpr ⟨(hdone.type ip).trans htype, hdone.bytes⟩⟩
  absolute := names.target_absolute
  init {s s' ip} major minor h hvalid hfresh hrun := by
    obtain ⟨htype, hsize, -, hip⟩ := hfresh
    have hagree : (s.cached ip).Agree { s.cached ip with major, minor, nlink := 1 } :=
      ⟨rfl, rfl, rfl⟩
    obtain ⟨hinv, hnode, hbytes, hkept, hninodes⟩ := assign_iupdate_eq_ok h.1 hvalid hagree hrun
    have hself : s'.node ip = { s.node ip with major, minor, nlink := 1 } := by
      rw [hnode, Function.update_self, node_of_valid hvalid]
    have hother : ∀ i, i ≠ ip → s'.node i = s.node i := fun i hi => by
      rw [hnode, Function.update_of_ne hi]
    -- only the link count has changed, and it is not zero
    have hdirs : s.SameDirs g s' := by
      have htypes : ∀ i, (s'.node i).type = (s.node i).type := fun i => by
        by_cases hi : i = ip
        · rw [hi, hself]
        · rw [hother i hi]
      refine ⟨hninodes, fun htyped i hi => ?_, htypes, fun i _ => by rw [hbytes], fun i hi => ?_⟩
      · rw [htypes]
        rw [hkept] at hi
        exact htyped i hi
      · by_cases hip : i = ip
        · rw [hip, hself]
          exact show (1 : Short) ≠ 0 by decide
        · rw [hother i hip]
          exact hi
    refine ⟨⟨⟨hinv, names.tidy_congr hdirs h.2⟩, names.sameFiles hdirs hbytes⟩, ?_,
      fun i hi => by rw [hkept]; exact hi⟩
    refine ⟨?_, ?_, ?_, hip⟩ <;> rw [hself]
    · exact htype
    · exact hsize
  namei := names.namei
  nameiparent := names.nameiparent
  dirlookup_some := names.dirlookup_some
  dirlookup_none := names.dirlookup_none
  ialloc := names.ialloc
  dirlink {a s s' dp name ip r} h hvalid hparent hfresh hrun hr := by
    obtain ⟨hinv, hparent', htarget, htype, hsize, -⟩ :=
      names.dirlink h hvalid hparent hfresh hrun hr
    refine ⟨hinv, hparent', htarget, fileBytes_eq_some.mpr ⟨htype, ?_⟩⟩
    rw [Fs.bytes, hsize]
    rfl
  ilock_regular {s s' ip} h hrun htype := by
    obtain ⟨-, -, -, hvalid, -⟩ := ilock_eq_ok h.1 hrun
    have hnode : (s'.node ip).type = tFile := by
      rw [node_of_valid (by rw [hvalid, Function.update_self])]
      exact htype
    exact Option.isSome_iff_exists.mpr ⟨_, fileBytes_eq_some.mpr ⟨hnode, rfl⟩⟩

/-! ## A disk with one file -/

namespace OneInode

/-- Inode `0` is the directory, inode `1` the file that every path names. -/
def outside : Outside Unit where
  beginOp := pure ()
  endOp := pure ()
  namei _ _ := pure (some 1)
  nameiparent _ path := pure (some (0, path))
  dirlookup _ _ := pure (some (1, 0))
  dirlink _ _ _ := pure (-1)
  ialloc _ _ := pure none
  iput _ := pure ()
  devread _ := none
  devwrite _ := none
  piperead _ _ := pure (-1, [])
  pipewrite _ _ := pure (-1)
  pipeclose _ _ := pure ()

/-- Both inodes have a link. -/
def naming (g : Geometry) : Naming g where
  Target _ _ := some 1
  Parent _ _ dp _ := dp = 0
  Tidy s := (s.node 0).nlink ≠ 0 ∧ (s.node 1).nlink ≠ 0
  target_congr _ _ := rfl
  parent_congr _ _ _ _ h := h
  tidy_congr hdirs h := ⟨hdirs.linked 0 h.1, hdirs.linked 1 h.2⟩
  target_absolute _ := rfl
  target_linked h htarget _ := by
    obtain rfl := Option.some.inj htarget
    exact h.2
  parent_linked h hparent := by
    rw [hparent]
    exact h.1

/-- The disk keeps the laws of names. -/
def names (g : Geometry) : NameLaws g outside where
  toNaming := naming g
  beginOp := (naming g).view.quietOn_pure _
  endOp := (naming g).view.quietOn_pure _
  iput hinv _ hrun := (naming g).view.quietOn_pure _ hinv hrun
  namei {cwd path s s' ip t} hinv htarget hrun := by
    refine ⟨(naming g).view.quietOn_pure _ hinv hrun, ?_⟩
    injection hrun with hip _
    exact Option.some.inj (hip.symm.trans htarget)
  nameiparent {cwd path s s' dp name} hinv hrun := by
    refine ⟨(naming g).view.quietOn_pure _ hinv hrun, ?_⟩
    injection hrun with hd _
    exact (congrArg Prod.fst (Option.some.inj hd)).symm
  dirlookup_some {a s s' dp name ip off} hinv _ _ hrun := by
    refine ⟨(naming g).view.quietOn_pure _ hinv hrun, ?_⟩
    injection hrun with he _
    exact congrArg (Option.map Prod.fst) he
  dirlookup_none _ _ _ hrun := by cases hrun
  ialloc _ _ _ hrun := by cases hrun
  dirlink _ _ _ _ hrun hr := by
    injection hrun with hr' _
    rw [← hr'] at hr
    exact absurd hr (by decide)

/-- The file holds `bytes`, in block `1`; the blocks behind it are free. -/
def disk (bytes : List Byte) : Fs where
  sbSize := 8
  ninodes := 2
  used b := decide (b ≤ 1)
  block b := if b = 1 then overlay (fun _ => 0) 0 bytes else fun _ => 0
  dinode ip :=
    { type := if ip = 0 then tDir else if ip = 1 then tFile else 0
      major := 0
      minor := 0
      nlink := 1
      size := if ip = 1 then BitVec.ofNat 32 bytes.length else 0
      addrs := fun i => if ip = 1 ∧ i = 0 then 1 else 0 }
  cached _ := { type := 0, major := 0, minor := 0, nlink := 0, size := 0, addrs := fun _ => 0 }
  valid _ := false
  ref _ := 1

variable {g : Geometry} {bytes : List Byte}

/-- The only block number on the disk. -/
theorem ptr_disk (hdirect : 0 < g.ndirect) (l : ℕ × Loc) :
    (disk bytes).ptr g l = if l = (1, .direct 0) then 1 else 0 := by
  obtain ⟨ip, loc⟩ := l
  have hind : ¬ (ip = 1 ∧ g.ndirect = 0) := by omega
  cases loc with
  | direct i =>
    by_cases hi : ip = 1 ∧ i = 0
    · obtain ⟨rfl, rfl⟩ := hi
      simp [Fs.ptr, ptrOf, Fs.node, disk, hdirect]
    · have hne : ¬ ((ip, Loc.direct i) = (1, Loc.direct 0)) := fun h => hi (by simpa using h)
      simp [Fs.ptr, ptrOf, Fs.node, disk, hi, hne]
  | indirect => simp [Fs.ptr, ptrOf, Fs.node, disk, hind]
  | entry j => simp [Fs.ptr, ptrOf, Fs.node, disk, hind]

/-- The disk has the file system invariant, if the file fits in its block. -/
theorem fs_inv_disk (hdirect : 0 < g.ndirect) (hlen : bytes.length ≤ g.bsize) :
    (disk bytes).Inv g where
  sound := by
    have hptr : ∀ l, (disk bytes).ptr g l = if l = (1, .direct 0) then 1 else 0 :=
      ptr_disk hdirect
    refine ⟨⟨fun {l l'} hl heq => ?_, fun {l} hl => ?_⟩, rfl⟩
    · rw [hptr l] at hl heq
      rw [hptr l'] at heq
      split at hl <;> simp_all
    · rw [hptr l] at hl ⊢
      split at hl <;> simp_all [disk]
  below ip bn hbn := by
    by_cases hip : ip = 1
    · subst hip
      have hsize : ((disk bytes).node 1).size.toNat ≤ bytes.length := by
        simpa [Fs.node, disk] using Nat.mod_le _ _
      have hzero : bn = 0 := by
        by_contra hne
        have := Nat.le_mul_of_pos_left g.bsize (Nat.pos_of_ne_zero hne)
        omega
      subst hzero
      simp [Fs.dataPtr, blockLoc, hdirect, ptr_disk hdirect]
    · simp [Fs.node, disk, hip] at hbn
  coherent ip hvalid := by cases hvalid

theorem inv_disk (hdirect : 0 < g.ndirect) (hlen : bytes.length ≤ g.bsize) :
    (naming g).Inv (disk bytes) :=
  ⟨fs_inv_disk hdirect hlen, show (1 : Short) ≠ 0 by decide, show (1 : Short) ≠ 0 by decide⟩

end OneInode

end Xv6
