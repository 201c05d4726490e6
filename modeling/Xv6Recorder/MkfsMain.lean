/-
# The whole run of `mkfs`

For every file on the command line `main` takes an inode, puts an entry into the root
directory and appends what it reads from the file.  The number that goes into the entry is the
counter of inodes, which only `ialloc` moves, so it is known beforehand: `main` is `build` of a
fixed list of operations, followed by the rounding of the root directory and the free map.

The kernel therefore reads every file of the command line from the image, and its free map has
the blocks of all files, so it gives none of them away.
-/
import Xv6Recorder.MkfsRuns

open Bytes BlockFile StateError

namespace Xv6.Mkfs

variable {h : Header} {img img' : Image}

/-! ## The counter of inodes -/

/-- The counter of inodes is where it was. -/
def SameCount (img img' : Image) : Prop := img'.freeinode = img.freeinode

instance : IsPreorder Image SameCount where
  refl _ := rfl
  trans _ _ _ h₁ h₂ := Eq.trans h₂ h₁

/-- The programs below `ialloc` leave the count of inodes alone; the proofs follow their text. -/
theorem sameCount_rsect (sec : ℕ) : Keeps SameCount (rsect sec) :=
  .bind .get fun _ => .ite (.throw _) (.pure _)

theorem sameCount_wsect (sec : ℕ) (buf : Memory) : Keeps SameCount (wsect sec buf) :=
  .ite (.throw _) (.modify fun _ => rfl)

theorem sameCount_nextBlock : Keeps SameCount nextBlock := fun _ => rfl

theorem sameCount_winode (inum : ℕ) (din : Dinode) : Keeps SameCount (winode h inum din) :=
  .bind (sameCount_rsect _) fun _ => sameCount_wsect _ _

theorem sameCount_rinode (inum : ℕ) : Keeps SameCount (rinode h inum) :=
  .bind (sameCount_rsect _) fun _ => .pure _

theorem sameCount_claimAddr (din : Dinode) (i : ℕ) : Keeps SameCount (claimAddr din i) :=
  .ite (.bind sameCount_nextBlock fun _ => .pure _) (.pure _)

theorem sameCount_claimEntry (b : Word) (j : ℕ) : Keeps SameCount (claimEntry h b j) := by
  refine .bind (sameCount_rsect _) fun _ => .ite (.throw _) (.ite ?_ (.pure _))
  exact .bind sameCount_nextBlock fun _ => .bind (sameCount_wsect _ _) fun _ => .pure _

theorem sameCount_fileBlock (din : Dinode) (fbn : ℕ) : Keeps SameCount (fileBlock h din fbn) := by
  refine .ite (.bind (sameCount_claimAddr _ _) fun _ => .pure _) ?_
  exact .bind (sameCount_claimAddr _ _) fun _ => .bind (sameCount_claimEntry _ _) fun _ => .pure _

/-- By induction on the fuel of the loop. -/
theorem sameCount_iappendLoop (fuel off : ℕ) (din : Dinode) (p : List Byte) :
    Keeps SameCount (iappendLoop h fuel off din p) := by
  induction fuel generalizing off din p with
  | zero => exact .pure _
  | succ fuel ih =>
    refine .ite (.pure _) (.ite (.throw _) ?_)
    refine .bind (sameCount_fileBlock _ _) fun _ => ?_
    exact .bind (sameCount_rsect _) fun _ => .bind (sameCount_wsect _ _) fun _ => ih _ _ _

theorem sameCount_iappend (inum : ℕ) (p : List Byte) : Keeps SameCount (iappend h inum p) := by
  refine .bind (sameCount_rinode _) fun _ => ?_
  exact .bind (sameCount_iappendLoop _ _ _ _) fun _ => sameCount_winode _ _

theorem sameCount_forM (inum : ℕ) (chunks : List (List Byte)) :
    Keeps SameCount (chunks.forM (iappend h inum)) := by
  induction chunks with
  | nil => exact .pure _
  | cons p chunks ih => exact .bind (sameCount_iappend _ _) fun _ => ih

/-- **`ialloc`** returns the counter and moves it. -/
theorem ialloc_count {type : Short} {inum : ℕ} (hrun : (ialloc h type).run img = .ok inum img') :
    inum = img.freeinode ∧ img'.freeinode = img.freeinode + 1 := by
  rw [ialloc, run_bind_of_ok (EStateM.run_get img), run_bind_of_ok (EStateM.run_set _ img)] at hrun
  obtain ⟨_, img₁, hwrite, hpure⟩ := run_bind_eq_ok.mp hrun
  cases hpure
  exact ⟨rfl, (sameCount_winode _ _).of_ok hwrite⟩

/-! ## The operations of `main` -/

/-- A file that can be opened, under a name that is not a path. -/
structure Readable where
  name : List Byte
  plain : (0x2f : Byte) ∉ name
  /-- What the calls of `read` return. -/
  chunks : List (List Byte)

/-- The argument as `main` gets it. -/
def Readable.arg (r : Readable) : Arg := ⟨r.name, some r.chunks⟩

/-- What a round of the loop over the arguments does when there are `k` files already. -/
def Readable.script (k : ℕ) (r : Readable) : List Op :=
  .create .file :: .append 0 (dirent (k + 1) (skipUnderscore r.name)) :: r.chunks.map (.append k)

/-- The files one after the other; the first one is file number `k`. -/
def scriptFrom : ℕ → List Readable → List Op
  | _, [] => []
  | k, r :: rs => r.script k ++ scriptFrom (k + 1) rs

/-- What `main` does. -/
def script (rs : List Readable) : List Op :=
  .create .dir :: .append 0 (dirent 1 [0x2e]) :: .append 0 (dirent 1 [0x2e, 0x2e]) ::
    scriptFrom 1 rs

/-- One round of the loop, in front of whatever follows. -/
theorem addFile_bind (r : Readable) {k : ℕ} (hk : img.freeinode = k + 1) {f g : MkfsM Unit}
    (hrest : ∀ img', img'.freeinode = k + 2 → f.run img' = g.run img') :
    (addFile h 1 r.arg >>= fun _ => f).run img
      = ((r.script k).forM (Op.run h) >>= fun _ => g).run img := by
  have hadd : addFile h 1 r.arg = (do
      let inum ← ialloc h tFile
      iappend h 1 (dirent inum (skipUnderscore r.name))
      r.chunks.forM (iappend h inum)) := if_neg r.plain
  have hchunks : (r.chunks.map (Op.append k)).forM (Op.run h)
      = r.chunks.forM (iappend h (k + 1)) := by
    simp only [List.forM_eq_forM, List.forM_map]
    rfl
  simp only [List.forM_eq_forM] at hchunks
  rw [hadd, Readable.script]
  simp only [List.forM_eq_forM, List.forM_cons, hchunks, Op.run, bind_assoc, pure_bind]
  -- the number that goes into the entry is the counter
  refine run_bind_congr fun inum img₁ halloc => ?_
  obtain ⟨rfl, hcount⟩ := ialloc_count halloc
  rw [hk]
  refine run_bind_congr fun _ img₂ hentry => ?_
  refine run_bind_congr fun _ img₃ hcontents => ?_
  apply hrest
  have h₂ : img₂.freeinode = img₁.freeinode := (sameCount_iappend _ _).of_ok hentry
  have h₃ : img₃.freeinode = img₂.freeinode := (sameCount_forM _ _).of_ok hcontents
  omega

/-- **The loop of `main` runs the script.**  By induction on the files; the count of inodes says
which one a file gets. -/
theorem addFiles_bind (rs : List Readable) {k : ℕ} (hk : img.freeinode = k + 1) (f : MkfsM Unit) :
    ((rs.map Readable.arg).forM (addFile h 1) >>= fun _ => f).run img
      = ((scriptFrom k rs).forM (Op.run h) >>= fun _ => f).run img := by
  induction rs generalizing img k with
  | nil => rfl
  | cons r rs ih =>
    simp only [List.forM_eq_forM] at ih ⊢
    rw [List.map_cons, List.forM_cons, scriptFrom, List.forM_append, bind_assoc, bind_assoc]
    exact addFile_bind r hk fun img' hk' => ih hk'

/-- **`main` builds the image of its script**, and finishes it. -/
theorem main_eq (rs : List Readable) (img : Image) :
    (main h (rs.map Readable.arg)).run img
      = (build h (script rs) >>= fun _ => finish h 1).run img := by
  rw [main, build, script]
  simp only [List.forM_eq_forM, List.forM_cons, Op.run, bind_assoc, pure_bind]
  refine run_bind_congr fun _ img₀ hformat => ?_
  rw [format_run] at hformat
  cases hformat
  refine run_bind_congr fun inum img₁ halloc => ?_
  obtain ⟨rfl, hcount⟩ := ialloc_count halloc
  have hone : (formatted h).freeinode = 1 := rfl
  rw [hone] at hcount ⊢
  rw [if_neg (by decide)]
  refine run_bind_congr fun _ img₂ hdot => ?_
  refine run_bind_congr fun _ img₃ hdotdot => ?_
  have h₂ : img₂.freeinode = img₁.freeinode := (sameCount_iappend _ _).of_ok hdot
  have h₃ : img₃.freeinode = img₂.freeinode := (sameCount_iappend _ _).of_ok hdotdot
  exact addFiles_bind rs (by omega) _

/-! ## The files of `main` -/

/-- The entries of the files, the first one with number `inum`. -/
def entriesFrom : ℕ → List Readable → List Byte
  | _, [] => []
  | inum, r :: rs => dirent inum (skipUnderscore r.name) ++ entriesFrom (inum + 1) rs

/-- What the file holds. -/
def Readable.contents (r : Readable) : List Byte := r.chunks.flatten

/-- The root directory. -/
def rootDir (rs : List Readable) : List Byte :=
  dirent 1 [0x2e] ++ dirent 1 [0x2e, 0x2e] ++ entriesFrom 2 rs

/-- The files of the image. -/
def imageFiles (rs : List Readable) : List (List Byte) :=
  rootDir rs :: rs.map Readable.contents

/-- A file grows by its chunks. -/
theorem files_chunks {files : List (List Byte)} {k : ℕ} {f : List Byte} (hk : files[k]? = some f)
    (chunks : List (List Byte)) :
    (chunks.map (Op.append k)).foldlM Op.files files
      = some (files.set k (f ++ chunks.flatten)) := by
  induction chunks generalizing files f with
  | nil =>
    obtain ⟨hlt, rfl⟩ := List.getElem?_eq_some_iff.mp hk
    rw [List.flatten_nil, List.append_nil, List.set_getElem_self]
    rfl
  | cons p chunks ih =>
    have hlt := (List.getElem?_eq_some_iff.mp hk).1
    have hop : Op.files files (.append k p) = some (files.set k (f ++ p)) := by
      rw [Op.files, hk]
      rfl
    rw [List.map_cons, List.foldlM_cons, hop, Option.bind_eq_bind, Option.bind_some,
      ih (List.getElem?_set_self hlt), List.set_set, List.flatten_cons, List.append_assoc]

/-- One file: an entry in the root directory, and its contents in a new file. -/
theorem files_script (r : Readable) (root : List Byte) (files : List (List Byte)) :
    (r.script (files.length + 1)).foldlM Op.files (root :: files)
      = some ((root ++ dirent (files.length + 2) (skipUnderscore r.name)) ::
          (files ++ [r.contents])) := by
  set entry := dirent (files.length + 2) (skipUnderscore r.name)
  have hentry : Op.files (root :: files ++ [[]]) (.append 0 entry)
      = some ((root ++ entry) :: (files ++ [[]])) := rfl
  have hlast : ((root ++ entry) :: (files ++ [[]]))[files.length + 1]? = some [] := by
    rw [List.getElem?_cons_succ, List.getElem?_concat_length]
  have hset : ((root ++ entry) :: (files ++ [[]])).set (files.length + 1) r.contents
      = (root ++ entry) :: (files ++ [r.contents]) := by
    rw [List.set_cons_succ, List.set_append_right _ _ le_rfl, Nat.sub_self, List.set_cons_zero]
  rw [Readable.script, List.foldlM_cons, Op.files, Option.bind_eq_bind, Option.bind_some,
    List.foldlM_cons, hentry, Option.bind_eq_bind, Option.bind_some, files_chunks hlast]
  exact congrArg some hset

/-- All of them, by induction. -/
theorem files_scriptFrom (rs : List Readable) (root : List Byte) (files : List (List Byte)) :
    (scriptFrom (files.length + 1) rs).foldlM Op.files (root :: files)
      = some ((root ++ entriesFrom (files.length + 2) rs) ::
          (files ++ rs.map Readable.contents)) := by
  induction rs generalizing root files with
  | nil =>
    rw [scriptFrom, entriesFrom, List.map_nil, List.append_nil, List.append_nil]
    rfl
  | cons r rs ih =>
    have hlength : (files ++ [r.contents]).length = files.length + 1 := List.length_append
    have hrest := ih (root ++ dirent (files.length + 2) (skipUnderscore r.name))
      (files ++ [r.contents])
    rw [hlength] at hrest
    rw [scriptFrom, List.foldlM_append, files_script, Option.bind_eq_bind, Option.bind_some,
      hrest, entriesFrom, List.map_cons, List.append_assoc, List.append_assoc,
      List.singleton_append]

/-- The script makes the root directory and the files. -/
theorem filesOf_script (rs : List Readable) : filesOf (script rs) = some (imageFiles rs) :=
  files_scriptFrom rs (dirent 1 [0x2e] ++ dirent 1 [0x2e, 0x2e]) []

/-! ## The end of `main` -/

/-- One turn of the loop of `balloc`. -/
theorem bitmap_succ (used : ℕ) : bitmap (used + 1)
    = Function.update (bitmap used) (used / 8) (bitmap used (used / 8) ||| 1 <<< (used % 8)) := by
  rw [bitmap, List.range_succ, List.foldl_append]
  rfl

/-- **The free map** has exactly the first blocks. -/
theorem getLsbD_bitmap (used b : ℕ) :
    (bitmap used (b / 8)).getLsbD (b % 8) = decide (b < used) := by
  induction used with
  | zero => simp [bitmap, zeroes]
  | succ used ih =>
    rw [bitmap_succ]
    by_cases hbyte : b / 8 = used / 8
    · rw [hbyte, Function.update_self, ← hbyte, BitVec.getLsbD_or, ih]
      have hbit : (BitVec.ofNat 8 (1 <<< (used % 8))).getLsbD (b % 8) = decide (b = used) := by
        rw [BitVec.getLsbD_ofNat, Nat.one_shiftLeft, Nat.testBit_two_pow, ← Bool.decide_and]
        congr 1
        exact propext (by omega)
      have hmap : (decide (b < used) || decide (b = used)) = decide (b < used + 1) := by
        rw [← Bool.decide_or]
        congr 1
        exact propext (by omega)
      rw [← hmap, ← hbit]
      rfl
    · rw [Function.update_of_ne hbyte, ih]
      congr 1
      exact propext (by omega)

/-- The last sector of a run of `mkfs` that is written, the free map, holds no inode and no
data. -/
theorem disk_store_bmap (buf : Memory) : (img.store h.bmapstart buf).disk h = img.disk h := by
  have hdinode : dinodeAt h (img.store h.bmapstart buf) = dinodeAt h img := by
    funext i
    unfold dinodeAt
    split
    case isTrue hi => rw [store_sector_of_ne (Nat.ne_of_lt (iblock_mem hi).2)]
    case isFalse => rfl
  unfold Image.disk
  rw [hdinode, dataBlock_store_low (bmapstart_lt_nmeta h)]
  rfl

/-- The inode of the root directory, with its size rounded up. -/
def rounded (h : Header) (d : Dinode) : Dinode :=
  { d with size := BitVec.ofNat 32 ((d.size.toNat / h.bsize + 1) * h.bsize) }

/-- The image `finish` leaves. -/
def Image.finished (h : Header) (img : Image) : Image :=
  (img.putInode h 1 (rounded h (dinodeAt h img 1))).store h.bmapstart (bitmap img.freeblock)

/-- **The tail of `main`** never stops. -/
theorem finish_run (t : img.Tidy h) (hmap : fssize < h.bsize * 8) :
    (finish h 1).run img = .ok () (img.finished h) := by
  set mid := img.putInode h 1 (rounded h (dinodeAt h img 1)) with hmid
  have hone : 1 < ninodes := by decide
  have hwrite : (winode h 1 (rounded h (dinodeAt h img 1))).run img = .ok () mid :=
    winode_run t.length hone _
  have hlen : mid.length = fssize := (t.putInode hone _).length
  have hfree : mid.freeblock = img.freeblock := rfl
  have hroom := t.room
  rw [finish, run_bind_of_ok (rinode_run t.length hone)]
  refine (run_bind_of_ok hwrite).trans ?_
  rw [run_bind_of_ok (EStateM.run_get mid), balloc, if_neg (by omega)]
  exact wsect_run hlen ((bmapstart_lt_nmeta h).trans h.meta_lt) _

/-- The kernel sees the root directory grow to whole blocks, and the map of used blocks. -/
theorem disk_finished : (img.finished h).disk h =
    { img.disk h with
      dinode := Function.update (dinodeAt h img) 1 (rounded h (dinodeAt h img 1))
      cached := Function.update (dinodeAt h img) 1 (rounded h (dinodeAt h img 1)) } := by
  rw [Image.finished, disk_store_bmap]
  exact disk_putInode (by decide) (trimmed_dinodeAt img 1)

theorem node_finished (i : ℕ) : ((img.finished h).disk h).node i
    = if i = 1 then rounded h ((img.disk h).node 1) else (img.disk h).node i := by
  rw [disk_finished]
  exact Function.update_apply _ _ _ _

/-- No file gets a block by it. -/
theorem ptr_finished :
    ((img.finished h).disk h).ptr h.geometry = (img.disk h).ptr h.geometry := by
  refine ptr_congr (fun i => ?_) fun i _ => ?_
  · rw [node_finished]
    split
    case isTrue hi =>
      rw [hi]
      rfl
    case isFalse => rfl
  · rw [disk_finished]

theorem data_finished :
    ((img.finished h).disk h).data h.geometry = (img.disk h).data h.geometry := by
  unfold Fs.data Fs.dataPtr
  rw [ptr_finished, disk_finished]

/-- The super block stays. -/
theorem finished_sector_one : (img.finished h).sector 1 = img.sector 1 := by
  have hne : 1 ≠ h.bmapstart := by
    unfold Constants.bmapstart
    omega
  rw [Image.finished, store_sector_of_ne hne, putInode_sector_one (by decide)]

/-- The kernel's free map is the counter of `mkfs`. -/
theorem mount_used (hsuper : Stands (img.sector 1) 0 (superblock h)) (held : ℕ) {b : ℕ}
    (hb : b < h.bsize * 8) :
    ((img.finished h).mount h held).used b = decide (b < img.freeblock) := by
  have hplace : (BitVec.ofNat 32 h.bmapstart).toNat = h.bmapstart := by
    have hlt := (bmapstart_lt_nmeta h).trans h.meta_lt
    rw [BitVec.toNat_ofNat]
    unfold fssize at hlt
    omega
  unfold Image.mount
  dsimp only
  rw [finished_sector_one, (read_superblock hsuper).2.2, hplace, Nat.div_eq_of_lt hb,
    Nat.mod_eq_of_lt hb, Nat.zero_add, Image.finished, store_sector_self]
  exact getLsbD_bitmap _ _

section

variable {files : List (List Byte)} (hh : Holds h img files)

include hh

/-- **The kernel finds a sound disk**: no block belongs to two files, and none of them is
free. -/
theorem Holds.sound_mount (hmap : fssize < h.bsize * 8) (held : ℕ) :
    ((img.finished h).mount h held).Sound h.geometry := by
  have hroom := hh.tidy.room
  have hptr : ((img.finished h).mount h held).ptr h.geometry = (img.disk h).ptr h.geometry := by
    rw [← ptr_finished]
    refine mount_ptr ?_ ?_ held
    · rw [finished_sector_one]
      exact hh.super
    · rw [ptr_finished]
      exact hh.high
  refine ⟨⟨?_, ?_⟩, ?_⟩
  · rw [hptr]
    exact hh.inv.sound.owns.inj
  · rw [hptr]
    intro l hl
    have hlt : (img.disk h).ptr h.geometry l < img.freeblock :=
      of_decide_eq_true (hh.inv.sound.owns.used hl)
    rw [mount_used hh.super held (by omega)]
    exact decide_eq_true hlt
  · have hlow := hh.tidy.low
    rw [mount_used hh.super held (by omega)]
    exact hh.inv.sound.boot

theorem Holds.stores_finished {k : ℕ} {f : List Byte} (hk : files[k + 1]? = some f) :
    (img.finished h).Stores h (k + 2) f := by
  have st := hh.stores hk
  have hnode : ((img.finished h).disk h).node (k + 2) = (img.disk h).node (k + 2) := by
    rw [node_finished, if_neg (by omega)]
  refine ⟨?_, ?_, ?_, ?_, ?_⟩
  · rw [finished_sector_one]
    exact st.super
  · rw [ptr_finished]
    exact st.high
  · rw [hnode]
    exact st.type
  · unfold Fs.Below Fs.dataPtr
    rw [ptr_finished]
    exact st.below
  · rw [Fs.bytes, data_finished, hnode]
    exact st.bytes

end

/-- **A run of `mkfs`.**  The kernel finds a sound disk, and reads every file of the command
line from it. -/
theorem main_run {π : Type} (out : Outside π) (rs : List Readable) (img : Image)
    (hmap : fssize < h.bsize * 8) (hfit : Fits h (imageFiles rs))
    (hmax : ∀ f ∈ imageFiles rs, f.length ≤ h.maxfile * h.bsize)
    (hreach : ∀ f ∈ imageFiles rs, Reaches h f.length) :
    ∃ img', (main h (rs.map Readable.arg)).run img = .ok () img' ∧
      (∀ held, (img'.mount h held).Sound h.geometry) ∧
      ∀ (k : ℕ) r, rs[k]? = some r → ReadsBack h out img' (k + 2) r.contents := by
  obtain ⟨img₁, hbuild, hh⟩ := build_run img (filesOf_script rs) hfit hmax hreach
  refine ⟨img₁.finished h, ?_, hh.sound_mount hmap, ?_⟩
  · rw [main_eq, run_bind_of_ok hbuild]
    exact finish_run hh.tidy hmap
  · intro k r hr
    have hk : (imageFiles rs)[k + 1]? = some r.contents := by
      rw [imageFiles, List.getElem?_cons_succ, List.getElem?_map, hr]
      rfl
    exact (hh.stores_finished hk).readsBack out

/-- **A run of `mkfs` that stops**, on a file that outgrows its direct blocks. -/
theorem main_stops (hover : Overshoots h) (rs : List Readable) (img : Image)
    (hfit : Fits h (imageFiles rs))
    (hlong : ∃ f ∈ imageFiles rs, h.ndirect * h.bsize < f.length) :
    ∃ img', (main h (rs.map Readable.arg)).run img = .error .outOfBounds img' := by
  obtain ⟨img', hstop⟩ := build_stops hover img (filesOf_script rs) hfit hlong
  refine ⟨img', ?_⟩
  rw [main_eq]
  exact run_bind_of_error hstop

/-- **`mkfs` of the second recorder.**  For files of at most `MAXFILE` blocks that fit the disk,
`main` returns exactly if all of them, and the root directory, end within their direct blocks.
The kernel then finds a sound disk, and reads every file of the command line from it. -/
theorem main_returns_iff {π : Type} (out : Outside π) (rs : List Readable) (img : Image)
    (hfit : Fits header2 (imageFiles rs))
    (hmax : ∀ f ∈ imageFiles rs, f.length ≤ header2.maxfile * header2.bsize) :
    ((∃ img', (main header2 (rs.map Readable.arg)).run img = .ok () img') ↔
      ∀ f ∈ imageFiles rs, f.length ≤ header2.ndirect * header2.bsize) ∧
    ∀ img', (main header2 (rs.map Readable.arg)).run img = .ok () img' →
      (∀ held, (img'.mount header2 held).Sound header2.geometry) ∧
      ∀ (k : ℕ) r, rs[k]? = some r → ReadsBack header2 out img' (k + 2) r.contents := by
  have hdirect : ∀ img', (main header2 (rs.map Readable.arg)).run img = .ok () img' →
      ∀ f ∈ imageFiles rs, f.length ≤ header2.ndirect * header2.bsize := by
    intro img' hrun f hf
    by_contra hlong
    obtain ⟨_, hstop⟩ := main_stops header2_overshoots rs img hfit ⟨f, hf, Nat.not_le.mp hlong⟩
    rw [hrun] at hstop
    cases hstop
  have hreturns : (∀ f ∈ imageFiles rs, f.length ≤ header2.ndirect * header2.bsize) →
      ∃ img', (main header2 (rs.map Readable.arg)).run img = .ok () img' ∧
        (∀ held, (img'.mount header2 held).Sound header2.geometry) ∧
        ∀ (k : ℕ) r, rs[k]? = some r → ReadsBack header2 out img' (k + 2) r.contents :=
    fun hall => main_run out rs img (by decide) hfit hmax fun f hf => .inl (hall f hf)
  refine ⟨⟨fun ⟨img', hrun⟩ => hdirect img' hrun, fun hall => ?_⟩, fun img' hrun => ?_⟩
  · obtain ⟨img', hrun, -⟩ := hreturns hall
    exact ⟨img', hrun⟩
  · obtain ⟨img₁, hrun₁, himage⟩ := hreturns (hdirect img' hrun)
    rw [hrun] at hrun₁
    cases hrun₁
    exact himage

/-- The command line `mkfs fs.img a _b`: one file is read in two pieces, the other is empty. -/
theorem main_returns_iff_two_files : ∃ img',
    (main header2 [⟨[0x61], some [[1, 2], [3]]⟩, ⟨[0x5f, 0x62], some []⟩]).run noImage = .ok () img' ∧
      ReadsBack header2 bareOutside img' 2 [1, 2, 3] ∧ ReadsBack header2 bareOutside img' 3 [] := by
  let rs : List Readable := [⟨[0x61], by decide, [[1, 2], [3]]⟩, ⟨[0x5f, 0x62], by decide, []⟩]
  have hmain := main_returns_iff bareOutside rs noImage ⟨by decide, by decide⟩ (by decide)
  obtain ⟨img', hrun⟩ := hmain.1.mpr (by decide)
  obtain ⟨-, hreads⟩ := hmain.2 img' hrun
  exact ⟨img', hrun, hreads 0 _ rfl, hreads 1 _ rfl⟩

end Xv6.Mkfs
