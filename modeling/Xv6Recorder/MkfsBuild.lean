/-
# What an image contains

`Holds` says what an image contains: the bytes of each file, in inodes and blocks that satisfy
the invariant of the kernel's file system.  `format` establishes it, and `ialloc` and `iappend`
keep it: an inode goes back to its own place among the others, and an append is a `writei` at
the end of the file.
-/
import Xv6Recorder.MkfsFiles

open Bytes BlockFile StateError

namespace Xv6.Mkfs

variable {h : Header} {img img' : Image} {inum : ℕ} {din : Dinode}

/-! ## Reading and writing an inode -/

/-- The image with another inode `inum`. -/
def Image.putInode (h : Header) (img : Image) (inum : ℕ) (d : Dinode) : Image :=
  img.store (iblock h inum)
    (overlay (img.sector (iblock h inum)) (ioff h inum) (dinodeBytes h d))

/-- The inode blocks lie on the disk. -/
theorem iblock_lt_fssize (hinum : inum < ninodes) : iblock h inum < fssize :=
  (iblock_lt_nmeta hinum).trans h.meta_lt

theorem rinode_run (hlen : img.length = fssize) (hinum : inum < ninodes) :
    (rinode h inum).run img = .ok (dinodeAt h img inum) img := by
  rw [rinode, run_bind_of_ok (rsect_run hlen (iblock_lt_fssize hinum)), dinodeAt, if_pos hinum]
  rfl

/-- `winode` replaces one inode, and the others in its block stay. -/
theorem winode_run (hlen : img.length = fssize) (hinum : inum < ninodes) (d : Dinode) :
    (winode h inum d).run img = .ok () (img.putInode h inum d) := by
  rw [winode, run_bind_of_ok (rsect_run hlen (iblock_lt_fssize hinum))]
  exact wsect_run hlen (iblock_lt_fssize hinum) _

/-- **An inode that is written is read back**, and no other changes. -/
theorem dinodeAt_putInode (hinum : inum < ninodes) {d : Dinode} (htrim : Trimmed h d) :
    dinodeAt h (img.putInode h inum d) = Function.update (dinodeAt h img) inum d := by
  funext i
  unfold dinodeAt Image.putInode
  by_cases heq : i = inum
  · subst heq
    rw [if_pos hinum, Function.update_self, store_sector_self]
    exact loadDinode_of_stands htrim (stands_overlay _ _ _)
  · rw [Function.update_of_ne heq]
    by_cases hi : i < ninodes
    · rw [if_pos hi, if_pos hi]
      by_cases hblock : iblock h i = iblock h inum
      · rw [hblock, store_sector_self]
        apply loadDinode_overlay
        rw [length_dinodeBytes]
        exact ioff_disjoint heq hblock
      · rw [store_sector_of_ne hblock]
    · rw [if_neg hi, if_neg hi]

/-- The kernel sees that one inode change. -/
theorem disk_putInode (hinum : inum < ninodes) {d : Dinode} (htrim : Trimmed h d) :
    (img.putInode h inum d).disk h =
      { img.disk h with
        dinode := Function.update (dinodeAt h img) inum d
        cached := Function.update (dinodeAt h img) inum d } := by
  have hblock : dataBlock h (img.putInode h inum d) = dataBlock h img :=
    dataBlock_store_low (iblock_lt_nmeta hinum) _
  unfold Image.disk
  rw [dinodeAt_putInode hinum htrim, hblock]
  rfl

/-- The blocks that are still free are all zero. -/
theorem Image.Tidy.putInode (t : img.Tidy h) (hinum : inum < ninodes) (d : Dinode) :
    (img.putInode h inum d).Tidy h :=
  t.store ((iblock_lt_nmeta hinum).trans_le t.low) _

/-- The super block is no inode block. -/
theorem putInode_sector_one (hinum : inum < ninodes) (d : Dinode) :
    (img.putInode h inum d).sector 1 = img.sector 1 := by
  unfold Image.putInode
  exact store_sector_of_ne (Nat.ne_of_lt (iblock_mem hinum).1) _

/-- Writing the cached inode back, with its new size, is what the kernel's `iupdate` does. -/
theorem sameNodes_putInode (hinum : inum < ninodes) {size : Word}
    (htrim : Trimmed h { din with size := size }) :
    ((img.view h inum din).resize inum size).SameNodes
      ((img.putInode h inum { din with size := size }).disk h) := by
  intro i
  have hnode : ((img.putInode h inum { din with size := size }).disk h).node i
      = ((img.view h inum din).resize inum size).node i := by
    rw [node_resize view_valid, disk_putInode hinum htrim]
    show Function.update (dinodeAt h img) inum _ i = _
    rw [Function.update_apply]
    split
    case isTrue hi =>
      subst hi
      rw [node_of_valid view_valid, view_cached]
    case isFalse hi =>
      rw [Fs.node, view_invalid hi]
      rfl
  rw [hnode]
  exact .refl _

/-! ## What an image contains -/

/-- The blocks of several files. -/
def cost (h : Header) (files : List (List Byte)) : ℕ :=
  (files.map fun f => blocksFor h.geometry f.length).sum

/-- The image contains the files, the first one in inode 1. -/
structure Holds (h : Header) (img : Image) (files : List (List Byte)) : Prop where
  tidy : img.Tidy h
  super : Stands (img.sector 1) 0 (superblock h)
  freeinode : img.freeinode = files.length + 1
  few : files.length < ninodes
  inv : (img.disk h).Inv h.geometry
  high : ∀ l, (img.disk h).ptr h.geometry l ≠ 0 → h.nmeta ≤ (img.disk h).ptr h.geometry l
  bytes : ∀ k f, files[k]? = some f → (img.disk h).bytes h.geometry (k + 1) = f
  type : ∀ k < files.length,
    ((img.disk h).node (k + 1)).type ≠ 0 ∧ ((img.disk h).node (k + 1)).type ≠ tDev
  free : img.freeblock ≤ h.nmeta + cost h files

theorem cost_cons (f : List Byte) (files : List (List Byte)) :
    cost h (f :: files) = blocksFor h.geometry f.length + cost h files := rfl

/-- The blocks of one file are exchanged for those of another. -/
theorem cost_set {files : List (List Byte)} {k : ℕ} {f : List Byte} (hk : files[k]? = some f)
    (f' : List Byte) :
    cost h (files.set k f') + blocksFor h.geometry f.length
      = cost h files + blocksFor h.geometry f'.length := by
  induction files generalizing k with
  | nil => cases hk
  | cons f₀ files ih =>
    cases k with
    | zero =>
      cases hk
      rw [List.set_cons_zero, cost_cons, cost_cons]
      omega
    | succ k =>
      have := ih hk
      rw [List.set_cons_succ, cost_cons, cost_cons]
      omega

/-! ## A new image -/

/-- The first loop of `main`, by induction on the blocks that are zeroed. -/
theorem zero_run (n : ℕ) (hn : n ≤ fssize) (free : ℕ) :
    ((List.range n).forM fun i => wsect i zeroes).run ⟨fun _ => zeroes, 0, 1, free⟩
      = .ok () ⟨fun _ => zeroes, n, 1, free⟩ := by
  induction n with
  | zero => rfl
  | succ n ih =>
    have hsame : Function.update (fun _ : ℕ => zeroes) n zeroes = fun _ => zeroes :=
      Function.update_eq_self_iff.mpr rfl
    simp only [List.forM_eq_forM] at ih ⊢
    rw [List.range_succ, List.forM_append, run_bind_of_ok (ih (by omega)), List.forM_cons, wsect,
      if_neg (by omega)]
    show EStateM.Result.ok ()
      (⟨Function.update (fun _ => zeroes) n zeroes, max n (n + 1), 1, free⟩ : Image) = _
    rw [hsame, max_eq_right (Nat.le_succ n)]

/-- The image `format` leaves. -/
def formatted (h : Header) : Image :=
  (⟨fun _ => zeroes, fssize, 1, h.nmeta⟩ : Image).store 1 (overlay zeroes 0 (superblock h))

/-- **The head of `main`** never stops. -/
theorem format_run (h : Header) (img : Image) : (format h).run img = .ok () (formatted h) := by
  rw [format, run_bind_of_ok (EStateM.run_set _ img),
    run_bind_of_ok (zero_run fssize le_rfl h.nmeta), wsect_run rfl (by decide)]
  rfl

/-- A formatted image has no file. -/
theorem dinodeAt_formatted (h : Header) (i : ℕ) :
    (dinodeAt h (formatted h) i).size = 0 ∧ (dinodeAt h (formatted h) i).addrs = fun _ => 0 := by
  unfold dinodeAt
  split
  case isTrue hi =>
    have hzero : (formatted h).sector (iblock h i) = zeroes :=
      store_sector_of_ne (Nat.ne_of_gt (iblock_mem hi).1) _
    rw [hzero]
    refine ⟨rfl, ?_⟩
    funext j
    simp only [loadDinode]
    split <;> rfl
  case isFalse => exact ⟨rfl, rfl⟩

/-- An inode without addresses has no blocks. -/
theorem ptrOf_zero (g : Geometry) (block : ℕ → Memory) (l : Loc) :
    ptrOf g (fun _ => 0) block l = 0 := by
  cases l with
  | direct i => exact ite_self 0
  | indirect => rfl
  | entry j =>
    rw [ptrOf]
    exact if_pos (Or.inl rfl)

theorem one_lt_nmeta (h : Header) : 1 < h.nmeta := by
  unfold Constants.nmeta
  omega

/-- It leaves a disk without files. -/
theorem holds_formatted (h : Header) : Holds h (formatted h) [] := by
  -- no inode has a block, so all statements about blocks are empty
  have hptr : ∀ l, ((formatted h).disk h).ptr h.geometry l = 0 := by
    intro l
    show ptrOf h.geometry (dinodeAt h (formatted h) l.1).addrs _ l.2 = 0
    rw [(dinodeAt_formatted h l.1).2]
    exact ptrOf_zero _ _ _
  refine ⟨⟨rfl, le_rfl, h.meta_lt.le, ?_⟩, ?_, rfl, by decide, ⟨⟨⟨?_, ?_⟩, ?_⟩, ?_, ?_⟩, ?_, ?_,
    ?_, Nat.le_add_right _ _⟩
  · intro b hb
    exact store_sector_of_ne (Nat.ne_of_gt ((one_lt_nmeta h).trans_le hb)) _
  · rw [formatted, store_sector_self]
    exact stands_overlay _ _ _
  · exact fun hl => absurd (hptr _) hl
  · exact fun hl => absurd (hptr _) hl
  · exact decide_eq_true (Nat.zero_lt_of_lt (one_lt_nmeta h))
  · intro ip bn hbn
    have hsize : (((formatted h).disk h).node ip).size.toNat = 0 := by
      show (dinodeAt h (formatted h) ip).size.toNat = 0
      rw [(dinodeAt_formatted h ip).1]
      rfl
    omega
  · intro ip hip
    cases hip
  · exact fun l hl => absurd (hptr l) hl
  · intro k f hk
    cases hk
  · intro k hk
    cases hk

/-! ## `ialloc` -/

/-- The kinds of inode `mkfs` makes. -/
inductive InodeType where
  | dir
  | file
deriving DecidableEq

/-- The type code that is stored. -/
def InodeType.code : InodeType → Short
  | .dir => tDir
  | .file => tFile

theorem InodeType.code_ne (t : InodeType) : t.code ≠ 0 ∧ t.code ≠ tDev := by
  cases t <;> decide

/-- The image with one more inode, an empty one. -/
def Image.addInode (h : Header) (img : Image) (type : Short) : Image :=
  Image.putInode h { img with freeinode := img.freeinode + 1 } img.freeinode (emptyDinode type)

section

variable {type : Short} (hfree : img.freeinode < ninodes)

include hfree

/-- `ialloc` takes the next inode. -/
theorem ialloc_eq_ok (hlen : img.length = fssize) :
    (ialloc h type).run img = .ok img.freeinode (img.addInode h type) := by
  set next : Image := { img with freeinode := img.freeinode + 1 }
  have hnext : next.length = fssize := hlen
  have hwrite : (winode h img.freeinode (emptyDinode type)).run next
      = .ok () (img.addInode h type) := winode_run hnext hfree _
  rw [ialloc, run_bind_of_ok (EStateM.run_get img), run_bind_of_ok (EStateM.run_set next img),
    run_bind_of_ok hwrite]
  rfl

theorem disk_addInode : (img.addInode h type).disk h =
    { img.disk h with
      dinode := Function.update (dinodeAt h img) img.freeinode (emptyDinode type)
      cached := Function.update (dinodeAt h img) img.freeinode (emptyDinode type) } :=
  disk_putInode hfree fun _ _ => rfl

theorem node_addInode (i : ℕ) : ((img.addInode h type).disk h).node i
    = if i = img.freeinode then emptyDinode type else (img.disk h).node i := by
  rw [disk_addInode hfree]
  exact Function.update_apply _ _ _ _

theorem block_addInode : ((img.addInode h type).disk h).block = (img.disk h).block := by
  rw [disk_addInode hfree]

theorem used_addInode : ((img.addInode h type).disk h).used = (img.disk h).used := by
  rw [disk_addInode hfree]

/-- The new inode has no blocks. -/
theorem ptr_addInode_new {l : ℕ × Loc} (hl : l.1 = img.freeinode) :
    ((img.addInode h type).disk h).ptr h.geometry l = 0 := by
  rw [Fs.ptr, node_addInode hfree, if_pos hl]
  exact ptrOf_zero _ _ _

/-- The other inodes have their blocks. -/
theorem ptr_addInode_of_ne {l : ℕ × Loc} (hl : l.1 ≠ img.freeinode) :
    ((img.addInode h type).disk h).ptr h.geometry l = (img.disk h).ptr h.geometry l := by
  rw [Fs.ptr, Fs.ptr, node_addInode hfree, if_neg hl, block_addInode hfree]

/-- Every block of an inode was one before. -/
theorem ptr_addInode {l : ℕ × Loc} (hl : ((img.addInode h type).disk h).ptr h.geometry l ≠ 0) :
    ((img.addInode h type).disk h).ptr h.geometry l = (img.disk h).ptr h.geometry l := by
  apply ptr_addInode_of_ne hfree
  exact fun heq => hl (ptr_addInode_new hfree heq)

/-- **A new inode keeps the disk sound**: it has no blocks. -/
theorem inv_addInode (hinv : (img.disk h).Inv h.geometry) :
    ((img.addInode h type).disk h).Inv h.geometry := by
  refine ⟨⟨⟨?_, ?_⟩, ?_⟩, ?_, ?_⟩
  -- two locations with one block are locations of older inodes
  · intro l l' hl heq
    have hl' : ((img.addInode h type).disk h).ptr h.geometry l' ≠ 0 := by
      rw [← heq]
      exact hl
    rw [ptr_addInode hfree hl, ptr_addInode hfree hl'] at heq
    rw [ptr_addInode hfree hl] at hl
    exact hinv.sound.owns.inj hl heq
  · intro l hl
    have hold := ptr_addInode hfree hl
    rw [hold] at hl ⊢
    rw [used_addInode hfree]
    exact hinv.sound.owns.used hl
  · rw [used_addInode hfree]
    exact hinv.sound.boot
  · intro ip bn hbn
    rw [node_addInode hfree] at hbn
    by_cases hip : ip = img.freeinode
    · rw [if_pos hip] at hbn
      exact absurd hbn (Nat.not_lt_zero _)
    · rw [if_neg hip] at hbn
      rw [Fs.dataPtr, ptr_addInode_of_ne hfree hip]
      exact hinv.below ip bn hbn
  · intro ip hip
    rw [disk_addInode hfree] at hip
    cases hip

/-- The new file is empty, and the others are as they were. -/
theorem bytes_addInode_new :
    ((img.addInode h type).disk h).bytes h.geometry img.freeinode = [] := by
  rw [← List.length_eq_zero_iff, length_bytes, node_addInode hfree, if_pos rfl]
  rfl

theorem bytes_addInode_of_ne {i : ℕ} (hi : i ≠ img.freeinode) :
    ((img.addInode h type).disk h).bytes h.geometry i = (img.disk h).bytes h.geometry i := by
  have hptr : ∀ bn, ((img.addInode h type).disk h).dataPtr h.geometry i bn
      = (img.disk h).dataPtr h.geometry i bn := by
    intro bn
    exact ptr_addInode_of_ne hfree hi
  simp only [Fs.bytes, Fs.data, hptr, block_addInode hfree, node_addInode hfree, if_neg hi]

end

/-- **`ialloc`** adds an empty file. -/
theorem ialloc_run {files : List (List Byte)} (hh : Holds h img files)
    (hfew : files.length + 1 < ninodes) (t : InodeType) :
    ∃ img', (ialloc h t.code).run img = .ok (files.length + 1) img' ∧
      Holds h img' (files ++ [[]]) := by
  have hinum := hh.freeinode
  have hfree : img.freeinode < ninodes := hinum ▸ hfew
  have htidy : Image.Tidy h { img with freeinode := img.freeinode + 1 } :=
    ⟨hh.tidy.length, hh.tidy.low, hh.tidy.room, hh.tidy.blank⟩
  have hlength : (files ++ [[]]).length = files.length + 1 := List.length_append
  refine ⟨img.addInode h t.code, ?_, htidy.putInode hfree _, ?_, ?_, ?_, inv_addInode hfree hh.inv,
    ?_, ?_, ?_, ?_⟩
  · rw [← hinum]
    exact ialloc_eq_ok hfree hh.tidy.length
  · rw [Image.addInode, putInode_sector_one hfree]
    exact hh.super
  · rw [hlength, ← hinum]
    rfl
  · rwa [hlength]
  · intro l hl
    have hold := ptr_addInode hfree hl
    rw [hold] at hl ⊢
    exact hh.high l hl
  · intro k f hk
    -- an older file, or the new one
    rcases Nat.lt_or_ge k files.length with hlt | hge
    · rw [List.getElem?_append_left hlt] at hk
      rw [bytes_addInode_of_ne hfree (by omega)]
      exact hh.bytes k f hk
    · have hlt := (List.getElem?_eq_some_iff.mp hk).1
      have hlast : k = files.length := by omega
      subst hlast
      rw [List.getElem?_concat_length] at hk
      rw [← hinum, bytes_addInode_new hfree]
      exact Option.some.inj hk
  · intro k hk
    rw [node_addInode hfree]
    split
    case isTrue => exact t.code_ne
    case isFalse hne => exact hh.type k (by omega)
  · have hcost : cost h files ≤ cost h (files ++ [[]]) := by
      unfold cost
      rw [List.map_append, List.sum_append]
      exact Nat.le_add_right _ _
    exact hh.free.trans (Nat.add_le_add_left hcost _)

/-! ## `iappend` -/

section

variable {files : List (List Byte)} (hh : Holds h img files) {k : ℕ} {f : List Byte}
  (hk : files[k]? = some f)

include hh hk

/-- A file that is on the disk has an inode. -/
theorem Holds.inum_lt : k + 1 < ninodes := by
  have hlt := (List.getElem?_eq_some_iff.mp hk).1
  have := hh.few
  omega

/-- The size in the inode is that of the file. -/
theorem Holds.size_eq : (dinodeAt h img (k + 1)).size.toNat = f.length := by
  rw [← hh.bytes k f hk, length_bytes]
  rfl

omit hk in
/-- An image with an inode in the cache is the image without it. -/
theorem Holds.view_inv (i : ℕ) :
    (img.disk h).SameNodes (img.view h i (dinodeAt h img i)) ∧
      (img.view h i (dinodeAt h img i)).Inv h.geometry := by
  have hnode : ∀ j, (img.view h i (dinodeAt h img i)).node j = (img.disk h).node j := by
    intro j
    by_cases hj : j = i
    · subst hj
      rw [node_of_valid view_valid, view_cached]
      rfl
    · rw [Fs.node, view_invalid hj]
      rfl
  have hsame : (img.disk h).SameNodes (img.view h i (dinodeAt h img i)) := by
    intro j
    rw [hnode]
    exact .refl _
  refine ⟨hsame, hsame.inv rfl hh.inv rfl ?_⟩
  intro j hj
  have hji : j = i := by
    by_contra hne
    rw [view_invalid hne] at hj
    cases hj
  subst hji
  rw [view_cached]
  exact .refl _

/-- Every file can be appended to. -/
theorem Holds.appending :
    Appending h img (k + 1) (dinodeAt h img (k + 1)) ∧
      (img.view h (k + 1) (dinodeAt h img (k + 1))).Below h.geometry (k + 1) f.length := by
  obtain ⟨hsame, hinv⟩ := hh.view_inv (k + 1)
  refine ⟨⟨hh.tidy, hinv.sound, ?_, trimmed_dinodeAt img _⟩, ?_⟩
  · rw [hsame.ptr rfl]
    exact hh.high
  · have hbelow := hinv.below (k + 1)
    rwa [node_of_valid view_valid, view_cached, hh.size_eq hk] at hbelow

/-- **The inode goes back to its place**: what the kernel would hold of the file in its cache is then
on the disk. -/
theorem Holds.putInode {img₁ : Image} {din' : Dinode} {size : Word} {f' : List Byte}
    (w₁ : Appending h img₁ (k + 1) din') (hmeta : SameMeta h img img₁)
    (hdone : Wrote.Done h.geometry (k + 1) f' (img.view h (k + 1) (dinodeAt h img (k + 1)))
      ((img₁.view h (k + 1) din').resize (k + 1) size))
    (hfree : img₁.freeblock + blocksFor h.geometry f.length
      ≤ img.freeblock + blocksFor h.geometry f'.length) :
    Holds h (img₁.putInode h (k + 1) { din' with size := size }) (files.set k f') := by
  have hlt := (List.getElem?_eq_some_iff.mp hk).1
  have hinum := hh.inum_lt hk
  obtain ⟨hsame₀, -⟩ := hh.view_inv (k + 1)
  have hbytes₀ := hsame₀.bytes (g := h.geometry) rfl
  have htrim : Trimmed h { din' with size := size } := w₁.trimmed
  set img₂ := img₁.putInode h (k + 1) { din' with size := size } with himg₂
  set s₁ := img₁.view h (k + 1) din' with hs₁
  have hblock₂ : (img₂.disk h).block = (s₁.resize (k + 1) size).block := by
    rw [disk_putInode hinum htrim]
    rfl
  have hsame₂ : (s₁.resize (k + 1) size).SameNodes (img₂.disk h) :=
    sameNodes_putInode hinum htrim
  have hbytes₂ := hsame₂.bytes (g := h.geometry) hblock₂
  refine ⟨w₁.tidy.putInode hinum _, ?_, ?_, ?_, ?_, ?_, ?_, ?_, ?_⟩
  · rw [himg₂, putInode_sector_one hinum, hmeta.sector 1 (one_lt_nmeta h)]
    exact hh.super
  · rw [List.length_set, ← hh.freeinode]
    exact hmeta.freeinode
  · rw [List.length_set]
    exact hh.few
  · refine hsame₂.inv hblock₂ hdone.inv ?_ ?_
    · rw [disk_putInode hinum htrim]
      rfl
    · intro i hi
      rw [disk_putInode hinum htrim] at hi
      cases hi
  · have hptr : (img₂.disk h).ptr h.geometry = s₁.ptr h.geometry :=
      (hsame₂.ptr hblock₂).trans (ptr_resize view_valid size)
    rw [hptr]
    exact w₁.high
  · intro j g hj
    rw [hbytes₂]
    by_cases hjk : j = k
    · subst hjk
      rw [List.getElem?_set_self hlt] at hj
      rw [hdone.bytes]
      exact Option.some.inj hj
    · rw [List.getElem?_set_ne (Ne.symm hjk)] at hj
      rw [hdone.others (j + 1) (by omega), hbytes₀]
      exact hh.bytes j g hj
  · intro j hj
    rw [List.length_set] at hj
    rw [(hsame₂ (j + 1)).type, hdone.type, (hsame₀ (j + 1)).type]
    exact hh.type j hj
  · have hset := cost_set (h := h) hk f'
    have := hh.free
    show img₁.freeblock ≤ _
    omega

/-- **`iappend` appends**: the file grows by the piece, and the others stay as they are. -/
theorem iappend_run {p : List Byte} (hmax : f.length + p.length ≤ h.maxfile * h.bsize)
    (hreach : Reaches h (f.length + p.length))
    (hroom : img.freeblock + blocksFor h.geometry (f.length + p.length)
      ≤ fssize + blocksFor h.geometry f.length) :
    ∃ img', (iappend h (k + 1) p).run img = .ok () img' ∧
      Holds h img' (files.set k (f ++ p)) := by
  have hinum := hh.inum_lt hk
  have hsize := hh.size_eq hk
  obtain ⟨hsame₀, hinv₀⟩ := hh.view_inv (k + 1)
  obtain ⟨w, hbelow⟩ := hh.appending hk
  set d := dinodeAt h img (k + 1) with hd
  set s₀ := img.view h (k + 1) d with hs₀
  -- the loop, as the kernel's `writeLoop` at the end of the file
  obtain ⟨din', img₁, hrun, hkernel, w₁, hmeta, hfree⟩ :=
    iappendLoop_run p.length w hbelow le_rfl hmax hreach hroom
  obtain ⟨hwrote, hbelow₁, hdata, -⟩ :=
    writeLoop_eq_ok p.length w.sound view_valid hbelow le_rfl le_rfl hkernel
  set size : Word := BitVec.ofNat 32 (d.size.toNat + p.length) with hsz
  have hsizeNat : size.toNat = f.length + p.length := by
    rw [hsz, hsize, BitVec.toNat_ofNat]
    exact Nat.mod_eq_of_lt (hmax.trans_lt h.maxfile_lt)
  have hnode₀ : (s₀.node (k + 1)).size.toNat = f.length := by
    rw [node_of_valid view_valid, view_cached, hsize]
  rw [max_eq_right (Nat.le_add_right _ _)] at hbelow₁ hdata
  have hend : (s₀.node (k + 1)).size.toNat ≤ f.length + p.length := by omega
  have hdone := hwrote.done_past hinv₀ view_valid hnode₀.ge hsizeNat hend hbelow₁ hdata
  have hbytes₀ : s₀.bytes h.geometry (k + 1) = f := by
    rw [hsame₀.bytes (g := h.geometry) rfl]
    exact hh.bytes k f hk
  rw [hbytes₀, List.take_length, List.drop_of_length_le (Nat.le_add_right _ _), List.append_nil]
    at hdone
  refine ⟨img₁.putInode h (k + 1) { din' with size := size }, ?_, ?_⟩
  · rw [iappend, run_bind_of_ok (rinode_run hh.tidy.length hinum), ← hd, hsize,
      run_bind_of_ok hrun, winode_run w₁.tidy.length hinum, ← hsize]
  · refine hh.putInode hk w₁ hmeta hdone ?_
    rw [List.length_append]
    omega

/-- **`iappend` stops** where a file outgrows its direct blocks, if the index overshoots. -/
theorem iappend_stops (hover : Overshoots h) {p : List Byte}
    (hlimit : f.length ≤ h.ndirect * h.bsize) (hend : h.ndirect * h.bsize < f.length + p.length)
    (hroom : img.freeblock + blocksFor h.geometry (f.length + p.length)
      ≤ fssize + blocksFor h.geometry f.length) :
    ∃ img', (iappend h (k + 1) p).run img = .error .outOfBounds img' := by
  have hinum := hh.inum_lt hk
  obtain ⟨w, hbelow⟩ := hh.appending hk
  obtain ⟨img', hstop⟩ := iappendLoop_stops hover p.length w hbelow le_rfl hlimit hend hroom
  refine ⟨img', ?_⟩
  rw [iappend, run_bind_of_ok (rinode_run hh.tidy.length hinum), hh.size_eq hk]
  exact run_bind_of_error hstop

end

end Xv6.Mkfs
