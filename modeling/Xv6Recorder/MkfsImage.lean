/-
# What the image builder keeps on the disk

The inodes of an image are read back as they were written, each from its own place.  Over
them stands the disk as the kernel would see it, `Image.disk`, and, while `iappend` works on
one inode, `Image.view`: the disk with that inode in the cache.

The block map is then one and the same.  `claimAddr` and `claimEntry` take the next free
block where the kernel's `addrAt` and `entryAt` take the first one their free map shows, and
since `mkfs` never frees a block the two are equal.  So `fileBlock` runs as the kernel's
`bmap` does, as long as the index it uses is the kernel's, and what is known of `bmap` holds
of `mkfs`.
-/
import Mathlib.Data.List.Range
import Xv6Recorder.FsFiles
import Xv6Recorder.Mkfs

open Bytes BlockFile StateError

namespace Xv6.Mkfs

variable {h : Header} {img img' : Image}

/-! ## Places -/

theorem bmapstart_lt_nmeta (h : Header) : h.bmapstart < h.nmeta := by
  unfold Constants.bmapstart Constants.nmeta Constants.nbitmap
  exact Nat.lt_add_of_pos_right (Nat.succ_pos _)

/-- The block of an inode lies between the log and the free map. -/
theorem iblock_mem {inum : ℕ} (hinum : inum < ninodes) :
    1 < iblock h inum ∧ iblock h inum < h.bmapstart := by
  have hdiv : inum / h.ipb ≤ ninodes / h.ipb := Nat.div_le_div_right (by omega)
  unfold iblock inodestart Constants.bmapstart Constants.ninodeblocks
  generalize inum / h.ipb = q at hdiv ⊢
  omega

theorem iblock_lt_nmeta {inum : ℕ} (hinum : inum < ninodes) : iblock h inum < h.nmeta :=
  (iblock_mem hinum).2.trans (bmapstart_lt_nmeta h)

/-- Two inodes in one block do not overlap. -/
theorem ioff_disjoint {i j : ℕ} (hne : i ≠ j) (hblock : iblock h i = iblock h j) :
    ioff h i + h.dinodeSize ≤ ioff h j ∨ ioff h j + h.dinodeSize ≤ ioff h i := by
  have hdiv : i / h.ipb = j / h.ipb := by
    unfold iblock at hblock
    omega
  have hmod : i % h.ipb ≠ j % h.ipb := by
    intro hmod
    apply hne
    rw [← Nat.div_add_mod i h.ipb, ← Nat.div_add_mod j h.ipb, hdiv, hmod]
  unfold ioff
  rcases Nat.lt_or_gt_of_ne hmod with hlt | hlt
  · left
    have := Nat.mul_le_mul_right h.dinodeSize (Nat.succ_le_of_lt hlt)
    rwa [Nat.succ_mul] at this
  · right
    have := Nat.mul_le_mul_right h.dinodeSize (Nat.succ_le_of_lt hlt)
    rwa [Nat.succ_mul] at this

/-! ## Inodes in memory -/

/-- Of `addrs` only the entries that are on the disk are used. -/
def Trimmed (h : Header) (d : Dinode) : Prop := ∀ i, h.ndirect < i → d.addrs i = 0

theorem length_dinodeBytes (d : Dinode) : (dinodeBytes h d).length = h.dinodeSize := by
  have hwords := length_flatten_ofFn (w := 4)
    (f := fun i : Fin (h.ndirect + 1) => toBytes (d.addrs i)) fun i => length_toBytes _
  simp only [dinodeBytes, List.length_append, length_toBytes, hwords, Constants.dinodeSize]
  omega

variable {b : ℕ} {off : ℕ}

/-- **An inode is read back** where its bytes stand. -/
theorem loadDinode_of_stands {mem : Memory} {d : Dinode} (htrim : Trimmed h d)
    (hd : Stands mem off (dinodeBytes h d)) : loadDinode h mem off = d := by
  simp only [dinodeBytes, stands_append, length_toBytes] at hd
  obtain ⟨htype, hmajor, hminor, hnlink, hsize, haddrs⟩ := hd
  obtain ⟨type, major, minor, nlink, size, addrs⟩ := d
  simp only [loadDinode, Dinode.mk.injEq]
  refine ⟨htype.field (by decide), hmajor.field (by decide), hminor.field (by decide),
    hnlink.field (by decide), hsize.field (by decide), ?_⟩
  funext i
  split
  case isTrue hi =>
    have hword := haddrs.array (w := 4) (fun j => length_toBytes _) ⟨i, Nat.lt_succ_of_le hi⟩
    exact hword.field (by decide)
  case isFalse hi => exact (htrim i (by omega)).symm

/-- A store outside an inode leaves it. -/
theorem loadDinode_overlay {mem : Memory} {off pos : ℕ} {l : List Byte}
    (hout : off + h.dinodeSize ≤ pos ∨ pos + l.length ≤ off) :
    loadDinode h (overlay mem pos l) off = loadDinode h mem off := by
  unfold Constants.dinodeSize at hout
  simp only [loadDinode, Dinode.mk.injEq]
  refine ⟨?_, ?_, ?_, ?_, ?_, ?_⟩
  case refine_6 =>
    funext i
    split
    case isTrue hi => exact field_overlay_disjoint _ _ _ _ _ (by omega)
    case isFalse => rfl
  all_goals exact field_overlay_disjoint _ _ _ _ _ (by omega)

theorem trimmed_loadDinode (mem : Memory) (off : ℕ) : Trimmed h (loadDinode h mem off) :=
  fun _ hi => if_neg (by omega)

/-! ## The disk -/

/-- Inode `i` of the image. -/
def dinodeAt (h : Header) (img : Image) (i : ℕ) : Dinode :=
  if i < ninodes then loadDinode h (img.sector (iblock h i)) (ioff h i) else emptyDinode 0

/-- The data blocks of the image; the meta blocks are seen through the inodes and the free
map. -/
def dataBlock (h : Header) (img : Image) (b : ℕ) : Memory :=
  if b < h.nmeta then zeroes else img.sector b

/-- The image as a file system: the blocks below `freeblock` are taken. -/
def Image.disk (h : Header) (img : Image) : Fs where
  sbSize := BitVec.ofNat 32 fssize
  ninodes := BitVec.ofNat 32 ninodes
  used b := decide (b < img.freeblock)
  block := dataBlock h img
  dinode := dinodeAt h img
  cached := dinodeAt h img
  valid _ := false
  ref _ := 0

/-- The image while `iappend` works on inode `inum`. -/
def Image.view (h : Header) (img : Image) (inum : ℕ) (din : Dinode) : Fs :=
  { img.disk h with
    cached := Function.update (dinodeAt h img) inum din
    valid := Function.update (fun _ => false) inum true }

/-- The sector `sec` is written. -/
def Image.store (img : Image) (sec : ℕ) (buf : Memory) : Image :=
  { img with sector := Function.update img.sector sec buf }

theorem store_sector_self (img : Image) (sec : ℕ) (buf : Memory) :
    (img.store sec buf).sector sec = buf := by
  unfold Image.store
  exact Function.update_self _ _ _

theorem store_sector_of_ne {sec b : ℕ} (hne : b ≠ sec) (buf : Memory) :
    (img.store sec buf).sector b = img.sector b := by
  unfold Image.store
  exact Function.update_of_ne hne _ _

/-- The next block is taken. -/
def Image.take (img : Image) : Image := { img with freeblock := img.freeblock + 1 }

theorem trimmed_dinodeAt (img : Image) (i : ℕ) : Trimmed h (dinodeAt h img i) := by
  unfold dinodeAt
  split
  case isTrue => exact trimmed_loadDinode _ _
  case isFalse => exact fun _ _ => rfl

theorem dinodeAt_congr (hlow : ∀ b < h.nmeta, img'.sector b = img.sector b) :
    dinodeAt h img' = dinodeAt h img := by
  funext i
  unfold dinodeAt
  split
  case isTrue hi => rw [hlow _ (iblock_lt_nmeta hi)]
  case isFalse => rfl

theorem dataBlock_of_le (hb : h.nmeta ≤ b) : dataBlock h img b = img.sector b :=
  if_neg (Nat.not_lt.mpr hb)

theorem dataBlock_store (hb : h.nmeta ≤ b) (buf : Memory) :
    dataBlock h (img.store b buf) = Function.update (dataBlock h img) b buf := by
  funext b'
  by_cases heq : b' = b
  · subst heq
    rw [Function.update_self, dataBlock_of_le hb, store_sector_self]
  · rw [Function.update_of_ne heq]
    unfold dataBlock
    rw [store_sector_of_ne heq]

theorem dataBlock_store_low (hb : b < h.nmeta) (buf : Memory) :
    dataBlock h (img.store b buf) = dataBlock h img := by
  funext b'
  unfold dataBlock
  by_cases hlow : b' < h.nmeta
  · rw [if_pos hlow, if_pos hlow]
  · rw [store_sector_of_ne (by omega)]

variable {inum : ℕ} {din : Dinode}

theorem view_valid : (img.view h inum din).valid inum = true := by
  simp [Image.view]

theorem view_invalid {i : ℕ} (hi : i ≠ inum) : (img.view h inum din).valid i = false := by
  simp [Image.view, hi]

@[simp] theorem view_cached : (img.view h inum din).cached inum = din := by
  unfold Image.view
  exact Function.update_self _ _ _

theorem view_store (hb : h.nmeta ≤ b) (buf : Memory) :
    (img.store b buf).view h inum din
      = { img.view h inum din with block := Function.update (dataBlock h img) b buf } := by
  have hsame : dinodeAt h (img.store b buf) = dinodeAt h img :=
    dinodeAt_congr fun b' hb' => store_sector_of_ne (by omega) _
  unfold Image.view Image.disk
  rw [hsame, dataBlock_store hb]
  rfl

theorem view_setAddr (i : ℕ) (b : Word) :
    setAddr inum i b (img.view h inum din)
      = img.view h inum { din with addrs := Function.update din.addrs i b } := by
  unfold setAddr
  rw [view_cached]
  unfold Image.view
  simp only [Function.update_idem]

/-! ## Sectors -/

/-- What `mkfs` keeps of the file and its counters: every sector is there, and those that
are not taken hold zeros. -/
structure Image.Tidy (h : Header) (img : Image) : Prop where
  length : img.length = fssize
  low : h.nmeta ≤ img.freeblock
  room : img.freeblock ≤ fssize
  blank : ∀ b, img.freeblock ≤ b → img.sector b = zeroes

theorem rsect_run {sec : ℕ} (hlen : img.length = fssize) (hsec : sec < fssize) :
    (rsect sec).run img = .ok (img.sector sec) img := by
  rw [rsect, EStateM.run_bind, EStateM.run_get]
  dsimp only
  rw [if_neg (by omega)]
  rfl

theorem wsect_run {sec : ℕ} (hlen : img.length = fssize) (hsec : sec < fssize) (buf : Memory) :
    (wsect sec buf).run img = .ok () (img.store sec buf) := by
  have hmax : max img.length (sec + 1) = img.length := by omega
  rw [wsect, if_neg (by omega)]
  show EStateM.Result.ok () (⟨_, max img.length (sec + 1), _, _⟩ : Image) = _
  rw [hmax]
  rfl

theorem nextBlock_run (img : Image) :
    nextBlock.run img = .ok (BitVec.ofNat 32 img.freeblock) img.take := rfl

/-- The number of a block of the disk is a word. -/
theorem toNat_freeblock (hroom : img.freeblock ≤ fssize) :
    (BitVec.ofNat 32 img.freeblock).toNat = img.freeblock := by
  rw [BitVec.toNat_ofNat]
  unfold fssize at hroom
  omega

theorem Image.Tidy.take (t : img.Tidy h) (hroom : img.freeblock < fssize) : img.take.Tidy h where
  length := t.length
  low := t.low.trans (Nat.le_succ _)
  room := hroom
  blank b hb := t.blank b (Nat.le_of_succ_le hb)

theorem Image.Tidy.store (t : img.Tidy h) (hb : b < img.freeblock) (buf : Memory) :
    (img.store b buf).Tidy h where
  length := t.length
  low := t.low
  room := t.room
  blank b' hb' := by
    rw [← t.blank b' hb']
    exact store_sector_of_ne (Nat.ne_of_gt (hb.trans_le hb')) _

/-- The kernel finds the block `mkfs` takes next free, and all zeros. -/
theorem view_fresh (t : img.Tidy h) :
    (img.view h inum din).fresh img.freeblock = img.take.view h inum din := by
  have hused : Function.update (fun b => decide (b < img.freeblock)) img.freeblock true
      = fun b => decide (b < img.freeblock + 1) := by
    funext b
    by_cases hb : b = img.freeblock
    · subst hb
      rw [Function.update_self]
      simp
    · rw [Function.update_of_ne hb]
      congr 1
      exact propext (by omega)
  have hblock : Function.update (dataBlock h img) img.freeblock (fun _ => 0)
      = dataBlock h img := by
    rw [Function.update_eq_self_iff, dataBlock_of_le t.low]
    exact (t.blank _ le_rfl).symm
  unfold Fs.fresh Image.view Image.disk
  dsimp only
  rw [hused, hblock]
  rfl

theorem balloc_view (t : img.Tidy h) (hroom : img.freeblock < fssize) :
    Xv6.balloc.run (img.view h inum din)
      = .ok (BitVec.ofNat 32 img.freeblock) (img.take.view h inum din) := by
  have hfind : (List.range (img.view h inum din).sbSize.toNat).find?
      (fun b => !(img.view h inum din).used b) = some img.freeblock := by
    rw [List.find?_range_eq_some]
    refine ⟨?_, ?_, ?_⟩
    · simp [Image.view, Image.disk]
    · exact List.mem_range.mpr hroom
    · intro j hj
      simp [Image.view, Image.disk, hj]
  rw [Xv6.balloc, EStateM.run_bind, EStateM.run_get]
  dsimp only
  rw [hfind, ← view_fresh t]
  rfl

/-! ## One block -/

/-- What holds while `iappend` works on an inode. -/
structure Appending (h : Header) (img : Image) (inum : ℕ) (din : Dinode) : Prop where
  tidy : img.Tidy h
  sound : (img.view h inum din).Sound h.geometry
  /-- No inode points into the meta blocks. -/
  high : ∀ l, (img.view h inum din).ptr h.geometry l ≠ 0 →
    h.nmeta ≤ (img.view h inum din).ptr h.geometry l
  trimmed : Trimmed h din

/-- What the work on the blocks of an inode leaves alone. -/
structure SameMeta (h : Header) (img img' : Image) : Prop where
  freeinode : img'.freeinode = img.freeinode
  sector : ∀ b < h.nmeta, img'.sector b = img.sector b

theorem SameMeta.refl (img : Image) : SameMeta h img img := ⟨rfl, fun _ _ => rfl⟩

theorem SameMeta.trans {img'' : Image} (h₁ : SameMeta h img img') (h₂ : SameMeta h img' img'') :
    SameMeta h img img'' :=
  ⟨h₂.freeinode.trans h₁.freeinode, fun b hb => (h₂.sector b hb).trans (h₁.sector b hb)⟩

theorem sameMeta_store (hb : h.nmeta ≤ b) (buf : Memory) : SameMeta h img (img.store b buf) :=
  ⟨rfl, fun b' hb' => store_sector_of_ne (by omega) _⟩

/-- A block of the inode can be read and written. -/
theorem Appending.ptr_lt (w : Appending h img inum din) {l : ℕ × Loc}
    (hl : (img.view h inum din).ptr h.geometry l ≠ 0) :
    (img.view h inum din).ptr h.geometry l < img.freeblock :=
  of_decide_eq_true (w.sound.owns.used hl)

/-- The new pointers of a step are old ones or the block it took. -/
theorem high_update {ptr ptr' : ℕ × Loc → ℕ} {l : ℕ × Loc} (hb : h.nmeta ≤ b)
    (hptr : ptr' = Function.update ptr l b) (hhigh : ∀ l, ptr l ≠ 0 → h.nmeta ≤ ptr l) :
    ∀ l, ptr' l ≠ 0 → h.nmeta ≤ ptr' l := by
  subst hptr
  intro l' hl'
  by_cases heq : l' = l
  · subst heq
    rw [Function.update_self]
    exact hb
  · rw [Function.update_of_ne heq] at hl' ⊢
    exact hhigh l' hl'

/-- **`claimAddr` runs as the kernel's `addrAt`.** -/
theorem claimAddr_run (w : Appending h img inum din) {i : ℕ} (hi : i ≤ h.ndirect)
    (hroom : din.addrs i = 0 → img.freeblock < fssize) :
    ∃ din' img', (claimAddr din i).run img = .ok din' img' ∧
      (addrAt inum i).run (img.view h inum din)
        = .ok (din'.addrs i) (img'.view h inum din') ∧
      Appending h img' inum din' ∧ SameMeta h img img' ∧
      img'.freeblock = img.freeblock + if din.addrs i = 0 then 1 else 0 := by
  by_cases hnone : din.addrs i = 0
  · have hlt := hroom hnone
    have hnum : (BitVec.ofNat 32 img.freeblock).toNat = img.freeblock := toNat_freeblock hlt.le
    set b : Word := BitVec.ofNat 32 img.freeblock with hb
    set din' : Dinode := { din with addrs := Function.update din.addrs i b } with hdin'
    have haddr : din'.addrs i = b := Function.update_self _ _ _
    have hkernel : (addrAt inum i).run (img.view h inum din)
        = .ok b (img.take.view h inum din') := by
      rw [addrAt, EStateM.run_bind, EStateM.run_get]
      dsimp only
      rw [view_cached, if_pos hnone, run_bind_of_ok (balloc_view w.tidy hlt), hdin',
        ← view_setAddr]
      rfl
    -- what is known of the kernel's allocation holds of this one
    obtain ⟨hgrows, -, -, -⟩ := addrAt_eq_ok w.sound view_valid hi hkernel
    have hfree : (img.view h inum din).used b.toNat = false := by
      rw [hnum]
      exact decide_eq_false (lt_irrefl _)
    have hptr := ptr_setAddr_fresh w.sound view_valid hi
      (show ((img.view h inum din).cached inum).addrs i = 0 by rw [view_cached, hnone]) hfree
    rw [hnum, view_fresh w.tidy, view_setAddr] at hptr
    refine ⟨din', img.take, ?_, ?_, ⟨w.tidy.take hlt, hgrows.sound, ?_, ?_⟩,
      ⟨rfl, fun _ _ => rfl⟩, ?_⟩
    · rw [claimAddr, if_pos hnone, run_bind_of_ok (nextBlock_run img)]
      rfl
    · rw [haddr]
      exact hkernel
    · exact high_update w.tidy.low hptr w.high
    · intro k hk
      exact (Function.update_of_ne (by omega) _ _).trans (w.trimmed k hk)
    · rw [if_pos hnone]
      rfl
  · refine ⟨din, img, ?_, ?_, w, .refl img, by rw [if_neg hnone, Nat.add_zero]⟩
    · rw [claimAddr, if_neg hnone]
      rfl
    · have hthere : ((img.view h inum din).cached inum).addrs i ≠ 0 := by
        rw [view_cached]
        exact hnone
      have hkernel := addrAt_of_ne_zero hthere
      rwa [view_cached] at hkernel

/-- The indirect block of the inode is a data block in use. -/
theorem Appending.indirect_mem (w : Appending h img inum din) (hind : din.addrs h.ndirect ≠ 0) :
    h.nmeta ≤ (din.addrs h.ndirect).toNat ∧ (din.addrs h.ndirect).toNat < img.freeblock := by
  have hptr : (img.view h inum din).ptr h.geometry (inum, .indirect)
      = (din.addrs h.ndirect).toNat := by
    rw [ptr_indirect view_valid, view_cached]
    rfl
  have hne : (img.view h inum din).ptr h.geometry (inum, .indirect) ≠ 0 := by
    rw [hptr]
    exact toNat_ne_zero hind
  rw [← hptr]
  exact ⟨w.high _ hne, w.ptr_lt hne⟩

section

variable (w : Appending h img inum din) (hind : din.addrs h.ndirect ≠ 0) {j : ℕ}
  (hj : j < h.nindirect)
include w hind hj

/-- The entries of the indirect block are the pointers behind the direct ones. -/
theorem Appending.ptr_entry :
    (img.view h inum din).ptr h.geometry (inum, .entry j)
      = (field 32 (4 * j) (img.sector (din.addrs h.ndirect).toNat)).toNat := by
  have hblock : (img.view h inum din).block (din.addrs h.ndirect).toNat
      = img.sector (din.addrs h.ndirect).toNat := dataBlock_of_le (w.indirect_mem hind).1
  have hthere : ¬ (din.addrs h.geometry.ndirect = 0 ∨ h.geometry.nindirect ≤ j) :=
    not_or.mpr ⟨hind, Nat.not_le.mpr hj⟩
  rw [Fs.ptr, node_of_valid view_valid, view_cached, ptrOf, if_neg hthere, ← hblock]
  rfl

/-- An entry that is already there: neither program changes anything. -/
theorem claimEntry_run_of_ne_zero {x : Word}
    (hx : field 32 (4 * j) (img.sector (din.addrs h.ndirect).toNat) = x) (hne : x ≠ 0) :
    (claimEntry h (din.addrs h.ndirect) j).run img = .ok x img ∧
      (entryAt (din.addrs h.ndirect) j).run (img.view h inum din)
        = .ok x (img.view h inum din) := by
  subst hx
  obtain ⟨hbhigh, hblt⟩ := w.indirect_mem hind
  have hblock : (img.view h inum din).block (din.addrs h.ndirect).toNat
      = img.sector (din.addrs h.ndirect).toNat := dataBlock_of_le hbhigh
  constructor
  · rw [claimEntry, run_bind_of_ok (rsect_run w.tidy.length (hblt.trans_le w.tidy.room)),
      if_neg (Nat.not_le.mpr hj), if_neg hne]
    rfl
  · rw [← hblock] at hne ⊢
    exact entryAt_of_ne_zero (s := img.view h inum din) (b := din.addrs h.ndirect) (j := j) hne

/-- An entry that is missing: the kernel allocates first and then stores the entry, and so does
`mkfs`. -/
theorem claimEntry_run_of_zero
    (hnone : field 32 (4 * j) (img.sector (din.addrs h.ndirect).toNat) = 0)
    (hlt : img.freeblock < fssize) :
    ∃ x img', (claimEntry h (din.addrs h.ndirect) j).run img = .ok x img' ∧
      (entryAt (din.addrs h.ndirect) j).run (img.view h inum din)
        = .ok x (img'.view h inum din) ∧
      Appending h img' inum din ∧ SameMeta h img img' ∧
      img'.freeblock = img.freeblock + 1 := by
  obtain ⟨hbhigh, hblt⟩ := w.indirect_mem hind
  set b : Word := din.addrs h.ndirect with hbdef
  have hblock : (img.view h inum din).block b.toNat = img.sector b.toNat :=
    dataBlock_of_le hbhigh
  have hnum : (BitVec.ofNat 32 img.freeblock).toNat = img.freeblock := toNat_freeblock hlt.le
  set x : Word := BitVec.ofNat 32 img.freeblock with hx
  set img' := img.take.store b.toNat (putField (4 * j) x (img.sector b.toNat)) with himg'
  have hset : setEntry b j x (img.take.view h inum din) = img'.view h inum din := by
    rw [himg', view_store hbhigh, setEntry, ← hblock]
    rfl
  have hkernel : (entryAt b j).run (img.view h inum din) = .ok x (img'.view h inum din) := by
    rw [entryAt, EStateM.run_bind, EStateM.run_get]
    dsimp only
    rw [entryOf, hblock, if_pos hnone, run_bind_of_ok (balloc_view w.tidy hlt), ← hset]
    rfl
  have hcached : ((img.view h inum din).cached inum).addrs h.geometry.ndirect = b := by
    rw [view_cached]
    rfl
  have hcne : ((img.view h inum din).cached inum).addrs h.geometry.ndirect ≠ 0 := by
    rw [hcached]
    exact hind
  have hfree : (img.view h inum din).used x.toNat = false := by
    rw [hnum]
    exact decide_eq_false (lt_irrefl _)
  obtain ⟨hgrows, -, -, -⟩ := entryAt_eq_ok w.sound view_valid hcne hj
    (by rw [hcached]; exact hkernel)
  have hptr := ptr_setEntry_fresh w.sound view_valid hcne hj hfree
  rw [hcached, hnum, view_fresh w.tidy, hset] at hptr
  refine ⟨x, img', ?_, hkernel,
    ⟨(w.tidy.take hlt).store (hblt.trans (Nat.lt_succ_self _)) _, hgrows.sound, ?_, w.trimmed⟩,
    ⟨rfl, fun b' hb' => store_sector_of_ne (by omega) _⟩, rfl⟩
  · rw [claimEntry, run_bind_of_ok (rsect_run w.tidy.length (hblt.trans_le w.tidy.room)),
      if_neg (Nat.not_le.mpr hj), if_pos hnone, run_bind_of_ok (nextBlock_run img),
      run_bind_of_ok (wsect_run (w.tidy.take hlt).length (hblt.trans_le w.tidy.room) _)]
    rfl
  · exact high_update w.tidy.low hptr w.high

/-- **`claimEntry` runs as the kernel's `entryAt`.** -/
theorem claimEntry_run (hroom : (img.view h inum din).ptr h.geometry (inum, .entry j) = 0 →
      img.freeblock < fssize) :
    ∃ x img', (claimEntry h (din.addrs h.ndirect) j).run img = .ok x img' ∧
      (entryAt (din.addrs h.ndirect) j).run (img.view h inum din)
        = .ok x (img'.view h inum din) ∧
      Appending h img' inum din ∧ SameMeta h img img' ∧
      img'.freeblock = img.freeblock +
        if (img.view h inum din).ptr h.geometry (inum, .entry j) = 0 then 1 else 0 := by
  have hentry := w.ptr_entry hind hj
  by_cases hnone : field 32 (4 * j) (img.sector (din.addrs h.ndirect).toNat) = 0
  · have hzero : (img.view h inum din).ptr h.geometry (inum, .entry j) = 0 := by
      rw [hentry, hnone]
      rfl
    rw [if_pos hzero]
    exact claimEntry_run_of_zero w hind hj hnone (hroom hzero)
  · have hne : (img.view h inum din).ptr h.geometry (inum, .entry j) ≠ 0 := by
      rw [hentry]
      exact toNat_ne_zero hnone
    obtain ⟨hmkfs, hkernel⟩ := claimEntry_run_of_ne_zero w hind hj rfl hnone
    exact ⟨_, img, hmkfs, hkernel, w, .refl img, by rw [if_neg hne, Nat.add_zero]⟩

end

/-- The blocks an append at offset `off` takes at most: one at the start of a block, and one
more for the indirect block. -/
def newBlocks (g : Geometry) (off : ℕ) : ℕ :=
  (if off % g.bsize = 0 then 1 else 0) + if off = g.ndirect * g.bsize then 1 else 0

/-- Past its start, a block of a file whose blocks below `off` are there is there. -/
theorem dataPtr_ne_zero {g : Geometry} {s : Fs} (hbelow : s.Below g inum off)
    (hoff : off % g.bsize ≠ 0) : s.dataPtr g inum (off / g.bsize) ≠ 0 := by
  apply hbelow
  have := Nat.div_add_mod' off g.bsize
  omega

/-- A block that is not there is a new one. -/
theorem newBlocks_pos {g : Geometry} {s : Fs} (hbelow : s.Below g inum off)
    (hzero : s.dataPtr g inum (off / g.bsize) = 0) : 1 ≤ newBlocks g off := by
  have hoff : off % g.bsize = 0 := by
    by_contra hoff
    exact dataPtr_ne_zero hbelow hoff hzero
  unfold newBlocks
  rw [if_pos hoff]
  exact Nat.le_add_right _ _

/-- Past the first indirect block, the indirect block is there. -/
theorem addrs_ndirect_ne_zero (hbelow : (img.view h inum din).Below h.geometry inum off)
    (hoff : h.ndirect * h.bsize < off) : din.addrs h.ndirect ≠ 0 := by
  have hptr := hbelow h.ndirect hoff
  intro hzero
  have hnone : din.addrs h.geometry.ndirect = 0 := hzero
  apply hptr
  rw [Fs.dataPtr, Fs.ptr, node_of_valid view_valid, view_cached, blockLoc,
    if_neg (show ¬ h.ndirect < h.geometry.ndirect from lt_irrefl _), ptrOf,
    if_pos (Or.inl hnone)]

/-- At offset `off`, `fileBlock` runs as the kernel's `bmap` and takes no more than the new
blocks. -/
def RunsAsBmap (h : Header) (img : Image) (inum : ℕ) (din : Dinode) (off : ℕ) : Prop :=
  ∃ x din' img', (fileBlock h din (off / h.bsize)).run img = .ok (x, din') img' ∧
    (bmap h.geometry inum (off / h.bsize)).run (img.view h inum din)
      = .ok x (img'.view h inum din') ∧
    Appending h img' inum din' ∧ SameMeta h img img' ∧
    img'.freeblock ≤ img.freeblock + newBlocks h.geometry off

section

variable (w : Appending h img inum din) {off : ℕ}
  (hbelow : (img.view h inum din).Below h.geometry inum off)
  (hroom : img.freeblock + newBlocks h.geometry off ≤ fssize)

include w hbelow hroom

theorem fileBlock_run_direct (hdirect : off / h.bsize < h.ndirect) :
    RunsAsBmap h img inum din off := by
  have hptr : (img.view h inum din).dataPtr h.geometry inum (off / h.bsize)
      = (din.addrs (off / h.bsize)).toNat := by
    rw [Fs.dataPtr, Fs.ptr, node_of_valid view_valid, view_cached, blockLoc,
      if_pos (show _ < h.geometry.ndirect from hdirect), ptrOf,
      if_pos (show _ < h.geometry.ndirect from hdirect)]
  -- a block that is not there is a new one
  have hfirst : din.addrs (off / h.bsize) = 0 → 1 ≤ newBlocks h.geometry off := by
    intro hzero
    apply newBlocks_pos hbelow
    rw [show off / h.geometry.bsize = off / h.bsize from rfl, hptr, hzero]
    rfl
  obtain ⟨din', img', hrun, hkernel, w', hsame, hfree⟩ :=
    claimAddr_run w (Nat.le_of_lt hdirect) fun hzero => by
      have := hfirst hzero
      omega
  refine ⟨din'.addrs (off / h.bsize), din', img', ?_, ?_, w', hsame, ?_⟩
  · rw [fileBlock, if_pos hdirect, run_bind_of_ok hrun]
    rfl
  · rw [bmap, if_pos (show _ < h.geometry.ndirect from hdirect)]
    exact hkernel
  · rw [hfree]
    split
    case isTrue hzero =>
      have := hfirst hzero
      omega
    case isFalse => omega

theorem fileBlock_run_indirect (hdirect : ¬ off / h.bsize < h.ndirect)
    (hmax : off / h.bsize < h.maxfile)
    (hindex : h.minusNdirect (off / h.bsize) = off / h.bsize - h.ndirect) :
    RunsAsBmap h img inum din off := by
  have hj : off / h.bsize - h.ndirect < h.nindirect := by
    unfold Constants.maxfile at hmax
    omega
  have hreach : h.ndirect * h.bsize ≤ off :=
    (Nat.mul_le_mul_right _ (Nat.not_lt.mp hdirect)).trans (Nat.div_mul_le_self _ _)
  have hstart : (img.view h inum din).dataPtr h.geometry inum (off / h.bsize) = 0 →
      off % h.bsize = 0 := by
    intro hzero
    by_contra hoff
    exact dataPtr_ne_zero hbelow hoff hzero
  -- the indirect block is taken with the first block behind the direct ones
  have hfirst : din.addrs h.ndirect = 0 → off = h.ndirect * h.bsize := by
    intro hzero
    by_contra hne
    exact addrs_ndirect_ne_zero hbelow (by omega) hzero
  have hnew : newBlocks h.geometry off = (if off % h.bsize = 0 then 1 else 0) +
    if off = h.ndirect * h.bsize then 1 else 0 := rfl
  rw [hnew] at hroom
  obtain ⟨din₁, img₁, hrun₁, hkernel₁, w₁, hsame₁, hfree₁⟩ :=
    claimAddr_run w (le_refl h.ndirect) fun hzero => by
      rw [if_pos (hfirst hzero)] at hroom
      omega
  obtain ⟨hgrows, hne₁, -, -⟩ := addrAt_eq_ok w.sound view_valid (le_refl _) hkernel₁
  have hentry : (img₁.view h inum din₁).ptr h.geometry (inum, .entry (off / h.bsize - h.ndirect))
      = 0 → off % h.bsize = 0 := by
    intro hzero
    apply hstart
    by_contra hold
    rw [Fs.dataPtr, show blockLoc h.geometry (off / h.bsize) = .entry (off / h.bsize - h.ndirect)
      from if_neg hdirect] at hold
    exact hold ((hgrows.keeps _ hold).symm.trans hzero)
  have hfree₁' : img₁.freeblock ≤
      img.freeblock + if off = h.ndirect * h.bsize then 1 else 0 := by
    rw [hfree₁]
    split
    case isTrue hzero => rw [if_pos (hfirst hzero)]
    case isFalse => omega
  obtain ⟨x, img₂, hrun₂, hkernel₂, w₂, hsame₂, hfree₂⟩ :=
    claimEntry_run w₁ hne₁ hj fun hzero => by
      rw [if_pos (hentry hzero)] at hroom
      omega
  refine ⟨x, din₁, img₂, ?_, ?_, w₂, hsame₁.trans hsame₂, ?_⟩
  · rw [fileBlock, if_neg hdirect, run_bind_of_ok hrun₁, hindex, run_bind_of_ok hrun₂]
    rfl
  · rw [bmap, if_neg (show ¬ _ < h.geometry.ndirect from hdirect),
      if_pos (show _ - h.geometry.ndirect < h.geometry.nindirect from hj)]
    exact (run_bind_of_ok hkernel₁).trans hkernel₂
  · rw [hfree₂, hnew]
    split
    case isTrue hzero =>
      rw [if_pos (hentry hzero)]
      omega
    case isFalse => omega

/-- **`fileBlock` runs as the kernel's `bmap`** where it uses the kernel's index. -/
theorem fileBlock_run (hmax : off / h.bsize < h.maxfile)
    (hindex : h.ndirect ≤ off / h.bsize →
      h.minusNdirect (off / h.bsize) = off / h.bsize - h.ndirect) :
    RunsAsBmap h img inum din off := by
  by_cases hdirect : off / h.bsize < h.ndirect
  · exact fileBlock_run_direct w hbelow hroom hdirect
  · exact fileBlock_run_indirect w hbelow hroom hdirect hmax (hindex (Nat.not_lt.mp hdirect))

end

end Xv6.Mkfs
