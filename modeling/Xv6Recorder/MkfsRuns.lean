/-
# Images and what the kernel reads from them

A file is appended to in pieces, and the pieces of several files may come in any order: the
root directory grows between the files it names.  `build` formats an image and runs a list of
such operations; every operation keeps what the image contains, so it is known of the whole
run, and with it what the kernel reads once it has found its way from the superblock to the
inode.

With `NDIRECT` one number, all files the disk has room for are read back.  With the sum of the
second recorder that is so exactly for images whose files all end within the direct blocks.
-/
import Xv6Recorder.MkfsBuild

open Bytes BlockFile StateError

namespace Xv6.Mkfs

variable {h : Header} {img img' : Image}

/-! ## Runs -/

/-- What `mkfs` does to a formatted image: it makes an empty file, or appends to file `k`. -/
inductive Op where
  | create (type : InodeType)
  | append (k : ℕ) (p : List Byte)

def Op.run (h : Header) : Op → MkfsM Unit
  | .create type => do
    let _ ← ialloc h type.code
    pure ()
  | .append k p => iappend h (k + 1) p

/-- The files after an operation; there must be a file to append to. -/
def Op.files (files : List (List Byte)) : Op → Option (List (List Byte))
  | .create _ => some (files ++ [[]])
  | .append k p => files[k]?.map fun f => files.set k (f ++ p)

/-- The files a list of operations makes, each with the pieces appended to it in order. -/
def filesOf (ops : List Op) : Option (List (List Byte)) := ops.foldlM Op.files []

def build (h : Header) (ops : List Op) : MkfsM Unit := do
  format h
  ops.forM (Op.run h)

/-- Every file is still there, and none is shorter. -/
def Extended (files final : List (List Byte)) : Prop :=
  ∀ (k : ℕ) f, files[k]? = some f → ∃ f', final[k]? = some f' ∧ f.length ≤ f'.length

theorem Extended.refl (files : List (List Byte)) : Extended files files :=
  fun _ f hf => ⟨f, hf, le_rfl⟩

theorem Extended.trans {files mid final : List (List Byte)} (h₁ : Extended files mid)
    (h₂ : Extended mid final) : Extended files final := by
  intro k f hf
  obtain ⟨f₁, hf₁, hle₁⟩ := h₁ k f hf
  obtain ⟨f₂, hf₂, hle₂⟩ := h₂ k f₁ hf₁
  exact ⟨f₂, hf₂, hle₁.trans hle₂⟩

theorem Op.extended {files files' : List (List Byte)} {op : Op}
    (hop : op.files files = some files') : Extended files files' := by
  intro k f hf
  have hlt := (List.getElem?_eq_some_iff.mp hf).1
  cases op with
  | create type =>
    cases hop
    exact ⟨f, by rw [List.getElem?_append_left hlt, hf], le_rfl⟩
  | append j p =>
    obtain ⟨f₀, hf₀, rfl⟩ := Option.map_eq_some_iff.mp hop
    by_cases hkj : k = j
    · subst hkj
      rw [hf] at hf₀
      cases hf₀
      refine ⟨f ++ p, List.getElem?_set_self hlt, ?_⟩
      rw [List.length_append]
      exact Nat.le_add_right _ _
    · exact ⟨f, by rw [List.getElem?_set_ne (Ne.symm hkj), hf], le_rfl⟩

variable {files final : List (List Byte)}

theorem extended_of_fold {ops : List Op} (hfold : ops.foldlM Op.files files = some final) :
    Extended files final := by
  induction ops generalizing files with
  | nil =>
    cases hfold
    exact .refl _
  | cons op ops ih =>
    rw [List.foldlM_cons] at hfold
    obtain ⟨mid, hop, hrest⟩ := Option.bind_eq_some_iff.mp hfold
    exact (Op.extended hop).trans (ih hrest)

theorem Extended.length_le (hext : Extended files final) : files.length ≤ final.length := by
  by_contra hlt
  obtain ⟨f', hf', -⟩ := hext final.length _ (List.getElem?_eq_getElem (by omega))
  rw [List.getElem?_eq_none le_rfl] at hf'
  cases hf'

theorem Extended.cost_le (hext : Extended files final) : cost h files ≤ cost h final := by
  induction files generalizing final with
  | nil => exact Nat.zero_le _
  | cons f files ih =>
    cases final with
    | nil =>
      obtain ⟨f', hf', -⟩ := hext 0 f rfl
      cases hf'
    | cons f' final =>
      obtain ⟨f₀, hf₀, hle⟩ := hext 0 f rfl
      cases hf₀
      rw [cost_cons, cost_cons]
      exact Nat.add_le_add (blocksFor_mono _ hle) (ih fun k => hext (k + 1))

/-- The files fit the disk: there are inodes for them, and blocks. -/
structure Fits (h : Header) (files : List (List Byte)) : Prop where
  inodes : files.length < ninodes
  blocks : h.nmeta + cost h files ≤ fssize

section

variable {files mid final : List (List Byte)}

theorem Fits.of_extended (hfit : Fits h final) (hext : Extended files final) : Fits h files :=
  ⟨hext.length_le.trans_lt hfit.inodes,
    (Nat.add_le_add_left hext.cost_le _).trans hfit.blocks⟩

/-- The room for an append, in a disk the files fit with it. -/
theorem Holds.room (hh : Holds h img files) {k : ℕ} {f p : List Byte} (hk : files[k]? = some f)
    (hfit : Fits h (files.set k (f ++ p))) :
    img.freeblock + blocksFor h.geometry (f.length + p.length)
      ≤ fssize + blocksFor h.geometry f.length := by
  have hset := cost_set (h := h) hk (f ++ p)
  rw [List.length_append] at hset
  have := hh.free
  have := hfit.blocks
  omega

/-- **One operation.** -/
theorem Op.run_ok {op : Op} (hh : Holds h img files) (hop : op.files files = some mid)
    (hfit : Fits h mid) (hmax : ∀ f ∈ mid, f.length ≤ h.maxfile * h.bsize)
    (hreach : ∀ f ∈ mid, Reaches h f.length) :
    ∃ img', (op.run h).run img = .ok () img' ∧ Holds h img' mid := by
  cases op with
  | create type =>
    cases hop
    have hfew := hfit.inodes
    rw [List.length_append] at hfew
    obtain ⟨img', hrun, hh'⟩ := ialloc_run hh hfew type
    refine ⟨img', ?_, hh'⟩
    rw [Op.run, run_bind_of_ok hrun]
    rfl
  | append k p =>
    obtain ⟨f, hk, rfl⟩ := Option.map_eq_some_iff.mp hop
    have hmem : f ++ p ∈ files.set k (f ++ p) :=
      List.mem_set (List.getElem?_eq_some_iff.mp hk).1 _
    have hlen : (f ++ p).length = f.length + p.length := List.length_append
    exact iappend_run hh hk (hlen ▸ hmax _ hmem) (hlen ▸ hreach _ hmem) (hh.room hk hfit)

/-- **Runs of operations** whose files `mkfs` indexes as the kernel does. -/
theorem forM_run {ops : List Op} (hh : Holds h img files)
    (hfold : ops.foldlM Op.files files = some final) (hfit : Fits h final)
    (hmax : ∀ f ∈ final, f.length ≤ h.maxfile * h.bsize)
    (hreach : ∀ f ∈ final, Reaches h f.length) :
    ∃ img', (ops.forM (Op.run h)).run img = .ok () img' ∧ Holds h img' final := by
  induction ops generalizing img files with
  | nil =>
    cases hfold
    exact ⟨img, rfl, hh⟩
  | cons op ops ih =>
    rw [List.foldlM_cons] at hfold
    obtain ⟨mid, hop, hrest⟩ := Option.bind_eq_some_iff.mp hfold
    have hext := extended_of_fold hrest
    -- files only grow, so the limits of the final files hold on the way
    have hle : ∀ f ∈ mid, ∃ f' ∈ final, f.length ≤ f'.length := by
      intro f hf
      obtain ⟨k, hk⟩ := List.mem_iff_getElem?.mp hf
      obtain ⟨f', hf', hle⟩ := hext k f hk
      exact ⟨f', List.mem_iff_getElem?.mpr ⟨k, hf'⟩, hle⟩
    obtain ⟨img₁, hrun, hh₁⟩ := Op.run_ok hh hop (hfit.of_extended hext)
      (fun f hf => by
        obtain ⟨f', hf', hle⟩ := hle f hf
        exact hle.trans (hmax f' hf'))
      (fun f hf => by
        obtain ⟨f', hf', hle⟩ := hle f hf
        exact (hreach f' hf').mono hle)
    obtain ⟨img', hrun', hh'⟩ := ih hh₁ hrest
    refine ⟨img', ?_, hh'⟩
    simp only [List.forM_eq_forM] at hrun' ⊢
    rw [List.forM_cons, run_bind_of_ok hrun]
    exact hrun'

/-- **Runs of operations that outgrow the direct blocks**, if the index overshoots. -/
theorem forM_stops (hover : Overshoots h) {ops : List Op} (hh : Holds h img files)
    (hfold : ops.foldlM Op.files files = some final) (hfit : Fits h final)
    (hlimit : ∀ f ∈ files, f.length ≤ h.ndirect * h.bsize)
    (hlong : ∃ f ∈ final, h.ndirect * h.bsize < f.length) :
    ∃ img', (ops.forM (Op.run h)).run img = .error .outOfBounds img' := by
  induction ops generalizing img files with
  | nil =>
    cases hfold
    obtain ⟨f, hf, hlt⟩ := hlong
    exact absurd (hlimit f hf) (Nat.not_le.mpr hlt)
  | cons op ops ih =>
    rw [List.foldlM_cons] at hfold
    obtain ⟨mid, hop, hrest⟩ := Option.bind_eq_some_iff.mp hfold
    have hfit' := hfit.of_extended (extended_of_fold hrest)
    simp only [List.forM_eq_forM] at ih ⊢
    rw [List.forM_cons]
    -- the first operation that takes a file over the limit stops, those before it run
    by_cases hshort : ∀ f ∈ mid, f.length ≤ h.ndirect * h.bsize
    · have hdirect : h.ndirect * h.bsize ≤ h.maxfile * h.bsize :=
        Nat.mul_le_mul_right _ (Nat.le_add_right _ _)
      obtain ⟨img₁, hrun, hh₁⟩ := Op.run_ok hh hop hfit'
        (fun f hf => (hshort f hf).trans hdirect) (fun f hf => Or.inl (hshort f hf))
      rw [run_bind_of_ok hrun]
      exact ih hh₁ hrest hshort
    · cases op with
      | create type =>
        cases hop
        refine absurd ?_ hshort
        intro f hf
        rcases List.mem_append.mp hf with hf | hf
        · exact hlimit f hf
        · rw [List.mem_singleton.mp hf]
          exact Nat.zero_le _
      | append k p =>
        obtain ⟨f, hk, rfl⟩ := Option.map_eq_some_iff.mp hop
        have hold := hlimit f (List.mem_iff_getElem?.mpr ⟨k, hk⟩)
        have hend : h.ndirect * h.bsize < f.length + p.length := by
          by_contra hle
          apply hshort
          intro f' hf'
          rcases List.mem_or_eq_of_mem_set hf' with hf' | rfl
          · exact hlimit f' hf'
          · rw [List.length_append]
            omega
        obtain ⟨img', hstop⟩ := iappend_stops hh hk hover hold hend (hh.room hk hfit')
        exact ⟨img', run_bind_of_error hstop⟩

end

/-! ## What the kernel reads -/

/-- The kernel reads the bytes of a file from the image, from any offset and in any amount. -/
def ReadsBack {π : Type} (h : Header) (out : Outside π) (img : Image) (inum : ℕ)
    (bytes : List Byte) : Prop :=
  ∀ off n : Word, off.toNat ≤ bytes.length → off.toNat + n.toNat < 2 ^ 32 →
    ∃ s, (lockAndRead h out inum off n).run (img.mount h inum)
      = .ok (BitVec.ofNat 32 ((bytes.drop off.toNat).take n.toNat).length,
          (bytes.drop off.toNat).take n.toNat) s

/-- What the kernel reads from the superblock: `ninodes`, `inodestart` and `bmapstart`. -/
theorem read_superblock {mem : Memory} (hsuper : Stands mem 0 (superblock h)) :
    field 32 8 mem = BitVec.ofNat 32 ninodes ∧ field 32 20 mem = BitVec.ofNat 32 inodestart ∧
      field 32 24 mem = BitVec.ofNat 32 h.bmapstart := by
  simp only [superblock, List.map_cons, List.map_nil, List.flatten_cons, List.flatten_nil,
    List.append_nil, stands_append, length_toBytes] at hsuper
  obtain ⟨-, -, hninodes, -, -, hstart, hmap⟩ := hsuper
  exact ⟨hninodes.field (by decide), hstart.field (by decide), hmap.field (by decide)⟩

/-- The kernel finds the inodes through the superblock. -/
theorem mount_dinode (hsuper : Stands (img.sector 1) 0 (superblock h)) (held : ℕ) :
    (img.mount h held).dinode = dinodeAt h img := by
  obtain ⟨hcount, hplace, -⟩ := read_superblock hsuper
  funext i
  unfold Image.mount dinodeAt iblock
  dsimp only
  rw [hcount, hplace]
  rfl

/-- The image contains a file in inode `inum`. -/
structure Image.Stores (h : Header) (img : Image) (inum : ℕ) (f : List Byte) : Prop where
  super : Stands (img.sector 1) 0 (superblock h)
  /-- No inode points into the meta blocks. -/
  high : ∀ l, (img.disk h).ptr h.geometry l ≠ 0 → h.nmeta ≤ (img.disk h).ptr h.geometry l
  type : ((img.disk h).node inum).type ≠ 0 ∧ ((img.disk h).node inum).type ≠ tDev
  below : (img.disk h).Below h.geometry inum f.length
  bytes : (img.disk h).bytes h.geometry inum = f

theorem Holds.stores {files : List (List Byte)} (hh : Holds h img files) {k : ℕ} {f : List Byte}
    (hk : files[k]? = some f) : img.Stores h (k + 1) f where
  super := hh.super
  high := hh.high
  type := hh.type k (List.getElem?_eq_some_iff.mp hk).1
  below := by
    rw [← hh.bytes k f hk, length_bytes]
    exact hh.inv.below (k + 1)
  bytes := hh.bytes k f hk

section

variable {inum : ℕ} {f : List Byte}

theorem mount_node (hsuper : Stands (img.sector 1) 0 (superblock h)) (held i : ℕ) :
    (img.mount h held).node i = (img.disk h).node i :=
  congrFun (mount_dinode hsuper held) i

/-- The blocks of the files are data blocks, so the kernel finds them. -/
theorem mount_ptr (hsuper : Stands (img.sector 1) 0 (superblock h))
    (hhigh : ∀ l, (img.disk h).ptr h.geometry l ≠ 0 → h.nmeta ≤ (img.disk h).ptr h.geometry l)
    (held : ℕ) : (img.mount h held).ptr h.geometry = (img.disk h).ptr h.geometry := by
  refine ptr_congr (fun i => ?_) fun i hi => ?_
  · rw [mount_node hsuper]
  · exact (dataBlock_of_le (hhigh _ hi)).symm

theorem Image.Stores.mount_below (st : img.Stores h inum f) (held : ℕ) :
    (img.mount h held).Below h.geometry inum f.length := by
  intro bn hbn
  rw [Fs.dataPtr, mount_ptr st.super st.high]
  exact st.below bn hbn

theorem Image.Stores.mount_bytes (st : img.Stores h inum f) (held : ℕ) :
    (img.mount h held).bytes h.geometry inum = f := by
  have hsize : ((img.disk h).node inum).size.toNat = f.length := by
    rw [← st.bytes, length_bytes]
  rw [← st.bytes, Fs.bytes, Fs.bytes, mount_node st.super]
  apply slice_congr
  intro i hi
  rw [Nat.zero_add]
  refine flat_congr hi fun bn hbn => ?_
  rw [hsize] at hbn
  rw [Fs.dataPtr, mount_ptr st.super st.high]
  exact (dataBlock_of_le (st.high _ (st.below bn hbn))).symm

/-- Locking an inode of a mounted image brings it into the cache. -/
theorem ilock_mount (htype : ((img.mount h inum).dinode inum).type ≠ 0) :
    ∃ s, (ilock inum).run (img.mount h inum) = .ok () s ∧
      (img.mount h inum).SameNodes s ∧ s.block = (img.mount h inum).block ∧
      s.valid inum = true := by
  set m := img.mount h inum with hm
  have href : m.ref inum = 1 := by simp [hm, Image.mount]
  have hempty : m.valid inum = false := rfl
  set s : Fs := { m with
    cached := Function.update m.cached inum (m.dinode inum)
    valid := Function.update m.valid inum true } with hs
  have hvalid : s.valid inum = true := Function.update_self _ _ _
  refine ⟨s, ?_, ?_, rfl, hvalid⟩
  · rw [ilock, EStateM.run_bind, EStateM.run_get]
    dsimp only
    rw [href, if_neg (by decide), hempty, if_neg Bool.false_ne_true,
      run_bind_of_ok (EStateM.run_set s m), if_neg htype]
    rfl
  · intro i
    -- the cached copy is the one on disk
    have hnode : s.node i = m.node i := by
      by_cases hi : i = inum
      · subst hi
        rw [node_of_valid hvalid, hs]
        simp only [Function.update_self]
        rfl
      · have hinvalid : s.valid i = false := Function.update_of_ne hi _ _
        rw [Fs.node, hinvalid]
        rfl
    rw [hnode]
    exact .refl _

/-- **The kernel reads what an image contains.** -/
theorem Image.Stores.readsBack {π : Type} (out : Outside π) (st : img.Stores h inum f) :
    ReadsBack h out img inum f := by
  intro off n hoff hn
  have htype : ((img.mount h inum).dinode inum).type ≠ 0 := by
    rw [mount_dinode st.super]
    exact st.type.1
  obtain ⟨s, hlock, hsame, hblock, hvalid⟩ := ilock_mount htype
  have hbytes : s.bytes h.geometry inum = f := by
    rw [hsame.bytes hblock, st.mount_bytes]
  have hbelow : s.Below h.geometry inum (s.node inum).size.toNat := by
    intro bn hbn
    rw [← length_bytes h.geometry, hbytes] at hbn
    rw [Fs.dataPtr, hsame.ptr hblock]
    exact st.mount_below inum bn hbn
  have hdev : (s.node inum).type ≠ tDev := by
    rw [(hsame inum).type, mount_node st.super]
    exact st.type.2
  have hread : (readi h.geometry out inum off n).run s = _ :=
    readi_run hvalid hbelow hdev (by rw [hbytes]; exact hoff) hn
  rw [hbytes] at hread
  exact ⟨s, (run_bind_of_ok hlock).trans hread⟩

end

/-! ## Whole images -/

section

variable {ops : List Op} {files : List (List Byte)}

theorem build_run (img : Image) (hfiles : filesOf ops = some files) (hfit : Fits h files)
    (hmax : ∀ f ∈ files, f.length ≤ h.maxfile * h.bsize)
    (hreach : ∀ f ∈ files, Reaches h f.length) :
    ∃ img', (build h ops).run img = .ok () img' ∧ Holds h img' files := by
  obtain ⟨img', hrun, hh⟩ := forM_run (holds_formatted h) hfiles hfit hmax hreach
  refine ⟨img', ?_, hh⟩
  rw [build, run_bind_of_ok (format_run h img)]
  exact hrun

theorem build_stops (hover : Overshoots h) (img : Image) (hfiles : filesOf ops = some files)
    (hfit : Fits h files) (hlong : ∃ f ∈ files, h.ndirect * h.bsize < f.length) :
    ∃ img', (build h ops).run img = .error .outOfBounds img' := by
  have hnone : ∀ f ∈ ([] : List (List Byte)), f.length ≤ h.ndirect * h.bsize := by
    intro f hf
    cases hf
  obtain ⟨img', hstop⟩ := forM_stops hover (holds_formatted h) hfiles hfit hnone hlong
  refine ⟨img', ?_⟩
  rw [build, run_bind_of_ok (format_run h img)]
  exact hstop

/-- `mkfs` returns an image from which the kernel reads every file. -/
def Agrees {π : Type} (h : Header) (out : Outside π) (img : Image) (ops : List Op)
    (files : List (List Byte)) : Prop :=
  ∃ img', (build h ops).run img = .ok () img' ∧
    ∀ (k : ℕ) f, files[k]? = some f → ReadsBack h out img' (k + 1) f

/-- **One number for `NDIRECT`**: `mkfs` and the kernel agree on all files up to `MAXFILE`
blocks. -/
theorem agrees_of_one_number {π : Type} (out : Outside π) (hone : h.more = []) (img : Image)
    (hfiles : filesOf ops = some files) (hfit : Fits h files)
    (hmax : ∀ f ∈ files, f.length ≤ h.maxfile * h.bsize) : Agrees h out img ops files := by
  obtain ⟨img', hrun, hh⟩ := build_run img hfiles hfit hmax fun _ _ => Or.inr hone
  exact ⟨img', hrun, fun k f hk => (hh.stores hk).readsBack out⟩

/-- So it is for the first and the third recorder. -/
example : header3.more = [] := rfl

/-- **The second recorder**: for files of at most `MAXFILE` blocks that fit the disk, appended
in pieces of any sizes and in any order, `mkfs` and the kernel agree exactly if every file ends
within its direct blocks. -/
theorem image_agrees_iff {π : Type} (out : Outside π) (img : Image)
    (hfiles : filesOf ops = some files) (hfit : Fits header2 files)
    (hmax : ∀ f ∈ files, f.length ≤ header2.maxfile * header2.bsize) :
    Agrees header2 out img ops files ↔
      ∀ f ∈ files, f.length ≤ header2.ndirect * header2.bsize := by
  constructor
  · rintro ⟨img', hrun, -⟩ f hf
    by_contra hlong
    obtain ⟨_, hstop⟩ :=
      build_stops header2_overshoots img hfiles hfit ⟨f, hf, Nat.not_le.mp hlong⟩
    rw [hrun] at hstop
    cases hstop
  · intro hdirect
    obtain ⟨img', hrun, hh⟩ :=
      build_run img hfiles hfit hmax fun f hf => Or.inl (hdirect f hf)
    exact ⟨img', hrun, fun k f hk => (hh.stores hk).readsBack out⟩

end

/-- A disk without names, devices and pipes. -/
def bareOutside : Outside Unit where
  beginOp := pure ()
  endOp := pure ()
  namei _ _ := pure none
  nameiparent _ _ := pure none
  dirlookup _ _ := pure none
  dirlink _ _ _ := pure (-1)
  ialloc _ _ := pure none
  iput _ := pure ()
  devread _ := none
  devwrite _ := none
  piperead _ _ := pure (-1, [])
  pipewrite _ _ := pure (-1)
  pipeclose _ _ := pure ()

/-- The image file before `mkfs` opens it. -/
def noImage : Image := ⟨fun _ => zeroes, 0, 1, 0⟩

/-- A directory and a file that get their pieces in turn. -/
theorem image_agrees_iff_two_files :
    Agrees header2 bareOutside noImage
      [.create .dir, .append 0 [1, 2], .create .file, .append 1 [7], .append 0 [3], .append 1 [8, 9]]
      [[1, 2, 3], [7, 8, 9]] :=
  (image_agrees_iff bareOutside noImage (by decide) ⟨by decide, by decide⟩ (by decide)).mpr
    (by decide)

/-- One byte more than the direct blocks hold. -/
def longFile : List Byte := List.replicate (508 * 2048 + 1) 1

theorem length_longFile : longFile.length = 508 * 2048 + 1 := List.length_replicate

/-- A file of one byte more than the direct blocks hold fits the disk, and `mkfs` leaves the
array `indirect` on its last byte. -/
theorem long_file_overruns_indirect :
    longFile.length ≤ header2.maxfile * header2.bsize ∧ Fits header2 [longFile] ∧
      ∃ img, (build header2 [.create .file, .append 0 longFile]).run noImage
        = .error .outOfBounds img := by
  have hfit : Fits header2 [longFile] := by
    refine ⟨by decide, ?_⟩
    have hcost : cost header2 [longFile] = blocksFor header2.geometry (508 * 2048 + 1) := by
      rw [cost_cons, length_longFile]
      rfl
    rw [hcost]
    decide
  refine ⟨by rw [length_longFile]; decide, hfit, ?_⟩
  refine build_stops header2_overshoots noImage rfl hfit ⟨longFile, List.mem_singleton_self _, ?_⟩
  rw [length_longFile]
  decide

end Xv6.Mkfs
