/-
# Reading and writing a whole inode

The invariant that the file system keeps between the operations of `fs.c`, and what
`ilock`, `iupdate`, `readi` and `writei` do to the contents of inodes on a disk that
has it.  `writei` grows an inode in two ways that have to fit together: `bmap` adds
blocks to the cached inode only, and the size moves, and the inode is written back, only
when the end has passed the old size.  A block is added only when it has.
-/
import Xv6Recorder.FsContents

open Bytes StateError BlockFile

namespace Xv6

variable {g : Geometry} {s s' : Fs} {ip : ℕ}

/-- Two inodes agree on the type and on where the bytes are. -/
structure Dinode.Agree (d d' : Dinode) : Prop where
  type : d'.type = d.type
  size : d'.size = d.size
  addrs : d'.addrs = d.addrs

/-- **The file system invariant**: pointers own their blocks, all blocks below the size
of an inode are allocated, and an inode in the cache is as on disk. -/
structure Fs.Inv (g : Geometry) (s : Fs) : Prop where
  sound : s.Sound g
  below : ∀ ip, s.Below g ip (s.node ip).size.toNat
  coherent : ∀ ip, s.valid ip = true → s.cached ip = s.dinode ip

/-- No inode in the cache is a free one. -/
def Fs.Typed (s : Fs) : Prop := ∀ ip, s.valid ip = true → (s.node ip).type ≠ 0

theorem Dinode.Agree.refl (d : Dinode) : d.Agree d := ⟨rfl, rfl, rfl⟩

/-- Every inode is as it was, up to fields that say nothing about the contents. -/
def Fs.SameNodes (s s' : Fs) : Prop := ∀ ip, (s.node ip).Agree (s'.node ip)

section

variable (hnode : s.SameNodes s') (hblock : s'.block = s.block)
include hnode hblock

theorem Fs.SameNodes.ptr : s'.ptr g = s.ptr g :=
  ptr_congr (fun i => (hnode i).addrs) fun _ _ => by rw [hblock]

theorem Fs.SameNodes.data : s'.data g = s.data g := by
  unfold Fs.data Fs.dataPtr
  rw [hnode.ptr hblock, hblock]

theorem Fs.SameNodes.bytes : s'.bytes g = s.bytes g := by
  funext ip
  rw [Fs.bytes, Fs.bytes, hnode.data hblock, (hnode ip).size]

theorem Fs.SameNodes.inv (h : s.Inv g) (hused : s'.used = s.used)
    (hcoherent : ∀ ip, s'.valid ip = true → s'.cached ip = s'.dinode ip) : s'.Inv g where
  sound := by
    refine ⟨?_, by rw [hused]; exact h.sound.boot⟩
    rw [hnode.ptr hblock, hused]
    exact h.sound.owns
  below ip bn hbn := by
    rw [Fs.dataPtr, hnode.ptr hblock]
    rw [(hnode ip).size] at hbn
    exact h.below ip bn hbn
  coherent := hcoherent

end

/-! ## The inode cache -/

/-- The same inodes, and so the same contents. -/
theorem Fs.sameNodes_of_eq (h : s'.node = s.node) : s.SameNodes s' := fun ip => by
  rw [h]
  exact .refl _

/-- **`ilock`** of an inode leaves it in the cache, and changes nothing else. -/
theorem ilock_eq_ok (h : s.Inv g) (hrun : (ilock ip).run s = .ok () s') :
    s'.Inv g ∧ s'.node = s.node ∧ s'.bytes g = s.bytes g ∧
      s'.valid = Function.update s.valid ip true ∧ s'.ninodes = s.ninodes ∧
      (s.valid ip = true ∨ (s.node ip).type ≠ 0) := by
  rw [ilock, EStateM.run_bind, EStateM.run_get] at hrun
  simp only at hrun
  split at hrun
  · cases hrun
  split at hrun
  case isTrue hvalid =>
    injection hrun with _ hs
    rw [← hs]
    exact ⟨h, rfl, rfl, by rw [← hvalid, Function.update_eq_self], rfl, .inl hvalid⟩
  case isFalse hvalid =>
    obtain ⟨_, s₁, hset, hrest⟩ := run_bind_eq_ok.mp hrun
    injection hset with _ hs₁
    split at hrest
    · cases hrest
    case isFalse htype =>
    injection hrest with _ hs
    subst hs
    have hnode : s₁.node = s.node := by
      funext i
      rw [← hs₁, Fs.node, Fs.node]
      by_cases hi : i = ip
      · subst hi
        simp [hvalid]
      · simp [Function.update_of_ne hi]
    have hsame := Fs.sameNodes_of_eq hnode
    have hblock : s₁.block = s.block := by rw [← hs₁]
    refine ⟨hsame.inv hblock h (by rw [← hs₁]) fun i hi => ?_, hnode, hsame.bytes hblock,
      by rw [← hs₁], by rw [← hs₁], .inr (by rw [Fs.node, if_neg hvalid]; exact htype)⟩
    rw [← hs₁] at hi ⊢
    by_cases hip : i = ip
    · subst hip
      simp only [Function.update_self]
    · simp only [Function.update_of_ne hip] at hi ⊢
      exact h.coherent i hi

theorem iunlock_eq_ok (hrun : (iunlock ip).run s = .ok () s') : s' = s := by
  rw [iunlock, EStateM.run_bind, EStateM.run_get] at hrun
  simp only at hrun
  split at hrun
  · cases hrun
  · injection hrun with _ hs
    exact hs.symm

/-- **An inode is assigned and written back**: another link count or device number moves no
bytes. -/
theorem assign_iupdate_eq_ok (h : s.Inv g) (hv : s.valid ip = true) {d : Dinode}
    (hd : (s.cached ip).Agree d)
    (hrun : (iupdate ip).run { s with cached := Function.update s.cached ip d } = .ok () s') :
    s'.Inv g ∧ s'.node = Function.update s.node ip d ∧ s'.bytes g = s.bytes g ∧
      s'.valid = s.valid ∧ s'.ninodes = s.ninodes := by
  injection hrun with _ hs
  have hnode : s'.node = Function.update s.node ip d := by
    funext i
    rw [← hs, Fs.node]
    by_cases hi : i = ip
    · subst hi
      simp [hv]
    · simp [Function.update_of_ne hi, Fs.node]
  have hsame : s.SameNodes s' := by
    intro i
    rw [hnode]
    by_cases hi : i = ip
    · subst hi
      rw [Function.update_self, node_of_valid hv]
      exact hd
    · rw [Function.update_of_ne hi]
      exact .refl _
  have hblock : s'.block = s.block := by rw [← hs]
  refine ⟨hsame.inv hblock h (by rw [← hs]) fun i hi => ?_, hnode, hsame.bytes hblock,
    by rw [← hs], by rw [← hs]⟩
  rw [← hs] at hi ⊢
  by_cases hip : i = ip
  · subst hip
    simp only [Function.update_self]
  · simp only [Function.update_of_ne hip]
    exact h.coherent i hi

/-! ## `readi` -/

theorem length_bytes (g : Geometry) (s : Fs) (ip : ℕ) :
    (s.bytes g ip).length = (s.node ip).size.toNat := length_slice _ _ _

/-- A run of bytes of an inode. -/
theorem take_drop_bytes {off n : ℕ} (hoff : off ≤ (s.node ip).size.toNat) :
    ((s.bytes g ip).drop off).take n
      = slice (s.data g ip) off (min n ((s.node ip).size.toNat - off)) := by
  have hsplit := slice_add (s.data g ip) 0 off ((s.node ip).size.toNat - off)
  rw [Nat.zero_add, Nat.add_sub_cancel' hoff] at hsplit
  rw [Fs.bytes, hsplit, List.drop_append_of_le_length (by simp), List.drop_of_length_le (by simp),
    List.nil_append]
  set m := (s.node ip).size.toNat - off with hm
  have hcut := slice_add (s.data g ip) off (min n m) (m - min n m)
  rw [Nat.add_sub_cancel' (min_le_right n m)] at hcut
  rw [hcut]
  rcases le_total n m with hle | hle
  · rw [min_eq_left hle, List.take_append_of_le_length (by simp), List.take_of_length_le (by simp)]
  · rw [min_eq_right hle, Nat.sub_self, slice_zero, List.append_nil,
      List.take_of_length_le (by simpa using hle)]

variable {π : Type} {out : Outside π}

theorem add_toNat_of_lt {a b : Word} (h : a.toNat + b.toNat < 2 ^ 32) :
    (a + b).toNat = a.toNat + b.toNat := by
  rw [BitVec.toNat_add, Nat.mod_eq_of_lt h]

/-- The checks of `readi` and `writei` on a transfer that does not wrap around. -/
theorem inside_of_le {off n size : Word} (hoff : off.toNat ≤ size.toNat)
    (hn : off.toNat + n.toNat < 2 ^ 32) : ¬ (size < off ∨ off + n < off) := by
  rw [not_or, BitVec.lt_def, BitVec.lt_def, add_toNat_of_lt hn]
  omega

/-- **`readi` returns the bytes of the inode**: those from `off` on, at most `n`. -/
theorem readi_run (hv : s.valid ip = true) (hbelow : s.Below g ip (s.node ip).size.toNat)
    {off n : Word} (htype : (s.node ip).type ≠ tDev) (hoff : off.toNat ≤ (s.bytes g ip).length)
    (hn : off.toNat + n.toNat < 2 ^ 32) :
    (readi g out ip off n).run s
      = .ok (BitVec.ofNat 32 (((s.bytes g ip).drop off.toNat).take n.toNat).length,
          ((s.bytes g ip).drop off.toNat).take n.toNat) s := by
  have hcached : s.cached ip = s.node ip := (node_of_valid hv).symm
  rw [length_bytes] at hoff
  set m : Word := if (s.node ip).size < off + n then (s.node ip).size - off else n with hm
  -- the count is cut at the end of the inode
  have hmin : m.toNat = min n.toNat ((s.node ip).size.toNat - off.toNat) := by
    rw [hm]
    have hlt := add_toNat_of_lt hn
    split
    case isTrue hsize =>
      rw [BitVec.lt_def, hlt] at hsize
      rw [BitVec.toNat_sub_of_le (by rw [BitVec.le_def]; exact hoff)]
      omega
    case isFalse hsize =>
      rw [BitVec.lt_def, hlt] at hsize
      omega
  have hloop : (readLoop g ip m.toNat off.toNat m.toNat).run s
      = .ok (slice (s.data g ip) off.toNat m.toNat) s :=
    readLoop_run m.toNat hv hbelow (by omega) le_rfl
  rw [take_drop_bytes hoff, ← hmin, length_slice, BitVec.ofNat_toNat, BitVec.setWidth_eq, readi,
    EStateM.run_bind, EStateM.run_get]
  dsimp only
  rw [hcached, if_neg htype, if_neg (inside_of_le hoff hn), ← hm, run_bind_of_ok hloop]
  rfl

/-- A `readi` that returned has read the bytes of the inode. -/
theorem readi_eq_ok (h : s.Inv g) (hv : s.valid ip = true) {off n : Word} {r : Word × List Byte}
    (htype : (s.node ip).type ≠ tDev) (hoff : off.toNat ≤ (s.bytes g ip).length)
    (hn : off.toNat + n.toNat < 2 ^ 32) (hrun : (readi g out ip off n).run s = .ok r s') :
    s' = s ∧ r = (BitVec.ofNat 32 r.2.length, ((s.bytes g ip).drop off.toNat).take n.toNat) := by
  rw [readi_run hv (h.below ip) htype hoff hn] at hrun
  injection hrun with hr hs
  subst hr hs
  exact ⟨rfl, rfl⟩

/-! ## `writei` -/

/-- What `writei` does to the inodes: `ip` holds `bytes`, the others what they held. -/
structure Wrote.Done (g : Geometry) (ip : ℕ) (bytes : List Byte) (s s' : Fs) : Prop where
  inv : s'.Inv g
  valid : s'.valid = s.valid
  ninodes : s'.ninodes = s.ninodes
  type : ∀ i, (s'.node i).type = (s.node i).type
  nlink : ∀ i, (s'.node i).nlink = (s.node i).nlink
  bytes : s'.bytes g ip = bytes
  others : ∀ i, i ≠ ip → s'.bytes g i = s.bytes g i

theorem Wrote.node_of_ne (h : Wrote g ip s s') {i : ℕ} (hi : i ≠ ip) : s'.node i = s.node i := by
  rw [Fs.node, Fs.node, h.valid, h.cached i hi, h.dinode]

theorem Wrote.bytes_of_ne (h : Wrote g ip s s') (hinv : s.Inv g) {i : ℕ} (hi : i ≠ ip) :
    s'.bytes g i = s.bytes g i := by
  rw [Fs.bytes, Fs.bytes, h.node_of_ne hi]
  exact slice_congr _ _ fun k hk => h.data i _ _ hi (hinv.below i) (by omega)

/-- The bytes of a write that stays inside the inode. -/
theorem Wrote.done_inside (h : Wrote g ip s s') (hinv : s.Inv g) {off : ℕ} {src : List Byte}
    (hcached : s'.cached = s.cached) (hend : off + src.length ≤ (s.node ip).size.toNat)
    (hdata : ∀ i < (s.node ip).size.toNat, s'.data g ip i = overlay (s.data g ip) off src i) :
    Wrote.Done g ip ((s.bytes g ip).take off ++ src ++ (s.bytes g ip).drop (off + src.length))
      s s' := by
  have hnode : ∀ i, s'.node i = s.node i := fun i => by
    rw [Fs.node, Fs.node, hcached, h.valid, h.dinode]
  refine ⟨⟨h.sound, fun i => ?_, fun i hi => ?_⟩, h.valid, h.ninodes,
    fun i => by rw [hnode i], fun i => by rw [hnode i], ?_, fun i hi => h.bytes_of_ne hinv hi⟩
  · rw [hnode i]
    exact h.below i _ (hinv.below i)
  · rw [hcached, h.dinode]
    rw [h.valid] at hi
    exact hinv.coherent i hi
  · rw [Fs.bytes, hnode ip, Fs.bytes, ← slice_overlay_max _ src (by omega), max_eq_left hend]
    exact slice_congr _ _ fun k hk => by
      rw [Nat.zero_add]
      exact hdata k hk

/-- The inode with a new size, in the cache and on disk. -/
def Fs.resize (s : Fs) (ip : ℕ) (size : Word) : Fs :=
  { s with
    cached := Function.update s.cached ip { s.cached ip with size := size }
    dinode := Function.update s.dinode ip { s.cached ip with size := size } }

theorem node_resize (hv : s.valid ip = true) (size : Word) (i : ℕ) :
    (s.resize ip size).node i = if i = ip then { s.node i with size := size } else s.node i := by
  rw [Fs.node, Fs.node]
  by_cases hi : i = ip
  · subst hi
    simp [Fs.resize, hv]
  · simp [Fs.resize, hi]

theorem ptr_resize (hv : s.valid ip = true) (size : Word) :
    (s.resize ip size).ptr g = s.ptr g := by
  refine ptr_congr (fun i => ?_) fun _ _ => rfl
  rw [node_resize hv]
  split <;> rfl

/-- The bytes of a write that passes the end of the inode. -/
theorem Wrote.done_past (h : Wrote g ip s s') (hinv : s.Inv g) (hv : s.valid ip = true)
    {off : ℕ} {src : List Byte} {size : Word} (hoff : off ≤ (s.node ip).size.toNat)
    (hsize : size.toNat = off + src.length) (hend : (s.node ip).size.toNat ≤ off + src.length)
    (hbelow : s'.Below g ip (off + src.length))
    (hdata : ∀ i < off + src.length, s'.data g ip i = overlay (s.data g ip) off src i) :
    Wrote.Done g ip ((s.bytes g ip).take off ++ src ++ (s.bytes g ip).drop (off + src.length))
      s (s'.resize ip size) := by
  have hv' : s'.valid ip = true := by rw [h.valid, hv]
  have hptr : (s'.resize ip size).ptr g = s'.ptr g := ptr_resize hv' size
  have hdata' : (s'.resize ip size).data g = s'.data g := by
    unfold Fs.data Fs.dataPtr
    rw [hptr]
    rfl
  have hother : ∀ i, i ≠ ip → (s'.resize ip size).node i = s.node i := fun i hi => by
    rw [node_resize hv', if_neg hi, h.node_of_ne hi]
  have hself : ((s'.resize ip size).node ip).size = size := by rw [node_resize hv', if_pos rfl]
  -- apart from its size and its blocks the inode is as it was
  have hkept : ∀ i, ∃ addrs, (s'.resize ip size).node i
      = { s.node i with size := ((s'.resize ip size).node i).size, addrs } := fun i => by
    by_cases hi : i = ip
    · subst hi
      refine ⟨(s'.cached i).addrs, ?_⟩
      rw [node_resize hv', if_pos rfl, node_of_valid hv, node_of_valid hv', h.same]
    · exact ⟨(s.node i).addrs, by rw [hother i hi]⟩
  refine ⟨⟨⟨by rw [hptr]; exact h.sound.owns, h.sound.boot⟩, fun i => ?_, fun i hi => ?_⟩,
    h.valid, h.ninodes, fun i => ?_, fun i => ?_, ?_, fun i hi => ?_⟩
  · intro bn hbn
    rw [Fs.dataPtr, hptr]
    by_cases hi : i = ip
    · subst hi
      rw [hself, hsize] at hbn
      exact hbelow bn hbn
    · rw [hother i hi] at hbn
      exact h.below i _ (hinv.below i) bn hbn
  · by_cases hip : i = ip
    · subst hip
      simp only [Fs.resize, Function.update_self]
    · simp only [Fs.resize, Function.update_of_ne hip, h.dinode, h.cached i hip]
      rw [show (s'.resize ip size).valid = s'.valid from rfl, h.valid] at hi
      exact hinv.coherent i hi
  · obtain ⟨addrs, hnode⟩ := hkept i
    rw [hnode]
  · obtain ⟨addrs, hnode⟩ := hkept i
    rw [hnode]
  · rw [Fs.bytes, hself, hdata', hsize, Fs.bytes, ← slice_overlay_max _ src hoff,
      max_eq_right hend]
    exact slice_congr _ _ fun k hk => by
      rw [Nat.zero_add]
      exact hdata k hk
  · rw [Fs.bytes, hdata', hother i hi, ← h.node_of_ne hi]
    exact h.bytes_of_ne hinv hi

/-- **`writei`** replaces the bytes from the offset on, and makes the inode longer when
it has to. -/
theorem writei_eq_ok (h : s.Inv g) (hv : s.valid ip = true) {off r : Word} {src : List Byte}
    (htype : (s.node ip).type ≠ tDev) (hoff : off.toNat ≤ (s.bytes g ip).length)
    (hn : off.toNat + src.length < 2 ^ 32) (hrun : (writei g out ip src off).run s = .ok r s')
    (hr : 0 ≤ r.toInt) :
    Wrote.Done g ip
      ((s.bytes g ip).take off.toNat ++ src ++ (s.bytes g ip).drop (off.toNat + src.length))
      s s' := by
  have hcached : s.cached ip = s.node ip := (node_of_valid hv).symm
  have hlen : (BitVec.ofNat 32 src.length).toNat = src.length := by
    rw [BitVec.toNat_ofNat, Nat.mod_eq_of_lt (by omega)]
  have hadd : (off + BitVec.ofNat 32 src.length).toNat = off.toNat + src.length := by
    rw [add_toNat_of_lt (by rw [hlen]; exact hn), hlen]
  rw [length_bytes] at hoff
  rw [writei, EStateM.run_bind, EStateM.run_get] at hrun
  simp only [hcached, htype, if_false] at hrun
  rw [if_neg (inside_of_le hoff (by rw [hlen]; exact hn))] at hrun
  split at hrun
  · injection hrun with hr' _
    rw [← hr'] at hr
    exact absurd hr (by decide)
  obtain ⟨_, s₁, hloop, hrest⟩ := run_bind_eq_ok.mp hrun
  -- the loop has written; the size is changed only if the end has moved
  obtain ⟨hwrote, hbelow, hdata, hsame⟩ :=
    writeLoop_eq_ok src.length h.sound hv (h.below ip) hoff le_rfl hloop
  rw [EStateM.run_bind, EStateM.run_get] at hrest
  simp only at hrest
  have hsize : (s₁.cached ip).size = (s.node ip).size := by rw [hwrote.same, hcached]
  split at hrest
  case isTrue hgrow =>
    rw [hsize, BitVec.lt_def, BitVec.lt_def, hlen, hadd] at hgrow
    have hend : max (s.node ip).size.toNat (off.toNat + src.length) = off.toNat + src.length := by
      omega
    rw [hend] at hbelow hdata
    have hdone := hwrote.done_past h hv hoff hadd (by omega) hbelow hdata
    obtain ⟨_, s₂, hset, hrest⟩ := run_bind_eq_ok.mp hrest
    obtain ⟨_, s₃, hupdate, hpure⟩ := run_bind_eq_ok.mp hrest
    injection hset with _ hs₂
    injection hupdate with _ hs₃
    injection hpure with _ hs
    have hresize : s' = s₁.resize ip (off + BitVec.ofNat 32 src.length) := by
      rw [← hs, ← hs₃, ← hs₂]
      simp only [Fs.resize, Function.update_self]
    rw [hresize]
    exact hdone
  case isFalse hstay =>
    rw [hsize, BitVec.lt_def, BitVec.lt_def, hlen, hadd, show (0 : Word).toNat = 0 from rfl]
      at hstay
    have hend : off.toNat + src.length ≤ (s.node ip).size.toNat := by omega
    rw [max_eq_left hend] at hdata
    have hdone := hwrote.done_inside h (hsame hend) hend hdata
    injection hrest with _ hs
    rw [← hs]
    exact hdone

/-! ## How much a read delivers -/

/-- The readers below `fileread` deliver as many bytes as they return, and not more than they
were asked for. -/
structure ReadLaws {σ ι π : Type} (ops : FsOps σ ι π) : Prop where
  readi : ∀ {s s' ip off n r}, 0 ≤ n.toInt → (ops.readi ip off n).run s = .ok r s' →
    r.2.length = r.1.toInt.toNat ∧ r.1.toInt ≤ n.toInt
  piperead : ∀ {s s' p n r}, 0 ≤ n.toInt → (ops.piperead p n).run s = .ok r s' →
    r.2.length = r.1.toInt.toNat ∧ r.1.toInt ≤ n.toInt

/-- **`fileread`** delivers as many bytes as it returns, and leaves the process alone. -/
theorem ReadLaws.fileread {σ ι π : Type} {ops : FsOps σ ι π} (laws : ReadLaws ops)
    {f : Fin nfile} {n : Word} {k k' : Kern σ ι π} {r : Word × List Byte} (hn : 0 ≤ n.toInt)
    (hrun : (fileread ops f n).run k = .ok r k') :
    (r.2.length = r.1.toInt.toNat ∧ r.1.toInt ≤ n.toInt) ∧ k'.proc = k.proc := by
  have hfail : ((-1 : Word), ([] : List Byte)).2.length = (-1 : Word).toInt.toNat ∧
      (-1 : Word).toInt ≤ n.toInt := ⟨rfl, by have : (-1 : Word).toInt = -1 := rfl; omega⟩
  rw [Xv6.fileread, EStateM.run_bind, EStateM.run_get] at hrun
  dsimp only at hrun
  split at hrun
  · injection hrun with hr hk
    rw [← hr, ← hk]
    exact ⟨hfail, rfl⟩
  · split at hrun
    case h_1 p _ =>
      obtain ⟨s, hread, rfl⟩ := run_zoom_eq_ok.mp hrun
      exact ⟨laws.piperead hn hread, rfl⟩
    case h_2 ip _ =>
      obtain ⟨_, k₁, hlock, hrun⟩ := run_bind_eq_ok.mp hrun
      obtain ⟨r', k₂, hread, hrun⟩ := run_bind_eq_ok.mp hrun
      obtain ⟨s₁, -, rfl⟩ := run_zoom_eq_ok.mp hlock
      obtain ⟨s₂, hreadi, rfl⟩ := run_zoom_eq_ok.mp hread
      -- moving the offset and unlocking leave the process and the result alone
      have hend : ∀ {k₃ : Kern σ ι π}, (do onFs (ops.iunlock ip); pure r' :
          KM σ ι π (Word × List Byte)).run k₃ = .ok r k' → r' = r ∧ k'.proc = k₃.proc := by
        intro k₃ hrun
        obtain ⟨_, k₄, hunlock, hrun⟩ := run_bind_eq_ok.mp hrun
        obtain ⟨s₄, -, rfl⟩ := run_zoom_eq_ok.mp hunlock
        injection hrun with hr hk
        exact ⟨hr, by rw [← hk]⟩
      split at hrun
      · obtain ⟨_, k₃, hoff, hrun⟩ := run_bind_eq_ok.mp hrun
        injection hoff with _ hk₃
        obtain ⟨rfl, hproc⟩ := hend hrun
        exact ⟨laws.readi hn hreadi, by rw [hproc, ← hk₃]; rfl⟩
      · obtain ⟨rfl, hproc⟩ := hend hrun
        exact ⟨laws.readi hn hreadi, hproc⟩
    case h_3 => cases hrun

theorem length_readLoop (fuel : ℕ) {off n : ℕ} {bytes : List Byte} (hfuel : n ≤ fuel)
    (hrun : (readLoop g ip fuel off n).run s = .ok bytes s') : bytes.length = n := by
  induction fuel generalizing off n bytes s s' with
  | zero =>
    injection hrun with hbytes _
    rw [← hbytes, List.length_nil]
    omega
  | succ fuel ih =>
    rw [readLoop] at hrun
    split at hrun
    case isTrue hzero =>
      injection hrun with hbytes _
      rw [← hbytes, hzero, List.length_nil]
    case isFalse hpos =>
      obtain ⟨b, s₁, -, hrun⟩ := run_bind_eq_ok.mp hrun
      obtain ⟨s₂, s₂', hget, hrun⟩ := run_bind_eq_ok.mp hrun
      obtain ⟨rest, s₃, hrest, hrun⟩ := run_bind_eq_ok.mp hrun
      injection hrun with hbytes _
      have hpiece : 0 < piece g.bsize off n := piece_pos g.bsize_pos (by omega)
      have hle := piece_le g.bsize off n
      rw [piece] at hpiece hle
      have hlen := ih (n := n - min n (g.bsize - off % g.bsize)) (by omega) hrest
      rw [← hbytes, List.length_append, length_slice, hlen]
      omega

/-- **`fs.c` delivers as much as it says**, as long as the devices and pipes do. -/
theorem fsOps_readLaws
    (hdev : ∀ {major read n s s' r}, out.devread major = some read → 0 ≤ n.toInt →
      (read n).run s = .ok r s' → r.2.length = r.1.toInt.toNat ∧ r.1.toInt ≤ n.toInt)
    (hpipe : ∀ {p n s s' r}, 0 ≤ n.toInt → (out.piperead p n).run s = .ok r s' →
      r.2.length = r.1.toInt.toNat ∧ r.1.toInt ≤ n.toInt) : ReadLaws (fsOps g out) where
  piperead := hpipe
  readi := by
    intro s s' ip off n r hn hrun
    have hfail : ((-1 : Word), ([] : List Byte)).2.length = (-1 : Word).toInt.toNat ∧
        (-1 : Word).toInt ≤ n.toInt := ⟨rfl, by have : (-1 : Word).toInt = -1 := rfl; omega⟩
    have hrun' : (readi g out ip off n).run s = .ok r s' := hrun
    rw [readi, EStateM.run_bind, EStateM.run_get] at hrun'
    dsimp only at hrun'
    split at hrun'
    · -- a device
      split at hrun'
      case h_1 =>
        injection hrun' with hr _
        rw [← hr]
        exact hfail
      case h_2 read hread =>
        rw [device] at hread
        split at hread
        · cases hread
        · exact hdev hread hn hrun'
    · split at hrun'
      case isTrue =>
        injection hrun' with hr _
        rw [← hr]
        exact hfail
      case isFalse hinside =>
        obtain ⟨bytes, s₁, hloop, hrun'⟩ := run_bind_eq_ok.mp hrun'
        injection hrun' with hr _
        have hlen := length_readLoop _ le_rfl hloop
        generalize hsize : (if (s.cached ip).size < off + n then (s.cached ip).size - off else n)
          = size at hlen hr
        -- what is read is at most what was asked for
        have hle : size.toNat ≤ n.toNat := by
          rw [← hsize]
          split <;> bv_omega
        have hint := BitVec.toInt_eq_toNat_cond n
        have hint' := BitVec.toInt_eq_toNat_cond size
        have hlt := n.isLt
        rw [← hr]
        dsimp only
        split at hint
        · rw [if_pos (by omega)] at hint'
          omega
        · omega

end Xv6
