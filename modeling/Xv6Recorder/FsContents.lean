/-
# The bytes of an inode

What `bmap`, `readi` and `writei` do to the contents of inodes.  Allocation only adds
pointers and never moves a block, so the bytes of an inode below its size survive it; a
store reaches the inode it is meant for and no other, because no two pointers share a
block.  On that, the loops that cut a transfer at block borders read and write one run
of bytes.
-/
import Xv6Recorder.BlockFile
import Xv6Recorder.Fs

open Bytes StateError BlockFile

namespace Xv6

/-! ## Pointers and contents -/

/-- Where an inode keeps block numbers. -/
inductive Loc where
  | direct (i : ℕ)
  | indirect
  | entry (j : ℕ)
deriving DecidableEq

/-- The copy of an inode that counts: the cached one, once it has been read. -/
def Fs.node (s : Fs) (ip : ℕ) : Dinode := if s.valid ip then s.cached ip else s.dinode ip

section

variable (g : Geometry)

/-- The block number at a location, for the `addrs` of an inode; `0` if there is none. -/
def ptrOf (addrs : ℕ → Word) (block : ℕ → Memory) : Loc → ℕ
  | .direct i => if i < g.ndirect then (addrs i).toNat else 0
  | .indirect => (addrs g.ndirect).toNat
  | .entry j =>
    if addrs g.ndirect = 0 ∨ g.nindirect ≤ j then 0
    else (field 32 (4 * j) (block (addrs g.ndirect).toNat)).toNat

/-- The block number at a location of an inode. -/
def Fs.ptr (s : Fs) (l : ℕ × Loc) : ℕ := ptrOf g (s.node l.1).addrs s.block l.2

/-- The location of the number of the `bn`-th block. -/
def blockLoc (bn : ℕ) : Loc := if bn < g.ndirect then .direct bn else .entry (bn - g.ndirect)

/-- The number of the `bn`-th block of an inode. -/
def Fs.dataPtr (s : Fs) (ip bn : ℕ) : ℕ := s.ptr g (ip, blockLoc g bn)

/-- The blocks of an inode as one memory. -/
def Fs.data (s : Fs) (ip : ℕ) : Memory := flat g.bsize fun bn => s.block (s.dataPtr g ip bn)

/-- The contents of an inode. -/
def Fs.bytes (s : Fs) (ip : ℕ) : List Byte := slice (s.data g ip) 0 (s.node ip).size.toNat

/-- All blocks that begin below `n` are allocated. -/
def Fs.Below (s : Fs) (ip n : ℕ) : Prop := ∀ bn, bn * g.bsize < n → s.dataPtr g ip bn ≠ 0

/-- Pointers own their blocks, and the boot block is not free. -/
structure Fs.Sound (s : Fs) : Prop where
  owns : Owns (s.ptr g) (fun b => s.used b = true)
  boot : s.used 0 = true

end

theorem blockLoc_ne_indirect (g : Geometry) (bn : ℕ) : blockLoc g bn ≠ .indirect := by
  unfold blockLoc
  split <;> simp

theorem blockLoc_inj {g : Geometry} {bn bn' : ℕ} (h : blockLoc g bn = blockLoc g bn') :
    bn = bn' := by
  unfold blockLoc at h
  split at h <;> split at h
  · exact Loc.direct.inj h
  · cases h
  · cases h
  · have := Loc.entry.inj h
    omega

variable {g : Geometry} {s s' : Fs} {ip : ℕ}

variable {b : Word} {addrs : ℕ → Word} {i : ℕ}

/-- Pointers do not depend on anything but `addrs` and the indirect block. -/
theorem ptrOf_congr (block : ℕ → Memory) {block' : ℕ → Memory}
    (h : addrs g.ndirect ≠ 0 → block' (addrs g.ndirect).toNat = block (addrs g.ndirect).toNat) :
    ptrOf g addrs block' = ptrOf g addrs block := by
  funext loc
  cases loc with
  | direct n => rfl
  | indirect => rfl
  | entry j =>
    simp only [ptrOf]
    split
    · rfl
    case isFalse hne => rw [h (not_or.mp hne).1]

theorem ptr_congr (haddrs : ∀ i, (s'.node i).addrs = (s.node i).addrs)
    (hblock : ∀ i, s.ptr g (i, .indirect) ≠ 0 →
      s'.block (s.ptr g (i, .indirect)) = s.block (s.ptr g (i, .indirect))) :
    s'.ptr g = s.ptr g := by
  funext l
  rw [Fs.ptr, Fs.ptr, haddrs]
  refine congrFun (ptrOf_congr s.block fun hne => hblock l.1 fun h0 => ?_) l.2
  exact hne (BitVec.eq_of_toNat_eq h0)

/-! ## Allocation -/

/-- The disk with block `b` in use, and zero. -/
def Fs.fresh (s : Fs) (b : ℕ) : Fs :=
  { s with
    used := Function.update s.used b true
    block := Function.update s.block b (fun _ => 0) }

/-- **`balloc`** takes a block that was not in use. -/
theorem balloc_eq_ok (h : balloc.run s = .ok b s') :
    s.used b.toNat = false ∧ s' = s.fresh b.toNat := by
  rw [balloc, EStateM.run_bind, EStateM.run_get] at h
  simp only at h
  split at h
  case h_2 => cases h
  case h_1 n hfind =>
    injection h with hb hs
    have hlt := List.mem_range.mp (List.mem_of_find?_eq_some hfind)
    have hfree := List.find?_some hfind
    have hn : b.toNat = n := by
      rw [← hb, BitVec.toNat_ofNat]
      exact Nat.mod_eq_of_lt (lt_trans hlt s.sbSize.isLt)
    rw [hn]
    exact ⟨by simpa using hfree, hs.symm⟩

/-- Blocks have been added to inode `ip`; nothing else has changed. -/
structure Grows (g : Geometry) (ip : ℕ) (s s' : Fs) : Prop where
  sound : s'.Sound g
  keeps : ∀ l, s.ptr g l ≠ 0 → s'.ptr g l = s.ptr g l
  others : ∀ l, l.1 ≠ ip → s'.ptr g l = s.ptr g l
  data : ∀ l : ℕ × Loc, l.2 ≠ .indirect → s.ptr g l ≠ 0 →
    s'.block (s.ptr g l) = s.block (s.ptr g l)
  dinode : s'.dinode = s.dinode
  valid : s'.valid = s.valid
  ninodes : s'.ninodes = s.ninodes
  cached : ∀ i, i ≠ ip → s'.cached i = s.cached i
  same : s'.cached ip = { s.cached ip with addrs := (s'.cached ip).addrs }

theorem Grows.refl (h : s.Sound g) : Grows g ip s s :=
  ⟨h, fun _ _ => rfl, fun _ _ => rfl, fun _ _ _ => rfl, rfl, rfl, rfl, fun _ _ => rfl, rfl⟩

theorem Grows.trans {s'' : Fs} (h : Grows g ip s s') (h' : Grows g ip s' s'') :
    Grows g ip s s'' where
  sound := h'.sound
  keeps l hl := by rw [h'.keeps l (by rwa [h.keeps l hl]), h.keeps l hl]
  others l hl := by rw [h'.others l hl, h.others l hl]
  data l hloc hl := by
    have hkeep := h.keeps l hl
    have hdata := h'.data l hloc (by rwa [hkeep])
    rw [hkeep] at hdata
    rw [hdata, h.data l hloc hl]
  dinode := h'.dinode.trans h.dinode
  valid := h'.valid.trans h.valid
  ninodes := h'.ninodes.trans h.ninodes
  cached i hi := (h'.cached i hi).trans (h.cached i hi)
  same := by rw [h'.same, h.same]

/-- A location that had no block has been given a fresh one. -/
theorem Grows.of_take (h : s.Sound g) {loc : Loc} (hnone : s.ptr g (ip, loc) = 0) {b : ℕ}
    (hfree : s.used b = false) (hptr : s'.ptr g = Function.update (s.ptr g) (ip, loc) b)
    (hused : s'.used = Function.update s.used b true)
    (hblock : ∀ l : ℕ × Loc, l.2 ≠ .indirect → s.ptr g l ≠ 0 → s.ptr g l ≠ b →
      s'.block (s.ptr g l) = s.block (s.ptr g l))
    (hdinode : s'.dinode = s.dinode) (hvalid : s'.valid = s.valid)
    (hninodes : s'.ninodes = s.ninodes)
    (hcached : ∀ i, i ≠ ip → s'.cached i = s.cached i)
    (hsame : s'.cached ip = { s.cached ip with addrs := (s'.cached ip).addrs }) :
    Grows g ip s s' := by
  have hb : ¬ s.used b = true := by rw [hfree]; exact Bool.false_ne_true
  -- a block in use is not the one that was taken, so every pointer keeps its block
  refine ⟨⟨?_, ?_⟩, fun l hl => ?_, fun l hl => ?_,
    fun l hloc hl => hblock l hloc hl (h.owns.ne_of_not_used hb hl), hdinode, hvalid, hninodes,
    hcached, hsame⟩
  · rw [hptr, hused]
    refine h.owns.take _ hb (fun x hx => ?_) (Function.update_self _ _ _)
    rw [Function.update_apply]
    split
    · rfl
    · exact hx
  · rw [hused, Function.update_apply]
    split
    · rfl
    · exact h.boot
  · rw [hptr, Function.update_of_ne]
    rintro rfl
    exact hl hnone
  · rw [hptr, Function.update_of_ne]
    rintro rfl
    exact hl rfl

theorem Fs.Sound.ne_zero_of_free (h : s.Sound g) (hfree : s.used b.toNat = false) : b ≠ 0 := by
  rintro rfl
  rw [show (0 : Word).toNat = 0 from rfl, h.boot] at hfree
  cases hfree

/-- The state between `balloc` and the store of the new number has the same pointers. -/
theorem ptr_fresh (h : s.Sound g) {b : ℕ} (hfree : s.used b = false) :
    (s.fresh b).ptr g = s.ptr g := by
  refine ptr_congr (fun _ => rfl) fun i hi => ?_
  refine Function.update_of_ne ?_ _ _
  exact h.owns.ne_of_not_used (by rw [hfree]; exact Bool.false_ne_true) hi

/-- The inode in use is the cached one. -/
theorem node_of_valid (hv : s.valid ip = true) : s.node ip = s.cached ip := if_pos hv

theorem toNat_ne_zero (h : b ≠ 0) : b.toNat ≠ 0 := fun h0 =>
  h (BitVec.eq_of_toNat_eq h0)

/-- The location of `addrs[i]`. -/
def addrLoc (g : Geometry) (i : ℕ) : Loc := if i < g.ndirect then .direct i else .indirect

theorem addrLoc_inj {i n : ℕ} (hi : i ≤ g.ndirect) (hn : n ≤ g.ndirect)
    (h : addrLoc g n = addrLoc g i) : n = i := by
  unfold addrLoc at h
  split at h <;> split at h <;> simp at h <;> omega

theorem ptrOf_addrLoc (addrs : ℕ → Word) (block : ℕ → Memory) (hi : i ≤ g.ndirect) :
    ptrOf g addrs block (addrLoc g i) = (addrs i).toNat := by
  unfold addrLoc
  split
  case isTrue h => exact if_pos h
  case isFalse h =>
    obtain rfl : i = g.ndirect := by omega
    rfl

/-- Every location but the entries is that of an address, or has no block. -/
theorem loc_cases (loc : Loc) : (∃ n ≤ g.ndirect, loc = addrLoc g n) ∨ (∃ j, loc = .entry j) ∨
    ∀ addrs block, ptrOf g addrs block loc = 0 := by
  cases loc with
  | direct n =>
    by_cases hn : n < g.ndirect
    · exact .inl ⟨n, by omega, (if_pos hn).symm⟩
    · exact .inr (.inr fun _ _ => if_neg hn)
  | indirect => exact .inl ⟨g.ndirect, le_rfl, (if_neg (lt_irrefl _)).symm⟩
  | entry j => exact .inr (.inl ⟨j, rfl⟩)

theorem entry_ne_addrLoc (i j : ℕ) : Loc.entry j ≠ addrLoc g i := by
  unfold addrLoc
  split <;> simp

/-- Storing a fresh block in `addrs[i]`.  When it is the indirect block, it has no
entries yet. -/
theorem ptrOf_update {block : ℕ → Memory} (hi : i ≤ g.ndirect) (hnone : addrs i = 0)
    (hzero : block b.toNat = fun _ => 0) :
    ptrOf g (Function.update addrs i b) block
      = Function.update (ptrOf g addrs block) (addrLoc g i) b.toNat := by
  funext loc
  rcases loc_cases (g := g) loc with ⟨n, hn, rfl⟩ | ⟨j, rfl⟩ | hout
  · rw [ptrOf_addrLoc _ _ hn, Function.update_apply, Function.update_apply]
    by_cases hni : n = i
    · rw [if_pos hni, if_pos (by rw [hni])]
    · rw [if_neg hni, if_neg fun h => hni (addrLoc_inj hi hn h), ptrOf_addrLoc _ _ hn]
  · rw [Function.update_of_ne (entry_ne_addrLoc i j)]
    simp only [ptrOf, Function.update_apply]
    by_cases hind : g.ndirect = i
    · rw [if_pos hind, hind, hnone, hzero, if_pos (Or.inl rfl)]
      split <;> rfl
    · rw [if_neg hind]
  · rw [hout, Function.update_apply, hout]
    split
    case isFalse => rfl
    case isTrue h =>
      -- every address has a location with a block of its own
      have := hout (fun _ => 1) block
      rw [h, ptrOf_addrLoc _ _ hi] at this
      simp at this

/-- A cached inode, with other `addrs` in one of them. -/
theorem node_setAddr (hv : s.valid ip = true) (i : ℕ) (b : Word) (j : ℕ) :
    ((setAddr ip i b s).node j).addrs
      = if j = ip then Function.update (s.cached ip).addrs i b else (s.node j).addrs := by
  have hnode : (setAddr ip i b s).node j = if s.valid j then (setAddr ip i b s).cached j
    else s.dinode j := rfl
  rw [hnode]
  by_cases hj : j = ip
  · subst hj
    rw [if_pos hv, if_pos rfl]
    simp only [setAddr, Function.update_self]
  · rw [if_neg hj, Fs.node]
    simp only [setAddr, Function.update_of_ne hj]

theorem ptr_setAddr (hv : s.valid ip = true) (hi : i ≤ g.ndirect)
    (hnone : (s.cached ip).addrs i = 0) (hzero : s.block b.toNat = fun _ => 0) :
    (setAddr ip i b s).ptr g = Function.update (s.ptr g) (ip, addrLoc g i) b.toNat := by
  funext l
  obtain ⟨j, loc⟩ := l
  have hptr : (setAddr ip i b s).ptr g (j, loc)
    = ptrOf g ((setAddr ip i b s).node j).addrs s.block loc := rfl
  rw [hptr, node_setAddr hv, Function.update_apply]
  by_cases hj : j = ip
  · subst hj
    rw [if_pos rfl, ptrOf_update hi hnone hzero, Function.update_apply, Fs.ptr, node_of_valid hv]
    simp
  · rw [if_neg hj, if_neg (by simp [hj])]
    rfl

/-- A free block put in `addrs[i]`. -/
theorem ptr_setAddr_fresh (h : s.Sound g) (hv : s.valid ip = true) (hi : i ≤ g.ndirect)
    (hnone : (s.cached ip).addrs i = 0) (hfree : s.used b.toNat = false) :
    (setAddr ip i b (s.fresh b.toNat)).ptr g
      = Function.update (s.ptr g) (ip, addrLoc g i) b.toNat := by
  rw [← ptr_fresh h hfree]
  exact ptr_setAddr (s := s.fresh b.toNat) hv hi hnone (Function.update_self _ _ _)

/-- **`addrs[i]`**, allocating if there is none. -/
theorem addrAt_eq_ok (h : s.Sound g) (hv : s.valid ip = true) (hi : i ≤ g.ndirect)
    (hrun : (addrAt ip i).run s = .ok b s') :
    Grows g ip s s' ∧ b ≠ 0 ∧ (s'.cached ip).addrs i = b ∧
      ((s.cached ip).addrs i ≠ 0 → s' = s) := by
  rw [addrAt, EStateM.run_bind, EStateM.run_get] at hrun
  simp only at hrun
  split at hrun
  case isFalse hne =>
    injection hrun with hb hs
    subst hb hs
    exact ⟨.refl h, hne, rfl, fun _ => rfl⟩
  case isTrue hnone =>
    obtain ⟨b', s₁, halloc, hrest⟩ := run_bind_eq_ok.mp hrun
    obtain ⟨_, s₂, hset, hpure⟩ := run_bind_eq_ok.mp hrest
    injection hset with _ hs₂
    injection hpure with hb hs
    subst hs hs₂ hb
    obtain ⟨hfree, rfl⟩ := balloc_eq_ok halloc
    have hne : b' ≠ 0 := h.ne_zero_of_free hfree
    have hptr := ptr_setAddr_fresh h hv hi hnone hfree
    have hnone' : s.ptr g (ip, addrLoc g i) = 0 := by
      rw [Fs.ptr, node_of_valid hv, ptrOf_addrLoc _ _ hi, hnone]
      rfl
    refine ⟨Grows.of_take h hnone' hfree hptr rfl (fun l _ _ hl => Function.update_of_ne hl _ _)
      rfl rfl rfl (fun j hj => Function.update_of_ne hj _ _) ?_, hne, ?_,
      fun hsome => absurd hnone hsome⟩
    · simp only [setAddr, Fs.fresh, Function.update_self]
    · simp only [setAddr, Function.update_self]

/-- Storing a fresh block in entry `j` of an indirect block. -/
theorem ptrOf_putField (block : ℕ → Memory) {j : ℕ} (hind : addrs g.ndirect ≠ 0)
    (hj : j < g.nindirect) (b : Word) :
    ptrOf g addrs (Function.update block (addrs g.ndirect).toNat
        (putField (4 * j) b (block (addrs g.ndirect).toNat)))
      = Function.update (ptrOf g addrs block) (.entry j) b.toNat := by
  funext loc
  cases loc with
  | direct n => rw [Function.update_of_ne (by simp)]; rfl
  | indirect => rw [Function.update_of_ne (by simp)]; rfl
  | entry n =>
    by_cases hn : n = j
    · subst hn
      rw [Function.update_self, ptrOf, if_neg (not_or.mpr ⟨hind, by omega⟩),
        Function.update_self, field_putField_same (by decide)]
    · have hentry : Loc.entry n ≠ .entry j := fun h => hn (Loc.entry.inj h)
      rw [Function.update_of_ne hentry, ptrOf, ptrOf, Function.update_self, putField,
        field_overlay_disjoint]
      rw [length_toBytes]
      omega

/-- The indirect block of an inode whose cached copy is valid. -/
theorem ptr_indirect (hv : s.valid ip = true) :
    s.ptr g (ip, .indirect) = ((s.cached ip).addrs g.ndirect).toNat := by
  rw [Fs.ptr, node_of_valid hv]
  rfl

/-- A free block put in entry `j` of the indirect block. -/
theorem ptr_setEntry_fresh (h : s.Sound g) (hv : s.valid ip = true)
    (hind : (s.cached ip).addrs g.ndirect ≠ 0) {j : ℕ} (hj : j < g.nindirect)
    (hfree : s.used b.toNat = false) :
    (setEntry ((s.cached ip).addrs g.ndirect) j b (s.fresh b.toNat)).ptr g
      = Function.update (s.ptr g) (ip, .entry j) b.toNat := by
  rw [← ptr_fresh h hfree]
  funext l
  obtain ⟨i, loc⟩ := l
  by_cases hi : i = ip
  · subst hi
    have hput := congrFun (ptrOf_putField (s.fresh b.toNat).block hind hj b) loc
    have hnode : (s.node i).addrs = (s.cached i).addrs := by rw [node_of_valid hv]
    have hleft : (setEntry ((s.cached i).addrs g.ndirect) j b (s.fresh b.toNat)).ptr g (i, loc)
        = ptrOf g (s.node i).addrs
          (setEntry ((s.cached i).addrs g.ndirect) j b (s.fresh b.toNat)).block loc := rfl
    have hright : (s.fresh b.toNat).ptr g (i, loc)
        = ptrOf g (s.node i).addrs (s.fresh b.toNat).block loc := rfl
    rw [Function.update_apply] at hput ⊢
    simp only [Prod.mk.injEq, true_and]
    rw [hleft, hright, hnode]
    exact hput
  · -- the indirect block of another inode is another block
    rw [Function.update_of_ne (by simp [hi])]
    refine congrFun (ptrOf_congr (s.fresh b.toNat).block fun hne => ?_) loc
    refine Function.update_of_ne (fun heq => hi ?_) _ _
    have hother : s.ptr g (i, .indirect) ≠ 0 := toNat_ne_zero hne
    have hsame := h.owns.inj hother (show s.ptr g (i, .indirect) = s.ptr g (ip, .indirect) by
      rw [ptr_indirect hv]
      exact heq)
    exact (Prod.mk.inj hsame).1

/-- **Entry `j` of the indirect block**, allocating if there is none. -/
theorem entryAt_eq_ok (h : s.Sound g) (hv : s.valid ip = true)
    (hind : (s.cached ip).addrs g.ndirect ≠ 0) {j : ℕ} (hj : j < g.nindirect)
    (hrun : (entryAt ((s.cached ip).addrs g.ndirect) j).run s = .ok b s') :
    Grows g ip s s' ∧ b ≠ 0 ∧ s'.ptr g (ip, .entry j) = b.toNat ∧
      (s.ptr g (ip, .entry j) ≠ 0 → s' = s) := by
  have hentry : s.ptr g (ip, .entry j)
      = (entryOf s ((s.cached ip).addrs g.ndirect) j).toNat := by
    rw [Fs.ptr, node_of_valid hv, ptrOf, if_neg (not_or.mpr ⟨hind, by omega⟩)]
    rfl
  rw [entryAt, EStateM.run_bind, EStateM.run_get] at hrun
  simp only at hrun
  split at hrun
  case isFalse hne =>
    injection hrun with hb hs
    subst hb hs
    exact ⟨.refl h, hne, hentry, fun _ => rfl⟩
  case isTrue hnone =>
    obtain ⟨b', s₁, halloc, hrest⟩ := run_bind_eq_ok.mp hrun
    obtain ⟨_, s₂, hset, hpure⟩ := run_bind_eq_ok.mp hrest
    injection hset with _ hs₂
    injection hpure with hb hs
    subst hs hs₂ hb
    obtain ⟨hfree, rfl⟩ := balloc_eq_ok halloc
    have hnone' : s.ptr g (ip, .entry j) = 0 := by rw [hentry, hnone]; rfl
    have hptr := ptr_setEntry_fresh h hv hind hj hfree
    refine ⟨Grows.of_take h hnone' hfree hptr rfl ?_ rfl rfl rfl (fun _ _ => rfl) rfl,
      h.ne_zero_of_free hfree, ?_, fun hsome => absurd hnone' hsome⟩
    · intro l hloc hl hlb
      -- a data block is not the indirect block
      have hne : s.ptr g l ≠ ((s.cached ip).addrs g.ndirect).toNat := by
        rw [← ptr_indirect hv]
        exact fun heq => hloc (congrArg Prod.snd (h.owns.inj hl heq))
      simp only [setEntry]
      rw [Function.update_of_ne hne]
      exact Function.update_of_ne hlb _ _
    · rw [hptr, Function.update_self]

/-- **`bmap`** gives the number of a block of the inode, and allocates only if there was
none. -/
theorem bmap_eq_ok (h : s.Sound g) (hv : s.valid ip = true) {bn : ℕ}
    (hrun : (bmap g ip bn).run s = .ok b s') :
    Grows g ip s s' ∧ b.toNat ≠ 0 ∧ s'.dataPtr g ip bn = b.toNat ∧
      (s.dataPtr g ip bn ≠ 0 → s' = s) := by
  rw [bmap] at hrun
  split at hrun
  case isTrue hdirect =>
    have hloc : blockLoc g bn = addrLoc g bn := by
      rw [blockLoc, addrLoc, if_pos hdirect, if_pos hdirect]
    obtain ⟨hgrows, hne, haddr, hsame⟩ := addrAt_eq_ok h hv (by omega) hrun
    have hv' : s'.valid ip = true := by rw [hgrows.valid, hv]
    refine ⟨hgrows, toNat_ne_zero hne, ?_, fun hptr => hsame fun h0 => hptr ?_⟩
    · rw [Fs.dataPtr, hloc, Fs.ptr, node_of_valid hv', ptrOf_addrLoc _ _ (by omega), haddr]
    · rw [Fs.dataPtr, hloc, Fs.ptr, node_of_valid hv, ptrOf_addrLoc _ _ (by omega), h0]
      rfl
  case isFalse hdirect =>
    have hloc : blockLoc g bn = .entry (bn - g.ndirect) := if_neg hdirect
    split at hrun
    case isFalse => cases hrun
    case isTrue hlt =>
      obtain ⟨b₁, s₁, haddr, hentry⟩ := run_bind_eq_ok.mp hrun
      obtain ⟨hgrows₁, hne₁, hb₁, hsame₁⟩ := addrAt_eq_ok h hv le_rfl haddr
      have hv₁ : s₁.valid ip = true := by rw [hgrows₁.valid, hv]
      subst hb₁
      obtain ⟨hgrows, hne, hptr, hsame⟩ := entryAt_eq_ok hgrows₁.sound hv₁ hne₁ hlt hentry
      refine ⟨hgrows₁.trans hgrows, toNat_ne_zero hne, by rw [Fs.dataPtr, hloc, hptr],
        fun hdata => ?_⟩
      rw [Fs.dataPtr, hloc] at hdata
      -- an entry that is there has its indirect block, and nothing was allocated
      have hind : (s.cached ip).addrs g.ndirect ≠ 0 := by
        intro h0
        rw [Fs.ptr, node_of_valid hv, ptrOf, if_pos (Or.inl h0)] at hdata
        exact hdata rfl
      obtain rfl := hsame₁ hind
      exact hsame hdata

/-! ## Loads and stores -/

/-- Growing an inode does not change what any inode holds below its size. -/
theorem Grows.data_eq {n i : ℕ} {ip' : ℕ} (h : Grows g ip s s') (hbelow : s.Below g ip' n)
    (hi : i < n) : s'.data g ip' i = s.data g ip' i := by
  refine flat_congr hi fun bn hbn => ?_
  have hptr := hbelow bn hbn
  have hkeep : s'.dataPtr g ip' bn = s.dataPtr g ip' bn := h.keeps _ hptr
  rw [hkeep]
  exact h.data _ (blockLoc_ne_indirect g bn) hptr

theorem Grows.below {n : ℕ} {ip' : ℕ} (h : Grows g ip s s') (hbelow : s.Below g ip' n) :
    s'.Below g ip' n := by
  intro bn hbn
  have hkeep : s'.dataPtr g ip' bn = s.dataPtr g ip' bn := h.keeps _ (hbelow bn hbn)
  rw [hkeep]
  exact hbelow bn hbn

section

variable {b : Word} {bn off : ℕ} {bytes : List Byte}

/-- A store into a data block does not touch a pointer. -/
theorem ptr_storeBlock (h : s.Sound g) (hb : s.dataPtr g ip bn = b.toNat) :
    (storeBlock b off bytes s).ptr g = s.ptr g := by
  refine ptr_congr (fun _ => rfl) fun i hi => Function.update_of_ne (fun heq => ?_) _ _
  have hloc := h.owns.inj hi (heq.trans hb.symm)
  exact blockLoc_ne_indirect g bn (congrArg Prod.snd hloc).symm

/-- **A store into a data block** is a store into the inode that has it, and into no
other. -/
theorem data_storeBlock (h : s.Sound g) (hb : s.dataPtr g ip (off / g.bsize) = b.toNat)
    (hne : b.toNat ≠ 0) (hfit : off % g.bsize + bytes.length ≤ g.bsize) (ip' : ℕ) :
    (storeBlock b (off % g.bsize) bytes s).data g ip'
      = if ip' = ip then overlay (s.data g ip) off bytes else s.data g ip' := by
  have hptr : (storeBlock b (off % g.bsize) bytes s).ptr g = s.ptr g := ptr_storeBlock h hb
  have hdata : (storeBlock b (off % g.bsize) bytes s).data g ip' = flat g.bsize fun bn =>
      Function.update s.block b.toNat (overlay (s.block b.toNat) (off % g.bsize) bytes)
        (s.dataPtr g ip' bn) := by
    unfold Fs.data Fs.dataPtr
    rw [hptr]
    rfl
  -- another data pointer is another block
  have hother : ∀ bn', (ip', bn') ≠ (ip, off / g.bsize) → s.dataPtr g ip' bn' ≠ b.toNat := by
    intro bn' hbn' heq
    refine hbn' ?_
    have hloc := h.owns.inj (by rw [← heq] at hne; exact hne) (heq.trans hb.symm)
    rw [(Prod.mk.inj hloc).1, blockLoc_inj (Prod.mk.inj hloc).2]
  rw [hdata]
  by_cases hip : ip' = ip
  · subst hip
    rw [if_pos rfl, Fs.data, ← flat_update g.bsize_pos hfit]
    congr 1
    funext bn'
    rw [Function.update_apply, Function.update_apply]
    by_cases hbn : bn' = off / g.bsize
    · rw [if_pos hbn, hbn, if_pos hb, hb]
    · rw [if_neg hbn, if_neg (hother bn' (by simp [hbn]))]
  · rw [if_neg hip, Fs.data]
    congr 1
    funext bn'
    rw [Function.update_of_ne (hother bn' (by simp [hip]))]

end

/-- Bytes of inode `ip` have been written, and perhaps blocks added to it; nothing else
has changed. -/
structure Wrote (g : Geometry) (ip : ℕ) (s s' : Fs) : Prop where
  sound : s'.Sound g
  below : ∀ ip' n, s.Below g ip' n → s'.Below g ip' n
  data : ∀ ip' n i, ip' ≠ ip → s.Below g ip' n → i < n → s'.data g ip' i = s.data g ip' i
  dinode : s'.dinode = s.dinode
  valid : s'.valid = s.valid
  ninodes : s'.ninodes = s.ninodes
  cached : ∀ i, i ≠ ip → s'.cached i = s.cached i
  same : s'.cached ip = { s.cached ip with addrs := (s'.cached ip).addrs }

theorem Wrote.refl (h : s.Sound g) : Wrote g ip s s :=
  ⟨h, fun _ _ h => h, fun _ _ _ _ _ _ => rfl, rfl, rfl, rfl, fun _ _ => rfl, rfl⟩

theorem Wrote.trans {s'' : Fs} (h : Wrote g ip s s') (h' : Wrote g ip s' s'') :
    Wrote g ip s s'' where
  sound := h'.sound
  below ip' n hbelow := h'.below ip' n (h.below ip' n hbelow)
  data ip' n i hip hbelow hi := by
    rw [h'.data ip' n i hip (h.below ip' n hbelow) hi, h.data ip' n i hip hbelow hi]
  dinode := h'.dinode.trans h.dinode
  valid := h'.valid.trans h.valid
  ninodes := h'.ninodes.trans h.ninodes
  cached i hi := (h'.cached i hi).trans (h.cached i hi)
  same := by rw [h'.same, h.same]

theorem Grows.wrote (h : Grows g ip s s') : Wrote g ip s s' where
  sound := h.sound
  below _ _ hbelow := h.below hbelow
  data _ _ _ _ hbelow hi := h.data_eq hbelow hi
  dinode := h.dinode
  valid := h.valid
  ninodes := h.ninodes
  cached := h.cached
  same := h.same

/-- One store is a write. -/
theorem wrote_storeBlock (h : s.Sound g) {off : ℕ} {bytes : List Byte}
    (hb : s.dataPtr g ip (off / g.bsize) = b.toNat) (hne : b.toNat ≠ 0)
    (hfit : off % g.bsize + bytes.length ≤ g.bsize) :
    Wrote g ip s (storeBlock b (off % g.bsize) bytes s) := by
  have hptr : (storeBlock b (off % g.bsize) bytes s).ptr g = s.ptr g := ptr_storeBlock h hb
  refine ⟨⟨by rw [hptr]; exact h.owns, h.boot⟩, fun ip' n hbelow bn hbn => ?_,
    fun ip' n i hip _ _ => ?_, rfl, rfl, rfl, fun _ _ => rfl, rfl⟩
  · rw [Fs.dataPtr, hptr]
    exact hbelow bn hbn
  · rw [data_storeBlock h hb hne hfit, if_neg hip]

/-! ## The loops -/

/-- A transfer from inside what is allocated, up to the end of its block, allocates at
most the block it begins in. -/
theorem block_of_piece {off n bn lim : ℕ} (hoff : off ≤ lim) (hlim : lim ≤ bn * g.bsize)
    (hbn : bn * g.bsize < off + piece g.bsize off n) : bn = off / g.bsize := by
  have hmod : off % g.bsize + piece g.bsize off n ≤ g.bsize := mod_add_piece_le g.bsize_pos n
  have hdiv := Nat.mod_add_div off g.bsize
  have hlo : off / g.bsize ≤ bn := by
    have := Nat.div_le_div_right (c := g.bsize) (hoff.trans hlim)
    rwa [Nat.mul_div_cancel _ g.bsize_pos] at this
  by_contra hne
  have := Nat.mul_le_mul_left g.bsize (show off / g.bsize + 1 ≤ bn by omega)
  rw [Nat.mul_add, Nat.mul_one, Nat.mul_comm g.bsize bn] at this
  omega

/-- Bytes are stored from `off` on in inode `ip`, over what is allocated below `lim` and behind it;
no block is added unless `lim` is passed. -/
structure Stores (g : Geometry) (ip off lim : ℕ) (src : List Byte) (s s' : Fs) : Prop where
  wrote : Wrote g ip s s'
  below : s'.Below g ip (max lim (off + src.length))
  data : ∀ i < max lim (off + src.length), s'.data g ip i = overlay (s.data g ip) off src i
  same : off + src.length ≤ lim → s'.cached = s.cached

theorem stores_nil {off lim : ℕ} (h : s.Sound g) (hbelow : s.Below g ip lim) (hoff : off ≤ lim) :
    Stores g ip off lim [] s s := by
  have hmax : max lim (off + ([] : List Byte).length) = lim := max_eq_left hoff
  refine ⟨.refl h, ?_, ?_, fun _ => rfl⟩
  · rw [hmax]
    exact hbelow
  · intro i _
    rw [overlay_nil]

/-- What is stored behind a store is stored with it. -/
theorem Stores.trans {off lim : ℕ} {src rest : List Byte} {s'' : Fs}
    (h : Stores g ip off lim src s s')
    (h' : Stores g ip (off + src.length) (max lim (off + src.length)) rest s' s'') :
    Stores g ip off lim (src ++ rest) s s'' := by
  have hend : off + (src ++ rest).length = off + src.length + rest.length := by
    rw [List.length_append]
    omega
  have hmax : max lim (off + (src ++ rest).length)
      = max (max lim (off + src.length)) (off + src.length + rest.length) := by omega
  refine ⟨h.wrote.trans h'.wrote, ?_, ?_, ?_⟩
  · rw [hmax]
    exact h'.below
  · intro i hi
    rw [hmax] at hi
    rw [h'.data i hi, ← overlay_overlay_append, overlay, overlay]
    split
    · rfl
    · exact h.data i (by omega)
  · intro hle
    rw [h'.same (by omega), h.same (by omega)]

/-- **One round of the loop of `writei`**: a block is looked up or added, and a piece is stored
that ends with the block. -/
theorem stores_piece {off lim n : ℕ} {src : List Byte} (h : s.Sound g) (hv : s.valid ip = true)
    (hbelow : s.Below g ip lim) (hoff : off ≤ lim) (hpos : 0 < n)
    (hlen : src.length = piece g.bsize off n)
    (hmap : (bmap g ip (off / g.bsize)).run s = .ok b s') :
    Stores g ip off lim src s (storeBlock b (off % g.bsize) src s') := by
  obtain ⟨hgrows, hb, hptr, hsame⟩ := bmap_eq_ok h hv hmap
  have hfit : off % g.bsize + src.length ≤ g.bsize := by
    rw [hlen]
    exact mod_add_piece_le g.bsize_pos _
  have hwrote := wrote_storeBlock hgrows.sound hptr hb hfit
  refine ⟨hgrows.wrote.trans hwrote, ?_, ?_, ?_⟩
  · -- the block just written is allocated
    intro bn hbn
    rcases lt_or_ge (bn * g.bsize) lim with hlt | hge
    · exact hwrote.below ip lim (hgrows.below hbelow) bn hlt
    · have hbn' : bn * g.bsize < off + piece g.bsize off n := by omega
      rw [block_of_piece hoff hge hbn', Fs.dataPtr, ptr_storeBlock hgrows.sound hptr]
      rw [← Fs.dataPtr, hptr]
      exact hb
  · intro i hi
    rw [data_storeBlock hgrows.sound hptr hb hfit, if_pos rfl, overlay, overlay]
    split
    · rfl
    · exact hgrows.data_eq hbelow (by omega)
  · intro hle
    have hpiece : 0 < piece g.bsize off n := piece_pos g.bsize_pos hpos
    have hblock : s.dataPtr g ip (off / g.bsize) ≠ 0 := by
      refine hbelow _ ?_
      have := Nat.div_mul_le_self off g.bsize
      omega
    rw [hsame hblock]
    rfl

/-- **The loop of `writei`** stores its bytes. -/
theorem writeLoop_eq_ok (fuel : ℕ) {off lim : ℕ} {src : List Byte} (h : s.Sound g)
    (hv : s.valid ip = true) (hbelow : s.Below g ip lim) (hoff : off ≤ lim)
    (hfuel : src.length ≤ fuel) (hrun : (writeLoop g ip fuel off src).run s = .ok () s') :
    Stores g ip off lim src s s' := by
  induction fuel generalizing s off lim src with
  | zero =>
    obtain rfl : src = [] := List.length_eq_zero_iff.mp (by omega)
    injection hrun with _ hs
    subst hs
    exact stores_nil h hbelow hoff
  | succ fuel ih =>
    rw [writeLoop] at hrun
    split at hrun
    case isTrue hempty =>
      rw [List.isEmpty_iff] at hempty
      subst hempty
      injection hrun with _ hs
      subst hs
      exact stores_nil h hbelow hoff
    case isFalse hne =>
      rw [List.isEmpty_iff] at hne
      have hpos : 0 < src.length := List.length_pos_iff.mpr hne
      obtain ⟨b, s₁, hmap, hrest⟩ := run_bind_eq_ok.mp hrun
      obtain ⟨_, s₂, hstore, hloop⟩ := run_bind_eq_ok.mp hrest
      injection hstore with _ hs₂
      rw [show min src.length (g.bsize - off % g.bsize) = piece g.bsize off src.length from rfl]
        at hs₂ hloop
      have hlen : (src.take (piece g.bsize off src.length)).length
          = piece g.bsize off src.length := by
        rw [List.length_take]
        exact Nat.min_eq_left (piece_le _ _ _)
      have hround := stores_piece h hv hbelow hoff hpos hlen hmap
      rw [hs₂] at hround
      have hmpos : 0 < piece g.bsize off src.length := piece_pos g.bsize_pos hpos
      have hv₂ : s₂.valid ip = true := by rw [hround.wrote.valid, hv]
      rw [← hlen] at hloop
      have hstores := hround.trans (ih hround.wrote.sound hv₂ hround.below (le_max_right _ _)
        (by rw [List.length_drop]; omega) hloop)
      rw [hlen, List.take_append_drop] at hstores
      exact hstores

/-- `addrAt` on an address that is there changes nothing. -/
theorem addrAt_of_ne_zero (hne : (s.cached ip).addrs i ≠ 0) :
    (addrAt ip i).run s = .ok ((s.cached ip).addrs i) s := by
  rw [addrAt, EStateM.run_bind, EStateM.run_get]
  dsimp only
  rw [if_neg hne]
  rfl

theorem entryAt_of_ne_zero {j : ℕ} (hne : entryOf s b j ≠ 0) :
    (entryAt b j).run s = .ok (entryOf s b j) s := by
  rw [entryAt, EStateM.run_bind, EStateM.run_get]
  dsimp only
  rw [if_neg hne]
  rfl

/-- `bmap` on a block that is there changes nothing. -/
theorem bmap_of_ne_zero (hv : s.valid ip = true) {bn : ℕ} (hne : s.dataPtr g ip bn ≠ 0) :
    ∃ b : Word, (bmap g ip bn).run s = .ok b s ∧ b.toNat = s.dataPtr g ip bn := by
  have hptr : s.dataPtr g ip bn = ptrOf g (s.cached ip).addrs s.block (blockLoc g bn) := by
    rw [Fs.dataPtr, Fs.ptr, node_of_valid hv]
  rw [hptr] at hne ⊢
  by_cases hdirect : bn < g.ndirect
  · have hloc : ptrOf g (s.cached ip).addrs s.block (blockLoc g bn)
        = ((s.cached ip).addrs bn).toNat := by
      rw [blockLoc, if_pos hdirect, ptrOf, if_pos hdirect]
    rw [hloc] at hne ⊢
    refine ⟨_, ?_, rfl⟩
    rw [bmap, if_pos hdirect]
    exact addrAt_of_ne_zero fun h0 => hne (congrArg BitVec.toNat h0)
  · have hloc : blockLoc g bn = .entry (bn - g.ndirect) := if_neg hdirect
    rw [hloc, ptrOf] at hne ⊢
    by_cases hout : (s.cached ip).addrs g.ndirect = 0 ∨ g.nindirect ≤ bn - g.ndirect
    · rw [if_pos hout] at hne
      exact absurd rfl hne
    · rw [if_neg hout] at hne ⊢
      obtain ⟨hind, hlt⟩ := not_or.mp hout
      refine ⟨_, ?_, rfl⟩
      rw [bmap, if_neg hdirect, if_pos (by omega), run_bind_of_ok (addrAt_of_ne_zero hind)]
      exact entryAt_of_ne_zero fun h0 => hne (congrArg BitVec.toNat h0)

/-- **The loop of `readi`**, over bytes that are there, returns them and changes nothing. -/
theorem readLoop_run (fuel : ℕ) {off n lim : ℕ} (hv : s.valid ip = true)
    (hbelow : s.Below g ip lim) (hend : off + n ≤ lim) (hfuel : n ≤ fuel) :
    (readLoop g ip fuel off n).run s = .ok (slice (s.data g ip) off n) s := by
  induction fuel generalizing off n with
  | zero =>
    obtain rfl : n = 0 := by omega
    rfl
  | succ fuel ih =>
    rw [readLoop]
    by_cases hzero : n = 0
    · subst hzero
      rfl
    · have hblock : s.dataPtr g ip (off / g.bsize) ≠ 0 := by
        refine hbelow _ ?_
        have := Nat.div_mul_le_self off g.bsize
        omega
      obtain ⟨b, hmap, hptr⟩ := bmap_of_ne_zero hv hblock
      have hmle := piece_le g.bsize off n
      have hmpos : 0 < piece g.bsize off n := piece_pos g.bsize_pos (by omega)
      have hloop : (readLoop g ip fuel (off + piece g.bsize off n)
          (n - piece g.bsize off n)).run s = _ := ih (by omega) (by omega)
      rw [if_neg hzero, run_bind_of_ok hmap, EStateM.run_bind, EStateM.run_get]
      dsimp only
      rw [show min n (g.bsize - off % g.bsize) = piece g.bsize off n from rfl,
        run_bind_of_ok hloop]
      -- the piece of this round and what the rest of the loop returns
      have hsplit := slice_add (s.data g ip) off (piece g.bsize off n)
        (n - piece g.bsize off n)
      rw [show piece g.bsize off n + (n - piece g.bsize off n) = n by omega] at hsplit
      have hhead : slice (s.data g ip) off (piece g.bsize off n)
          = slice (s.block b.toNat) (off % g.bsize) (piece g.bsize off n) := by
        rw [hptr, Fs.data, slice_flat g.bsize_pos (mod_add_piece_le g.bsize_pos n)]
      rw [hsplit, hhead]
      rfl

end Xv6
