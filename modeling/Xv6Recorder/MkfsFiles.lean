/-
# The files of an image

`blocksFor` counts the blocks of a file, and with it the room an append needs.

Appending a piece is the kernel's `writei` at the end of the file, for as long as `mkfs` finds
the blocks of the file where the kernel looks for them.  It always does for a header whose
`NDIRECT` is one number.  With the sum of the second recorder it does so only for the direct
blocks: `indirect[fbn - NDIRECT]` is `indirect[fbn - 12 + 496]`, which for every block behind
the direct ones is past the end of the array.
-/
import Xv6Recorder.MkfsImage

open Bytes BlockFile StateError

namespace Xv6.Mkfs

variable {h : Header} {img img' : Image} {inum : ℕ} {din : Dinode}

/-! ## Room -/

/-- The blocks of a file of `len` bytes, its indirect block included. -/
def blocksFor (g : Geometry) (len : ℕ) : ℕ :=
  (len + (g.bsize - 1)) / g.bsize + if g.ndirect * g.bsize < len then 1 else 0

theorem blocksFor_mono (g : Geometry) {m n : ℕ} (hmn : m ≤ n) : blocksFor g m ≤ blocksFor g n := by
  have hdiv : (m + (g.bsize - 1)) / g.bsize ≤ (n + (g.bsize - 1)) / g.bsize :=
    Nat.div_le_div_right (by omega)
  unfold blocksFor
  refine Nat.add_le_add hdiv ?_
  split
  case isTrue hm => rw [if_pos (by omega)]
  case isFalse => exact Nat.zero_le _

/-- A last block that is partly or wholly filled. -/
theorem ceil_eq_succ {bs q n : ℕ} (hlo : bs * q < n) (hhi : n ≤ bs * (q + 1)) :
    (n + (bs - 1)) / bs = q + 1 := by
  have hexpand : bs * (q + 1) = bs * q + bs := Nat.mul_succ _ _
  have hbs : 0 < bs := by omega
  apply Nat.div_eq_of_lt_le
  · rw [Nat.mul_comm, hexpand]
    omega
  · rw [Nat.mul_comm, Nat.mul_succ, hexpand]
    omega

/-- **A piece within one block** takes the new blocks of its offset. -/
theorem blocksFor_add (g : Geometry) {off m : ℕ} (hm : 0 < m) (hfit : off % g.bsize + m ≤ g.bsize) :
    blocksFor g (off + m) = blocksFor g off + newBlocks g off := by
  have hsplit := Nat.div_add_mod off g.bsize
  have hexpand : g.bsize * (off / g.bsize + 1) = g.bsize * (off / g.bsize) + g.bsize :=
    Nat.mul_succ _ _
  have hceil : (off + m + (g.bsize - 1)) / g.bsize
      = (off + (g.bsize - 1)) / g.bsize + if off % g.bsize = 0 then 1 else 0 := by
    rw [ceil_eq_succ (q := off / g.bsize) (by omega) (by omega)]
    split
    case isTrue hzero =>
      congr 1
      have hback : off = g.bsize * (off / g.bsize) := by omega
      conv_rhs => rw [hback, Nat.add_comm, Nat.add_mul_div_left _ _ g.bsize_pos]
      rw [Nat.div_eq_of_lt (Nat.sub_lt g.bsize_pos one_pos), Nat.zero_add]
    case isFalse => rw [ceil_eq_succ (q := off / g.bsize) (by omega) (by omega), Nat.add_zero]
  -- only a piece that starts at the first indirect block reaches behind the direct ones
  have hind : (if g.ndirect * g.bsize < off + m then 1 else 0)
      = (if g.ndirect * g.bsize < off then 1 else 0)
        + if off = g.ndirect * g.bsize then 1 else 0 := by
    by_cases hlt : g.ndirect * g.bsize < off
    · rw [if_pos (by omega), if_pos hlt, if_neg (by omega)]
    · rw [if_neg hlt]
      by_cases heq : off = g.ndirect * g.bsize
      · rw [if_pos heq, if_pos (by omega)]
      · have hq : off / g.bsize < g.ndirect := by
          rw [Nat.div_lt_iff_lt_mul g.bsize_pos]
          omega
        have := Nat.mul_le_mul_left g.bsize (Nat.succ_le_of_lt hq)
        rw [Nat.succ_eq_add_one, Nat.mul_comm _ g.ndirect] at this
        rw [if_neg heq, if_neg (by omega)]
  unfold blocksFor newBlocks
  rw [hceil, hind]
  omega

/-! ## The loop of `iappend` -/

/-- `mkfs` indexes the blocks of a file of `n` bytes as the kernel does. -/
def Reaches (h : Header) (n : ℕ) : Prop := n ≤ h.ndirect * h.bsize ∨ h.more = []

theorem Reaches.mono {m n : ℕ} (hn : Reaches h n) (hmn : m ≤ n) : Reaches h m :=
  hn.imp_left (le_trans hmn)

theorem Reaches.index {off n : ℕ} (hn : Reaches h n) (hoff : off < n)
    (hle : h.ndirect ≤ off / h.bsize) :
    h.minusNdirect (off / h.bsize) = off / h.bsize - h.ndirect := by
  rcases hn with hn | hone
  · have := Nat.mul_le_mul_right h.bsize hle
    have := Nat.div_mul_le_self off h.bsize
    omega
  · unfold Constants.minusNdirect Constants.ndirect
    rw [hone, List.sum_nil, Nat.add_zero, Nat.add_zero]

/-- The piece of one round, as `mkfs` and as the kernel compute it. -/
theorem piece_eq (off n : ℕ) :
    min n ((off / h.bsize + 1) * h.bsize - off) = piece h.geometry.bsize off n := by
  have hsplit := Nat.div_add_mod' off h.bsize
  have hexpand : (off / h.bsize + 1) * h.bsize = off / h.bsize * h.bsize + h.bsize :=
    Nat.succ_mul _ _
  show _ = min n (h.bsize - off % h.bsize)
  congr 1
  omega

/-- What is left after a round. -/
theorem length_rest (bs off : ℕ) (p : List Byte) :
    off + piece bs off p.length + (p.drop (piece bs off p.length)).length = off + p.length := by
  have := piece_le bs off p.length
  rw [List.length_drop]
  omega

variable {p : List Byte} {off : ℕ}

/-- The room a round leaves for the rest of the file. -/
theorem room_round (hp : p ≠ []) (hroom : img.freeblock + blocksFor h.geometry (off + p.length)
      ≤ fssize + blocksFor h.geometry off) :
    img.freeblock + newBlocks h.geometry off ≤ fssize ∧
      blocksFor h.geometry (off + piece h.bsize off p.length)
        = blocksFor h.geometry off + newBlocks h.geometry off := by
  have hpos : 0 < piece h.bsize off p.length :=
    piece_pos h.bsize_pos (List.length_pos_iff.mpr hp)
  have hadd : blocksFor h.geometry (off + piece h.bsize off p.length) = _ :=
    blocksFor_add h.geometry hpos (mod_add_piece_le h.bsize_pos p.length)
  have hmono := blocksFor_mono h.geometry
    (show off + piece h.bsize off p.length ≤ off + p.length by
      have := piece_le h.bsize off p.length
      omega)
  exact ⟨by omega, hadd⟩

/-- **One round of the loop** of `iappend` is one round of the loop of `writei`. -/
theorem round_run (w : Appending h img inum din)
    (hbelow : (img.view h inum din).Below h.geometry inum off) (hp : p ≠ [])
    (hmax : off / h.bsize < h.maxfile) (hindex : h.ndirect ≤ off / h.bsize →
      h.minusNdirect (off / h.bsize) = off / h.bsize - h.ndirect)
    (hroom : img.freeblock + newBlocks h.geometry off ≤ fssize) :
    ∃ din' img',
      (∀ fuel, (iappendLoop h (fuel + 1) off din p).run img
        = (iappendLoop h fuel (off + piece h.bsize off p.length) din'
            (p.drop (piece h.bsize off p.length))).run img') ∧
      (∀ fuel, (writeLoop h.geometry inum (fuel + 1) off p).run (img.view h inum din)
        = (writeLoop h.geometry inum fuel (off + piece h.bsize off p.length)
            (p.drop (piece h.bsize off p.length))).run (img'.view h inum din')) ∧
      Appending h img' inum din' ∧ SameMeta h img img' ∧
      img'.freeblock ≤ img.freeblock + newBlocks h.geometry off ∧
      (img'.view h inum din').Below h.geometry inum (off + piece h.bsize off p.length) := by
  obtain ⟨x, din', img₁, hrun, hkernel, w₁, hsame, hfree⟩ :=
    fileBlock_run w hbelow hroom hmax hindex
  -- the sector is a data block of the file
  obtain ⟨-, hxne, hxptr, -⟩ := bmap_eq_ok w.sound view_valid hkernel
  set m := piece h.bsize off p.length with hm
  have hne : (img₁.view h inum din').dataPtr h.geometry inum (off / h.bsize) ≠ 0 := by
    rw [hxptr]
    exact hxne
  have hxlt : x.toNat < img₁.freeblock := by
    rw [← hxptr]
    exact w₁.ptr_lt hne
  have hxhigh : h.nmeta ≤ x.toNat := by
    rw [← hxptr]
    exact w₁.high _ hne
  have hsec : x.toNat < fssize := hxlt.trans_le w₁.tidy.room
  have hlen : (p.take m).length = m := by
    rw [List.length_take]
    exact min_eq_left (piece_le _ _ _)
  set img' := img₁.store x.toNat (overlay (img₁.sector x.toNat) (off % h.bsize) (p.take m))
    with himg'
  -- the write of the sector is the kernel's store into its buffer
  have hstore : storeBlock x (off % h.bsize) (p.take m) (img₁.view h inum din')
      = img'.view h inum din' := by
    have hblock : (img₁.view h inum din').block x.toNat = img₁.sector x.toNat :=
      dataBlock_of_le hxhigh
    rw [himg', view_store hxhigh, storeBlock, hblock]
    rfl
  have hptr : (img'.view h inum din').ptr h.geometry = (img₁.view h inum din').ptr h.geometry := by
    rw [← hstore]
    exact ptr_storeBlock w₁.sound hxptr
  have hround := stores_piece w.sound view_valid hbelow le_rfl (List.length_pos_iff.mpr hp) hlen
    hkernel
  have hstores : Stores h.geometry inum off off (p.take m) (img.view h inum din)
      (img'.view h inum din') := by
    rw [← hstore]
    exact hround
  refine ⟨din', img', ?_, ?_, ⟨w₁.tidy.store hxlt _, ?_, ?_, w₁.trimmed⟩,
    hsame.trans (sameMeta_store hxhigh _), hfree, ?_⟩
  · intro fuel
    have hinside : off - off / h.bsize * h.bsize = off % h.bsize := by
      have := Nat.div_add_mod' off h.bsize
      omega
    rw [iappendLoop, if_neg (by simpa using hp), if_neg (Nat.not_le.mpr hmax),
      run_bind_of_ok hrun]
    dsimp only
    rw [piece_eq, run_bind_of_ok (rsect_run w₁.tidy.length hsec), hinside,
      run_bind_of_ok (wsect_run w₁.tidy.length hsec _)]
    rfl
  · intro fuel
    rw [writeLoop, if_neg (by simpa using hp)]
    refine (run_bind_of_ok hkernel).trans ?_
    rw [← hstore]
    rfl
  · exact hstores.wrote.sound
  · rw [hptr]
    exact w₁.high
  · have hbelow' := hstores.below
    rwa [hlen, max_eq_right (Nat.le_add_right _ _)] at hbelow'

/-- **The loop of `iappend` is the loop of `writei`**, and takes the blocks of what it
appends. -/
theorem iappendLoop_run (fuel : ℕ) (w : Appending h img inum din)
    (hbelow : (img.view h inum din).Below h.geometry inum off) (hfuel : p.length ≤ fuel)
    (hmax : off + p.length ≤ h.maxfile * h.bsize) (hreach : Reaches h (off + p.length))
    (hroom : img.freeblock + blocksFor h.geometry (off + p.length)
      ≤ fssize + blocksFor h.geometry off) :
    ∃ din' img', (iappendLoop h fuel off din p).run img = .ok din' img' ∧
      (writeLoop h.geometry inum fuel off p).run (img.view h inum din)
        = .ok () (img'.view h inum din') ∧
      Appending h img' inum din' ∧ SameMeta h img img' ∧
      img'.freeblock + blocksFor h.geometry off
        ≤ img.freeblock + blocksFor h.geometry (off + p.length) := by
  induction fuel generalizing img din off p with
  | zero =>
    obtain rfl : p = [] := List.length_eq_zero_iff.mp (by omega)
    exact ⟨din, img, rfl, rfl, w, .refl img, le_rfl⟩
  | succ fuel ih =>
    by_cases hp : p = []
    · subst hp
      exact ⟨din, img, rfl, rfl, w, .refl img, le_rfl⟩
    · have hpos : 0 < piece h.bsize off p.length :=
        piece_pos h.bsize_pos (List.length_pos_iff.mpr hp)
      have hle := piece_le h.bsize off p.length
      have hblock : off / h.bsize < h.maxfile := by
        rw [Nat.div_lt_iff_lt_mul h.bsize_pos]
        omega
      -- one round by `round_run`, the others by induction, in the room that is left
      obtain ⟨hnew, hadd⟩ := room_round hp hroom
      obtain ⟨din₁, img₁, hrun, hkernel, w₁, hsame, hfree, hbelow₁⟩ :=
        round_run w hbelow hp hblock (hreach.index (by omega)) hnew
      have hrest := length_rest h.bsize off p
      obtain ⟨din', img', hrun', hkernel', w', hsame', hfree'⟩ :=
        ih (p := p.drop (piece h.bsize off p.length)) w₁ hbelow₁
          (by rw [List.length_drop]; omega) (by rw [hrest]; exact hmax)
          (by rw [hrest]; exact hreach) (by rw [hrest]; omega)
      rw [hrest] at hfree'
      exact ⟨din', img', (hrun fuel).trans hrun', (hkernel fuel).trans hkernel', w',
        hsame.trans hsame', by omega⟩

/-- Every index `mkfs` uses behind the direct blocks is past the end of `indirect`. -/
def Overshoots (h : Header) : Prop :=
  0 < h.nindirect ∧ ∀ fbn, h.ndirect ≤ fbn → h.nindirect ≤ h.minusNdirect fbn

theorem header2_overshoots : Overshoots header2 := by
  refine ⟨by decide, ?_⟩
  intro fbn hfbn
  have hdirect : 508 ≤ fbn := hfbn
  show 512 ≤ fbn - 12 + 496
  omega

/-- The entry behind the direct blocks is not in the array. -/
theorem fileBlock_stops (hover : Overshoots h) (w : Appending h img inum din) {fbn : ℕ}
    (hfbn : h.ndirect ≤ fbn) (hroom : img.freeblock < fssize) :
    ∃ img', (fileBlock h din fbn).run img = .error .outOfBounds img' := by
  obtain ⟨din₁, img₁, hrun, hkernel, w₁, -, -⟩ :=
    claimAddr_run w (le_refl h.ndirect) fun _ => hroom
  obtain ⟨-, hne, -, -⟩ := addrAt_eq_ok w.sound view_valid (le_refl _) hkernel
  have hlt : (din₁.addrs h.ndirect).toNat < fssize :=
    (w₁.indirect_mem hne).2.trans_le w₁.tidy.room
  have hentry : (claimEntry h (din₁.addrs h.ndirect) (h.minusNdirect fbn)).run img₁
      = .error .outOfBounds img₁ := by
    rw [claimEntry, run_bind_of_ok (rsect_run w₁.tidy.length hlt), if_pos (hover.2 fbn hfbn)]
    rfl
  refine ⟨img₁, ?_⟩
  rw [fileBlock, if_neg (Nat.not_lt.mpr hfbn), run_bind_of_ok hrun]
  exact run_bind_of_error hentry

/-- **The loop stops at the first block behind the direct ones** if the index overshoots. -/
theorem iappendLoop_stops (hover : Overshoots h) (fuel : ℕ) (w : Appending h img inum din)
    (hbelow : (img.view h inum din).Below h.geometry inum off) (hfuel : p.length ≤ fuel)
    (hoff : off ≤ h.ndirect * h.bsize) (hend : h.ndirect * h.bsize < off + p.length)
    (hroom : img.freeblock + blocksFor h.geometry (off + p.length)
      ≤ fssize + blocksFor h.geometry off) :
    ∃ img', (iappendLoop h fuel off din p).run img = .error .outOfBounds img' := by
  induction fuel generalizing img din off p with
  | zero => omega
  | succ fuel ih =>
    have hp : p ≠ [] := by
      rintro rfl
      rw [List.length_nil] at hend
      omega
    obtain ⟨hnew, hadd⟩ := room_round hp hroom
    have hpos : 0 < piece h.bsize off p.length :=
      piece_pos h.bsize_pos (List.length_pos_iff.mpr hp)
    have hle := piece_le h.bsize off p.length
    by_cases hdirect : off / h.bsize < h.ndirect
    · have hblock : off / h.bsize < h.maxfile := by
        unfold Constants.maxfile
        omega
      obtain ⟨din₁, img₁, hrun, -, w₁, -, hfree, hbelow₁⟩ :=
        round_run w hbelow hp hblock (fun hge => absurd hdirect (Nat.not_lt.mpr hge)) hnew
      have hrest := length_rest h.bsize off p
      -- a round stays within its block
      have hstay : off + piece h.bsize off p.length ≤ h.ndirect * h.bsize := by
        have hin : off % h.bsize + piece h.bsize off p.length ≤ h.bsize :=
          mod_add_piece_le h.bsize_pos p.length
        have hsplit := Nat.div_add_mod' off h.bsize
        have hmul := Nat.mul_le_mul_right h.bsize (Nat.succ_le_of_lt hdirect)
        rw [Nat.succ_mul] at hmul
        omega
      obtain ⟨img', hrun'⟩ := ih (p := p.drop (piece h.bsize off p.length)) w₁ hbelow₁
        (by rw [List.length_drop]; omega) hstay (by rw [hrest]; exact hend)
        (by rw [hrest]; omega)
      exact ⟨img', (hrun fuel).trans hrun'⟩
    · have hq : h.ndirect ≤ off / h.bsize := Nat.not_lt.mp hdirect
      have heq : off = h.ndirect * h.bsize := by
        have := Nat.mul_le_mul_right h.bsize hq
        have := Nat.div_mul_le_self off h.bsize
        omega
      have hlast : img.freeblock < fssize := by
        unfold newBlocks at hnew
        rw [if_pos (show off = h.geometry.ndirect * h.geometry.bsize from heq)] at hnew
        omega
      obtain ⟨img₁, hfile⟩ := fileBlock_stops hover w hq hlast
      refine ⟨img₁, ?_⟩
      rw [iappendLoop, if_neg (by simpa using hp), if_neg ?_]
      · exact run_bind_of_error hfile
      · have hdiv : off / h.bsize = h.ndirect := by
          rw [heq, Nat.mul_div_cancel _ h.bsize_pos]
        have := hover.1
        unfold Constants.maxfile
        omega

end Xv6.Mkfs
