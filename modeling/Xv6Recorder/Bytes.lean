/-
# Byte memories and little-endian words

Reusable infrastructure for code that moves machine words through byte arrays.
A memory is a total function `ℕ → Byte`; the two primitives are `slice`, which
loads a run of bytes as a list, and `overlay`, which stores a list at an offset.
`memmove` between two memories is an overlay of a slice.

Words are bit vectors whose width is a whole number of bytes.  `toBytes` and
`fromBytes` are the two halves of the little-endian representation, and
`field`/`putField` load and store a word inside a memory.  Nothing here mentions
the program that uses it.
-/
import Mathlib.Data.List.GetD
import Mathlib.Tactic.Ring

namespace Bytes

/-- An eight-bit byte. -/
abbrev Byte := BitVec 8

/-- What a membership test on a list of bytes rests on, under one name. -/
instance instLawfulBEqByte : LawfulBEq Byte := inferInstance

/-- A byte-addressed memory. -/
abbrev Memory := ℕ → Byte

/-! ## Slices and overlays -/

/-- The `n` bytes of `f` from offset `pos` on. -/
def slice (f : Memory) (pos n : ℕ) : List Byte :=
  (List.range n).map (fun k => f (pos + k))

/-- The memory `f` with the bytes `l` stored from offset `pos` on. -/
def overlay (f : Memory) (pos : ℕ) (l : List Byte) : Memory :=
  fun k => if pos ≤ k ∧ k < pos + l.length then l.getD (k - pos) 0 else f k

@[simp] theorem length_slice (f : Memory) (pos n : ℕ) :
    (slice f pos n).length = n := by
  simp [slice]

@[simp] theorem slice_zero (f : Memory) (pos : ℕ) : slice f pos 0 = [] := rfl

/-- The `k`-th byte of a slice is the byte of the memory at `pos + k`. -/
theorem getElem?_slice (f : Memory) (pos n k : ℕ) (hk : k < n) :
    (slice f pos n)[k]? = some (f (pos + k)) := by
  simp [slice, hk]

/-- A slice splits at any inner point. -/
theorem slice_add (f : Memory) (pos n m : ℕ) :
    slice f pos (n + m) = slice f pos n ++ slice f (pos + n) m := by
  simp only [slice, List.range_add, List.map_append, List.map_map]
  congr 1
  apply List.map_congr_left
  intro k _hk
  simp only [Function.comp, Nat.add_assoc]

/-- Slices agree when the memories agree on the sliced run. -/
theorem slice_congr {f g : Memory} (pos n : ℕ)
    (h : ∀ k, k < n → f (pos + k) = g (pos + k)) :
    slice f pos n = slice g pos n := by
  apply List.map_congr_left
  intro k hk
  exact h k (List.mem_range.mp hk)

/-- Equal slices come from memories that agree on the sliced run. -/
theorem eq_of_slice_eq {f g : Memory} {pos n : ℕ}
    (h : slice f pos n = slice g pos n) {k : ℕ} (hlo : pos ≤ k) (hhi : k < pos + n) :
    f k = g k := by
  have hk : k - pos < n := by omega
  have hf := getElem?_slice f pos n (k - pos) hk
  have hg := getElem?_slice g pos n (k - pos) hk
  rw [h, hg, Option.some_inj, show pos + (k - pos) = k by omega] at hf
  exact hf.symm

@[simp] theorem overlay_nil (f : Memory) (pos : ℕ) : overlay f pos [] = f := by
  funext k
  simp only [overlay, List.length_nil]
  rw [if_neg (by omega)]

/-- Inside the stored run an overlay reads the stored bytes. -/
theorem overlay_apply_inside (f : Memory) (pos : ℕ) (l : List Byte) (k : ℕ)
    (hk : k < l.length) : overlay f pos l (pos + k) = l.getD k 0 := by
  simp only [overlay]
  rw [if_pos (by omega), Nat.add_sub_cancel_left]

/-- Outside the stored run an overlay reads the old memory. -/
theorem overlay_apply_outside (f : Memory) (pos : ℕ) (l : List Byte) (k : ℕ)
    (hk : k < pos ∨ pos + l.length ≤ k) : overlay f pos l k = f k := by
  simp only [overlay]
  rw [if_neg (by omega)]

/-- Loading a run just stored gives it back. -/
@[simp] theorem slice_overlay_same (f : Memory) (pos : ℕ) (l : List Byte) :
    slice (overlay f pos l) pos l.length = l := by
  apply List.ext_getElem (by simp)
  intro k h1 h2
  simp only [slice, List.getElem_map, List.getElem_range]
  rw [overlay_apply_inside f pos l k h2, List.getD_eq_getElem l 0 h2]

/-- A store leaves every run outside it as it was. -/
theorem slice_overlay_disjoint (f : Memory) (pos : ℕ) (l : List Byte) (p n : ℕ)
    (h : p + n ≤ pos ∨ pos + l.length ≤ p) :
    slice (overlay f pos l) p n = slice f p n := by
  apply slice_congr
  intro k hk
  exact overlay_apply_outside f pos l (p + k) (by omega)

/-- Two adjacent stores are one store of the concatenation. -/
theorem overlay_overlay_append (f : Memory) (pos : ℕ) (l₁ l₂ : List Byte) :
    overlay (overlay f pos l₁) (pos + l₁.length) l₂ = overlay f pos (l₁ ++ l₂) := by
  funext k
  simp only [overlay, List.length_append]
  by_cases h2 : pos + l₁.length ≤ k ∧ k < pos + l₁.length + l₂.length
  · rw [if_pos h2, if_pos (by omega), List.getD_append_right _ _ _ _ (by omega)]
    congr 1
    omega
  · rw [if_neg h2]
    by_cases h1 : pos ≤ k ∧ k < pos + l₁.length
    · rw [if_pos h1, if_pos (by omega), List.getD_append _ _ _ _ (by omega)]
    · rw [if_neg h1, if_neg (by omega)]

/-- A slice of a store that starts where the store starts and reaches past it. -/
theorem slice_overlay_past (f : Memory) (pos : ℕ) (l : List Byte) (n : ℕ) :
    slice (overlay f pos l) pos (l.length + n) = l ++ slice f (pos + l.length) n := by
  rw [slice_add, slice_overlay_same, slice_overlay_disjoint _ _ _ _ _ (by omega)]

/-- A store into a run, or just behind it: what is before it, the store, and what is left
of the run behind it. -/
theorem slice_overlay_max (f : Memory) {pos n : ℕ} (l : List Byte) (hpos : pos ≤ n) :
    slice (overlay f pos l) 0 (max n (pos + l.length))
      = (slice f 0 n).take pos ++ l ++ (slice f 0 n).drop (pos + l.length) := by
  have hbefore : slice f 0 n = slice f 0 pos ++ slice f pos (n - pos) := by
    have := slice_add f 0 pos (n - pos)
    rwa [Nat.zero_add, show pos + (n - pos) = n by omega] at this
  have htake : (slice f 0 n).take pos = slice f 0 pos := by
    rw [hbefore, List.take_append_of_le_length (by simp), List.take_of_length_le (by simp)]
  have hdrop : (slice f 0 n).drop (pos + l.length)
      = slice f (pos + l.length) (n - (pos + l.length)) := by
    by_cases hle : pos + l.length ≤ n
    · have hsplit := slice_add f 0 (pos + l.length) (n - (pos + l.length))
      rw [Nat.zero_add, show pos + l.length + (n - (pos + l.length)) = n by omega] at hsplit
      rw [hsplit, List.drop_append_of_le_length (by simp), List.drop_of_length_le (by simp),
        List.nil_append]
    · rw [List.drop_of_length_le (by rw [length_slice]; omega), show n - (pos + l.length) = 0 by omega,
        slice_zero]
  have hpast := slice_overlay_past f pos l (n - (pos + l.length))
  rw [htake, hdrop, List.append_assoc, ← hpast,
    ← slice_overlay_disjoint f pos l 0 pos (Or.inl (by omega))]
  have hsum := slice_add (overlay f pos l) 0 pos (l.length + (n - (pos + l.length)))
  rw [Nat.zero_add] at hsum
  rw [← hsum]
  congr 1
  omega

/-- Slicing a shifted memory is slicing further on. -/
theorem slice_shift (f : Memory) (off n : ℕ) :
    slice (fun k => f (off + k)) 0 n = slice f off n := by
  simp [slice]

/-- Storing what a run already holds changes nothing. -/
theorem overlay_slice_self (f : Memory) (off n : ℕ) : overlay f off (slice f off n) = f := by
  funext k
  by_cases h : off ≤ k ∧ k < off + n
  · obtain ⟨j, rfl⟩ : ∃ j, k = off + j := ⟨k - off, by omega⟩
    have hj : j < n := by omega
    rw [overlay_apply_inside _ _ _ _ (by rw [length_slice]; exact hj),
      List.getD_eq_getElem?_getD, getElem?_slice _ _ _ _ hj, Option.getD_some]
  · exact overlay_apply_outside _ _ _ _ (by rw [length_slice]; omega)

/-! ## Little-endian values -/

/-- The number spelled by a byte list, least significant byte first. -/
def leValue : List Byte → ℕ
  | [] => 0
  | b :: l => b.toNat + 256 * leValue l

/-- The `n` low base-256 digits of `x`, least significant first. -/
def leDigits : ℕ → ℕ → List Byte
  | 0, _ => []
  | n + 1, x => BitVec.ofNat 8 x :: leDigits n (x / 256)

@[simp] theorem length_leDigits (n x : ℕ) : (leDigits n x).length = n := by
  induction n generalizing x with
  | zero => rfl
  | succ n ih => rw [leDigits, List.length_cons, ih]

/-- A list of `n` bytes spells a number below `256 ^ n`. -/
theorem leValue_lt (l : List Byte) : leValue l < 256 ^ l.length := by
  induction l with
  | nil => simp [leValue]
  | cons b l ih =>
    have hb : b.toNat < 256 := b.isLt
    rw [leValue, List.length_cons, pow_succ]
    omega

/-- Digits then value is reduction modulo `256 ^ n`. -/
theorem leValue_leDigits (n x : ℕ) : leValue (leDigits n x) = x % 256 ^ n := by
  induction n generalizing x with
  | zero => simp [leDigits, leValue, Nat.mod_one]
  | succ n ih =>
    have hsplit : 256 ^ (n + 1) = 256 * 256 ^ n := by ring
    rw [leDigits, leValue, ih, BitVec.toNat_ofNat, hsplit, Nat.mod_mul]

/-- Value then digits is the identity on byte lists. -/
theorem leDigits_leValue (l : List Byte) : leDigits l.length (leValue l) = l := by
  induction l with
  | nil => rfl
  | cons b l ih =>
    have hb : b.toNat < 256 := b.isLt
    have hhead : BitVec.ofNat 8 (b.toNat + 256 * leValue l) = b := by
      apply BitVec.eq_of_toNat_eq
      rw [BitVec.toNat_ofNat]
      omega
    have htail : (b.toNat + 256 * leValue l) / 256 = leValue l := by omega
    rw [List.length_cons, leValue, leDigits, hhead, htail, ih]

/-! ## Words as byte lists -/

/-- The little-endian bytes of a word. -/
def toBytes {w : ℕ} (x : BitVec w) : List Byte := leDigits (w / 8) x.toNat

/-- The word spelled by a byte list. -/
def fromBytes (w : ℕ) (l : List Byte) : BitVec w := BitVec.ofNat w (leValue l)

@[simp] theorem length_toBytes {w : ℕ} (x : BitVec w) : (toBytes x).length = w / 8 := by
  rw [toBytes, length_leDigits]

/-- `256 ^ (w / 8)` is `2 ^ w` for a whole number of bytes. -/
theorem radix_pow {w : ℕ} (hw : 8 * (w / 8) = w) : 256 ^ (w / 8) = 2 ^ w := by
  conv_rhs => rw [← hw]
  rw [pow_mul]
  norm_num

/-- **Round trip, word first.** -/
theorem fromBytes_toBytes {w : ℕ} (hw : 8 * (w / 8) = w) (x : BitVec w) :
    fromBytes w (toBytes x) = x := by
  apply BitVec.eq_of_toNat_eq
  rw [fromBytes, toBytes, leValue_leDigits, radix_pow hw, BitVec.toNat_ofNat,
    Nat.mod_mod, Nat.mod_eq_of_lt x.isLt]

/-- **Round trip, bytes first.** -/
theorem toBytes_fromBytes {w : ℕ} (hw : 8 * (w / 8) = w) (l : List Byte)
    (hl : l.length = w / 8) : toBytes (fromBytes w l) = l := by
  have hlt : leValue l < 2 ^ w := by
    rw [← radix_pow hw, ← hl]
    exact leValue_lt l
  rw [toBytes, fromBytes, BitVec.toNat_ofNat, Nat.mod_eq_of_lt hlt, ← hl, leDigits_leValue]

/-! ## Words inside a memory -/

/-- The word of width `w` stored at offset `off`. -/
def field (w off : ℕ) (f : Memory) : BitVec w := fromBytes w (slice f off (w / 8))

/-- The memory with the word `x` stored at offset `off`. -/
def putField {w : ℕ} (off : ℕ) (x : BitVec w) (f : Memory) : Memory :=
  overlay f off (toBytes x)

/-- A word just stored is loaded back. -/
theorem field_putField_same {w : ℕ} (hw : 8 * (w / 8) = w) (off : ℕ) (x : BitVec w)
    (f : Memory) : field w off (putField off x f) = x := by
  have h := slice_overlay_same f off (toBytes x)
  rw [length_toBytes] at h
  rw [field, putField, h, fromBytes_toBytes hw]

/-- A store elsewhere leaves the word as it was. -/
theorem field_overlay_disjoint (w off : ℕ) (f : Memory) (pos : ℕ) (l : List Byte)
    (h : off + w / 8 ≤ pos ∨ pos + l.length ≤ off) :
    field w off (overlay f pos l) = field w off f := by
  rw [field, slice_overlay_disjoint _ _ _ _ _ h, field]

theorem field_putField_disjoint {w w' off off' : ℕ} (x : BitVec w') (f : Memory)
    (h : off + w / 8 ≤ off' ∨ off' + w' / 8 ≤ off) :
    field w off (putField off' x f) = field w off f :=
  field_overlay_disjoint w off f off' _ (by rw [length_toBytes]; exact h)

/-- Storing the bytes of a whole word gives the word they spell. -/
theorem field_overlay_same (w off : ℕ) (f : Memory) (l : List Byte) (hl : l.length = w / 8) :
    field w off (overlay f off l) = fromBytes w l := by
  rw [field, ← hl, slice_overlay_same]

/-- The bytes of a stored word are the bytes of the memory. -/
theorem toBytes_field {w : ℕ} (hw : 8 * (w / 8) = w) (off : ℕ) (f : Memory) :
    toBytes (field w off f) = slice f off (w / 8) := by
  rw [field, toBytes_fromBytes hw _ (length_slice _ _ _)]

end Bytes
