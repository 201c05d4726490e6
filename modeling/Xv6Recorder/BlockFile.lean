/-
# Files made of blocks

Two general ingredients of file systems that keep a file in blocks of one size.  A
sequence of blocks is one memory, and loads and stores that stay inside one block are
loads and stores of that memory.  And the pointers to blocks own what they point to:
no two of them point to one block, and what they point to is marked as used, so a block
that is not marked can be handed to a pointer that has none.
-/
import Mathlib.Logic.Function.Basic
import Xv6Recorder.Bytes

open Bytes

namespace BlockFile

/-! ## One memory out of blocks -/

section

variable {bs : ℕ} {blk : ℕ → Memory} {off m : ℕ}

/-- The blocks of `bs` bytes each, one after the other. -/
def flat (bs : ℕ) (blk : ℕ → Memory) : Memory := fun i => blk (i / bs) (i % bs)

/-- How far a transfer of `n` bytes from `off` on stays inside one block. -/
def piece (bs off n : ℕ) : ℕ := min n (bs - off % bs)

theorem piece_le (bs off n : ℕ) : piece bs off n ≤ n := min_le_left _ _

theorem piece_pos (hbs : 0 < bs) {n : ℕ} (hn : 0 < n) : 0 < piece bs off n := by
  have := Nat.mod_lt off hbs
  rw [piece]
  omega

theorem mod_add_piece_le (hbs : 0 < bs) (n : ℕ) : off % bs + piece bs off n ≤ bs := by
  have := Nat.mod_lt off hbs
  rw [piece]
  omega

/-- Inside a block, consecutive bytes of the memory are consecutive bytes of the block. -/
theorem div_mod_add (hbs : 0 < bs) {k : ℕ} (hk : off % bs + k < bs) :
    (off + k) / bs = off / bs ∧ (off + k) % bs = off % bs + k := by
  have hsplit : off + k = off % bs + k + bs * (off / bs) := by
    have := Nat.mod_add_div off bs
    omega
  rw [hsplit, Nat.add_mul_div_left _ _ hbs, Nat.add_mul_mod_self_left, Nat.div_eq_of_lt hk,
    Nat.mod_eq_of_lt hk]
  exact ⟨Nat.zero_add _, rfl⟩

/-- Loading inside a block. -/
theorem slice_flat (hbs : 0 < bs) (hm : off % bs + m ≤ bs) :
    slice (flat bs blk) off m = slice (blk (off / bs)) (off % bs) m := by
  apply List.map_congr_left
  intro k hk
  have hlt : off % bs + k < bs := by
    have := List.mem_range.mp hk
    omega
  obtain ⟨hdiv, hmod⟩ := div_mod_add hbs hlt
  rw [flat, hdiv, hmod]

/-- Storing inside a block. -/
theorem flat_update (hbs : 0 < bs) {l : List Byte} (hl : off % bs + l.length ≤ bs) :
    flat bs (Function.update blk (off / bs) (overlay (blk (off / bs)) (off % bs) l))
      = overlay (flat bs blk) off l := by
  funext i
  have hi := Nat.mod_add_div i bs
  have hoff := Nat.mod_add_div off bs
  have hlt := Nat.mod_lt i hbs
  by_cases hblock : i / bs = off / bs
  · -- both memories are looked up in the block that is stored to
    rw [flat, hblock, Function.update_self, overlay, overlay, flat, hblock]
    rw [hblock] at hi
    have hsub : i - off = i % bs - off % bs := by omega
    by_cases hin : off % bs ≤ i % bs ∧ i % bs < off % bs + l.length
    · rw [if_pos hin, if_pos (by omega), hsub]
    · rw [if_neg hin, if_neg (by omega)]
  · rw [flat, Function.update_of_ne hblock, overlay_apply_outside _ _ _ _ ?_, flat]
    -- the store ends with its block
    rcases Nat.lt_or_gt_of_ne hblock with hlt' | hgt
    · have := Nat.mul_le_mul_left bs (show i / bs + 1 ≤ off / bs by omega)
      rw [Nat.mul_add, Nat.mul_one] at this
      omega
    · have := Nat.mul_le_mul_left bs (show off / bs + 1 ≤ i / bs by omega)
      rw [Nat.mul_add, Nat.mul_one] at this
      omega

/-- A memory is determined, up to a bound, by its blocks that begin below the bound. -/
theorem flat_congr {blk' : ℕ → Memory} {n i : ℕ} (hi : i < n)
    (h : ∀ j, j * bs < n → blk' j = blk j) : flat bs blk' i = flat bs blk i := by
  have hle : i / bs * bs ≤ i := Nat.div_mul_le_self i bs
  rw [flat, flat, h (i / bs) (by omega)]

end

/-! ## Ownership -/

section

variable {L : Type} [DecidableEq L] {ptr : L → ℕ} {used : ℕ → Prop}

/-- The pointers, of which `0` is none, own the blocks they point to. -/
structure Owns (ptr : L → ℕ) (used : ℕ → Prop) : Prop where
  inj : ∀ {l l' : L}, ptr l ≠ 0 → ptr l = ptr l' → l = l'
  used : ∀ {l : L}, ptr l ≠ 0 → used (ptr l)

omit [DecidableEq L] in
theorem Owns.ne_of_not_used (h : Owns ptr used) {b : ℕ} (hb : ¬ used b) {l : L}
    (hl : ptr l ≠ 0) : ptr l ≠ b := by
  rintro rfl
  exact hb (h.used hl)

/-- A pointer takes a block that nobody uses. -/
theorem Owns.take (h : Owns ptr used) (l : L) {b : ℕ} (hb : ¬ used b) {used' : ℕ → Prop}
    (hused : ∀ x, used x → used' x) (hb' : used' b) :
    Owns (Function.update ptr l b) used' where
  inj := by
    intro i j hi hij
    rw [Function.update_apply] at hi
    rw [Function.update_apply, Function.update_apply] at hij
    split at hij
    case isTrue heq =>
      split at hij
      case isTrue heq' => rw [heq, heq']
      case isFalse =>
        -- another pointer to the new block
        by_cases hzero : ptr j = 0
        · rw [if_pos heq, hij] at hi
          exact absurd hzero hi
        · exact absurd hij.symm (h.ne_of_not_used hb hzero)
    case isFalse heq =>
      rw [if_neg heq] at hi
      split at hij
      case isTrue => exact absurd hij (h.ne_of_not_used hb hi)
      case isFalse => exact h.inj hi hij
  used := by
    intro i hi
    rw [Function.update_apply] at hi ⊢
    split
    case isTrue => exact hb'
    case isFalse heq =>
      rw [if_neg heq] at hi
      exact hused _ (h.used hi)

end

end BlockFile
