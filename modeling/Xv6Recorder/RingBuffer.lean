/-
# Ring buffers with counters that wrap around

A ring of `cap` places with two counters of `w` bits, one of the items added and one of
the items taken.  The counters are never reduced to the size of the ring; they wrap around
when they overflow.  As long as `cap` divides `2 ^ w` and is less, the ring behaves as a
queue of at most `cap` items, however many items pass through it.  Nothing here mentions
the program that uses it.
-/
import Mathlib.Data.Nat.Notation
import Mathlib.Data.List.Basic
import Mathlib.Data.Nat.ModEq
import Mathlib.Logic.Function.Basic

/-- The places, and how many items were taken and added, modulo `2 ^ w`. -/
structure RingBuffer (α : Type) (w : ℕ) where
  data : ℕ → α
  nread : BitVec w
  nwrite : BitVec w

namespace RingBuffer

variable {α : Type} {w : ℕ}

def Empty (r : RingBuffer α w) : Prop := r.nread = r.nwrite

instance (r : RingBuffer α w) : Decidable r.Empty := inferInstanceAs (Decidable (r.nread = r.nwrite))

/-- All `cap` places are in use. -/
def Full (cap : ℕ) (r : RingBuffer α w) : Prop := r.nwrite = r.nread + BitVec.ofNat w cap

instance (cap : ℕ) (r : RingBuffer α w) : Decidable (r.Full cap) :=
  inferInstanceAs (Decidable (r.nwrite = r.nread + BitVec.ofNat w cap))

def put (cap : ℕ) (x : α) (r : RingBuffer α w) : RingBuffer α w :=
  { r with data := Function.update r.data (r.nwrite.toNat % cap) x, nwrite := r.nwrite + 1 }

/-- The item that is taken next. -/
def next (cap : ℕ) (r : RingBuffer α w) : α := r.data (r.nread.toNat % cap)

def drop (r : RingBuffer α w) : RingBuffer α w := { r with nread := r.nread + 1 }

/-- The ring after `added` items have been added and the first ones, `taken`, were taken. -/
structure Holds (cap : ℕ) (taken added : List α) (r : RingBuffer α w) : Prop where
  nread : r.nread = BitVec.ofNat w taken.length
  nwrite : r.nwrite = BitVec.ofNat w added.length
  order : taken <+: added
  room : added.length ≤ taken.length + cap
  data : ∀ k x, taken.length ≤ k → added[k]? = some x → r.data (k % cap) = x

variable {cap : ℕ} {taken added : List α} {r : RingBuffer α w}

theorem Holds.init (f : ℕ → α) : Holds cap [] [] (⟨f, 0, 0⟩ : RingBuffer α w) :=
  ⟨rfl, rfl, List.prefix_rfl, Nat.zero_le _, fun _ _ _ h => by cases h⟩

/-- Two counts that differ by at most `cap` are told apart by their counters. -/
theorem ofNat_eq_iff {m n : ℕ} (hcap : cap < 2 ^ w) (hle : m ≤ n) (hroom : n ≤ m + cap) :
    BitVec.ofNat w m = BitVec.ofNat w n ↔ m = n := by
  constructor
  · intro h
    have hmod : m % 2 ^ w = n % 2 ^ w := by
      have := congrArg BitVec.toNat h
      rwa [BitVec.toNat_ofNat, BitVec.toNat_ofNat] at this
    have hdvd : 2 ^ w ∣ n - m := (Nat.modEq_iff_dvd' hle).mp hmod
    by_contra hne
    have := Nat.le_of_dvd (by omega) hdvd
    omega
  · rintro rfl
    rfl

theorem Holds.empty_iff (hcap : cap < 2 ^ w) (h : Holds cap taken added r) :
    r.Empty ↔ taken = added := by
  unfold Empty
  rw [h.nread, h.nwrite, ofNat_eq_iff hcap h.order.length_le h.room]
  constructor
  · exact h.order.eq_of_length
  · rintro rfl
    rfl

theorem Holds.full_iff (hcap : cap < 2 ^ w) (h : Holds cap taken added r) :
    r.Full cap ↔ added.length = taken.length + cap := by
  unfold Full
  have hadd : BitVec.ofNat w taken.length + BitVec.ofNat w cap
      = BitVec.ofNat w (taken.length + cap) := (BitVec.ofNat_add _ _).symm
  have hle := h.order.length_le
  rw [h.nread, h.nwrite, hadd, ofNat_eq_iff hcap h.room (by omega)]

/-- The place of an item does not depend on whether the counters have wrapped around. -/
theorem toNat_mod (hdvd : cap ∣ 2 ^ w) (n : ℕ) : (BitVec.ofNat w n).toNat % cap = n % cap := by
  rw [BitVec.toNat_ofNat, Nat.mod_mod_of_dvd n hdvd]

/-- **Adding an item**, when there is room. -/
theorem Holds.put (hdvd : cap ∣ 2 ^ w) (h : Holds cap taken added r)
    (hroom : added.length < taken.length + cap) (x : α) :
    Holds cap taken (added ++ [x]) (r.put cap x) := by
  have hle := h.order.length_le
  refine ⟨h.nread, ?_, h.order.trans (List.prefix_append _ _), ?_, fun k y hk hy => ?_⟩
  · show r.nwrite + 1 = _
    rw [h.nwrite, List.length_append, List.length_singleton, BitVec.ofNat_add]
    rfl
  · rw [List.length_append, List.length_singleton]
    omega
  · show Function.update r.data (r.nwrite.toNat % cap) x (k % cap) = y
    rw [h.nwrite, toNat_mod hdvd]
    by_cases hlast : k = added.length
    · subst hlast
      rw [Function.update_self]
      rw [List.getElem?_concat_length] at hy
      exact Option.some.inj hy
    · -- an item that is still in the ring has another place
      have hlt : k < added.length := by
        have := (List.getElem?_eq_some_iff.mp hy).1
        rw [List.length_append, List.length_singleton] at this
        omega
      have hplace : k % cap ≠ added.length % cap := by
        intro hmod
        have hdiff : cap ∣ added.length - k := (Nat.modEq_iff_dvd' (by omega)).mp hmod
        have := Nat.le_of_dvd (by omega) hdiff
        omega
      rw [Function.update_of_ne hplace]
      rw [List.getElem?_append_left hlt] at hy
      exact h.data k y hk hy

/-- **Taking an item**, when there is one: it is the first of those that are left. -/
theorem Holds.drop (hdvd : cap ∣ 2 ^ w) (h : Holds cap taken added r)
    (hsome : taken.length < added.length) :
    Holds cap (taken ++ [r.next cap]) added r.drop := by
  have hnext : added[taken.length]? = some (r.next cap) := by
    have hget := List.getElem?_eq_getElem hsome
    rw [hget]
    have hdata := h.data taken.length _ (Nat.le_refl _) hget
    unfold RingBuffer.next
    rw [h.nread, toNat_mod hdvd, hdata]
  refine ⟨?_, h.nwrite, ?_, ?_, fun k x hk hx => ?_⟩
  · show r.nread + 1 = _
    rw [h.nread, List.length_append, List.length_singleton, BitVec.ofNat_add]
    rfl
  · obtain ⟨rest, rfl⟩ := h.order
    rw [List.getElem?_append_right (Nat.le_refl _), Nat.sub_self] at hnext
    cases rest with
    | nil => cases hnext
    | cons y rest =>
      rw [← Option.some.inj hnext]
      exact ⟨rest, by rw [List.append_assoc]; rfl⟩
  · have := h.room
    rw [List.length_append, List.length_singleton]
    omega
  · rw [List.length_append, List.length_singleton] at hk
    exact h.data k x (by omega) hx

end RingBuffer
