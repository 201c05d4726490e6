/-
# Packed structures in memory

`Stands mem off l` says that the bytes `l` stand in memory at offset `off`.  A structure whose
bytes are written one member after the other is read back member by member, and an array
element by element.  Nothing here mentions the program that uses it.
-/
import Mathlib.Data.List.OfFn
import Xv6Recorder.Bytes

namespace Bytes

/-- The bytes `l` stand at offset `off`. -/
def Stands (mem : Memory) (off : ℕ) (l : List Byte) : Prop := slice mem off l.length = l

instance (mem : Memory) (off : ℕ) (l : List Byte) : Decidable (Stands mem off l) :=
  inferInstanceAs (Decidable (_ = _))

variable {mem : Memory} {off : ℕ}

theorem stands_overlay (mem : Memory) (off : ℕ) (l : List Byte) :
    Stands (overlay mem off l) off l := slice_overlay_same mem off l

theorem stands_append {l₁ l₂ : List Byte} :
    Stands mem off (l₁ ++ l₂) ↔ Stands mem off l₁ ∧ Stands mem (off + l₁.length) l₂ := by
  unfold Stands
  rw [List.length_append, slice_add]
  constructor
  · intro h
    exact List.append_inj h (length_slice _ _ _)
  · rintro ⟨h₁, h₂⟩
    rw [h₁, h₂]

theorem Stands.byte {l : List Byte} (h : Stands mem off l) {i : ℕ} (hi : i < l.length) :
    mem (off + i) = l[i] := by
  have hat := getElem?_slice mem off l.length i hi
  rw [h, List.getElem?_eq_getElem hi] at hat
  exact (Option.some.inj hat).symm

/-- A byte, and what stands behind it. -/
theorem stands_cons {b : Byte} {l : List Byte} (h : Stands mem off (b :: l)) :
    mem off = b ∧ Stands mem (off + 1) l := by
  refine ⟨h.byte (Nat.succ_pos _), ?_⟩
  rw [← List.singleton_append, stands_append] at h
  exact h.2

theorem Stands.field {w : ℕ} (hw : 8 * (w / 8) = w) {x : BitVec w}
    (h : Stands mem off (toBytes x)) : field w off mem = x := by
  rw [Bytes.field, ← length_toBytes x, h]
  exact fromBytes_toBytes hw x

theorem Stands.ofFn {n : ℕ} {f : Fin n → Byte} (h : Stands mem off (List.ofFn f)) (i : Fin n) :
    mem (off + i) = f i := by
  have hi : i.val < (List.ofFn f).length := by
    rw [List.length_ofFn]
    exact i.isLt
  rw [h.byte hi, List.getElem_ofFn]

/-- An array of structures of one size. -/
theorem Stands.array {n w : ℕ} {f : Fin n → List Byte} (hw : ∀ i, (f i).length = w)
    (h : Stands mem off (List.ofFn f).flatten) (i : Fin n) : Stands mem (off + w * i) (f i) := by
  induction n generalizing off with
  | zero => exact i.elim0
  | succ n ih =>
    rw [List.ofFn_succ, List.flatten_cons, stands_append, hw] at h
    induction i using Fin.cases with
    | zero => exact h.1
    | succ i =>
      have hrest := ih (fun j => hw j.succ) h.2 i
      rwa [show off + w + w * i.val = off + w * i.succ.val by rw [Fin.val_succ]; ring] at hrest

theorem length_flatten_ofFn {n w : ℕ} {f : Fin n → List Byte} (hw : ∀ i, (f i).length = w) :
    (List.ofFn f).flatten.length = n * w := by
  induction n with
  | zero => rw [List.ofFn_zero, List.flatten_nil, List.length_nil, Nat.zero_mul]
  | succ n ih =>
    rw [List.ofFn_succ, List.flatten_cons, List.length_append, hw, ih fun j => hw j.succ]
    ring

end Bytes
