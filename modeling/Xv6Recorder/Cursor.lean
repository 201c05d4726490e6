/-
# Byte buffers with a cursor

Reusable infrastructure for encoders and decoders that move through a buffer of a
fixed capacity.  The two primitives are `emit`, which stores a list at the cursor, and
`grab`, which loads the next bytes; both stop with a given error when they would leave
the buffer.

`Emits x l a` says that a program stores exactly `l` and returns `a`, `Reads x l a`
that it returns `a` when the bytes at the cursor are `l`, and moves past them.  Each has
one rule per construct, so the encoding of a compound object is the concatenation of
the encodings of its parts.
-/
import Xv6Recorder.Bytes
import Xv6Recorder.StateError

open Bytes StateError

/-- A buffer and a position in it. -/
@[ext] structure Cursor where
  data : Memory
  pos : ℕ

namespace Cursor

/-- The buffer with `l` stored at the cursor, which moves past it. -/
def put (c : Cursor) (l : List Byte) : Cursor :=
  ⟨overlay c.data c.pos l, c.pos + l.length⟩

/-- The cursor moved on by `n` bytes. -/
def skip (c : Cursor) (n : ℕ) : Cursor := ⟨c.data, c.pos + n⟩

@[simp] theorem put_nil (c : Cursor) : c.put [] = c := by
  rw [put, overlay_nil, List.length_nil, Nat.add_zero]

theorem put_append (c : Cursor) (l₁ l₂ : List Byte) : c.put (l₁ ++ l₂) = (c.put l₁).put l₂ := by
  simp only [put, overlay_overlay_append, List.length_append, Nat.add_assoc]

theorem skip_add (c : Cursor) (n m : ℕ) : c.skip (n + m) = (c.skip n).skip m := by
  simp only [skip, Nat.add_assoc]

/-- The bytes `l` stand at the cursor. -/
def Sees (c : Cursor) (l : List Byte) : Prop := slice c.data c.pos l.length = l

theorem sees_append {c : Cursor} {l₁ l₂ : List Byte} :
    c.Sees (l₁ ++ l₂) ↔ c.Sees l₁ ∧ (c.skip l₁.length).Sees l₂ := by
  rw [Sees, List.length_append, slice_add]
  constructor
  · intro h
    exact List.append_inj h (length_slice _ _ _)
  · rintro ⟨h₁, h₂⟩
    rw [h₁, show slice c.data (c.pos + l₁.length) l₂.length = l₂ from h₂]

/-! ## The two primitives -/

variable {ε α β : Type} (cap : ℕ) (oob : ε)

/-- Store a list at the cursor. -/
def emit (l : List Byte) : EStateM ε Cursor Unit := fun c =>
  if c.pos + l.length ≤ cap then .ok () (c.put l) else .error oob c

/-- Load the next `n` bytes. -/
def grab (n : ℕ) : EStateM ε Cursor (List Byte) := fun c =>
  if c.pos + n ≤ cap then .ok (slice c.data c.pos n) (c.skip n) else .error oob c

/-- Inside the buffer, `x` stores exactly `l` and returns `a`. -/
def Emits (x : EStateM ε Cursor α) (l : List Byte) (a : α) : Prop :=
  ∀ c : Cursor, c.pos + l.length ≤ cap → x.run c = .ok a (c.put l)

/-- Inside the buffer, `x` reads `l` and returns `a`. -/
def Reads (x : EStateM ε Cursor α) (l : List Byte) (a : α) : Prop :=
  ∀ c : Cursor, c.pos + l.length ≤ cap → c.Sees l → x.run c = .ok a (c.skip l.length)

variable {cap} {oob}

theorem emits_emit (l : List Byte) : Emits cap (emit cap oob l) l () :=
  fun _ hfit => if_pos hfit

theorem Emits.of_eq {x : EStateM ε Cursor α} {l l' : List Byte} {a : α} (h : Emits cap x l a)
    (hl : l = l') : Emits cap x l' a := hl ▸ h

theorem Emits.pure (a : α) : Emits cap (Pure.pure a : EStateM ε Cursor α) [] a := by
  intro c _
  rw [put_nil]
  rfl

theorem Emits.bind {x : EStateM ε Cursor α} {f : α → EStateM ε Cursor β} {l₁ l₂ : List Byte}
    {a : α} {b : β} (hx : Emits cap x l₁ a) (hf : Emits cap (f a) l₂ b) :
    Emits cap (x >>= f) (l₁ ++ l₂) b := by
  intro c hfit
  rw [List.length_append] at hfit
  rw [run_bind_of_ok (hx c (by omega)), put_append]
  exact hf (c.put l₁) (by simp only [put]; omega)

theorem reads_grab (l : List Byte) : Reads cap (grab cap oob l.length) l l := by
  intro c hfit hsees
  rw [EStateM.run, grab, if_pos hfit, show slice c.data c.pos l.length = l from hsees]

theorem Reads.of_eq {x : EStateM ε Cursor α} {l l' : List Byte} {a : α} (h : Reads cap x l a)
    (hl : l = l') : Reads cap x l' a := hl ▸ h

theorem Reads.pure (a : α) : Reads cap (Pure.pure a : EStateM ε Cursor α) [] a :=
  fun _ _ _ => rfl

theorem Reads.bind {x : EStateM ε Cursor α} {f : α → EStateM ε Cursor β} {l₁ l₂ : List Byte}
    {a : α} {b : β} (hx : Reads cap x l₁ a) (hf : Reads cap (f a) l₂ b) :
    Reads cap (x >>= f) (l₁ ++ l₂) b := by
  intro c hfit hsees
  rw [List.length_append] at hfit
  obtain ⟨h₁, h₂⟩ := sees_append.mp hsees
  rw [run_bind_of_ok (hx c (by omega) h₁), List.length_append, skip_add]
  exact hf (c.skip l₁.length) (by simp only [skip]; omega) h₂

end Cursor
