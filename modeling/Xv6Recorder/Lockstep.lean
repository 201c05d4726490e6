/-
# Runs that follow a script

A partial step function takes inputs one after the other, and at each position a
condition decides whether the input is the expected one.  If, along an invariant, the step
is defined exactly for expected inputs, then a run gets as far as the inputs are as
expected: `isSome_iff` for whole runs, `first_unexpected` for where they end.  Nothing
here mentions the program that uses it.
-/
import Mathlib.Data.List.Basic

namespace Lockstep

variable {S X : Type}

/-- Along the invariant `Inv`, the step from position `i` is defined for the inputs that are
expected there, and leads to the next position; for others it is not defined.  Only inputs
with `Ok` are considered. -/
structure Follows (step : S → X → Option S) (Ok : X → Prop) (Inv : ℕ → S → Prop)
    (Expected : ℕ → X → Prop) : Prop where
  go : ∀ {i s x}, Inv i s → Ok x → Expected i x → ∃ s', step s x = some s' ∧ Inv (i + 1) s'
  stop : ∀ {i s x}, Inv i s → Ok x → ¬ Expected i x → step s x = none

/-- The input at a position is expected there. -/
def ExpectedAt (Expected : ℕ → X → Prop) (xs : List X) (i : ℕ) : Prop :=
  ∃ x, xs[i]? = some x ∧ Expected i x

/-- The first input that is not expected. -/
structure FirstUnexpected (Expected : ℕ → X → Prop) (xs : List X) (i : ℕ) (x : X) : Prop where
  at_pos : xs[i]? = some x
  before : ∀ j < i, ExpectedAt Expected xs j
  here : ¬ Expected i x

variable {step : S → X → Option S} {Ok : X → Prop} {Inv : ℕ → S → Prop}
  {Expected : ℕ → X → Prop} {xs : List X} {s : S}

/-- One more input, after a run over those before it. -/
theorem foldlM_take_succ {i : ℕ} {x : X} {s' : S} (hat : xs[i]? = some x)
    (hpast : (xs.take i).foldlM step s = some s') :
    (xs.take (i + 1)).foldlM step s = step s' x := by
  rw [List.take_add_one, hat, Option.toList_some, List.foldlM_append, hpast]
  show (List.foldlM step s' [x]) = step s' x
  rw [List.foldlM_cons]
  cases step s' x <;> rfl

/-- What comes before a run that ends, ends. -/
theorem isSome_foldlM_take {i j : ℕ} (hij : i ≤ j) (h : ((xs.take j).foldlM step s).isSome) :
    ((xs.take i).foldlM step s).isSome := by
  obtain ⟨k, rfl⟩ := Nat.exists_eq_add_of_le hij
  rw [List.take_add, List.foldlM_append] at h
  exact Option.isSome_of_isSome_bind h

section

variable (h : Follows step Ok Inv Expected) (hok : ∀ x ∈ xs, Ok x) (hinv : Inv 0 s)
include h hok hinv

/-- **Expected inputs are taken**, and the invariant moves along. -/
theorem Follows.runs {i : ℕ} (hexp : ∀ j < i, ExpectedAt Expected xs j) :
    ∃ s', (xs.take i).foldlM step s = some s' ∧ Inv i s' := by
  induction i with
  | zero => exact ⟨s, rfl, hinv⟩
  | succ i ih =>
    obtain ⟨s', hpast, hinv'⟩ := ih fun j hj => hexp j (by omega)
    obtain ⟨x, hat, hx⟩ := hexp i (by omega)
    obtain ⟨s'', hstep, hinv''⟩ := h.go hinv' (hok x (List.mem_of_getElem? hat)) hx
    exact ⟨s'', (foldlM_take_succ hat hpast).trans hstep, hinv''⟩

/-- **At the first input that is not expected** the step is not defined. -/
theorem Follows.first_unexpected {i : ℕ} {x : X} (hfirst : FirstUnexpected Expected xs i x) :
    ∃ s', (xs.take i).foldlM step s = some s' ∧ Inv i s' ∧ step s' x = none := by
  obtain ⟨s', hpast, hinv'⟩ := h.runs hok hinv hfirst.before
  exact ⟨s', hpast, hinv', h.stop hinv' (hok x (List.mem_of_getElem? hfirst.at_pos)) hfirst.here⟩

/-- **A run gets as far as the inputs are expected.** -/
theorem Follows.isSome_iff {i : ℕ} (hi : i < xs.length) :
    ((xs.take (i + 1)).foldlM step s).isSome ↔ ∀ j ≤ i, ExpectedAt Expected xs j := by
  constructor
  · intro hsome j
    -- the first position at which the input is not expected would have stopped the run
    induction j using Nat.strongRecOn with
    | _ j ih =>
      intro hj
      have hat : xs[j]? = some xs[j] := List.getElem?_eq_getElem (by omega)
      refine ⟨xs[j], hat, ?_⟩
      by_contra hhere
      obtain ⟨s', hpast, -, hstop⟩ := h.first_unexpected hok hinv
        ⟨hat, fun j' hj' => ih j' hj' (by omega), hhere⟩
      have hsome' := isSome_foldlM_take (show j + 1 ≤ i + 1 by omega) hsome
      rw [foldlM_take_succ hat hpast, hstop] at hsome'
      cases hsome'
  · intro hexp
    obtain ⟨s', hpast, -⟩ := h.runs hok hinv fun j (hj : j < i + 1) => hexp j (by omega)
    rw [hpast]
    rfl

end

end Lockstep
