/-
# Counting the users of a resource

A finite number of users, each of which uses at most one resource at a time.  The number of
users of a resource follows the changes of single users.  Nothing here mentions the program
that uses it.
-/
import Mathlib.Algebra.BigOperators.Ring.Finset

namespace Counting

variable {U B : Type} [Fintype U] [DecidableEq U]

/-- **A sum in which one term changes.** -/
theorem sum_update {α M : Type} [AddCommMonoid M] (g : α → M) (f : U → α) (u : U) (a : α) :
    ∑ v, g (Function.update f u a v) + g (f u) = ∑ v, g (f v) + g a := by
  rw [← Finset.add_sum_erase _ _ (Finset.mem_univ u),
    ← Finset.add_sum_erase _ (fun v => g (f v)) (Finset.mem_univ u)]
  have hothers : ∑ v ∈ Finset.univ.erase u, g (Function.update f u a v) =
      ∑ v ∈ Finset.univ.erase u, g (f v) := by
    apply Finset.sum_congr rfl
    intro v hv
    rw [Function.update_of_ne (Finset.ne_of_mem_erase hv)]
  rw [hothers, Function.update_self, add_right_comm, add_comm (g a), add_right_comm]

variable [DecidableEq B]

/-- The number of users of a resource. -/
def count (uses : U → Option B) (b : B) : ℕ := (Finset.univ.filter fun u => uses u = some b).card

/-- **One user changes** to another resource, or to none. -/
theorem count_update (uses : U → Option B) (u : U) (o : Option B) (b : B) :
    count (Function.update uses u o) b + (if uses u = some b then 1 else 0)
      = count uses b + if o = some b then 1 else 0 := by
  unfold count
  rw [Finset.card_filter, Finset.card_filter]
  exact sum_update (fun o : Option B => if o = some b then 1 else 0) uses u o

omit [DecidableEq U] in
theorem count_pos {uses : U → Option B} {u : U} {b : B} (h : uses u = some b) :
    0 < count uses b := by
  apply Finset.card_pos.mpr
  exact ⟨u, Finset.mem_filter.mpr ⟨Finset.mem_univ u, h⟩⟩

omit [DecidableEq U] in
theorem count_none (b : B) : count (fun _ : U => (none : Option B)) b = 0 := by
  unfold count
  rw [Finset.card_eq_zero, Finset.filter_eq_empty_iff]
  intro u _ h
  cases h

end Counting
