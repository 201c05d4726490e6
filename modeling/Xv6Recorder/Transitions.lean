/-
# Paths of a labelled transition system

Paths as lists of events with the states they lead to, cut at any step, and the induction
rule for properties of the state that depend on what has happened before.  Nothing here
mentions the program that uses it.
-/
import Mathlib.Data.List.Induction

namespace Transitions

variable {S E : Type}

/-- A path from `s`. -/
inductive Path (Step : S → E → S → Prop) : S → List (E × S) → Prop
  | nil {s : S} : Path Step s []
  | cons {s s' : S} {e : E} {path : List (E × S)} (hstep : Step s e s')
      (hrest : Path Step s' path) : Path Step s ((e, s') :: path)

/-- The state in which a path ends. -/
def last (s : S) : List (E × S) → S
  | [] => s
  | (_, s') :: path => last s' path

theorem last_append_cons (s : S) (before : List (E × S)) (e : E) (s' : S) (after : List (E × S)) :
    last s (before ++ (e, s') :: after) = last s' after := by
  induction before generalizing s with
  | nil => rfl
  | cons t before ih => exact ih t.2

theorem last_concat (s : S) (path : List (E × S)) (e : E) (s' : S) :
    last s (path ++ [(e, s')]) = s' := last_append_cons s path e s' []

/-- What holds of every step of a path, step by step. -/
theorem forall_step_cons {Q : S → E → S → Prop} {s s₁ : S} {e₁ : E} {path : List (E × S)}
    (hfirst : Q s e₁ s₁)
    (hrest : ∀ before e s' after, path = before ++ (e, s') :: after → Q (last s₁ before) e s') :
    ∀ before e s' after, (e₁, s₁) :: path = before ++ (e, s') :: after →
      Q (last s before) e s' := by
  intro before e s' after hpath
  cases before with
  | nil =>
    cases hpath
    exact hfirst
  | cons t before =>
    obtain ⟨rfl, htail⟩ := List.cons.inj hpath
    exact hrest before e s' after htail

theorem forall_step_nil {Q : S → E → S → Prop} {s : S} :
    ∀ before e s' after, ([] : List (E × S)) = before ++ (e, s') :: after →
      Q (last s before) e s' := by
  intro before e s' after hpath
  cases before with
  | nil => cases hpath
  | cons t before => cases hpath

variable {Step : S → E → S → Prop} {s : S} {path : List (E × S)}

variable {before after : List (E × S)}

/-- The first part of a path is a path. -/
theorem Path.of_append (h : Path Step s (before ++ after)) : Path Step s before := by
  induction before generalizing s with
  | nil => exact .nil
  | cons t before ih =>
    cases h with
    | cons hstep hrest => exact .cons hstep (ih hrest)

/-- Any step of a path is a step. -/
theorem Path.step {e : E} {s' : S} (h : Path Step s (before ++ (e, s') :: after)) :
    Step (last s before) e s' := by
  induction before generalizing s with
  | nil =>
    cases h with
    | cons hstep _ => exact hstep
  | cons t before ih =>
    cases h with
    | cons _ hrest => exact ih hrest

/-- **Induction along a path.**  What holds at the start, and after a step of the path when it
holds before it, holds at every point of the path. -/
theorem Path.invariant {I : List (E × S) → S → Prop} (h : Path Step s path) (hnil : I [] s)
    (hstep : ∀ before e s' after, path = before ++ (e, s') :: after →
      Step (last s before) e s' → I before (last s before) → I (before ++ [(e, s')]) s') :
    ∀ before after, path = before ++ after → I before (last s before) := by
  intro before
  induction before using List.reverseRecOn with
  | nil => exact fun _ _ => hnil
  | append_singleton before t ih =>
    obtain ⟨e, s'⟩ := t
    intro after hpath
    rw [List.append_assoc, List.singleton_append] at hpath
    rw [last_concat]
    exact hstep before e s' after hpath (Path.step (hpath ▸ h)) (ih _ hpath)

/-- The rest of a path is a path from where its first part ends. -/
theorem Path.of_append_right (h : Path Step s (before ++ after)) :
    Path Step (last s before) after := by
  induction before generalizing s with
  | nil => exact h
  | cons t before ih =>
    cases h with
    | cons _ hrest => exact ih hrest

theorem last_append (s : S) (before after : List (E × S)) :
    last s (before ++ after) = last (last s before) after := by
  induction before generalizing s with
  | nil => rfl
  | cons t before ih => exact ih t.2

/-- A path that goes on. -/
theorem Path.append (h : Path Step s before) (h' : Path Step (last s before) after) :
    Path Step s (before ++ after) := by
  induction before generalizing s with
  | nil => exact h'
  | cons t before ih =>
    cases h with
    | cons hstep hrest => exact .cons hstep (ih hrest h')

/-- **Forward simulation.**  If every step of one system is matched by a step of another with
the same event, then so is every path, point by point. -/
theorem Path.simulation {T : Type} {Step' : T → E → T → Prop} {R : S → T → Prop}
    (hsim : ∀ s t e s', R s t → Step s e s' → ∃ t', Step' t e t' ∧ R s' t') {t : T}
    (h : Path Step s path) (hR : R s t) :
    ∃ path', Path Step' t path' ∧ path'.map Prod.fst = path.map Prod.fst ∧
      R (last s path) (last t path') ∧
      ∀ before after, path = before ++ after → ∃ before' after', path' = before' ++ after' ∧
        before'.map Prod.fst = before.map Prod.fst ∧ R (last s before) (last t before') := by
  induction h generalizing t with
  | nil =>
    refine ⟨[], .nil, rfl, hR, fun before after hsplit => ⟨[], [], rfl, ?_⟩⟩
    rw [(List.append_eq_nil_iff.mp hsplit.symm).1]
    exact ⟨rfl, hR⟩
  | @cons s s' e path hstep _ ih =>
    obtain ⟨t', hstep', hR'⟩ := hsim s t e s' hR hstep
    obtain ⟨path', hpath', hevents, hlast, hpoints⟩ := ih hR'
    refine ⟨(e, t') :: path', .cons hstep' hpath', ?_, hlast, fun before after hsplit => ?_⟩
    · rw [List.map_cons, List.map_cons, hevents]
    · cases before with
      | nil => exact ⟨[], (e, t') :: path', rfl, rfl, hR⟩
      | cons p before =>
        rw [List.cons_append, List.cons.injEq] at hsplit
        obtain ⟨rfl, hsplit⟩ := hsplit
        obtain ⟨before', after', hsplit', hevents', hpoint⟩ := hpoints before after hsplit
        refine ⟨(e, t') :: before', after', by rw [hsplit', List.cons_append], ?_, hpoint⟩
        rw [List.map_cons, List.map_cons, hevents']

/-- **Refinement mapping.**  If a function takes the steps of one system, from states with an
invariant, to steps of another, it takes its paths to paths. -/
theorem Path.map {T : Type} {Step' : T → E → T → Prop} {I : S → Prop} {f : S → T}
    (hinv : ∀ s e s', I s → Step s e s' → I s')
    (hmap : ∀ s e s', I s → Step s e s' → Step' (f s) e (f s')) (h : Path Step s path) (hI : I s) :
    Path Step' (f s) (path.map fun t => (t.1, f t.2)) := by
  induction h with
  | nil => exact .nil
  | cons hstep _ ih => exact .cons (hmap _ _ _ hI hstep) (ih (hinv _ _ _ hI hstep))

/-- An invariant of the states alone. -/
theorem Path.invariant_last {I : S → Prop} (h : Path Step s path)
    (hinv : ∀ s e s', I s → Step s e s' → I s') (hI : I s) : I (last s path) := by
  induction h with
  | nil => exact hI
  | cons hstep _ ih => exact ih (hinv _ _ _ hI hstep)

end Transitions
