/-
# Programs with state and errors

A small toolkit for `EStateM` programs that keep their state when they stop with
an error: inversion of a sequence that returned, `zoom`, which runs a program
written for one component of the state on the whole state, and `Keeps R`, which says
that a program only ever moves along a preorder `R`, with one rule per construct.
`Moves R E` tells the two ways to end apart.
-/
import Mathlib.Logic.Basic
import Mathlib.Order.Defs.Unbundled

namespace StateError

variable {ε ε' σ τ α β : Type}

variable {x : EStateM ε σ α} {R : σ → σ → Prop} {f : α → EStateM ε σ β} {s s' : σ}

/-- A sequence returns exactly when both halves do. -/
theorem run_bind_eq_ok {s s'' : σ} {b : β} :
    (x >>= f).run s = .ok b s'' ↔ ∃ a s', x.run s = .ok a s' ∧ (f a).run s' = .ok b s'' := by
  rw [EStateM.run_bind]
  cases h : x.run s with
  | ok a s' =>
    constructor
    · intro hf
      exact ⟨a, s', rfl, hf⟩
    · rintro ⟨a', t, heq, hf⟩
      injection heq with ha ht
      subst ha ht
      exact hf
  | error e s' => simp

/-- Running the first half of a sequence. -/
theorem run_bind_of_ok {a : α} (h : x.run s = .ok a s') : (x >>= f).run s = (f a).run s' := by
  rw [EStateM.run_bind, h]

/-- A sequence whose first half stops, stops. -/
theorem run_bind_of_error {e : ε} (h : x.run s = .error e s') : (x >>= f).run s = .error e s' := by
  rw [EStateM.run_bind, h]

/-- A program whose result is only translated. -/
theorem run_bind_pure_eq_ok {f : α → β} {b : β} :
    (x >>= fun a => pure (f a)).run s = .ok b s' ↔ ∃ a, x.run s = .ok a s' ∧ f a = b := by
  rw [run_bind_eq_ok]
  constructor
  · rintro ⟨a, s₁, hx, hpure⟩
    obtain ⟨hb, rfl⟩ := EStateM.Result.ok.inj hpure
    exact ⟨a, hx, hb⟩
  · rintro ⟨a, hx, rfl⟩
    exact ⟨a, s', hx, rfl⟩

/-- Sequences with the same first half run alike when their second halves do. -/
theorem run_bind_congr {f g : α → EStateM ε σ β} {s : σ}
    (h : ∀ a s', x.run s = .ok a s' → (f a).run s' = (g a).run s') :
    (x >>= f).run s = (x >>= g).run s := by
  cases hx : x.run s with
  | ok a s' =>
    rw [run_bind_of_ok hx, run_bind_of_ok hx]
    exact h a s' hx
  | error e s' => rw [run_bind_of_error hx, run_bind_of_error hx]

/-- The state in which a program ends, whether it returns or stops. -/
def endState : EStateM.Result ε σ α → σ
  | .ok _ s => s
  | .error _ s => s

@[simp] theorem endState_ok (a : α) (s : σ) :
    endState (.ok a s : EStateM.Result ε σ α) = s := rfl

@[simp] theorem endState_error (e : ε) (s : σ) :
    endState (.error e s : EStateM.Result ε σ α) = s := rfl

/-- What a run returns, if it succeeds. -/
def returned : EStateM.Result ε σ α → Option α
  | .ok a _ => some a
  | .error _ _ => none

theorem run_eq_ok_of_returned {s : σ} {a : α} (h : returned (x.run s) = some a) :
    x.run s = .ok a (endState (x.run s)) := by
  cases hx : x.run s with
  | ok b s' =>
    rw [hx] at h
    obtain rfl := Option.some.inj h
    rfl
  | error e s' =>
    rw [hx] at h
    cases h

/-! ## Running a program on a component -/

/-- Run `x` on the component `view s` of the state, put the result back with `put`
and translate errors with `err`. -/
def zoom (view : σ → τ) (put : τ → σ → σ) (err : ε → ε') (x : EStateM ε τ α) :
    EStateM ε' σ α := fun s =>
  match x.run (view s) with
  | .ok a t => .ok a (put t s)
  | .error e t => .error (err e) (put t s)

variable {view : σ → τ} {put : τ → σ → σ} {err : ε → ε'}

theorem run_zoom (x : EStateM ε τ α) (s : σ) :
    (zoom view put err x).run s =
      match x.run (view s) with
      | .ok a t => .ok a (put t s)
      | .error e t => .error (err e) (put t s) := rfl

/-- The component program returned. -/
theorem run_zoom_of_ok {x : EStateM ε τ α} {s : σ} {a : α} {t : τ}
    (h : x.run (view s) = .ok a t) :
    (zoom view put err x).run s = .ok a (put t s) := by
  rw [run_zoom, h]

/-- The component program stopped. -/
theorem run_zoom_of_error {x : EStateM ε τ α} {s : σ} {e : ε} {t : τ}
    (h : x.run (view s) = .error e t) :
    (zoom view put err x).run s = .error (err e) (put t s) := by
  rw [run_zoom, h]

/-- A zoomed program that returned ran its component program to the end. -/
theorem run_zoom_eq_ok {x : EStateM ε τ α} {a : α} :
    (zoom view put err x).run s = .ok a s' ↔
      ∃ t, x.run (view s) = .ok a t ∧ s' = put t s := by
  rw [run_zoom]
  cases h : x.run (view s) with
  | ok b t =>
    constructor
    · intro heq
      injection heq with ha hs
      subst ha
      exact ⟨t, rfl, hs.symm⟩
    · rintro ⟨t', heq, rfl⟩
      injection heq with ha ht
      subst ha ht
      rfl
  | error e t => simp

/-! ## Programs that move along a preorder -/

/-- However `x` ends, it ends in a state that is `R`-related to where it started. -/
def Keeps (R : σ → σ → Prop) (x : EStateM ε σ α) : Prop :=
  ∀ s, R s (endState (x.run s))

section

variable {R : σ → σ → Prop} [IsPreorder σ R]

theorem Keeps.pure (a : α) : Keeps R (Pure.pure a : EStateM ε σ α) := fun s => refl s

theorem Keeps.get : Keeps R (MonadState.get : EStateM ε σ σ) := fun s => refl s

theorem Keeps.throw (e : ε) : Keeps R (MonadExcept.throw e : EStateM ε σ α) := fun s => refl s

/-- A sequence from a state in which its first half moves along `R`. -/
theorem Keeps.bind_at {x : EStateM ε σ α} {f : α → EStateM ε σ β} {s : σ}
    (hx : R s (endState (x.run s))) (hf : ∀ a, Keeps R (f a)) :
    R s (endState ((x >>= f).run s)) := by
  cases h : x.run s with
  | ok a s' =>
    rw [h, endState_ok] at hx
    rw [run_bind_of_ok h]
    exact IsTrans.trans _ _ _ hx (hf a s')
  | error e s' =>
    rw [h, endState_error] at hx
    rw [run_bind_of_error h, endState_error]
    exact hx

theorem Keeps.bind {x : EStateM ε σ α} {f : α → EStateM ε σ β} (hx : Keeps R x)
    (hf : ∀ a, Keeps R (f a)) : Keeps R (x >>= f) := fun s => Keeps.bind_at (hx s) hf

end

theorem Keeps.modify {f : σ → σ} (h : ∀ s, R s (f s)) :
    Keeps R (modify f : EStateM ε σ PUnit) := h

theorem Keeps.ite {c : Prop} [Decidable c] {x y : EStateM ε σ α} (hx : Keeps R x) (hy : Keeps R y) :
    Keeps R (if c then x else y) := by
  split
  · exact hx
  · exact hy

/-- A zoomed program moves along `R` when its component program moves along `Q` and
`R` allows that move of the component. -/
theorem Keeps.zoom {Q : τ → τ → Prop} {x : EStateM ε τ α} (hx : Keeps Q x)
    (h : ∀ s t, Q (view s) t → R s (put t s)) : Keeps R (zoom view put err x) := by
  intro s
  have ht := hx (view s)
  rw [run_zoom]
  cases hrun : x.run (view s) with
  | ok a t =>
    rw [hrun] at ht
    exact h s t ht
  | error e t =>
    rw [hrun] at ht
    exact h s t ht

/-- What `Keeps` says of a run that returned. -/
theorem Keeps.of_ok (hx : Keeps R x) {a : α} (h : x.run s = .ok a s') : R s s' := by
  have hs := hx s
  rwa [h] at hs

/-! ## Programs that move one way when they return and another when they stop -/

/-- If `x` returns it has moved along `R`, and if it stops with an error, along `E`. -/
def Moves (R E : σ → σ → Prop) (x : EStateM ε σ α) : Prop :=
  ∀ s, match x.run s with
    | .ok _ s' => R s s'
    | .error _ s' => E s s'

section

variable {R E : σ → σ → Prop}

theorem Moves.pure [IsPreorder σ R] (a : α) : Moves R E (Pure.pure a : EStateM ε σ α) :=
  fun s => refl s

theorem Moves.get [IsPreorder σ R] : Moves R E (MonadState.get : EStateM ε σ σ) := fun s => refl s

theorem Moves.throw [IsPreorder σ E] (e : ε) : Moves R E (MonadExcept.throw e : EStateM ε σ α) :=
  fun s => refl s

variable {x : EStateM ε σ α}

/-- A sequence: what stops after a return has moved along `R` and then `E`. -/
theorem Moves.bind [IsPreorder σ R] [Trans R E E] {f : α → EStateM ε σ β} (hx : Moves R E x)
    (hf : ∀ a, Moves R E (f a)) : Moves R E (x >>= f) := by
  intro s
  have hs := hx s
  cases h : x.run s with
  | ok a s' =>
    rw [h] at hs
    rw [run_bind_of_ok h]
    have hs' := hf a s'
    cases h' : (f a).run s' with
    | ok b s'' =>
      rw [h'] at hs'
      exact IsTrans.trans _ _ _ hs hs'
    | error e s'' =>
      rw [h'] at hs'
      exact (Trans.trans (show R s s' from hs) (show E s' s'' from hs') : E s s'')
  | error e s' =>
    rw [h] at hs
    rw [run_bind_of_error h]
    exact hs

theorem Moves.modify {f : σ → σ} (h : ∀ s, R s (f s)) :
    Moves R E (modify f : EStateM ε σ PUnit) := h

theorem Moves.ite {c : Prop} [Decidable c] {x y : EStateM ε σ α}
    (hx : Moves R E x) (hy : Moves R E y) : Moves R E (if c then x else y) := by
  split
  · exact hx
  · exact hy

theorem Moves.zoom {Q F : τ → τ → Prop} {x : EStateM ε τ α}
    (hx : Moves Q F x) (hQ : ∀ s t, Q (view s) t → R s (put t s))
    (hF : ∀ s t, F (view s) t → E s (put t s)) : Moves R E (zoom view put err x) := by
  intro s
  have ht := hx (view s)
  rw [run_zoom]
  cases hrun : x.run (view s) with
  | ok a t =>
    rw [hrun] at ht
    exact hQ s t ht
  | error e t =>
    rw [hrun] at ht
    exact hF s t ht

/-- What `Moves` says of a run that returned. -/
theorem Moves.of_ok (hx : Moves R E x) {s s' : σ} {a : α} (h : x.run s = .ok a s') : R s s' := by
  have hs := hx s
  rwa [h] at hs

/-- A program that moves along `R` however it ends. -/
theorem Keeps.moves (hx : Keeps R x) : Moves R R x := by
  intro s
  have hs := hx s
  cases h : x.run s with
  | ok a s' =>
    rw [h] at hs
    exact hs
  | error e s' =>
    rw [h] at hs
    exact hs

/-- When `R` is finer than `E`, the program moves along `E` however it ends. -/
theorem Moves.keeps (hx : Moves R E x) (hRE : ∀ s s', R s s' → E s s') : Keeps E x := by
  intro s
  have hs := hx s
  cases h : x.run s with
  | ok a s' =>
    rw [h] at hs
    exact hRE _ _ hs
  | error e s' =>
    rw [h] at hs
    exact hs

end

/-! ## Pre- and postconditions -/

/-- If `x` starts in a state with `P` and returns, its value and its last state have
`Q`.  Nothing is said of a program that stops with an error. -/
def Ensures (P : σ → Prop) (x : EStateM ε σ α) (Q : α → σ → Prop) : Prop :=
  ∀ ⦃s a s'⦄, P s → x.run s = .ok a s' → Q a s'

section

variable {P : σ → Prop} {Q : α → σ → Prop}

theorem Ensures.pure {a : α} (h : ∀ s, P s → Q a s) :
    Ensures P (Pure.pure a : EStateM ε σ α) Q := by
  rintro s b s' hs hrun
  injection hrun with ha hs'
  rw [← ha, ← hs']
  exact h s hs

theorem Ensures.throw (e : ε) : Ensures P (MonadExcept.throw e : EStateM ε σ α) Q := by
  rintro s a s' - hrun
  cases hrun

theorem Ensures.modify {f : σ → σ} {Q : PUnit → σ → Prop} (h : ∀ s, P s → Q ⟨⟩ (f s)) :
    Ensures P (modify f : EStateM ε σ PUnit) Q := by
  rintro s a s' hs hrun
  injection hrun with ha hs'
  rw [← hs']
  exact h s hs

variable {x : EStateM ε σ α}

theorem Ensures.bind {f : α → EStateM ε σ β} {R : β → σ → Prop} (hx : Ensures P x Q)
    (hf : ∀ a, Ensures (Q a) (f a) R) : Ensures P (x >>= f) R := by
  rintro s b s'' hs hrun
  obtain ⟨a, s', hrun, hrest⟩ := run_bind_eq_ok.mp hrun
  exact hf a (hx hs hrun) hrest

/-- A rule for the first two steps of a program. -/
theorem Ensures.bind_bind {γ : Type} {y : α → EStateM ε σ β} {f : β → EStateM ε σ γ}
    {Q : β → σ → Prop} {R : γ → σ → Prop} (hxy : Ensures P (x >>= y) Q)
    (hf : ∀ b, Ensures (Q b) (f b) R) : Ensures P (x >>= fun a => y a >>= f) R := by
  rw [← bind_assoc]
  exact hxy.bind hf

/-- Reading the state first: the rest is run from the state that was read. -/
theorem Ensures.get_bind {f : σ → EStateM ε σ β} {R : β → σ → Prop}
    (hf : ∀ s, P s → Ensures (· = s) (f s) R) : Ensures P (MonadState.get >>= f) R := by
  rintro s b s'' hs hrun
  rw [EStateM.run_bind, EStateM.run_get] at hrun
  exact hf s hs rfl hrun

theorem Ensures.ite {c : Prop} [Decidable c] {x y : EStateM ε σ α}
    (hx : c → Ensures P x Q) (hy : ¬ c → Ensures P y Q) : Ensures P (if c then x else y) Q := by
  split
  case isTrue h => exact hx h
  case isFalse h => exact hy h

theorem Ensures.imp {R : σ → Prop} {S : α → σ → Prop} (h : Ensures R x S) (hP : ∀ s, P s → R s)
    (hQ : ∀ a s, S a s → Q a s) : Ensures P x Q :=
  fun _ _ _ hs hrun => hQ _ _ (h (hP _ hs) hrun)

theorem ensures_true (x : EStateM ε σ α) : Ensures P x (fun _ _ => True) :=
  fun _ _ _ _ _ => trivial

/-- A zoomed program, from what its component program ensures around any whole. -/
theorem Ensures.zoom {x : EStateM ε τ α}
    (h : ∀ s, P s → Ensures (· = view s) x (fun a t => Q a (put t s))) :
    Ensures P (zoom view put err x) Q := by
  rintro s a s' hs hrun
  obtain ⟨t, hcomponent, rfl⟩ := run_zoom_eq_ok.mp hrun
  exact h s hs rfl hcomponent

end

/-! ## Errors -/

/-- Whenever `x` stops with an error, it is one of `E`. -/
def Raises (E : ε → Prop) (x : EStateM ε σ α) : Prop :=
  ∀ ⦃s e s'⦄, x.run s = .error e s' → E e

section

variable {E : ε → Prop}

theorem Raises.pure (a : α) : Raises E (Pure.pure a : EStateM ε σ α) := by
  intro s e s' h
  cases h

theorem Raises.get : Raises E (MonadState.get : EStateM ε σ σ) := by
  intro s e s' h
  cases h

theorem Raises.modify (f : σ → σ) : Raises E (modify f : EStateM ε σ PUnit) := by
  intro s e s' h
  cases h

theorem Raises.bind {x : EStateM ε σ α} {f : α → EStateM ε σ β} (hx : Raises E x)
    (hf : ∀ a, Raises E (f a)) : Raises E (x >>= f) := by
  intro s e s' h
  cases hrun : x.run s with
  | ok a s₁ =>
    rw [run_bind_of_ok hrun] at h
    exact hf a h
  | error e₁ s₁ =>
    rw [run_bind_of_error hrun] at h
    injection h with he _
    rw [← he]
    exact hx hrun

theorem Raises.ite {c : Prop} [Decidable c] {x y : EStateM ε σ α} (hx : Raises E x)
    (hy : Raises E y) : Raises E (if c then x else y) := by
  split
  · exact hx
  · exact hy

end

/-- The errors of a zoomed program are translations of the component's. -/
theorem Raises.zoom {E : ε' → Prop} {x : EStateM ε τ α} (hx : Raises (fun e => E (err e)) x) :
    Raises E (zoom view put err x) := by
  intro s e s' h
  rw [run_zoom] at h
  cases hrun : x.run (view s) with
  | ok a t =>
    rw [hrun] at h
    cases h
  | error e₁ t =>
    rw [hrun] at h
    injection h with he _
    rw [← he]
    exact hx hrun

end StateError
