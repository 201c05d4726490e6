/-
# Programs that can be cut off, and redo logs

A program works on a volatile state and makes changes to a durable one.  When the power
fails, the durable state is what the last change left.  `Prog` records, besides how a
program ends, the durable states it goes through; `Runs P x Q C` says that from `P` the
program returns with `Q`, and that wherever it is cut off the durable state has `C`.

A redo log is a list of addresses with the values that are meant for them.  Installing it
again, after any part of it has been installed, gives what installing it once gives.
Nothing here mentions the program that uses it.
-/
import Mathlib.Data.Nat.Notation
import Mathlib.Logic.Function.Basic

namespace Crash

variable {ε δ σ α β : Type}

/-- The durable states that a program goes through, one after each of its changes, and
how it ends. -/
def Prog (ε δ σ α : Type) : Type := σ → List δ × EStateM.Result ε σ α

instance : Monad (Prog ε δ σ) where
  pure a := fun s => ([], .ok a s)
  bind x f := fun s =>
    match x s with
    | (ds, .ok a s') => (ds ++ (f a s').1, (f a s').2)
    | (ds, .error e s') => (ds, .error e s')

/-- The volatile state. -/
def get : Prog ε δ σ σ := fun s => ([], .ok s s)

/-- A change that the power failure undoes. -/
def modify (f : σ → σ) : Prog ε δ σ Unit := fun s => ([], .ok () (f s))

def throw (e : ε) : Prog ε δ σ α := fun s => ([], .error e s)

/-- A change of the durable part `view` of the state, which happens as a whole. -/
def persist (view : σ → δ) (f : σ → σ) : Prog ε δ σ Unit := fun s =>
  ([view (f s)], .ok () (f s))

/-- `body i`, `body (i + 1)`, and so on, `count` times. -/
def loop (body : ℕ → Prog ε δ σ Unit) : (count i : ℕ) → Prog ε δ σ Unit
  | 0, _ => pure ()
  | count + 1, i => do
    body i
    loop body count (i + 1)

/-! ## Running the parts that change nothing durable -/

theorem get_bind_apply (f : σ → Prog ε δ σ β) (s : σ) : (Crash.get >>= f) s = f s s := rfl

theorem modify_bind_apply (g : σ → σ) (f : Unit → Prog ε δ σ β) (s : σ) :
    (Crash.modify g >>= f) s = f () (g s) := rfl

theorem ite_apply (c : Prop) [Decidable c] (x y : Prog ε δ σ α) (s : σ) :
    (if c then x else y) s = if c then x s else y s := by
  split <;> rfl

/-! ## Crash specifications -/

/-- From a state with `P`, the program returns, its value and its last state have `Q`, and
every durable state on the way has `C`. -/
def Runs (P : σ → Prop) (x : Prog ε δ σ α) (Q : α → σ → Prop) (C : δ → Prop) : Prop :=
  ∀ s, P s → (∀ d ∈ (x s).1, C d) ∧ ∃ a s', (x s).2 = .ok a s' ∧ Q a s'

section

variable {P : σ → Prop} {Q : α → σ → Prop} {C : δ → Prop}

theorem Runs.pure {a : α} (h : ∀ s, P s → Q a s) : Runs P (Pure.pure a : Prog ε δ σ α) Q C :=
  fun s hs => ⟨fun _ hd => absurd hd List.not_mem_nil, a, s, rfl, h s hs⟩

theorem Runs.get {Q : σ → σ → Prop} (h : ∀ s, P s → Q s s) :
    Runs P (Crash.get : Prog ε δ σ σ) Q C :=
  fun s hs => ⟨fun _ hd => absurd hd List.not_mem_nil, s, s, rfl, h s hs⟩

theorem Runs.modify {f : σ → σ} {Q : Unit → σ → Prop} (h : ∀ s, P s → Q () (f s)) :
    Runs P (Crash.modify f : Prog ε δ σ Unit) Q C :=
  fun s hs => ⟨fun _ hd => absurd hd List.not_mem_nil, (), f s, rfl, h s hs⟩

theorem Runs.persist {view : σ → δ} {f : σ → σ} {Q : Unit → σ → Prop}
    (h : ∀ s, P s → Q () (f s) ∧ C (view (f s))) :
    Runs P (Crash.persist view f : Prog ε δ σ Unit) Q C := by
  intro s hs
  refine ⟨fun d hd => ?_, (), f s, rfl, (h s hs).1⟩
  rw [List.mem_singleton.mp hd]
  exact (h s hs).2

theorem Runs.bind {x : Prog ε δ σ α} {f : α → Prog ε δ σ β} {R : β → σ → Prop}
    (hx : Runs P x Q C) (hf : ∀ a, Runs (Q a) (f a) R C) : Runs P (x >>= f) R C := by
  intro s hs
  obtain ⟨hpoints, a, s', hend, hQ⟩ := hx s hs
  obtain ⟨hpoints', b, s'', hend', hR⟩ := hf a s' hQ
  have hrun : (x >>= f) s = ((x s).1 ++ (f a s').1, (f a s').2) := by
    show (match x s with
      | (ds, .ok a s') => (ds ++ (f a s').1, (f a s').2)
      | (ds, .error e s') => (ds, .error e s')) = _
    rw [show x s = ((x s).1, .ok a s') from Prod.ext rfl hend]
  rw [hrun]
  refine ⟨fun d hd => ?_, b, s'', hend', hR⟩
  rcases List.mem_append.mp hd with hd | hd
  · exact hpoints d hd
  · exact hpoints' d hd

/-- Reading the state first: the rest is run from the state that was read. -/
theorem Runs.get_bind {f : σ → Prog ε δ σ β} {R : β → σ → Prop}
    (hf : ∀ s, P s → Runs (· = s) (f s) R C) : Runs P (Crash.get >>= f) R C := by
  refine Runs.bind (Q := fun t s => P t ∧ s = t) (Runs.get fun s hs => ⟨hs, rfl⟩) fun t => ?_
  intro s hs
  exact hf t hs.1 s hs.2

theorem Runs.ite {c : Prop} [Decidable c] {x y : Prog ε δ σ α} (hx : c → Runs P x Q C)
    (hy : ¬ c → Runs P y Q C) : Runs P (if c then x else y) Q C := by
  split
  case isTrue h => exact hx h
  case isFalse h => exact hy h

theorem Runs.imp {R : σ → Prop} {S : α → σ → Prop} {D : δ → Prop} {x : Prog ε δ σ α}
    (h : Runs R x S D) (hP : ∀ s, P s → R s) (hQ : ∀ a s, S a s → Q a s)
    (hC : ∀ d, D d → C d) : Runs P x Q C := by
  intro s hs
  obtain ⟨hpoints, a, s', hend, hS⟩ := h s (hP s hs)
  exact ⟨fun d hd => hC d (hpoints d hd), a, s', hend, hQ a s' hS⟩

/-- **Loops**, by an invariant that counts the rounds. -/
theorem Runs.loop {body : ℕ → Prog ε δ σ Unit} {I : ℕ → σ → Prop} {count i : ℕ}
    (h : ∀ j, i ≤ j → j < i + count → Runs (I j) (body j) (fun _ => I (j + 1)) C) :
    Runs (I i) (Crash.loop body count i) (fun _ => I (i + count)) C := by
  induction count generalizing i with
  | zero => exact Runs.pure fun s hs => hs
  | succ count ih =>
    refine (h i (Nat.le_refl i) (by omega)).bind fun _ => ?_
    have hrest := ih (i := i + 1) fun j hlo hhi => h j (by omega) (by omega)
    rwa [show i + 1 + count = i + (count + 1) by omega] at hrest

end

/-! ## Redo logs -/

section

variable {A V : Type} [DecidableEq A]

/-- Store every value of the log at its address, in order. -/
def install (es : List (A × V)) (d : A → V) : A → V :=
  es.foldl (fun d e => Function.update d e.1 e.2) d

/-- An address that the log does not mention keeps its value. -/
theorem install_of_forall_ne {es : List (A × V)} {a : A} (h : ∀ e ∈ es, e.1 ≠ a) (d : A → V) :
    install es d a = d a := by
  induction es generalizing d with
  | nil => rfl
  | cons e es ih =>
    have hrest := ih (fun e' he' => h e' (List.mem_cons_of_mem e he'))
      (Function.update d e.1 e.2)
    have hne : a ≠ e.1 := fun ha => h e List.mem_cons_self ha.symm
    exact hrest.trans (Function.update_of_ne hne _ _)

/-- An address that the log mentions, always with the same value, gets that value. -/
theorem install_of_mem {es : List (A × V)} {a : A} {v : V} (hmem : ∃ e ∈ es, e.1 = a)
    (hval : ∀ e ∈ es, e.1 = a → e.2 = v) (d : A → V) : install es d a = v := by
  induction es generalizing d with
  | nil =>
    obtain ⟨e, he, -⟩ := hmem
    cases he
  | cons e es ih =>
    have hval' : ∀ e' ∈ es, e'.1 = a → e'.2 = v := fun e' he' =>
      hval e' (List.mem_cons_of_mem e he')
    by_cases hlater : ∃ e' ∈ es, e'.1 = a
    · exact ih hlater hval' (Function.update d e.1 e.2)
    · -- the last mention is the first entry
      have hne : ∀ e' ∈ es, e'.1 ≠ a := fun e' he' ha => hlater ⟨e', he', ha⟩
      obtain ⟨e', he', ha⟩ := hmem
      rcases List.mem_cons.mp he' with rfl | he'
      · have hkeep := install_of_forall_ne hne (Function.update d e'.1 e'.2)
        refine hkeep.trans ?_
        rw [← ha, Function.update_self]
        exact hval e' List.mem_cons_self ha
      · exact absurd ha (hne e' he')

end

end Crash
