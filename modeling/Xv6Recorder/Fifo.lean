/-
# Bounded queues with a cursor

A queue keeps every item that was added, in order, and counts how many of them have been
taken.  Along any path of steps the items taken are the first ones of those added: none is
lost and none is taken twice.  Nothing here mentions the program that uses it.
-/
import Xv6Recorder.Transitions

open Transitions

namespace Fifo

/-- A queue of at most `cap` items, of which the first `taken` have been taken. -/
@[ext] structure Queue (α : Type) (cap : ℕ) where
  items : List α
  taken : ℕ
  taken_le : taken ≤ items.length
  length_le : items.length ≤ cap

variable {α : Type} {cap : ℕ}

namespace Queue

def empty : Queue α cap := ⟨[], 0, Nat.le_refl _, Nat.zero_le _⟩

/-- One more item, when there is room. -/
def add (q : Queue α cap) (a : α) (h : q.items.length < cap) : Queue α cap where
  items := q.items ++ [a]
  taken := q.taken
  taken_le := by
    rw [List.length_append]
    exact Nat.le_add_right_of_le q.taken_le
  length_le := by
    rw [List.length_append]
    exact h

/-- One more item taken, when there is one. -/
def advance (q : Queue α cap) (h : q.taken < q.items.length) : Queue α cap :=
  { q with taken := q.taken + 1, taken_le := h }

end Queue

/-- What a step does. -/
inductive Event (α : Type) where
  | added (a : α)
  | took (a : α)
  | refused

/-- The item that a step adds, respectively takes. -/
def Event.item : Event α → Option α
  | .added a => some a
  | _ => none

def Event.taken : Event α → Option α
  | .took a => some a
  | _ => none

/-- One step of a queue. -/
inductive Step : Queue α cap → Event α → Queue α cap → Prop
  | added {q : Queue α cap} {a : α} (h : q.items.length < cap) : Step q (.added a) (q.add a h)
  | took {q : Queue α cap} {a : α} (h : q.taken < q.items.length)
      (hnext : q.items[q.taken]? = some a) : Step q (.took a) (q.advance h)
  | refused {q : Queue α cap} : Step q .refused q

variable {q q' : Queue α cap} {e : Event α}

theorem Step.items_eq (h : Step q e q') : q'.items = q.items ++ e.item.toList := by
  cases h with
  | added => rfl
  | took => exact (List.append_nil _).symm
  | refused => exact (List.append_nil _).symm

theorem Step.take_eq (h : Step q e q') :
    q'.items.take q'.taken = q.items.take q.taken ++ e.taken.toList := by
  cases h with
  | added hroom =>
    show (q.items ++ [_]).take q.taken = q.items.take q.taken ++ []
    rw [List.take_append_of_le_length q.taken_le, List.append_nil]
  | took hlt hnext =>
    show q.items.take (q.taken + 1) = _
    rw [List.take_add_one, hnext]
    rfl
  | refused => exact (List.append_nil _).symm

variable {path : List (Event α × Queue α cap)}

/-- **Nothing is lost.**  A path appends what its steps add. -/
theorem path_items_eq (h : Path Step q path) :
    (last q path).items = q.items ++ path.filterMap fun t => t.1.item := by
  induction h with
  | nil => exact (List.append_nil _).symm
  | @cons s s' e path hstep hrest ih =>
    rw [last, ih, hstep.items_eq, List.append_assoc, List.filterMap_cons]
    cases e.item <;> rfl

/-- **First in, first out.**  A path takes items in the order of the queue. -/
theorem path_take_eq (h : Path Step q path) :
    (last q path).items.take (last q path).taken
      = q.items.take q.taken ++ path.filterMap fun t => t.1.taken := by
  induction h with
  | nil => exact (List.append_nil _).symm
  | @cons s s' e path hstep hrest ih =>
    rw [last, ih, hstep.take_eq, List.append_assoc, List.filterMap_cons]
    cases e.taken <;> rfl

end Fifo
