/-
# A store of blocks with write back

What a cache in front of a disk is for.  Every block has one current content; the disk may
have an older one.  A client asks for a block, and uses it under its lock.  A dirty block is
kept, and a clean one may be dropped to make room when nobody holds it, so that what was
written to it and neither pinned nor flushed is lost.  A client that pins what it has written
before it gives up the lock never sees this: it reads what was written last to the block that
it asked for.  Nothing here mentions the program that uses it.
-/
import Mathlib.Logic.Function.Basic
import Xv6Recorder.Transitions

namespace BlockStore

variable {K P D : Type} [DecidableEq K] [DecidableEq P]

/-- The blocks `K` with contents `D`, the clients `P` that hold them, and the block that a
client has asked for and not been given yet. -/
@[ext] structure Store (K P D : Type) where
  disk : K → D
  data : K → D
  dirty : K → Bool
  holder : K → Option P
  asked : P → Option K

/-- What a client, or the disk, does with a block. -/
inductive Event (K P D : Type) where
  | internal
  | request (p : P) (k : K)
  | lock (p : P) (k : K)
  | read (p : P) (k : K) (d : D)
  | write (p : P) (k : K) (d : D)
  | pin (p : P) (k : K)
  | flush (k : K)
  /-- The client learns that the disk has the block. -/
  | sync (p : P) (k : K)
  | unlock (p : P) (k : K)

/-- The steps of the store.  When a client asks for a block, a clean one that nobody holds may
have to make room; and inside, a block that is on disk may become clean.  A client locks and
reads the block that it has asked for. -/
inductive Step : Store K P D → Event K P D → Store K P D → Prop
  | stay {s : Store K P D} : Step s .internal s
  | request {s : Store K P D} {p : P} {k : K} (hidle : s.asked p = none) :
      Step s (.request p k) { s with asked := Function.update s.asked p (some k) }
  | replace {s : Store K P D} {p : P} {k k' : K} (hidle : s.asked p = none)
      (hfree : s.holder k' = none) (hclean : s.dirty k' = false) :
      Step s (.request p k)
        { s with
          data := Function.update s.data k' (s.disk k')
          asked := Function.update s.asked p (some k) }
  | clean {s : Store K P D} {k : K} (hdisk : s.data k = s.disk k) :
      Step s .internal { s with dirty := Function.update s.dirty k false }
  | lock {s : Store K P D} {p : P} {k : K} (hasked : s.asked p = some k)
      (hfree : s.holder k = none) :
      Step s (.lock p k) { s with holder := Function.update s.holder k (some p) }
  | read {s : Store K P D} {p : P} {k : K} {d : D} (hasked : s.asked p = some k)
      (hheld : s.holder k = some p) (hd : d = s.data k) :
      Step s (.read p k d) { s with asked := Function.update s.asked p none }
  | write {s : Store K P D} {p : P} {k : K} {d : D} (hheld : s.holder k = some p) :
      Step s (.write p k d) { s with data := Function.update s.data k d }
  | pin {s : Store K P D} {p : P} {k : K} (hheld : s.holder k = some p) :
      Step s (.pin p k) { s with dirty := Function.update s.dirty k true }
  | flush {s : Store K P D} {k : K} (hdirty : s.dirty k = true) :
      Step s (.flush k) { s with disk := Function.update s.disk k (s.data k) }
  | sync {s : Store K P D} {p : P} {k : K} (hheld : s.holder k = some p)
      (hdisk : s.data k = s.disk k) : Step s (.sync p k) s
  | unlock {s : Store K P D} {p : P} {k : K} (hheld : s.holder k = some p) :
      Step s (.unlock p k) { s with holder := Function.update s.holder k none }

/-- Nothing is cached yet. -/
def Store.initial (disk : K → D) : Store K P D :=
  ⟨disk, disk, fun _ => false, fun _ => none, fun _ => none⟩

/-! ## What a client has asked for -/

/-- The block that a client has asked for last, after an event. -/
def Event.requested (p : P) (o : Option K) : Event K P D → Option K
  | .request p' k => if p' = p then some k else o
  | _ => o

/-- The block that a client has asked for last. -/
def lastRequest (p : P) (es : List (Event K P D)) : Option K := es.foldl (Event.requested p) none

/-! ## Clients that save what they write -/

/-- The content that a block has after an event. -/
def Event.content (k : K) (d : D) : Event K P D → D
  | .write _ k' d' => if k' = k then d' else d
  | _ => d

/-- What was written last to a block. -/
def lastWrite (k : K) (d : D) (es : List (Event K P D)) : D := es.foldl (Event.content k) d

/-- Whether a block has been written to and not been pinned since. -/
def Event.unsaved (k : K) (u : Bool) : Event K P D → Bool
  | .write _ k' _ => if k' = k then true else u
  | .pin _ k' => if k' = k then false else u
  | _ => u

/-- The same after some events. -/
def unsaved (k : K) (es : List (Event K P D)) : Bool := es.foldl (Event.unsaved k) false

/-- A client pins what it has written before it unlocks it. -/
def Saves (es : List (Event K P D)) : Prop :=
  ∀ before p k after, es = before ++ .unlock p k :: after → unsaved k before = false

omit [DecidableEq P] in
theorem lastWrite_concat (k : K) (d : D) (es : List (Event K P D)) (e : Event K P D) :
    lastWrite k d (es ++ [e]) = e.content k (lastWrite k d es) := by
  unfold lastWrite
  rw [List.foldl_append, List.foldl_cons, List.foldl_nil]

omit [DecidableEq P] in
theorem unsaved_concat (k : K) (es : List (Event K P D)) (e : Event K P D) :
    unsaved k (es ++ [e]) = e.unsaved k (unsaved k es) := by
  unfold unsaved
  rw [List.foldl_append, List.foldl_cons, List.foldl_nil]

omit [DecidableEq K] in
theorem lastRequest_concat (p : P) (es : List (Event K P D)) (e : Event K P D) :
    lastRequest p (es ++ [e]) = e.requested p (lastRequest p es) := by
  unfold lastRequest
  rw [List.foldl_append, List.foldl_cons, List.foldl_nil]

/-- What is known of the store after some events. -/
structure Coherent (disk : K → D) (es : List (Event K P D)) (s : Store K P D) : Prop where
  data : ∀ k, s.data k = lastWrite k (disk k) es
  safe : ∀ k, s.dirty k = true ∨ s.data k = s.disk k ∨ unsaved k es = true
  saved : ∀ k, s.holder k = none → unsaved k es = false
  asked : ∀ p k, s.asked p = some k → lastRequest p es = some k

variable {disk : K → D} {es : List (Event K P D)} {s s' : Store K P D} {e : Event K P D}

/-- Dropping a clean block that nobody holds changes nothing. -/
theorem Coherent.evict (h : Coherent disk es s) {k : K} (hfree : s.holder k = none)
    (hclean : s.dirty k = false) : s.data k = s.disk k := by
  rcases h.safe k with hdirty | hsame | hlost
  · rw [hclean] at hdirty
    cases hdirty
  · exact hsame
  · rw [h.saved k hfree] at hlost
    cases hlost

/-- What a client waits for is what it has asked for last. -/
theorem Coherent.asked_step (h : Coherent disk es s) (hstep : Step s e s') {p : P} {k : K}
    (hp : s'.asked p = some k) : lastRequest p (es ++ [e]) = some k := by
  rw [lastRequest_concat]
  have hasked := h.asked p k
  have hrequest : ∀ p' k', Function.update s.asked p' (some k') p = some k →
      (Event.request p' k' : Event K P D).requested p (lastRequest p es) = some k := by
    intro p' k' hp
    rw [Event.requested]
    split_ifs with heq
    · rwa [heq, Function.update_self] at hp
    · rw [Function.update_of_ne (Ne.symm heq)] at hp
      exact hasked hp
  cases hstep with
  | request => exact hrequest _ _ hp
  | replace => exact hrequest _ _ hp
  | @read p' k' d _ =>
    dsimp only at hp
    by_cases heq : p = p'
    · rw [heq, Function.update_self] at hp
      cases hp
    · rw [Function.update_of_ne heq] at hp
      exact hasked hp
  | _ => exact hasked hp

theorem Coherent.step (h : Coherent disk es s) (hstep : Step s e s')
    (hsaves : ∀ p k, e = .unlock p k → unsaved k es = false) : Coherent disk (es ++ [e]) s' := by
  refine ⟨fun k => ?_, fun k => ?_, fun k hk => ?_, fun p k => h.asked_step hstep⟩ <;>
    have hdata := h.data k <;> have hsafe := h.safe k <;> have hsaved := h.saved k
  -- what was written last is there
  · rw [lastWrite_concat]
    cases hstep with
    | @replace p k₀ k' hidle hfree hclean =>
      rw [← h.evict hfree hclean, Function.update_eq_self]
      exact hdata
    | @write p k' d hheld =>
      rw [Event.content]
      dsimp only
      split_ifs with heq
      · rw [heq, Function.update_self]
      · rw [Function.update_of_ne (Ne.symm heq)]
        exact hdata
    | _ => exact hdata
  -- and it is dirty, or on disk, or not saved yet
  · rw [unsaved_concat]
    cases hstep with
    | @replace p k₀ k' hidle hfree hclean =>
      rw [← h.evict hfree hclean, Function.update_eq_self]
      exact hsafe
    | @clean k' hdisk =>
      by_cases heq : k = k'
      · rw [heq]
        exact .inr (.inl hdisk)
      · dsimp only
        rw [Function.update_of_ne heq]
        exact hsafe
    | @write p k' d hheld =>
      rw [Event.unsaved]
      dsimp only
      split_ifs with heq
      · exact .inr (.inr rfl)
      · rw [Function.update_of_ne (Ne.symm heq)]
        exact hsafe
    | @pin p k' hheld =>
      rw [Event.unsaved]
      dsimp only
      split_ifs with heq
      · rw [heq, Function.update_self]
        exact .inl rfl
      · rw [Function.update_of_ne (Ne.symm heq)]
        exact hsafe
    | @flush k' hdirty =>
      dsimp only
      by_cases heq : k = k'
      · rw [heq, Function.update_self]
        exact .inr (.inl rfl)
      · rw [Function.update_of_ne heq]
        exact hsafe
    | _ => exact hsafe
  -- a client writes only to what it holds
  · rw [unsaved_concat]
    cases hstep with
    | @lock p k' hasked hfree =>
      dsimp only at hk
      by_cases heq : k = k'
      · rw [heq, Function.update_self] at hk
        cases hk
      · rw [Function.update_of_ne heq] at hk
        exact hsaved hk
    | @write p k' d hheld =>
      rw [Event.unsaved]
      split_ifs with heq
      · rw [heq] at hheld
        rw [hheld] at hk
        cases hk
      · exact hsaved hk
    | @pin p k' hheld =>
      rw [Event.unsaved]
      split_ifs
      · rfl
      · exact hsaved hk
    | @unlock p k' hheld =>
      by_cases heq : k = k'
      · rw [heq]
        exact hsaves p k' rfl
      · dsimp only at hk
        rw [Function.update_of_ne heq] at hk
        exact hsaved hk
    | _ => exact hsaved hk

/-- **A store that loses nothing.**  As long as the clients save what they write, every block
has what was written to it last. -/
theorem coherent_of_saves {path : List (Event K P D × Store K P D)}
    (h : Transitions.Path Step (Store.initial disk) path) (hsaves : Saves (path.map Prod.fst)) :
    ∀ before after, path = before ++ after →
      Coherent disk (before.map Prod.fst) (Transitions.last (Store.initial disk) before) := by
  apply h.invariant (I := fun before s => Coherent disk (before.map Prod.fst) s)
  · exact ⟨fun _ => rfl, fun _ => .inr (.inl rfl), fun _ _ => rfl, fun _ _ h => by cases h⟩
  · intro before e s' after hpath hstep hI
    rw [List.map_append, List.map_cons, List.map_nil]
    apply hI.step hstep
    rintro p k rfl
    apply hsaves (before.map Prod.fst) p k (after.map Prod.fst)
    rw [hpath, List.map_append, List.map_cons]

end BlockStore
