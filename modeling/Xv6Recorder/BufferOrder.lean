/-
# Which buffer `bget` takes over

`brelse` moves a buffer that nobody uses any more to the front of the list, and `bget` looks
for an unused one from the back.  So the list is ordered by when the buffers were last in
use, whatever the processes do, and the buffer that is taken over is the one that has not
been used for the longest time.
-/
import Xv6Recorder.BufferInvariant

open Bytes CircularList BlockStore

namespace Xv6.Bio

variable {P : Type}

/-! ## Being in use along a run -/

section

variable {E : Type}

/-- The buffer `c` was in use at a point of the run from which on `b` has not been. -/
def UsedSince (s : System P) (path : List (E × System P)) (c b : Fin nbuf) : Prop :=
  ∃ before after, path = before ++ after ∧
    ((Transitions.last s before).cache.buf c).refcnt ≠ 0 ∧
    ∀ mid rest, after = mid ++ rest →
      ((Transitions.last s (before ++ mid)).cache.buf b).refcnt = 0

/-- The buffer has not been in use during the run. -/
def NeverUsed (s : System P) (path : List (E × System P)) (b : Fin nbuf) : Prop :=
  ∀ before after, path = before ++ after →
    ((Transitions.last s before).cache.buf b).refcnt = 0

variable {s s' : System P} {path : List (E × System P)} {e : E} {b c : Fin nbuf}

/-- What comes before a point of a run that is one step longer. -/
theorem split_concat {α : Type} {l before after : List α} {a : α}
    (h : l ++ [a] = before ++ after) :
    (before = l ++ [a] ∧ after = []) ∨ ∃ after', l = before ++ after' ∧ after = after' ++ [a] := by
  rcases List.eq_nil_or_concat after with hnil | ⟨after', a', rfl⟩
  · rw [hnil, List.append_nil] at h
    exact .inl ⟨h.symm, hnil⟩
  · right
    rw [List.concat_eq_append, ← List.append_assoc] at h
    obtain ⟨hl, ha⟩ := List.append_inj' h rfl
    refine ⟨after', hl, ?_⟩
    rw [List.concat_eq_append, ha]

theorem NeverUsed.concat (h : NeverUsed s path b) (hb : (s'.cache.buf b).refcnt = 0) :
    NeverUsed s (path ++ [(e, s')]) b := by
  intro before after hsplit
  rcases split_concat hsplit with ⟨rfl, -⟩ | ⟨after', hpath, -⟩
  · rw [Transitions.last_concat]
    exact hb
  · exact h before after' hpath

theorem UsedSince.concat (h : UsedSince s path c b) (hb : (s'.cache.buf b).refcnt = 0) :
    UsedSince s (path ++ [(e, s')]) c b := by
  obtain ⟨before, after, rfl, hc, hafter⟩ := h
  refine ⟨before, after ++ [(e, s')], List.append_assoc .., hc, fun mid rest hsplit => ?_⟩
  rcases split_concat hsplit with ⟨rfl, -⟩ | ⟨rest', hmid, -⟩
  · rw [← List.append_assoc, Transitions.last_concat]
    exact hb
  · exact hafter mid rest' hmid

/-- A buffer that is in use now. -/
theorem UsedSince.now (hc : ((Transitions.last s path).cache.buf c).refcnt ≠ 0)
    (hb : ((Transitions.last s path).cache.buf b).refcnt = 0) : UsedSince s path c b := by
  refine ⟨path, [], (List.append_nil path).symm, hc, fun mid rest hsplit => ?_⟩
  rw [(List.append_eq_nil_iff.mp hsplit.symm).1, List.append_nil]
  exact hb

/-- The order of the list: what stands further back was in use longer ago. -/
def Older (s : System P) (path : List (E × System P)) (c b : Fin nbuf) : Prop :=
  ((Transitions.last s path).cache.buf b).refcnt = 0 →
    UsedSince s path c b ∨ NeverUsed s path c ∧ NeverUsed s path b

/-- A step after which a buffer is unused only if it was so before. -/
theorem Older.concat (h : Older s path c b)
    (hb : (s'.cache.buf b).refcnt = 0 → ((Transitions.last s path).cache.buf b).refcnt = 0) :
    Older s (path ++ [(e, s')]) c b := by
  intro hb'
  rw [Transitions.last_concat] at hb'
  rcases h (hb hb') with hsince | ⟨hc, hnever⟩
  · exact .inl (hsince.concat hb')
  by_cases hc' : (s'.cache.buf c).refcnt = 0
  · exact .inr ⟨hc.concat hc', hnever.concat hb'⟩
  · left
    apply UsedSince.now
    · rw [Transitions.last_concat]
      exact hc'
    · rw [Transitions.last_concat]
      exact hb'

end

/-! ## What a step does to the list -/

section

variable [Fintype P] [DecidableEq P] {s s' : System P} {e : Event Word P Memory}

omit [Fintype P] [DecidableEq P] in
/-- A change to a buffer that does not take it out of use. -/
theorem refcnt_of_set {m : Bcache P} {b : Fin nbuf} {x : Buf P}
    (hx : x.refcnt = 0 → (m.buf b).refcnt = 0) (c : Fin nbuf)
    (hc : ((m.set b x).buf c).refcnt = 0) : (m.buf c).refcnt = 0 := by
  unfold Bcache.set at hc
  dsimp only at hc
  by_cases hcb : c = b
  · rw [hcb, Function.update_self] at hc
    rw [hcb]
    exact hx hc
  · rw [Function.update_of_ne hcb] at hc
    exact hc

/-- A step leaves the list and takes no buffer out of use, or it is the last part of `brelse`
for a buffer, which goes to the front. -/
theorem Inv.order_cases (h : Inv s) (hstep : Step s e s') :
    (s'.cache.links = s.cache.links ∧
      ∀ b, (s'.cache.buf b).refcnt = 0 → (s.cache.buf b).refcnt = 0) ∨
    ∃ b, s'.cache.links = (s.cache.links.unlink b).insert b ∧ (s.cache.buf b).refcnt ≠ 0 ∧
      ∀ c, c ≠ b → (s'.cache.buf c).refcnt = (s.cache.buf c).refcnt := by
  cases hstep with
  | bget hpc hblock hrun =>
    obtain ⟨l, hlist, hall⟩ := h.order
    rcases bget_cases rootdev _ hlist hall with
      ⟨b, -, hrun'⟩ | ⟨-, b, -, hrun'⟩ | ⟨-, -, hrun'⟩
    · rw [hrun] at hrun'
      cases hrun'
      exact .inl ⟨rfl, refcnt_of_set fun hx => absurd hx (Nat.succ_ne_zero _)⟩
    · rw [hrun] at hrun'
      cases hrun'
      exact .inl ⟨rfl, refcnt_of_set fun hx => absurd hx one_ne_zero⟩
    · rw [hrun] at hrun'
      cases hrun'
  | acquire hpc hrun =>
    obtain ⟨-, rfl⟩ := acquiresleep_eq_some.mp hrun
    exact .inl ⟨rfl, refcnt_of_set id⟩
  | miss hpc hvalid hrun =>
    obtain ⟨hrun', -⟩ := h.fetch hpc hvalid
    rw [hrun] at hrun'
    cases hrun'
    exact .inl ⟨rfl, fun _ => id⟩
  | modify => exact .inl ⟨rfl, refcnt_of_set id⟩
  | logWrite => exact .inl ⟨rfl, refcnt_of_set id⟩
  | bwrite hpc hrun =>
    obtain ⟨hrun', -⟩ := h.bwrite hpc (lock_of_bwrite hrun)
    rw [hrun] at hrun'
    cases hrun'
    exact .inl ⟨rfl, refcnt_of_set id⟩
  | brelse hpc hrun =>
    obtain ⟨-, rfl⟩ := brelse_eq_ok.mp hrun
    exact .inl ⟨rfl, refcnt_of_set id⟩
  | @released p b hpc =>
    have hpos := Inv.count_pos hpc rfl
    have hrefs := h.refs b
    unfold brelseLocked
    dsimp only
    split_ifs with hzero
    · refine .inr ⟨b, rfl, by omega, fun c hcb => ?_⟩
      unfold Bcache.set
      dsimp only
      rw [Function.update_of_ne hcb]
    · refine .inl ⟨rfl, refcnt_of_set fun hx => absurd ?_ hzero⟩
      unfold Bcache.set
      dsimp only
      rw [Function.update_self]
      exact hx
  | diskRead hide =>
    rw [complete_read hide]
    exact .inl ⟨rfl, fun _ => id⟩
  | diskWrite hide =>
    rw [complete_write hide]
    exact .inl ⟨rfl, fun _ => id⟩
  | intr hide hrun =>
    obtain ⟨b, queue, -, -, -, hrun'⟩ := h.intr_run hide
    rw [hrun] at hrun'
    cases hrun'
    exact .inl ⟨rfl, refcnt_of_set id⟩
  | _ => exact .inl ⟨rfl, fun _ => id⟩

/-- The list, ordered by when the buffers were in use. -/
def Ordered (s : System P) (path : List (Event Word P Memory × System P)) (s' : System P) : Prop :=
  ∃ l, s'.cache.links.Lists l ∧ (∀ b, b ∈ l) ∧ l.Pairwise (Older s path)

/-- A step keeps the order. -/
theorem Ordered.step {path : List (Event Word P Memory × System P)} {t : System P}
    (h : Ordered s path (Transitions.last s path)) (hInv : Inv (Transitions.last s path))
    (hstep : Step (Transitions.last s path) e t) : Ordered s (path ++ [(e, t)]) t := by
  obtain ⟨l, hlist, hall, hpairs⟩ := h
  rcases hInv.order_cases hstep with ⟨hlinks, hrefs⟩ | ⟨b, hlinks, hb, hrefs⟩
  · exact ⟨l, hlinks ▸ hlist, hall, hpairs.imp fun holder => holder.concat (hrefs _)⟩
  -- the buffer that goes to the front was in use until now
  refine ⟨b :: l.erase b, hlinks ▸ hlist.toFront (hall b), fun c => ?_, ?_⟩
  · by_cases hcb : c = b
    · rw [hcb]
      exact List.mem_cons_self
    · exact List.mem_cons_of_mem _ ((List.mem_erase_of_ne hcb).mpr (hall c))
  · have hmem : ∀ c ∈ l.erase b, c ≠ b := by
      rintro c hc rfl
      exact (List.Nodup.not_mem_erase hlist.nodup) hc
    refine List.pairwise_cons.mpr ⟨fun c hc hzero => .inl ?_, ?_⟩
    · rw [Transitions.last_concat] at hzero
      have hzero' := hzero
      rw [hrefs c (hmem c hc)] at hzero'
      exact (UsedSince.now hb hzero').concat hzero
    · refine (hpairs.sublist List.erase_sublist).imp_of_mem fun {c d} _ hd holder => ?_
      apply holder.concat
      rw [hrefs d (hmem d hd)]
      exact id

/-- Along a run the invariant holds and the list is ordered. -/
theorem ordered_of_path {disk : Word → ℕ → Memory}
    {path : List (Event Word P Memory × System P)}
    (h : Transitions.Path Step (System.boot disk) path) :
    Inv (Transitions.last (System.boot disk) path) ∧
      Ordered (System.boot disk) path (Transitions.last (System.boot disk) path) := by
  refine h.invariant (I := fun before s => Inv s ∧ Ordered (System.boot disk) before s) ?_ ?_
    path [] (List.append_nil path).symm
  · refine ⟨Inv.boot disk, _, binit_lists, fun b => ?_, ?_⟩
    · rw [List.mem_reverse]
      exact List.mem_finRange b
    · -- nothing has been in use
      have hnever : ∀ b, NeverUsed (System.boot disk : System P)
          ([] : List (Event Word P Memory × System P)) b := by
        intro b before after hsplit
        rw [(List.append_eq_nil_iff.mp hsplit.symm).1]
        rfl
      exact List.pairwise_of_forall fun c b _ => .inr ⟨hnever c, hnever b⟩
  · intro before e s' after _ hstep hI
    exact ⟨hI.1.step hstep, hI.2.step hI.1 hstep⟩

omit [Fintype P] [DecidableEq P] in
/-- The buffer that is taken over is the last one in the list that is not in use. -/
theorem bget_last {m m' : Bcache P} {blockno : Word} {b : Fin nbuf} {l : List (Fin nbuf)}
    (hlist : m.links.Lists l) (hmiss : ∀ c, (m.buf c).isFor rootdev blockno = false)
    (hrun : bget rootdev blockno m = .ok (m', b)) :
    ∃ l₁ l₂, l = l₁ ++ b :: l₂ ∧ ∀ c ∈ l₂, (m.buf c).unused = false := by
  have hlength := length_lt hlist
  have hnext := hlist.scan_next (fun b => (m.buf b).isFor rootdev blockno) hlength
  have hnone : (l.find? fun b => (m.buf b).isFor rootdev blockno) = none :=
    List.find?_eq_none.mpr fun c _ => Bool.eq_false_iff.mp (hmiss c)
  rw [hnone] at hnext
  have hprev := hlist.scan_prev (fun b => (m.buf b).unused) hlength
  unfold bget at hrun
  rw [hnext, hprev] at hrun
  cases hfind : l.reverse.find? fun b => (m.buf b).unused with
  | none =>
    rw [hfind] at hrun
    cases hrun
  | some c =>
    rw [hfind] at hrun
    cases hrun
    obtain ⟨-, l₁, l₂, hl, hl₁⟩ := List.find?_eq_some_iff_append.mp hfind
    refine ⟨l₂.reverse, l₁.reverse, ?_, fun c hc => ?_⟩
    · rw [← List.reverse_reverse l, hl, List.reverse_append, List.reverse_cons,
        List.append_assoc, List.singleton_append]
    · have hused := hl₁ c (List.mem_reverse.mp hc)
      rw [Bool.not_eq_true'] at hused
      exact hused

end

/-! ## Whole runs -/

variable [Fintype P] [DecidableEq P]

/-- **The least recently used buffer is taken over.**  After any run, if `bget` takes over a
buffer for a block that is not cached, every other buffer that it could have taken was in use
at a point from which on this one has not been, or neither has ever been in use. -/
theorem bget_takes_least_recently_used (disk : Word → ℕ → Memory)
    (path : List (Event Word P Memory × System P))
    (h : Transitions.Path Step (System.boot disk) path) (s : System P)
    (hs : s = Transitions.last (System.boot disk) path) (blockno : Word) (m : Bcache P)
    (b : Fin nbuf) (hmiss : ∀ c, (s.cache.buf c).isFor rootdev blockno = false)
    (hrun : bget rootdev blockno s.cache = .ok (m, b)) (c : Fin nbuf) (hc : c ≠ b)
    (hunused : (s.cache.buf c).unused = true) :
    UsedSince (System.boot disk) path c b ∨
      NeverUsed (System.boot disk) path c ∧ NeverUsed (System.boot disk) path b := by
  subst hs
  obtain ⟨hInv, l, hlist, hall, hpairs⟩ := ordered_of_path h
  obtain ⟨l₁, l₂, rfl, hused⟩ := bget_last hlist hmiss hrun
  have hmem : c ∈ l₁ := by
    rcases List.mem_append.mp (hall c) with hl₁ | hl₂
    · exact hl₁
    rcases List.mem_cons.mp hl₂ with hcb | hl₂
    · exact absurd hcb hc
    · rw [hused c hl₂] at hunused
      cases hunused
  have holder : Older (System.boot disk) path c b :=
    (List.pairwise_append.mp hpairs).2.2 c hmem b List.mem_cons_self
  apply holder
  rcases bget_cases rootdev blockno hlist hall with
    ⟨b', hfor, -⟩ | ⟨-, b', hunused', hrun'⟩ | ⟨-, -, hrun'⟩
  · rw [hmiss b'] at hfor
    cases hfor
  · rw [hrun] at hrun'
    cases hrun'
    exact (unused_iff.mp hunused').1
  · rw [hrun] at hrun'
    cases hrun'

/-- After the first run the buffer `1` is taken over, and not the one that was in use. -/
theorem bget_takes_least_recently_used_first_run :
    ∃ path : List (Event Word Unit Memory × System Unit), path.map Prod.fst = firstEvents ∧
      (UsedSince (System.boot sevens) path 0 1 ∨
        NeverUsed (System.boot sevens) path 0 ∧ NeverUsed (System.boot sevens) path 1) := by
  obtain ⟨path, hpath, hevents, hmiss, hunused, m, hrun⟩ := exists_first_run
  exact ⟨path, hevents, bget_takes_least_recently_used sevens path hpath _ rfl 6 m 1 hmiss hrun 0
    (by decide) hunused⟩

end Xv6.Bio
