/-
# Transactions across crashes

File system calls run side by side, each between `begin_op` and `end_op`, and the power may
fail at any time: between two steps, in the middle of a commit, and again during the
recovery that follows.  Seen from outside this is a system of two lists of updates, those
that are durable and those of the open transaction, in which the calls of a transaction
become durable together when the last of them ends, and a crash drops the open transaction
as a whole.
-/
import Mathlib.Algebra.BigOperators.Group.Finset.Basic
import Mathlib.Algebra.Order.BigOperators.Group.Finset
import Xv6Recorder.LogRecovery
import Xv6Recorder.Transitions

open Bytes Crash

namespace Xv6.Log

/-! ## The system -/

/-- A running kernel: the log, the calls between `begin_op` and `end_op`, and the blocks
that each of them has updated. -/
structure Running where
  log : State
  active : Finset ℕ
  touched : ℕ → Finset ℕ

/-- A machine is running, or has its power off. -/
inductive Machine where
  | up (r : Running)
  | down (disk : ℕ → Memory)

/-- What happens in a step.  A call is named by a number. -/
inductive Event where
  | begin (op : ℕ)
  | update (op : ℕ) (b : Word) (block : Memory)
  | finish (op : ℕ)
  | crash
  /-- The power fails during `end_op`. -/
  | cutFinish (op : ℕ)
  | boot
  /-- The power fails during recovery. -/
  | cutBoot

/-- One step.  File system calls update no block of the log, and not the super block. -/
inductive Step : Machine → Event → Machine → Prop
  | begin {r : Running} {op : ℕ} {s : State} (hop : op ∉ r.active)
      (hrun : (beginOp r.log).2 = .ok true s) :
      Step (.up r) (.begin op)
        (.up ⟨s, insert op r.active, Function.update r.touched op ∅⟩)
  | update {r : Running} {op : ℕ} {b : Word} {block : Memory} {s : State} (hop : op ∈ r.active)
      (htarget : Target r.log.start r.log.size b.toNat)
      (hrun : (update b block r.log).2 = .ok () s) :
      Step (.up r) (.update op b block)
        (.up ⟨s, r.active, Function.update r.touched op (insert b.toNat (r.touched op))⟩)
  | finish {r : Running} {op : ℕ} {s : State} (hop : op ∈ r.active)
      (hrun : (endOp r.log).2 = .ok () s) :
      Step (.up r) (.finish op) (.up ⟨s, r.active.erase op, r.touched⟩)
  | crash {r : Running} : Step (.up r) .crash (.down r.log.disk)
  | cutFinish {r : Running} {op : ℕ} {d : ℕ → Memory} (hop : op ∈ r.active)
      (hcut : d ∈ (endOp r.log).1) : Step (.up r) (.cutFinish op) (.down d)
  | boot {d : ℕ → Memory} {s : State} (hrun : (initlog (Log.boot d)).2 = .ok () s) :
      Step (.down d) .boot (.up ⟨s, ∅, fun _ => ∅⟩)
  | cutBoot {d d' : ℕ → Memory} (hcut : d' ∈ (initlog (Log.boot d)).1) :
      Step (.down d) .cutBoot (.down d')

/-! ## What it is for -/

/-- An update of a block, with the call that made it. -/
structure Update where
  op : ℕ
  b : Word
  block : Memory

/-- Blocks after some updates. -/
def applied (us : List Update) (c : ℕ → Memory) : ℕ → Memory :=
  install (us.map fun u => (u.b.toNat, u.block)) c

/-- The durable updates, and while the machine runs those of the open transaction and the
calls that take part in it. -/
inductive Spec where
  | up (durable pending : List Update) (active : Finset ℕ)
  | down (durable : List Update)

/-- A transaction becomes durable as a whole when its last call ends; if the power fails
while that call ends, as a whole or not at all. -/
inductive Spec.Step : Spec → Event → Spec → Prop
  | begin {durable pending : List Update} {active : Finset ℕ} {op : ℕ} (hop : op ∉ active) :
      Step (.up durable pending active) (.begin op) (.up durable pending (insert op active))
  | update {durable pending : List Update} {active : Finset ℕ} {op : ℕ} {b : Word}
      {block : Memory} (hop : op ∈ active) :
      Step (.up durable pending active) (.update op b block)
        (.up durable (pending ++ [⟨op, b, block⟩]) active)
  | finish {durable pending : List Update} {active : Finset ℕ} {op : ℕ} (hop : op ∈ active)
      (hmore : active.erase op ≠ ∅) :
      Step (.up durable pending active) (.finish op) (.up durable pending (active.erase op))
  | commit {durable pending : List Update} {op : ℕ} :
      Step (.up durable pending {op}) (.finish op) (.up (durable ++ pending) [] ∅)
  | crash {durable pending : List Update} {active : Finset ℕ} :
      Step (.up durable pending active) .crash (.down durable)
  | cutBefore {durable pending : List Update} {op : ℕ} :
      Step (.up durable pending {op}) (.cutFinish op) (.down durable)
  | cutAfter {durable pending : List Update} {op : ℕ} :
      Step (.up durable pending {op}) (.cutFinish op) (.down (durable ++ pending))
  | boot {durable : List Update} : Step (.down durable) .boot (.up durable [] ∅)
  | cutBoot {durable : List Update} : Step (.down durable) .cutBoot (.down durable)

/-! ## Between two steps -/

/-- Between two steps the disk holds `old` and the cache `new`, the blocks in which they
differ are listed in the header and pinned, and the log on disk is empty. -/
structure Ready (start size : ℕ) (out : ℤ) (old new : ℕ → Memory) (s : State) : Prop
    extends Still start size out false s where
  fits : s.lh.Fits start size
  data : ∀ b, Home start size b → s.data b = new b
  disk : ∀ b, Home start size b → s.disk b = old b
  empty : (headOf (s.disk start)).n = 0
  same : ∀ b, Home start size b → ¬ s.lh.Lists s.lh.n.toNat b → old b = new b
  pinned : ∀ i < s.lh.n.toNat, s.dirty (s.lh.block i).toNat = true

variable {start size : ℕ} {out : ℤ} {old new c d : ℕ → Memory} {s s' : State}

theorem Ready.size_pos (h : Ready start size out old new s) : 0 < size := by
  have hnonneg := h.fits.nonneg
  have hlt := h.fits.lt
  omega

theorem Ready.onDisk (h : Ready start size out old new s) : OnDisk start size old s.disk :=
  .of_empty h.size_pos h.empty h.disk

/-- Calls come and go. -/
theorem Ready.recount (h : Ready start size out old new s) {n m : ℤ} (hn : n = m) :
    Ready start size m old new { s with outstanding := n } :=
  ⟨⟨h.start_eq, h.size_eq, hn, h.committing, h.logs⟩, h.fits, h.data, h.disk, h.empty, h.same,
    h.pinned⟩

/-- A clean log is ready for the next transaction. -/
theorem Clean.ready (h : Clean start size out false c s) (hsize : 0 < size) :
    Ready start size out c c s where
  toStill := h.toStill
  fits :=
    { nonneg := by rw [h.header]
      le := by rw [h.header]; exact Int.natCast_nonneg _
      lt := by rw [h.header]; omega
      target := fun i hi => by rw [h.header] at hi; exact absurd hi (Nat.not_lt_zero i)
      inj := fun i hi => by rw [h.header] at hi; exact absurd hi (Nat.not_lt_zero i) }
  data := h.data
  disk := h.disk
  empty := h.empty
  same _ _ _ := rfl
  pinned i hi := by
    rw [h.header] at hi
    exact absurd hi (Nat.not_lt_zero i)

/-! ## `begin_op` and `log_write` -/

/-- **`begin_op`** counts the call, unless it has to wait. -/
theorem beginOp_eq (s : State) : beginOp s =
    if s.committing ∨ (logSize : ℤ) < s.lh.n + (s.outstanding + 1) * maxOpBlocks
    then ([], .ok false s)
    else ([], .ok true { s with outstanding := s.outstanding + 1 }) := by
  unfold beginOp
  rw [get_bind_apply, Crash.ite_apply, Crash.ite_apply, modify_bind_apply]
  by_cases hcom : s.committing
  · rw [if_pos hcom, if_pos (.inl hcom)]
    rfl
  · rw [if_neg hcom]
    by_cases hfull : (logSize : ℤ) < s.lh.n + (s.outstanding + 1) * maxOpBlocks
    · rw [if_pos hfull, if_pos (.inr hfull)]
      rfl
    · rw [if_neg hfull, if_neg (not_or.mpr ⟨hcom, hfull⟩)]
      rfl

/-- The header with one more block, unless it is listed already. -/
def Header.add (lh : Header) (b : Word) : Header where
  n := if (slot lh b : ℤ) = lh.n then lh.n + 1 else lh.n
  block := Function.update lh.block (slot lh b) b

/-- A block is looked for in the header. -/
theorem slot_cases (lh : Header) (b : Word) :
    (slot lh b < lh.n.toNat ∧ lh.block (slot lh b) = b) ∨
      slot lh b = lh.n.toNat ∧ ∀ i < lh.n.toNat, lh.block i ≠ b := by
  unfold slot
  cases hfind : (List.range lh.n.toNat).find? fun i => lh.block i == b with
  | some i =>
    have hi := List.mem_range.mp (List.mem_of_find?_eq_some hfind)
    have hb := List.find?_some hfind
    exact .inl ⟨hi, by simpa using hb⟩
  | none =>
    refine .inr ⟨rfl, fun i hi hb => ?_⟩
    have hnot := List.find?_eq_none.mp hfind i (List.mem_range.mpr hi)
    exact hnot (by simpa using hb)

variable {es : List Event} {a : Spec} {lh : Header}

/-- **Absorption.**  The header is as it was, or has the block as its last entry. -/
theorem Header.add_cases (hnonneg : 0 ≤ lh.n) (b : Word) :
    (lh.Lists lh.n.toNat b.toNat ∧ lh.add b = lh) ∨
      ¬ lh.Lists lh.n.toNat b.toNat ∧
        lh.add b = ⟨lh.n + 1, Function.update lh.block lh.n.toNat b⟩ := by
  rcases slot_cases lh b with ⟨hlt, hb⟩ | ⟨hslot, hnot⟩
  · have hsame : Function.update lh.block (slot lh b) b = lh.block := by
      rw [← Function.update_eq_self (slot lh b) lh.block, Function.update_idem, hb]
    refine .inl ⟨⟨slot lh b, hlt, by rw [hb]⟩, ?_⟩
    unfold Header.add
    rw [if_neg (by omega), hsame]
  · refine .inr ⟨?_, ?_⟩
    · rintro ⟨i, hi, hib⟩
      exact hnot i hi (BitVec.eq_of_toNat_eq hib)
    · unfold Header.add
      rw [hslot, if_pos (by omega)]

/-- The header lists the block, besides what it listed. -/
theorem Header.lists_add (hnonneg : 0 ≤ lh.n) (b : Word) (b' : ℕ) :
    (lh.add b).Lists (lh.add b).n.toNat b' ↔ lh.Lists lh.n.toNat b' ∨ b' = b.toNat := by
  rcases Header.add_cases hnonneg b with ⟨hlists, heq⟩ | ⟨-, heq⟩
  · rw [heq]
    constructor
    · exact .inl
    · rintro (h | rfl)
      · exact h
      · exact hlists
  · rw [heq, show (lh.n + 1).toNat = lh.n.toNat + 1 by omega, Header.lists_succ]
    dsimp only
    rw [Function.update_self]
    have hbelow : Header.Lists ⟨lh.n + 1, Function.update lh.block lh.n.toNat b⟩ lh.n.toNat b' ↔
        lh.Lists lh.n.toNat b' := by
      constructor
      · rintro ⟨i, hi, hib⟩
        dsimp only at hib
        rw [Function.update_of_ne (by omega)] at hib
        exact ⟨i, hi, hib⟩
      · rintro ⟨i, hi, hib⟩
        refine ⟨i, hi, ?_⟩
        dsimp only
        rw [Function.update_of_ne (by omega)]
        exact hib
    rw [hbelow]

theorem Header.Fits.add (h : lh.Fits start size) {b : Word} (hb : Target start size b.toNat)
    (hroom : lh.n < logSize) (hroom' : lh.n < size - 1) : (lh.add b).Fits start size := by
  rcases Header.add_cases h.nonneg b with ⟨-, heq⟩ | ⟨hnew, heq⟩
  · rw [heq]
    exact h
  · have hnonneg := h.nonneg
    have hsplit : ∀ i < (lh.n + 1).toNat, i < lh.n.toNat ∨ i = lh.n.toNat := by
      intro i hi
      omega
    rw [heq]
    refine ⟨by dsimp only; omega, by dsimp only; omega, by dsimp only; omega, fun i hi => ?_,
      fun i hi j hj hij => ?_⟩
    · dsimp only
      rcases hsplit i hi with hi | rfl
      · rw [Function.update_of_ne (by omega)]
        exact h.target i hi
      · rw [Function.update_self]
        exact hb
    · -- the new entry is not among the others
      dsimp only at hij
      rcases hsplit i hi with hi | rfl <;> rcases hsplit j hj with hj | rfl
      · rw [Function.update_of_ne (by omega), Function.update_of_ne (by omega)] at hij
        exact h.inj i hi j hj hij
      · rw [Function.update_of_ne (by omega), Function.update_self] at hij
        exact absurd ⟨i, hi, hij⟩ hnew
      · rw [Function.update_self, Function.update_of_ne (by omega)] at hij
        exact absurd ⟨j, hj, hij.symm⟩ hnew
      · rfl

/-- The state after an update. -/
def State.logged (s : State) (b : Word) (block : Memory) : State :=
  { s with
    data := Function.update s.data b.toNat block
    lh := s.lh.add b
    dirty := Function.update s.dirty b.toNat true }

/-- The log has no room for one more block. -/
def State.Full (s : State) : Prop := (logSize : ℤ) ≤ s.lh.n ∨ (s.size : ℤ) - 1 ≤ s.lh.n

instance (s : State) : Decidable s.Full := instDecidableOr

/-- **An update**: `log_write` panics if the log is full, or outside of a transaction. -/
theorem update_eq (b : Word) (block : Memory) (s : State) : update b block s =
    if s.Full then ([], .error (.panic "too big a transaction")
      { s with data := Function.update s.data b.toNat block })
    else if s.outstanding < 1 then ([], .error (.panic "log_write outside of trans")
      { s with data := Function.update s.data b.toNat block })
    else ([], .ok () (s.logged b block)) := by
  unfold update logWrite
  rw [modify_bind_apply, get_bind_apply, Crash.ite_apply, Crash.ite_apply]
  rfl

/-- An update is made in the cache, and the block is listed. -/
theorem Ready.logged (h : Ready start size out old new s) {b : Word}
    (hb : Target start size b.toNat) (hfull : ¬ s.Full) (block : Memory) :
    Ready start size out old (Function.update new b.toNat block) (s.logged b block) := by
  have hnonneg := h.fits.nonneg
  have hsize := h.size_eq
  have hroom := not_or.mp hfull
  have hlists := Header.lists_add hnonneg b
  refine ⟨⟨h.start_eq, h.size_eq, h.outstanding, h.committing, fun b' hb' => ?_⟩,
    h.fits.add hb (by omega) (by omega), fun b' hb' => ?_, h.disk, h.empty,
    fun b' hb' hnot => ?_, fun i hi => ?_⟩
  · exact (Function.update_of_ne (hb.1.ne hb').symm _ _).trans (h.logs b' hb')
  · unfold State.logged
    dsimp only
    by_cases hbb : b' = b.toNat
    · subst hbb
      rw [Function.update_self, Function.update_self]
    · rw [Function.update_of_ne hbb, Function.update_of_ne hbb]
      exact h.data b' hb'
  · -- a block that is not listed now is another one, and was not listed before
    obtain ⟨hbefore, hbb⟩ := not_or.mp (fun hor => hnot ((hlists b').mpr hor))
    rw [Function.update_of_ne hbb]
    exact h.same b' hb' hbefore
  · unfold State.logged
    dsimp only
    by_cases hbb : ((s.lh.add b).block i).toNat = b.toNat
    · rw [hbb, Function.update_self]
    · rw [Function.update_of_ne hbb]
      rcases (hlists _).mp ⟨i, hi, rfl⟩ with ⟨j, hj, hjb⟩ | heq
      · rw [← hjb]
        exact h.pinned j hj
      · exact absurd heq hbb

variable {path : List (Event × Spec)} {e : Event} {a a' : Spec} {op : ℕ}

/-- A call in progress updates a block. -/
theorem Ready.step_update {r : Running} (h : Ready start size out old new r.log) (hout : 1 ≤ out)
    (hop : op ∈ r.active) {b : Word} (hb : Target start size b.toNat) (hfull : ¬ r.log.Full)
    (block : Memory) :
    Step (.up r) (.update op b block) (.up ⟨r.log.logged b block, r.active,
      Function.update r.touched op (insert b.toNat (r.touched op))⟩) := by
  refine .update hop ?_ ?_
  · rw [h.start_eq, h.size_eq]
    exact hb
  · have hnonneg : ¬ r.log.outstanding < 1 := by
      rw [h.outstanding]
      omega
    rw [update_eq, if_neg hfull, if_neg hnonneg]

/-- A call begins if the log has room. -/
theorem Ready.step_begin {r : Running} (h : Ready start size out old new r.log)
    (hop : op ∉ r.active) (hroom : r.log.lh.n + (out + 1) * maxOpBlocks ≤ logSize) :
    Step (.up r) (.begin op) (.up ⟨{ r.log with outstanding := r.log.outstanding + 1 },
      insert op r.active, Function.update r.touched op ∅⟩) := by
  refine .begin hop ?_
  have hmay : ¬ (r.log.committing ∨
      (logSize : ℤ) < r.log.lh.n + (r.log.outstanding + 1) * maxOpBlocks) := by
    rw [h.committing, h.outstanding]
    exact not_or.mpr ⟨Bool.false_ne_true, not_lt.mpr hroom⟩
  rw [beginOp_eq, if_neg hmay]

/-! ## `end_op` -/

/-- A call that is not the last leaves the transaction open. -/
theorem endOp_of_ne (hcom : s.committing = false) (hout : s.outstanding ≠ 1) :
    endOp s = ([], .ok () { s with outstanding := s.outstanding - 1 }) := by
  unfold endOp
  rw [modify_bind_apply, get_bind_apply, Crash.ite_apply, Crash.ite_apply]
  dsimp only
  rw [hcom, if_neg (by decide), if_neg (by omega)]
  rfl

/-- **The last call commits.** -/
theorem endOp_runs :
    Runs (Ready start size 1 old new) endOp
      (fun _ s => Ready start size 0 new new s ∧ s.lh.n = 0)
      (fun d => OnDisk start size old d ∨ OnDisk start size new d) := by
  refine Runs.bind (Q := fun _ => Ready start size 0 old new) (Runs.modify ?_) fun _ => ?_
  · intro s hs
    have hout := hs.outstanding
    exact hs.recount (by omega)
  · refine Runs.get_bind fun s₀ hs₀ => ?_
    rw [hs₀.committing, hs₀.outstanding, if_neg (by decide), if_pos rfl]
    refine Runs.bind (Q := fun _ => Copied start size 0 true s₀.lh old new 0)
      (Runs.modify ?_) fun _ => ?_
    · rintro s rfl
      exact ⟨⟨hs₀.start_eq, hs₀.size_eq, hs₀.outstanding, rfl, hs₀.logs⟩, rfl, hs₀.data, hs₀.disk,
        hs₀.empty, fun i hi => absurd hi (Nat.not_lt_zero i)⟩
    · refine (commit_runs hs₀.fits hs₀.same).bind fun _ => Runs.modify fun s hs => ?_
      have hclean : Clean start size 0 false new { s with committing := false } :=
        ⟨⟨hs.start_eq, hs.size_eq, hs.outstanding, rfl, hs.logs⟩, hs.header, hs.data, hs.disk,
          hs.empty⟩
      exact ⟨hclean.ready hs₀.size_pos, hclean.header⟩

/-! ## The machine refines its specification -/

theorem applied_concat (us : List Update) (u : Update) (c : ℕ → Memory) :
    applied (us ++ [u]) c = Function.update (applied us c) u.b.toNat u.block := by
  unfold applied install
  rw [List.map_append, List.foldl_append]
  rfl

/-- Updates of blocks that may be in a transaction leave the super block alone. -/
theorem SuperBlock.applied (h : SuperBlock start size c) {us : List Update}
    (hus : ∀ u ∈ us, Target start size u.b.toNat) : SuperBlock start size (applied us c) := by
  have hone : Log.applied us c 1 = c 1 := by
    refine install_of_forall_ne ?_ c
    intro e he
    obtain ⟨u, hu, rfl⟩ := List.mem_map.mp he
    exact (hus u hu).2
  exact ⟨by rw [hone]; exact h.start_eq, by rw [hone]; exact h.size_eq, h.home⟩

theorem eq_singleton_of_mem {active : Finset ℕ} (hop : op ∈ active) (hcard : active.card = 1) :
    active = {op} := by
  obtain ⟨op', rfl⟩ := Finset.card_eq_one.mp hcard
  rw [Finset.mem_singleton.mp hop]

theorem erase_ne_empty {active : Finset ℕ} (hop : op ∈ active) (hcard : active.card ≠ 1) :
    active.erase op ≠ ∅ := by
  intro hnone
  have herase := Finset.card_erase_of_mem hop
  have hpos := Finset.card_pos.mpr ⟨op, hop⟩
  rw [hnone, Finset.card_empty] at herase
  omega

/-- A running machine has the durable updates on disk and all of them in the cache; with
the power off the disk stands for the durable ones. -/
inductive Refines (start size : ℕ) (c : ℕ → Memory) : Machine → Spec → Prop
  | up {r : Running} {durable pending : List Update}
      (hready : Ready start size r.active.card (applied durable c) (applied (durable ++ pending) c)
        r.log)
      (htargets : ∀ u ∈ durable ++ pending, Target start size u.b.toNat) :
      Refines start size c (.up r) (.up durable pending r.active)
  | down {d : ℕ → Memory} {durable : List Update}
      (hdisk : OnDisk start size (applied durable c) d)
      (htargets : ∀ u ∈ durable, Target start size u.b.toNat) :
      Refines start size c (.down d) (.down durable)

/-- **Every step of the machine is one of the specification.** -/
theorem Refines.step (hsuper : SuperBlock start size c) {m m' : Machine}
    (h : Refines start size c m a) (hstep : Step m e m') :
    ∃ a', Spec.Step a e a' ∧ Refines start size c m' a' := by
  cases hstep with
  | @begin r op s hop hrun =>
    cases h with
    | up hready htargets =>
      refine ⟨_, .begin hop, ?_⟩
      rw [beginOp_eq] at hrun
      split at hrun
      · cases hrun
      · cases hrun
        refine .up (r := ⟨_, insert op r.active, _⟩) ?_ htargets
        have hout := hready.outstanding
        refine hready.recount ?_
        rw [Finset.card_insert_of_notMem hop]
        omega
  | @update r op b block s hop htarget hrun =>
    cases h with
    | @up _ durable pending hready htargets =>
      refine ⟨_, .update hop, ?_⟩
      rw [update_eq] at hrun
      rw [hready.start_eq, hready.size_eq] at htarget
      split at hrun
      · cases hrun
      · split at hrun
        · cases hrun
        case isFalse.isFalse hfull _ =>
          cases hrun
          refine .up (r := ⟨_, r.active, _⟩) ?_ ?_
          · rw [← List.append_assoc, applied_concat]
            exact hready.logged htarget hfull block
          · intro u hu
            rw [← List.append_assoc, List.mem_append, List.mem_singleton] at hu
            rcases hu with hu | rfl
            · exact htargets u hu
            · exact htarget
  | @finish r op s hop hrun =>
    cases h with
    | @up _ durable pending hready htargets =>
      have hout := hready.outstanding
      by_cases hlast : r.active.card = 1
      · -- the transaction commits
        have hactive := eq_singleton_of_mem hop hlast
        rw [hlast, Nat.cast_one] at hready
        obtain ⟨-, _, s', hend, hdone, -⟩ := endOp_runs r.log hready
        cases hrun.symm.trans hend
        refine ⟨.up (durable ++ pending) [] (r.active.erase op), ?_, ?_⟩
        · rw [hactive, Finset.erase_singleton]
          exact .commit
        · refine .up (r := ⟨s, r.active.erase op, r.touched⟩) ?_ (by rwa [List.append_nil])
          rw [hactive, Finset.erase_singleton, List.append_nil]
          exact hdone
      · rw [endOp_of_ne hready.committing (by omega)] at hrun
        cases hrun
        have hcard := Finset.card_erase_of_mem hop
        have hpos := Finset.card_pos.mpr ⟨op, hop⟩
        refine ⟨_, .finish hop (erase_ne_empty hop hlast),
          .up (r := ⟨_, r.active.erase op, r.touched⟩) ?_ htargets⟩
        exact hready.recount (by dsimp only; omega)
  | @crash r =>
    cases h with
    | @up _ durable pending hready htargets =>
      exact ⟨_, .crash, .down hready.onDisk fun u hu => htargets u (List.mem_append_left _ hu)⟩
  | @cutFinish r op d hop hcut =>
    cases h with
    | @up _ durable pending hready htargets =>
      have hout := hready.outstanding
      by_cases hlast : r.active.card = 1
      · rw [hlast, Nat.cast_one] at hready
        rw [eq_singleton_of_mem hop hlast]
        rcases (endOp_runs r.log hready).1 d hcut with hold | hnew
        · exact ⟨_, .cutBefore,
            .down hold fun u hu => htargets u (List.mem_append_left _ hu)⟩
        · exact ⟨_, .cutAfter, .down hnew htargets⟩
      · -- a call that is not the last writes nothing
        rw [endOp_of_ne hready.committing (by omega)] at hcut
        exact absurd hcut List.not_mem_nil
  | @boot d s hrun =>
    cases h with
    | @down _ durable hdisk htargets =>
      refine ⟨_, .boot, ?_⟩
      obtain ⟨-, _, s', hend, hclean⟩ :=
        initlog_runs hdisk (hsuper.applied htargets) (Log.boot d) rfl
      cases hrun.symm.trans hend
      refine .up (r := ⟨s, ∅, _⟩) ?_ ?_
      · rw [List.append_nil]
        exact hclean.ready (by have := hdisk.fits.nonneg; have := hdisk.fits.lt; omega)
      · rwa [List.append_nil]
  | @cutBoot d d' hcut =>
    cases h with
    | @down _ durable hdisk htargets =>
      refine ⟨_, .cutBoot, .down ?_ htargets⟩
      exact (initlog_runs hdisk (hsuper.applied htargets) (Log.boot d) rfl).1 d' hcut

/-! ## All or nothing -/

/-- The update that is made in a step. -/
def Event.made : Event → Option Update
  | .update op b block => some ⟨op, b, block⟩
  | _ => none

/-- The call that begins in a step. -/
def Event.began : Event → Option ℕ
  | .begin op => some op
  | _ => none

/-- The call whose `end_op` runs in a step, to its end or until the power fails. -/
def Event.ended : Event → Option ℕ
  | .finish op => some op
  | .cutFinish op => some op
  | _ => none

/-- The power fails in a step. -/
def Event.fails : Event → Bool
  | .crash => true
  | .cutFinish _ => true
  | .cutBoot => true
  | _ => false

/-- The updates of one call. -/
def mine (op : ℕ) (us : List Update) : List Update := us.filter (·.op = op)

theorem mine_append (op : ℕ) (us vs : List Update) : mine op (us ++ vs) = mine op us ++ mine op vs :=
  List.filter_append ..

theorem mine_of_sublist {us vs : List Update} (h : us.Sublist vs) (hvs : mine op vs = []) :
    mine op us = [] := by
  have hsub := h.filter fun u => u.op = op
  unfold mine at hvs ⊢
  rw [hvs] at hsub
  exact List.sublist_nil.mp hsub

/-- The updates made in some steps. -/
def made (es : List Event) : List Update := es.filterMap Event.made

/-- The calls begun. -/
def began (es : List Event) : List ℕ := es.filterMap Event.began

/-- The calls that have come to their `end_op`. -/
def ended (es : List Event) : List ℕ := es.filterMap Event.ended

/-- None of the updates of a call is among some updates, or the call has come to its `end_op`
and all of them are. -/
def Whole (es : List Event) (us : List Update) (op : ℕ) : Prop :=
  mine op us = [] ∨ op ∈ ended es ∧ mine op us = mine op (made es)

theorem made_concat (es : List Event) (e : Event) : made (es ++ [e]) = made es ++ e.made.toList := by
  unfold made
  rw [List.filterMap_append, List.filterMap_cons]
  cases e.made <;> rfl

theorem began_concat (es : List Event) (e : Event) :
    began (es ++ [e]) = began es ++ e.began.toList := by
  unfold began
  rw [List.filterMap_append, List.filterMap_cons]
  cases e.began <;> rfl

theorem ended_concat (es : List Event) (e : Event) :
    ended (es ++ [e]) = ended es ++ e.ended.toList := by
  unfold ended
  rw [List.filterMap_append, List.filterMap_cons]
  cases e.ended <;> rfl

theorem mem_ended_concat (h : e.ended = some op) : op ∈ ended (es ++ [e]) := by
  rw [ended_concat, h]
  exact List.mem_append_right _ (List.mem_singleton_self op)

/-- What the steps so far have made of the durable updates `us`, those of the open
transaction being in `all` too: a call in progress has all of its updates there and none of
them is durable. -/
structure Kept (es : List Event) (all us : List Update) (active : Finset ℕ) : Prop where
  sub : all.Sublist (made es)
  begun : ∀ u ∈ made es, u.op ∈ began es
  ongoing : ∀ op ∈ active, op ∈ began es ∧ mine op us = [] ∧ mine op all = mine op (made es)
  durable : ∀ op, Whole es us op
  past : ∀ op ∉ active, Whole es all op

/-- The same, for a state of the specification. -/
def Tracks (es : List Event) : Spec → Prop
  | .up durable pending active => Kept es (durable ++ pending) durable active
  | .down durable => Kept es durable durable ∅

section

variable {es : List Event} {all us : List Update} {active : Finset ℕ}

variable {op : ℕ}

/-- A step that makes no update of a call. -/
theorem Whole.concat (h : Whole es us op) {e : Event}
    (hmade : mine op (made (es ++ [e])) = mine op (made es)) : Whole (es ++ [e]) us op := by
  rcases h with hnone | ⟨hended, hall⟩
  · exact .inl hnone
  · refine .inr ⟨?_, hall.trans hmade.symm⟩
    rw [ended_concat]
    exact List.mem_append_left _ hended

/-- A step that makes no update and begins no call. -/
theorem Kept.quiet (h : Kept es all us active) {e : Event} (hmade : e.made = none)
    (hbegan : e.began = none) : Kept (es ++ [e]) all us active := by
  have hm : made (es ++ [e]) = made es := by rw [made_concat, hmade]; exact List.append_nil _
  have hb : began (es ++ [e]) = began es := by rw [began_concat, hbegan]; exact List.append_nil _
  constructor
  · rw [hm]
    exact h.sub
  · rw [hm, hb]
    exact h.begun
  · rw [hm, hb]
    exact h.ongoing
  · exact fun op => (h.durable op).concat (by rw [hm])
  · exact fun op hop => (h.past op hop).concat (by rw [hm])

/-- A call that has come to its `end_op` takes no part in the transaction any more. -/
theorem Kept.leave (h : Kept es all us active) (hended : op ∈ ended es) :
    Kept es all us (active.erase op) := by
  refine ⟨h.sub, h.begun, fun op' hop' => h.ongoing op' (Finset.mem_of_mem_erase hop'), h.durable,
    fun op' hop' => ?_⟩
  by_cases hactive : op' ∈ active
  · obtain rfl : op' = op := by
      by_contra hne
      exact hop' (Finset.mem_erase.mpr ⟨hne, hactive⟩)
    exact .inr ⟨hended, (h.ongoing op' hactive).2.2⟩
  · exact h.past op' hactive

/-- The open transaction becomes durable when no call takes part in it any more. -/
theorem Kept.commit (h : Kept es all us ∅) : Kept es all all ∅ :=
  ⟨h.sub, h.begun, fun op hop => absurd hop (Finset.notMem_empty op),
    fun op => h.past op (Finset.notMem_empty op), h.past⟩

/-- The open transaction is lost. -/
theorem Kept.lose (h : Kept es all us active) (hsub : us.Sublist all) : Kept es us us ∅ :=
  ⟨hsub.trans h.sub, h.begun, fun op hop => absurd hop (Finset.notMem_empty op), h.durable,
    fun op _ => h.durable op⟩

/-- A call begins that has made no update so far. -/
theorem Kept.begin (h : Kept es all us active) (hsub : us.Sublist all) (hnew : op ∉ began es) :
    Kept (es ++ [.begin op]) all us (insert op active) := by
  have hm : made (es ++ [.begin op]) = made es := by
    rw [made_concat]
    exact List.append_nil _
  have hb : began (es ++ [.begin op]) = began es ++ [op] := began_concat es _
  have hnone : mine op (made es) = [] := by
    refine List.filter_eq_nil_iff.mpr fun u hu hop => hnew ?_
    rw [← of_decide_eq_true hop]
    exact h.begun u hu
  constructor
  · rw [hm]
    exact h.sub
  · rw [hm, hb]
    exact fun u hu => List.mem_append_left _ (h.begun u hu)
  · intro op' hop'
    rw [hm, hb]
    rcases Finset.mem_insert.mp hop' with rfl | hop'
    · refine ⟨List.mem_append_right _ (List.mem_singleton_self _), ?_, ?_⟩
      · exact mine_of_sublist (hsub.trans h.sub) hnone
      · rw [hnone]
        exact mine_of_sublist h.sub hnone
    · obtain ⟨hbegan, hrest⟩ := h.ongoing op' hop'
      exact ⟨List.mem_append_left _ hbegan, hrest⟩
  · exact fun op' => (h.durable op').concat (by rw [hm])
  · intro op' hop'
    exact (h.past op' fun hmem => hop' (Finset.mem_insert_of_mem hmem)).concat (by rw [hm])

/-- An active call makes an update. -/
theorem Kept.update (h : Kept es all us active) (hop : op ∈ active) (b : Word) (block : Memory) :
    Kept (es ++ [.update op b block]) (all ++ [⟨op, b, block⟩]) us active := by
  have hm : made (es ++ [.update op b block]) = made es ++ [⟨op, b, block⟩] := made_concat es _
  have hb : began (es ++ [.update op b block]) = began es := by
    rw [began_concat]
    exact List.append_nil _
  obtain ⟨hbegan, hdurable, -⟩ := h.ongoing op hop
  -- the lists of the other calls do not change
  have hother : ∀ op' ≠ op, ∀ us, mine op' (us ++ [⟨op, b, block⟩]) = mine op' us := by
    intro op' hne us
    have hnone : mine op' [⟨op, b, block⟩] = [] :=
      List.filter_eq_nil_iff.mpr fun u hu hop' => hne (by
        rw [← of_decide_eq_true hop', List.mem_singleton.mp hu])
    rw [mine_append, hnone, List.append_nil]
  rw [← hb] at hbegan
  constructor
  · rw [hm]
    exact h.sub.append_right _
  · rw [hm]
    intro u hu
    rcases List.mem_append.mp hu with hu | hu
    · rw [hb]
      exact h.begun u hu
    · rw [List.mem_singleton.mp hu]
      exact hbegan
  · intro op' hop'
    rw [hm, hb]
    obtain ⟨hbegan', hdurable', hall'⟩ := h.ongoing op' hop'
    refine ⟨hbegan', hdurable', ?_⟩
    rw [mine_append, mine_append, hall']
  · intro op'
    by_cases hne : op' = op
    · subst hne
      exact .inl hdurable
    · exact (h.durable op').concat (by rw [hm, hother op' hne])
  · intro op' hop'
    have hne : op' ≠ op := fun heq => hop' (heq ▸ hop)
    unfold Whole
    rw [hother op' hne]
    exact (h.past op' hop').concat (by rw [hm, hother op' hne])

end

/-- **A step of the specification tears no call**, if every call has a name of its own. -/
theorem Tracks.step (h : Tracks es a) (hstep : Spec.Step a e a') (honce : (began (es ++ [e])).Nodup) :
    Tracks (es ++ [e]) a' := by
  cases hstep with
  | @begin durable pending active op hop =>
    rw [began_concat] at honce
    exact Kept.begin h (List.sublist_append_left _ _) fun hmem =>
      List.disjoint_of_nodup_append honce hmem (List.mem_singleton_self op)
  | @update durable pending active op b block hop =>
    have hkept := Kept.update h hop b block
    rwa [List.append_assoc] at hkept
  | @finish durable pending active op hop hmore =>
    exact (Kept.quiet (e := .finish op) h rfl rfl).leave (mem_ended_concat rfl)
  | @commit durable pending op =>
    have hkept := (Kept.quiet (e := .finish op) h rfl rfl).leave (mem_ended_concat rfl)
    rw [Finset.erase_singleton] at hkept
    show Kept _ (_ ++ []) _ _
    rw [List.append_nil]
    exact hkept.commit
  | crash => exact (Kept.quiet h rfl rfl).lose (List.sublist_append_left _ _)
  | cutBefore => exact (Kept.quiet h rfl rfl).lose (List.sublist_append_left _ _)
  | @cutAfter durable pending op =>
    have hkept := (Kept.quiet (e := .cutFinish op) h rfl rfl).leave (mem_ended_concat rfl)
    rw [Finset.erase_singleton] at hkept
    exact hkept.commit
  | boot =>
    have hkept := Kept.quiet (e := .boot) h rfl rfl
    show Kept _ (_ ++ []) _ _
    rwa [List.append_nil]
  | cutBoot => exact Kept.quiet h rfl rfl

/-- **No run of the specification tears a call.** -/
theorem Tracks.run (h : Tracks es a) (hrun : Transitions.Path Spec.Step a path)
    (honce : (began (es ++ path.map Prod.fst)).Nodup) :
    Tracks (es ++ path.map Prod.fst) (Transitions.last a path) := by
  induction hrun generalizing es with
  | nil => rwa [List.map_nil, List.append_nil]
  | @cons a a' e path hstep hrest ih =>
    rw [List.map_cons, List.append_cons] at honce ⊢
    have hfirst : (began (es ++ [e])).Nodup := by
      unfold began at honce ⊢
      rw [List.filterMap_append] at honce
      exact (List.nodup_append.mp honce).1
    exact ih (h.step hstep hfirst) honce

/-- The updates that a state of the specification has made durable. -/
def Spec.durable : Spec → List Update
  | .up durable _ _ => durable
  | .down durable => durable

/-- The updates that it has seen and that no crash has taken. -/
def Spec.seen : Spec → List Update
  | .up durable pending _ => durable ++ pending
  | .down durable => durable

/-- As long as the power does not fail, no update is forgotten. -/
theorem Spec.Step.seen_eq (h : Spec.Step a e a') (hpower : e.fails = false) :
    a'.seen = a.seen ++ e.made.toList := by
  cases h with
  | begin | finish => exact (List.append_nil _).symm
  | update => exact (List.append_assoc _ _ _).symm
  | commit => rfl
  | boot => rfl
  | crash | cutBefore | cutAfter | cutBoot => cases hpower

theorem Spec.seen_of_path (h : Transitions.Path Spec.Step a path)
    (hpower : ∀ e ∈ path.map Prod.fst, e.fails = false) :
    (Transitions.last a path).seen = a.seen ++ made (path.map Prod.fst) := by
  induction h with
  | nil => exact (List.append_nil _).symm
  | @cons a a' e path hstep _ ih =>
    have hrest := ih fun e' he' => hpower e' (List.mem_cons_of_mem _ he')
    have hfirst := hstep.seen_eq (hpower e List.mem_cons_self)
    have hmade : made (e :: path.map Prod.fst) = e.made.toList ++ made (path.map Prod.fst) := by
      unfold made
      rw [List.filterMap_cons]
      cases e.made <;> rfl
    rw [List.map_cons, hmade, ← List.append_assoc, ← hfirst]
    exact hrest

/-- What is durable stays so. -/
theorem Spec.Step.durable_prefix (h : Spec.Step a e a') : a.durable <+: a'.durable := by
  cases h with
  | commit => exact List.prefix_append _ _
  | cutAfter => exact List.prefix_append _ _
  | begin | update | finish | crash | cutBefore | boot | cutBoot => exact List.prefix_rfl

theorem Spec.durable_prefix_of_path (h : Transitions.Path Spec.Step a path) :
    a.durable <+: (Transitions.last a path).durable := by
  induction h with
  | nil => exact List.prefix_rfl
  | cons hstep _ ih => exact hstep.durable_prefix.trans ih

/-- With no call in progress there is no open transaction. -/
def Spec.Settled : Spec → Prop
  | .up _ pending active => active = ∅ → pending = []
  | .down _ => True

theorem Spec.Step.settled (h : Spec.Step a e a') : a'.Settled := by
  cases h with
  | begin => exact fun hnone => absurd hnone (Finset.insert_ne_empty _ _)
  | update hop => exact fun hnone => absurd hop (hnone ▸ Finset.notMem_empty _)
  | finish hop hmore => exact fun hnone => absurd hnone hmore
  | commit => exact fun _ => rfl
  | boot => exact fun _ => rfl
  | crash | cutBefore | cutAfter | cutBoot => exact trivial

theorem Spec.settled_of_path (ha : a.Settled) (h : Transitions.Path Spec.Step a path) :
    (Transitions.last a path).Settled := by
  induction h with
  | nil => exact ha
  | cons hstep _ ih => exact ih hstep.settled

variable {path : List (Event × Machine)}

/-- A disk before any update. -/
theorem Refines.initial (hd : OnDisk start size c d) : Refines start size c (.down d) (.down []) :=
  .down hd fun _ hu => absurd hu List.not_mem_nil

/-- **Every run of the machine, from a disk that stands for `c`, is one of the
specification**, point by point. -/
theorem run_refines (hsuper : SuperBlock start size c) (hd : OnDisk start size c d)
    (hrun : Transitions.Path Step (.down d) path) :
    ∃ spec, Transitions.Path Spec.Step (.down []) spec ∧
      spec.map Prod.fst = path.map Prod.fst ∧
      Refines start size c (Transitions.last (.down d) path) (Transitions.last (.down []) spec) ∧
      ∀ before after, path = before ++ after → ∃ before' after', spec = before' ++ after' ∧
        before'.map Prod.fst = before.map Prod.fst ∧
        Refines start size c (Transitions.last (.down d) before)
          (Transitions.last (.down []) before') :=
  hrun.simulation (fun _ _ _ _ hR hstep => hR.step hsuper hstep) (.initial hd)

/-- What a run of the specification has seen ends with what was made since the power last
failed. -/
theorem Spec.made_suffix_seen {spec : List (Event × Spec)}
    (hspec : Transitions.Path Spec.Step (.down []) spec) {es es' : List Event}
    (hevents : spec.map Prod.fst = es ++ es') (hpower : ∀ e ∈ es', e.fails = false) :
    made es' <:+ (Transitions.last (.down []) spec).seen := by
  obtain ⟨earlier, later, rfl, -, rfl⟩ := List.map_eq_append_iff.mp hevents
  rw [Transitions.last_append, Spec.seen_of_path hspec.of_append_right hpower]
  exact List.suffix_append _ _

/-- **Transactions are atomic across crashes.**  Whatever calls run side by side and wherever
the power fails, in a commit or in recovery, the disk stands for the blocks of which some
updates are durable: of a call that has come to its `end_op` all updates or none, of any other
call none.  Whenever no call was in progress, all updates made since the power last failed
were among them, and the cache held what they give.  Recovery returns, and leaves the blocks
with the durable updates on disk and in the cache. -/
theorem recovery_atomic (hsuper : SuperBlock start size c) (hd : OnDisk start size c d)
    (hrun : Transitions.Path Step (.down d) path)
    (honce : (began (path.map Prod.fst)).Nodup) {d' : ℕ → Memory}
    (hdown : Transitions.last (.down d) path = .down d') :
    ∃ durable : List Update,
      durable.Sublist (made (path.map Prod.fst)) ∧
      (∀ op, Whole (path.map Prod.fst) durable op) ∧
      (∀ before after r, path = before ++ after → Transitions.last (.down d) before = .up r →
        r.active = ∅ → ∃ us, us <+: durable ∧
          (∀ es es', before.map Prod.fst = es ++ es' → (∀ e ∈ es', e.fails = false) →
            made es' <:+ us) ∧
          ∀ b, Home start size b → r.log.data b = applied us c b) ∧
      ∃ s, (initlog (boot d')).2 = .ok () s ∧
        ∀ b, Home start size b → s.data b = applied durable c b ∧ s.disk b = applied durable c b := by
  obtain ⟨spec, hspec, hevents, hlast, hpoints⟩ := run_refines hsuper hd hrun
  have htracks : Tracks (path.map Prod.fst) (Transitions.last (.down []) spec) := by
    have hstart : Tracks [] (.down []) :=
      ⟨List.Sublist.slnil, fun u hu => absurd hu List.not_mem_nil,
        fun op hop => absurd hop (Finset.notMem_empty op), fun _ => .inl rfl, fun _ _ => .inl rfl⟩
    rw [← hevents] at honce ⊢
    exact hstart.run hspec honce
  have hpre : ∀ before' after', spec = before' ++ after' →
      (Transitions.last (.down []) before').durable <+:
        (Transitions.last (.down []) spec).durable := by
    rintro before' after' rfl
    rw [Transitions.last_append]
    exact Spec.durable_prefix_of_path hspec.of_append_right
  rw [hdown] at hlast
  generalize Transitions.last (.down []) spec = a at hlast htracks hpre
  cases hlast with
  | @down _ durable hdisk htargets =>
    refine ⟨durable, htracks.sub, htracks.durable, fun before after r hsplit hup hidle => ?_, ?_⟩
    · obtain ⟨before', after', hsplit', hevents', hpoint⟩ := hpoints before after hsplit
      have hspec' := (hsplit' ▸ hspec).of_append
      have hsettled := Spec.settled_of_path (a := .down []) trivial hspec'
      have hearlier := hpre before' after' hsplit'
      have hseen := fun es es' (h : before.map Prod.fst = es ++ es') =>
        Spec.made_suffix_seen hspec' (hevents'.trans h)
      rw [hup] at hpoint
      generalize Transitions.last (.down []) before' = a' at hpoint hsettled hearlier hseen
      cases hpoint with
      | @up _ earlier pending hready _ =>
        have hall : earlier ++ pending = earlier := by rw [hsettled hidle, List.append_nil]
        refine ⟨earlier, hearlier, fun es es' h hpower => ?_, fun b hb => ?_⟩
        · rw [← hall]
          exact hseen es es' h hpower
        · rw [hready.data b hb, hall]
    · obtain ⟨-, _, s, hend, hclean⟩ :=
        initlog_runs hdisk (hsuper.applied htargets) (boot d') rfl
      exact ⟨s, hend, fun b hb => ⟨hclean.data b hb, hclean.disk b hb⟩⟩

/-! ## A run -/

/-- A disk with a log of thirty blocks behind the super block, and nothing else. -/
def freshDisk : ℕ → Memory := fun b =>
  if b = 1 then putField 12 (30 : Word) (putField 16 (2 : Word) fun _ => 0) else fun _ => 0

theorem freshDisk_superBlock : SuperBlock 2 30 freshDisk := by
  have hblock : freshDisk 1 = putField 12 (30 : Word) (putField 16 (2 : Word) fun _ => 0) := rfl
  refine ⟨?_, ?_, .inl (by decide)⟩
  · rw [hblock, field_putField_disjoint _ _ (by decide), field_putField_same (by decide)]
    rfl
  · rw [hblock, field_putField_same (by decide)]
    rfl

theorem freshDisk_onDisk : OnDisk 2 30 freshDisk freshDisk :=
  .of_empty (by decide) rfl fun _ _ => rfl

/-- A call begins after boot. -/
theorem exists_boot_begin : ∃ r : Running,
    Transitions.Path Step (.down freshDisk)
      [(.boot, .up ⟨{ r.log with outstanding := 0 }, ∅, fun _ => ∅⟩), (.begin 0, .up r)] ∧
    Ready 2 30 1 freshDisk freshDisk r.log ∧ r.log.lh.n = 0 ∧ r.active = {0} ∧
    r.touched = fun _ => ∅ := by
  obtain ⟨-, _, s, hend, hclean⟩ :=
    initlog_runs freshDisk_onDisk freshDisk_superBlock (boot freshDisk) rfl
  have hready := hclean.ready (by decide)
  have hzero := hclean.header
  have hout := hready.outstanding
  have hs : s = { s with outstanding := 0 } := by rw [← hout]
  refine ⟨⟨{ s with outstanding := s.outstanding + 1 }, {0}, fun _ => ∅⟩, ?_,
    hready.recount (by omega), hzero, rfl, rfl⟩
  have hstep := Ready.step_begin (r := ⟨s, ∅, fun _ => ∅⟩) hready (Finset.notMem_empty 0)
    (by rw [hzero]; decide)
  have htouched : Function.update (fun _ : ℕ => (∅ : Finset ℕ)) 0 ∅ = fun _ => ∅ :=
    Function.update_eq_self 0 _
  rw [htouched] at hstep
  dsimp only
  rw [← hs]
  exact .cons (.boot hend) (.cons hstep .nil)

/-- One call updates block 40 and ends, another updates block 41 and the power fails. -/
theorem exists_crash_after_commit : ∃ (before after : List (Event × Machine)) (r : Running)
    (d' : ℕ → Memory), Transitions.Path Step (.down freshDisk) (before ++ after) ∧
    before.map Prod.fst = [.boot, .begin 0, .update 0 40 fun _ => 7, .finish 0] ∧
    after.map Prod.fst = [.begin 1, .update 1 41 fun _ => 9, .crash] ∧
    Transitions.last (.down freshDisk) before = .up r ∧ r.active = ∅ ∧
    Transitions.last (.down freshDisk) (before ++ after) = .down d' := by
  obtain ⟨r, hpath, hready, hzero, hactive, -⟩ := exists_boot_begin
  have hmem : 0 ∈ r.active := hactive ▸ Finset.mem_singleton_self 0
  have hidle : r.active.erase 0 = ∅ := by rw [hactive, Finset.erase_singleton]
  have hempty : ∀ s : State, s.lh.n = 0 → s.size = 30 → ¬ s.Full := by
    intro s hn hsize
    unfold State.Full
    rw [hn, hsize]
    decide
  have h40 : Target 2 30 (40 : Word).toNat := ⟨.inr (by decide), by decide⟩
  have h41 : Target 2 30 (41 : Word).toNat := ⟨.inr (by decide), by decide⟩
  have hroom := hempty r.log hzero hready.size_eq
  have hupdate := hready.step_update (by decide) hmem h40 hroom fun _ => 7
  -- the first call commits
  obtain ⟨-, _, s, hend, hdone, hzero'⟩ := endOp_runs _ (hready.logged h40 hroom fun _ => 7)
  have hbegin := Ready.step_begin (r := ⟨s, r.active.erase 0, Function.update r.touched 0
    (insert (40 : Word).toNat (r.touched 0))⟩) hdone (hidle ▸ Finset.notMem_empty 1)
    (by rw [hzero']; decide)
  have hbegun := hdone.recount (n := s.outstanding + 1) (m := 1) (by rw [hdone.outstanding]; rfl)
  have hupdate' := fun touched => Ready.step_update
    (r := ⟨{ s with outstanding := s.outstanding + 1 }, insert 1 (r.active.erase 0), touched⟩)
    hbegun (by decide) (Finset.mem_insert_self 1 _) h41 (hempty _ hzero' hdone.size_eq) fun _ => 9
  exact ⟨_, _, _, _, (hpath.append (.cons hupdate (.cons (.finish hmem hend) .nil))).append
    (.cons hbegin (.cons (hupdate' _) (.cons .crash .nil))), rfl, rfl, rfl, hidle, rfl⟩

/-- The update of the call that ended is there after recovery, the other is not. -/
theorem recovery_atomic_of_crash : ∃ (path : List (Event × Machine)) (d' : ℕ → Memory) (s : State),
    path.map Prod.fst = [.boot, .begin 0, .update 0 40 fun _ => 7, .finish 0, .begin 1,
      .update 1 41 fun _ => 9, .crash] ∧
    Transitions.last (.down freshDisk) path = .down d' ∧ (initlog (boot d')).2 = .ok () s ∧
    s.data 40 = (fun _ => 7) ∧ s.data 41 = freshDisk 41 := by
  obtain ⟨before, after, r, d', hrun, hbefore, hafter, hup, hidle, hdown⟩ :=
    exists_crash_after_commit
  have hevents : (before ++ after).map Prod.fst = [.boot, .begin 0, .update 0 40 fun _ => 7,
      .finish 0, .begin 1, .update 1 41 fun _ => 9, .crash] := by
    rw [List.map_append, hbefore, hafter]
    rfl
  obtain ⟨durable, hsub, hwhole, hidles, s, hend, hs⟩ := recovery_atomic freshDisk_superBlock
    freshDisk_onDisk hrun (by rw [hevents]; decide) hdown
  obtain ⟨us, hus, hmade, -⟩ := hidles before after r rfl hup hidle
  have hfirst : made [.boot, .begin 0, .update 0 40 fun _ => 7, .finish 0] <:+ us :=
    hmade [] _ hbefore (by simp [Event.fails])
  have hmem : ⟨0, 40, fun _ => 7⟩ ∈ durable :=
    hus.subset (hfirst.subset (List.mem_singleton_self _))
  rw [hevents] at hsub hwhole
  have hsecond : mine 1 durable = [] := (hwhole 1).resolve_right fun h => absurd h.1 (by decide)
  have hdurable : durable = [⟨0, 40, fun _ => 7⟩] := by
    rcases List.sublist_cons_iff.mp hsub with h | ⟨rest, rfl, h⟩
    · rcases List.sublist_singleton.mp h with rfl | rfl
      · exact absurd hmem List.not_mem_nil
      · cases hsecond
    · rcases List.sublist_singleton.mp h with rfl | rfl
      · rfl
      · cases hsecond
  have happlied : applied durable freshDisk = Function.update freshDisk 40 fun _ => 7 := by
    rw [hdurable]
    rfl
  have h40 := (hs 40 (.inr (by decide))).1
  have h41 := (hs 41 (.inr (by decide))).1
  rw [happlied] at h40 h41
  exact ⟨_, d', s, hevents, hdown, hend, h40.trans (Function.update_self ..),
    h41.trans (Function.update_of_ne (by decide) ..)⟩

end Xv6.Log
