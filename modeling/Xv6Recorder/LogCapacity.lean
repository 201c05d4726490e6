/-
# Room in the log

`begin_op` lets a call start if the log has room for `MAXOPBLOCKS` blocks of each call in
progress, and `log_write` panics when the log is full.  It does so before it looks whether
the block is in the log already, and `mkfs` makes a log of `LOGSIZE` blocks of which one is
the header, so that a transaction of `LOGSIZE` blocks does not fit.  Calls that write one
block less than they may always find room.
-/
import Xv6Recorder.LogSystem

open Bytes Crash

namespace Xv6.Log

/-- No call has updated more than `k` blocks. -/
def Machine.Bounded (k : ℕ) : Machine → Prop
  | .up r => ∀ op ∈ r.active, (r.touched op).card ≤ k
  | .down _ => True

/-- The blocks that the calls in progress may still add. -/
def Running.allowance (k : ℕ) (r : Running) : ℤ :=
  ∑ op ∈ r.active, ((k : ℤ) - (r.touched op).card)

/-- What the log holds and what the calls in progress may still add stay within a bound
that only `begin_op` has to watch.  At least two calls take part in a transaction when
something has been logged before a call begins. -/
structure Reserved (k : ℕ) (r : Running) : Prop where
  bounded : ∀ op ∈ r.active, (r.touched op).card ≤ k
  listed : ∀ op ∈ r.active, ∀ b ∈ r.touched op, r.log.lh.Lists r.log.lh.n.toNat b
  room : r.log.lh.n + r.allowance k ≤ maxOpBlocks + 2 * k
  idle : r.active = ∅ → r.log.lh.n = 0

variable {k start size : ℕ} {c d : ℕ → Memory} {r : Running}

theorem Reserved.le (h : Reserved k r) : r.log.lh.n ≤ maxOpBlocks + 2 * k := by
  have hroom := h.room
  have hnonneg : 0 ≤ r.allowance k := by
    refine Finset.sum_nonneg fun op hop => ?_
    have := h.bounded op hop
    omega
  omega

theorem Running.allowance_le (r : Running) : r.allowance k ≤ r.active.card * k := by
  have hle : ∀ op ∈ r.active, (k : ℤ) - (r.touched op).card ≤ k := by
    intro op _
    omega
  have hsum := Finset.sum_le_card_nsmul r.active _ (k : ℤ) hle
  rwa [nsmul_eq_mul] at hsum

/-- What one call may still add, and the others. -/
theorem Running.allowance_eq (r : Running) {op : ℕ} (hop : op ∈ r.active) : r.allowance k =
    ((k : ℤ) - (r.touched op).card) + ∑ op' ∈ r.active.erase op, ((k : ℤ) - (r.touched op').card) :=
  (Finset.add_sum_erase r.active _ hop).symm

/-- A call that updates one more block may add one less. -/
theorem Running.allowance_touch (r : Running) (s : State) {op b : ℕ} (hop : op ∈ r.active) :
    Running.allowance k ⟨s, r.active, Function.update r.touched op (insert b (r.touched op))⟩ =
      r.allowance k - if b ∈ r.touched op then 0 else 1 := by
  have hsplit := Running.allowance_eq (k := k)
    ⟨s, r.active, Function.update r.touched op (insert b (r.touched op))⟩ hop
  dsimp only at hsplit
  rw [hsplit, r.allowance_eq hop]
  have hothers : ∑ op' ∈ r.active.erase op, ((k : ℤ) -
      (Function.update r.touched op (insert b (r.touched op)) op').card) =
      ∑ op' ∈ r.active.erase op, ((k : ℤ) - (r.touched op').card) := by
    refine Finset.sum_congr rfl fun op' hop' => ?_
    rw [Function.update_of_ne (Finset.ne_of_mem_erase hop')]
  rw [hothers, Function.update_self]
  split
  case isTrue hb =>
    rw [Finset.insert_eq_of_mem hb]
    omega
  case isFalse hb =>
    rw [Finset.card_insert_of_notMem hb]
    omega

/-- A call that begins: `begin_op` has looked at what all calls may still add. -/
theorem Reserved.begin (hk : k ≤ maxOpBlocks) (h : Reserved k r) {s : State} {op : ℕ}
    (hop : op ∉ r.active) (hs : s.lh = r.log.lh)
    (hroom : r.log.lh.n + (r.active.card + 1) * maxOpBlocks ≤ logSize)
    (hbound : (Machine.up ⟨s, insert op r.active, Function.update r.touched op ∅⟩).Bounded k) :
    Reserved k ⟨s, insert op r.active, Function.update r.touched op ∅⟩ := by
  refine ⟨hbound, fun op' hop' b hb => ?_, ?_, fun hnone => absurd hnone (Finset.insert_ne_empty _ _)⟩
  · dsimp only at hb hop' ⊢
    rw [hs]
    by_cases hne : op' = op
    · subst hne
      rw [Function.update_self] at hb
      exact absurd hb (Finset.notMem_empty b)
    · rw [Function.update_of_ne hne] at hb
      exact h.listed op' (Finset.mem_of_mem_insert_of_ne hop' hne) b hb
  · have hall := Running.allowance_le (k := k)
      ⟨s, insert op r.active, Function.update r.touched op ∅⟩
    dsimp only at hall ⊢
    rw [Finset.card_insert_of_notMem hop] at hall
    rw [hs]
    push_cast at hall
    by_cases hnone : r.active = ∅
    · -- the first call of a transaction finds the log empty
      have hzero := h.idle hnone
      rw [Finset.card_eq_zero.mpr hnone, Nat.cast_zero, zero_add, one_mul] at hall
      omega
    · have hpos := Finset.card_pos.mpr (Finset.nonempty_iff_ne_empty.mpr hnone)
      have hprod : (2 : ℤ) * (maxOpBlocks - k) ≤ (r.active.card + 1) * (maxOpBlocks - k) :=
        Int.mul_le_mul_of_nonneg_right (by omega) (by omega)
      have hten : (maxOpBlocks : ℤ) = 10 := rfl
      have hthirty := logSize_eq
      rw [mul_sub, mul_sub] at hprod
      omega

/-- An update: a block that is not listed yet is one that the call has not updated yet. -/
theorem Reserved.update (h : Reserved k r) (hnonneg : 0 ≤ r.log.lh.n) {op : ℕ} (hop : op ∈ r.active)
    (b : Word) (block : Memory)
    (hbound : (Machine.up ⟨r.log.logged b block, r.active,
      Function.update r.touched op (insert b.toNat (r.touched op))⟩).Bounded k) :
    Reserved k ⟨r.log.logged b block, r.active,
      Function.update r.touched op (insert b.toNat (r.touched op))⟩ := by
  refine ⟨hbound, fun op' hop' b' hb' => ?_, ?_, fun hnone => ?_⟩
  · refine (Header.lists_add hnonneg b b').mpr ?_
    dsimp only at hb'
    by_cases hne : op' = op
    · subst hne
      rw [Function.update_self] at hb'
      rcases Finset.mem_insert.mp hb' with hb' | hb'
      · exact .inr hb'
      · exact .inl (h.listed op' hop' b' hb')
    · rw [Function.update_of_ne hne] at hb'
      exact .inl (h.listed op' hop' b' hb')
  · rw [r.allowance_touch _ hop]
    have hroom := h.room
    show (r.log.lh.add b).n + _ ≤ _
    rcases Header.add_cases hnonneg b with ⟨-, heq⟩ | ⟨hnew, heq⟩
    · rw [heq]
      split <;> omega
    · rw [heq, if_neg fun hb => hnew (h.listed op hop _ hb)]
      dsimp only
      omega
  · exact absurd hop (hnone ▸ Finset.notMem_empty op)

/-- A call that ends and is not the last. -/
theorem Reserved.finish (h : Reserved k r) {s : State} {op : ℕ} (hop : op ∈ r.active)
    (hs : s.lh = r.log.lh) (hmore : r.active.erase op ≠ ∅) :
    Reserved k ⟨s, r.active.erase op, r.touched⟩ := by
  refine ⟨fun op' hop' => h.bounded op' (Finset.mem_of_mem_erase hop'),
    fun op' hop' b hb => ?_, ?_, fun hnone => absurd hnone hmore⟩
  · dsimp only
    rw [hs]
    exact h.listed op' (Finset.mem_of_mem_erase hop') b hb
  · have hroom := h.room
    have hmine := h.bounded op hop
    rw [r.allowance_eq hop] at hroom
    unfold Running.allowance
    dsimp only
    rw [hs]
    omega

/-- With no call in progress and nothing logged. -/
theorem Reserved.of_idle {s : State} (hzero : s.lh.n = 0) (touched : ℕ → Finset ℕ) :
    Reserved k ⟨s, ∅, touched⟩ := by
  refine ⟨fun op hop => absurd hop (Finset.notMem_empty op),
    fun op hop => absurd hop (Finset.notMem_empty op), ?_, fun _ => hzero⟩
  unfold Running.allowance
  dsimp only
  rw [Finset.sum_empty]
  omega

/-- The log and the calls of a machine. -/
def Machine.Reserved (k : ℕ) : Machine → Prop
  | .up r => Log.Reserved k r
  | .down _ => True

/-- **Room is kept by every step**, as long as no call updates more than `k` blocks. -/
theorem Machine.Reserved.step (hk : k ≤ maxOpBlocks) (hsuper : SuperBlock start size c)
    {m m' : Machine} {e : Event} {a : Spec} (href : Refines start size c m a) (h : m.Reserved k)
    (hstep : Step m e m') (hbound : m'.Bounded k) : m'.Reserved k := by
  cases hstep with
  | @begin r op s hop hrun =>
    cases href with
    | up hready htargets =>
      have hout := hready.outstanding
      rw [beginOp_eq] at hrun
      split at hrun
      · cases hrun
      case isFalse hroom =>
        cases hrun
        refine Reserved.begin hk h hop rfl ?_ hbound
        rw [hout] at hroom
        exact not_lt.mp (not_or.mp hroom).2
  | @update r op b block s hop htarget hrun =>
    cases href with
    | up hready htargets =>
      rw [update_eq] at hrun
      split at hrun
      · cases hrun
      · split at hrun
        · cases hrun
        · cases hrun
          exact Reserved.update h hready.fits.nonneg hop b block hbound
  | @finish r op s hop hrun =>
    cases href with
    | up hready htargets =>
      have hout := hready.outstanding
      by_cases hlast : r.active.card = 1
      · rw [hlast, Nat.cast_one] at hready
        obtain ⟨-, _, s', hend, -, hzero⟩ := endOp_runs r.log hready
        cases hrun.symm.trans hend
        rw [eq_singleton_of_mem hop hlast, Finset.erase_singleton]
        exact Reserved.of_idle hzero _
      · rw [endOp_of_ne hready.committing (by omega)] at hrun
        cases hrun
        exact Reserved.finish h hop rfl (erase_ne_empty hop hlast)
  | crash => trivial
  | cutFinish => trivial
  | @boot d s hrun =>
    cases href with
    | down hdisk htargets =>
      obtain ⟨-, _, s', hend, hclean⟩ :=
        initlog_runs hdisk (hsuper.applied htargets) (Log.boot d) rfl
      cases hrun.symm.trans hend
      exact Reserved.of_idle hclean.header _
  | cutBoot => trivial

/-- **The log never panics.**  In every run in which calls update at most
`MAXOPBLOCKS - 1` blocks each, one less than `begin_op` reserves for each of them, on a disk
with a log of at least `LOGSIZE` blocks, a call in progress can update any block, and can
end. -/
theorem log_never_panics (hsuper : SuperBlock start size c) (hd : OnDisk start size c d)
    (hsize : logSize ≤ size) {path : List (Event × Machine)}
    (hrun : Transitions.Path Step (.down d) path)
    (hbound : ∀ t ∈ path, t.2.Bounded (maxOpBlocks - 1))
    (hup : Transitions.last (.down d) path = .up r) {op : ℕ} (hop : op ∈ r.active) :
    (∀ b block, ∃ s, (update b block r.log).2 = .ok () s) ∧
      ∃ s, (endOp r.log).2 = .ok () s := by
  have hinv := hrun.invariant (I := fun _ m => (∃ a, Refines start size c m a) ∧
    m.Reserved (maxOpBlocks - 1)) ⟨⟨_, .initial hd⟩, trivial⟩ ?_
    path [] (List.append_nil path).symm
  · obtain ⟨⟨a, href⟩, hres⟩ := hinv
    rw [hup] at href hres
    cases href with
    | up hready htargets =>
      have hle := Reserved.le hres
      have hout := hready.outstanding
      have hsize' := hready.size_eq
      have hpos := Finset.card_pos.mpr ⟨op, hop⟩
      have hnine : ((maxOpBlocks - 1 : ℕ) : ℤ) = 9 := rfl
      have hten : (maxOpBlocks : ℤ) = 10 := rfl
      have hthirty := logSize_eq
      constructor
      · intro b block
        have hfull : ¬ r.log.Full := by
          unfold State.Full
          omega
        rw [update_eq, if_neg hfull, if_neg (by omega)]
        exact ⟨_, rfl⟩
      · by_cases hlast : r.active.card = 1
        · rw [hlast, Nat.cast_one] at hready
          obtain ⟨-, _, s, hend, -⟩ := endOp_runs r.log hready
          exact ⟨s, hend⟩
        · rw [endOp_of_ne hready.committing (by omega)]
          exact ⟨_, rfl⟩
  · rintro before e m' after rfl hstep ⟨⟨a, href⟩, hres⟩
    obtain ⟨a', -, href'⟩ := href.step hsuper hstep
    refine ⟨⟨a', href'⟩, hres.step (Nat.sub_le _ _) hsuper href hstep ?_⟩
    exact hbound (e, m') (List.mem_append_right _ List.mem_cons_self)

/-- Two calls are in progress and one of them has updated block 40. -/
theorem log_never_panics_after_update : ∃ r : Running, r.active = {1, 0} ∧ r.log.lh.n = 1 ∧
    (∀ b block, ∃ s, (update b block r.log).2 = .ok () s) ∧ ∃ s, (endOp r.log).2 = .ok () s := by
  obtain ⟨⟨log, _, _⟩, hpath, hready, hzero, rfl, rfl⟩ := exists_boot_begin
  dsimp only at hready hzero
  have hroom : ¬ log.Full := by
    unfold State.Full
    rw [hzero, hready.size_eq]
    decide
  have h40 : Target 2 30 (40 : Word).toNat := ⟨.inr (by decide), by decide⟩
  have hupdate := Ready.step_update (r := ⟨log, {0}, fun _ => ∅⟩) hready (by decide)
    (Finset.mem_singleton_self 0) h40 hroom fun _ => 7
  have hlisted : (log.lh.add 40).n = 1 := by
    rcases Header.add_cases hready.fits.nonneg 40 with ⟨⟨i, hi, -⟩, -⟩ | ⟨-, heq⟩
    · rw [hzero] at hi
      exact absurd hi (Nat.not_lt_zero i)
    · rw [heq, hzero]
      rfl
  have hbegin := fun touched => Ready.step_begin (r := ⟨log.logged 40 fun _ => 7, {0}, touched⟩)
    (hready.logged h40 hroom fun _ => 7) (Finset.notMem_singleton.mpr Nat.one_ne_zero)
    (by show (log.lh.add 40).n + _ ≤ _; rw [hlisted]; decide)
  refine ⟨_, rfl, hlisted, log_never_panics freshDisk_superBlock freshDisk_onDisk (by decide)
    (hpath.append (.cons hupdate (.cons (hbegin _) .nil))) ?_ rfl (Finset.mem_insert_self 1 _)⟩
  intro t ht
  simp only [List.mem_append, List.mem_cons, List.not_mem_nil, or_false] at ht
  rcases ht with (rfl | rfl) | rfl | rfl
  · exact fun op hop => absurd hop (Finset.notMem_empty op)
  · exact fun op _ => Nat.zero_le _
  · unfold Machine.Bounded
    dsimp only
    decide
  · unfold Machine.Bounded
    dsimp only
    decide

end Xv6.Log
