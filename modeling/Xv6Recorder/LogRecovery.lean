/-
# What the log leaves on disk

`contents` is what a disk stands for: the blocks, with those in the log put in their
place.  Until the header is written a commit does not change it, with the header it
becomes the new contents as a whole, and neither installing the blocks nor clearing the
header changes it again.  Recovery keeps it at every point, so that it may be cut off too,
and leaves a disk that holds it without the help of the log.
-/
import Xv6Recorder.Log

open Bytes Crash

namespace Xv6.Log

/-! ## The header on disk -/

/-- The header in its block. -/
def headOf (block : Memory) : Header :=
  ⟨(field 32 0 block).toInt, fun i => field 32 (4 + 4 * i) block⟩

/-- The stores into the block, one entry after the other. -/
theorem field_foldl_putField (f : ℕ → Word) (block : Memory) (k : ℕ) :
    field 32 0 ((List.range k).foldl (fun m i => putField (4 + 4 * i) (f i) m) block)
        = field 32 0 block ∧
      ∀ i < k, field 32 (4 + 4 * i)
        ((List.range k).foldl (fun m i => putField (4 + 4 * i) (f i) m) block) = f i := by
  induction k with
  | zero => exact ⟨rfl, fun i hi => absurd hi (Nat.not_lt_zero i)⟩
  | succ k ih =>
    rw [List.range_succ, List.foldl_append, List.foldl_cons, List.foldl_nil]
    constructor
    · rw [field_putField_disjoint _ _ (by omega)]
      exact ih.1
    · intro i hi
      by_cases hik : i = k
      · subst hik
        exact field_putField_same (by decide) _ _ _
      · rw [field_putField_disjoint _ _ (by omega)]
        exact ih.2 i (by omega)

theorem logSize_eq : (logSize : ℤ) = 30 := rfl

/-- **A header that was written is read back.** -/
theorem headOf_putHeader {lh : Header} (hnonneg : 0 ≤ lh.n) (hle : lh.n ≤ logSize)
    (block : Memory) :
    (headOf (putHeader lh block)).n = lh.n ∧
      ∀ i < lh.n.toNat, (headOf (putHeader lh block)).block i = lh.block i := by
  unfold headOf putHeader
  constructor
  · have hsize := logSize_eq
    dsimp only
    rw [(field_foldl_putField _ _ _).1, field_putField_same (by decide), BitVec.toInt_ofInt]
    exact Int.bmod_eq_of_le (by omega) (by omega)
  · intro i hi
    exact (field_foldl_putField _ _ _).2 i hi

/-! ## What a disk stands for -/

/-- A block that is not part of the log. -/
def Home (start size b : ℕ) : Prop := b < start ∨ start + size ≤ b

/-- A block that may be in a transaction: the super block never changes. -/
def Target (start size b : ℕ) : Prop := Home start size b ∧ b ≠ 1

/-- A header that fits the log on disk, and lists no block twice. -/
structure Header.Fits (lh : Header) (start size : ℕ) : Prop where
  nonneg : 0 ≤ lh.n
  le : lh.n ≤ logSize
  lt : lh.n < size
  target : ∀ i < lh.n.toNat, Target start size (lh.block i).toNat
  inj : ∀ i < lh.n.toNat, ∀ j < lh.n.toNat, (lh.block i).toNat = (lh.block j).toNat → i = j

/-- Only the number of entries and the entries count. -/
theorem Header.Fits.congr {lh lh' : Header} {start size : ℕ} (h : lh.Fits start size)
    (hn : lh'.n = lh.n) (hblock : ∀ i < lh.n.toNat, lh'.block i = lh.block i) :
    lh'.Fits start size where
  nonneg := by rw [hn]; exact h.nonneg
  le := by rw [hn]; exact h.le
  lt := by rw [hn]; exact h.lt
  target i hi := by
    rw [hn] at hi
    rw [hblock i hi]
    exact h.target i hi
  inj i hi j hj heq := by
    rw [hn] at hi hj
    rw [hblock i hi, hblock j hj] at heq
    exact h.inj i hi j hj heq

/-- The block is in the first `j` entries of the header. -/
def Header.Lists (lh : Header) (j b : ℕ) : Prop := ∃ i < j, (lh.block i).toNat = b

instance (lh : Header) (j b : ℕ) : Decidable (lh.Lists j b) := Nat.decidableExistsLT _

/-- The blocks that change are in the header. -/
def Header.Covers (lh : Header) (start size : ℕ) (old new : ℕ → Memory) : Prop :=
  ∀ b, Home start size b → ¬ lh.Lists lh.n.toNat b → old b = new b

theorem Header.lists_succ (lh : Header) (j b : ℕ) :
    lh.Lists (j + 1) b ↔ lh.Lists j b ∨ b = (lh.block j).toNat := by
  constructor
  · rintro ⟨i, hi, rfl⟩
    by_cases hij : i = j
    · exact .inr (by rw [hij])
    · exact .inl ⟨i, by omega, rfl⟩
  · rintro (⟨i, hi, hib⟩ | rfl)
    · exact ⟨i, by omega, hib⟩
    · exact ⟨j, by omega, rfl⟩

theorem Header.not_lists_zero (lh : Header) (b : ℕ) : ¬ lh.Lists 0 b := by
  rintro ⟨i, hi, -⟩
  omega

/-- The log on disk. -/
def entries (start : ℕ) (d : ℕ → Memory) : List (ℕ × Memory) :=
  (List.range (headOf (d start)).n.toNat).map fun i =>
    (((headOf (d start)).block i).toNat, d (start + i + 1))

/-- The blocks, with those in the log in their place. -/
def contents (start : ℕ) (d : ℕ → Memory) : ℕ → Memory := install (entries start d) d

/-- A disk with a log in order that stands for `c`. -/
structure OnDisk (start size : ℕ) (c d : ℕ → Memory) : Prop where
  fits : (headOf (d start)).Fits start size
  contents : ∀ b, Home start size b → contents start d b = c b

variable {start size : ℕ} {c d : ℕ → Memory}

theorem mem_entries {e : ℕ × Memory} : e ∈ entries start d ↔
    ∃ i < (headOf (d start)).n.toNat,
      e = (((headOf (d start)).block i).toNat, d (start + i + 1)) := by
  unfold entries
  rw [List.mem_map]
  constructor
  · rintro ⟨i, hi, rfl⟩
    exact ⟨i, List.mem_range.mp hi, rfl⟩
  · rintro ⟨i, hi, rfl⟩
    exact ⟨i, List.mem_range.mpr hi, rfl⟩

/-- A block that is not in the log stands for itself. -/
theorem contents_of_not_lists {b : ℕ}
    (h : ¬ (headOf (d start)).Lists (headOf (d start)).n.toNat b) : contents start d b = d b := by
  refine install_of_forall_ne ?_ d
  intro e he
  obtain ⟨i, hi, rfl⟩ := mem_entries.mp he
  exact fun hb => h ⟨i, hi, hb⟩

/-- A block of which all copies in the log are the same. -/
theorem contents_of_copies {b : ℕ} {v : Memory}
    (hmem : (headOf (d start)).Lists (headOf (d start)).n.toNat b)
    (hval : ∀ i < (headOf (d start)).n.toNat, ((headOf (d start)).block i).toNat = b →
      d (start + i + 1) = v) : contents start d b = v := by
  refine install_of_mem ?_ ?_ d
  · obtain ⟨i, hi, hb⟩ := hmem
    exact ⟨_, mem_entries.mpr ⟨i, hi, rfl⟩, hb⟩
  · intro e he hb
    obtain ⟨i, hi, rfl⟩ := mem_entries.mp he
    exact hval i hi hb

/-- A disk with an empty log. -/
theorem OnDisk.of_empty (hsize : 0 < size) (hempty : (headOf (d start)).n = 0)
    (hhome : ∀ b, Home start size b → d b = c b) : OnDisk start size c d where
  fits :=
    { nonneg := by omega
      le := by rw [hempty]; exact Int.natCast_nonneg _
      lt := by omega
      target := fun i hi => by omega
      inj := fun i hi => by omega }
  contents b hb := by
    rw [contents_of_not_lists, hhome b hb]
    rw [hempty]
    exact Header.not_lists_zero _ b

/-- The super block is never in the log. -/
theorem OnDisk.superBlock (h : OnDisk start size c d) (hhome : Home start size 1) : d 1 = c 1 := by
  rw [← h.contents 1 hhome, contents_of_not_lists]
  rintro ⟨i, hi, hone⟩
  exact (h.fits.target i hi).2 hone

/-! ## The steps of a commit -/

/-- What stays as it is during a commit or a recovery: the place of the log, the calls
outstanding, and that blocks of the log are in the cache as on disk. -/
structure Still (start size : ℕ) (out : ℤ) (com : Bool) (s : State) : Prop where
  start_eq : s.start = start
  size_eq : s.size = size
  outstanding : s.outstanding = out
  committing : s.committing = com
  logs : ∀ b, ¬ Home start size b → s.data b = s.disk b

/-- The state once `x` has been put in the block `b` and written. -/
def State.put (b : ℕ) (x : Memory) (s : State) : State :=
  { s with
    data := Function.update s.data b x
    disk := Function.update s.disk b x
    dirty := Function.update s.dirty b false }

@[simp] theorem State.put_disk (b : ℕ) (x : Memory) (s : State) :
    (s.put b x).disk = Function.update s.disk b x := rfl

@[simp] theorem State.put_data (b : ℕ) (x : Memory) (s : State) :
    (s.put b x).data = Function.update s.data b x := rfl

section

variable {lh : Header} {old new cache : ℕ → Memory} {out : ℤ} {com : Bool} {s : State}

variable {C : (ℕ → Memory) → Prop} {P : State → Prop}

theorem blockAt_runs (hlh : ∀ s, P s → s.lh = lh) {i : ℕ} (hi : i < logSize) :
    Runs P (blockAt i) (fun b s => b = (lh.block i).toNat ∧ P s) C := by
  refine Runs.ite (fun h => absurd h (by omega)) fun _ => ?_
  refine Runs.get_bind fun s hs => Runs.pure fun s' hs' => ?_
  rw [hs', hlh s hs]
  exact ⟨rfl, hs⟩

/-- Filling a block in the cache and writing it. -/
theorem bwrite_runs {b : ℕ} {x : State → Memory} {Q : Unit → State → Prop}
    (h : ∀ s, P s → Q () (s.put b (x s)) ∧ C (s.put b (x s)).disk) :
    Runs P (do
      modify fun s => { s with data := Function.update s.data b (x s) }
      bwrite b) Q C := by
  refine Runs.bind (Q := fun _ t => ∃ s, P s ∧
    t = { s with data := Function.update s.data b (x s) }) (Runs.modify ?_) fun _ => ?_
  · intro s hs
    exact ⟨s, hs, rfl⟩
  · refine Runs.persist ?_
    rintro _ ⟨s, hs, rfl⟩
    have hput := h s hs
    unfold State.put at hput
    dsimp only
    rw [Function.update_self]
    exact hput

theorem not_home_slot {i n : ℕ} (hi : i < n) (hn : n < size) :
    ¬ Home start size (start + i + 1) := by
  unfold Home
  omega

theorem Home.ne {b b' : ℕ} (hb : Home start size b) (hb' : ¬ Home start size b') : b ≠ b' := by
  rintro rfl
  exact hb' hb

theorem Still.put (h : Still start size out com s) (b : ℕ) (x : Memory) :
    Still start size out com (s.put b x) where
  start_eq := h.start_eq
  size_eq := h.size_eq
  outstanding := h.outstanding
  committing := h.committing
  logs b' hb' := by
    rw [State.put_disk, State.put_data]
    by_cases hbb : b' = b
    · subst hbb
      rw [Function.update_self, Function.update_self]
    · rw [Function.update_of_ne hbb, Function.update_of_ne hbb]
      exact h.logs b' hb'

/-- The first `j` blocks have been copied to the log. -/
structure Copied (start size : ℕ) (out : ℤ) (com : Bool) (lh : Header) (old new : ℕ → Memory)
    (j : ℕ) (s : State) : Prop extends Still start size out com s where
  header : s.lh = lh
  data : ∀ b, Home start size b → s.data b = new b
  disk : ∀ b, Home start size b → s.disk b = old b
  empty : (headOf (s.disk start)).n = 0
  copies : ∀ i < j, s.disk (start + i + 1) = new (lh.block i).toNat

/-- One more block. -/
theorem Copied.succ (hfits : lh.Fits start size) {j : ℕ} (hj : j < lh.n.toNat)
    (h : Copied start size out com lh old new j s) :
    Copied start size out com lh old new (j + 1)
      (s.put (start + j + 1) (s.data (lh.block j).toNat)) := by
  have hlt := hfits.lt
  have hslot : ¬ Home start size (start + j + 1) := not_home_slot hj (by omega)
  have hvalue := h.data _ (hfits.target j hj).1
  refine ⟨h.toStill.put _ _, h.header, fun b hb => ?_, fun b hb => ?_, ?_, fun i hi => ?_⟩
  · exact (Function.update_of_ne (hb.ne hslot) _ _).trans (h.data b hb)
  · exact (Function.update_of_ne (hb.ne hslot) _ _).trans (h.disk b hb)
  · rw [State.put_disk, Function.update_of_ne (by omega)]
    exact h.empty
  · rw [State.put_disk]
    by_cases hij : i = j
    · subst hij
      rw [Function.update_self, hvalue]
    · rw [Function.update_of_ne (by omega)]
      exact h.copies i (by omega)

/-- **`write_log`** does not change what the disk stands for. -/
theorem writeLog_runs (hfits : lh.Fits start size) :
    Runs (Copied start size out com lh old new 0) writeLog
      (fun _ => Copied start size out com lh old new lh.n.toNat) (OnDisk start size old) := by
  have hle := hfits.le
  have hlt := hfits.lt
  refine Runs.get_bind fun s₀ hs₀ => ?_
  rw [hs₀.header, hs₀.start_eq]
  refine Runs.imp (Runs.loop (i := 0) (I := Copied start size out com lh old new) ?_)
    (by rintro _ rfl; exact hs₀) (fun _ s hs => by rwa [Nat.zero_add] at hs) fun _ h => h
  intro j _ hj
  rw [Nat.zero_add] at hj
  refine (blockAt_runs (fun s hs => hs.header) (by omega)).bind fun src => ?_
  refine bwrite_runs ?_
  rintro s ⟨rfl, hs⟩
  have hnext := hs.succ hfits hj
  exact ⟨hnext, .of_empty (by omega) hnext.empty hnext.disk⟩

/-! ## Installing -/

/-- The header on disk is `lh`, the log holds the new blocks, and the first `j` of them are
in their place; the others are as in `old` on disk, and as in `cache` in memory. -/
structure Installed (start size : ℕ) (out : ℤ) (com : Bool) (lh : Header)
    (old new cache : ℕ → Memory) (j : ℕ) (s : State) : Prop extends Still start size out com s where
  header : s.lh = lh
  headN : (headOf (s.disk start)).n = lh.n
  headBlock : ∀ i < lh.n.toNat, (headOf (s.disk start)).block i = lh.block i
  copies : ∀ i < lh.n.toNat, s.disk (start + i + 1) = new (lh.block i).toNat
  disk : ∀ b, Home start size b → s.disk b = if lh.Lists j b then new b else old b
  data : ∀ b, Home start size b → s.data b = if lh.Lists j b then new b else cache b

/-- **Once the header is written the disk stands for the new blocks**, however many of
them are in their place. -/
theorem Installed.onDisk (hfits : lh.Fits start size) (hsame : lh.Covers start size old new)
    {j : ℕ} (hj : j ≤ lh.n.toNat) (h : Installed start size out com lh old new cache j s) :
    OnDisk start size new s.disk := by
  have hlists : ∀ b, (headOf (s.disk start)).Lists (headOf (s.disk start)).n.toNat b ↔
      lh.Lists lh.n.toNat b := by
    intro b
    rw [h.headN]
    constructor
    · rintro ⟨i, hi, hib⟩
      exact ⟨i, hi, by rw [← h.headBlock i hi]; exact hib⟩
    · rintro ⟨i, hi, hib⟩
      exact ⟨i, hi, by rw [h.headBlock i hi]; exact hib⟩
  refine ⟨hfits.congr h.headN h.headBlock, fun b hb => ?_⟩
  by_cases hlist : lh.Lists lh.n.toNat b
  · refine contents_of_copies ((hlists b).mpr hlist) ?_
    intro i hi hib
    rw [h.headN] at hi
    rw [h.headBlock i hi] at hib
    rw [h.copies i hi, hib]
  · have hnone : ¬ lh.Lists j b := by
      rintro ⟨i, hi, hib⟩
      exact hlist ⟨i, by omega, hib⟩
    rw [contents_of_not_lists (fun hb' => hlist ((hlists b).mp hb')), h.disk b hb, if_neg hnone,
      hsame b hb hlist]

/-- A home block after one more has been put in its place. -/
theorem update_lists {f g : ℕ → Memory} {j b : ℕ}
    (h : f b = if lh.Lists j b then new b else g b) :
    Function.update f (lh.block j).toNat (new (lh.block j).toNat) b
      = if lh.Lists (j + 1) b then new b else g b := by
  by_cases hb : b = (lh.block j).toNat
  · rw [if_pos ((lh.lists_succ j b).mpr (.inr hb)), hb, Function.update_self]
  · rw [Function.update_of_ne hb, h]
    have hiff : lh.Lists (j + 1) b ↔ lh.Lists j b := by
      rw [lh.lists_succ]
      exact or_iff_left hb
    simp only [hiff]

/-- One more block. -/
theorem Installed.succ (hfits : lh.Fits start size) {j : ℕ} (hj : j < lh.n.toNat)
    (h : Installed start size out com lh old new cache j s) :
    Installed start size out com lh old new cache (j + 1)
      (s.put (lh.block j).toNat (s.data (start + j + 1))) := by
  have hlt := hfits.lt
  have htarget := (hfits.target j hj).1
  have hvalue : s.data (start + j + 1) = new (lh.block j).toNat := by
    rw [h.logs _ (not_home_slot hj (by omega)), h.copies j hj]
  rw [hvalue]
  -- the blocks of the log are not among those that are put in place
  have hstart : start ≠ (lh.block j).toNat :=
    (htarget.ne (by unfold Home; omega)).symm
  have hkeep : (s.put (lh.block j).toNat (new (lh.block j).toNat)).disk start = s.disk start :=
    Function.update_of_ne hstart _ _
  refine ⟨h.toStill.put _ _, h.header, ?_, fun i hi => ?_, fun i hi => ?_, fun b hb => ?_,
    fun b hb => ?_⟩
  · rw [hkeep]
    exact h.headN
  · rw [hkeep]
    exact h.headBlock i hi
  · have hne : start + i + 1 ≠ (lh.block j).toNat :=
      (htarget.ne (not_home_slot hi (by omega))).symm
    exact (Function.update_of_ne hne _ _).trans (h.copies i hi)
  · exact update_lists (h.disk b hb)
  · exact update_lists (h.data b hb)

/-- **`install_trans`** does not change what the disk stands for. -/
theorem installTrans_runs (hfits : lh.Fits start size) (hsame : lh.Covers start size old new) :
    Runs (Installed start size out com lh old new cache 0) installTrans
      (fun _ => Installed start size out com lh old new cache lh.n.toNat)
      (OnDisk start size new) := by
  have hle := hfits.le
  refine Runs.get_bind fun s₀ hs₀ => ?_
  rw [hs₀.header, hs₀.start_eq]
  refine Runs.imp (Runs.loop (i := 0) (I := Installed start size out com lh old new cache) ?_)
    (by rintro _ rfl; exact hs₀) (fun _ s hs => by rwa [Nat.zero_add] at hs) fun _ h => h
  intro j _ hj
  rw [Nat.zero_add] at hj
  refine (blockAt_runs (fun s hs => hs.header) (by omega)).bind fun dst => ?_
  refine bwrite_runs ?_
  rintro s ⟨rfl, hs⟩
  have hnext := hs.succ hfits hj
  exact ⟨hnext, hnext.onDisk hfits hsame (by omega)⟩

/-! ## Writing the header -/

/-- **`write_head`** replaces the block of the header. -/
theorem writeHead_runs {Q : Unit → State → Prop} (hle : ∀ s, P s → s.lh.n ≤ logSize)
    (h : ∀ s, P s → Q () (s.put s.start (putHeader s.lh (s.data s.start))) ∧
      C (s.put s.start (putHeader s.lh (s.data s.start))).disk) : Runs P writeHead Q C := by
  refine Runs.get_bind fun s₀ hs₀ => ?_
  refine Runs.ite (fun hlt => absurd (hle s₀ hs₀) (by omega)) fun _ => ?_
  refine Runs.bind (Q := fun _ s => s = { s₀ with
    data := Function.update s₀.data s₀.start (putHeader s₀.lh (s₀.data s₀.start)) })
    (Runs.modify ?_) fun _ => Runs.persist ?_
  · rintro s rfl
    rfl
  · rintro s rfl
    have hput := h s₀ hs₀
    unfold State.put at hput
    dsimp only
    rw [Function.update_self]
    exact hput

/-- The header on disk commits the blocks that were copied. -/
theorem Copied.commit (hfits : lh.Fits start size)
    (h : Copied start size out com lh old new lh.n.toNat s) :
    Installed start size out com lh old new new 0
      (s.put s.start (putHeader s.lh (s.data s.start))) := by
  have hlt := hfits.lt
  have hnonneg := hfits.nonneg
  have hstart : ¬ Home start size start := by
    unfold Home
    omega
  have hread := headOf_putHeader hnonneg hfits.le (s.data start)
  rw [h.start_eq, h.header]
  have hhead : (s.put start (putHeader lh (s.data start))).disk start
      = putHeader lh (s.data start) := Function.update_self _ _ _
  refine ⟨h.toStill.put _ _, h.header, ?_, fun i hi => ?_, fun i hi => ?_, fun b hb => ?_,
    fun b hb => ?_⟩
  · rw [hhead, hread.1]
  · rw [hhead, hread.2 i hi]
  · exact (Function.update_of_ne (by omega) _ _).trans (h.copies i hi)
  · rw [if_neg (lh.not_lists_zero b)]
    exact (Function.update_of_ne (hb.ne hstart) _ _).trans (h.disk b hb)
  · rw [if_neg (lh.not_lists_zero b)]
    exact (Function.update_of_ne (hb.ne hstart) _ _).trans (h.data b hb)

/-- The log is empty, in memory and on disk, and the home blocks hold `c`. -/
structure Clean (start size : ℕ) (out : ℤ) (com : Bool) (c : ℕ → Memory) (s : State) : Prop
    extends Still start size out com s where
  header : s.lh.n = 0
  data : ∀ b, Home start size b → s.data b = c b
  disk : ∀ b, Home start size b → s.disk b = c b
  empty : (headOf (s.disk start)).n = 0

/-- Clearing the header, once all blocks are in their place. -/
theorem Installed.clear (hfits : lh.Fits start size) (hsame : lh.Covers start size old new)
    (hcache : lh.Covers start size cache new)
    (h : Installed start size out com lh old new cache lh.n.toNat s) :
    let t : State := { s with lh := { s.lh with n := 0 } }
    Clean start size out com new (t.put t.start (putHeader t.lh (t.data t.start))) := by
  intro t
  have hlt := hfits.lt
  have hnonneg := hfits.nonneg
  have hstart : ¬ Home start size start := by
    unfold Home
    omega
  have hstill : Still start size out com t :=
    ⟨h.start_eq, h.size_eq, h.outstanding, h.committing, h.logs⟩
  have hall : ∀ {f g : ℕ → Memory} b, Home start size b →
      (¬ lh.Lists lh.n.toNat b → g b = new b) →
      (f b = if lh.Lists lh.n.toNat b then new b else g b) → f b = new b := by
    intro f g b hb hg hf
    rw [hf]
    split
    · rfl
    case isFalse hnot => exact hg hnot
  rw [show t.start = start from h.start_eq]
  have hhead : (t.put start (putHeader t.lh (t.data start))).disk start
      = putHeader t.lh (t.data start) := Function.update_self _ _ _
  refine ⟨hstill.put _ _, rfl, fun b hb => ?_, fun b hb => ?_, ?_⟩
  · exact (Function.update_of_ne (hb.ne hstart) _ _).trans
      (hall b hb (hcache b hb) (h.data b hb))
  · exact (Function.update_of_ne (hb.ne hstart) _ _).trans
      (hall b hb (hsame b hb) (h.disk b hb))
  · rw [hhead, (@headOf_putHeader t.lh (le_refl (0 : ℤ)) (Int.natCast_nonneg _) _).1]

/-- **Installing and clearing**, the part that commit and recovery share. -/
theorem installClear_runs (hfits : lh.Fits start size) (hsame : lh.Covers start size old new)
    (hcache : lh.Covers start size cache new) :
    Runs (Installed start size out com lh old new cache 0)
      (do
        installTrans
        modify fun s => { s with lh := { s.lh with n := 0 } }
        writeHead)
      (fun _ => Clean start size out com new) (OnDisk start size new) := by
  have hlt := hfits.lt
  have hnonneg := hfits.nonneg
  refine (installTrans_runs hfits hsame).bind fun _ => ?_
  refine Runs.bind (Q := fun _ t => ∃ s : State,
    Installed start size out com lh old new cache lh.n.toNat s ∧
      t = { s with lh := { s.lh with n := 0 } }) (Runs.modify ?_) fun _ => ?_
  · intro s hs
    exact ⟨s, hs, rfl⟩
  · refine writeHead_runs ?_ ?_
    · rintro _ ⟨s, -, rfl⟩
      exact Int.natCast_nonneg logSize
    · rintro _ ⟨s, hs, rfl⟩
      have hclean := hs.clear hfits hsame hcache
      exact ⟨hclean, .of_empty (by omega) hclean.empty hclean.disk⟩

/-- **A commit** leaves the new blocks, and cut off anywhere it leaves a disk that stands
for the old ones or for the new ones. -/
theorem commit_runs (hfits : lh.Fits start size) (hsame : lh.Covers start size old new) :
    Runs (Copied start size out com lh old new 0) commit
      (fun _ => Clean start size out com new)
      (fun d => OnDisk start size old d ∨ OnDisk start size new d) := by
  have hnonneg := hfits.nonneg
  refine Runs.get_bind fun s₀ hs₀ => ?_
  rw [hs₀.header]
  refine Runs.imp (R := Copied start size out com lh old new 0) ?_
    (by rintro _ rfl; exact hs₀) (fun _ _ h => h) fun _ h => h
  refine Runs.ite (fun hpos => ?_) fun hzero => Runs.pure fun s hs => ?_
  · refine ((writeLog_runs hfits).imp (fun _ h => h) (fun _ _ h => h) fun _ h => .inl h).bind
      fun _ => ?_
    refine Runs.bind (Q := fun _ => Installed start size out com lh old new new 0) ?_ fun _ => ?_
    · refine writeHead_runs (fun s hs => by rw [hs.header]; exact hfits.le) fun s hs => ?_
      have hcommit := hs.commit hfits
      exact ⟨hcommit, .inr (hcommit.onDisk hfits hsame (Nat.zero_le _))⟩
    · exact (installClear_runs hfits hsame fun _ _ _ => rfl).imp (fun _ h => h) (fun _ _ h => h)
        fun _ h => .inr h
  · -- nothing was modified
    have hn : lh.n = 0 := by omega
    have hlists : ∀ b, ¬ lh.Lists lh.n.toNat b := by
      rintro b ⟨i, hi, -⟩
      omega
    refine ⟨hs.toStill, by rw [hs.header, hn], hs.data, fun b hb => ?_, hs.empty⟩
    rw [hs.disk b hb, hsame b hb (hlists b)]

/-! ## Recovery -/

/-- The header with its first `j` entries read from the block. -/
def readBlocks (block : Memory) (j : ℕ) (old : ℕ → Word) : ℕ → Word := fun i =>
  if i < j then (headOf block).block i else old i

theorem readBlocks_succ (block : Memory) (j : ℕ) (old : ℕ → Word) :
    Function.update (readBlocks block j old) j ((headOf block).block j)
      = readBlocks block (j + 1) old := by
  funext i
  unfold readBlocks
  by_cases hij : i = j
  · subst hij
    rw [Function.update_self, if_pos (by omega)]
  · rw [Function.update_of_ne hij]
    by_cases hlt : i < j
    · rw [if_pos hlt, if_pos (by omega)]
    · rw [if_neg hlt, if_neg (by omega)]

/-- **`read_head`** fills the header in memory, and nothing else. -/
theorem readHead_runs (s₀ : State) (hle : (headOf (s₀.data s₀.start)).n ≤ logSize)
    (C : (ℕ → Memory) → Prop) :
    Runs (· = s₀) readHead (fun _ s => s = { s₀ with lh :=
      ⟨(headOf (s₀.data s₀.start)).n,
        readBlocks (s₀.data s₀.start) (headOf (s₀.data s₀.start)).n.toNat s₀.lh.block⟩ }) C := by
  refine Runs.get_bind fun s hs => ?_
  subst hs
  refine Runs.bind (Q := fun _ t => t = { s with lh :=
    ⟨(headOf (s.data s.start)).n, readBlocks (s.data s.start) 0 s.lh.block⟩ })
    (Runs.modify ?_) fun _ => ?_
  · rintro t rfl
    have hnone : readBlocks (t.data t.start) 0 t.lh.block = t.lh.block := by
      funext i
      exact if_neg (Nat.not_lt_zero i)
    rw [hnone]
    rfl
  · refine Runs.imp (Runs.loop (i := 0) (I := fun j t => t = { s with lh :=
      ⟨(headOf (s.data s.start)).n, readBlocks (s.data s.start) j s.lh.block⟩ }) ?_)
      (fun _ h => h) (fun _ t ht => by rw [Nat.zero_add] at ht; exact ht) fun _ h => h
    intro j _ hj
    have hj' : j < (headOf (s.data s.start)).n.toNat := by rwa [Nat.zero_add] at hj
    refine Runs.ite (fun h => absurd h (by omega)) fun _ => Runs.modify ?_
    rintro t rfl
    rw [← readBlocks_succ]
    rfl

/-- The super block shows the place of the log, and is not in it. -/
structure SuperBlock (start size : ℕ) (c : ℕ → Memory) : Prop where
  start_eq : (field 32 16 (c 1)).toNat = start
  size_eq : (field 32 12 (c 1)).toNat = size
  home : Home start size 1

/-- The header that recovery works with. -/
def readHeader (block : Memory) : Header :=
  ⟨(headOf block).n, readBlocks block (headOf block).n.toNat fun _ => 0⟩

theorem readHeader_n (block : Memory) : (readHeader block).n = (headOf block).n := rfl

theorem readHeader_block {block : Memory} {i : ℕ} (hi : i < (readHeader block).n.toNat) :
    (readHeader block).block i = (headOf block).block i := by
  rw [readHeader_n] at hi
  unfold readHeader readBlocks
  exact if_pos hi

/-- What the log is about to put in place, when it has been read from the disk. -/
theorem OnDisk.installed (h : OnDisk start size c d) :
    Installed start size 0 false (readHeader (d start)) d c d 0
      { boot d with start, size, lh := readHeader (d start) } := by
  refine ⟨⟨rfl, rfl, rfl, rfl, fun _ _ => rfl⟩, rfl, (readHeader_n (d start)).symm,
    fun i hi => (readHeader_block hi).symm, fun i hi => ?_, fun b hb => ?_, fun b hb => ?_⟩
  · -- no block is listed twice, so the copy is what the disk stands for
    have hi' := hi
    rw [readHeader_n] at hi'
    rw [readHeader_block hi, ← h.contents _ (h.fits.target i hi').1]
    refine (contents_of_copies ⟨i, hi', rfl⟩ fun j hj hji => ?_).symm
    rw [h.fits.inj j hj i hi' hji]
    rfl
  · rw [if_neg (Header.not_lists_zero _ b)]
    rfl
  · rw [if_neg (Header.not_lists_zero _ b)]
    rfl

/-- **Recovery** leaves a disk that holds what it stood for, and cut off anywhere, a disk
that stands for the same. -/
theorem initlog_runs (hd : OnDisk start size c d) (hsuper : SuperBlock start size c) :
    Runs (· = boot d) initlog (fun _ => Clean start size 0 false c) (OnDisk start size c) := by
  have hone : (boot d).data 1 = c 1 := hd.superBlock hsuper.home
  have hfits : (readHeader (d start)).Fits start size :=
    hd.fits.congr (readHeader_n _) fun i hi => readHeader_block (by rwa [readHeader_n])
  have hsame : ∀ b, Home start size b →
      ¬ (readHeader (d start)).Lists (readHeader (d start)).n.toNat b → d b = c b := by
    intro b hb hnot
    rw [← hd.contents b hb, contents_of_not_lists]
    rintro ⟨i, hi, hib⟩
    rw [← readHeader_n] at hi
    exact hnot ⟨i, hi, by rw [readHeader_block hi]; exact hib⟩
  refine Runs.bind (Q := fun _ s => s = { boot d with start, size }) (Runs.modify ?_) fun _ => ?_
  · rintro s rfl
    rw [hone, hsuper.start_eq, hsuper.size_eq]
  · refine (readHead_runs { boot d with start, size } hd.fits.le _).bind fun _ => ?_
    refine (installClear_runs hfits hsame hsame).imp ?_ (fun _ _ h => h) fun _ h => h
    rintro s rfl
    exact hd.installed

end

end Xv6.Log
