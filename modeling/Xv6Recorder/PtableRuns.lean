/-
# No exit is missed

The table of processes follows the births and deaths of `ProcessTree`, and nobody sleeps
through one: a process asleep in `wait` has a child, none that has exited, and has not been
killed.
-/
import Xv6Recorder.ProcessTree

namespace Xv6.Ptable

/-! ## The table and the tree -/

/-- What the tree sees of a state: a process that runs, sleeps or is ready to run is live. -/
def State.kind : State → Kind
  | .unused => .unused
  | .embryo => .embryo
  | .zombie => .zombie
  | _ => .live

variable {t t' : Table} {before after : List (Event × System)} {state : State} {e : Event}
  {pid : Word}

theorem State.kind_eq_embryo : state.kind = .embryo ↔ state = .embryo := by
  cases state <;> simp [State.kind]

theorem State.kind_eq_zombie : state.kind = .zombie ↔ state = .zombie := by
  cases state <;> simp [State.kind]

theorem State.kind_eq_unused : state.kind = .unused ↔ state = .unused := by
  cases state <;> simp [State.kind]

/-- What the tree sees of an entry of the table. -/
def Slot.entry (p : Slot) : Entry := ⟨p.state.kind, p.pid, p.parent, p.killed⟩

/-- What the tree sees of the system. -/
def System.life (s : System) : Life := ⟨Slot.entry ∘ s.table, s.initproc, s.nextpid, s.pc⟩

/-- A step that an entry is not seen to take. -/
theorem entry_update (t : Table) (i : Fin nproc) (p : Slot) (h : p.entry = (t i).entry) :
    Slot.entry ∘ Function.update t i p = Slot.entry ∘ t := by
  rw [Function.comp_update, h]
  exact Function.update_eq_self i (Slot.entry ∘ t)

/-- `wakeup1` makes sleepers ready to run, which the tree does not see. -/
theorem entry_wakeup1 (chan : Option Chan) (t : Table) :
    Slot.entry ∘ wakeup1 chan t = Slot.entry ∘ t := by
  funext i
  simp only [Function.comp_apply, wakeup1]
  split
  case isTrue h => simp [Slot.entry, State.kind, h.1]
  case isFalse => rfl

/-! ## What `exit` does -/

/-- `wakeup1` at one entry. -/
theorem wakeup1_apply (chan : Option Chan) (t : Table) (k : Fin nproc) :
    wakeup1 chan t k = { t k with
      state := if (t k).state = .sleeping ∧ (t k).chan = chan then .runnable
        else (t k).state } := by
  unfold wakeup1
  split <;> rfl

/-- One turn of the loop of `exit`, at one entry: the child in turn gets `init` for a parent, and
`init` is woken up if that child has exited. -/
theorem abandon_apply (curproc initproc : Fin nproc) (t : Table) (i k : Fin nproc) :
    abandon curproc initproc t i k = { t k with
      parent := if k = i ∧ (t k).parent = some curproc then some initproc else (t k).parent
      state := if ((t i).parent = some curproc ∧ (t i).state = .zombie) ∧
          (t k).state = .sleeping ∧ (t k).chan = some (.proc initproc) then .runnable
        else (t k).state } := by
  unfold abandon
  by_cases hparent : (t i).parent = some curproc
  · rw [if_pos hparent]
    dsimp only
    rw [Function.update_self]
    by_cases hzombie : (t i).state = .zombie
    · rw [if_pos hzombie, wakeup1_apply]
      by_cases hki : k = i
      · simp [hki, hparent, hzombie]
      · simp [hki, hparent, hzombie]
    · rw [if_neg hzombie]
      by_cases hki : k = i
      · simp [hki, hparent, hzombie]
      · simp [hki, hparent, hzombie]
  · rw [if_neg hparent]
    have hk : ¬(k = i ∧ (t k).parent = some curproc) := by
      rintro ⟨rfl, hk⟩
      exact hparent hk
    simp [hparent, hk]

/-- The loop of `exit`: the children of the process get `init` for a parent, and `init` is woken
up if one of them has exited. -/
theorem foldl_abandon (curproc initproc : Fin nproc) (hne : curproc ≠ initproc) (t : Table)
    (l : List (Fin nproc)) (k : Fin nproc) :
    l.foldl (abandon curproc initproc) t k = { t k with
      parent := if k ∈ l ∧ (t k).parent = some curproc then some initproc else (t k).parent
      state := if (∃ i ∈ l, (t i).parent = some curproc ∧ (t i).state = .zombie) ∧
          (t k).state = .sleeping ∧ (t k).chan = some (.proc initproc) then .runnable
        else (t k).state } := by
  induction l using List.reverseRecOn generalizing k with
  | nil => simp
  | append_singleton l a ih =>
    rw [List.foldl_append, List.foldl_cons, List.foldl_nil, abandon_apply, ih k, ih a]
    ext
    case state =>
      -- once `init` has been woken up, it does not sleep, and an entry passed before is not
      -- passed again
      have hleft : (∃ i ∈ l ++ [a], (t i).parent = some curproc ∧ (t i).state = .zombie) ↔
          (∃ i ∈ l, (t i).parent = some curproc ∧ (t i).state = .zombie) ∨
            (t a).parent = some curproc ∧ (t a).state = .zombie := by
        simp [or_and_right, exists_or]
      simp only [hleft]
      by_cases hbefore : ∃ i ∈ l, (t i).parent = some curproc ∧ (t i).state = .zombie
      · grind
      · have ha : a ∈ l → (t a).parent = some curproc → (t a).state ≠ .zombie :=
          fun hmem hparent hzombie => hbefore ⟨a, hmem, hparent, hzombie⟩
        grind
    case parent =>
      dsimp only
      grind
    all_goals rfl

/-- **What `exit` does** to an entry: the process is a zombie, its children are `init`'s, and
those that sleep in `wait` for one of them are woken up. -/
theorem exit_apply {curproc initproc : Fin nproc} (hne : curproc ≠ initproc) (t : Table)
    (k : Fin nproc) :
    exit curproc initproc t k = { t k with
      parent := if (t k).parent = some curproc then some initproc else (t k).parent
      state := if k = curproc then .zombie
        else if (t k).state = .sleeping ∧ ((t k).chan = (t curproc).parent.map .proc ∨
          (t k).chan = some (.proc initproc) ∧
            ∃ i, (t i).parent = some curproc ∧ (t i).state = .zombie) then .runnable
        else (t k).state } := by
  set t₁ := wakeup1 ((t curproc).parent.map .proc) t with ht₁
  have hparent : ∀ i, (t₁ i).parent = (t i).parent := fun i => by rw [ht₁, wakeup1_apply]
  have hchan : ∀ i, (t₁ i).chan = (t i).chan := fun i => by rw [ht₁, wakeup1_apply]
  have hzombie : ∀ i, (t₁ i).state = .zombie ↔ (t i).state = .zombie := by
    intro i
    rw [ht₁, wakeup1_apply]
    grind
  have hloop := foldl_abandon curproc initproc hne t₁ (List.finRange nproc)
  simp only [hparent, hchan, hzombie, List.mem_finRange, true_and] at hloop
  unfold exit setState
  dsimp only
  rw [← ht₁]
  by_cases hk : k = curproc
  · subst hk
    rw [Function.update_self, hloop]
    simp [ht₁, wakeup1_apply]
  · rw [Function.update_of_ne hk, hloop, ht₁, wakeup1_apply]
    ext
    case state => grind
    all_goals rfl

/-! ## What the other functions do -/

variable {pc : Fin nproc → Pc} {i : Fin nproc} {t : Table} {s : System}

/-- `allocproc` takes a free entry. -/
theorem allocproc_cases {nextpid : Word} (hrun : allocproc nextpid t = some (i, t')) :
    (t i).state = .unused ∧
      t' = Function.update t i { t i with state := .embryo, pid := nextpid } := by
  obtain ⟨k, hfind, heq⟩ := Option.map_eq_some_iff.mp hrun
  have hfound := List.find?_some hfind
  cases heq
  exact ⟨of_decide_eq_true hfound, rfl⟩

/-- `kill` marks the first entry with the pid, and wakes it up if it sleeps. -/
theorem kill_cases (hrun : kill pid t = some (i, t')) :
    (t i).pid = pid ∧ t' = Function.update t i { t i with
      killed := true
      state := if (t i).state = .sleeping then .runnable else (t i).state } := by
  obtain ⟨k, hfind, heq⟩ := Option.map_eq_some_iff.mp hrun
  have hfound := List.find?_some hfind
  cases heq
  exact ⟨of_decide_eq_true hfound, rfl⟩

/-- `wait` frees the entry of a child that has exited. -/
theorem wait_found {curproc child : Fin nproc} (hrun : wait curproc t = (.found child pid, t')) :
    (t child).parent = some curproc ∧ (t child).state = .zombie ∧ pid = (t child).pid ∧
      t' = Function.update t child
        { t child with pid := 0, parent := none, killed := false, state := .unused } := by
  unfold wait at hrun
  split at hrun
  case h_1 i hfind =>
    cases hrun
    have hfound := List.find?_some hfind
    rw [Bool.and_eq_true, decide_eq_true_eq, decide_eq_true_eq] at hfound
    exact ⟨hfound.1, hfound.2, rfl, rfl⟩
  case h_2 =>
    dsimp only at hrun
    split at hrun <;> cases hrun

theorem wait_none {curproc : Fin nproc} (hrun : wait curproc t = (.none, t')) : t' = t := by
  unfold wait at hrun
  split at hrun
  case h_1 => cases hrun
  case h_2 =>
    dsimp only at hrun
    split at hrun
    case isTrue =>
      cases hrun
      rfl
    case isFalse => cases hrun

/-- `wait` sleeps only if there are children, none of them has exited, and the process has not been
killed. -/
theorem wait_sleeps {curproc : Fin nproc} (hrun : wait curproc t = (.sleeps, t')) :
    (∀ i, (t i).parent = some curproc → (t i).state ≠ .zombie) ∧
      (∃ i, (t i).parent = some curproc) ∧ (t curproc).killed = false ∧
      t' = Function.update t curproc
        { t curproc with chan := some (.proc curproc), state := .sleeping } := by
  unfold wait at hrun
  split at hrun
  case h_1 => cases hrun
  case h_2 hfind =>
    dsimp only at hrun
    split at hrun
    case isTrue => cases hrun
    case isFalse hkids =>
      cases hrun
      rw [not_or, Bool.not_eq_false, Bool.not_eq_true, List.any_eq_true] at hkids
      obtain ⟨⟨i, _, hi⟩, hkilled⟩ := hkids
      refine ⟨fun k hparent hzombie => ?_, ⟨i, of_decide_eq_true hi⟩, hkilled, rfl⟩
      have hnot := List.find?_eq_none.mp hfind k (List.mem_finRange k)
      simp [hparent, hzombie] at hnot

/-- `tidy` clears the channel of a process that comes back from `sleep`. -/
theorem tidy_apply (i : Fin nproc) (pc : Pc) (t : Table) (k : Fin nproc) :
    tidy i pc t k = { t k with
      chan := match pc with
        | .waiting => if k = i then none else (t k).chan
        | _ => (t k).chan } := by
  cases pc with
  | waiting =>
    by_cases hk : k = i
    · simp [tidy, hk]
    · simp [tidy, hk]
  | _ => rfl

theorem entry_tidy (i : Fin nproc) (pc : Pc) (t : Table) :
    Slot.entry ∘ tidy i pc t = Slot.entry ∘ t := by
  funext k
  rw [Function.comp_apply, tidy_apply]
  rfl

/-! ## The refinement -/

/-- A step of the tree, read off the table behind it. -/
theorem step_of_entry {f : Fin nproc → Entry} {nextpid : Word} (ht : Slot.entry ∘ t = f)
    (hstep : Life.Step s.life e ⟨f, s.initproc, nextpid, pc⟩) :
    Life.Step s.life e (System.life ⟨t, s.initproc, nextpid, pc⟩) := by
  subst ht
  exact hstep

theorem live_of_running (hi : (s.table i).state = .running) : (s.life.entry i).kind = .live := by
  simp [System.life, Slot.entry, State.kind, hi]

theorem child_of_wait {pc : Pc} (hpc : pc = .idle ∨ pc = .waiting) : pc.child = none := by
  rcases hpc with rfl | rfl <;> rfl

/-- A process that runs has come to another place, and the tree does not see more of it. -/
theorem rest_of_entry (ht : Slot.entry ∘ t = Slot.entry ∘ s.table) {q : Pc}
    (hi : (s.table i).state = .running) (hpc : (s.pc i).child = none) (hq : q.child = none) :
    Life.Step s.life .internal
      (System.life { s with table := t, pc := Function.update s.pc i q }) :=
  step_of_entry ht (.rest (live_of_running hi) hpc hq)

/-- **The table refines the tree.** -/
theorem Step.life {s s' : System} (hstep : Step s e s') : Life.Step s.life e s'.life := by
  cases hstep with
  | schedule hstate =>
    refine step_of_entry ?_ .stay
    apply entry_update
    simp [Slot.entry, State.kind, hstate]
  | yield hstate =>
    refine step_of_entry ?_ .stay
    apply entry_update
    simp [Slot.entry, State.kind, hstate]
  | @allocproc i child t hstate hpc hrun =>
    obtain ⟨hunused, rfl⟩ := allocproc_cases hrun
    have hj : (s.life.entry child).kind = .unused := by
      simp [System.life, Slot.entry, State.kind, hunused]
    exact step_of_entry (Function.comp_update ..) (.alloc (live_of_running hstate) hpc hj)
  | forkFails hstate hpc => exact step_of_entry (Function.comp_update ..) (.fail hpc)
  | forkLinks hstate hpc => exact step_of_entry (Function.comp_update ..) (.link hpc)
  | forkReturns hstate hpc => exact step_of_entry (Function.comp_update ..) (.ready hpc)
  | @exit i hstate hpc hinit =>
    refine step_of_entry ?_ (.exit (live_of_running hstate) hpc hinit)
    funext k
    rw [Function.comp_apply, exit_apply hinit]
    by_cases hk : k = i
    · simp [System.life, Slot.entry, hk, State.kind]
    · simp only [System.life, Slot.entry, hk, if_false, Function.comp_apply]
      split
      case isTrue h =>
        rw [h.1]
        rfl
      case isFalse => rfl
  | @wait i child pid t hstate hpc hrun =>
    obtain ⟨hparent, hzombie, rfl, rfl⟩ := wait_found hrun
    rw [tidy_apply] at hparent hzombie
    rw [show (tidy i (s.pc i) s.table child).pid = (s.table child).pid by rw [tidy_apply]]
    have hj : (s.life.entry child).kind = .zombie := by
      simp only [System.life, Slot.entry, Function.comp_apply]
      rw [show (s.table child).state = .zombie from hzombie]
      rfl
    refine step_of_entry ?_ (.reap (live_of_running hstate) (child_of_wait hpc) hj hparent)
    rw [Function.comp_update, entry_tidy]
    rfl
  | waitFails hstate hpc hrun =>
    rw [wait_none hrun]
    exact rest_of_entry (entry_tidy _ _ _) hstate (child_of_wait hpc) rfl
  | @waitSleeps i t hstate hpc hrun =>
    obtain ⟨_, _, _, rfl⟩ := wait_sleeps hrun
    refine rest_of_entry ?_ hstate (child_of_wait hpc) rfl
    rw [entry_update, entry_tidy]
    simp [tidy_apply, Slot.entry, State.kind, hstate]
  | sleep hstate hpc =>
    refine rest_of_entry ?_ hstate (by rw [hpc]; rfl) rfl
    apply entry_update
    simp [Slot.entry, State.kind, hstate]
  | sleepReturns hstate hpc =>
    refine rest_of_entry ?_ hstate (by rw [hpc]; rfl) rfl
    apply entry_update
    simp [Slot.entry, State.kind, hstate]
  | wakeup => exact step_of_entry (entry_wakeup1 _ _) .stay
  | @kill pid i t hrun =>
    obtain ⟨rfl, rfl⟩ := kill_cases hrun
    refine step_of_entry ?_ .kill
    rw [Function.comp_update]
    congr 1
    by_cases hsleep : (s.table i).state = .sleeping
    · simp [System.life, Slot.entry, State.kind, hsleep]
    · simp [System.life, Slot.entry, hsleep]
  | mark hstate hpc =>
    exact step_of_entry (Function.comp_update ..) (.mark (live_of_running hstate))

/-! ## Who sleeps -/

/-- Why a process may sleep: something else is to happen, or it is in `wait`, it has a child,
and no child has exited. -/
def Asleep (t : Table) (pc : Pc) (i : Fin nproc) : Prop :=
  (pc = .asleep ∧ ∃ a, (t i).chan = some (.addr a)) ∨
    (pc = .waiting ∧ (t i).chan = some (.proc i) ∧ (t i).killed = false ∧
      (∃ c, (t c).parent = some i) ∧ ∀ c, (t c).parent = some i → (t c).state ≠ .zombie)

/-- It goes on sleeping while no child of it exits. -/
theorem Asleep.mono {pc : Pc} (h : Asleep t pc i) (hchan : (t' i).chan = (t i).chan)
    (hkilled : (t' i).killed = (t i).killed)
    (hkeep : ∀ c, (t c).parent = some i → (t' c).parent = some i)
    (hzombie : ∀ c, (t' c).parent = some i → (t' c).state = .zombie →
      (t c).parent = some i ∧ (t c).state = .zombie) : Asleep t' pc i := by
  unfold Asleep
  rw [hchan, hkilled]
  rcases h with h | ⟨hpc, hown, hnot, ⟨c, hc⟩, hnone⟩
  · exact .inl h
  · refine .inr ⟨hpc, hown, hnot, ⟨c, hkeep c hc⟩, fun c hc hstate => ?_⟩
    obtain ⟨hparent, hstate⟩ := hzombie c hc hstate
    exact hnone c hparent hstate

/-- A change of another entry. -/
theorem Asleep.update {pc : Pc} {i j : Fin nproc} {p : Slot} (h : Asleep t pc i) (hij : i ≠ j)
    (hparent : (t j).parent = some i → p.parent = some i)
    (hzombie : p.parent = some i → p.state = .zombie →
      (t j).parent = some i ∧ (t j).state = .zombie) : Asleep (Function.update t j p) pc i := by
  have hi : Function.update t j p i = t i := Function.update_of_ne hij ..
  refine h.mono (by rw [hi]) (by rw [hi]) (fun c hc => ?_) (fun c hc hstate => ?_)
  · by_cases hcj : c = j
    · rw [hcj] at hc ⊢
      rw [Function.update_self]
      exact hparent hc
    · rw [Function.update_of_ne hcj]
      exact hc
  · by_cases hcj : c = j
    · rw [hcj, Function.update_self] at hc hstate
      rw [hcj]
      exact hzombie hc hstate
    · rw [Function.update_of_ne hcj] at hc hstate
      exact ⟨hc, hstate⟩

/-- `wait` goes to sleep. -/
theorem Asleep.of_wait {i c : Fin nproc} (hc : (t c).parent = some i)
    (hkilled : (t i).killed = false) (hnone : ∀ c, (t c).parent = some i → (t c).state ≠ .zombie) :
    Asleep (Function.update t i { t i with chan := some (.proc i), state := .sleeping })
      .waiting i := by
  have hparent : ∀ c, (Function.update t i
      { t i with chan := some (.proc i), state := .sleeping } c).parent = (t c).parent := by
    intro c
    rw [Function.update_apply]
    split
    case isTrue hci => rw [hci]
    case isFalse => rfl
  refine .inr ⟨rfl, by rw [Function.update_self], by rw [Function.update_self]; exact hkilled,
    ⟨c, (hparent c).trans hc⟩, fun c hc hstate => ?_⟩
  rw [hparent] at hc
  by_cases hci : c = i
  · rw [hci, Function.update_self] at hstate
    cases hstate
  · rw [Function.update_of_ne hci] at hstate
    exact hnone c hc hstate

/-- Whoever sleeps has a reason to. -/
def Sleepers (t : Table) (pc : Fin nproc → Pc) : Prop :=
  ∀ i, (t i).state = .sleeping → Asleep t (pc i) i

/-- The places of those that sleep are not those that a process which runs comes to. -/
theorem Sleepers.move (h : Sleepers t pc) (hi : (t i).state ≠ .sleeping) (q : Pc) :
    Sleepers t (Function.update pc i q) := by
  intro k hk
  have hki : k ≠ i := by
    rintro rfl
    exact hi hk
  rw [Function.update_of_ne hki]
  exact h k hk

/-- A change of an entry that is not the entry of a process that sleeps, as seen by those that
sleep. -/
theorem Sleepers.update (h : Sleepers t pc) {j : Fin nproc} {p : Slot} (hp : p.state ≠ .sleeping)
    (hparent : ∀ k, (t k).state = .sleeping → (t j).parent = some k → p.parent = some k)
    (hzombie : p.state = .zombie → p.parent = (t j).parent ∧ (t j).state = .zombie) :
    Sleepers (Function.update t j p) pc := by
  intro k hk
  have hkj : k ≠ j := by
    rintro rfl
    rw [Function.update_self] at hk
    exact hp hk
  rw [Function.update_of_ne hkj] at hk
  refine (h k hk).update hkj (hparent k hk) (fun hpk hstate => ?_)
  obtain ⟨hsame, hstate⟩ := hzombie hstate
  exact ⟨hsame ▸ hpk, hstate⟩

/-- A process goes to sleep. -/
theorem Sleepers.sleep (h : Sleepers t pc) {chan : Chan} {q : Pc}
    (hasleep : Asleep (Function.update t i { t i with chan := some chan, state := .sleeping }) q i) :
    Sleepers (Function.update t i { t i with chan := some chan, state := .sleeping })
      (Function.update pc i q) := by
  intro k hk
  by_cases hki : k = i
  · rw [hki, Function.update_self]
    exact hasleep
  · rw [Function.update_of_ne hki] at hk ⊢
    exact (h k hk).update hki (fun hparent => hparent) (fun _ hzombie => by cases hzombie)

/-- A process that runs is no sleeper. -/
theorem Sleepers.tidy (h : Sleepers t pc) (hi : (t i).state = .running) (q : Pc) :
    Sleepers (tidy i q t) pc := by
  unfold Ptable.tidy
  split
  · refine h.update ?_ (fun _ _ hparent => hparent) (fun hzombie => ⟨rfl, hzombie⟩)
    dsimp only
    rw [hi]
    decide
  · exact h

/-- `wakeup` wakes some of them up. -/
theorem Sleepers.wakeup (h : Sleepers t pc) (chan : Option Chan) :
    Sleepers (wakeup1 chan t) pc := by
  intro k hk
  have hsleep : (t k).state = .sleeping := by
    rw [wakeup1_apply] at hk
    grind
  refine (h k hsleep).mono (by rw [wakeup1_apply]) (by rw [wakeup1_apply]) (fun c hc => ?_)
    (fun c hc hstate => ?_)
  · rw [wakeup1_apply]
    exact hc
  · rw [wakeup1_apply] at hc hstate
    refine ⟨hc, ?_⟩
    grind

/-- `exit` wakes up whoever waits for what becomes a zombie, or is given one. -/
theorem Sleepers.exit (h : Sleepers t pc) {i init : Fin nproc} (hne : i ≠ init)
    (hself : (t i).parent ≠ some i) : Sleepers (exit i init t) pc := by
  intro k hk
  have hki : k ≠ i := by
    rintro rfl
    rw [exit_apply hne] at hk
    simp at hk
  obtain ⟨hsleep, hnot⟩ : (t k).state = .sleeping ∧ ¬((t k).chan = (t i).parent.map .proc ∨
      (t k).chan = some (.proc init) ∧
        ∃ c, (t c).parent = some i ∧ (t c).state = .zombie) := by
    rw [exit_apply hne] at hk
    dsimp only at hk
    rw [if_neg hki] at hk
    split at hk
    case isTrue => cases hk
    case isFalse hnot => exact ⟨hk, fun hwoken => hnot ⟨hk, hwoken⟩⟩
  rcases h k hsleep with ⟨hpc, a, hchan⟩ | hwaits
  · refine .inl ⟨hpc, a, ?_⟩
    rw [exit_apply hne]
    exact hchan
  · have hown := hwaits.2.1
    refine Asleep.mono (.inr hwaits) (by rw [exit_apply hne]) (by rw [exit_apply hne])
      (fun c hc => ?_) (fun c hc hstate => ?_)
    · rw [exit_apply hne]
      dsimp only
      rw [if_neg, hc]
      rw [hc]
      exact fun heq => hki (Option.some.inj heq)
    · rw [exit_apply hne] at hc hstate
      grind

/-- **Nobody sleeps without a reason**, whatever happens next. -/
theorem Sleepers.step {s s' : System} (h : Sleepers s.table s.pc) (htree : s.life.IsTree)
    (hstep : Step s e s') : Sleepers s'.table s'.pc := by
  have hmove : ∀ {i}, (s.table i).state = .running → ∀ q,
      Sleepers s.table (Function.update s.pc i q) := by
    intro i hi q
    refine h.move ?_ q
    rw [hi]
    decide
  cases hstep with
  | schedule hstate => exact h.update (by simp) (fun _ _ hparent => hparent) (by simp)
  | yield hstate => exact h.update (by simp) (fun _ _ hparent => hparent) (by simp)
  | @allocproc i child t hstate hpc hrun =>
    obtain ⟨hunused, rfl⟩ := allocproc_cases hrun
    exact (hmove hstate _).update (by simp) (fun _ _ hparent => hparent) (by simp)
  | forkFails hstate hpc =>
    exact (hmove hstate _).update (by simp) (fun _ _ hparent => hparent) (by simp)
  | forkLinks hstate hpc =>
    obtain ⟨hkind, hnone⟩ := htree.forking _ _ hpc
    have hembryo := State.kind_eq_embryo.mp hkind
    refine (hmove hstate _).update (by simp [hembryo]) (fun k hk hparent => ?_)
      (by simp [hembryo])
    rw [show (s.table _).parent = none from hnone] at hparent
    cases hparent
  | forkReturns hstate hpc =>
    exact (hmove hstate _).update (by simp) (fun _ _ hparent => hparent) (by simp)
  | exit hstate hpc hinit => exact h.exit hinit (htree.parent_self _)
  | @wait i child pid t hstate hpc hrun =>
    obtain ⟨hparent, hzombie, rfl, rfl⟩ := wait_found hrun
    refine ((hmove hstate _).tidy hstate _).update (by simp) (fun k hk hchild => ?_) (by simp)
    rw [hparent] at hchild
    cases hchild
    rw [tidy_apply] at hk
    simp [hstate] at hk
  | waitFails hstate hpc hrun =>
    rw [wait_none hrun]
    exact (hmove hstate _).tidy hstate _
  | @waitSleeps i t hstate hpc hrun =>
    obtain ⟨hnone, ⟨c, hc⟩, hkilled, rfl⟩ := wait_sleeps hrun
    apply Sleepers.sleep (h.tidy hstate _)
    exact Asleep.of_wait hc hkilled hnone
  | sleep hstate hpc =>
    apply h.sleep
    exact .inl ⟨rfl, _, by rw [Function.update_self]⟩
  | @sleepReturns i hstate hpc =>
    refine (hmove hstate _).update ?_ (fun _ _ hparent => hparent)
      (fun hzombie => ⟨rfl, hzombie⟩)
    dsimp only
    rw [hstate]
    decide
  | wakeup => exact h.wakeup _
  | @kill pid i t hrun =>
    obtain ⟨rfl, rfl⟩ := kill_cases hrun
    refine h.update ?_ (fun _ _ hparent => hparent) (fun hzombie => ⟨rfl, ?_⟩)
    · dsimp only
      split <;> simp_all
    · dsimp only at hzombie
      split at hzombie <;> simp_all
  | mark hstate hpc =>
    refine h.update ?_ (fun _ _ hparent => hparent) (fun hzombie => ⟨rfl, hzombie⟩)
    dsimp only
    rw [hstate]
    decide

/-! ## Runs -/

theorem boot_entry (i : Fin nproc) :
    boot.life.entry i = if i = 0 then ⟨.live, 1, none, false⟩ else ⟨.unused, 0, none, false⟩ := by
  simp only [System.life, boot, Function.comp_apply, Function.update_apply]
  split <;> rfl

/-- At boot the tree has its root only. -/
theorem boot_isTree : boot.life.IsTree := by
  have hkind : ∀ i, (Entry.kind ∘ boot.life.entry) i = if i = 0 then .live else .unused := by
    intro i
    rw [Function.comp_apply, boot_entry]
    split <;> rfl
  have hparent : ∀ i, (Entry.parent ∘ boot.life.entry) i = none := by
    intro i
    rw [Function.comp_apply, boot_entry]
    split <;> rfl
  have hpc : ∀ i, boot.life.pc i = .idle := fun _ => rfl
  have hinit : boot.life.init = 0 := rfl
  unfold Life.IsTree
  constructor <;> grind [Pc.child]

theorem boot_sleepers : Sleepers boot.table boot.pc := by
  intro i hi
  simp only [boot, Function.update_apply] at hi
  split at hi <;> cases hi

/-- Pid `1` has been given out, and nobody has exited. -/
theorem boot_pids : boot.life.Pids [] := by
  have hused : ∀ i, (boot.life.entry i).kind ≠ .unused → i = 0 := by
    intro i hi
    rw [boot_entry] at hi
    by_contra hne
    rw [if_neg hne] at hi
    exact hi rfl
  constructor
  case nextpid => rfl
  case below =>
    intro i hi
    rw [hused i hi]
    decide
  case pos =>
    intro i hi
    rw [hused i hi]
    decide
  case distinct => exact fun i j hi hj _ => (hused i hi).trans (hused j hj).symm
  case exited_below => exact fun pid hpid => absurd rfl hpid
  case exited => exact fun _ _ => rfl
  case once => exact fun _ => Nat.zero_le 1
  case account =>
    intro pid
    have hnone : Entry.zombie ∘ boot.life.entry = fun _ => none := by
      funext i
      rw [Function.comp_apply, boot_entry]
      split <;> rfl
    rw [hnone, Counting.count_none]
    rfl

/-- Nobody has been named. -/
theorem boot_marks : boot.life.Marks [] := by
  have hkilled : ∀ i, (boot.life.entry i).killed = false := by
    intro i
    rw [boot_entry]
    split <;> rfl
  have hnamed : ∀ pid, ¬Named pid [] := fun pid ⟨_, hi, _⟩ => List.not_mem_nil hi
  constructor
  case below => exact fun pid hpid => absurd hpid (hnamed pid)
  case unmarked => exact fun i _ => hkilled i
  case marked =>
    intro i _
    rw [hkilled]
    exact iff_of_false Bool.false_ne_true (hnamed _)

open Transitions (Path)

variable {path : List (Event × System)}

/-- What has happened. -/
def events (path : List (Event × System)) : List Event := path.map Prod.fst

theorem events_concat (path : List (Event × System)) (e : Event) (s : System) :
    events (path ++ [(e, s)]) = events path ++ [e] := List.map_append

/-- A part of a run has made no more processes than the run. -/
theorem allocs_events_le (hpath : path = before ++ (e, s) :: after) :
    allocs (events before ++ [e]) ≤ allocs (events path) := by
  have hsplit : events path = events before ++ [e] ++ events after := by
    rw [hpath, events, List.map_append, List.map_cons, List.append_assoc]
    rfl
  rw [hsplit]
  exact List.Sublist.countP_le (List.sublist_append_left _ _)

/-- **Every run** keeps the tree. -/
theorem run_tree (run : Path Step boot path) : (Transitions.last boot path).life.IsTree :=
  run.invariant_last (I := fun s => s.life.IsTree) (fun _ _ _ h hstep => h.step hstep.life)
    boot_isTree

theorem run_tree_before (run : Path Step boot path) (hpath : path = before ++ after) :
    (Transitions.last boot before).life.IsTree := by
  subst hpath
  exact run_tree run.of_append

/-- **Nobody sleeps through an exit**, in any run. -/
theorem run_sleepers (run : Path Step boot path) :
    Sleepers (Transitions.last boot path).table (Transitions.last boot path).pc :=
  (run.invariant_last (I := fun s => s.life.IsTree ∧ Sleepers s.table s.pc)
    (fun _ _ _ h hstep => ⟨h.1.step hstep.life, h.2.step h.1 hstep⟩)
    ⟨boot_isTree, boot_sleepers⟩).2

/-- **The pids of a run** are fresh as long as the counter has not come round. -/
theorem run_pids (run : Path Step boot path) (hroom : allocs (events path) < 2 ^ 32 - 2) :
    ∀ before after, path = before ++ after →
      (Transitions.last boot before).life.Pids (events before) := by
  refine run.invariant (I := fun before s => s.life.Pids (events before)) boot_pids ?_
  intro before e s' after hpath hstep hI
  have hle := allocs_events_le hpath
  have htree := run_tree_before run hpath
  rw [events_concat]
  exact hI.step htree (by omega) hstep.life

/-- `kill` finds a process: its entry is in use, and `fork` has completed it. -/
def KillsProcesses (path : List (Event × System)) : Prop :=
  ∀ before pid i s' after, path = before ++ (.killed pid i, s') :: after →
    ((Transitions.last boot before).table i).state ≠ .unused ∧
      ((Transitions.last boot before).table i).state ≠ .embryo

/-- **The marks of a run** are the ones it made, when `kill` finds a process each time. -/
theorem run_marks (run : Path Step boot path) (hroom : allocs (events path) < 2 ^ 32 - 2)
    (hkills : KillsProcesses path) :
    ∀ before after, path = before ++ after →
      (Transitions.last boot before).life.Marks (events before) := by
  refine run.invariant (I := fun before s => s.life.Marks (events before)) boot_marks ?_
  intro before e s' after hpath hstep hI
  have hle := allocs_events_le hpath
  have htree := run_tree_before run hpath
  have hpids := run_pids run hroom before _ hpath
  rw [events_concat]
  refine hI.step htree hpids (by omega) (fun pid i he => ?_) hstep.life
  subst he
  obtain ⟨hunused, hembryo⟩ := hkills before pid i s' after hpath
  have hkind : ∀ state : State, state ≠ .unused → state ≠ .embryo →
      state.kind = .live ∨ state.kind = .zombie := by
    intro state h h'
    cases state <;> simp_all [State.kind]
  exact hkind _ hunused hembryo

/-- The first process makes a child and waits for it. -/
theorem exists_waiting_run : ∃ path, Path Step boot path ∧
    ((Transitions.last boot path).table 0).state = .sleeping ∧
    (Transitions.last boot path).pc 0 = .waiting :=
  ⟨_, .cons (.schedule (i := 0) rfl)
    (.cons (.allocproc (i := 0) rfl rfl rfl)
    (.cons (.forkLinks (i := 0) rfl rfl)
    (.cons (.forkReturns (i := 0) rfl rfl)
    (.cons (.waitSleeps (i := 0) rfl (.inl rfl) rfl) .nil)))), rfl, rfl⟩

/-- The child exits while its parent waits for it. -/
theorem exists_exiting_run : ∃ path, Path Step boot path ∧
    events path = [.internal, .alloc 2, .internal, .internal, .internal, .internal, .exited 2] ∧
    ((Transitions.last boot path).table 1).state = .zombie ∧
    (Transitions.last boot path).initproc = 0 :=
  ⟨_, .cons (.schedule (i := 0) rfl)
    (.cons (.allocproc (i := 0) rfl rfl rfl)
    (.cons (.forkLinks (i := 0) rfl rfl)
    (.cons (.forkReturns (i := 0) rfl rfl)
    (.cons (.waitSleeps (i := 0) rfl (.inl rfl) rfl)
    (.cons (.schedule (i := 1) rfl)
    (.cons (.exit (i := 1) rfl rfl (by decide)) .nil)))))), rfl, rfl, rfl⟩

/-- **No exit is missed.**  Whatever has happened: a process, also one that has exited, has a
parent that is alive, except for the first; and a process that is asleep in `wait` has a child,
but none that has exited, and has not been killed. -/
theorem no_exit_missed (run : Path Step boot path) :
    (∀ j, j ≠ (Transitions.last boot path).initproc →
      ((Transitions.last boot path).table j).state ≠ .unused →
      ((Transitions.last boot path).table j).state ≠ .embryo →
      ∃ i, ((Transitions.last boot path).table j).parent = some i ∧
        ((Transitions.last boot path).table i).state.kind = .live) ∧
    ∀ i, ((Transitions.last boot path).table i).state = .sleeping →
      (Transitions.last boot path).pc i = .waiting →
      ((Transitions.last boot path).table i).killed = false ∧
        (∃ c, ((Transitions.last boot path).table c).parent = some i) ∧
        ∀ c, ((Transitions.last boot path).table c).parent = some i →
          ((Transitions.last boot path).table c).state ≠ .zombie := by
  have htree := run_tree run
  have hsleepers := run_sleepers run
  set s := Transitions.last boot path
  constructor
  · intro j hinit hunused hembryo
    have hkind : (s.table j).state.kind = .live ∨ (s.table j).state.kind = .zombie := by
      generalize (s.table j).state = state at *
      cases state <;> simp_all [State.kind]
    obtain ⟨i, hi⟩ := Option.ne_none_iff_exists'.mp (htree.parent_ne j hinit hkind)
    exact ⟨i, hi, htree.parent_live i j hi⟩
  · intro i hstate hpc
    rcases hsleepers i hstate with ⟨hasleep, _⟩ | ⟨_, _, hwaits⟩
    · rw [hpc] at hasleep
      cases hasleep
    · exact hwaits

theorem no_exit_missed_first_child :
    (∃ path, Path Step boot path ∧ ((Transitions.last boot path).table 1).state = .zombie ∧
      ∃ i, ((Transitions.last boot path).table 1).parent = some i ∧
        ((Transitions.last boot path).table i).state.kind = .live) ∧
    ∃ path, Path Step boot path ∧ ((Transitions.last boot path).table 0).state = .sleeping ∧
      ∃ c, ((Transitions.last boot path).table c).parent = some 0 := by
  constructor
  · obtain ⟨path, run, _, hzombie, hinit⟩ := exists_exiting_run
    refine ⟨path, run, hzombie, (no_exit_missed run).1 1 ?_ ?_ ?_⟩
    · rw [hinit]
      decide
    · rw [hzombie]
      decide
    · rw [hzombie]
      decide
  · obtain ⟨path, run, hstate, hpc⟩ := exists_waiting_run
    exact ⟨path, run, hstate, ((no_exit_missed run).2 0 hstate hpc).2.1⟩

/-- The number of zombies with a pid. -/
def zombies (t : Table) (pid : Word) : ℕ :=
  (Finset.univ.filter fun i => (t i).state = .zombie ∧ (t i).pid = pid).card

theorem count_zombie (s : System) (pid : Word) :
    Counting.count (Entry.zombie ∘ s.life.entry) pid = zombies s.table pid := by
  unfold Counting.count zombies
  congr 1
  apply Finset.filter_congr
  intro i _
  rw [Function.comp_apply, Entry.zombie_eq_some]
  exact and_congr_left' State.kind_eq_zombie

/-- **`wait` returns what has exited, once.**  Until the pids have all been given, a pid exits at
most once; it has then been returned by one call of `wait`, or it is the pid of one zombie; and
`wait` returns nothing else. -/
theorem wait_returns_exits_once (run : Path Step boot path)
    (hroom : allocs (events path) < 2 ^ 32 - 2) (pid : Word) :
    exits pid (events path) ≤ 1 ∧
      exits pid (events path) =
        reaps pid (events path) + zombies (Transitions.last boot path).table pid := by
  have hpids := run_pids run hroom path [] (List.append_nil path).symm
  refine ⟨hpids.once pid, ?_⟩
  rw [hpids.account pid, count_zombie]

theorem wait_returns_exits_once_first_child : ∃ path, Path Step boot path ∧
    exits 2 (events path) = 1 ∧
    1 = reaps 2 (events path) + zombies (Transitions.last boot path).table 2 := by
  obtain ⟨path, run, hevents, _, _⟩ := exists_exiting_run
  have hexits : exits 2 (events path) = 1 := by
    rw [hevents]
    rfl
  have hroom : allocs (events path) < 2 ^ 32 - 2 := by
    rw [hevents]
    decide
  exact ⟨path, run, hexits, hexits ▸ (wait_returns_exits_once run hroom 2).2⟩

/-- **Who is killed.**  As long as `kill` is only called with the pids of processes, the
processes that are marked are those that it has been called for, and those that have misbehaved
in user mode or in a session. -/
theorem killed_iff_named (run : Path Step boot path) (hroom : allocs (events path) < 2 ^ 32 - 2)
    (hkills : KillsProcesses path) (i : Fin nproc)
    (hi : ((Transitions.last boot path).table i).state ≠ .unused) :
    ((Transitions.last boot path).table i).killed = true ↔
      ∃ j, Event.killed ((Transitions.last boot path).table i).pid j ∈ events path ∨
        Event.marked ((Transitions.last boot path).table i).pid j ∈ events path := by
  have hmarks := run_marks run hroom hkills path [] (List.append_nil path).symm
  rw [← named_iff]
  exact hmarks.marked i (fun hkind => hi (State.kind_eq_unused.mp hkind))

/-- The first process makes a child. -/
theorem exists_forking_run : ∃ path, Path Step boot path ∧
    events path = [.internal, .alloc 2, .internal, .internal] ∧
    ((Transitions.last boot path).table 1).state = .runnable ∧
    ∃ s, Step (Transitions.last boot path) (.killed 2 1) s ∧ (s.table 1).state = .runnable ∧
      (s.table 1).pid = 2 :=
  ⟨_, .cons (.schedule (i := 0) rfl)
    (.cons (.allocproc (i := 0) rfl rfl rfl)
    (.cons (.forkLinks (i := 0) rfl rfl)
    (.cons (.forkReturns (i := 0) rfl rfl) .nil))), rfl, rfl, _, .kill rfl, rfl, rfl⟩

/-- One call of `kill`, at the end. -/
theorem killsProcesses_concat (hquiet : ∀ pid i, Event.killed pid i ∉ events path)
    (hused : ((Transitions.last boot path).table i).state ≠ .unused)
    (hembryo : ((Transitions.last boot path).table i).state ≠ .embryo) :
    KillsProcesses (path ++ [(.killed pid i, s)]) := by
  intro before p j s' after hpath
  rcases List.eq_nil_or_concat after with rfl | ⟨after, t, rfl⟩
  · obtain ⟨rfl, heq⟩ := List.append_inj' hpath rfl
    cases heq
    exact ⟨hused, hembryo⟩
  · rw [List.concat_eq_append, ← List.cons_append, ← List.append_assoc] at hpath
    obtain ⟨hpath, _⟩ := List.append_inj' hpath rfl
    refine absurd ?_ (hquiet p j)
    rw [hpath, events, List.map_append, List.map_cons]
    exact List.mem_append_right _ List.mem_cons_self

theorem killed_iff_named_first_child : ∃ path, Path Step boot path ∧ KillsProcesses path ∧
    ((Transitions.last boot path).table 1).state = .runnable ∧
    ((Transitions.last boot path).table 1).killed = true := by
  obtain ⟨path, run, hevents, hstate, s, hkill, hstate', hpid⟩ := exists_forking_run
  have run' : Path Step boot (path ++ [(.killed 2 1, s)]) := run.append (.cons hkill .nil)
  have hroom : allocs (events (path ++ [(.killed 2 1, s)])) < 2 ^ 32 - 2 := by
    rw [events_concat, hevents]
    decide
  have hkills : KillsProcesses (path ++ [(.killed 2 1, s)]) := by
    apply killsProcesses_concat
    · rw [hevents]
      simp
    · rw [hstate]
      decide
    · rw [hstate]
      decide
  have hmarked := killed_iff_named run' hroom hkills 1
  rw [Transitions.last_concat, hstate', hpid] at hmarked
  refine ⟨_, run', hkills, ?_, ?_⟩
  · rw [Transitions.last_concat, hstate']
  · rw [Transitions.last_concat, hmarked (by decide), events_concat]
    exact ⟨1, .inl (List.mem_append_right _ List.mem_cons_self)⟩

/-- **Killing nobody.**  `kill(0)` finds an entry that is not in use, and marks it.  The mark is
still there when a process is given the entry, and stays until `wait` has freed it: that process
is killed from the start. -/
theorem kill_zero_marks_unborn (run : Path Step boot path)
    (hroom : allocs (events path) < 2 ^ 32 - 2) {i : Fin nproc} {s : System}
    (hkill : Step (Transitions.last boot path) (.killed 0 i) s)
    {path' : List (Event × System)} (rest : Path Step s path')
    (hreaped : ∀ j pid, Event.reaped j i pid ∉ events path') :
    ((Transitions.last boot path).table i).state = .unused ∧
      ((Transitions.last s path').table i).killed = true := by
  have hpids := run_pids run hroom path [] (List.append_nil path).symm
  have hzero : ((Transitions.last boot path).table i).pid = 0 ∧ (s.table i).killed = true := by
    cases hkill with
    | kill hrun =>
      obtain ⟨hpid, rfl⟩ := kill_cases hrun
      refine ⟨hpid, ?_⟩
      dsimp only
      rw [Function.update_self]
  constructor
  · by_contra hused
    exact hpids.pos i (fun hkind => hused (State.kind_eq_unused.mp hkind)) hzero.1
  · have hkilled := hzero.2
    clear hzero hkill
    induction rest with
    | nil => exact hkilled
    | cons hstep _ ih =>
      refine ih (fun j pid hmem => hreaped j pid (List.mem_cons_of_mem _ hmem)) ?_
      refine hstep.life.killed_stays hkilled (fun j pid he => hreaped j pid ?_)
      rw [he]
      exact List.mem_cons_self

/-- After `kill(0)`, the first process makes a child. -/
theorem exists_forking_run_after_kill : ∃ s path, Step boot (.killed 0 1) s ∧ Path Step s path ∧
    events path = [.internal, .alloc 2, .internal, .internal] ∧
    ((Transitions.last s path).table 1).state = .runnable :=
  ⟨_, _, .kill rfl, .cons (.schedule (i := 0) rfl)
    (.cons (.allocproc (i := 0) rfl rfl rfl)
    (.cons (.forkLinks (i := 0) rfl rfl)
    (.cons (.forkReturns (i := 0) rfl rfl) .nil))), rfl, rfl⟩

theorem kill_zero_marks_unborn_first_child : ∃ s path, Step boot (.killed 0 1) s ∧
    Path Step s path ∧ ((Transitions.last s path).table 1).state = .runnable ∧
    ((Transitions.last s path).table 1).killed = true := by
  obtain ⟨s, path, hkill, rest, hevents, hstate⟩ := exists_forking_run_after_kill
  refine ⟨s, path, hkill, rest, hstate, ?_⟩
  refine (kill_zero_marks_unborn .nil (by decide) hkill rest ?_).2
  rw [hevents]
  simp

end Xv6.Ptable
