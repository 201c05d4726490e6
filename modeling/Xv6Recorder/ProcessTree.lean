/-
# Births and deaths of processes

What the table of processes is for: which entries are in use, by what pid, and whose children
they are.  Whether a process runs, and what it sleeps on, is left out.  The parents form a tree
of processes that are alive, whatever happens; no pid is given twice before they have all been
given; and what `wait` returns is what has exited.
-/
import Xv6Recorder.Counting
import Xv6Recorder.Ptable

namespace Xv6.Ptable

/-- What the tree knows of an entry. -/
inductive Kind where
  | unused
  | embryo
  | live
  | zombie
  deriving DecidableEq

/-- The entry that `fork` works on. -/
def Pc.child : Pc → Option (Fin nproc)
  | .forking child | .linked child => some child
  | _ => none

/-- What is left of an entry. -/
structure Entry where
  kind : Kind
  pid : Word
  parent : Option (Fin nproc)
  killed : Bool

structure Life where
  entry : Fin nproc → Entry
  init : Fin nproc
  nextpid : Word
  pc : Fin nproc → Pc

/-- What may happen. -/
inductive Life.Step : Life → Event → Life → Prop
  | stay {l : Life} : Step l .internal l
  | rest {l : Life} {i : Fin nproc} {q : Pc} (hi : (l.entry i).kind = .live)
      (hpc : (l.pc i).child = none) (hq : q.child = none) :
      Step l .internal { l with pc := Function.update l.pc i q }
  | alloc {l : Life} {i j : Fin nproc} (hi : (l.entry i).kind = .live) (hpc : l.pc i = .idle)
      (hj : (l.entry j).kind = .unused) :
      Step l (.alloc l.nextpid)
        { l with
          entry := Function.update l.entry j
            { l.entry j with kind := .embryo, pid := l.nextpid }
          nextpid := l.nextpid + 1
          pc := Function.update l.pc i (.forking j) }
  | fail {l : Life} {i j : Fin nproc} (hpc : l.pc i = .forking j) :
      Step l .internal
        { l with
          entry := Function.update l.entry j { l.entry j with kind := .unused }
          pc := Function.update l.pc i .idle }
  | link {l : Life} {i j : Fin nproc} (hpc : l.pc i = .forking j) :
      Step l .internal
        { l with
          entry := Function.update l.entry j { l.entry j with parent := some i }
          pc := Function.update l.pc i (.linked j) }
  | ready {l : Life} {i j : Fin nproc} (hpc : l.pc i = .linked j) :
      Step l .internal
        { l with
          entry := Function.update l.entry j { l.entry j with kind := .live }
          pc := Function.update l.pc i .idle }
  | exit {l : Life} {i : Fin nproc} (hi : (l.entry i).kind = .live) (hpc : l.pc i = .idle)
      (hne : i ≠ l.init) :
      Step l (.exited (l.entry i).pid)
        { l with
          entry := fun k => { l.entry k with
            kind := if k = i then .zombie else (l.entry k).kind
            parent := if (l.entry k).parent = some i then some l.init
              else (l.entry k).parent } }
  | reap {l : Life} {i j : Fin nproc} (hi : (l.entry i).kind = .live)
      (hpc : (l.pc i).child = none) (hj : (l.entry j).kind = .zombie)
      (hparent : (l.entry j).parent = some i) :
      Step l (.reaped i j (l.entry j).pid)
        { l with
          entry := Function.update l.entry j ⟨.unused, 0, none, false⟩
          pc := Function.update l.pc i .idle }
  | kill {l : Life} {i : Fin nproc} :
      Step l (.killed (l.entry i).pid i)
        { l with entry := Function.update l.entry i { l.entry i with killed := true } }
  | mark {l : Life} {i : Fin nproc} (hi : (l.entry i).kind = .live) :
      Step l (.marked (l.entry i).pid i)
        { l with entry := Function.update l.entry i { l.entry i with killed := true } }

/-! ## The tree -/

/-- **The tree.**  Parents are alive; a process other than the first has a parent; an entry that
is not complete belongs to one `fork`. -/
structure Tree (init : Fin nproc) (kind : Fin nproc → Kind)
    (parent : Fin nproc → Option (Fin nproc)) (pc : Fin nproc → Pc) : Prop where
  init_live : kind init = .live
  init_parent : parent init = none
  parent_self : ∀ j, parent j ≠ some j
  parent_live : ∀ i j, parent j = some i → kind i = .live
  parent_ne : ∀ j, j ≠ init → kind j = .live ∨ kind j = .zombie → parent j ≠ none
  unused : ∀ j, kind j = .unused → parent j = none
  busy : ∀ i, pc i ≠ .idle → kind i = .live
  forking : ∀ i j, pc i = .forking j → kind j = .embryo ∧ parent j = none
  linked : ∀ i j, pc i = .linked j → kind j = .embryo ∧ parent j = some i
  owner : ∀ i i' j, (pc i).child = some j → (pc i').child = some j → i = i'
  embryo : ∀ j, kind j = .embryo → ∃ i, (pc i).child = some j

namespace Tree

variable {init : Fin nproc} {kind : Fin nproc → Kind} {parent : Fin nproc → Option (Fin nproc)}
  {pc : Fin nproc → Pc} {i j : Fin nproc}

theorem child (h : Tree init kind parent pc) (hchild : (pc i).child = some j) :
    kind j = .embryo := by
  cases hpc : pc i with
  | forking child =>
    rw [hpc] at hchild
    cases hchild
    exact (h.forking i _ hpc).1
  | linked child =>
    rw [hpc] at hchild
    cases hchild
    exact (h.linked i _ hpc).1
  | _ =>
    rw [hpc] at hchild
    cases hchild

/-- The entry that a process works on, when one of them goes on. -/
theorem child_update (q : Pc) (k : Fin nproc) :
    (Function.update pc i q k).child = if k = i then q.child else (pc k).child := by
  rw [Function.update_apply]
  split <;> rfl

/-- The entry that a `fork` has finished with is no embryo. -/
theorem embryo_update (h : Tree init kind parent pc) (hchild : (pc i).child = some j)
    {x : Kind} (hx : x ≠ .embryo) :
    ∀ c, Function.update kind j x c = .embryo →
      ∃ k, (Function.update pc i .idle k).child = some c := by
  intro c hc
  have hcj : c ≠ j := by
    intro hcj
    rw [hcj, Function.update_self] at hc
    exact hx hc
  rw [Function.update_of_ne hcj] at hc
  obtain ⟨k, hk⟩ := h.embryo c hc
  refine ⟨k, ?_⟩
  rw [child_update, if_neg, hk]
  rintro rfl
  rw [hchild] at hk
  exact hcj (Option.some.inj hk).symm

/-- A process goes to sleep or wakes up, and works on no entry. -/
theorem rest (h : Tree init kind parent pc) {q : Pc} (hi : kind i = .live)
    (hpc : (pc i).child = none) (hq : q.child = none) :
    Tree init kind parent (Function.update pc i q) := by
  have hsame : ∀ k, (Function.update pc i q k).child = (pc k).child := by
    intro k
    rw [child_update]
    split
    case isTrue hk => rw [hq, hk, hpc]
    case isFalse => rfl
  refine { h with busy := ?busy, forking := ?forking, linked := ?linked, owner := ?owner,
                  embryo := ?embryo }
  case busy => grind [h.busy, Function.update_apply]
  case forking => grind [h.forking, Function.update_apply, Pc.child]
  case linked => grind [h.linked, Function.update_apply, Pc.child]
  case owner =>
    intro k k' c
    rw [hsame, hsame]
    exact h.owner k k' c
  case embryo =>
    intro c hc
    obtain ⟨k, hk⟩ := h.embryo c hc
    exact ⟨k, (hsame k).trans hk⟩

/-- `allocproc` gives an unused entry to a process. -/
theorem alloc (h : Tree init kind parent pc) (hi : kind i = .live) (hpc : pc i = .idle)
    (hj : kind j = .unused) :
    Tree init (Function.update kind j .embryo) parent (Function.update pc i (.forking j)) := by
  have hchild : (Pc.forking j).child = some j := rfl
  have hfree : ∀ k, (pc k).child ≠ some j := by
    intro k hk
    rw [h.child hk] at hj
    cases hj
  constructor
  case owner => grind [h.owner, child_update]
  case embryo =>
    intro c hc
    by_cases hcj : c = j
    · exact ⟨i, by rw [child_update, if_pos rfl, hcj]; rfl⟩
    · rw [Function.update_of_ne hcj] at hc
      obtain ⟨k, hk⟩ := h.embryo c hc
      exact ⟨k, by grind [child_update, Pc.child]⟩
  all_goals grind [Tree, Function.update_apply]

/-- `fork` gives its entry back. -/
theorem fail (h : Tree init kind parent pc) (hpc : pc i = .forking j) :
    Tree init (Function.update kind j .unused) parent (Function.update pc i .idle) := by
  have hchild : (pc i).child = some j := by rw [hpc]; rfl
  have hidle : Pc.idle.child = none := rfl
  have hj := h.child hchild
  have hi := h.busy i
  constructor
  case owner => grind [h.owner, child_update]
  case embryo => exact h.embryo_update hchild (by decide)
  all_goals grind [Tree, Function.update_apply]

/-- `fork` makes the caller the parent of its entry. -/
theorem link (h : Tree init kind parent pc) (hpc : pc i = .forking j) :
    Tree init kind (Function.update parent j (some i)) (Function.update pc i (.linked j)) := by
  have hchild : (pc i).child = some j := by rw [hpc]; rfl
  have hnew : (Pc.linked j).child = some j := rfl
  have hj := h.child hchild
  have hi := h.busy i
  constructor
  case owner => grind [h.owner, child_update]
  case embryo =>
    intro c hc
    obtain ⟨k, hk⟩ := h.embryo c hc
    exact ⟨k, by grind [child_update]⟩
  all_goals grind [Tree, Function.update_apply, Pc.child]

/-- `fork` lets its child run. -/
theorem ready (h : Tree init kind parent pc) (hpc : pc i = .linked j) :
    Tree init (Function.update kind j .live) parent (Function.update pc i .idle) := by
  have hchild : (pc i).child = some j := by rw [hpc]; rfl
  have hidle : Pc.idle.child = none := rfl
  have hj := h.child hchild
  have hi := h.busy i
  constructor
  case owner => grind [h.owner, child_update]
  case embryo => exact h.embryo_update hchild (by decide)
  all_goals grind [Tree, Function.update_apply, Pc.child]

/-- `exit` gives the children of a process to the first one. -/
theorem exit (h : Tree init kind parent pc) (hi : kind i = .live) (hpc : pc i = .idle)
    (hne : i ≠ init) :
    Tree init (Function.update kind i .zombie)
      (fun k => if parent k = some i then some init else parent k) pc := by
  constructor
  case owner => exact h.owner
  case embryo => grind [h.embryo, Function.update_apply]
  all_goals grind [Tree, Function.update_apply, Pc.child]

/-- `wait` frees the entry of a child that has exited. -/
theorem reap (h : Tree init kind parent pc) (hj : kind j = .zombie) :
    Tree init (Function.update kind j .unused) (Function.update parent j none) pc := by
  constructor
  case owner => exact h.owner
  case embryo => grind [h.embryo, Function.update_apply]
  all_goals grind [Tree, Function.update_apply, Pc.child]

end Tree

/-- The entries form a tree. -/
def Life.IsTree (l : Life) : Prop :=
  Tree l.init (Entry.kind ∘ l.entry) (Entry.parent ∘ l.entry) l.pc

/-- A field that an update does not change. -/
theorem comp_update_of_eq {β : Type} (f : Entry → β) (g : Fin nproc → Entry) (j : Fin nproc)
    (x : Entry) (hx : f x = f (g j)) : f ∘ Function.update g j x = f ∘ g := by
  rw [Function.comp_update, hx]
  exact Function.update_eq_self j (f ∘ g)

theorem Life.IsTree.step {l l' : Life} {e : Event} (h : l.IsTree) (hstep : Life.Step l e l') :
    l'.IsTree := by
  unfold Life.IsTree at *
  cases hstep with
  | stay => exact h
  | rest hi hpc hq => exact h.rest hi hpc hq
  | alloc hi hpc hj =>
    rw [Function.comp_update, comp_update_of_eq Entry.parent]
    · exact h.alloc hi hpc hj
    · rfl
  | fail hpc =>
    rw [Function.comp_update, comp_update_of_eq Entry.parent]
    · exact h.fail hpc
    · rfl
  | link hpc =>
    rw [comp_update_of_eq Entry.kind, Function.comp_update]
    · exact h.link hpc
    · rfl
  | ready hpc =>
    rw [Function.comp_update, comp_update_of_eq Entry.parent]
    · exact h.ready hpc
    · rfl
  | @exit i hi hpc hne =>
    have hkind : (Entry.kind ∘ fun k => { l.entry k with
        kind := if k = i then .zombie else (l.entry k).kind
        parent := if (l.entry k).parent = some i then some l.init
          else (l.entry k).parent }) = Function.update (Entry.kind ∘ l.entry) i .zombie := by
      funext k
      rw [Function.update_apply]
      rfl
    rw [hkind]
    exact h.exit hi hpc hne
  | @reap i j hi hpc hj hparent =>
    rw [Function.comp_update, Function.comp_update]
    refine (h.reap hj).rest ?_ hpc rfl
    rw [Function.update_of_ne, Function.comp_apply, hi]
    rintro rfl
    rw [hi] at hj
    cases hj
  | kill | mark =>
    rw [comp_update_of_eq Entry.kind, comp_update_of_eq Entry.parent]
    · exact h
    · rfl
    · rfl

/-! ## Pids -/

/-- How often a pid has exited, and how often `wait` has returned it. -/
def exits (pid : Word) (events : List Event) : ℕ :=
  events.countP fun e => match e with
    | .exited p => p = pid
    | _ => false

def reaps (pid : Word) (events : List Event) : ℕ :=
  events.countP fun e => match e with
    | .reaped _ _ p => p = pid
    | _ => false

/-- The number of pids that have been given. -/
def allocs (events : List Event) : ℕ :=
  events.countP fun e => match e with
    | .alloc _ => true
    | _ => false

/-- The pid of a zombie. -/
def Entry.zombie (x : Entry) : Option Word :=
  match x.kind with
  | .zombie => some x.pid
  | _ => none

/-- **Pids.**  The pids in use are different, and have been given; a pid that has exited belongs
to no process, and either `wait` has returned it or it is that of one zombie. -/
structure Life.Pids (l : Life) (events : List Event) : Prop where
  nextpid : l.nextpid.toNat = 2 + allocs events
  below : ∀ i, (l.entry i).kind ≠ .unused → (l.entry i).pid.toNat < l.nextpid.toNat
  pos : ∀ i, (l.entry i).kind ≠ .unused → (l.entry i).pid ≠ 0
  distinct : ∀ i j, (l.entry i).kind ≠ .unused → (l.entry j).kind ≠ .unused →
    (l.entry i).pid = (l.entry j).pid → i = j
  exited_below : ∀ pid, exits pid events ≠ 0 → pid.toNat < l.nextpid.toNat
  exited : ∀ i, (l.entry i).kind = .live ∨ (l.entry i).kind = .embryo →
    exits (l.entry i).pid events = 0
  once : ∀ pid, exits pid events ≤ 1
  account : ∀ pid, exits pid events =
    reaps pid events + Counting.count (Entry.zombie ∘ l.entry) pid

section

variable {events : List Event} {e : Event} {l l' : Life}

theorem exits_concat (pid : Word) (events : List Event) (e : Event) :
    exits pid (events ++ [e]) = exits pid events + exits pid [e] := List.countP_append

theorem reaps_concat (pid : Word) (events : List Event) (e : Event) :
    reaps pid (events ++ [e]) = reaps pid events + reaps pid [e] := List.countP_append

theorem allocs_concat (events : List Event) (e : Event) :
    allocs (events ++ [e]) = allocs events + allocs [e] := List.countP_append

variable {j : Fin nproc} {i : Fin nproc} {pid : Word}

theorem Entry.zombie_eq_some {x : Entry} :
    x.zombie = some pid ↔ x.kind = .zombie ∧ x.pid = pid := by
  unfold Entry.zombie
  split
  case h_1 h => simp [h]
  case h_2 h => simpa using fun hkind => absurd hkind (h ·)

theorem Entry.zombie_of_ne {x : Entry} (h : x.kind ≠ .zombie) : x.zombie = none := by
  rw [Option.eq_none_iff_forall_ne_some]
  exact fun pid hpid => h (Entry.zombie_eq_some.mp hpid).1

/-- What neither exits nor is returned leaves the accounts as they are: at most, the entry that
`fork` works on is completed or given back. -/
theorem Life.Pids.quiet (h : l.Pids events) (hnext : l'.nextpid = l.nextpid)
    (hentry : ∀ i, (l'.entry i).pid = (l.entry i).pid ∧
      ((l'.entry i).kind = (l.entry i).kind ∨
        (l.entry i).kind = .embryo ∧ (l'.entry i).kind ≠ .zombie))
    (he : (∀ pid, exits pid [e] = 0) ∧ (∀ pid, reaps pid [e] = 0) ∧ allocs [e] = 0) :
    l'.Pids (events ++ [e]) := by
  have hused : ∀ i, (l'.entry i).kind ≠ .unused → (l.entry i).kind ≠ .unused := by
    intro i hi
    rcases (hentry i).2 with hsame | ⟨hembryo, _⟩
    · rwa [← hsame]
    · rw [hembryo]
      decide
  have hexits : ∀ pid, exits pid (events ++ [e]) = exits pid events := by
    intro pid
    rw [exits_concat, he.1]
    rfl
  have hzombie : Entry.zombie ∘ l'.entry = Entry.zombie ∘ l.entry := by
    funext i
    obtain ⟨hpid, hkind⟩ := hentry i
    rcases hkind with hsame | ⟨hembryo, hnot⟩
    · simp only [Function.comp_apply, Entry.zombie, hsame, hpid]
    · rw [Function.comp_apply, Function.comp_apply, Entry.zombie_of_ne hnot,
        Entry.zombie_of_ne (by rw [hembryo]; decide)]
  constructor
  case nextpid => rw [hnext, allocs_concat, he.2.2, h.nextpid]; rfl
  case below =>
    intro i hi
    rw [hnext, (hentry i).1]
    exact h.below i (hused i hi)
  case pos =>
    intro i hi
    rw [(hentry i).1]
    exact h.pos i (hused i hi)
  case distinct =>
    intro i j hi hj hpid
    rw [(hentry i).1, (hentry j).1] at hpid
    exact h.distinct i j (hused i hi) (hused j hj) hpid
  case exited_below =>
    intro pid hpid
    rw [hexits] at hpid
    rw [hnext]
    exact h.exited_below pid hpid
  case exited =>
    intro i hi
    rw [hexits, (hentry i).1]
    apply h.exited
    rcases (hentry i).2 with hsame | ⟨hembryo, _⟩
    · rwa [← hsame]
    · exact .inr hembryo
  case once =>
    intro pid
    rw [hexits]
    exact h.once pid
  case account =>
    intro pid
    rw [hexits, hzombie, reaps_concat, he.2.1]
    exact h.account pid

theorem Life.Pids.nextpid_succ (h : l.Pids events) (hroom : allocs events + 1 < 2 ^ 32 - 2) :
    (l.nextpid + 1).toNat = l.nextpid.toNat + 1 := by
  have hnext := h.nextpid
  rw [BitVec.toNat_add]
  exact Nat.mod_eq_of_lt (by simp; omega)

/-- A new pid. -/
theorem Life.Pids.alloc (h : l.Pids events) (hj : (l.entry j).kind = .unused)
    (hroom : allocs events + 1 < 2 ^ 32 - 2) (pc : Fin nproc → Pc) :
    Life.Pids
      { l with
        entry := Function.update l.entry j { l.entry j with kind := .embryo, pid := l.nextpid }
        nextpid := l.nextpid + 1
        pc := pc } (events ++ [.alloc l.nextpid]) := by
  have hnew := h.nextpid_succ hroom
  have hexits : ∀ pid, exits pid (events ++ [.alloc l.nextpid]) = exits pid events := fun pid => by
    rw [exits_concat]
    rfl
  have hfresh : ∀ i, (l.entry i).kind ≠ .unused → (l.entry i).pid ≠ l.nextpid := by
    intro i hi hpid
    have := h.below i hi
    rw [hpid] at this
    exact this.ne rfl
  constructor
  case nextpid =>
    have hnext := h.nextpid
    rw [allocs_concat]
    show (l.nextpid + 1).toNat = 2 + (allocs events + 1)
    omega
  case below =>
    intro i hi
    dsimp only at hi ⊢
    rw [hnew]
    by_cases hij : i = j
    · rw [hij, Function.update_self]
      exact Nat.lt_succ_self _
    · rw [Function.update_of_ne hij] at hi ⊢
      exact Nat.lt_succ_of_lt (h.below i hi)
  case pos =>
    intro i hi
    dsimp only at hi ⊢
    by_cases hij : i = j
    · rw [hij, Function.update_self]
      intro hzero
      have hnext := h.nextpid
      rw [show l.nextpid = 0 from hzero] at hnext
      simp at hnext
      omega
    · rw [Function.update_of_ne hij] at hi ⊢
      exact h.pos i hi
  case distinct =>
    intro i k hi hk hpid
    dsimp only at hi hk hpid
    grind [h.distinct, Function.update_apply]
  case exited_below =>
    intro pid hpid
    rw [hexits] at hpid
    dsimp only
    rw [hnew]
    exact Nat.lt_succ_of_lt (h.exited_below pid hpid)
  case exited =>
    intro i hi
    rw [hexits]
    dsimp only at hi ⊢
    by_cases hij : i = j
    · rw [hij, Function.update_self]
      by_contra hpid
      exact (h.exited_below _ hpid).ne rfl
    · rw [Function.update_of_ne hij] at hi ⊢
      exact h.exited i hi
  case once =>
    intro pid
    rw [hexits]
    exact h.once pid
  case account =>
    intro pid
    rw [hexits, reaps_concat]
    dsimp only
    rw [Function.comp_update, Function.update_eq_self_iff.mpr]
    · exact h.account pid
    · rw [Function.comp_apply, Entry.zombie_of_ne (by simp), Entry.zombie_of_ne (by simp [hj])]

theorem exits_exited (pid p : Word) : exits pid [.exited p] = if p = pid then 1 else 0 := by
  simp [exits, List.countP_singleton]

theorem reaps_reaped (pid p : Word) (i j : Fin nproc) :
    reaps pid [.reaped i j p] = if p = pid then 1 else 0 := by
  simp [reaps, List.countP_singleton]

/-- A process exits: its pid has not exited before, and is that of no other. -/
theorem Life.Pids.exit (h : l.Pids events) (hi : (l.entry i).kind = .live)
    (parent : Fin nproc → Option (Fin nproc)) :
    Life.Pids
      { l with
        entry := fun k => { l.entry k with
          kind := if k = i then .zombie else (l.entry k).kind
          parent := parent k } } (events ++ [.exited (l.entry i).pid]) := by
  have hused : (l.entry i).kind ≠ .unused := by rw [hi]; decide
  have hkind : ∀ k, (if k = i then Kind.zombie else (l.entry k).kind) ≠ .unused →
      (l.entry k).kind ≠ .unused := by
    intro k hk
    split at hk
    case isTrue hki => rwa [hki]
    case isFalse => exact hk
  constructor
  case nextpid => rw [allocs_concat]; exact h.nextpid
  case below => exact fun k hk => h.below k (hkind k hk)
  case pos => exact fun k hk => h.pos k (hkind k hk)
  case distinct => exact fun k k' hk hk' => h.distinct k k' (hkind k hk) (hkind k' hk')
  case exited_below =>
    intro pid hpid
    rw [exits_concat, exits_exited] at hpid
    by_cases hsame : (l.entry i).pid = pid
    · rw [← hsame]
      exact h.below i hused
    · rw [if_neg hsame] at hpid
      exact h.exited_below pid hpid
  case exited =>
    intro k hk
    dsimp only at hk ⊢
    have hki : k ≠ i := by
      rintro rfl
      simp at hk
    rw [if_neg hki] at hk
    rw [exits_concat, exits_exited, if_neg, h.exited k hk]
    intro hpid
    refine hki (h.distinct i k hused ?_ hpid).symm
    rcases hk with hk | hk <;> rw [hk] <;> decide
  case once =>
    intro pid
    rw [exits_concat, exits_exited]
    by_cases hsame : (l.entry i).pid = pid
    · rw [if_pos hsame, ← hsame, h.exited i (.inl hi)]
    · rw [if_neg hsame]
      exact h.once pid
  case account =>
    intro pid
    have hzombie : (Entry.zombie ∘ fun k => { l.entry k with
          kind := if k = i then .zombie else (l.entry k).kind
          parent := parent k }) =
        Function.update (Entry.zombie ∘ l.entry) i (some (l.entry i).pid) := by
      funext k
      rw [Function.update_apply]
      split
      case isTrue hki => simp [Entry.zombie, hki]
      case isFalse hki => simp [Entry.zombie, hki]
    have hcount := Counting.count_update (Entry.zombie ∘ l.entry) i (some (l.entry i).pid) pid
    rw [← hzombie, Function.comp_apply, Entry.zombie_of_ne (by rw [hi]; decide)] at hcount
    rw [exits_concat, exits_exited, reaps_concat, h.account pid]
    simp only [reduceCtorEq, if_false, Option.some.injEq] at hcount
    dsimp only
    rw [show reaps pid [Event.exited (l.entry i).pid] = 0 from rfl]
    omega

/-- `wait` returns the pid of a zombie. -/
theorem Life.Pids.reap (h : l.Pids events) (hj : (l.entry j).kind = .zombie) (i : Fin nproc)
    (pc : Fin nproc → Pc) :
    Life.Pids
      { l with
        entry := Function.update l.entry j ⟨.unused, 0, none, false⟩
        pc := pc } (events ++ [.reaped i j (l.entry j).pid]) := by
  have hexits : ∀ pid, exits pid (events ++ [.reaped i j (l.entry j).pid]) = exits pid events :=
    fun pid => by
      rw [exits_concat]
      rfl
  have hsame : ∀ k, (Function.update l.entry j ⟨.unused, 0, none, false⟩ k).kind ≠ .unused →
      Function.update l.entry j ⟨.unused, 0, none, false⟩ k = l.entry k := by
    intro k hk
    apply Function.update_of_ne
    rintro rfl
    rw [Function.update_self] at hk
    exact hk rfl
  constructor
  case nextpid => rw [allocs_concat]; exact h.nextpid
  case below =>
    intro k hk
    dsimp only at hk ⊢
    have heq := hsame k hk
    rw [heq] at hk ⊢
    exact h.below k hk
  case pos =>
    intro k hk
    dsimp only at hk ⊢
    have heq := hsame k hk
    rw [heq] at hk ⊢
    exact h.pos k hk
  case distinct =>
    intro k k' hk hk' hpid
    dsimp only at hk hk' hpid
    have heq := hsame k hk
    have heq' := hsame k' hk'
    rw [heq] at hk hpid
    rw [heq'] at hk' hpid
    exact h.distinct k k' hk hk' hpid
  case exited_below =>
    intro pid hpid
    rw [hexits] at hpid
    exact h.exited_below pid hpid
  case exited =>
    intro k hk
    rw [hexits]
    grind [h.exited, Function.update_apply]
  case once =>
    intro pid
    rw [hexits]
    exact h.once pid
  case account =>
    intro pid
    have hcount := Counting.count_update (Entry.zombie ∘ l.entry) j none pid
    rw [Function.comp_apply, Entry.zombie_eq_some.mpr ⟨hj, rfl⟩] at hcount
    rw [hexits, reaps_concat, reaps_reaped, h.account pid]
    simp only [reduceCtorEq, if_false, Option.some.injEq] at hcount
    dsimp only
    rw [Function.comp_update, show Entry.zombie ⟨.unused, 0, none, false⟩ = none from rfl]
    omega

theorem Life.Pids.step (h : l.Pids events) (htree : l.IsTree)
    (hroom : allocs (events ++ [e]) < 2 ^ 32 - 2) (hstep : Life.Step l e l') :
    l'.Pids (events ++ [e]) := by
  have hinternal : (∀ pid, exits pid [.internal] = 0) ∧ (∀ pid, reaps pid [.internal] = 0) ∧
      allocs [.internal] = 0 := ⟨fun _ => rfl, fun _ => rfl, rfl⟩
  cases hstep with
  | stay => exact h.quiet rfl (fun _ => ⟨rfl, .inl rfl⟩) hinternal
  | rest => exact h.quiet rfl (fun _ => ⟨rfl, .inl rfl⟩) hinternal
  | alloc hi hpc hj =>
    rw [allocs_concat] at hroom
    exact h.alloc hj hroom _
  | fail hpc =>
    have hj := (htree.forking _ _ hpc).1
    refine h.quiet rfl (fun k => ?_) hinternal
    grind [Function.update_apply]
  | link hpc =>
    refine h.quiet rfl (fun k => ?_) hinternal
    grind [Function.update_apply]
  | ready hpc =>
    have hj := (htree.linked _ _ hpc).1
    refine h.quiet rfl (fun k => ?_) hinternal
    grind [Function.update_apply]
  | exit hi => exact h.exit hi _
  | reap hi hpc hj hparent => exact h.reap hj _ _
  | kill | mark =>
    refine h.quiet rfl (fun k => ?_) ⟨fun _ => rfl, fun _ => rfl, rfl⟩
    grind [Function.update_apply]

/-! ## Marks -/

/-- The pid of the process that is marked in a step. -/
def Event.marks : Event → Option Word
  | .killed pid _ => some pid
  | .marked pid _ => some pid
  | _ => none

/-- `kill` has been called with a pid, or a process with the pid has marked itself. -/
def Named (pid : Word) (events : List Event) : Prop := ∃ e ∈ events, e.marks = some pid

theorem named_concat : Named pid (events ++ [e]) ↔ Named pid events ∨ e.marks = some pid := by
  simp only [Named, List.mem_append, List.mem_singleton, or_and_right, exists_or, exists_eq_left]

theorem named_concat_of_none (he : e.marks = none) (pid : Word) :
    Named pid (events ++ [e]) ↔ Named pid events := by
  rw [named_concat, or_iff_left]
  rw [he]
  exact (Option.some_ne_none pid).symm

theorem named_iff :
    Named pid events ↔ ∃ i, Event.killed pid i ∈ events ∨ Event.marked pid i ∈ events := by
  constructor
  · rintro ⟨e, hmem, he⟩
    cases e with
    | killed p i =>
      cases he
      exact ⟨i, .inl hmem⟩
    | marked p i =>
      cases he
      exact ⟨i, .inr hmem⟩
    | _ => cases he
  · rintro ⟨i, hmem | hmem⟩
    · exact ⟨_, hmem, rfl⟩
    · exact ⟨_, hmem, rfl⟩

/-- **Marks.**  As long as `kill` finds processes, the processes that are marked are those that
it has been called for, and those that have marked themselves. -/
structure Life.Marks (l : Life) (events : List Event) : Prop where
  below : ∀ pid, Named pid events → pid.toNat < l.nextpid.toNat
  unmarked : ∀ i, (l.entry i).kind = .unused ∨ (l.entry i).kind = .embryo →
    (l.entry i).killed = false
  marked : ∀ i, (l.entry i).kind ≠ .unused →
    ((l.entry i).killed = true ↔ Named (l.entry i).pid events)

/-- A mark stays until `wait` frees the entry. -/
theorem Life.Step.killed_stays (hstep : Life.Step l e l') (hkilled : (l.entry i).killed = true)
    (hreaped : ∀ j pid, e ≠ .reaped j i pid) : (l'.entry i).killed = true := by
  cases hstep with
  | @reap j k =>
    have hik : i ≠ k := by
      rintro rfl
      exact hreaped _ _ rfl
    dsimp only
    rw [Function.update_of_ne hik]
    exact hkilled
  | _ => grind [Function.update_apply]

/-- What neither marks nor frees an entry leaves the marks as they are. -/
theorem Life.Marks.quiet (h : l.Marks events) (hnext : l'.nextpid = l.nextpid)
    (hentry : ∀ i, (l'.entry i).pid = (l.entry i).pid ∧ (l'.entry i).killed = (l.entry i).killed ∧
      ((l'.entry i).kind = (l.entry i).kind ∨ (l.entry i).kind = .embryo ∨
        (l'.entry i).kind = .zombie ∧ (l.entry i).kind = .live))
    (he : e.marks = none) : l'.Marks (events ++ [e]) := by
  have hnamed : ∀ pid, Named pid (events ++ [e]) ↔ Named pid events := named_concat_of_none he
  constructor
  case below =>
    intro pid hpid
    rw [hnext]
    exact h.below pid ((hnamed pid).mp hpid)
  case unmarked =>
    intro i hi
    obtain ⟨_, hkilled, hkind⟩ := hentry i
    rw [hkilled]
    apply h.unmarked
    rcases hkind with hsame | hembryo | ⟨hzombie, _⟩
    · rwa [← hsame]
    · exact .inr hembryo
    · rw [hzombie] at hi
      simp at hi
  case marked =>
    intro i hi
    obtain ⟨hpid, hkilled, hkind⟩ := hentry i
    rw [hpid, hkilled, hnamed]
    apply h.marked
    rcases hkind with hsame | hembryo | ⟨_, hlive⟩
    · rwa [← hsame]
    · rw [hembryo]
      decide
    · rw [hlive]
      decide

/-- A new process is not marked: nobody has known its pid. -/
theorem Life.Marks.alloc (h : l.Marks events) (hj : (l.entry j).kind = .unused)
    (hnew : (l.nextpid + 1).toNat = l.nextpid.toNat + 1) (pc : Fin nproc → Pc) :
    Life.Marks
      { l with
        entry := Function.update l.entry j { l.entry j with kind := .embryo, pid := l.nextpid }
        nextpid := l.nextpid + 1
        pc := pc } (events ++ [.alloc l.nextpid]) := by
  have hnamed : ∀ pid, Named pid (events ++ [.alloc l.nextpid]) ↔ Named pid events :=
    named_concat_of_none rfl
  constructor
  case below =>
    intro pid hpid
    dsimp only
    rw [hnew]
    exact Nat.lt_succ_of_lt (h.below pid ((hnamed pid).mp hpid))
  case unmarked =>
    intro i hi
    dsimp only at hi ⊢
    by_cases hij : i = j
    · rw [hij, Function.update_self]
      exact h.unmarked j (.inl hj)
    · rw [Function.update_of_ne hij] at hi ⊢
      exact h.unmarked i hi
  case marked =>
    intro i hi
    rw [hnamed]
    dsimp only at hi ⊢
    by_cases hij : i = j
    · rw [hij, Function.update_self]
      dsimp only
      rw [h.unmarked j (.inl hj)]
      constructor
      · intro hfalse
        cases hfalse
      · intro hpid
        exact absurd rfl (h.below _ hpid).ne
    · rw [Function.update_of_ne hij] at hi ⊢
      exact h.marked i hi

/-- A process is marked. -/
theorem Life.Marks.mark (h : l.Marks events) (hpids : l.Pids events)
    (hi : (l.entry i).kind = .live ∨ (l.entry i).kind = .zombie)
    (he : e.marks = some (l.entry i).pid) :
    Life.Marks
      { l with entry := Function.update l.entry i { l.entry i with killed := true } }
      (events ++ [e]) := by
  have hused : (l.entry i).kind ≠ .unused := by
    rcases hi with hi | hi <;> rw [hi] <;> decide
  constructor
  case below =>
    intro pid hpid
    rcases named_concat.mp hpid with hpid | hpid
    · exact h.below pid hpid
    · rw [he, Option.some.injEq] at hpid
      rw [← hpid]
      exact hpids.below i hused
  case unmarked =>
    intro j hj
    dsimp only at hj ⊢
    by_cases hji : j = i
    · rw [hji, Function.update_self] at hj
      grind
    · rw [Function.update_of_ne hji] at hj ⊢
      exact h.unmarked j hj
  case marked =>
    intro j hj
    rw [named_concat]
    dsimp only at hj ⊢
    by_cases hji : j = i
    · rw [hji, Function.update_self]
      exact iff_of_true rfl (.inr he)
    · rw [Function.update_of_ne hji] at hj ⊢
      rw [h.marked j hj, or_iff_left]
      intro hk
      rw [he, Option.some.injEq] at hk
      exact hji (hpids.distinct j i hj hused hk.symm)

theorem Life.Marks.reap (h : l.Marks events) (i j : Fin nproc) (pid : Word)
    (pc : Fin nproc → Pc) :
    Life.Marks
      { l with
        entry := Function.update l.entry j ⟨.unused, 0, none, false⟩
        pc := pc } (events ++ [.reaped i j pid]) := by
  have hnamed : ∀ p, Named p (events ++ [.reaped i j pid]) ↔ Named p events :=
    named_concat_of_none rfl
  constructor
  case below => exact fun p hp => h.below p ((hnamed p).mp hp)
  case unmarked =>
    intro k hk
    dsimp only at hk ⊢
    by_cases hkj : k = j
    · rw [hkj, Function.update_self]
    · rw [Function.update_of_ne hkj] at hk ⊢
      exact h.unmarked k hk
  case marked =>
    intro k hk
    rw [hnamed]
    dsimp only at hk ⊢
    by_cases hkj : k = j
    · rw [hkj, Function.update_self] at hk
      exact absurd rfl hk
    · rw [Function.update_of_ne hkj] at hk ⊢
      exact h.marked k hk

theorem Life.Marks.step (h : l.Marks events) (htree : l.IsTree) (hpids : l.Pids events)
    (hroom : allocs (events ++ [e]) < 2 ^ 32 - 2)
    (hkill : ∀ pid i, e = .killed pid i →
      (l.entry i).kind = .live ∨ (l.entry i).kind = .zombie) (hstep : Life.Step l e l') :
    l'.Marks (events ++ [e]) := by
  cases hstep with
  | stay => exact h.quiet rfl (fun _ => ⟨rfl, rfl, .inl rfl⟩) rfl
  | rest => exact h.quiet rfl (fun _ => ⟨rfl, rfl, .inl rfl⟩) rfl
  | alloc hi hpc hj =>
    rw [allocs_concat] at hroom
    exact h.alloc hj (hpids.nextpid_succ hroom) _
  | fail hpc =>
    have hj := (htree.forking _ _ hpc).1
    refine h.quiet rfl (fun k => ?_) rfl
    grind [Function.update_apply]
  | link hpc =>
    refine h.quiet rfl (fun k => ?_) rfl
    grind [Function.update_apply]
  | ready hpc =>
    have hj := (htree.linked _ _ hpc).1
    refine h.quiet rfl (fun k => ?_) rfl
    grind [Function.update_apply]
  | exit hi =>
    refine h.quiet rfl (fun k => ?_) rfl
    grind
  | reap hi hpc hj hparent => exact h.reap _ _ _ _
  | kill => exact h.mark hpids (hkill _ _ rfl) rfl
  | mark hi => exact h.mark hpids (.inl hi) rfl

end

end Xv6.Ptable
