/-
# The buffer cache at work

Processes call `bread`, `bwrite` and `brelse` side by side, in any order and on any blocks,
while the disk works through its queue.  Whatever the interleaving, there is at most one
buffer for a block, its reference count is the number of processes that use it, and no call
panics but a `bget` that finds all buffers in use.  Seen from the callers the buffers and the
disk are a store of blocks, one content for each.

The callers pass `ROOTDEV` and block numbers below `FSSIZE`, disk 1 is present, and the disk
reports no error: `iderw` panics without disk 1 and `idestart` for other block numbers, and
after an error `ideintr` marks as valid what it has not read.  All buffers start as buffers for
the block `0` of the device `0`.
-/
import Xv6Recorder.BlockStore
import Xv6Recorder.Buffers
import Xv6Recorder.Counting

open Bytes CircularList BlockStore

namespace Xv6.Bio

variable {P : Type}

/-! ## The system -/

/-- Where a process is between two steps of a call: it waits for the lock of a buffer, has
it and is about to test `B_VALID`, waits for the disk in `bread` or `bwrite`, or has given
the lock back in `brelse`. -/
inductive Stage where
  | locking
  | locked
  | fetching
  | writing
  | releasing

/-- The processes, each with the stage of its call and the buffer it is about.  A process
that is in no call may hold any number of buffers. -/
structure System (P : Type) where
  cache : Bcache P
  pc : P → Option (Stage × Fin nbuf)

/-- A step of a process, of the disk, or of its interrupt handler, for blocks of the file system
and a disk without errors.  A process asks for a block with `bget`, and gets the buffer that
`bget` returns; one that has a buffer changes its data, and `log_write` its flag `B_DIRTY`. -/
inductive Step [DecidableEq P] : System P → Event Word P Memory → System P → Prop
  | bget {s : System P} {p : P} {blockno : Word} {m : Bcache P} {b : Fin nbuf}
      (hpc : s.pc p = none) (hblock : blockno.toNat < fssize)
      (hrun : bget rootdev blockno s.cache = .ok (m, b)) :
      Step s (.request p blockno) ⟨m, Function.update s.pc p (some (.locking, b))⟩
  | acquire {s : System P} {p : P} {b : Fin nbuf} {x : Buf P}
      (hpc : s.pc p = some (.locking, b)) (hrun : acquiresleep p (s.cache.buf b) = some x) :
      Step s (.lock p (s.cache.buf b).blockno)
        ⟨s.cache.set b x, Function.update s.pc p (some (.locked, b))⟩
  | hit {s : System P} {p : P} {b : Fin nbuf} (hpc : s.pc p = some (.locked, b))
      (hvalid : (s.cache.buf b).valid = true) :
      Step s (.read p (s.cache.buf b).blockno (s.cache.buf b).data)
        ⟨s.cache, Function.update s.pc p none⟩
  | miss {s : System P} {p : P} {b : Fin nbuf} {m : Bcache P}
      (hpc : s.pc p = some (.locked, b)) (hvalid : (s.cache.buf b).valid = false)
      (hrun : iderw p b s.cache = .ok m) :
      Step s .internal ⟨m, Function.update s.pc p (some (.fetching, b))⟩
  | fetched {s : System P} {p : P} {b : Fin nbuf} (hpc : s.pc p = some (.fetching, b))
      (hsynced : synced (s.cache.buf b) = true) :
      Step s (.read p (s.cache.buf b).blockno (s.cache.buf b).data)
        ⟨s.cache, Function.update s.pc p none⟩
  | modify {s : System P} {p : P} {b : Fin nbuf} {data : Memory} (hpc : s.pc p = none)
      (hheld : holdingsleep p (s.cache.buf b) = true) :
      Step s (.write p (s.cache.buf b).blockno data)
        ⟨s.cache.set b { s.cache.buf b with data := data }, s.pc⟩
  | logWrite {s : System P} {p : P} {b : Fin nbuf} (hpc : s.pc p = none)
      (hheld : holdingsleep p (s.cache.buf b) = true) :
      Step s (.pin p (s.cache.buf b).blockno)
        ⟨s.cache.set b { s.cache.buf b with dirty := true }, s.pc⟩
  | bwrite {s : System P} {p : P} {b : Fin nbuf} {m : Bcache P} (hpc : s.pc p = none)
      (hrun : bwrite p b s.cache = .ok m) :
      Step s (.pin p (s.cache.buf b).blockno)
        ⟨m, Function.update s.pc p (some (.writing, b))⟩
  | written {s : System P} {p : P} {b : Fin nbuf} (hpc : s.pc p = some (.writing, b))
      (hsynced : synced (s.cache.buf b) = true) :
      Step s (.sync p (s.cache.buf b).blockno) ⟨s.cache, Function.update s.pc p none⟩
  | brelse {s : System P} {p : P} {b : Fin nbuf} {m : Bcache P} (hpc : s.pc p = none)
      (hrun : brelse p b s.cache = .ok m) :
      Step s (.unlock p (s.cache.buf b).blockno)
        ⟨m, Function.update s.pc p (some (.releasing, b))⟩
  | released {s : System P} {p : P} {b : Fin nbuf} (hpc : s.pc p = some (.releasing, b)) :
      Step s .internal ⟨brelseLocked b s.cache, Function.update s.pc p none⟩
  | diskRead {s : System P} {drive : Word} {sector : ℕ}
      (hide : s.cache.ide = .busy (.read drive sector)) :
      Step s .internal ⟨complete s.cache, s.pc⟩
  | diskWrite {s : System P} {drive : Word} {sector : ℕ} {data : Memory}
      (hide : s.cache.ide = .busy (.write drive sector data)) :
      Step s (.flush (BitVec.ofNat 32 sector)) ⟨complete s.cache, s.pc⟩
  | intr {s : System P} {port : Memory} {m : Bcache P} (hide : s.cache.ide = .done port)
      (hrun : ideintr true s.cache = .ok m) : Step s .internal ⟨m, s.pc⟩

/-- No process has called yet. -/
def System.boot (disk : Word → ℕ → Memory) : System P := ⟨Bio.boot true disk, fun _ => none⟩

/-! ## What holds between two steps -/

/-- Stages in which the call has a reference to the buffer but not its lock. -/
def Stage.counted : Stage → Bool
  | .locking | .releasing => true
  | _ => false

/-- Stages in which the call has the lock of the buffer. -/
def Stage.holds : Stage → Bool
  | .locked | .fetching | .writing => true
  | _ => false

/-- Stages of `bread` in which the buffer may not be valid yet. -/
def Stage.loads : Stage → Bool
  | .locked | .fetching => true
  | _ => false

/-- The stages of `bread`. -/
def Stage.reads : Stage → Bool
  | .locking | .locked | .fetching => true
  | _ => false

/-- Stages in which the process waits for the disk. -/
def Stage.waits : Stage → Bool
  | .fetching | .writing => true
  | _ => false

/-- The buffer that a call has a reference to without having its lock. -/
def counted (o : Option (Stage × Fin nbuf)) : Option (Fin nbuf) :=
  o.bind fun a => if a.1.counted then some a.2 else none

/-- At most one buffer for a block; the others have not been used. -/
structure Blocks (buf : Fin nbuf → Buf P) : Prop where
  unique : ∀ b b', (buf b).dev = rootdev → (buf b').dev = rootdev →
    (buf b).blockno = (buf b').blockno → b = b'
  small : ∀ b, (buf b).dev = rootdev → (buf b).blockno.toNat < fssize
  fresh : ∀ b, (buf b).dev ≠ rootdev → (buf b).refcnt = 0 ∧ (buf b).dirty = false

/-- The disk works on the buffer, or has done so: what was dirty is written, and what was not
is in the data port. -/
def Serves (ide : Ide) (disk : Word → ℕ → Memory) (x : Buf P) : Prop :=
  ide = .busy (command x) ∨
    ∃ port, ide = .done port ∧
      if x.dirty then disk 1 x.blockno.toNat = x.data else port = disk 1 x.blockno.toNat

/-- The request for a buffer is done. -/
def Done (disk : Word → ℕ → Memory) (x : Buf P) : Prop :=
  synced x = true ∧ x.data = disk 1 x.blockno.toNat

/-- Whether a buffer is locked, as a number. -/
def Buf.locks (x : Buf P) : ℕ := if x.lock = none then 0 else 1

/-- **The invariant.** -/
structure Inv [Fintype P] (s : System P) : Prop where
  order : ∃ l, s.cache.links.Lists l ∧ ∀ b, b ∈ l
  blocks : Blocks s.cache.buf
  havedisk1 : s.cache.havedisk1 = true
  refs : ∀ b, (s.cache.buf b).refcnt =
    Counting.count (fun p => counted (s.pc p)) b + (s.cache.buf b).locks
  holds : ∀ p st b, s.pc p = some (st, b) → st.holds = true → (s.cache.buf b).lock = some p
  valid : ∀ p b, (s.cache.buf b).lock = some p → (s.cache.buf b).valid = false →
    ∃ st, s.pc p = some (st, b) ∧ st.loads = true
  dirty : ∀ b, (s.cache.buf b).dirty = true → (s.cache.buf b).valid = true
  nodup : s.cache.idequeue.Nodup
  queued : ∀ b ∈ s.cache.idequeue, synced (s.cache.buf b) = false ∧
    ∃ p st, s.pc p = some (st, b) ∧ st.waits = true
  waiting : ∀ p st b, s.pc p = some (st, b) → st.waits = true →
    b ∈ s.cache.idequeue ∨ Done s.cache.disk (s.cache.buf b)
  ready : s.cache.idequeue = [] → s.cache.ide = .ready
  serves : ∀ b queue, s.cache.idequeue = b :: queue →
    Serves s.cache.ide s.cache.disk (s.cache.buf b)

variable {s s' : System P} {b : Fin nbuf} {p : P}

variable {buf : Fin nbuf → Buf P} {st : Stage}

theorem counted_some (hst : st.counted = true) : counted (some (st, b)) = some b := by
  rw [counted, Option.bind_some, if_pos hst]

/-- A process is in no call, or in one about the buffer. -/
def About (b : Fin nbuf) (o : Option (Stage × Fin nbuf)) : Prop := ∀ st c, o = some (st, c) → c = b

theorem About.none : About b none := by
  intro st c h
  cases h

theorem About.some : About b (some (st, b)) := by
  intro st' c h
  cases h
  rfl

/-- Whether a process waits for the disk. -/
def waits (o : Option (Stage × Fin nbuf)) : Bool := o.any fun a => a.1.waits

theorem eq_of_counted {o : Option (Stage × Fin nbuf)} {c : Fin nbuf} (ho : About b o)
    (hc : counted o = some c) : c = b := by
  rw [counted, Option.bind_eq_some_iff] at hc
  obtain ⟨⟨st, c'⟩, ho', hc⟩ := hc
  split_ifs at hc with hst
  rw [Option.some.injEq] at hc
  rw [← hc]
  exact ho st c' ho'

theorem holds_of_waits (h : st.waits = true) : st.holds = true := by
  cases st <;> first | rfl | cases h

/-- A change to a buffer that stays one for its block. -/
theorem Blocks.set (h : Blocks buf) {x : Buf P} (hroot : (buf b).dev = rootdev)
    (hdev : x.dev = (buf b).dev) (hblockno : x.blockno = (buf b).blockno) :
    Blocks (Function.update buf b x) := by
  have hsame : ∀ c, (Function.update buf b x c).dev = (buf c).dev ∧
      (Function.update buf b x c).blockno = (buf c).blockno := by
    intro c
    by_cases hc : c = b
    · rw [hc, Function.update_self]
      exact ⟨hdev, hblockno⟩
    · rw [Function.update_of_ne hc]
      exact ⟨rfl, rfl⟩
  refine ⟨fun c c' hc hc' heq => ?_, fun c hc => ?_, fun c hc => ?_⟩
  · rw [(hsame c).1] at hc
    rw [(hsame c').1] at hc'
    rw [(hsame c).2, (hsame c').2] at heq
    exact h.unique c c' hc hc' heq
  · rw [(hsame c).1] at hc
    rw [(hsame c).2]
    exact h.small c hc
  · rw [(hsame c).1] at hc
    have hcb : c ≠ b := by
      rintro rfl
      exact hc hroot
    rw [Function.update_of_ne hcb]
    exact h.fresh c hc

/-- A buffer becomes one for a block that had none. -/
theorem Blocks.take (h : Blocks buf) {x : Buf P} (hdev : x.dev = rootdev)
    (hsmall : x.blockno.toNat < fssize)
    (hnone : ∀ c, (buf c).dev = rootdev → (buf c).blockno ≠ x.blockno) :
    Blocks (Function.update buf b x) := by
  refine ⟨fun c c' hc hc' heq => ?_, fun c hc => ?_, fun c hc => ?_⟩
  · by_cases hcb : c = b <;> by_cases hcb' : c' = b
    · rw [hcb, hcb']
    · rw [hcb, Function.update_self, Function.update_of_ne hcb'] at heq
      rw [Function.update_of_ne hcb'] at hc'
      exact absurd heq.symm (hnone c' hc')
    · rw [hcb', Function.update_self, Function.update_of_ne hcb] at heq
      rw [Function.update_of_ne hcb] at hc
      exact absurd heq (hnone c hc)
    · rw [Function.update_of_ne hcb] at hc heq
      rw [Function.update_of_ne hcb'] at hc' heq
      exact h.unique c c' hc hc' heq
  · by_cases hcb : c = b
    · rw [hcb, Function.update_self]
      exact hsmall
    · rw [Function.update_of_ne hcb] at hc ⊢
      exact h.small c hc
  · by_cases hcb : c = b
    · rw [hcb, Function.update_self] at hc
      exact absurd hdev hc
    · rw [Function.update_of_ne hcb] at hc ⊢
      exact h.fresh c hc

section

variable [Fintype P]

/-- A buffer that is in use is one for a block of the file system. -/
theorem Inv.dev (h : Inv s) (hrefs : (s.cache.buf b).refcnt ≠ 0) :
    (s.cache.buf b).dev = rootdev := by
  by_contra hdev
  exact hrefs (h.blocks.fresh b hdev).1

theorem Inv.dev_of_lock (h : Inv s) (hlock : (s.cache.buf b).lock = some p) :
    (s.cache.buf b).dev = rootdev := by
  apply h.dev
  rw [h.refs b, Buf.locks, hlock, if_neg (Option.some_ne_none p)]
  omega

variable {x : Buf P} {st : Stage}

theorem Inv.count_pos (hpc : s.pc p = some (st, b)) (hst : st.counted = true) :
    0 < Counting.count (fun p => counted (s.pc p)) b := by
  apply Counting.count_pos (u := p)
  rw [hpc, counted_some hst]

theorem Inv.dev_of_counted (h : Inv s) (hpc : s.pc p = some (st, b)) (hst : st.counted = true) :
    (s.cache.buf b).dev = rootdev := by
  apply h.dev
  have hpos := Inv.count_pos hpc hst
  rw [h.refs b]
  omega

/-- Only a process that waits for the disk has its buffer in the queue. -/
theorem Inv.waits_of_queued (h : Inv s) (hb : b ∈ s.cache.idequeue) :
    ∃ p st, (s.cache.buf b).lock = some p ∧ s.pc p = some (st, b) ∧ st.waits = true := by
  obtain ⟨-, p, st, hpc, hst⟩ := h.queued b hb
  exact ⟨p, st, h.holds p st b hpc (holds_of_waits hst), hpc, hst⟩

theorem Inv.not_queued (h : Inv s) (hlock : (s.cache.buf b).lock = some p)
    (hpc : waits (s.pc p) = false) : b ∉ s.cache.idequeue := by
  intro hb
  obtain ⟨p', st, hlock', hpc', hst⟩ := h.waits_of_queued hb
  rw [hlock, Option.some.injEq] at hlock'
  rw [hlock', hpc'] at hpc
  rw [show st.waits = false from hpc] at hst
  cases hst

/-- What a process in no call has locked is valid. -/
theorem Inv.valid_of_idle (h : Inv s) (hpc : s.pc p = none)
    (hlock : (s.cache.buf b).lock = some p) : (s.cache.buf b).valid = true := by
  by_contra hvalid
  obtain ⟨st, hpc', -⟩ := h.valid p b hlock (Bool.eq_false_iff.mpr hvalid)
  rw [hpc] at hpc'
  cases hpc'

theorem Inv.not_queued_of_free (h : Inv s) (hlock : (s.cache.buf b).lock = none) :
    b ∉ s.cache.idequeue := by
  intro hb
  obtain ⟨p, st, hlock', -⟩ := h.waits_of_queued hb
  rw [hlock] at hlock'
  cases hlock'

/-- A buffer that is not in the queue, as its process is done waiting. -/
theorem Inv.not_queued_of_synced (h : Inv s) (hsynced : synced (s.cache.buf b) = true) :
    b ∉ s.cache.idequeue := by
  intro hb
  rw [(h.queued b hb).1] at hsynced
  cases hsynced

/-- No call is about an unused buffer. -/
theorem Inv.not_about_unused (h : Inv s) (hrefs : (s.cache.buf b).refcnt = 0) :
    s.pc p ≠ some (st, b) := by
  intro hpc
  have hcount := h.refs b
  cases hst : st.counted with
  | true =>
    have hpos := Inv.count_pos hpc hst
    omega
  | false =>
    have hlock := h.holds p st b hpc (by cases st <;> first | rfl | cases hst)
    rw [Buf.locks, hlock, if_neg (Option.some_ne_none p)] at hcount
    omega

/-- Nobody holds an unused buffer. -/
theorem Inv.lock_of_unused (h : Inv s) (hrefs : (s.cache.buf b).refcnt = 0) :
    (s.cache.buf b).lock = none := by
  by_contra hlock
  have hcount := h.refs b
  rw [Buf.locks, if_neg hlock] at hcount
  omega

/-- The place of a buffer in the list changes. -/
theorem Inv.relink {m : Bcache P} {pc : P → Option (Stage × Fin nbuf)} {r : Links (Fin nbuf)}
    {l : List (Fin nbuf)} (h : Inv ⟨m, pc⟩) (hlist : r.Lists l) (hall : ∀ b, b ∈ l) :
    Inv ⟨{ m with links := r }, pc⟩ :=
  ⟨⟨l, hlist, hall⟩, h.blocks, h.havedisk1, h.refs, h.holds, h.valid, h.dirty, h.nodup, h.queued,
    h.waiting, h.ready, h.serves⟩

/-! ## What a process keeps -/

/-- What a process that changes a buffer, and is then in stage `q` of a call, leaves as it
is, and what it has to leave behind. -/
structure Change (s : System P) (p : P) (b : Fin nbuf) (x : Buf P)
    (q : Option (Stage × Fin nbuf)) : Prop where
  before : About b (s.pc p)
  after : About b q
  refs : x.refcnt + (if counted (s.pc p) = some b then 1 else 0) + (s.cache.buf b).locks =
    (s.cache.buf b).refcnt + (if counted q = some b then 1 else 0) + x.locks
  holds : ∀ st, q = some (st, b) → st.holds = true → x.lock = some p
  others : ∀ p', p' ≠ p → ((s.cache.buf b).lock = some p' ↔ x.lock = some p')
  loads : x.lock = some p → x.valid = false → ∃ st, q = some (st, b) ∧ st.loads = true
  dirty : x.dirty = true → x.valid = true
  kept : ∀ p', p' ≠ p → (s.cache.buf b).lock = some p' →
    x = { s.cache.buf b with refcnt := x.refcnt, lock := x.lock }

variable {q : Option (Stage × Fin nbuf)}

theorem Inv.dirty_change (h : Inv s) (hc : Change s p b x q) (c : Fin nbuf)
    (hdirty : (Function.update s.cache.buf b x c).dirty = true) :
    (Function.update s.cache.buf b x c).valid = true := by
  by_cases hcb : c = b
  · rw [hcb, Function.update_self] at hdirty ⊢
    exact hc.dirty hdirty
  · rw [Function.update_of_ne hcb] at hdirty ⊢
    exact h.dirty c hdirty

/-- The buffer is in the queue for another process, so the request stays. -/
theorem Inv.kept_of_queued (h : Inv s) (hc : Change s p b x q)
    (hdone : waits (s.pc p) = true → b ∉ s.cache.idequeue) (hb : b ∈ s.cache.idequeue) :
    x = { s.cache.buf b with refcnt := x.refcnt, lock := x.lock } := by
  obtain ⟨p', st, hlock, hpc, hst⟩ := h.waits_of_queued hb
  apply hc.kept p' _ hlock
  rintro rfl
  exact hdone (by rw [hpc]; exact hst) hb

theorem Inv.serves_change (h : Inv s) (hc : Change s p b x q)
    (hdone : waits (s.pc p) = true → b ∉ s.cache.idequeue) (c : Fin nbuf) (queue : List (Fin nbuf))
    (heq : s.cache.idequeue = c :: queue) :
    Serves s.cache.ide s.cache.disk (Function.update s.cache.buf b x c) := by
  have hserves := h.serves c queue heq
  by_cases hcb : c = b
  · subst hcb
    rw [Function.update_self, h.kept_of_queued hc hdone (heq ▸ List.mem_cons_self)]
    exact hserves
  · rw [Function.update_of_ne hcb]
    exact hserves

/-- What a process in no call has locked stays valid when the process changes it and goes on
to stage `q`. -/
theorem Inv.change_held (h : Inv s) (hpc : s.pc p = none) (hlock : (s.cache.buf b).lock = some p)
    (hq : About b q) (hcounted : counted q = none)
    (hx : x = { s.cache.buf b with dirty := x.dirty, data := x.data }) :
    Change s p b x q := by
  have hvalid := h.valid_of_idle hpc hlock
  have hxvalid : x.valid = true := by rw [hx]; exact hvalid
  have hxlock : x.lock = some p := by rw [hx]; exact hlock
  constructor
  case before => rw [hpc]; exact About.none
  case after => exact hq
  case refs =>
    rw [hpc, hcounted, Buf.locks, Buf.locks, hxlock, hlock, hx]
    rfl
  case holds => exact fun st _ _ => hxlock
  case others => intro p' _; rw [hlock, hxlock]
  case loads =>
    intro _ hinvalid
    rw [hxvalid] at hinvalid
    cases hinvalid
  case dirty => exact fun _ => hxvalid
  case kept =>
    intro p' hp hlock'
    rw [hlock] at hlock'
    cases hlock'
    exact absurd rfl hp

/-- A step that only counts a reference, to a buffer that may be in use. -/
theorem Inv.change_refcnt (h : Inv s) {n : ℕ} (hbefore : About b (s.pc p)) (hafter : About b q)
    (hloads : ∀ st, s.pc p = some (st, b) → st.loads = false)
    (hholds : ∀ st, q = some (st, b) → st.holds = false)
    (hrefs : n + (if counted (s.pc p) = some b then 1 else 0) =
      (s.cache.buf b).refcnt + (if counted q = some b then 1 else 0)) :
    Change s p b { s.cache.buf b with refcnt := n } q := by
  constructor
  case before => exact hbefore
  case after => exact hafter
  case refs =>
    show n + _ + _ = _ + _ + (s.cache.buf b).locks
    omega
  case holds =>
    intro st hq hst
    rw [hholds st hq] at hst
    cases hst
  case others => exact fun p' _ => Iff.rfl
  case loads =>
    intro hlock hvalid
    obtain ⟨st, hpc, hst⟩ := h.valid p b hlock hvalid
    rw [hloads st hpc] at hst
    cases hst
  case dirty => exact h.dirty b
  case kept => exact fun p' _ _ => rfl

/-! ## What the disk keeps -/

/-- The buffer that the disk works on. -/
theorem Inv.head (h : Inv s) (hbusy : s.cache.ide ≠ .ready) :
    ∃ b queue, s.cache.idequeue = b :: queue ∧ (s.cache.buf b).dev = rootdev ∧
      (s.cache.buf b).blockno.toNat < fssize ∧
      Serves s.cache.ide s.cache.disk (s.cache.buf b) := by
  cases hq : s.cache.idequeue with
  | nil => exact absurd (h.ready hq) hbusy
  | cons b queue =>
    obtain ⟨p, st, hlock, -⟩ := h.waits_of_queued (hq ▸ List.mem_cons_self)
    have hroot := h.dev_of_lock hlock
    exact ⟨b, queue, rfl, hroot, h.blocks.small b hroot, h.serves b queue hq⟩

/-- What the disk is told to do is what the buffer at the head of the queue needs. -/
theorem Inv.busy (h : Inv s) {c : Command} (hide : s.cache.ide = .busy c) :
    ∃ b queue, s.cache.idequeue = b :: queue ∧ (s.cache.buf b).dev = rootdev ∧
      c = if (s.cache.buf b).dirty then
        .write 1 (s.cache.buf b).blockno.toNat (s.cache.buf b).data
        else .read 1 (s.cache.buf b).blockno.toNat := by
  obtain ⟨b, queue, hq, hroot, hsmall, hbusy | ⟨port, hdone, -⟩⟩ := h.head (by rw [hide]; simp)
  · refine ⟨b, queue, hq, hroot, ?_⟩
    rw [hide, command_eq hroot hsmall, Ide.busy.injEq] at hbusy
    exact hbusy
  · rw [hide] at hdone
    cases hdone

theorem Inv.complete (h : Inv s) {c : Command} (hide : s.cache.ide = .busy c) :
    Inv ⟨complete s.cache, s.pc⟩ := by
  obtain ⟨b, queue, hq, hroot, rfl⟩ := h.busy hide
  have hne : s.cache.idequeue ≠ [] := by
    rw [hq]
    exact List.cons_ne_nil b queue
  have hhead : ∀ c queue', s.cache.idequeue = c :: queue' → c = b := by
    intro c queue' heq
    rw [hq, List.cons.injEq] at heq
    exact heq.1.symm
  by_cases hdirty : (s.cache.buf b).dirty = true
  · rw [if_pos hdirty] at hide
    rw [complete_write hide]
    refine ⟨h.order, h.blocks, h.havedisk1, h.refs, h.holds, h.valid, h.dirty, h.nodup, h.queued,
      fun p st c hpc hst => ?_, fun hnil => absurd hnil hne,
      fun c queue' heq => .inr ⟨_, rfl, ?_⟩⟩
    · rcases h.waiting p st c hpc hst with hcq | ⟨hsynced, hdata⟩
      · exact .inl hcq
      -- the request that is done is for another block
      refine .inr ⟨hsynced, ?_⟩
      have hcb : c ≠ b := by
        rintro rfl
        exact h.not_queued_of_synced hsynced (hq ▸ List.mem_cons_self)
      have hne : (s.cache.buf c).blockno.toNat ≠ (s.cache.buf b).blockno.toNat := by
        intro heq
        have hdev := h.dev_of_lock (h.holds p st c hpc (holds_of_waits hst))
        exact hcb (h.blocks.unique c b hdev hroot (BitVec.eq_of_toNat_eq heq))
      dsimp only
      rw [Function.update_self, Function.update_of_ne hne]
      exact hdata
    · rw [hhead c queue' heq, if_pos hdirty]
      dsimp only
      rw [Function.update_self, Function.update_self]
  · rw [if_neg hdirty] at hide
    rw [complete_read hide]
    refine ⟨h.order, h.blocks, h.havedisk1, h.refs, h.holds, h.valid, h.dirty, h.nodup, h.queued,
      h.waiting, fun hnil => absurd hnil hne, fun c queue' heq => .inr ⟨_, rfl, ?_⟩⟩
    rw [hhead c queue' heq, if_neg hdirty]

/-- What waits behind the head of the queue. -/
theorem Inv.behind (h : Inv s) {queue : List (Fin nbuf)} (hq : s.cache.idequeue = b :: queue)
    (c : Fin nbuf) (hc : c ∈ queue) : c ≠ b ∧ (s.cache.buf c).blockno.toNat < fssize := by
  constructor
  · rintro rfl
    have hnodup := h.nodup
    rw [hq, List.nodup_cons] at hnodup
    exact hnodup.1 hc
  · obtain ⟨p, st, hlock, -⟩ := h.waits_of_queued (hq ▸ List.mem_cons_of_mem b hc)
    exact h.blocks.small c (h.dev_of_lock hlock)

/-- The interrupt handler goes on with the queue. -/
theorem Inv.intr_run (h : Inv s) {port : Memory} (hide : s.cache.ide = .done port) :
    ∃ b queue, s.cache.idequeue = b :: queue ∧ (s.cache.buf b).dev = rootdev ∧
      ((s.cache.buf b).served port).data = s.cache.disk 1 (s.cache.buf b).blockno.toNat ∧
      ideintr true s.cache = .ok { s.cache.set b ((s.cache.buf b).served port) with
        idequeue := queue
        ide := nextCommand (Function.update s.cache.buf b ((s.cache.buf b).served port)) queue } := by
  obtain ⟨b, queue, hq, hroot, -, hbusy | ⟨port', hdone, hserved⟩⟩ := h.head (by rw [hide]; simp)
  · rw [hide] at hbusy
    cases hbusy
  rw [hide] at hdone
  cases hdone
  refine ⟨b, queue, hq, hroot, ?_, ideintr_run hide hq (h.behind hq)⟩
  unfold Buf.served
  split_ifs at hserved ⊢
  · exact hserved.symm
  · exact hserved

end

section

variable [Fintype P] [DecidableEq P]

variable {q : Option (Stage × Fin nbuf)} {x : Buf P}

/-- The references after a change. -/
theorem Inv.refs_change (h : Inv s) (hc : Change s p b x q) (c : Fin nbuf) :
    (Function.update s.cache.buf b x c).refcnt =
      Counting.count (fun p' => counted (Function.update s.pc p q p')) c +
        (Function.update s.cache.buf b x c).locks := by
  have hfun : (fun p' => counted (Function.update s.pc p q p')) =
      Function.update (fun p' => counted (s.pc p')) p (counted q) := by
    funext p'
    rw [Function.apply_update (fun _ => counted)]
  have hcount := Counting.count_update (fun p' => counted (s.pc p')) p (counted q) c
  have hrefs := h.refs c
  rw [hfun]
  by_cases hcb : c = b
  · subst hcb
    have hsum := hc.refs
    rw [Function.update_self]
    omega
  · rw [if_neg fun h => hcb (eq_of_counted hc.before h),
      if_neg fun h => hcb (eq_of_counted hc.after h)] at hcount
    rw [Function.update_of_ne hcb]
    omega

theorem Inv.holds_change (h : Inv s) (hc : Change s p b x q) (p' : P) (st : Stage) (c : Fin nbuf)
    (hpc : Function.update s.pc p q p' = some (st, c)) (hst : st.holds = true) :
    (Function.update s.cache.buf b x c).lock = some p' := by
  by_cases hp : p' = p
  · rw [hp, Function.update_self] at hpc
    obtain rfl := hc.after st c hpc
    rw [Function.update_self, hp]
    exact hc.holds st hpc hst
  · rw [Function.update_of_ne hp] at hpc
    have hlock := h.holds p' st c hpc hst
    by_cases hcb : c = b
    · rw [hcb] at hlock
      rw [hcb, Function.update_self]
      exact (hc.others p' hp).mp hlock
    · rw [Function.update_of_ne hcb]
      exact hlock

theorem Inv.valid_change (h : Inv s) (hc : Change s p b x q) (p' : P) (c : Fin nbuf)
    (hlock : (Function.update s.cache.buf b x c).lock = some p')
    (hvalid : (Function.update s.cache.buf b x c).valid = false) :
    ∃ st, Function.update s.pc p q p' = some (st, c) ∧ st.loads = true := by
  by_cases hcb : c = b
  · rw [hcb, Function.update_self] at hlock hvalid
    by_cases hp : p' = p
    · rw [hp] at hlock
      rw [hcb, hp, Function.update_self]
      exact hc.loads hlock hvalid
    · rw [Function.update_of_ne hp, hcb]
      have hlock' := (hc.others p' hp).mpr hlock
      rw [hc.kept p' hp hlock'] at hvalid
      exact h.valid p' b hlock' hvalid
  · rw [Function.update_of_ne hcb] at hlock hvalid
    obtain ⟨st, hpc, hst⟩ := h.valid p' c hlock hvalid
    -- the process itself is in no call, or in one about `b`
    have hp : p' ≠ p := by
      rintro rfl
      exact hcb (hc.before st c hpc)
    rw [Function.update_of_ne hp]
    exact ⟨st, hpc, hst⟩

/-- What is in the queue stays there, for its process. -/
theorem Inv.queued_change (h : Inv s) (hc : Change s p b x q)
    (hdone : waits (s.pc p) = true → b ∉ s.cache.idequeue) (c : Fin nbuf)
    (hcq : c ∈ s.cache.idequeue) :
    synced (Function.update s.cache.buf b x c) = false ∧
      ∃ p' st, Function.update s.pc p q p' = some (st, c) ∧ st.waits = true := by
  obtain ⟨hsynced, p', st, hpc, hst⟩ := h.queued c hcq
  have hp : p' ≠ p := by
    rintro rfl
    obtain rfl := hc.before st c hpc
    exact hdone (by rw [hpc]; exact hst) hcq
  refine ⟨?_, p', st, ?_, hst⟩
  · by_cases hcb : c = b
    · subst hcb
      rw [Function.update_self, h.kept_of_queued hc hdone hcq]
      exact hsynced
    · rw [Function.update_of_ne hcb]
      exact hsynced
  · rw [Function.update_of_ne hp]
    exact hpc

variable {st : Stage}

/-- Another process that waits for the disk goes on waiting, or its request is done. -/
theorem Inv.waiting_change (h : Inv s) (hc : Change s p b x q) {p' : P} (hp : p' ≠ p) {c : Fin nbuf}
    (hpc : Function.update s.pc p q p' = some (st, c)) (hst : st.waits = true) :
    c ∈ s.cache.idequeue ∨ Done s.cache.disk (Function.update s.cache.buf b x c) := by
  rw [Function.update_of_ne hp] at hpc
  rcases h.waiting p' st c hpc hst with hcq | hdone
  · exact .inl hcq
  right
  by_cases hcb : c = b
  · subst hcb
    rw [Function.update_self, hc.kept p' hp (h.holds p' st c hpc (holds_of_waits hst))]
    exact hdone
  · rw [Function.update_of_ne hcb]
    exact hdone

/-- A step in which a process changes a buffer, and does not call for the disk. -/
theorem Inv.change (h : Inv s) (hc : Change s p b x q)
    (hblocks : Blocks (Function.update s.cache.buf b x))
    (hdone : waits (s.pc p) = true → b ∉ s.cache.idequeue) (hwaits : waits q = false) :
    Inv ⟨s.cache.set b x, Function.update s.pc p q⟩ := by
  refine ⟨h.order, hblocks, h.havedisk1, h.refs_change hc, h.holds_change hc, h.valid_change hc,
    h.dirty_change hc, h.nodup, h.queued_change hc hdone, fun p' st c hpc hst => ?_, h.ready,
    h.serves_change hc hdone⟩
  apply h.waiting_change hc _ hpc hst
  rintro rfl
  dsimp only at hpc
  rw [Function.update_self] at hpc
  rw [hpc] at hwaits
  rw [show st.waits = false from hwaits] at hst
  cases hst

/-- A step in which a process asks the disk for a buffer that it has locked. -/
theorem Inv.enqueue (h : Inv s) (hc : Change s p b x (some (st, b)))
    (hblocks : Blocks (Function.update s.cache.buf b x)) (hst : st.waits = true)
    (hlock : (s.cache.buf b).lock = some p) (hbefore : waits (s.pc p) = false)
    (hsynced : synced x = false) :
    Inv ⟨(s.cache.set b x).enqueue b, Function.update s.pc p (some (st, b))⟩ := by
  have hqueue := h.not_queued hlock hbefore
  have hdone : waits (s.pc p) = true → b ∉ s.cache.idequeue := fun _ => hqueue
  refine ⟨h.order, hblocks, h.havedisk1, h.refs_change hc, h.holds_change hc, h.valid_change hc,
    h.dirty_change hc, ?_, fun c hcq => ?_, fun p' st' c hpc hst' => ?_, fun hnil => ?_,
    fun c queue heq => ?_⟩
  · exact List.nodup_append.mpr ⟨h.nodup, List.nodup_singleton b, by
      rintro c hc' d hd rfl
      rw [List.mem_singleton] at hd
      exact hqueue (hd ▸ hc')⟩
  · rcases List.mem_append.mp hcq with hcq | hcb
    · exact h.queued_change hc hdone c hcq
    · obtain rfl := List.mem_singleton.mp hcb
      refine ⟨?_, p, st, Function.update_self _ _ _, hst⟩
      show synced (Function.update s.cache.buf c x c) = false
      rw [Function.update_self]
      exact hsynced
  · by_cases hp : p' = p
    · dsimp only at hpc
      rw [hp, Function.update_self] at hpc
      obtain rfl := hc.after st' c hpc
      exact .inl (List.mem_append_right _ (List.mem_singleton_self c))
    · rcases h.waiting_change hc hp hpc hst' with hcq | hdone
      · exact .inl (List.mem_append_left _ hcq)
      · exact .inr hdone
  · exact absurd hnil (List.append_ne_nil_of_right_ne_nil _ (List.cons_ne_nil b []))
  · have hide : ((s.cache.set b x).enqueue b).ide =
        if s.cache.idequeue = [] then .busy (command (Function.update s.cache.buf b x b))
        else s.cache.ide := rfl
    have heq' : s.cache.idequeue ++ [b] = c :: queue := heq
    show Serves ((s.cache.set b x).enqueue b).ide s.cache.disk (Function.update s.cache.buf b x c)
    rw [hide]
    cases hq : s.cache.idequeue with
    | nil =>
      rw [hq, List.nil_append, List.cons.injEq] at heq'
      rw [if_pos rfl, heq'.1]
      exact .inl rfl
    | cons d rest =>
      rw [hq, List.cons_append, List.cons.injEq] at heq'
      rw [if_neg (List.cons_ne_nil d rest), ← heq'.1]
      exact h.serves_change hc hdone d rest hq

/-- The interrupt handler finishes the request at the head of the queue, for the process
that waits for it. -/
theorem Inv.intr (h : Inv s) {port : Memory} {queue : List (Fin nbuf)}
    (hq : s.cache.idequeue = b :: queue)
    (hserved : ((s.cache.buf b).served port).data = s.cache.disk 1 (s.cache.buf b).blockno.toNat) :
    Inv ⟨{ s.cache.set b ((s.cache.buf b).served port) with
      idequeue := queue
      ide := nextCommand (Function.update s.cache.buf b ((s.cache.buf b).served port)) queue },
      s.pc⟩ := by
  obtain ⟨p, st, hlock, hpc, hst⟩ := h.waits_of_queued (hq ▸ List.mem_cons_self)
  have hc : Change s p b ((s.cache.buf b).served port) (s.pc p) := by
    refine ⟨fun st' c hpc' => ?_, fun st' c hpc' => ?_, rfl, fun st' _ _ => hlock,
      fun p' _ => Iff.rfl, fun _ hvalid => ?_, fun hdirty => ?_, fun p' hp hlock' => ?_⟩
    · rw [hpc] at hpc'
      cases hpc'
      rfl
    · rw [hpc] at hpc'
      cases hpc'
      rfl
    · cases hvalid
    · cases hdirty
    · rw [hlock] at hlock'
      cases hlock'
      exact absurd rfl hp
  have hpc_same : Function.update s.pc p (s.pc p) = s.pc := Function.update_eq_self p s.pc
  have hnodup := h.nodup
  rw [hq, List.nodup_cons] at hnodup
  have hrefs := h.refs_change hc
  have hholds := h.holds_change hc
  have hvalid := h.valid_change hc
  have hwaiting : ∀ p', p' ≠ p → ∀ st' c, s.pc p' = some (st', c) → st'.waits = true →
      c ∈ s.cache.idequeue ∨
        Done s.cache.disk (Function.update s.cache.buf b ((s.cache.buf b).served port) c) := by
    intro p' hp st' c hpc' hst'
    apply h.waiting_change hc hp _ hst'
    rw [hpc_same]
    exact hpc'
  rw [hpc_same] at hrefs hholds hvalid
  refine ⟨h.order, h.blocks.set (h.dev_of_lock hlock) rfl rfl, h.havedisk1, hrefs, hholds, hvalid,
    h.dirty_change hc, hnodup.2, fun c hcq => ?_, fun p' st' c hpc' hst' => ?_, ?_, ?_⟩
  · obtain ⟨hsynced, hwaits⟩ := h.queued c (hq ▸ List.mem_cons_of_mem b hcq)
    refine ⟨?_, hwaits⟩
    show synced (Function.update s.cache.buf b ((s.cache.buf b).served port) c) = false
    rw [Function.update_of_ne]
    · exact hsynced
    · rintro rfl
      exact hnodup.1 hcq
  · by_cases hcb : c = b
    · right
      rw [hcb]
      show Done s.cache.disk (Function.update s.cache.buf b ((s.cache.buf b).served port) b)
      rw [Function.update_self]
      exact ⟨rfl, hserved⟩
    · have hp : p' ≠ p := by
        rintro rfl
        exact hcb (hc.before st' c hpc')
      rcases hwaiting p' hp st' c hpc' hst' with hcq | hdone
      · rw [hq] at hcq
        exact .inl ((List.mem_cons.mp hcq).resolve_left hcb)
      · exact .inr hdone
  · rintro rfl
    rfl
  · rintro c queue' rfl
    exact .inl rfl

/-! ## Every step keeps the invariant -/

/-- A step of a process that has a buffer, or goes on with its call, without changing it. -/
theorem Inv.change_self (h : Inv s) (hc : Change s p b (s.cache.buf b) q)
    (hdone : waits (s.pc p) = true → b ∉ s.cache.idequeue) (hwaits : waits q = false) :
    Inv ⟨s.cache, Function.update s.pc p q⟩ := by
  have hset : s.cache.set b (s.cache.buf b) = s.cache := by
    unfold Bcache.set
    rw [Function.update_eq_self]
  have hInv := h.change hc (by rw [Function.update_eq_self]; exact h.blocks) hdone hwaits
  rw [hset] at hInv
  exact hInv

/-- A call ends that has its buffer locked. -/
theorem Inv.finish (h : Inv s) (hpc : s.pc p = some (st, b)) (hst : st.holds = true)
    (hvalid : (s.cache.buf b).valid = true) (hqueue : b ∉ s.cache.idequeue) :
    Inv ⟨s.cache, Function.update s.pc p none⟩ := by
  have hcounted : counted (s.pc p) = none := by
    rw [hpc]
    cases st <;> first | rfl | cases hst
  apply h.change_self (b := b) _ (fun _ => hqueue) rfl
  constructor
  case before => rw [hpc]; exact About.some
  case after => exact About.none
  case refs => rw [hcounted]; rfl
  case holds => intro st' hq; cases hq
  case others => exact fun p' _ => Iff.rfl
  case loads =>
    intro _ hinvalid
    rw [hvalid] at hinvalid
    cases hinvalid
  case dirty => exact h.dirty b
  case kept => exact fun p' _ _ => rfl

theorem Inv.acquire (h : Inv s) (hpc : s.pc p = some (.locking, b))
    (hlock : (s.cache.buf b).lock = none) :
    Inv ⟨s.cache.set b { s.cache.buf b with lock := some p },
      Function.update s.pc p (some (.locked, b))⟩ := by
  refine h.change ?_ (h.blocks.set (h.dev_of_counted hpc rfl) rfl rfl)
    (fun _ => h.not_queued_of_free hlock) rfl
  constructor
  case before => rw [hpc]; exact About.some
  case after => exact About.some
  case refs =>
    rw [hpc, counted_some rfl, if_pos rfl, Buf.locks, Buf.locks, if_pos hlock]
    rfl
  case holds => exact fun st _ _ => rfl
  case others =>
    intro p' hp
    rw [hlock]
    simp [Ne.symm hp]
  case loads => exact fun _ _ => ⟨.locked, rfl, rfl⟩
  case dirty => exact h.dirty b
  case kept => exact fun p' _ _ => rfl

/-- A process that is in no call changes the data or the flag of a buffer that it holds. -/
theorem Inv.modify (h : Inv s) (hpc : s.pc p = none) (hlock : (s.cache.buf b).lock = some p)
    (dirty : Bool) (data : Memory) :
    Inv ⟨s.cache.set b { s.cache.buf b with dirty := dirty, data := data }, s.pc⟩ := by
  have hqueue := h.not_queued hlock (by rw [hpc]; rfl)
  have hInv := h.change (q := none)
    (h.change_held (x := { s.cache.buf b with dirty := dirty, data := data }) hpc hlock
      About.none rfl rfl)
    (h.blocks.set (h.dev_of_lock hlock) rfl rfl) (fun _ => hqueue) rfl
  rw [← hpc, Function.update_eq_self] at hInv
  exact hInv

/-- The first part of `brelse`. -/
theorem Inv.unlock (h : Inv s) (hpc : s.pc p = none) (hlock : (s.cache.buf b).lock = some p) :
    Inv ⟨s.cache.set b (releasesleep (s.cache.buf b)),
      Function.update s.pc p (some (.releasing, b))⟩ := by
  refine h.change ?_ (h.blocks.set (h.dev_of_lock hlock) rfl rfl)
    (fun _ => h.not_queued hlock (by rw [hpc]; rfl)) rfl
  constructor
  case before => rw [hpc]; exact About.none
  case after => exact About.some
  case refs =>
    rw [hpc, counted_some rfl, if_pos rfl, Buf.locks, Buf.locks, hlock]
    rfl
  case holds =>
    intro st hq hst
    cases hq
    cases hst
  case others =>
    intro p' hp
    rw [hlock]
    simp [Ne.symm hp, releasesleep]
  case loads =>
    intro hx
    cases hx
  case dirty => exact h.dirty b
  case kept =>
    intro p' hp hlock'
    rw [hlock] at hlock'
    cases hlock'
    exact absurd rfl hp

/-- The second part of `brelse`. -/
theorem Inv.released (h : Inv s) (hpc : s.pc p = some (.releasing, b)) :
    Inv ⟨brelseLocked b s.cache, Function.update s.pc p none⟩ := by
  have hpos := Inv.count_pos hpc rfl
  have hrefs := h.refs b
  have hc : Change s p b { s.cache.buf b with refcnt := (s.cache.buf b).refcnt - 1 } none := by
    refine h.change_refcnt (hpc ▸ About.some) About.none (fun st hst => ?_) (fun st hq => ?_) ?_
    · rw [hpc] at hst
      cases hst
      rfl
    · cases hq
    · rw [hpc, counted_some rfl, if_pos rfl, if_neg (by simp [counted])]
      omega
  have hInv := h.change hc (h.blocks.set (h.dev_of_counted hpc rfl) rfl rfl)
    (fun hwaits => by rw [hpc] at hwaits; cases hwaits) rfl
  unfold brelseLocked
  dsimp only
  split_ifs
  · obtain ⟨l, hlist, hall⟩ := h.order
    apply hInv.relink (hlist.toFront (hall b))
    intro c
    by_cases hcb : c = b
    · rw [hcb]
      exact List.mem_cons_self
    · exact List.mem_cons_of_mem _ ((List.mem_erase_of_ne hcb).mpr (hall c))
  · exact hInv

/-- `bget` finds the block. -/
theorem Inv.lookup (h : Inv s) (hpc : s.pc p = none) (hdev : (s.cache.buf b).dev = rootdev) :
    Inv ⟨s.cache.set b { s.cache.buf b with refcnt := (s.cache.buf b).refcnt + 1 },
      Function.update s.pc p (some (.locking, b))⟩ := by
  refine h.change (h.change_refcnt (hpc ▸ About.none) About.some (fun st hst => ?_)
    (fun st hq => ?_) ?_) (h.blocks.set hdev rfl rfl) (fun hwaits => ?_) rfl
  · rw [hpc] at hst
    cases hst
  · cases hq
    rfl
  · rw [hpc, counted_some rfl, if_pos rfl, if_neg (by simp [counted])]
  · rw [hpc] at hwaits
    cases hwaits

/-- `bget` takes over an unused buffer. -/
theorem Inv.take (h : Inv s) (hpc : s.pc p = none) {blockno : Word}
    (hblock : blockno.toNat < fssize)
    (hmiss : ∀ c, (s.cache.buf c).isFor rootdev blockno = false)
    (hunused : (s.cache.buf b).unused = true) :
    Inv ⟨s.cache.set b { s.cache.buf b with
        dev := rootdev, blockno := blockno, valid := false, dirty := false, refcnt := 1 },
      Function.update s.pc p (some (.locking, b))⟩ := by
  obtain ⟨hrefs, -⟩ := unused_iff.mp hunused
  have hlock := h.lock_of_unused hrefs
  have hnone : ∀ c, (s.cache.buf c).dev = rootdev → (s.cache.buf c).blockno ≠ blockno := by
    intro c hdev hblockno
    have hfound := isFor_iff.mpr ⟨hdev, hblockno⟩
    rw [hmiss c] at hfound
    cases hfound
  refine h.change ?_ (h.blocks.take rfl hblock hnone) (fun hwaits => ?_) rfl
  · constructor
    case before => rw [hpc]; exact About.none
    case after => exact About.some
    case refs =>
      rw [hpc, counted_some rfl, if_pos rfl, if_neg (by simp [counted]), hrefs]
      rfl
    case holds =>
      intro st hq hst
      cases hq
      cases hst
    case others => exact fun p' _ => Iff.rfl
    case loads =>
      intro hlock'
      dsimp only at hlock'
      rw [hlock] at hlock'
      cases hlock'
    case dirty =>
      intro hdirty
      cases hdirty
    case kept =>
      intro p' _ hlock'
      rw [hlock] at hlock'
      cases hlock'
  · rw [hpc] at hwaits
    cases hwaits

/-- `bread` asks for a buffer that is not valid. -/
theorem Inv.fetch (h : Inv s) (hpc : s.pc p = some (.locked, b))
    (hvalid : (s.cache.buf b).valid = false) :
    iderw p b s.cache = .ok (s.cache.enqueue b) ∧
      Inv ⟨s.cache.enqueue b, Function.update s.pc p (some (.fetching, b))⟩ := by
  have hlock := h.holds p _ b hpc rfl
  have hroot := h.dev_of_lock hlock
  have hsynced : synced (s.cache.buf b) = false := by rw [synced, hvalid, Bool.false_and]
  have hbefore : waits (s.pc p) = false := by rw [hpc]; rfl
  refine ⟨iderw_run hlock hsynced h.havedisk1 (h.blocks.small b hroot)
    (h.not_queued hlock hbefore), ?_⟩
  have hset : s.cache.set b (s.cache.buf b) = s.cache := by
    unfold Bcache.set
    rw [Function.update_eq_self]
  have hc : Change s p b (s.cache.buf b) (some (.fetching, b)) := by
    constructor
    case before => rw [hpc]; exact About.some
    case after => exact About.some
    case refs => rw [hpc]; rfl
    case holds => exact fun st _ _ => hlock
    case others => exact fun p' _ => Iff.rfl
    case loads => exact fun _ _ => ⟨.fetching, rfl, rfl⟩
    case dirty => exact h.dirty b
    case kept => exact fun p' _ _ => rfl
  have hInv := h.enqueue hc (h.blocks.set hroot rfl rfl) rfl hlock hbefore hsynced
  rw [hset] at hInv
  exact hInv

/-- `bwrite` asks for a buffer that the process holds. -/
theorem Inv.bwrite (h : Inv s) (hpc : s.pc p = none) (hlock : (s.cache.buf b).lock = some p) :
    bwrite p b s.cache = .ok ((s.cache.set b { s.cache.buf b with dirty := true }).enqueue b) ∧
      Inv ⟨(s.cache.set b { s.cache.buf b with dirty := true }).enqueue b,
        Function.update s.pc p (some (.writing, b))⟩ := by
  have hroot := h.dev_of_lock hlock
  have hbefore : waits (s.pc p) = false := by rw [hpc]; rfl
  have hheld := holdingsleep_iff.mpr hlock
  have hbuf : (s.cache.set b { s.cache.buf b with dirty := true }).buf b =
      { s.cache.buf b with dirty := true } := Function.update_self _ _ _
  have hsynced : synced { s.cache.buf b with dirty := true } = false := by
    rw [synced, Bool.not_true, Bool.and_false]
  refine ⟨?_, h.enqueue (h.change_held hpc hlock About.some rfl rfl)
    (h.blocks.set hroot rfl rfl) rfl hlock hbefore hsynced⟩
  rw [Bio.bwrite, if_neg (by rw [hheld]; simp)]
  apply iderw_run
  · rw [hbuf]
    exact hlock
  · rw [hbuf]
    exact hsynced
  · exact h.havedisk1
  · rw [hbuf]
    exact h.blocks.small b hroot
  · exact h.not_queued hlock hbefore

/-- **Every step keeps the invariant.** -/
theorem Inv.step (h : Inv s) {e : Event Word P Memory} (hstep : Step s e s') : Inv s' := by
  cases hstep with
  | bget hpc hblock hrun =>
    obtain ⟨l, hlist, hall⟩ := h.order
    rcases bget_cases rootdev _ hlist hall with
      ⟨b, hfor, hrun'⟩ | ⟨hmiss, b, hunused, hrun'⟩ | ⟨-, -, hrun'⟩
    · rw [hrun] at hrun'
      cases hrun'
      exact h.lookup hpc (isFor_iff.mp hfor).1
    · rw [hrun] at hrun'
      cases hrun'
      exact h.take hpc hblock hmiss hunused
    · rw [hrun] at hrun'
      cases hrun'
  | acquire hpc hrun =>
    obtain ⟨hlock, rfl⟩ := acquiresleep_eq_some.mp hrun
    exact h.acquire hpc hlock
  | hit hpc hvalid =>
    have hlock := h.holds _ _ _ hpc rfl
    exact h.finish hpc rfl hvalid (h.not_queued hlock (by rw [hpc]; rfl))
  | miss hpc hvalid hrun =>
    obtain ⟨hrun', hInv⟩ := h.fetch hpc hvalid
    rw [hrun] at hrun'
    cases hrun'
    exact hInv
  | fetched hpc hsynced =>
    exact h.finish hpc rfl (valid_of_synced hsynced) (h.not_queued_of_synced hsynced)
  | modify hpc hheld => exact h.modify hpc (holdingsleep_iff.mp hheld) _ _
  | logWrite hpc hheld => exact h.modify hpc (holdingsleep_iff.mp hheld) _ _
  | bwrite hpc hrun =>
    obtain ⟨hrun', hInv⟩ := h.bwrite hpc (lock_of_bwrite hrun)
    rw [hrun] at hrun'
    cases hrun'
    exact hInv
  | written hpc hsynced =>
    exact h.finish hpc rfl (valid_of_synced hsynced) (h.not_queued_of_synced hsynced)
  | brelse hpc hrun =>
    obtain ⟨hlock, rfl⟩ := brelse_eq_ok.mp hrun
    exact h.unlock hpc hlock
  | released hpc => exact h.released hpc
  | diskRead hide => exact h.complete hide
  | diskWrite hide => exact h.complete hide
  | intr hide hrun =>
    obtain ⟨b, queue, hq, -, hserved, hrun'⟩ := h.intr_run hide
    rw [hrun] at hrun'
    cases hrun'
    exact h.intr hq hserved

omit [DecidableEq P] in
/-- The cache starts with the invariant. -/
theorem Inv.boot (disk : Word → ℕ → Memory) : Inv (System.boot disk : System P) := by
  constructor
  case order =>
    refine ⟨_, binit_lists, fun b => ?_⟩
    rw [List.mem_reverse]
    exact List.mem_finRange b
  case blocks =>
    have hroot : ∀ b, ((System.boot disk : System P).cache.buf b).dev ≠ rootdev := by
      intro b
      show (0 : Word) ≠ rootdev
      decide
    exact ⟨fun b _ hb => absurd hb (hroot b), fun b hb => absurd hb (hroot b),
      fun b _ => ⟨rfl, rfl⟩⟩
  case havedisk1 => rfl
  case refs =>
    intro b
    show 0 = Counting.count (fun _ : P => (none : Option (Fin nbuf))) b + 0
    rw [Counting.count_none]
  case nodup => exact List.nodup_nil
  case ready => exact fun _ => rfl
  case holds =>
    intro p st b hpc
    cases hpc
  case valid =>
    intro p b hlock
    cases hlock
  case dirty =>
    intro b hdirty
    cases hdirty
  case queued =>
    intro b hb
    cases hb
  case waiting =>
    intro p st b hpc
    cases hpc
  case serves =>
    intro b queue hq
    cases hq

end

/-! ## A first run -/

section Example

/-- A disk with one content everywhere. -/
def sevens : Word → ℕ → Memory := fun _ _ _ => 7

theorem bget_boot : bget rootdev 5 (Bio.boot true sevens : Bcache Unit) =
    .ok ((Bio.boot true sevens).set 0 ⟨false, false, rootdev, 5, none, 1, fun _ => 0⟩, 0) := by
  have hnext : Links.scan (Bio.boot true sevens : Bcache Unit).links.next
      (fun b => ((Bio.boot true sevens : Bcache Unit).buf b).isFor rootdev 5) (nbuf + 1)
      ((Bio.boot true sevens : Bcache Unit).links.next none) = some none := by decide +kernel
  have hprev : Links.scan (Bio.boot true sevens : Bcache Unit).links.prev
      (fun b => ((Bio.boot true sevens : Bcache Unit).buf b).unused) (nbuf + 1)
      ((Bio.boot true sevens : Bcache Unit).links.prev none) = some (some 0) := by decide +kernel
  unfold Bio.bget
  rw [hnext, hprev]
  rfl

/-- The calls `bread`, `bwrite` and `brelse` of one process, with what it stores. -/
def firstEvents : List (Event Word Unit Memory) :=
  [.request () 5, .lock () 5, .internal, .internal, .internal, .read () 5 fun _ => 7,
    .write () 5 fun _ => 9, .pin () 5, .flush 5, .internal, .sync () 5, .unlock () 5, .internal]

/-- The run, and what `bget` does after it for another block. -/
theorem exists_first_run : ∃ path : List (Event Word Unit Memory × System Unit),
    Transitions.Path Step (System.boot sevens) path ∧ path.map Prod.fst = firstEvents ∧
    (∀ c, ((Transitions.last (System.boot sevens) path).cache.buf c).isFor rootdev 6 = false) ∧
    ((Transitions.last (System.boot sevens) path).cache.buf 0).unused = true ∧
    ∃ m, bget rootdev 6 (Transitions.last (System.boot sevens) path).cache = .ok (m, 1) := by
  refine ⟨_, .cons (.bget (p := ()) rfl (by decide : (5 : Word).toNat < fssize) bget_boot)
    (.cons (.acquire (p := ()) rfl rfl) (.cons (.miss (p := ()) rfl rfl rfl)
    (.cons (.diskRead rfl) (.cons (.intr rfl rfl) (.cons (.fetched (p := ()) rfl rfl)
    (.cons (.modify (p := ()) (b := 0) rfl rfl) (.cons (.bwrite (p := ()) (b := 0) rfl rfl)
    (.cons (.diskWrite rfl) (.cons (.intr rfl rfl) (.cons (.written (p := ()) rfl rfl)
    (.cons (.brelse (p := ()) (b := 0) rfl rfl) (.cons (.released (p := ()) rfl) .nil)))))))))))),
    rfl, ?_, rfl, _, rfl⟩
  decide +kernel

end Example

end Xv6.Bio
