/-
# The buffer cache (`bio.c`, `ide.c`)

Cached copies of disk blocks, in a list with the most recently used first.  `bget` looks a
block up, or takes over the buffer at the end of the list that is not in use; `iderw` appends
a buffer to the queue of the disk and waits, and `ideintr` takes it off again.

A function is cut where it gives up a spin lock or may sleep, and each part is one step: the
part of `bget` under `bcache.lock`, `acquiresleep`, the part of `iderw` up to its loop, and
so on.  The disk has two drives; it works on one command at a time and then raises an
interrupt.  A command that fails is the parameter of `ideintr`.  The reference count is a
natural number.
-/
import Mathlib.Data.Fintype.Card
import Xv6Recorder.CircularList
import Xv6Recorder.Log

open Bytes CircularList

namespace Xv6.Bio

/-- `NBUF`: size of the disk block cache. -/
def nbuf : ℕ := Log.maxOpBlocks * 3

instance : NeZero nbuf := ⟨by decide⟩

/-- `FSSIZE`: size of the file system in blocks. -/
def fssize : ℕ := 2000

/-- `ROOTDEV`: device number of the file system root disk. -/
def rootdev : Word := 1

/-- `struct buf`, without its links.  `flags` are `B_VALID` and `B_DIRTY`; of the sleep lock
the process that holds it is kept. -/
structure Buf (P : Type) where
  valid : Bool
  dirty : Bool
  dev : Word
  blockno : Word
  lock : Option P
  refcnt : ℕ
  data : Memory

/-- What `idestart` tells the disk to do. -/
inductive Command where
  | read (drive : Word) (sector : ℕ)
  | write (drive : Word) (sector : ℕ) (data : Memory)

/-- The disk controller: it is ready, works on a command, or has raised an interrupt with
something in its data port. -/
inductive Ide where
  | ready
  | busy (c : Command)
  | done (port : Memory)

/-- `bcache`, the queue of the disk, and the disk. -/
structure Bcache (P : Type) where
  buf : Fin nbuf → Buf P
  links : Links (Fin nbuf)
  idequeue : List (Fin nbuf)
  havedisk1 : Bool
  ide : Ide
  /-- The sectors of the two drives. -/
  disk : Word → ℕ → Memory

/-- What keeps a function from returning. -/
inductive Stop where
  | panic (msg : String)
  /-- A loop over the list of buffers does not end. -/
  | loops

variable {P : Type}

/-- Change a buffer. -/
def Bcache.set (m : Bcache P) (b : Fin nbuf) (x : Buf P) : Bcache P :=
  { m with buf := Function.update m.buf b x }

/-! ## Sleep locks -/

/-- One round of the loop of `acquiresleep`: whether the process gets the lock, or else
sleeps. -/
def acquiresleep (p : P) (x : Buf P) : Option (Buf P) :=
  if x.lock = none then some { x with lock := some p } else none

def releasesleep (x : Buf P) : Buf P := { x with lock := none }

def holdingsleep [DecidableEq P] (p : P) (x : Buf P) : Bool := x.lock = some p

/-! ## The disk -/

/-- The command for a buffer.  A block is one sector. -/
def command (x : Buf P) : Command :=
  if x.dirty then .write (x.dev &&& 1) (x.blockno.toNat % 2 ^ 28) x.data
  else .read (x.dev &&& 1) (x.blockno.toNat % 2 ^ 28)

/-- Start the request for a buffer. -/
def idestart (b : Fin nbuf) (m : Bcache P) : Except Stop (Bcache P) :=
  if fssize ≤ (m.buf b).blockno.toNat then throw (.panic "incorrect blockno")
  else pure { m with ide := .busy (command (m.buf b)) }

/-- The disk carries out its command. -/
def complete (m : Bcache P) : Bcache P :=
  match m.ide with
  | .busy (.read drive sector) => { m with ide := .done (m.disk drive sector) }
  | .busy (.write drive sector data) =>
    { m with
      ide := .done data
      disk := Function.update m.disk drive (Function.update (m.disk drive) sector data) }
  | _ => m

/-- The interrupt handler; `ok` when the disk reports no error. -/
def ideintr (ok : Bool) (m : Bcache P) : Except Stop (Bcache P) :=
  match m.idequeue with
  | [] => pure m
  | b :: queue =>
    let x := m.buf b
    let data := match m.ide with
      | .done port => if x.dirty = false ∧ ok = true then port else x.data
      | _ => x.data
    let m := { m.set b { x with data := data, valid := true, dirty := false } with
      idequeue := queue, ide := .ready }
    match queue with
    | [] => pure m
    | next :: _ => idestart next m

/-- Whether the loop of `iderw` ends. -/
def synced (x : Buf P) : Bool := x.valid && !x.dirty

/-- Sync a buffer with the disk, up to the loop that waits for the request to finish. -/
def iderw [DecidableEq P] (p : P) (b : Fin nbuf) (m : Bcache P) : Except Stop (Bcache P) :=
  if holdingsleep p (m.buf b) = false then throw (.panic "iderw: buf not locked")
  else if synced (m.buf b) then throw (.panic "iderw: nothing to do")
  else if (m.buf b).dev ≠ 0 ∧ m.havedisk1 = false then
    throw (.panic "iderw: ide disk 1 not present")
  else
    let m := { m with idequeue := m.idequeue ++ [b] }
    if m.idequeue.head? = some b then idestart b m else pure m

/-! ## The cache -/

/-- Whether a buffer is for a block. -/
def Buf.isFor (dev blockno : Word) (x : Buf P) : Bool := x.dev = dev && x.blockno = blockno

/-- Whether a buffer can be taken over.  `B_DIRTY` indicates that it is in use, because
`log.c` has modified it but not yet committed it. -/
def Buf.unused (x : Buf P) : Bool := x.refcnt = 0 && x.dirty = false

/-- Look through the cache for a block, and take over an unused buffer if it is not there;
the part under `bcache.lock`. -/
def bget (dev blockno : Word) (m : Bcache P) : Except Stop (Bcache P × Fin nbuf) :=
  match Links.scan m.links.next (fun b => (m.buf b).isFor dev blockno) (nbuf + 1)
      (m.links.next none) with
  | none => throw .loops
  | some (some b) => pure (m.set b { m.buf b with refcnt := (m.buf b).refcnt + 1 }, b)
  | some none =>
    match Links.scan m.links.prev (fun b => (m.buf b).unused) (nbuf + 1) (m.links.prev none) with
    | none => throw .loops
    | some (some b) =>
      pure (m.set b { m.buf b with
        dev := dev, blockno := blockno, valid := false, dirty := false, refcnt := 1 }, b)
    | some none => throw (.panic "bget: no buffers")

/-- Write a buffer to disk. -/
def bwrite [DecidableEq P] (p : P) (b : Fin nbuf) (m : Bcache P) : Except Stop (Bcache P) :=
  if holdingsleep p (m.buf b) = false then throw (.panic "bwrite")
  else iderw p b (m.set b { m.buf b with dirty := true })

/-- Release a locked buffer: the first part of `brelse`. -/
def brelse [DecidableEq P] (p : P) (b : Fin nbuf) (m : Bcache P) : Except Stop (Bcache P) :=
  if holdingsleep p (m.buf b) = false then throw (.panic "brelse")
  else pure (m.set b (releasesleep (m.buf b)))

/-- The part of `brelse` under `bcache.lock`: a buffer that no one is waiting for goes to the
head of the list. -/
def brelseLocked (b : Fin nbuf) (m : Bcache P) : Bcache P :=
  let m := m.set b { m.buf b with refcnt := (m.buf b).refcnt - 1 }
  if (m.buf b).refcnt = 0 then { m with links := (m.links.unlink b).insert b } else m

/-- The list that `binit` makes. -/
def binit : Links (Fin nbuf) := (List.finRange nbuf).foldl Links.insert ⟨fun _ => none, fun _ => none⟩

/-- The cache after `binit` and `ideinit`: the buffers are zero. -/
def boot (havedisk1 : Bool) (disk : Word → ℕ → Memory) : Bcache P where
  buf _ := ⟨false, false, 0, 0, none, 0, fun _ => 0⟩
  links := binit
  idequeue := []
  havedisk1 := havedisk1
  ide := .ready
  disk := disk

/-! ## What the functions do -/

variable {m : Bcache P} {b : Fin nbuf} {p : P}

theorem holdingsleep_iff [DecidableEq P] {x : Buf P} : holdingsleep p x = true ↔ x.lock = some p := by
  rw [holdingsleep, decide_eq_true_iff]

theorem acquiresleep_eq_some {x y : Buf P} :
    acquiresleep p x = some y ↔ x.lock = none ∧ { x with lock := some p } = y := by
  unfold acquiresleep
  split_ifs with hlock
  · rw [Option.some.injEq]
    exact ⟨fun h => ⟨hlock, h⟩, fun h => h.2⟩
  · exact ⟨fun h => (by cases h), fun h => absurd h.1 hlock⟩

theorem brelse_eq_ok [DecidableEq P] {m' : Bcache P} :
    brelse p b m = .ok m' ↔
      (m.buf b).lock = some p ∧ m.set b (releasesleep (m.buf b)) = m' := by
  unfold brelse
  rw [← holdingsleep_iff]
  cases holdingsleep p (m.buf b)
  · exact ⟨fun h => (by cases h), fun h => (by cases h.1)⟩
  · exact ⟨fun h => ⟨rfl, by cases h; rfl⟩, fun h => by rw [← h.2]; rfl⟩

theorem lock_of_bwrite [DecidableEq P] {m' : Bcache P} (h : bwrite p b m = .ok m') :
    (m.buf b).lock = some p := by
  unfold bwrite at h
  rw [← holdingsleep_iff]
  cases hheld : holdingsleep p (m.buf b)
  · rw [hheld, if_pos rfl] at h
    cases h
  · rfl

theorem valid_of_synced {x : Buf P} (h : synced x = true) : x.valid = true := by
  rw [synced, Bool.and_eq_true] at h
  exact h.1

theorem complete_read {drive : Word} {sector : ℕ} (hide : m.ide = .busy (.read drive sector)) :
    complete m = { m with ide := .done (m.disk drive sector) } := by
  rw [complete, hide]

theorem complete_write {drive : Word} {sector : ℕ} {data : Memory}
    (hide : m.ide = .busy (.write drive sector data)) :
    complete m = { m with
      ide := .done data
      disk := Function.update m.disk drive (Function.update (m.disk drive) sector data) } := by
  rw [complete, hide]

/-- The command for a buffer of the file system. -/
theorem command_eq {x : Buf P} (hroot : x.dev = rootdev) (hsmall : x.blockno.toNat < fssize) :
    command x = if x.dirty then .write 1 x.blockno.toNat x.data else .read 1 x.blockno.toNat := by
  have hdrive : x.dev &&& 1 = 1 := by
    rw [hroot]
    decide
  have hsector : x.blockno.toNat % 2 ^ 28 = x.blockno.toNat := by
    apply Nat.mod_eq_of_lt
    unfold fssize at hsmall
    omega
  rw [command, hdrive, hsector]

theorem idestart_run (hsmall : (m.buf b).blockno.toNat < fssize) :
    idestart b m = .ok { m with ide := .busy (command (m.buf b)) } := by
  rw [idestart, if_neg (by omega)]
  rfl

/-- The disk is given the next buffer of the queue, if there is one. -/
def nextCommand (buf : Fin nbuf → Buf P) : List (Fin nbuf) → Ide
  | [] => .ready
  | b :: _ => .busy (command (buf b))

/-- A buffer after its request. -/
def Buf.served (x : Buf P) (port : Memory) : Buf P :=
  { x with data := if x.dirty then x.data else port, valid := true, dirty := false }

/-- The interrupt handler starts the next request, also after an error. -/
theorem ideintr_eq {port : Memory} {queue : List (Fin nbuf)} (ok : Bool) (hide : m.ide = .done port)
    (hq : m.idequeue = b :: queue)
    (hsmall : ∀ c ∈ queue, c ≠ b ∧ (m.buf c).blockno.toNat < fssize) {x : Buf P}
    (hx : x = { m.buf b with
      data := if (m.buf b).dirty = false ∧ ok = true then port else (m.buf b).data
      valid := true, dirty := false }) :
    ideintr ok m = .ok { m.set b x with
      idequeue := queue
      ide := nextCommand (Function.update m.buf b x) queue } := by
  unfold ideintr
  rw [hq, hide]
  dsimp only
  rw [← hx]
  cases queue with
  | nil => rfl
  | cons c queue =>
    obtain ⟨hcb, hsmall⟩ := hsmall c List.mem_cons_self
    apply idestart_run
    show (Function.update m.buf b x c).blockno.toNat < fssize
    rw [Function.update_of_ne hcb]
    exact hsmall

theorem ideintr_run {port : Memory} {queue : List (Fin nbuf)} (hide : m.ide = .done port)
    (hq : m.idequeue = b :: queue)
    (hsmall : ∀ c ∈ queue, c ≠ b ∧ (m.buf c).blockno.toNat < fssize) :
    ideintr true m = .ok { m.set b ((m.buf b).served port) with
      idequeue := queue
      ide := nextCommand (Function.update m.buf b ((m.buf b).served port)) queue } := by
  refine ideintr_eq true hide hq hsmall ?_
  unfold Buf.served
  cases (m.buf b).dirty <;> rfl

/-- The cache after `iderw` has appended a buffer to the queue. -/
def Bcache.enqueue (m : Bcache P) (b : Fin nbuf) : Bcache P :=
  { m with
    idequeue := m.idequeue ++ [b]
    ide := if m.idequeue = [] then .busy (command (m.buf b)) else m.ide }

theorem iderw_run [DecidableEq P] (hlock : (m.buf b).lock = some p)
    (hsynced : synced (m.buf b) = false) (hdisk : m.havedisk1 = true)
    (hsmall : (m.buf b).blockno.toNat < fssize) (hqueue : b ∉ m.idequeue) :
    iderw p b m = .ok (m.enqueue b) := by
  have hheld := holdingsleep_iff.mpr hlock
  unfold iderw Bcache.enqueue
  rw [if_neg (by rw [hheld]; simp), if_neg (by rw [hsynced]; simp), if_neg (by rw [hdisk]; simp)]
  cases hq : m.idequeue with
  | nil =>
    rw [if_pos (by simp)]
    exact idestart_run hsmall
  | cons c queue =>
    have hcb : c ≠ b := by
      rintro rfl
      exact hqueue (hq ▸ List.mem_cons_self)
    rw [if_neg (by simpa using hcb), if_neg (List.cons_ne_nil c queue)]
    rfl

theorem isFor_iff {x : Buf P} {dev blockno : Word} :
    x.isFor dev blockno = true ↔ x.dev = dev ∧ x.blockno = blockno := by
  rw [Buf.isFor, Bool.and_eq_true, decide_eq_true_iff, decide_eq_true_iff]

theorem unused_iff {x : Buf P} : x.unused = true ↔ x.refcnt = 0 ∧ x.dirty = false := by
  rw [Buf.unused, Bool.and_eq_true, decide_eq_true_iff, decide_eq_true_iff]

/-- The loops of `bget` end. -/
theorem length_lt {r : Links (Fin nbuf)} {l : List (Fin nbuf)} (h : r.Lists l) :
    l.length < nbuf + 1 := by
  have hle := List.Nodup.length_le_card h.nodup
  rw [Fintype.card_fin] at hle
  omega

/-- **The three ends of `bget`**: the block is there; it is not and an unused buffer is taken
over; or all buffers are in use. -/
theorem bget_cases (dev blockno : Word) {l : List (Fin nbuf)} (hlist : m.links.Lists l)
    (hall : ∀ b, b ∈ l) :
    (∃ b, (m.buf b).isFor dev blockno = true ∧ bget dev blockno m =
        .ok (m.set b { m.buf b with refcnt := (m.buf b).refcnt + 1 }, b)) ∨
    ((∀ c, (m.buf c).isFor dev blockno = false) ∧ ∃ b, (m.buf b).unused = true ∧
      bget dev blockno m = .ok (m.set b { m.buf b with
        dev := dev, blockno := blockno, valid := false, dirty := false, refcnt := 1 }, b)) ∨
    ((∀ c, (m.buf c).isFor dev blockno = false) ∧ (∀ c, (m.buf c).unused = false) ∧
      bget dev blockno m = .error (.panic "bget: no buffers")) := by
  have hlength := length_lt hlist
  have hnext := hlist.scan_next (fun b => (m.buf b).isFor dev blockno) hlength
  have hprev := hlist.scan_prev (fun b => (m.buf b).unused) hlength
  unfold bget
  rw [hnext, hprev]
  cases hfind : l.find? fun b => (m.buf b).isFor dev blockno with
  | some b => exact .inl ⟨b, List.find?_some (p := fun b => (m.buf b).isFor dev blockno) hfind, rfl⟩
  | none =>
    right
    have hmiss : ∀ c, (m.buf c).isFor dev blockno = false := fun c =>
      Bool.eq_false_iff.mpr (List.find?_eq_none.mp hfind c (hall c))
    cases hfind' : l.reverse.find? fun b => (m.buf b).unused with
    | some b => exact .inl ⟨hmiss, b, List.find?_some (p := fun b => (m.buf b).unused) hfind', rfl⟩
    | none =>
      refine .inr ⟨hmiss, fun c => ?_, rfl⟩
      exact Bool.eq_false_iff.mpr
        (List.find?_eq_none.mp hfind' c (List.mem_reverse.mpr (hall c)))

theorem binit_lists : binit.Lists (List.finRange nbuf).reverse := by
  have hgo : ∀ (l l' : List (Fin nbuf)) (r : Links (Fin nbuf)), r.Lists l' → (l' ++ l).Nodup →
      (l.foldl Links.insert r).Lists (l.reverse ++ l') := by
    intro l
    induction l with
    | nil => exact fun l' r h _ => h
    | cons a l ih =>
      intro l' r h hnodup
      have ha : a ∉ l' := by
        intro ha
        exact (List.nodup_append.mp hnodup).2.2 a ha a List.mem_cons_self rfl
      rw [List.foldl_cons, List.reverse_cons, List.append_assoc, List.singleton_append]
      apply ih (a :: l') _ (h.insert ha)
      rw [List.cons_append]
      exact List.nodup_middle.mp hnodup
  have hempty : Links.Lists ⟨fun _ => none, fun _ => none⟩ ([] : List (Fin nbuf)) :=
    ⟨⟨rfl, rfl⟩, List.nodup_nil⟩
  have h := hgo (List.finRange nbuf) [] _ hempty (List.nodup_finRange nbuf)
  rw [List.append_nil] at h
  exact h

end Xv6.Bio
