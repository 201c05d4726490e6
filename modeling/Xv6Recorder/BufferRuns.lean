/-
# What the buffer cache is for

Seen from the processes the buffers and the disk are a store of blocks: every block has one
content, whether it is in a buffer or only on disk.  Every run of the cache is a run of such
a store.  A block that is not dirty may leave the cache, so that what a process has changed
and neither handed to `log_write` nor written with `bwrite` may be lost; processes that do
one of the two before `brelse` always read what was stored last.
-/
import Mathlib.Tactic.IntervalCases
import Xv6Recorder.BufferInvariant

open Bytes BlockStore

namespace Xv6.Bio

variable {P : Type}

/-! ## The store behind the buffers -/

/-- What the buffer for a block says, if there is one. -/
def look {α : Type} (buf : Fin nbuf → Buf P) (k : Word) (f : Buf P → α) (absent : α) : α :=
  match (List.finRange nbuf).find? fun b => (buf b).isFor rootdev k with
  | some b => f (buf b)
  | none => absent

/-- The content of a block, given what is on disk. -/
def Buf.content (d : Memory) (x : Buf P) : Memory := if x.valid then x.data else d

/-- The store that the buffers and the disk represent, with the blocks that the processes have
asked for. -/
def view (q : P → Option Word) (m : Bcache P) : Store Word P Memory where
  disk k := m.disk 1 k.toNat
  data k := look m.buf k (Buf.content (m.disk 1 k.toNat)) (m.disk 1 k.toNat)
  dirty k := look m.buf k Buf.dirty false
  holder k := look m.buf k Buf.lock none
  asked := q

/-- The block that a process in `bread` is going to get. -/
def asked (buf : Fin nbuf → Buf P) : Option (Stage × Fin nbuf) → Option Word
  | some (st, b) => if st.reads then some (buf b).blockno else none
  | none => none

/-- The store that the whole system represents. -/
def abs (s : System P) : Store Word P Memory :=
  view (fun p => asked s.cache.buf (s.pc p)) s.cache

section

variable {α : Type} {buf : Fin nbuf → Buf P} {b : Fin nbuf} {k : Word} {f : Buf P → α} {a : α}

theorem look_of_isFor (h : Blocks buf) (hroot : (buf b).dev = rootdev) :
    look buf (buf b).blockno f a = f (buf b) := by
  unfold look
  cases hfind : (List.finRange nbuf).find? fun c => (buf c).isFor rootdev (buf b).blockno with
  | some c =>
    obtain ⟨hdev, hblockno⟩ := isFor_iff.mp
      (List.find?_some (p := fun c => (buf c).isFor rootdev (buf b).blockno) hfind)
    rw [h.unique c b hdev hroot hblockno]
  | none =>
    have hmiss := List.find?_eq_none.mp hfind b (List.mem_finRange b)
    exact absurd (isFor_iff.mpr ⟨hroot, rfl⟩) hmiss

theorem look_of_miss (hmiss : ∀ c, (buf c).isFor rootdev k = false) : look buf k f a = a := by
  unfold look
  rw [List.find?_eq_none.mpr fun c _ => Bool.eq_false_iff.mp (hmiss c)]

/-- What the buffer for a block says after another buffer has changed. -/
theorem look_update_of_ne {x : Buf P} (hbefore : (buf b).isFor rootdev k = false)
    (hafter : x.isFor rootdev k = false) :
    look (Function.update buf b x) k f a = look buf k f a := by
  have hsame : (fun c => (Function.update buf b x c).isFor rootdev k) =
      fun c => (buf c).isFor rootdev k := by
    funext c
    by_cases hcb : c = b
    · rw [hcb, Function.update_self, hbefore, hafter]
    · rw [Function.update_of_ne hcb]
  unfold look
  rw [hsame]
  cases hfind : (List.finRange nbuf).find? fun c => (buf c).isFor rootdev k with
  | some c =>
    have hcb : c ≠ b := by
      rintro rfl
      have hfound := List.find?_some (p := fun c => (buf c).isFor rootdev k) hfind
      rw [hbefore] at hfound
      cases hfound
    dsimp only
    rw [Function.update_of_ne hcb]
  | none => rfl

/-- **A buffer changes**, and stays one for its block. -/
theorem look_update {x : Buf P} (h : Blocks buf) (hroot : (buf b).dev = rootdev)
    (hdev : x.dev = (buf b).dev) (hblockno : x.blockno = (buf b).blockno) (f : Word → Buf P → α)
    (a : Word → α) :
    (fun k => look (Function.update buf b x) k (f k) (a k)) =
      Function.update (fun k => look buf k (f k) (a k)) (buf b).blockno
        (f (buf b).blockno x) := by
  funext k
  by_cases hk : k = (buf b).blockno
  · subst hk
    have hfor := look_of_isFor (b := b) (f := f (buf b).blockno) (a := a (buf b).blockno)
      (h.set hroot hdev hblockno) (by rw [Function.update_self, hdev, hroot])
    rw [Function.update_self, hblockno] at hfor
    rw [Function.update_self, hfor]
  · have hne : ∀ y : Buf P, y.blockno = (buf b).blockno → y.isFor rootdev k = false := by
      intro y hy
      apply Bool.eq_false_iff.mpr
      intro hfor
      exact hk (hy ▸ (isFor_iff.mp hfor).2).symm
    rw [Function.update_of_ne hk, look_update_of_ne (hne _ rfl) (hne _ hblockno)]

end

section

variable {m : Bcache P} {b : Fin nbuf} {q : P → Option Word}

section

variable (h : Blocks m.buf) (hroot : (m.buf b).dev = rootdev)
include h hroot

theorem view_data :
    (view q m).data (m.buf b).blockno =
      (m.buf b).content (m.disk 1 (m.buf b).blockno.toNat) := look_of_isFor h hroot

theorem view_dirty :
    (view q m).dirty (m.buf b).blockno = (m.buf b).dirty := look_of_isFor h hroot

theorem view_holder :
    (view q m).holder (m.buf b).blockno = (m.buf b).lock := look_of_isFor h hroot

/-- What a change to a buffer is in the store. -/
theorem view_set {x : Buf P}
    (hdev : x.dev = (m.buf b).dev) (hblockno : x.blockno = (m.buf b).blockno) :
    view q (m.set b x) =
      { disk := (view q m).disk
        data := Function.update (view q m).data (m.buf b).blockno
          (x.content (m.disk 1 (m.buf b).blockno.toNat))
        dirty := Function.update (view q m).dirty (m.buf b).blockno x.dirty
        holder := Function.update (view q m).holder (m.buf b).blockno x.lock
        asked := q } := by
  apply Store.ext
  · rfl
  · exact look_update h hroot hdev hblockno (fun k => Buf.content (m.disk 1 k.toNat))
      fun k => m.disk 1 k.toNat
  · exact look_update h hroot hdev hblockno (fun _ => Buf.dirty) fun _ => false
  · exact look_update h hroot hdev hblockno (fun _ => Buf.lock) fun _ => none
  · rfl

theorem view_data_self :
    Function.update (view q m).data (m.buf b).blockno
      ((m.buf b).content (m.disk 1 (m.buf b).blockno.toNat)) = (view q m).data := by
  rw [← view_data h hroot, Function.update_eq_self]

theorem view_dirty_self :
    Function.update (view q m).dirty (m.buf b).blockno (m.buf b).dirty = (view q m).dirty := by
  rw [← view_dirty h hroot, Function.update_eq_self]

theorem view_holder_self :
    Function.update (view q m).holder (m.buf b).blockno (m.buf b).lock = (view q m).holder := by
  rw [← view_holder h hroot, Function.update_eq_self]

theorem view_setRefcnt (n : ℕ) :
    view q (m.set b { m.buf b with refcnt := n }) = view q m :=
  (view_set h hroot (x := { m.buf b with refcnt := n }) rfl rfl).trans
    (Store.ext rfl (view_data_self h hroot) (view_dirty_self h hroot) (view_holder_self h hroot) rfl)

theorem view_setLock (o : Option P) :
    view q (m.set b { m.buf b with lock := o }) =
      { view q m with holder := Function.update (view q m).holder (m.buf b).blockno o } :=
  (view_set h hroot (x := { m.buf b with lock := o }) rfl rfl).trans
    (Store.ext rfl (view_data_self h hroot) (view_dirty_self h hroot) rfl rfl)

theorem view_setDirty (dirty : Bool) :
    view q (m.set b { m.buf b with dirty := dirty }) =
      { view q m with dirty := Function.update (view q m).dirty (m.buf b).blockno dirty } :=
  (view_set h hroot (x := { m.buf b with dirty := dirty }) rfl rfl).trans
    (Store.ext rfl (view_data_self h hroot) rfl (view_holder_self h hroot) rfl)

theorem view_setData (hvalid : (m.buf b).valid = true) (data : Memory) :
    view q (m.set b { m.buf b with data := data }) =
      { view q m with data := Function.update (view q m).data (m.buf b).blockno data } := by
  refine (view_set h hroot (x := { m.buf b with data := data }) rfl rfl).trans
    (Store.ext rfl ?_ (view_dirty_self h hroot) (view_holder_self h hroot) rfl)
  rw [Buf.content, if_pos hvalid]

/-- A request is done: the buffer has what is on disk, and is clean. -/
theorem view_served {port : Memory}
    (hserved : ((m.buf b).served port).data = m.disk 1 (m.buf b).blockno.toNat)
    (hcontent : (view q m).data (m.buf b).blockno = m.disk 1 (m.buf b).blockno.toNat) :
    view q (m.set b ((m.buf b).served port)) =
      { view q m with dirty := Function.update (view q m).dirty (m.buf b).blockno false } := by
  refine (view_set h hroot (x := (m.buf b).served port) rfl rfl).trans
    (Store.ext rfl ?_ rfl (view_holder_self h hroot) rfl)
  have hx : ((m.buf b).served port).content (m.disk 1 (m.buf b).blockno.toNat) =
      (view q m).data (m.buf b).blockno := by
    rw [hcontent, ← hserved]
    rfl
  rw [hx, Function.update_eq_self]

end

/-- What the buffers say after one of them has been taken over for a block that had none. -/
theorem look_take {α : Type} {f : Buf P → α} {a : α} {k : Word} {buf : Fin nbuf → Buf P}
    (h : Blocks buf) {x : Buf P} (hdev : x.dev = rootdev) (hsmall : x.blockno.toNat < fssize)
    (hmiss : ∀ c, (buf c).isFor rootdev x.blockno = false) (hx : f x = a) :
    look (Function.update buf b x) k f a =
      if (buf b).isFor rootdev k then a else look buf k f a := by
  have hblocks : Blocks (Function.update buf b x) := by
    apply h.take hdev hsmall
    intro c hc heq
    have hfor := isFor_iff.mpr ⟨hc, heq⟩
    rw [hmiss c] at hfor
    cases hfor
  by_cases hk : x.blockno = k
  · subst hk
    have hlook := look_of_isFor (b := b) (f := f) (a := a) hblocks
      (by rw [Function.update_self, hdev])
    rw [Function.update_self] at hlook
    rw [hlook, hx, look_of_miss hmiss, ite_self]
  · have hxk : x.isFor rootdev k = false :=
      Bool.eq_false_iff.mpr fun hfor => hk (isFor_iff.mp hfor).2
    split_ifs with hfor
    · -- nobody else has the block that is dropped
      apply look_of_miss
      intro c
      by_cases hcb : c = b
      · rw [hcb, Function.update_self]
        exact hxk
      · rw [Function.update_of_ne hcb]
        apply Bool.eq_false_iff.mpr
        intro hc
        obtain ⟨hbdev, hbno⟩ := isFor_iff.mp hfor
        obtain ⟨hcdev, hcno⟩ := isFor_iff.mp hc
        exact hcb (h.unique c b hcdev hbdev (hcno.trans hbno.symm))
    · exact look_update_of_ne (Bool.eq_false_iff.mpr hfor) hxk

/-- Taking over a clean buffer that nobody holds drops its block from the cache, if it was
one for a block of the file system. -/
theorem view_take (h : Blocks m.buf) {blockno : Word} (hsmall : blockno.toNat < fssize)
    (hmiss : ∀ c, (m.buf c).isFor rootdev blockno = false) (hdirty : (m.buf b).dirty = false)
    (hlock : (m.buf b).lock = none) {x : Buf P} (hx : x = { m.buf b with
      dev := rootdev, blockno := blockno, valid := false, dirty := false, refcnt := 1 }) :
    view q (m.set b x) = view q m ∨
    ∃ k, (view q m).holder k = none ∧ (view q m).dirty k = false ∧
      view q (m.set b x) =
        { view q m with data := Function.update (view q m).data k ((view q m).disk k) } := by
  have hdata : ∀ k, (view q (m.set b x)).data k =
      if (m.buf b).isFor rootdev k then m.disk 1 k.toNat else (view q m).data k := by
    subst hx
    exact fun k => look_take h rfl hsmall hmiss rfl
  have hdirty' : ∀ k, (view q (m.set b x)).dirty k =
      if (m.buf b).isFor rootdev k then false else (view q m).dirty k := by
    subst hx
    exact fun k => look_take h rfl hsmall hmiss rfl
  have hholder : ∀ k, (view q (m.set b x)).holder k =
      if (m.buf b).isFor rootdev k then none else (view q m).holder k := by
    subst hx
    exact fun k => look_take h rfl hsmall hmiss hlock
  by_cases hroot : (m.buf b).dev = rootdev
  · have hkeep : ∀ {k : Word}, (m.buf b).isFor rootdev k = true → k = (m.buf b).blockno :=
      fun hfor => (isFor_iff.mp hfor).2.symm
    refine .inr ⟨(m.buf b).blockno, (view_holder h hroot).trans hlock,
      (view_dirty h hroot).trans hdirty, ?_⟩
    apply Store.ext
    · rfl
    · funext k
      rw [hdata k]
      dsimp only
      split_ifs with hfor
      · rw [hkeep hfor, Function.update_self]
        rfl
      · rw [Function.update_of_ne]
        rintro rfl
        exact hfor (isFor_iff.mpr ⟨hroot, rfl⟩)
    · funext k
      rw [hdirty' k]
      split_ifs with hfor
      · rw [hkeep hfor]
        exact ((view_dirty (q := q) h hroot).trans hdirty).symm
      · rfl
    · funext k
      rw [hholder k]
      split_ifs with hfor
      · rw [hkeep hfor]
        exact ((view_holder (q := q) h hroot).trans hlock).symm
      · rfl
    · rfl
  · have hfor : ∀ k, ¬ (m.buf b).isFor rootdev k = true :=
      fun k hfor => hroot (isFor_iff.mp hfor).1
    left
    apply Store.ext
    · rfl
    · funext k
      rw [hdata k, if_neg (hfor k)]
    · funext k
      rw [hdirty' k, if_neg (hfor k)]
    · funext k
      rw [hholder k, if_neg (hfor k)]
    · rfl

/-- The disk writes what is in a buffer. -/
theorem view_flush (h : Blocks m.buf) (hroot : (m.buf b).dev = rootdev)
    (hvalid : (m.buf b).valid = true) {ide : Ide} :
    view q { m with
      ide := ide
      disk := Function.update m.disk 1
        (Function.update (m.disk 1) (m.buf b).blockno.toNat (m.buf b).data) } =
      { view q m with
        disk := Function.update (view q m).disk (m.buf b).blockno
          ((view q m).data (m.buf b).blockno) } := by
  have hdisk : ∀ k : Word, Function.update (m.disk 1) (m.buf b).blockno.toNat (m.buf b).data k.toNat =
      if k = (m.buf b).blockno then (m.buf b).data else m.disk 1 k.toNat := by
    intro k
    split_ifs with hk
    · rw [hk, Function.update_self]
    · rw [Function.update_of_ne]
      exact fun heq => hk (BitVec.eq_of_toNat_eq heq)
  have hdata : (view q m).data (m.buf b).blockno = (m.buf b).data := by
    rw [view_data h hroot, Buf.content, if_pos hvalid]
  apply Store.ext
  · funext k
    dsimp only [view]
    rw [Function.update_self, hdisk k, ← hdata, Function.update_apply]
    rfl
  · funext k
    dsimp only [view]
    rw [Function.update_self, hdisk k]
    split_ifs with hk
    · rw [hk, look_of_isFor h hroot, look_of_isFor h hroot, Buf.content, Buf.content,
        if_pos hvalid, if_pos hvalid]
    · rfl
  · rfl
  · rfl
  · rfl

end

/-! ## What the processes have asked for -/

section

variable {buf buf' : Fin nbuf → Buf P} {pc : P → Option (Stage × Fin nbuf)} {p : P}
  {o : Option (Stage × Fin nbuf)}

/-- No buffer becomes one for another block. -/
theorem asked_congr (h : ∀ c, (buf' c).blockno = (buf c).blockno) : asked buf' o = asked buf o := by
  unfold asked
  cases o with
  | none => rfl
  | some a =>
    dsimp only
    rw [h a.2]

theorem blockno_set {m : Bcache P} {b : Fin nbuf} {x : Buf P} (hx : x.blockno = (m.buf b).blockno)
    (c : Fin nbuf) : ((m.set b x).buf c).blockno = (m.buf c).blockno := by
  unfold Bcache.set
  dsimp only
  by_cases hcb : c = b
  · rw [hcb, Function.update_self]
    exact hx
  · rw [Function.update_of_ne hcb]

variable [DecidableEq P]

/-- A process goes on with its call, and the buffers of the others stay what they are. -/
theorem asked_update (h : ∀ p' ≠ p, asked buf' (pc p') = asked buf (pc p')) :
    (fun p' => asked buf' (Function.update pc p o p')) =
      Function.update (fun p' => asked buf (pc p')) p (asked buf' o) := by
  funext p'
  by_cases hp : p' = p
  · rw [hp, Function.update_self, Function.update_self]
  · rw [Function.update_of_ne hp, Function.update_of_ne hp]
    exact h p' hp

/-- A process goes on with its call, for the same block. -/
theorem asked_same (h : ∀ c, (buf' c).blockno = (buf c).blockno)
    (ho : asked buf o = asked buf (pc p)) :
    (fun p' => asked buf' (Function.update pc p o p')) = fun p' => asked buf (pc p') := by
  rw [asked_update fun p' _ => asked_congr h, asked_congr h, ho]
  exact Function.update_eq_self p fun p' => asked buf (pc p')

end

/-! ## Every step is one of the store -/

section

variable [Fintype P] [DecidableEq P] {s s' : System P} {e : Event Word P Memory} {b : Fin nbuf}
  {p : P}

omit [Fintype P] in
/-- A step of the store, with what the processes have asked for after it. -/
theorem step_of_view {q : P → Option Word} {t : Store Word P Memory} (hasked : (abs s').asked = q)
    (hview : view q s'.cache = t) (hstep : BlockStore.Step (abs s) e t) :
    BlockStore.Step (abs s) e (abs s') := by
  subst hasked hview
  exact hstep

/-- A process asks for a block: it is there, or an unused buffer is taken over. -/
theorem Inv.request (h : Inv s) (hpc : s.pc p = none) {blockno : Word} {m : Bcache P}
    (hblock : blockno.toNat < fssize) (hrun : bget rootdev blockno s.cache = .ok (m, b)) :
    BlockStore.Step (abs s) (.request p blockno)
      (abs ⟨m, Function.update s.pc p (some (.locking, b))⟩) := by
  obtain ⟨l, hlist, hall⟩ := h.order
  have hidle : (abs s).asked p = none := by
    show asked s.cache.buf (s.pc p) = none
    rw [hpc]
    rfl
  rcases bget_cases rootdev blockno hlist hall with
    ⟨b', hfor, hrun'⟩ | ⟨hmiss, b', hunused, hrun'⟩ | ⟨-, -, hrun'⟩
  · rw [hrun] at hrun'
    cases hrun'
    obtain ⟨hroot, hblockno⟩ := isFor_iff.mp hfor
    have hsame := blockno_set (m := s.cache) (b := b)
      (x := { s.cache.buf b with refcnt := (s.cache.buf b).refcnt + 1 }) rfl
    refine step_of_view (q := Function.update (abs s).asked p (some blockno)) ?_
      (view_setRefcnt h.blocks hroot _) (.request hidle)
    have hmine : asked s.cache.buf (some (Stage.locking, b)) = some blockno := by
      rw [← hblockno]
      rfl
    rw [← hmine, ← asked_congr hsame]
    exact asked_update fun p' _ => asked_congr hsame
  · rw [hrun] at hrun'
    cases hrun'
    obtain ⟨hrefs, hdirty⟩ := unused_iff.mp hunused
    -- no process is in a call about the buffer
    have hothers : ∀ p' ≠ p, asked (s.cache.set b { s.cache.buf b with
        dev := rootdev, blockno := blockno, valid := false, dirty := false, refcnt := 1 }).buf
        (s.pc p') = asked s.cache.buf (s.pc p') := by
      intro p' _
      unfold asked
      cases hpc' : s.pc p' with
      | none => rfl
      | some a =>
        have hne : a.2 ≠ b := by
          rintro rfl
          exact h.not_about_unused hrefs hpc'
        unfold Bcache.set
        dsimp only
        rw [Function.update_of_ne hne]
    have hasked := asked_update (o := some (Stage.locking, b)) hothers
    have hmine : asked (s.cache.set b { s.cache.buf b with
        dev := rootdev, blockno := blockno, valid := false, dirty := false, refcnt := 1 }).buf
        (some (Stage.locking, b)) = some blockno := by
      unfold asked Bcache.set
      dsimp only
      rw [Function.update_self]
      rfl
    rw [hmine] at hasked
    rcases view_take (q := Function.update (abs s).asked p (some blockno)) h.blocks hblock hmiss
      hdirty (h.lock_of_unused hrefs) rfl with hview | ⟨k, hfree, hclean, hview⟩
    · exact step_of_view hasked hview (.request hidle)
    · exact step_of_view hasked hview (.replace hidle hfree hclean)
  · rw [hrun] at hrun'
    cases hrun'

/-- A process returns from `bread` with the content of the block that it has asked for. -/
theorem Inv.read (h : Inv s) {st : Stage} (hpc : s.pc p = some (st, b)) (hst : st.reads = true)
    (hlock : (s.cache.buf b).lock = some p) (hvalid : (s.cache.buf b).valid = true) :
    BlockStore.Step (abs s) (.read p (s.cache.buf b).blockno (s.cache.buf b).data)
      (abs ⟨s.cache, Function.update s.pc p none⟩) := by
  have hroot := h.dev_of_lock hlock
  refine step_of_view (asked_update fun _ _ => rfl) rfl (.read ?_ ?_ ?_)
  · show asked s.cache.buf (s.pc p) = _
    rw [hpc]
    exact if_pos hst
  · exact (view_holder h.blocks hroot).trans hlock
  · refine ((view_data h.blocks hroot).trans ?_).symm
    rw [Buf.content, if_pos hvalid]

/-- Setting `B_DIRTY` pins a block, and the process waits for no other. -/
theorem Inv.pin (h : Inv s) (hpc : s.pc p = none) (hlock : (s.cache.buf b).lock = some p)
    {m : Bcache P} {o : Option (Stage × Fin nbuf)} (ho : asked s.cache.buf o = none)
    (hbuf : m.buf = (s.cache.set b { s.cache.buf b with dirty := true }).buf)
    (hdisk : m.disk = s.cache.disk) :
    BlockStore.Step (abs s) (.pin p (s.cache.buf b).blockno)
      (abs ⟨m, Function.update s.pc p o⟩) := by
  have hroot := h.dev_of_lock hlock
  have hsame := blockno_set (m := s.cache) (b := b) (x := { s.cache.buf b with dirty := true }) rfl
  refine step_of_view (q := (abs s).asked) ?_ ?_ (.pin ((view_holder h.blocks hroot).trans hlock))
  · refine asked_same (fun c => by rw [hbuf]; exact hsame c) ?_
    rw [ho, hpc]
    rfl
  · refine Eq.trans ?_ (view_setDirty h.blocks hroot true)
    unfold view
    rw [hbuf, hdisk]
    rfl

omit [DecidableEq P] in
/-- At the interrupt the head of the queue has what is on disk. -/
theorem Inv.served (h : Inv s) {port : Memory} {queue : List (Fin nbuf)}
    (hq : s.cache.idequeue = b :: queue) (hroot : (s.cache.buf b).dev = rootdev)
    (hserved : ((s.cache.buf b).served port).data = s.cache.disk 1 (s.cache.buf b).blockno.toNat) :
    (abs s).data (s.cache.buf b).blockno =
      s.cache.disk 1 (s.cache.buf b).blockno.toNat := by
  refine (view_data h.blocks hroot).trans ?_
  rw [Buf.content]
  have hsynced := (h.queued b (hq ▸ List.mem_cons_self)).1
  unfold Buf.served at hserved
  split_ifs with hvalid
  · -- it was written
    rw [synced, hvalid, Bool.true_and, Bool.not_eq_false'] at hsynced
    rw [if_pos hsynced] at hserved
    exact hserved
  · rfl

/-- **Every step of the cache is a step of the store.** -/
theorem Inv.simulates (h : Inv s) (hstep : Step s e s') :
    BlockStore.Step (abs s) e (abs s') := by
  cases hstep with
  | bget hpc hblock hrun => exact h.request hpc hblock hrun
  | @acquire p b x hpc hrun =>
    obtain ⟨hlock, rfl⟩ := acquiresleep_eq_some.mp hrun
    have hroot := h.dev_of_counted hpc rfl
    have hasked : asked s.cache.buf (s.pc p) = some (s.cache.buf b).blockno := by
      rw [hpc]
      rfl
    exact step_of_view (asked_same (blockno_set rfl) hasked.symm)
      (view_setLock h.blocks hroot _) (.lock hasked ((view_holder h.blocks hroot).trans hlock))
  | hit hpc hvalid => exact h.read hpc rfl (h.holds _ _ _ hpc rfl) hvalid
  | @miss p b m hpc hvalid hrun =>
    obtain ⟨hrun', -⟩ := h.fetch hpc hvalid
    rw [hrun] at hrun'
    cases hrun'
    refine step_of_view (asked_same (fun _ => rfl) ?_) rfl .stay
    rw [hpc]
    rfl
  | fetched hpc hsynced =>
    exact h.read hpc rfl (h.holds _ _ _ hpc rfl) (valid_of_synced hsynced)
  | modify hpc hheld =>
    have hlock := holdingsleep_iff.mp hheld
    have hroot := h.dev_of_lock hlock
    exact step_of_view (funext fun _ => asked_congr (blockno_set rfl))
      (view_setData h.blocks hroot (h.valid_of_idle hpc hlock) _)
      (.write ((view_holder h.blocks hroot).trans hlock))
  | @logWrite p b hpc hheld =>
    have hpin := h.pin hpc (holdingsleep_iff.mp hheld) (o := none) rfl rfl rfl
    rw [← hpc, Function.update_eq_self] at hpin
    exact hpin
  | bwrite hpc hrun =>
    have hlock := lock_of_bwrite hrun
    obtain ⟨hrun', -⟩ := h.bwrite hpc hlock
    rw [hrun] at hrun'
    cases hrun'
    exact h.pin hpc hlock rfl rfl rfl
  | written hpc hsynced =>
    have hlock := h.holds _ _ _ hpc rfl
    have hroot := h.dev_of_lock hlock
    rcases h.waiting _ _ _ hpc rfl with hqueue | ⟨-, hdata⟩
    · exact absurd hqueue (h.not_queued_of_synced hsynced)
    refine step_of_view (asked_same (fun _ => rfl) ?_) rfl (.sync ?_ ?_)
    · rw [hpc]
      rfl
    · exact (view_holder h.blocks hroot).trans hlock
    · refine (view_data h.blocks hroot).trans ?_
      rw [Buf.content, if_pos (valid_of_synced hsynced)]
      exact hdata
  | brelse hpc hrun =>
    obtain ⟨hlock, rfl⟩ := brelse_eq_ok.mp hrun
    have hroot := h.dev_of_lock hlock
    refine step_of_view (asked_same (blockno_set rfl) ?_) (view_setLock h.blocks hroot none)
      (.unlock ((view_holder h.blocks hroot).trans hlock))
    rw [hpc]
    rfl
  | @released p b hpc =>
    have hroot := h.dev_of_counted hpc rfl
    have hsame := blockno_set (m := s.cache) (b := b)
      (x := { s.cache.buf b with refcnt := (s.cache.buf b).refcnt - 1 }) rfl
    have hnone : asked s.cache.buf none = asked s.cache.buf (s.pc p) := by
      rw [hpc]
      rfl
    unfold brelseLocked
    dsimp only
    split_ifs <;>
      exact step_of_view (asked_same hsame hnone) (view_setRefcnt h.blocks hroot _) .stay
  | diskRead hide =>
    rw [complete_read hide]
    exact .stay
  | diskWrite hide =>
    obtain ⟨b, queue, hq, hroot, hcommand⟩ := h.busy hide
    by_cases hdirty : (s.cache.buf b).dirty = true
    · rw [if_pos hdirty] at hcommand
      cases hcommand
      rw [complete_write hide, BitVec.ofNat_toNat, BitVec.setWidth_eq]
      exact step_of_view rfl (view_flush h.blocks hroot (h.dirty b hdirty))
        (.flush ((view_dirty h.blocks hroot).trans hdirty))
    · rw [if_neg hdirty] at hcommand
      cases hcommand
  | intr hide hrun =>
    obtain ⟨b, queue, hq, hroot, hserved, hrun'⟩ := h.intr_run hide
    rw [hrun] at hrun'
    cases hrun'
    have hdata := h.served hq hroot hserved
    exact step_of_view (funext fun _ => asked_congr (blockno_set rfl))
      (view_served h.blocks hroot hserved hdata) (.clean hdata)

omit [Fintype P] [DecidableEq P] in
theorem abs_boot (disk : Word → ℕ → Memory) :
    abs (System.boot disk : System P) = Store.initial fun k => disk 1 k.toNat := by
  have hmiss : ∀ k c, ((System.boot disk : System P).cache.buf c).isFor rootdev k = false := by
    intro k c
    apply Bool.eq_false_iff.mpr
    intro hfor
    have hdev : (0 : Word) = rootdev := (isFor_iff.mp hfor).1
    revert hdev
    decide
  apply Store.ext
  · rfl
  · funext k
    exact look_of_miss (f := Buf.content (disk 1 k.toNat)) (hmiss k)
  · funext k
    exact look_of_miss (f := Buf.dirty) (hmiss k)
  · funext k
    exact look_of_miss (f := Buf.lock) (hmiss k)
  · rfl

variable {path : List (Event Word P Memory × System P)} {disk : Word → ℕ → Memory}

/-- A run of the cache, as a run of the store. -/
theorem path_abs (h : Transitions.Path Step (System.boot disk) path) :
    Transitions.Path BlockStore.Step (Store.initial fun k => disk 1 k.toNat)
      (path.map fun t => (t.1, abs t.2)) := by
  rw [← abs_boot]
  exact h.map (I := Inv) (f := abs) (fun _ _ _ hInv hstep => hInv.step hstep)
    (fun _ _ _ hInv hstep => hInv.simulates hstep) (Inv.boot disk)

/-- What the store knows before a step, if the processes save what they write. -/
theorem coherent_before (h : Transitions.Path Step (System.boot disk) path)
    (hsaves : Saves (path.map Prod.fst)) {before : List (Event Word P Memory × System P)}
    {e : Event Word P Memory} {s : System P} {after : List (Event Word P Memory × System P)}
    (hpath : path = before ++ (e, s) :: after) :
    ∃ t, Coherent (fun k => disk 1 k.toNat) (before.map Prod.fst) t ∧
      BlockStore.Step t e (abs s) := by
  have hrun := path_abs h
  rw [hpath, List.map_append, List.map_cons] at hrun
  refine ⟨_, ?_, hrun.step⟩
  have hevents : ∀ l : List (Event Word P Memory × System P),
      (l.map fun t => (t.1, abs t.2)).map Prod.fst = l.map Prod.fst := by
    intro l
    rw [List.map_map]
    rfl
  have hcoherent := coherent_of_saves hrun ?_ _ _ rfl
  · rw [hevents] at hcoherent
    exact hcoherent
  · rw [hpath, ← hevents, List.map_append, List.map_cons] at hsaves
    exact hsaves

end

/-! ## Whole runs -/

variable [Fintype P] [DecidableEq P]

/-- **The cache is a store of blocks.**  Whatever processes and the disk do, in any order,
is what a store with one content for each block does; in it a process gets the block that it
asks for, a lock is held by one process at a time, a block that is not dirty may be dropped
from the cache, and a process that returns from `bwrite` finds the block on disk. -/
theorem cache_refines_store (disk : Word → ℕ → Memory)
    (path : List (Event Word P Memory × System P))
    (h : Transitions.Path Step (System.boot disk) path) :
    Transitions.Path BlockStore.Step (abs (System.boot disk : System P))
      (path.map fun t => (t.1, abs t.2)) ∧
    abs (System.boot disk : System P) = Store.initial fun k => disk 1 k.toNat := by
  refine ⟨?_, abs_boot disk⟩
  rw [abs_boot]
  exact path_abs h

/-- A run in which a block is read, changed, written and released. -/
theorem cache_refines_store_first_run :
    ∃ path : List (Event Word Unit Memory × System Unit), path.map Prod.fst = firstEvents ∧
      Transitions.Path BlockStore.Step (abs (System.boot sevens : System Unit))
        (path.map fun t => (t.1, abs t.2)) := by
  obtain ⟨path, hpath, hevents, -⟩ := exists_first_run
  exact ⟨path, hevents, (cache_refines_store sevens path hpath).1⟩

/-- **Processes read what was stored last.**  Let every process hand what it has changed to
`log_write` or `bwrite` before `brelse`.  Then `bread` returns the last content that any
process has stored in the block that was asked for, or else what was on disk, and when
`bwrite` returns this is what the disk has. -/
theorem bread_returns_last_store (disk : Word → ℕ → Memory)
    (path : List (Event Word P Memory × System P))
    (h : Transitions.Path Step (System.boot disk) path) (hsaves : Saves (path.map Prod.fst)) :
    (∀ before p k d s after, path = before ++ (.read p k d, s) :: after →
      lastRequest p (before.map Prod.fst) = some k ∧
      d = lastWrite k (disk 1 k.toNat) (before.map Prod.fst)) ∧
    ∀ before p k s after, path = before ++ (.sync p k, s) :: after →
      s.cache.disk 1 k.toNat = lastWrite k (disk 1 k.toNat) (before.map Prod.fst) := by
  constructor
  · intro before p k d s after hpath
    obtain ⟨t, hcoherent, hstep⟩ := coherent_before h hsaves hpath
    generalize abs s = t' at hstep
    cases hstep with
    | read hasked hheld hd => exact ⟨hcoherent.asked p k hasked, by rw [hd, hcoherent.data k]⟩
  · intro before p k s after hpath
    obtain ⟨t, hcoherent, hstep⟩ := coherent_before h hsaves hpath
    have hdisk : s.cache.disk 1 k.toNat = (abs s).disk k := rfl
    rw [hdisk]
    generalize abs s = t' at hstep
    cases hstep with
    | sync hheld hsame => rw [← hsame, hcoherent.data k]

/-- In the first run the process writes the block before it releases it. -/
theorem saves_firstEvents : Saves firstEvents := by
  intro before p k after h
  have hget : firstEvents[before.length]? = some (.unlock p k) := by
    rw [h, List.getElem?_append_right (le_refl _), Nat.sub_self, List.getElem?_cons_zero]
  have htake : before = firstEvents.take before.length := by
    rw [h, List.take_left']
    rfl
  have hlt : before.length < 13 := (List.getElem?_eq_some_iff.mp hget).1
  generalize before.length = i at hget htake hlt
  interval_cases i <;> simp [firstEvents] at hget
  rw [htake, ← hget]
  rfl

/-- In the first run `bread` returns what was on disk, and `bwrite` what was stored. -/
theorem bread_returns_last_store_first_run :
    ∃ path : List (Event Word Unit Memory × System Unit), path.map Prod.fst = firstEvents ∧
      Saves firstEvents ∧
      (∀ before p k d s after, path = before ++ (.read p k d, s) :: after →
        lastRequest p (before.map Prod.fst) = some k ∧
        d = lastWrite k (fun _ => 7) (before.map Prod.fst)) ∧
      ∀ before p k s after, path = before ++ (.sync p k, s) :: after →
        s.cache.disk 1 k.toNat = lastWrite k (fun _ => 7) (before.map Prod.fst) := by
  obtain ⟨path, hpath, hevents, -⟩ := exists_first_run
  exact ⟨path, hevents, saves_firstEvents,
    bread_returns_last_store sevens path hpath (hevents ▸ saves_firstEvents)⟩

end Xv6.Bio
