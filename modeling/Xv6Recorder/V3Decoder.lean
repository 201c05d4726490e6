/-
# The decoder on arbitrary files

What `sys_replay_start` makes of bytes that need not be a session file.  Three things
can happen on the way: the bytes are a whole record, they end the loop (an unused
record, a null type, or a type that the codec has no case for, which turns both modes
off), or the decoder stores outside an array and the model stops.

`ArgsShape`, `TakesRecord` and `Readable` say on which bytes the model does not stop,
level by level, and `Takes` that the decoder returns when such bytes are at the cursor.
With both modes on, the decoder does not get as far as the first record.
-/
import Xv6Recorder.V3RoundTrip

open Bytes StateError Xv6

namespace V3

/-! ## Neither mode -/

/-- The state with the cursor at `p`. -/
def Core.withPos (c : Core) (p : ℤ) : Core :=
  { c with session := { c.session with bufferPos := p } }

/-- The state that the error helper leaves. -/
structure Poisoned (c : Core) : Prop where
  replay : c.session.replaySyscalls = -1
  record : c.session.recordSyscalls = -1
  killed : c.killed = true

theorem poisoned_recRepErr (c : Core) : Poisoned (recRepErr c) := ⟨rfl, rfl, rfl⟩

variable {c : Core} {l : List Byte}

theorem Poisoned.withPos (h : Poisoned c) (p : ℤ) : Poisoned (c.withPos p) :=
  ⟨h.replay, h.record, h.killed⟩

theorem Poisoned.replay_ne (h : Poisoned c) : c.session.replaySyscalls ≠ 1 := by
  rw [h.replay]
  decide

theorem Poisoned.record_ne (h : Poisoned c) : c.session.recordSyscalls ≠ 1 := by
  rw [h.record]
  decide

/-- Calling the error helper again changes nothing. -/
theorem Poisoned.recRepErr_eq (h : Poisoned c) : recRepErr c = c := by
  obtain ⟨⟨record, replay⟩, killed⟩ := c
  obtain ⟨hreplay, hrecord, hkilled⟩ := h
  dsimp only at hreplay hrecord hkilled
  subst hreplay hrecord hkilled
  rfl

/-- After the error helper, `x` returns `a` and moves nothing but the cursor. -/
def Idles {α : Type} (x : RecM α) (a : α) : Prop :=
  ∀ c, Poisoned c → ∃ p, x.run c = .ok a (c.withPos p)

/-- After the error helper, `x` returns `a` and moves the cursor by `d`. -/
def IdlesBy {α : Type} (x : RecM α) (a : α) (d : ℤ) : Prop :=
  ∀ c, Poisoned c → x.run c = .ok a (c.withPos (c.session.bufferPos + d))

section

variable {α β : Type}

variable {x : RecM α} {a : α}

theorem IdlesBy.idles {d : ℤ} (h : IdlesBy x a d) : Idles x a :=
  fun c hc => ⟨_, h c hc⟩

theorem IdlesBy.pure (a : α) : IdlesBy (Pure.pure a : RecM α) a 0 := by
  intro c _
  rw [Int.add_zero]
  rfl

theorem IdlesBy.bind {f : α → RecM β} {b : β} {d e : ℤ} (hx : IdlesBy x a d)
    (hf : IdlesBy (f a) b e) : IdlesBy (x >>= f) b (d + e) := by
  intro c hc
  rw [run_bind_of_ok (hx c hc), hf _ (hc.withPos _), ← Int.add_assoc]
  rfl

/-- A program whose last step moves nothing. -/
theorem IdlesBy.map {f : α → β} {d : ℤ} (hx : IdlesBy x a d) :
    IdlesBy (x >>= fun a => Pure.pure (f a)) (f a) d := by
  have h : IdlesBy (x >>= fun a => Pure.pure (f a)) (f a) (d + 0) := hx.bind (.pure (f a))
  rwa [Int.add_zero] at h

theorem IdlesBy.get_bind {f : Core → RecM α} {y : RecM α} {d : ℤ} (hf : ∀ c, Poisoned c → f c = y)
    (hy : IdlesBy y a d) : IdlesBy (get >>= f) a d := by
  intro c hc
  rw [EStateM.run_bind, EStateM.run_get]
  simp only [hf c hc]
  exact hy c hc

end

/-- The bytes of the value of an argument, as the switch on its type counts them. -/
def Arg.span (arg : Arg) : ℤ :=
  if arg.type = intType then 4
  else if arg.type = uintType then 4
  else if arg.type = byteType then 4 + arg.val.rawSize.toInt
  else if arg.type = statType then 16
  else 0

/-- Argument `j` of a record, or what lies behind its array. -/
def SCR.argOrBehind (scr : SCR) (behind : ℕ → Arg) (j : ℕ) : Arg :=
  if h : j < maxArgc then scr.args ⟨j, h⟩ else behind j

/-- The bytes of `remaining` arguments from index `j` on, with their types. -/
def SCR.spanArgs (scr : SCR) (behind : ℕ → Arg) : (remaining j : ℕ) → ℤ
  | 0, _ => 0
  | remaining + 1, j => 1 + (scr.argOrBehind behind j).span + scr.spanArgs behind remaining (j + 1)

/-- The bytes of a record. -/
def SCR.span (scr : SCR) (behind : ℕ → Arg) : ℤ := 2 + scr.spanArgs behind scr.argc.toNat 0

theorem idlesBy_memmove (obj : Memory) (cap : ℕ) (size : Word) :
    IdlesBy (memmoveAndIncrement obj cap size) obj size.toInt := by
  intro c hc
  simp only [EStateM.run, memmoveAndIncrement, hc.replay_ne, hc.record_ne, or_self, false_and,
    if_false]
  rfl

theorem idlesBy_transferByte (b : Byte) : IdlesBy (transferByte b) b 1 :=
  (idlesBy_memmove (fun _ => b) 1 1).map

theorem idlesBy_transferVal (off cap : ℕ) (size : Word) (v : Val) :
    IdlesBy (transferVal off cap size v) v size.toInt := by
  have h := (idlesBy_memmove (fun k => v (off + k)) cap size).map
    (f := fun obj => overlay v off (slice obj 0 size.toNat))
  rw [slice_shift, overlay_slice_self] at h
  exact h

theorem idlesBy_transformVal (arg : Arg) : IdlesBy (transformVal arg) arg arg.span := by
  have hmove := idlesBy_transferVal
  unfold transformVal Arg.span
  split_ifs
  · exact (hmove 0 4 4 arg.val).map
  · exact (hmove 0 4 4 arg.val).map
  · refine (hmove 0 4 4 arg.val).bind ?_
    exact (hmove 4 maxRawSize arg.val.rawSize arg.val).map
  · refine (hmove 0 2 2 arg.val).bind (e := 4 + (4 + (2 + 4))) ?_
    refine (hmove 4 4 4 arg.val).bind ((hmove 8 4 4 arg.val).bind ?_)
    exact (hmove 12 2 2 arg.val).bind (hmove 16 4 4 arg.val).map
  · intro c hc
    rw [EStateM.run_bind, EStateM.run_modify, Int.add_zero]
    simp only [hc.recRepErr_eq]
    rfl

theorem idlesBy_transformArg (arg : Arg) : IdlesBy (transformArg arg) (true, arg) (1 + arg.span) := by
  refine .get_bind (fun c hc => if_neg fun h => hc.record_ne h.1) ?_
  refine (idlesBy_transferByte arg.type).bind ?_
  refine .get_bind (fun c hc => if_neg fun h => hc.replay_ne h.1) ?_
  exact (idlesBy_transformVal arg).map

theorem idlesBy_transformArgs (behind : ℕ → Arg) (remaining i : ℕ) (scr : SCR) :
    IdlesBy (transformArgs behind remaining i scr) (1, scr) (scr.spanArgs behind remaining i) := by
  induction remaining generalizing i with
  | zero => exact .pure _
  | succ remaining ih =>
    rw [transformArgs, SCR.spanArgs, SCR.argOrBehind]
    split
    case isTrue hi =>
      refine (idlesBy_transformArg _).bind ?_
      simp only [if_true, Function.update_eq_self]
      exact ih (i + 1)
    case isFalse hi =>
      refine .get_bind (fun c hc => if_neg hc.replay_ne) ?_
      refine (idlesBy_transformArg _).bind ?_
      simp only [if_true]
      exact ih (i + 1)

theorem idlesBy_transformSCR (behind : ℕ → Arg) (scr : SCR) :
    IdlesBy (transformSCR behind scr) (1, scr) (scr.span behind) := by
  rw [SCR.span, show (2 : ℤ) = 1 + 1 from rfl, Int.add_assoc]
  refine .get_bind (fun c hc => if_neg fun h => hc.record_ne h.1) ?_
  refine (idlesBy_transferByte scr.syscall).bind ?_
  refine .get_bind (fun c hc => if_neg fun h => hc.replay_ne h.1) ?_
  exact (idlesBy_transferByte scr.argc).bind (idlesBy_transformArgs behind _ _ _)

/-- One pass of the record loop after the error helper: it goes on, unless the cursor
has left the buffer. -/
theorem bidirectionalTransform_idle (hc : Poisoned c) (i : ℕ) (fileSize : ℤ) :
    (bidirectionalTransform i fileSize).run c =
      if (maxFileSize : ℤ) < c.session.bufferPos then .ok (-1) c
      else .ok 1 (c.withPos (c.session.bufferPos
        + (c.session.recordedScrs i).span (c.session.behindArgs i))) := by
  have hscr := idlesBy_transformSCR (c.session.behindArgs i) (c.session.recordedScrs i) c hc
  unfold bidirectionalTransform
  rw [EStateM.run_bind, EStateM.run_get]
  simp only [hc.replay_ne, false_and, if_false]
  by_cases hpos : (maxFileSize : ℤ) < c.session.bufferPos
  · rw [if_pos hpos, if_pos hpos]
    rfl
  rw [if_neg hpos, if_neg hpos]
  split
  · rw [run_bind_of_ok hscr]
    simp only [EStateM.run_bind, EStateM.run_modify, EStateM.run_pure, Core.withPos,
      Function.update_eq_self]
  · rw [run_bind_of_ok hscr]
    rfl

/-- The cursor passes the end of the buffer before one of `remaining` records from index `i`
on, when it only counts the records that are in memory. -/
def Overruns (scrs : ℤ → SCR) (behind : ℤ → ℕ → Arg) : (remaining i : ℕ) → (pos : ℤ) → Prop
  | 0, _, _ => False
  | remaining + 1, i, pos =>
    (maxFileSize : ℤ) < pos ∨
      Overruns scrs behind remaining (i + 1) (pos + (scrs i).span (behind i))

/-- **After the error helper** the record loop returns, with the log as it was. -/
theorem transformLoop_idle (hc : Poisoned c) (fileSize : ℤ) (remaining i : ℕ) :
    ∃ ok p, (transformLoop fileSize remaining i).run c = .ok ok (c.withPos p) ∧
      (ok = false ↔ Overruns c.session.recordedScrs c.session.behindArgs remaining i
        c.session.bufferPos) := by
  induction remaining generalizing c i with
  | zero => exact ⟨true, c.session.bufferPos, rfl, by simp [Overruns]⟩
  | succ remaining ih =>
    have hpass := bidirectionalTransform_idle hc i fileSize
    rw [transformLoop, Overruns]
    by_cases hpos : (maxFileSize : ℤ) < c.session.bufferPos
    · rw [if_pos hpos] at hpass
      rw [run_bind_of_ok hpass]
      exact ⟨false, c.session.bufferPos, rfl, by simp [hpos]⟩
    · rw [if_neg hpos] at hpass
      obtain ⟨ok, p, hrun, hiff⟩ := ih (hc.withPos _) (i + 1)
      refine ⟨ok, p, (run_bind_of_ok hpass).trans hrun, hiff.trans ?_⟩
      rw [or_iff_right hpos]
      rfl

/-! ## The bytes that the decoder takes -/

/-- How the decoder comes to the end of the arguments or of a record: it goes on with
the next one, stops at an unused record, rejects a null type, or meets a type that it
has no case for, which turns both modes off. -/
inductive Outcome where
  | next
  | stop
  | reject
  | unknown
deriving DecidableEq

/-- What `bidirectionalTransform` returns. -/
def Outcome.status : Outcome → ℤ
  | .next => 1
  | .stop => 0
  | .reject => -1
  | .unknown => 1

/-- The state after `n` bytes have been taken.  Where the cursor ends up after an
unknown type does not matter. -/
def Outcome.Leaves (o : Outcome) (c : Core) (n : ℕ) (c' : Core) : Prop :=
  match o with
  | .unknown => ∃ p, c' = (recRepErr (c.advance n)).withPos p
  | _ => c' = c.advance n

/-- The bytes taken for `remaining` arguments from index `i` on. -/
inductive ArgsShape : (remaining i : ℕ) → List Byte → Outcome → Prop
  | done {i : ℕ} : ArgsShape 0 i [] .next
  | value {remaining i : ℕ} {l : List Byte} {o : Outcome} {v : FieldValue} (hv : v.WellFormed)
      (hi : i < maxArgc) (hrest : ArgsShape remaining (i + 1) l o) :
      ArgsShape (remaining + 1) i (v.encode ++ l) o
  | null {remaining i : ℕ} (hi : i < maxArgc) : ArgsShape (remaining + 1) i [noneType] .reject
  | unknown {remaining i : ℕ} {tag : Byte}
      (htag : tag ∉ [noneType, intType, uintType, byteType, statType]) (hi : i < maxArgc) :
      ArgsShape (remaining + 1) i [tag] .unknown

/-- The bytes taken for one record. -/
inductive TakesRecord : List Byte → Outcome → Prop
  | unused : TakesRecord [unitializedScr] .stop
  | used {syscall argc : Byte} {l : List Byte} {o : Outcome} (hsyscall : syscall ≠ unitializedScr)
      (hargs : ArgsShape argc.toNat 0 l o) : TakesRecord (syscall :: argc :: l) o

/-- Bytes from which the records from index `k` up to `count` can be decoded: whole
records up to the last, or up to one at which the decoder stops, at no index beyond
the log.  What follows does not matter. -/
inductive Readable (count : ℕ) : ℕ → List Byte → Prop
  | done {k : ℕ} {rest : List Byte} (hk : count ≤ k) : Readable count k rest
  | next {k : ℕ} {l rest : List Byte} (hk : k < count) (hmax : k < maxScrs)
      (hl : TakesRecord l .next) (hrest : Readable count (k + 1) rest) : Readable count k (l ++ rest)
  | last {k : ℕ} {l rest : List Byte} {o : Outcome} (hk : k < count) (hmax : k < maxScrs)
      (hl : TakesRecord l o) (ho : o ≠ .next) : Readable count k (l ++ rest)

/-! ## Readable bytes are decoded -/

/-- In replay mode, with `l` at the cursor, `x` returns `a`, having taken `l` with the
given outcome. -/
def Takes {α : Type} (o : Outcome) (x : RecM α) (l : List Byte) (a : α) : Prop :=
  ∀ c, Replaying c → c.session.bufferPos + l.length ≤ maxFileSize →
    slice c.session.buffer c.session.bufferPos.toNat l.length = l →
    ∃ c', x.run c = .ok a c' ∧ o.Leaves c l.length c'

section

variable {α β : Type} {o : Outcome}

variable {l : List Byte} {x : RecM α} {a : α}

theorem Consumes.takes (h : Consumes x l a) (ho : o ≠ .unknown) : Takes o x l a := by
  intro c hc hfit hat
  refine ⟨_, h c hc hfit hat, ?_⟩
  cases o with
  | unknown => exact absurd rfl ho
  | _ => rfl

theorem Outcome.Leaves.advance {c c' : Core} {n m : ℕ} (hpos : 0 ≤ c.session.bufferPos)
    (h : o.Leaves (c.advance n) m c') : o.Leaves c (n + m) c' := by
  cases o with
  | unknown =>
    obtain ⟨p, rfl⟩ := h
    exact ⟨p, by rw [advance_advance c n m hpos]⟩
  | _ => exact h.trans (advance_advance c n m hpos)

/-- Bytes that are read and go on. -/
theorem Consumes.bind_takes {f : α → RecM β} {l₁ l₂ : List Byte} {b : β} (hx : Consumes x l₁ a)
    (hf : Takes o (f a) l₂ b) : Takes o (x >>= f) (l₁ ++ l₂) b := by
  intro c hc hfit hat
  rw [List.length_append] at hfit hat ⊢
  rw [slice_add] at hat
  obtain ⟨hat₁, hat₂⟩ := List.append_inj hat (length_slice _ _ _)
  have hnonneg := hc.pos_nonneg
  have hpos : (c.advance l₁.length).session.bufferPos.toNat
      = c.session.bufferPos.toNat + l₁.length := by
    simp only [Core.advance]
    omega
  obtain ⟨c', hrun, hleaves⟩ := hf (c.advance l₁.length) (hc.advance _)
    (by simp only [Core.advance]; omega) (by rw [hpos]; exact hat₂)
  exact ⟨c', by rw [run_bind_of_ok (hx c hc (by omega) hat₁), hrun], hleaves.advance hnonneg⟩

/-- After an unknown type the rest idles. -/
theorem Takes.bind_idles {f : α → RecM β} {b : β} (hx : Takes .unknown x l a) (hf : Idles (f a) b) :
    Takes .unknown (x >>= f) l b := by
  intro c hc hfit hat
  obtain ⟨_, hrun, p, rfl⟩ := hx c hc hfit hat
  obtain ⟨q, hrest⟩ := hf _ ((poisoned_recRepErr _).withPos p)
  exact ⟨_, (run_bind_of_ok hrun).trans hrest, q, rfl⟩

theorem Takes.get_bind {f : Core → RecM α} {y : RecM α} (hf : ∀ c, Replaying c → f c = y)
    (hy : Takes o y l a) : Takes o (get >>= f) l a := by
  intro c hc hfit hat
  rw [EStateM.run_bind, EStateM.run_get]
  simp only [hf c hc]
  exact hy c hc hfit hat

end

theorem consumes_transformArg_null (arg : Arg) :
    Consumes (transformArg arg) [noneType] (false, { arg with type := noneType }) := by
  rw [← List.append_nil [noneType]]
  refine .get_bind (fun c hc => if_neg fun h => hc.record h.1) ?_
  refine (consumes_transferByte arg.type noneType).bind ?_
  exact .get_bind (fun c hc => if_pos ⟨hc.replay, rfl⟩) (.pure _)

variable {o : Outcome} {tag : Byte}

theorem transformVal_unknown (htag : tag ∉ [noneType, intType, uintType, byteType, statType])
    (v : Val) :
    transformVal ⟨tag, v⟩ = (modify recRepErr >>= fun _ => pure ⟨tag, v⟩ : RecM Arg) := by
  simp only [List.mem_cons, List.not_mem_nil, or_false, not_or] at htag
  obtain ⟨-, hint, huint, hbyte, hstat⟩ := htag
  simp only [transformVal, if_neg hint, if_neg huint, if_neg hbyte, if_neg hstat]

/-- An unknown type calls the error helper behind the byte of the type. -/
theorem transformArg_unknown (htag : tag ∉ [noneType, intType, uintType, byteType, statType])
    (arg : Arg) (hc : Replaying c) (hfit : c.session.bufferPos + 1 ≤ maxFileSize)
    (hat : slice c.session.buffer c.session.bufferPos.toNat 1 = [tag]) :
    (transformArg arg).run c = .ok (true, { arg with type := tag }) (recRepErr (c.advance 1)) := by
  have hnone : tag ≠ noneType := fun h => htag (by rw [h]; exact List.mem_cons_self)
  have hbyte := consumes_transferByte arg.type tag c hc hfit hat
  rw [transformArg, EStateM.run_bind, EStateM.run_get]
  dsimp only
  rw [if_neg fun h => hc.record h.1, run_bind_of_ok hbyte, EStateM.run_bind, EStateM.run_get]
  dsimp only
  rw [if_neg fun h => hnone h.2, transformVal_unknown htag]
  rfl

theorem takes_transformArg_unknown (htag : tag ∉ [noneType, intType, uintType, byteType, statType])
    (arg : Arg) : Takes .unknown (transformArg arg) [tag] (true, { arg with type := tag }) :=
  fun _ hc hfit hat => ⟨_, transformArg_unknown htag arg hc hfit hat, _, rfl⟩

/-- **The argument loop** on bytes that it can take. -/
theorem ArgsShape.takes {remaining i : ℕ} (h : ArgsShape remaining i l o) (behind : ℕ → Arg)
    (scr : SCR) : ∃ scr', Takes o (transformArgs behind remaining i scr) l (o.status, scr') := by
  induction h generalizing scr with
  | done => exact ⟨scr, (Consumes.pure _).takes (by decide)⟩
  | @value remaining i l o v hv hi _ ih =>
    obtain ⟨arg', harg, -⟩ := consumes_transformArg v hv (scr.args ⟨i, hi⟩)
    obtain ⟨scr', hrest⟩ := ih { scr with args := Function.update scr.args ⟨i, hi⟩ arg' }
    refine ⟨scr', ?_⟩
    rw [transformArgs, dif_pos hi]
    refine harg.bind_takes ?_
    simp only [if_true]
    exact hrest
  | @null remaining i hi =>
    refine ⟨{ scr with args := Function.update scr.args ⟨i, hi⟩ ⟨noneType, (scr.args ⟨i, hi⟩).val⟩ },
      Consumes.takes ?_ (by decide)⟩
    rw [transformArgs, dif_pos hi, ← List.append_nil [noneType]]
    exact (consumes_transformArg_null _).bind (Consumes.pure _)
  | @unknown remaining i tag htag hi =>
    refine ⟨{ scr with args := Function.update scr.args ⟨i, hi⟩ ⟨tag, (scr.args ⟨i, hi⟩).val⟩ }, ?_⟩
    rw [transformArgs, dif_pos hi]
    refine (takes_transformArg_unknown htag _).bind_idles ?_
    simp only [if_true]
    exact (idlesBy_transformArgs _ _ _ _).idles

/-- **One record** on bytes that can be taken for it. -/
theorem TakesRecord.takes (h : TakesRecord l o) (behind : ℕ → Arg) (scr : SCR) :
    ∃ scr', Takes o (transformSCR behind scr) l (o.status, scr') := by
  cases h with
  | unused =>
    refine ⟨{ scr with syscall := unitializedScr }, Consumes.takes ?_ (by decide)⟩
    rw [← List.append_nil [unitializedScr]]
    refine .get_bind (fun c hc => if_neg fun h => hc.record h.1) ?_
    refine (consumes_transferByte scr.syscall unitializedScr).bind ?_
    exact .get_bind (fun c hc => if_pos ⟨hc.replay, rfl⟩) (.pure _)
  | @used syscall argc l o hsyscall hargs =>
    obtain ⟨scr', htakes⟩ := hargs.takes behind { scr with syscall := syscall, argc := argc }
    refine ⟨scr', .get_bind (fun c hc => if_neg fun h => hc.record h.1) ?_⟩
    refine (consumes_transferByte scr.syscall syscall).bind_takes ?_
    refine .get_bind (fun c _ => if_neg fun h => hsyscall h.2) ?_
    exact (consumes_transferByte scr.argc argc).bind_takes htakes

section

variable {o : Outcome} {c c' : Core} {n : ℕ}

theorem Outcome.Leaves.recordedScrs (h : o.Leaves c n c') :
    c'.session.recordedScrs = c.session.recordedScrs := by
  cases o with
  | unknown =>
    obtain ⟨p, rfl⟩ := h
    rfl
  | _ =>
    rw [show c' = c.advance n from h]
    rfl

theorem Outcome.Leaves.bufferSeen (h : o.Leaves c n c') :
    c'.session.bufferSeen = (c.advance n).session.bufferSeen := by
  cases o with
  | unknown =>
    obtain ⟨p, rfl⟩ := h
    rfl
  | _ => rw [show c' = c.advance n from h]

theorem advance_bufferSeen_le {m : ℕ} (hseen : c.session.bufferSeen ≤ m)
    (hpos : c.session.bufferPos.toNat + n ≤ m) : (c.advance n).session.bufferSeen ≤ m := by
  simp only [Core.advance]
  split
  · exact hseen
  · exact max_le hseen hpos

end

theorem Replaying.withLog (h : Replaying c) (f : ℤ → SCR) : Replaying (c.withLog f) :=
  ⟨h.replay, h.record, h.pos_nonneg⟩

/-- One pass of the record loop within the buffer and the file. -/
theorem bidirectionalTransform_of_scr {c c' : Core} {i : ℕ} (hi : i < maxScrs) {fileSize : ℤ}
    {r : ℤ × SCR} (hmax : c.session.bufferPos ≤ maxFileSize) (hfile : c.session.bufferPos ≤ fileSize)
    (hrun : (transformSCR (c.session.behindArgs i) (c.session.recordedScrs i)).run c = .ok r c') :
    (bidirectionalTransform i fileSize).run c
      = .ok r.1 (c'.withLog (Function.update c'.session.recordedScrs i r.2)) := by
  unfold bidirectionalTransform
  rw [EStateM.run_bind, EStateM.run_get]
  simp only
  rw [if_neg (by omega), if_neg (by omega), if_pos hi, run_bind_of_ok hrun]
  rfl

/-- One pass of the record loop on bytes that can be taken. -/
theorem bidirectionalTransform_takes (hc : Replaying c) {i : ℕ} (hi : i < maxScrs) (fileSize : ℤ)
    {scr' : SCR}
    (hscr : Takes o (transformSCR (c.session.behindArgs i) (c.session.recordedScrs i)) l
      (o.status, scr')) (hfit : c.session.bufferPos + l.length ≤ maxFileSize)
    (hfile : c.session.bufferPos ≤ fileSize)
    (hat : slice c.session.buffer c.session.bufferPos.toNat l.length = l) :
    ∃ c', o.Leaves c l.length c' ∧ (bidirectionalTransform i fileSize).run c
      = .ok o.status (c'.withLog (Function.update c.session.recordedScrs i scr')) := by
  obtain ⟨c', hrun, hleaves⟩ := hscr c hc hfit hat
  refine ⟨c', hleaves, ?_⟩
  rw [← hleaves.recordedScrs]
  exact bidirectionalTransform_of_scr hi (by omega) hfile hrun

/-- **The record loop** on readable bytes returns, without a look past them.  The log and
the result that it leaves are the same whatever else the buffer holds. -/
theorem Readable.decodes {count k : ℕ} (h : Readable count k l) (scrs : ℤ → SCR)
    (behind : ℤ → ℕ → Arg) : ∃ (f : ℤ → SCR) (v : Word), (v = 1 ∨ v = -1) ∧
      ∀ (c : Core) (n : ℕ), Replaying c → c.session.recordedScrs = scrs →
        c.session.behindArgs = behind → c.session.bufferPos + l.length = n → n ≤ maxFileSize →
        slice c.session.buffer c.session.bufferPos.toNat l.length = l →
        c.session.bufferSeen ≤ n →
        ∃ ok c', (transformLoop n (count - k) k).run c = .ok ok c' ∧
          c'.session.recordedScrs = f ∧ (if ok then c'.session.replaySyscalls else -1) = v ∧
          c'.session.bufferSeen ≤ n := by
  induction h generalizing scrs with
  | @done k rest hk =>
    refine ⟨scrs, 1, .inl rfl, fun c n hc hscrs _ _ _ _ hseen => ?_⟩
    rw [Nat.sub_eq_zero_of_le hk]
    exact ⟨true, c, rfl, hscrs, hc.replay, hseen⟩
  | @next k l rest hk hmax hl _ ih =>
    obtain ⟨scr', hscr⟩ := hl.takes (behind k) (scrs k)
    obtain ⟨f, v, hv, hrest⟩ := ih (Function.update scrs k scr')
    refine ⟨f, v, hv, fun c n hc hscrs hbehind hn hmaxn hat hseen => ?_⟩
    subst hscrs hbehind
    have hpos := hc.pos_nonneg
    rw [List.length_append] at hn hat
    rw [slice_add] at hat
    obtain ⟨hat₁, hat₂⟩ := List.append_inj hat (length_slice _ _ _)
    obtain ⟨_, rfl, hrun⟩ := bidirectionalTransform_takes hc hmax n hscr (by omega)
      (by omega) hat₁
    have hpos' : (c.advance l.length).session.bufferPos.toNat
        = c.session.bufferPos.toNat + l.length := by
      simp only [Core.advance]
      omega
    rw [show count - k = count - (k + 1) + 1 by omega, transformLoop, run_bind_of_ok hrun,
      if_neg (by decide), if_neg (by decide)]
    refine hrest _ n ((hc.advance _).withLog _) rfl rfl ?_ hmaxn ?_ ?_
    · simp only [Core.withLog, Core.advance]
      omega
    · simp only [Core.withLog]
      rw [hpos']
      exact hat₂
    · exact advance_bufferSeen_le hseen (by omega)
  | @last k l rest o hk hmax hl ho =>
    obtain ⟨scr', hscr⟩ := hl.takes (behind k) (scrs k)
    refine ⟨Function.update scrs k scr', if o = .stop then 1 else -1, by split_ifs <;> simp,
      fun c n hc hscrs hbehind hn hmaxn hat hseen => ?_⟩
    subst hscrs hbehind
    have hpos := hc.pos_nonneg
    rw [List.length_append] at hn hat
    rw [slice_add] at hat
    obtain ⟨hat₁, -⟩ := List.append_inj hat (length_slice _ _ _)
    obtain ⟨c₁, hleaves, hrun⟩ := bidirectionalTransform_takes hc hmax n hscr (by omega)
      (by omega) hat₁
    have hseen₁ : c₁.session.bufferSeen ≤ n := by
      rw [hleaves.bufferSeen]
      exact advance_bufferSeen_le hseen (by omega)
    rw [show count - k = count - (k + 1) + 1 by omega, transformLoop, run_bind_of_ok hrun]
    cases o with
    | next => exact absurd rfl ho
    | stop =>
      refine ⟨true, _, rfl, rfl, ?_, hseen₁⟩
      rw [show c₁ = c.advance l.length from hleaves]
      exact hc.replay
    | reject => exact ⟨false, _, rfl, rfl, rfl, hseen₁⟩
    | unknown =>
      -- the loop goes on with both modes off
      obtain ⟨p, rfl⟩ := hleaves
      have hoff : Poisoned (((recRepErr (c.advance l.length)).withPos p).withLog
          (Function.update c.session.recordedScrs k scr')) := ⟨rfl, rfl, rfl⟩
      obtain ⟨ok, q, hloop, -⟩ := transformLoop_idle hoff n (count - (k + 1)) (k + 1)
      rw [if_neg (by decide), if_neg (by decide)]
      exact ⟨ok, _, hloop, rfl, by cases ok <;> rfl, hseen₁⟩

/-! ## Both modes at once -/

/-- The count in the first four bytes of the buffer. -/
@[irreducible] def Core.count (c : Core) : Word := field 32 0 c.session.buffer

/-- The state once the count has been read. -/
def Core.counted (c : Core) : Core := (c.advance 4).withIdx c.count.toInt

theorem bufferPos_counted (hpos : c.session.bufferPos = 0) : c.counted.session.bufferPos = 4 :=
  bufferPos_advance_start hpos 4

section

variable {c : Core} (hrec : c.session.recordSyscalls = 1) (hrep : c.session.replaySyscalls = 1)
  (hpos : c.session.bufferPos = 0)
include hrec hrep hpos

/-- Moving the count in both directions reads it and stores it back. -/
theorem transferIdx_both : transferIdx.run c = .ok () c.counted := by
  have hfield : ∀ obj : Memory, field 32 0 (overlay obj 0 (slice c.session.buffer 0 4))
      = c.count := by
    intro obj
    rw [field_overlay_same 32 0 obj _ (length_slice _ _ _), Core.count]
    rfl
  have hback : ∀ obj : Memory, overlay c.session.buffer 0
      (slice (overlay obj 0 (slice c.session.buffer 0 4)) 0 4) = c.session.buffer := by
    intro obj
    have h := slice_overlay_same obj 0 (slice c.session.buffer 0 4)
    rw [length_slice] at h
    rw [h, overlay_slice_self]
  have hmove : ∀ obj : Memory, (memmoveAndIncrement obj 4 4).run c
      = .ok (overlay obj 0 (slice c.session.buffer 0 4)) (c.advance 4) := by
    intro obj
    have h4 : BitVec.toNat (4 : Word) = 4 := rfl
    have h4' : BitVec.toInt (4 : Word) = 4 := rfl
    simp only [EStateM.run, memmoveAndIncrement, hrec, hrep, hpos, h4, h4', or_self, true_and,
      if_true, Core.advance, Int.toNat_zero, hback]
    rfl
  unfold transferIdx
  rw [EStateM.run_bind, EStateM.run_get]
  simp only
  rw [run_bind_of_ok (hmove _), EStateM.run_modify]
  simp only [Core.counted, Core.advance, Core.withIdx, hrep, if_true, hfield]

omit hpos in
/-- With both modes on, the first record is unused and ends the loop. -/
theorem bidirectionalTransform_both (hcur : c.session.bufferPos = 4)
    (hfresh : (c.session.recordedScrs 0).syscall = unitializedScr) (fileSize : ℤ) :
    (bidirectionalTransform 0 fileSize).run c = .ok (if fileSize < 4 then -1 else 0) c := by
  unfold bidirectionalTransform
  rw [EStateM.run_bind, EStateM.run_get]
  simp only [hcur, hrep, true_and]
  rw [if_neg (by decide)]
  by_cases hfile : fileSize < 4
  · rw [if_pos hfile, if_pos hfile, EStateM.run_pure]
  · have hscr : (transformSCR (c.session.behindArgs (0 : ℕ)) (c.session.recordedScrs (0 : ℕ))).run c
        = .ok (0, c.session.recordedScrs (0 : ℕ)) c := by
      rw [transformSCR, EStateM.run_bind, EStateM.run_get]
      simp only
      rw [if_pos ⟨hrec, hfresh⟩, EStateM.run_pure]
    rw [if_neg hfile, if_neg hfile, if_pos (by decide), run_bind_of_ok hscr]
    simp only [EStateM.run_bind, EStateM.run_modify, EStateM.run_pure, Function.update_eq_self]

/-- **Both modes at once**: the decoder reads the count and stops at the first record,
which is still unused, unless the file has no room for it. -/
theorem unpackScrs_both (hfresh : (c.session.recordedScrs 0).syscall = unitializedScr)
    (fileSize : ℤ) : (unpackScrs fileSize).run c =
      if c.count.toInt ≤ 0 ∨ 4 ≤ fileSize then .ok true ((c.advance 4).withIdx 0)
      else .ok false c.counted := by
  have hfirst := bidirectionalTransform_both (c := c.counted) hrec hrep (bufferPos_counted hpos)
    hfresh fileSize
  unfold unpackScrs
  rw [run_bind_of_ok (transferIdx_both hrec hrep hpos), EStateM.run_bind, EStateM.run_get]
  simp only
  rw [show c.counted.session.scrsIdx = c.count.toInt from rfl]
  cases hn : c.count.toInt.toNat with
  | zero =>
    rw [if_pos (Or.inl (by omega))]
    rfl
  | succ n =>
    by_cases hfile : fileSize < 4
    · rw [if_pos hfile] at hfirst
      rw [if_neg (by omega), transformLoop, bind_assoc, run_bind_of_ok hfirst]
      rfl
    · rw [if_neg hfile] at hfirst
      rw [if_pos (Or.inr (by omega)), transformLoop, bind_assoc, run_bind_of_ok hfirst]
      rfl

end

end V3
