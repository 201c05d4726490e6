/-
# Replays that fail to start

`sys_replay_start` turns its mode on and resets the log before it looks at the file.  An error
of the file calls goes through the error helper, which kills the process and turns both modes
off.  A record that `bidirectionalTransform` refuses does not: the call just returns `-1`, with
the mode on, the process alive, and `scrs_idx` at the count the file begins with.  Some files
make the decoder store outside its arrays, and then nothing can be said of the session.

`Taken` says on which bytes neither happens: before each record the cursor is in the buffer and
in the file, and the records, at no index beyond the log, are whole, up to one at which the
decoder ends.  A type that the codec has no case for calls the error helper in the middle of the
loop, which then runs on and only counts; the file is refused after all if the count leaves the
buffer.
-/
import Xv6Recorder.V3CodecFrame
import Xv6Recorder.V3ReplayFiles

open Bytes StateError Xv6

namespace V3

/-! ## What the decoder keeps -/

/-- A look at the buffer stays inside it. -/
def Core.SeenWithin (c c' : Core) : Prop :=
  c.session.bufferSeen ≤ maxFileSize → c'.session.bufferSeen ≤ maxFileSize

instance : IsPreorder Core Core.SeenWithin where
  refl _ := id
  trans _ _ _ h h' := h' ∘ h

theorem seenWithin_steps : CodecSteps Core.SeenWithin where
  move obj cap size c := by
    simp only [EStateM.run, memmoveAndIncrement]
    split
    case isTrue => exact id
    case isFalse hin =>
      intro hseen
      simp only [endState_ok]
      split
      case isTrue hmove =>
        have hbound : 0 ≤ c.session.bufferPos ∧
            c.session.bufferPos + size.toNat ≤ maxFileSize ∧ size.toNat ≤ cap := by
          by_contra hout
          exact hin ⟨Or.inl hmove.1, hmove.2, hout⟩
        exact max_le hseen (by omega)
      case isFalse => exact hseen
  err _ := id
  log _ _ := id

/-- The record count stays. -/
def Core.SameIdx (c c' : Core) : Prop := c'.session.scrsIdx = c.session.scrsIdx

instance : IsPreorder Core Core.SameIdx where
  refl _ := rfl
  trans _ _ _ h h' := h'.trans h

theorem sameIdx_steps : CodecSteps Core.SameIdx where
  move obj cap size c := by
    simp only [EStateM.run, memmoveAndIncrement]
    split <;> rfl
  err _ := rfl
  log _ _ := rfl

/-- The flags and the mark stay. -/
structure Core.SameFlags (c c' : Core) : Prop where
  replay : c'.session.replaySyscalls = c.session.replaySyscalls
  record : c'.session.recordSyscalls = c.session.recordSyscalls
  killed : c'.killed = c.killed

/-- The flags and the mark stay, or the error helper has set them. -/
def Core.SameOrPoisoned (c c' : Core) : Prop := c.SameFlags c' ∨ Poisoned c'

instance : IsPreorder Core Core.SameOrPoisoned where
  refl _ := .inl ⟨rfl, rfl, rfl⟩
  trans c₁ c₂ c₃ h h' := by
    rcases h' with hsame | hoff
    · rcases h with hsame' | hoff
      · exact .inl ⟨hsame.replay.trans hsame'.replay, hsame.record.trans hsame'.record,
          hsame.killed.trans hsame'.killed⟩
      · exact .inr ⟨hsame.replay.trans hoff.replay, hsame.record.trans hoff.record,
          hsame.killed.trans hoff.killed⟩
    · exact .inr hoff

theorem sameOrPoisoned_steps : CodecSteps Core.SameOrPoisoned where
  move obj cap size c := by
    simp only [EStateM.run, memmoveAndIncrement]
    split <;> exact .inl ⟨rfl, rfl, rfl⟩
  err c := .inr (poisoned_recRepErr c)
  log _ _ := .inl ⟨rfl, rfl, rfl⟩

/-! ## An unknown type, and the cursor after it -/

/-- The bytes of arguments up to one whose type is unknown, with `left` arguments behind it. -/
inductive ArgsUnknown : (remaining i : ℕ) → List Byte → (left : ℕ) → Prop
  | here {remaining i : ℕ} {tag : Byte}
      (htag : tag ∉ [noneType, intType, uintType, byteType, statType]) (hi : i < maxArgc) :
      ArgsUnknown (remaining + 1) i [tag] remaining
  | value {remaining i left : ℕ} {l : List Byte} {v : FieldValue} (hv : v.WellFormed)
      (hi : i < maxArgc) (hrest : ArgsUnknown remaining (i + 1) l left) :
      ArgsUnknown (remaining + 1) i (v.encode ++ l) left

variable {l : List Byte} {remaining i left : ℕ}

theorem ArgsUnknown.left_lt (h : ArgsUnknown remaining i l left) : left < remaining := by
  induction h with
  | here => exact Nat.lt_succ_self _
  | value _ _ _ ih => exact Nat.lt_succ_of_lt ih

theorem ArgsShape.argsUnknown {remaining i : ℕ} {o : Outcome} (h : ArgsShape remaining i l o)
    (ho : o = .unknown) : ∃ left, ArgsUnknown remaining i l left := by
  induction h with
  | done => cases ho
  | value hv hi _ ih =>
    obtain ⟨left, hleft⟩ := ih ho
    exact ⟨left, .value hv hi hleft⟩
  | null => cases ho
  | unknown htag hi => exact ⟨_, .here htag hi⟩

theorem spanArgs_congr {scr scr' : SCR} (behind : ℕ → Arg) (remaining : ℕ) {j : ℕ}
    (hargs : ∀ n : Fin maxArgc, j ≤ n → scr'.args n = scr.args n) :
    scr'.spanArgs behind remaining j = scr.spanArgs behind remaining j := by
  induction remaining generalizing j with
  | zero => rfl
  | succ remaining ih =>
    have hhere : scr'.argOrBehind behind j = scr.argOrBehind behind j := by
      unfold SCR.argOrBehind
      split
      case isTrue hj => exact hargs ⟨j, hj⟩ le_rfl
      case isFalse => rfl
    rw [SCR.spanArgs, SCR.spanArgs, hhere, ih fun n hn => hargs n (Nat.le_of_succ_le hn)]

/-- **The argument loop** up to an unknown type and past it: the arguments behind it are only
counted. -/
theorem ArgsUnknown.run (h : ArgsUnknown remaining i l left) (behind : ℕ → Arg) (scr : SCR)
    {c : Core} (hc : Replaying c) (hfit : c.session.bufferPos + l.length ≤ maxFileSize)
    (hat : c.At l) :
    ∃ scr', (transformArgs behind remaining i scr).run c = .ok (1, scr')
      ((recRepErr (c.advance l.length)).withPos (c.session.bufferPos + l.length
        + scr.spanArgs behind left (remaining + i - left))) := by
  induction h generalizing scr c with
  | @here remaining i tag htag hi =>
    set scr' : SCR :=
      { scr with args := Function.update scr.args ⟨i, hi⟩ ⟨tag, (scr.args ⟨i, hi⟩).val⟩ }
    -- the type is stored before it is found to be unknown, and what is counted lies behind it
    have hspan : scr'.spanArgs behind remaining (i + 1)
        = scr.spanArgs behind remaining (i + 1) := by
      refine spanArgs_congr behind remaining fun n hn => Function.update_of_ne ?_ _ _
      rintro rfl
      exact absurd hn (Nat.not_succ_le_self _)
    have hidle := idlesBy_transformArgs behind remaining (i + 1) scr' _
      (poisoned_recRepErr (c.advance 1))
    refine ⟨scr', ?_⟩
    rw [transformArgs, dif_pos hi, run_bind_of_ok (transformArg_unknown htag _ hc hfit hat),
      show remaining + 1 + i - remaining = i + 1 by omega, ← hspan]
    exact hidle
  | @value remaining i left l v hv hi hrest ih =>
    -- an argument that is decoded; the arguments that are counted later lie behind it
    obtain ⟨arg', harg, -⟩ := consumes_transformArg v hv (scr.args ⟨i, hi⟩)
    set scr₁ : SCR := { scr with args := Function.update scr.args ⟨i, hi⟩ arg' }
    have hnonneg := hc.pos_nonneg
    rw [List.length_append] at hfit ⊢
    rw [Core.At, List.length_append, slice_add] at hat
    obtain ⟨hat₁, hat₂⟩ := List.append_inj hat (length_slice _ _ _)
    have hpos : (c.advance v.encode.length).session.bufferPos
        = c.session.bufferPos + v.encode.length := rfl
    obtain ⟨scr', hrun⟩ := ih scr₁ (hc.advance v.encode.length) (by rw [hpos]; omega) (by
      rw [Core.At, hpos, show (c.session.bufferPos + v.encode.length).toNat
        = c.session.bufferPos.toNat + v.encode.length by omega]
      exact hat₂)
    have hlt := hrest.left_lt
    have hspan : scr₁.spanArgs behind left (remaining + (i + 1) - left)
        = scr.spanArgs behind left (remaining + 1 + i - left) := by
      rw [show remaining + 1 + i - left = remaining + (i + 1) - left by omega]
      refine spanArgs_congr behind left fun n hn => Function.update_of_ne ?_ _ _
      rintro rfl
      simp only at hn
      omega
    refine ⟨scr', ?_⟩
    rw [transformArgs, dif_pos hi, run_bind_of_ok (harg c hc (by omega) hat₁)]
    simp only [if_true]
    rw [hrun, advance_advance c _ _ hnonneg, hspan, hpos, Nat.cast_add, ← Int.add_assoc]

/-- **A record with an unknown type.** -/
theorem transformSCR_unknown (behind : ℕ → Arg) (scr : SCR) {syscall argc : Byte} {left : ℕ}
    (hsyscall : syscall ≠ unitializedScr) (hl : ArgsUnknown argc.toNat 0 l left) {c : Core}
    (hc : Replaying c) (hfit : c.session.bufferPos + (syscall :: argc :: l).length ≤ maxFileSize)
    (hat : c.At (syscall :: argc :: l)) :
    ∃ scr', (transformSCR behind scr).run c = .ok (1, scr')
      ((recRepErr (c.advance (syscall :: argc :: l).length)).withPos (c.session.bufferPos
        + (syscall :: argc :: l).length + scr.spanArgs behind left (argc.toNat - left))) := by
  have hnonneg := hc.pos_nonneg
  have hlen : (syscall :: argc :: l).length = 1 + (1 + l.length) := by
    simp only [List.length_cons]
    omega
  rw [hlen] at hfit ⊢
  rw [Core.At, hlen, slice_add, slice_add, ← List.singleton_append, ← List.singleton_append
    (l := l)] at hat
  obtain ⟨hat₁, hat⟩ := List.append_inj hat (length_slice _ _ _)
  obtain ⟨hat₂, hat₃⟩ := List.append_inj hat (length_slice _ _ _)
  have hpos₁ : (c.advance 1).session.bufferPos = c.session.bufferPos + 1 := rfl
  have hnat₁ : (c.session.bufferPos + 1).toNat = c.session.bufferPos.toNat + 1 := by omega
  have hnat₂ : (c.session.bufferPos + (1 + 1 : ℕ)).toNat = c.session.bufferPos.toNat + 1 + 1 := by
    omega
  -- the two bytes in front of the arguments
  have hfirst := consumes_transferByte scr.syscall syscall c hc
    (by rw [List.length_singleton]; omega) hat₁
  have hsecond := consumes_transferByte scr.argc argc (c.advance 1) (hc.advance 1)
    (by rw [hpos₁, List.length_singleton]; omega) (by rw [hpos₁, hnat₁]; exact hat₂)
  rw [List.length_singleton] at hfirst hsecond
  rw [advance_advance c 1 1 hnonneg] at hsecond
  have hpos₂ : (c.advance (1 + 1)).session.bufferPos = c.session.bufferPos + (1 + 1 : ℕ) := rfl
  obtain ⟨scr', hrun⟩ := hl.run behind { scr with syscall := syscall, argc := argc }
    (hc.advance (1 + 1)) (by rw [hpos₂]; omega)
    (by rw [Core.At, hpos₂, hnat₂]; exact hat₃)
  have hspan : SCR.spanArgs { scr with syscall := syscall, argc := argc } behind left
      (argc.toNat + 0 - left) = scr.spanArgs behind left (argc.toNat - left) :=
    spanArgs_congr behind left fun _ _ => rfl
  refine ⟨scr', ?_⟩
  rw [transformSCR, EStateM.run_bind, EStateM.run_get]
  dsimp only
  rw [if_neg fun h => hc.record h.1, run_bind_of_ok hfirst, EStateM.run_bind, EStateM.run_get]
  dsimp only
  rw [if_neg fun h => hsyscall h.2, run_bind_of_ok hsecond, hrun, hspan,
    advance_advance c _ _ hnonneg, hpos₂, Nat.add_assoc]
  congr 2
  push_cast
  ring

/-! ## Bytes that are taken -/

/-- The loop over `remaining` records from index `k` and position `pos` on takes its bytes, inside
the arrays.  `mem` is the buffer, `fileSize` what was read into it, and `scrs` and `behind` the
log before. -/
inductive Taken (mem : Memory) (scrs : ℤ → SCR) (behind : ℤ → ℕ → Arg) (fileSize : ℤ) :
    (remaining k pos : ℕ) → Prop
  | done {k pos : ℕ} : Taken mem scrs behind fileSize 0 k pos
  | stop {remaining k pos : ℕ} {l : List Byte} (hfile : pos ≤ fileSize) (hk : k < maxScrs)
      (hl : TakesRecord l .stop) (hat : slice mem pos l.length = l)
      (hfit : pos + l.length ≤ maxFileSize) :
      Taken mem scrs behind fileSize (remaining + 1) k pos
  | next {remaining k pos : ℕ} {l : List Byte} (hfile : pos ≤ fileSize) (hk : k < maxScrs)
      (hl : TakesRecord l .next) (hat : slice mem pos l.length = l)
      (hfit : pos + l.length ≤ maxFileSize)
      (hrest : Taken mem scrs behind fileSize remaining (k + 1) (pos + l.length)) :
      Taken mem scrs behind fileSize (remaining + 1) k pos
  | unknown {remaining k pos left : ℕ} {syscall argc : Byte} {l : List Byte}
      (hfile : pos ≤ fileSize) (hk : k < maxScrs) (hsyscall : syscall ≠ unitializedScr)
      (hl : ArgsUnknown argc.toNat 0 l left)
      (hat : slice mem pos (syscall :: argc :: l).length = syscall :: argc :: l)
      (hfit : pos + (syscall :: argc :: l).length ≤ maxFileSize)
      (hrest : ¬ Overruns scrs behind remaining (k + 1) (pos + (syscall :: argc :: l).length
        + (scrs k).spanArgs (behind k) left (argc.toNat - left))) :
      Taken mem scrs behind fileSize (remaining + 1) k pos

/-- The decoder stands before record `k`, at position `pos`. -/
structure Reading (mem : Memory) (scrs : ℤ → SCR) (behind : ℤ → ℕ → Arg) (c : Core) (k pos : ℕ) :
    Prop where
  replaying : Replaying c
  buffer : c.session.buffer = mem
  behind : c.session.behindArgs = behind
  scrs : ∀ j : ℕ, k ≤ j → c.session.recordedScrs j = scrs j
  pos : c.session.bufferPos = pos
  seen : c.session.bufferSeen ≤ maxFileSize

theorem overruns_congr {scrs scrs' : ℤ → SCR} {behind : ℤ → ℕ → Arg} (remaining : ℕ) {i : ℕ}
    {pos : ℤ} (h : ∀ j : ℕ, i ≤ j → scrs' j = scrs j) :
    Overruns scrs' behind remaining i pos ↔ Overruns scrs behind remaining i pos := by
  induction remaining generalizing i pos with
  | zero => rfl
  | succ remaining ih =>
    rw [Overruns, Overruns, h i le_rfl, ih fun j hj => h j (Nat.le_of_succ_le hj)]

section

variable {mem : Memory} {scrs : ℤ → SCR} {behind : ℤ → ℕ → Arg} {fileSize : ℤ}
  {c c' : Core} {remaining k pos : ℕ}

theorem TakesRecord.length_pos {l : List Byte} {o : Outcome} (h : TakesRecord l o) :
    0 < l.length := by
  cases h <;> exact Nat.succ_pos _

theorem Reading.at_iff (hc : Reading mem scrs behind c k pos) (l : List Byte) :
    c.At l ↔ slice mem pos l.length = l := by
  rw [Core.At, hc.buffer, hc.pos, Int.toNat_natCast]

/-- The next record. -/
theorem Reading.next (hc : Reading mem scrs behind c k pos) {n : ℕ} (hfit : pos + n ≤ maxFileSize)
    (scr : SCR) :
    Reading mem scrs behind
      ((c.advance n).withLog (Function.update c.session.recordedScrs k scr)) (k + 1) (pos + n) where
  replaying := (hc.replaying.advance n).withLog _
  buffer := hc.buffer
  behind := hc.behind
  scrs j hj := by
    have hne : (j : ℤ) ≠ k := by omega
    rw [← hc.scrs j (Nat.le_of_succ_le hj)]
    exact Function.update_of_ne hne _ _
  pos := by
    show c.session.bufferPos + n = _
    rw [hc.pos]
    omega
  seen := by
    refine advance_bufferSeen_le hc.seen ?_
    rw [hc.pos, Int.toNat_natCast]
    exact hfit

/-- An unknown type in record `k`: the rest of the loop idles from where the record ends. -/
theorem Reading.unknown_run (hc : Reading mem scrs behind c k pos) {left : ℕ}
    {syscall argc : Byte} {l : List Byte} (hfile : pos ≤ fileSize) (hk : k < maxScrs)
    (hsyscall : syscall ≠ unitializedScr) (hl : ArgsUnknown argc.toNat 0 l left)
    (hat : slice mem pos (syscall :: argc :: l).length = syscall :: argc :: l)
    (hfit : pos + (syscall :: argc :: l).length ≤ maxFileSize) :
    ∃ ok c', (transformLoop fileSize (remaining + 1) k).run c = .ok ok c' ∧
      (ok = false ↔ Overruns scrs behind remaining (k + 1) (pos + (syscall :: argc :: l).length
        + (scrs k).spanArgs (behind k) left (argc.toNat - left))) := by
  have hpos := hc.pos
  obtain ⟨scr', hscr⟩ := transformSCR_unknown (c.session.behindArgs k) (c.session.recordedScrs k)
    hsyscall hl hc.replaying (by rw [hpos]; omega) ((hc.at_iff _).mpr hat)
  have hpass : (bidirectionalTransform k fileSize).run c = _ :=
    bidirectionalTransform_of_scr hk (by omega) (by omega) hscr
  rw [hpos, hc.behind, hc.scrs k le_rfl] at hpass
  set c₁ := ((recRepErr (c.advance (syscall :: argc :: l).length)).withPos
    (pos + (syscall :: argc :: l).length + (scrs k).spanArgs (behind k) left (argc.toNat - left)))
  have hoff : Poisoned (c₁.withLog (Function.update c₁.session.recordedScrs k scr')) :=
    ⟨rfl, rfl, rfl⟩
  obtain ⟨ok, q, hloop, hiff⟩ := transformLoop_idle hoff fileSize remaining (k + 1)
  refine ⟨ok, _, (run_bind_of_ok hpass).trans hloop, hiff.trans ?_⟩
  show Overruns _ c.session.behindArgs remaining (k + 1) _ ↔ _
  rw [hc.behind]
  refine overruns_congr remaining fun j hj => ?_
  have hne : (j : ℤ) ≠ k := by omega
  exact (Function.update_of_ne hne _ _).trans (hc.scrs j (Nat.le_of_succ_le hj))

/-- **Such bytes are taken.** -/
theorem Taken.run (h : Taken mem scrs behind fileSize remaining k pos)
    (hc : Reading mem scrs behind c k pos) :
    ∃ c', (transformLoop fileSize remaining k).run c = .ok true c' := by
  induction h generalizing c with
  | done => exact ⟨c, rfl⟩
  | stop hfile hk hl hat hfit =>
    have hpos := hc.pos
    obtain ⟨scr', htakes⟩ := hl.takes (c.session.behindArgs _) (c.session.recordedScrs _)
    obtain ⟨c₁, -, hpass⟩ := bidirectionalTransform_takes hc.replaying hk fileSize htakes
      (by omega) (by omega) ((hc.at_iff _).mpr hat)
    exact ⟨_, run_bind_of_ok hpass⟩
  | next hfile hk hl hat hfit _ ih =>
    have hpos := hc.pos
    obtain ⟨scr', htakes⟩ := hl.takes (c.session.behindArgs _) (c.session.recordedScrs _)
    obtain ⟨c₁, rfl, hpass⟩ := bidirectionalTransform_takes hc.replaying hk fileSize htakes
      (by omega) (by omega) ((hc.at_iff _).mpr hat)
    obtain ⟨c', hrun⟩ := ih (hc.next hfit scr')
    exact ⟨c', (run_bind_of_ok hpass).trans hrun⟩
  | unknown hfile hk hsyscall hl hat hfit hrest =>
    obtain ⟨ok, c', hrun, hiff⟩ := hc.unknown_run hfile hk hsyscall hl hat hfit
    cases ok with
    | false => exact absurd (hiff.mp rfl) hrest
    | true => exact ⟨c', hrun⟩

/-- **Only such bytes are taken.** -/
theorem taken_of_run (hc : Reading mem scrs behind c k pos)
    (hrun : (transformLoop fileSize remaining k).run c = .ok true c') :
    Taken mem scrs behind fileSize remaining k pos := by
  induction remaining generalizing c k pos with
  | zero => exact .done
  | succ remaining ih =>
    have hpos := hc.pos
    obtain ⟨status, c₂, hpass, hrest⟩ := run_bind_eq_ok.mp hrun
    have hseen : c₂.session.bufferSeen ≤ maxFileSize :=
      (seenWithin_steps.bidirectionalTransform k fileSize).of_ok hpass hc.seen
    -- a pass that stops at a cursor out of range ends the loop with `-1`
    rcases bidirectionalTransform_inv hc.replaying hpass with
      ⟨-, rfl, -⟩ | ⟨-, hfile, hk, l, o, scr', c₁, htakes, hat, rfl, hleaves, -, rfl⟩
    · cases hrest
    · -- the last byte that was taken is in the buffer
      have hlen := htakes.length_pos
      have hfit : pos + l.length ≤ maxFileSize := by
        have hsame : c₁.session.bufferSeen ≤ maxFileSize := hseen
        rw [hleaves.bufferSeen] at hsame
        simp only [Core.advance, if_neg (Nat.ne_of_gt hlen), hpos, Int.toNat_natCast] at hsame
        omega
      have hfile' : (pos : ℤ) ≤ fileSize := by omega
      have hat' := (hc.at_iff l).mp hat
      cases o with
      | next =>
        obtain rfl : c₁ = c.advance l.length := hleaves
        rw [if_neg (by decide), if_neg (by decide)] at hrest
        exact .next hfile' hk htakes hat' hfit (ih (hc.next hfit scr') hrest)
      | stop => exact .stop hfile' hk htakes hat' hfit
      | reject => cases hrest
      | unknown =>
        cases htakes with
        | used hsyscall hargs =>
          obtain ⟨left, hl⟩ := hargs.argsUnknown rfl
          obtain ⟨ok, c₃, hrun', hiff⟩ := hc.unknown_run hfile' hk hsyscall hl hat' hfit
          rw [hrun] at hrun'
          injection hrun' with hok _
          refine .unknown hfile' hk hsyscall hl hat' hfit fun hover => ?_
          exact Bool.noConfusion (hok.trans (hiff.mpr hover))

end

/-- The decoder takes what is in the buffer, of which `fileSize` bytes have been read.  With
both modes on it does not get past the first record. -/
def Core.Takes (c : Core) (fileSize : ℤ) : Prop :=
  if c.session.recordSyscalls = 1 then c.count.toInt ≤ 0 ∨ 4 ≤ fileSize
  else Taken c.session.buffer c.session.recordedScrs c.session.behindArgs fileSize
    c.count.toInt.toNat 0 4

/-- **The decoding part** succeeds exactly on what is taken. -/
theorem unpackScrs_takes {c : Core} (hc : Loaded c []) (fileSize : ℤ) :
    (∃ c', (unpackScrs fileSize).run c = .ok true c') ↔ c.Takes fileSize := by
  unfold Core.Takes
  by_cases hrec : c.session.recordSyscalls = 1
  · rw [if_pos hrec, unpackScrs_both hrec hc.replay hc.pos hc.fresh]
    split
    case isTrue hends => exact iff_of_true ⟨_, rfl⟩ hends
    case isFalse hends =>
      refine iff_of_false ?_ hends
      rintro ⟨c', hrun⟩
      cases hrun
  · have hreading : Reading c.session.buffer c.session.recordedScrs c.session.behindArgs
        c.counted 0 4 :=
      ⟨hc.counted hrec, rfl, rfl, fun _ _ => rfl, bufferPos_counted hc.pos, by
        rw [hc.bufferSeen_counted]
        decide⟩
    rw [if_neg hrec]
    constructor
    · rintro ⟨c', hrun⟩
      obtain ⟨c₁, hloop, -⟩ := (hc.unpackScrs_eq_ok hrec).mp hrun
      exact taken_of_run hreading hloop
    · intro htaken
      obtain ⟨c₁, hloop⟩ := htaken.run hreading
      exact ⟨_, (hc.unpackScrs_eq_ok hrec).mpr ⟨c₁, hloop, rfl⟩⟩

/-- The record count when the decoder returns: `0`, or what the file said if it was refused. -/
theorem unpackScrs_scrsIdx {c c' : Core} {fileSize : ℤ} {ok : Bool}
    (hrun : (unpackScrs fileSize).run c = .ok ok c') :
    if ok then c'.session.scrsIdx = 0 else 0 < c'.session.scrsIdx := by
  obtain ⟨_, c₁, -, hrun⟩ := run_bind_eq_ok.mp hrun
  rw [EStateM.run_bind, EStateM.run_get] at hrun
  dsimp only at hrun
  obtain ⟨ok', c₂, hloop, hrest⟩ := run_bind_eq_ok.mp hrun
  have hidx : c₂.session.scrsIdx = c₁.session.scrsIdx :=
    (sameIdx_steps.transformLoop _ _ _).of_ok hloop
  cases ok' with
  | true =>
    injection hrest with hok hc'
    subst hok hc'
    rfl
  | false =>
    injection hrest with hok hc'
    subst hok hc'
    -- a loop over no records is not refused
    have hcount : c₁.session.scrsIdx.toNat ≠ 0 := by
      intro hzero
      rw [hzero] at hloop
      cases hloop
    simp only [Bool.false_eq_true, if_false]
    omega

/-! ## The start call -/

section

variable {σ ι π : Type} {ops : FsOps σ ι π} {m m' : Machine σ ι π} {filename : List Byte}

/-- No session is left: the process is killed, both modes are off, the log is at its start. -/
structure NoSession (c : Core) : Prop where
  killed : c.killed = true
  record : c.session.recordSyscalls ≠ 1
  replay : c.session.replaySyscalls ≠ 1
  scrsIdx : c.session.scrsIdx = 0

variable (ops) in
/-- The file calls succeed on the named file: reading gives `bytes`, and the value `r`. -/
def FileGives (m : Machine σ ι π) (filename : List Byte) (r : Word) (bytes : List Byte) : Prop :=
  ∃ fd closed k₁ k₂ k₃, (myOpen ops (strcpy filename 255) oRdwr).run m.kern = .ok fd k₁ ∧ fd ≠ -1 ∧
    (myRead ops fd (BitVec.ofNat 32 maxFileSize)).run k₁ = .ok (r, bytes) k₂ ∧ r ≠ -1 ∧
    (myClose ops fd).run k₂ = .ok closed k₃ ∧ closed ≠ -1

variable (ops) in
/-- **A clean start** with the name `filename`: if the call returns a negative value, it leaves no
session; and once the file has been read the call returns, so that the decoder has stored nothing
outside its arrays. -/
structure StartsCleanly (m : Machine σ ι π) (filename : List Byte) : Prop where
  failed : ∀ v m', (sysReplayStart ops).run m = .ok v m' → v.toInt < 0 → NoSession m'.core
  inArrays : ∀ r bytes, FileGives ops m filename r bytes →
    ∃ v m', (sysReplayStart ops).run m = .ok v m'

/-- The session when the decoding begins: reset, with the bytes of the file over what the
buffer held before. -/
def Machine.loaded (m : Machine σ ι π) (filename bytes : List Byte) : Core :=
  ((m.startReplay filename).withBuffer (overlay m.core.session.buffer 0 bytes)).core

theorem loaded_empty (m : Machine σ ι π) (filename bytes : List Byte) :
    Loaded (m.loaded filename bytes) [] :=
  ⟨rfl, rfl, rfl, rfl, rfl, Nat.zero_le _⟩

theorem fileGives_of_load {r : Word} {m₁ : Machine σ ι π}
    (hload : (loadSession ops).run (m.startReplay filename) = .ok (some r) m₁) :
    ∃ bytes, FileGives ops m filename r bytes ∧ m₁.core = m.loaded filename bytes := by
  obtain ⟨fd, bytes, closed, k₁, k₂, k₃, hopen, hfd, hread, hr, hclose, hclosed, rfl⟩ :=
    loadSession_eq_some.mp hload
  exact ⟨bytes, ⟨fd, closed, k₁, k₂, k₃, hopen, hfd, hread, hr, hclose, hclosed⟩, rfl⟩

theorem FileGives.load {r : Word} {bytes : List Byte} (h : FileGives ops m filename r bytes) :
    ∃ m₁, (loadSession ops).run (m.startReplay filename) = .ok (some r) m₁ ∧
      m₁.core = m.loaded filename bytes := by
  obtain ⟨fd, closed, k₁, k₂, k₃, hopen, hfd, hread, hr, hclose, hclosed⟩ := h
  exact ⟨_, loadSession_eq_some.mpr
    ⟨fd, bytes, closed, k₁, k₂, k₃, hopen, hfd, hread, hr, hclose, hclosed, rfl⟩, rfl⟩

/-- The record count stays. -/
def Machine.SameIdx (m m' : Machine σ ι π) : Prop := m.core.SameIdx m'.core

instance : IsPreorder (Machine σ ι π) Machine.SameIdx where
  refl _ := rfl
  trans _ _ _ h h' := h'.trans h

theorem sameIdx_onKern {α : Type} (x : KM σ ι π α) : Keeps Machine.SameIdx (onKern x) :=
  Keeps.zoom (Q := fun _ _ => True) (fun _ => trivial) fun _ _ _ => rfl

theorem sameIdx_loadSession : Keeps Machine.SameIdx (loadSession ops) := by
  refine Keeps.get.bind fun m => (sameIdx_onKern _).bind fun fd => .ite (.pure _) ?_
  refine (sameIdx_onKern _).bind fun r => ?_
  refine Keeps.bind (fun _ => rfl) fun _ => .ite (.pure _) ?_
  exact (sameIdx_onKern _).bind fun _ => .ite (.pure _) (.pure _)

/-- The error exit of the file calls leaves no session. -/
theorem replayFail_noSession {v : Word} (hidx : m.core.session.scrsIdx = 0)
    (hrun : (replayFail : SysM σ ι π Word).run m = .ok v m') : NoSession m'.core := by
  obtain ⟨_, m₁, hflag, hrun⟩ := run_bind_eq_ok.mp hrun
  obtain ⟨_, m₂, herr, hrun⟩ := run_bind_eq_ok.mp hrun
  injection hrun with _ hm'
  injection hflag with _ hm₁
  injection herr with _ hm₂
  rw [← hm', ← hm₂, ← hm₁]
  have hoff := poisoned_recRepErr { m.core with
    session := { m.core.session with replaySyscalls := -1 } }
  exact ⟨hoff.killed, hoff.record_ne, hoff.replay_ne, hidx⟩

/-- **A failed start leaves no session exactly if the decoder takes the file**: the file calls
fail, or what they read is taken. -/
theorem failed_start_leaves_no_session_iff (hname : argstr m.kern.proc 0 = some filename) :
    StartsCleanly ops m filename ↔
      ∀ r bytes, FileGives ops m filename r bytes → (m.loaded filename bytes).Takes r.toInt := by
  constructor
  · rintro ⟨hclean, hreturns⟩ r bytes hgives
    obtain ⟨m₁, hload, hcore⟩ := hgives.load
    obtain ⟨v, m', hrun⟩ := hreturns r bytes hgives
    obtain ⟨ok, c', hunpack, rfl, rfl⟩ := (sysReplayStart_eq_ok hname hload).mp hrun
    have hidx := unpackScrs_scrsIdx hunpack
    cases ok with
    | true =>
      rw [hcore] at hunpack
      exact (unpackScrs_takes (loaded_empty m filename bytes) _).mp ⟨c', hunpack⟩
    | false =>
      -- the count of the file is left in `scrs_idx`
      have hneg : (-1 : Word).toInt < 0 := by decide
      have hnone : c'.session.scrsIdx = 0 := (hclean _ _ hrun hneg).scrsIdx
      simp only [Bool.false_eq_true, if_false] at hidx
      omega
  · intro htakes
    have hdecodes : ∀ {r : Word} {m₁ : Machine σ ι π},
        (loadSession ops).run (m.startReplay filename) = .ok (some r) m₁ →
        ∃ c', (unpackScrs r.toInt).run m₁.core = .ok true c' := by
      intro r m₁ hload
      obtain ⟨bytes, hgives, hcore⟩ := fileGives_of_load hload
      rw [hcore]
      exact (unpackScrs_takes (loaded_empty m filename bytes) _).mpr (htakes r bytes hgives)
    refine ⟨fun v m' hrun hneg => ?_, fun r bytes hgives => ?_⟩
    · cases hload : (loadSession ops).run (m.startReplay filename) with
      | error e m₁ =>
        rw [sysReplayStart_run hname, run_bind_of_error hload] at hrun
        cases hrun
      | ok r m₁ =>
        cases r with
        | none =>
          rw [sysReplayStart_run hname, run_bind_of_ok hload] at hrun
          have hkeeps : Keeps Machine.SameIdx (loadSession ops) := sameIdx_loadSession
          have hidx : m₁.core.session.scrsIdx = 0 := hkeeps.of_ok hload
          exact replayFail_noSession hidx hrun
        | some r =>
          obtain ⟨c', hunpack⟩ := hdecodes hload
          rw [(sysReplayStart_eq_ok hname hload).mpr ⟨true, c', hunpack, rfl, rfl⟩] at hrun
          injection hrun with hv hm'
          subst hv hm'
          have hidx : c'.session.scrsIdx = 0 := unpackScrs_scrsIdx hunpack
          -- a negative value is the replay flag after the error helper
          have hflags := (sameOrPoisoned_steps.unpackScrs
            (fun _ _ => .inl ⟨rfl, rfl, rfl⟩) r.toInt).of_ok hunpack
          rcases hflags with hsame | hoff
          · have hone : c'.session.replaySyscalls = 1 := by
              rw [hsame.replay, loadSession_core hload]
              rfl
            simp only [if_true, hone] at hneg
            exact absurd hneg (by decide)
          · exact ⟨hoff.killed, hoff.record_ne, hoff.replay_ne, hidx⟩
    · obtain ⟨m₁, hload, -⟩ := hgives.load
      obtain ⟨c', hunpack⟩ := hdecodes hload
      exact ⟨_, _, (sysReplayStart_eq_ok hname hload).mpr ⟨true, c', hunpack, rfl, rfl⟩⟩

end

/-- A file with one record of `getpid`, whose argument has the null type. -/
def nullFile : List Byte := [1, 0, 0, 0, 11, 1, 0]

/-- The flag, the mark and the record count after a start. -/
def afterStart : EStateM.Result Halt (Machine (List Byte) Unit Unit) Word →
    Option (Word × Word × Bool × ℤ)
  | .ok v m => some (v, m.core.session.replaySyscalls, m.core.killed, m.core.session.scrsIdx)
  | .error _ _ => none

/-- The null type is refused: the start returns `-1`, with the replay mode on, the process alive
and `scrs_idx` at the count of the file. -/
theorem refused_start_leaves_session :
    afterStart ((sysReplayStart OneFile.ops).run (caller 7 nullFile)) = some (-1, 1, false, 1) ∧
      ¬ StartsCleanly OneFile.ops (caller 7 nullFile) [47, 102] := by
  have hrun : afterStart ((sysReplayStart OneFile.ops).run (caller 7 nullFile))
      = some (-1, 1, false, 1) := by decide +kernel
  refine ⟨hrun, ?_⟩
  intro hclean
  cases hstart : (sysReplayStart OneFile.ops).run (caller 7 nullFile) with
  | error e m' =>
    rw [hstart] at hrun
    cases hrun
  | ok v m' =>
    rw [hstart, afterStart, Option.some_inj] at hrun
    simp only [Prod.mk.injEq] at hrun
    obtain ⟨rfl, hreplay, -, -⟩ := hrun
    exact (hclean.failed _ _ hstart (by decide)).replay hreplay

/-- A file with one record of `getpid`, whose argument has the type `9`. -/
def unknownFile : List Byte := [1, 0, 0, 0, 11, 1, 9]

/-- An unknown type is taken: the start fails and leaves no session. -/
theorem failed_start_leaves_no_session_iff_unknown :
    afterStart ((sysReplayStart OneFile.ops).run (caller 7 unknownFile)) = some (-1, -1, true, 0) ∧
      StartsCleanly OneFile.ops (caller 7 unknownFile) [47, 102] := by
  refine ⟨by decide +kernel, (failed_start_leaves_no_session_iff (by decide +kernel)).mpr ?_⟩
  intro r bytes hgives
  obtain ⟨m₁, hload, hcore⟩ := hgives.load
  have hrun : ∃ m, (loadSession OneFile.ops).run ((caller 7 unknownFile).startReplay [47, 102])
      = .ok (some 7) m ∧ slice m.core.session.buffer 0 7 = unknownFile := ⟨_, rfl, rfl⟩
  obtain ⟨m, hrun, hbuffer⟩ := hrun
  rw [hload] at hrun
  injection hrun with hr hm
  obtain rfl := Option.some.inj hr
  rw [← hm, hcore] at hbuffer
  have hloaded : Loaded ((caller 7 unknownFile).loaded [47, 102] bytes) unknownFile :=
    ⟨rfl, rfl, rfl, rfl, hbuffer, by decide⟩
  have hoff : ((caller 7 unknownFile).loaded [47, 102] bytes).session.recordSyscalls ≠ 1 :=
    show (0 : Word) ≠ 1 by decide
  rw [Core.Takes, if_neg hoff, hloaded.count_eq (by decide)]
  -- one record, and nothing is counted behind the unknown type
  have hsyscall : (11 : Byte) ≠ unitializedScr := by decide
  have hargs : ArgsUnknown (1 : Byte).toNat 0 [9] 0 := .here (by decide) (by decide)
  exact .unknown (by decide) (by decide) hsyscall hargs (hloaded.slice_eq (by decide)) (by decide) id

end V3
