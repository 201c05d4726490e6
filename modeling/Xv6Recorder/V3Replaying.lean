/-
# Replaying

What a handler does while its caller is replaying.  The comparator advances the
log and either accepts or poisons the session (`compareSCRS_eq`); whatever it
decides, the handler goes on to its tail, which at most stores into the caller's
memory.  No kernel code runs.

The entries of a log built by recording are compared value by value
(`inputsMatch_iff`), so a call is accepted exactly when the next entry has its
number and its inputs, and it then hands out the outputs of that entry.
-/
import Xv6Recorder.V3Recording

open Bytes StateError Xv6

namespace V3

/-! ## The comparator -/

/-- The state with the log advanced by one record, unless it is at its end. -/
def Core.step (c : Core) : Core :=
  { c with session := { c.session with
      scrsIdx :=
        if c.session.scrsIdx < maxScrs then c.session.scrsIdx + 1 else c.session.scrsIdx } }

/-- The next record, or an unused one at the end of the log. -/
def Core.next (c : Core) : SCR :=
  if c.session.scrsIdx < maxScrs then c.session.recordedScrs c.session.scrsIdx
  else createSCR unitializedScr

/-- The comparator accepts: the next record is used, has the same syscall number and
the same inputs. -/
def Accepts (c : Core) (scr : SCR) : Prop :=
  c.next.syscall ≠ unitializedScr ∧ c.next.syscall = scr.syscall ∧ inputsMatch c.next scr = true

instance (c : Core) (scr : SCR) : Decidable (Accepts c scr) := by
  unfold Accepts
  infer_instance

/-- **The comparator**, as a decision. -/
theorem compareSCRS_eq (scr : SCR) (c : Core) : compareSCRS scr c =
    (c.next, if Accepts c scr then c.step else recRepErr c.step) := by
  by_cases hidx : c.session.scrsIdx < maxScrs
  · have hstep : c.step = { c with session := { c.session with
        scrsIdx := c.session.scrsIdx + 1 } } := by rw [Core.step, if_pos hidx]
    have hnext : c.next = c.session.recordedScrs c.session.scrsIdx := if_pos hidx
    rw [compareSCRS, if_neg (by omega), hstep, hnext]
    simp only [Accepts, hnext]
    by_cases hused : (c.session.recordedScrs c.session.scrsIdx).syscall = unitializedScr
    · rw [if_pos hused, if_neg (fun h => h.1 hused)]
    rw [if_neg hused]
    by_cases hnum : (c.session.recordedScrs c.session.scrsIdx).syscall = scr.syscall
    · rw [if_neg (not_not.mpr hnum)]
      by_cases hin : inputsMatch (c.session.recordedScrs c.session.scrsIdx) scr = true
      · rw [if_pos hin, if_pos ⟨hused, hnum, hin⟩]
      · rw [if_neg hin, if_neg (fun h => hin h.2.2)]
    · rw [if_pos hnum, if_neg (fun h => hnum h.2.1)]
  · have hstep : c.step = c := by rw [Core.step, if_neg hidx]
    have hnext : c.next = createSCR unitializedScr := if_neg hidx
    rw [compareSCRS, if_pos (by omega), hstep, hnext, if_neg]
    intro h
    rw [Accepts, hnext] at h
    exact h.1 rfl

/-- One pass of the comparison loop on two arguments of the same type. -/
theorem inputMatches_iff {r s : Arg} (ht : r.type = s.type) (hr : r.value.WellFormed)
    (htype : r.type = intType ∨ r.type = byteType) :
    inputMatches r s = true ↔ r.value = s.value := by
  obtain ⟨t, rv⟩ := r
  obtain ⟨t', sv⟩ := s
  simp only at ht
  subst ht
  rcases htype with rfl | rfl
  · rw [value_int, value_int, FieldValue.int.injEq]
    exact beq_iff_eq
  · rw [value_raw, value_raw, FieldValue.raw.injEq]
    have hle : (Val.rawSize rv).toNat ≤ maxRawSize := by
      have : (slice rv 4 (Val.rawSize rv).toNat).length ≤ maxRawSize := hr
      rwa [length_slice] at this
    have hcases : inputMatches ⟨byteType, rv⟩ ⟨byteType, sv⟩ =
        (Val.rawSize rv == Val.rawSize sv &&
          (List.range (Val.rawSize sv).toInt.toNat).all
            (fun j => Val.rawData sv j == Val.rawData rv j)) := rfl
    rw [hcases, Bool.and_eq_true, beq_iff_eq]
    constructor
    · rintro ⟨hsize, hdata⟩
      rw [← hsize, toInt_eq_toNat_of_le hle, Int.toNat_natCast, List.all_eq_true] at hdata
      rw [← hsize]
      apply slice_congr
      intro k hk
      exact (beq_iff_eq.mp (hdata k (List.mem_range.mpr hk))).symm
    · intro heq
      have hlen := congrArg List.length heq
      rw [length_slice, length_slice] at hlen
      have hsize : Val.rawSize rv = Val.rawSize sv := BitVec.eq_of_toNat_eq hlen
      refine ⟨hsize, ?_⟩
      rw [← hsize, toInt_eq_toNat_of_le hle, Int.toNat_natCast, List.all_eq_true]
      intro j hj
      rw [← hlen] at heq
      have hj' := List.mem_range.mp hj
      exact beq_iff_eq.mpr (eq_of_slice_eq heq (Nat.le_add_right 4 j) (by omega)).symm

/-- **The comparison loop** on the records of two calls with the same number: it
succeeds exactly when the inputs are equal. -/
theorem inputsMatch_iff {recorded scr : SCR} {k : Kind} {ins ins' outs : List FieldValue}
    (hrecorded : recorded.Holds ⟨k.number, ins ++ outs⟩) (hscr : scr.Holds ⟨k.number, ins'⟩)
    (hins : ins.map FieldValue.tag = k.inputs.map Input.tag)
    (hins' : ins'.map FieldValue.tag = k.inputs.map Input.tag)
    (hwf : ∀ v ∈ ins, v.WellFormed) :
    inputsMatch recorded scr = true ↔ ins = ins' := by
  have hlen : ins.length = k.inputs.length := by simpa using congrArg List.length hins
  have hlen' : ins'.length = k.inputs.length := by simpa using congrArg List.length hins'
  have hpos : get1stOutputPos recorded.syscall = ins.length := by
    rw [hrecorded.syscall_eq, get1stOutputPos_number, hlen]
  have hmax := hrecorded.length_le
  rw [List.length_append] at hmax
  -- below the first output, one pass compares the two values
  have hpass : ∀ (i : Fin maxArgc) (h : (i : ℕ) < ins.length) (h' : (i : ℕ) < ins'.length),
      inputMatches (recorded.args i) (scr.args i) = true ↔ ins[i] = ins'[i] := by
    intro i h h'
    have hval : (recorded.args i).value = ins[i] := by
      have := hrecorded.value_at i (by simp only [List.length_append]; omega)
      simpa [List.getElem_append_left h] using this
    have hval' : (scr.args i).value = ins'[i] := hscr.value_at i h'
    have htag : (recorded.args i).type = (k.inputs[i]).tag := by
      rw [← tag_value, hval]
      have := congrArg (fun l => l[(i : ℕ)]?) hins
      simpa [h, hlen ▸ h] using this
    have htag' : (scr.args i).type = (k.inputs[i]).tag := by
      rw [← tag_value, hval']
      have := congrArg (fun l => l[(i : ℕ)]?) hins'
      simpa [h', hlen ▸ h] using this
    rw [inputMatches_iff (htag.trans htag'.symm) (by rw [hval]; exact hwf _ (List.getElem_mem h)),
      hval, hval']
    rw [htag]
    cases k.inputs[i] with
    | int pos => exact Or.inl rfl
    | str pos => exact Or.inr rfl
  rw [inputsMatch, List.all_eq_true]
  constructor
  · intro hall
    apply List.ext_getElem (by rw [hlen, hlen'])
    intro i h h'
    have hi : i < maxArgc := by omega
    have := hall ⟨i, hi⟩ (List.mem_finRange _)
    rw [hpos] at this
    simp only [Nat.cast_lt, h, decide_true, Bool.not_true, Bool.false_or] at this
    exact (hpass ⟨i, hi⟩ h h').mp this
  · rintro rfl i -
    rw [hpos]
    by_cases h : (i : ℕ) < ins.length
    · rw [(hpass i h h).mpr rfl, Bool.or_true]
    · simp [h]

/-! ## The replay branch -/

section

variable {σ ι π : Type}

/-- The replay branch is taken. -/
theorem Handler.run_replaying (h : Handler σ ι π) (frame : Frame) (m : Machine σ ι π)
    (hrep : isReplaying m.core.session m.kern.proc.pid = true) :
    (h.run frame).run m = (h.replayBranch frame).run m := by
  rw [Handler.run, EStateM.run_bind, EStateM.run_get]
  simp only [hrep, if_true]

/-- The state after the comparison of a record. -/
def Core.compared (c : Core) (scr : SCR) : Core :=
  if Accepts c scr then c.step else recRepErr c.step

theorem compare_run (scr : SCR) (m : Machine σ ι π) : (compare scr : SysM σ ι π SCR).run m
    = .ok m.core.next { m with core := m.core.compared scr } := by
  apply run_onCore_of_ok
  simp only [EStateM.run, compareSCRS_eq, Core.compared]

/-- A replayed call is the comparison followed by the tail of its handler. -/
theorem run_replaying_call (ops : FsOps σ ι π) (k : Kind) (frame : Frame) (m : Machine σ ι π)
    {ins : List FieldValue} (hrep : isReplaying m.core.session m.kern.proc.pid = true)
    (hfetch : k.Fetches m.kern.proc ins) :
    ∃ scr : SCR, scr.Holds ⟨k.number, ins⟩ ∧ ((handler ops k).run frame).run m =
      ((handler ops k).replay frame m.core.next).run { m with core := m.core.compared scr } := by
  obtain ⟨scr, hadd, hholds⟩ := addInputs_call ops k m hfetch
  exact ⟨scr, hholds, by rw [Handler.run_replaying _ frame m hrep, Handler.replayBranch,
    run_bind_of_ok hadd, run_bind_of_ok (compare_run scr m)]⟩

/-- The kernel with another address space. -/
def withMem (k : Kern σ ι π) (mem : Memory) : Kern σ ι π :=
  { k with proc := { k.proc with mem := mem } }

/-- The local `n` of a replayed `read`: what was fetched, or what the stack held. -/
def readSize (frame : Frame) (p : Proc ι) : Word := (argint p 2).getD frame.n

/-- **The tail of a `read`** copies as many bytes as the logged call says, and panics
when they go beyond the mapped pages. -/
theorem replayRead_at (frame : Frame) (recorded : SCR) (m : Machine σ ι π) {addr : Word}
    (haddr : argptr m.kern.proc 1 (readSize frame m.kern.proc) = some addr) {pos : ℤ}
    (hpos : get1stOutputPos recorded.syscall = pos) :
    let src := (recorded.argAt frame (pos + 1)).val.rawData
    let len := (recorded.argAt frame (pos - 1)).val.num.toNat
    let limit := pgroundup m.kern.proc.sz
    (replayRead frame recorded : SysM σ ι π Word).run m =
      if addr.toNat + len ≤ limit then
        .ok (recorded.argAt frame pos).val.num
          ⟨m.core, withMem m.kern (overlay m.kern.proc.mem addr.toNat (slice src 0 len))⟩
      else
        .error (.panic "trap") ⟨m.core, withMem m.kern
          (overlay m.kern.proc.mem addr.toNat (slice src 0 (limit - addr.toNat)))⟩ := by
  intro src len limit
  rw [readSize] at haddr
  rw [replayRead, EStateM.run_bind, EStateM.run_get]
  simp only [haddr, hpos]
  by_cases hfit : addr.toNat + len ≤ limit
  · have hcopy : (copyout addr src len).run m.kern
        = .ok () (withMem m.kern (overlay m.kern.proc.mem addr.toNat (slice src 0 len))) :=
      if_pos hfit
    rw [run_bind_of_ok (run_onKern_of_ok hcopy), if_pos hfit]
    rfl
  · have hcopy : (copyout addr src len).run m.kern = .error "trap" (withMem m.kern
        (overlay m.kern.proc.mem addr.toNat (slice src 0 (limit - addr.toNat)))) :=
      if_neg hfit
    rw [run_bind_of_error (run_onKern_of_error hcopy), if_neg hfit]

theorem argptr_readSize (frame : Frame) {p : Proc ι} {addr n : Word}
    (hargs : readArgs p = some (addr, n)) : argptr p 1 (readSize frame p) = some addr := by
  obtain ⟨hsize, haddr⟩ := readArgs_eq_some hargs
  rw [readSize, hsize]
  exact haddr

/-- **The tail of an `fstat`** stores the five fields one by one. -/
theorem replayFstat_run (frame : Frame) (recorded : SCR) (m : Machine σ ι π) {addr : Word}
    (haddr : argptr m.kern.proc 1 statSize = some addr) {pos : ℤ}
    (hpos : get1stOutputPos recorded.syscall = pos) :
    let val := (recorded.argAt frame (pos + 1)).val
    (replayFstat frame recorded : SysM σ ι π Word).run m =
      .ok (recorded.argAt frame pos).val.num ⟨m.core, withMem m.kern
        (putField (addr.toNat + 4) val.stDev (putField (addr.toNat + 12) val.stNlink
          (putField (addr.toNat + 8) val.stIno (putField (addr.toNat + 16) val.stSize
            (putField addr.toNat val.stType m.kern.proc.mem)))))⟩ := by
  intro val
  rw [replayFstat, EStateM.run_bind, EStateM.run_get]
  simp only [haddr, hpos]
  rw [run_bind_of_ok (run_onKern_of_ok (storeUser_run _ _))]
  rfl

/-- The tail of a replayed call, however it ends, changes at most user memory, and
that only for `read` and `fstat`. -/
theorem replay_tail_frame (ops : FsOps σ ι π) (k : Kind) (frame : Frame) (recorded : SCR)
    (m : Machine σ ι π) {ins : List FieldValue} (hfetch : k.Fetches m.kern.proc ins) :
    ∃ mem, endState (((handler ops k).replay frame recorded).run m)
        = { m with kern := withMem m.kern mem } ∧
      (k ≠ .read → k ≠ .fstat → mem = m.kern.proc.mem) := by
  cases k with
  | read =>
    obtain ⟨⟨addr, n⟩, hargs⟩ := Option.isSome_iff_exists.mp (hfetch.read rfl)
    simp only [handler, sysRead]
    rw [replayRead_at frame recorded m (argptr_readSize frame hargs) rfl]
    split
    · exact ⟨_, rfl, fun h => absurd rfl h⟩
    · exact ⟨_, rfl, fun h => absurd rfl h⟩
  | fstat =>
    obtain ⟨addr, haddr⟩ := Option.isSome_iff_exists.mp (hfetch.fstat rfl)
    simp only [handler, sysFstat]
    rw [replayFstat_run frame recorded m haddr rfl]
    exact ⟨_, rfl, fun _ h => absurd rfl h⟩
  | _ => exact ⟨m.kern.proc.mem, rfl, fun _ _ => rfl⟩

/-- **Replay executes nothing.**  While the caller is replaying, a call with any log,
matching or not, and however it ends, leaves the file system, the open-file table,
the tick counter and all of the process but its memory as they were; the memory
changes only for `read` and `fstat`.  Of the session it advances `scrs_idx` by one
below `MAX_SCRS`, and sets both mode flags, with the killed mark, when the
comparison rejects the call. -/
theorem replay_executes_nothing (ops : FsOps σ ι π) (k : Kind) (frame : Frame)
    (m : Machine σ ι π) (ins : List FieldValue)
    (hrep : isReplaying m.core.session m.kern.proc.pid = true)
    (hfetch : k.Fetches m.kern.proc ins) :
    let m' := endState (((handler ops k).run frame).run m)
    m'.kern.fs = m.kern.fs ∧ m'.kern.ftable = m.kern.ftable ∧ m'.kern.ticks = m.kern.ticks ∧
      m'.kern.proc = { m.kern.proc with mem := m'.kern.proc.mem } ∧
      (k ≠ .read → k ≠ .fstat → m'.kern.proc.mem = m.kern.proc.mem) ∧
      m'.core.session = { m.core.session with
        scrsIdx := m'.core.session.scrsIdx
        recordSyscalls := m'.core.session.recordSyscalls
        replaySyscalls := m'.core.session.replaySyscalls } ∧
      m'.core.session.scrsIdx = (if m.core.session.scrsIdx < maxScrs
        then m.core.session.scrsIdx + 1 else m.core.session.scrsIdx) ∧
      ∃ scr : SCR, scr.Holds ⟨k.number, ins⟩ ∧
        if Accepts m.core scr then
          m'.core.session.recordSyscalls = m.core.session.recordSyscalls ∧
          m'.core.session.replaySyscalls = m.core.session.replaySyscalls ∧
          m'.core.killed = m.core.killed
        else
          m'.core.session.recordSyscalls = -1 ∧ m'.core.session.replaySyscalls = -1 ∧
          m'.core.killed = true := by
  intro m'
  obtain ⟨scr, hscr, hrun⟩ := run_replaying_call ops k frame m hrep hfetch
  obtain ⟨mem, hend, hmem⟩ := replay_tail_frame ops k frame m.core.next
    { m with core := m.core.compared scr } hfetch
  have hm' : m' = ⟨m.core.compared scr, withMem m.kern mem⟩ := by
    rw [← hend, ← hrun]
  rw [hm']
  refine ⟨rfl, rfl, rfl, rfl, hmem, ?_, ?_, scr, hscr, ?_⟩
  all_goals
    rw [Core.compared]
    split <;> simp [recRepErr, Core.step]

end

/-- A process with pid `5` that is replaying an empty log and closes descriptor `3`. -/
def closingMachine : Machine (List Byte) Unit Unit where
  core := ⟨{ Session.boot with replaySyscalls := 1, rrPid := 5 }, false⟩
  kern := OneFile.kern 5 [3] [] []

theorem closingMachine_inLimits : Kind.close.InLimits closingMachine.kern.proc [.int 3] :=
  Kind.inLimits_of_plain (by decide) (by decide) (by decide) (by decide)

theorem replay_executes_nothing_close :
    let m' := endState (((handler OneFile.ops .close).run Frame.zero).run closingMachine)
    m'.kern.ftable = closingMachine.kern.ftable ∧
      m'.kern.proc.ofile = closingMachine.kern.proc.ofile ∧ m'.core.session.scrsIdx = 1 := by
  obtain ⟨-, hftable, -, hproc, -, -, hidx, -⟩ := replay_executes_nothing OneFile.ops .close
    Frame.zero closingMachine [.int 3] (by decide) closingMachine_inLimits.toFetches
  exact ⟨hftable, congrArg Proc.ofile hproc, hidx⟩

end V3
