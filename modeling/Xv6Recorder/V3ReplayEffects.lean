/-
# What a replayed call does to its caller (`v3/sysproc.c`, lines 258–360; `v3/sysfile.c`)

The comparator rejects a call exactly when the log has no record for it, or a record of
another syscall, or one with another input.  But it reports this only through the mode
flags and the killed mark, so the tail of the handler runs on with whatever record it was
given: it picks arguments by the position of the first output of that record's syscall, and
the tails of `read` and `fstat` store into user memory.

Even when the call is accepted, the tail of a `read` stores as many bytes as were asked
for when the call was recorded, not as many as were delivered.
-/
import Xv6Recorder.FsFiles
import Xv6Recorder.V3Capture
import Xv6Recorder.V3Fidelity

open Bytes StateError Xv6

namespace V3

/-! ## The comparator -/

/-- Two input arguments differ: in the integer, in the size, or in a byte below the size. -/
def Arg.Differs (recorded scr : Arg) : Prop :=
  recorded.type = intType ∧ recorded.val.num ≠ scr.val.num ∨
    recorded.type = byteType ∧ (recorded.val.rawSize ≠ scr.val.rawSize ∨
      ∃ j : ℕ, (j : ℤ) < recorded.val.rawSize.toInt ∧
        recorded.val.rawData j ≠ scr.val.rawData j)

/-- The record is one of kind `k`: its inputs have the types that the handler gives them. -/
def SCR.IsOf (scr : SCR) (k : Kind) : Prop :=
  scr.syscall = k.number ∧ ∀ (i : Fin maxArgc) (tag : Byte),
    (k.inputs.map Input.tag)[(i : ℕ)]? = some tag → (scr.args i).type = tag

/-- The conditions under which a call has to be rejected. -/
def Rejects (c : Core) (scr : SCR) : Prop :=
  let recorded := c.session.recordedScrs c.session.scrsIdx
  (maxScrs : ℤ) ≤ c.session.scrsIdx ∨ recorded.syscall = unitializedScr ∨
    recorded.syscall ≠ scr.syscall ∨
    ∃ i : Fin maxArgc, (i : ℤ) < get1stOutputPos recorded.syscall ∧
      (recorded.args i).Differs (scr.args i)

/-- One pass of the comparison loop on an argument that has a case in the switch. -/
theorem inputMatches_iff_not_differs {recorded scr : Arg}
    (htype : recorded.type = intType ∨ recorded.type = byteType) :
    inputMatches recorded scr = true ↔ ¬ recorded.Differs scr := by
  obtain ⟨t, rv⟩ := recorded
  dsimp only at htype
  have hne : intType ≠ byteType := by decide
  rcases htype with rfl | rfl
  · have hcases : inputMatches ⟨intType, rv⟩ scr = (Val.num rv == scr.val.num) := rfl
    rw [hcases, beq_iff_eq]
    constructor
    · rintro heq (⟨-, hnum⟩ | ⟨hbyte, -⟩)
      · exact hnum heq
      · exact hne hbyte
    · intro hno
      by_contra hnum
      exact hno (.inl ⟨rfl, hnum⟩)
  · have hcases : inputMatches ⟨byteType, rv⟩ scr = (Val.rawSize rv == scr.val.rawSize &&
        (List.range scr.val.rawSize.toInt.toNat).all
          (fun j => scr.val.rawData j == Val.rawData rv j)) := rfl
    rw [hcases, Bool.and_eq_true, beq_iff_eq, List.all_eq_true]
    constructor
    · rintro ⟨hsize, hdata⟩ (⟨hint, -⟩ | ⟨-, hsize' | ⟨j, hj, hbyte⟩⟩)
      · exact hne hint.symm
      · exact hsize' hsize
      · dsimp only at hj
        rw [hsize] at hj
        exact hbyte (beq_iff_eq.mp (hdata j (List.mem_range.mpr (by omega)))).symm
    · intro hno
      have hsize : Val.rawSize rv = scr.val.rawSize := by
        by_contra hsize
        exact hno (.inr ⟨rfl, .inl hsize⟩)
      -- the loop runs over the size of the new argument, which is the logged one
      refine ⟨hsize, fun j hj => beq_iff_eq.mpr ?_⟩
      by_contra hbyte
      have hj' := List.mem_range.mp hj
      refine hno (.inr ⟨rfl, .inr ⟨j, ?_, fun h => hbyte h.symm⟩⟩)
      dsimp only
      rw [hsize]
      omega

/-- An input of a well-formed record has a case in the switch. -/
theorem SCR.IsOf.input_type {scr : SCR} {k : Kind} (h : scr.IsOf k) {i : Fin maxArgc}
    (hi : (i : ℤ) < get1stOutputPos scr.syscall) :
    (scr.args i).type = intType ∨ (scr.args i).type = byteType := by
  rw [h.1, get1stOutputPos_number] at hi
  have hlt : (i : ℕ) < k.inputs.length := by exact_mod_cast hi
  have htype := h.2 i (k.inputs[(i : ℕ)]).tag (by simp [hlt])
  rw [htype]
  cases k.inputs[(i : ℕ)] with
  | int pos => exact .inl rfl
  | str pos => exact .inr rfl

/-- The comparison loop over the inputs of a well-formed record. -/
theorem inputsMatch_iff_not_differs {recorded scr : SCR} {k : Kind} (h : recorded.IsOf k) :
    inputsMatch recorded scr = true ↔ ¬ ∃ i : Fin maxArgc,
      (i : ℤ) < get1stOutputPos recorded.syscall ∧ (recorded.args i).Differs (scr.args i) := by
  rw [inputsMatch, List.all_eq_true]
  constructor
  · rintro hall ⟨i, hi, hdiffers⟩
    have hpass := hall i (List.mem_finRange i)
    rw [decide_eq_true hi, Bool.not_true, Bool.false_or] at hpass
    exact (inputMatches_iff_not_differs (h.input_type hi)).mp hpass hdiffers
  · intro hno i _
    by_cases hi : (i : ℤ) < get1stOutputPos recorded.syscall
    · rw [(inputMatches_iff_not_differs (h.input_type hi)).mpr fun hd => hno ⟨i, hi, hd⟩,
        Bool.or_true]
    · rw [decide_eq_false hi]
      rfl

/-- The entry at hand is unused, or well-formed for its syscall. -/
def EntryOk (c : Core) : Prop :=
  c.session.scrsIdx < maxScrs →
    (c.session.recordedScrs c.session.scrsIdx).syscall = unitializedScr ∨
      ∃ k, (c.session.recordedScrs c.session.scrsIdx).IsOf k

/-- Accepted are the calls that do not have to be rejected. -/
theorem accepts_iff_not_rejects {c : Core} (hentry : EntryOk c) (scr : SCR) :
    Accepts c scr ↔ ¬ Rejects c scr := by
  by_cases hidx : c.session.scrsIdx < maxScrs
  · have hnext : c.next = c.session.recordedScrs c.session.scrsIdx := if_pos hidx
    rw [Accepts, Rejects, hnext]
    rcases hentry hidx with hunused | ⟨k, hk⟩
    · exact iff_of_false (fun h => h.1 hunused) fun h => h (.inr (.inl hunused))
    · rw [inputsMatch_iff_not_differs hk]
      constructor
      · rintro ⟨hused, hnum, hno⟩ (hfull | hunused | hother | hdiffers)
        · omega
        · exact hused hunused
        · exact hother hnum
        · exact hno hdiffers
      · intro hno
        refine ⟨fun h => hno (.inr (.inl h)), ?_, fun h => hno (.inr (.inr (.inr h)))⟩
        by_contra hnum
        exact hno (.inr (.inr (.inl hnum)))
  · have hnext : c.next = createSCR unitializedScr := if_neg hidx
    rw [Accepts, hnext]
    exact iff_of_false (fun h => h.1 rfl) fun h => h (.inl (by omega))

theorem poisoned_step_iff (c : Core) : Poisoned c.step ↔ Poisoned c :=
  ⟨fun h => ⟨h.replay, h.record, h.killed⟩, fun h => ⟨h.replay, h.record, h.killed⟩⟩

/-- **The comparator**, on any log whose entry at hand is unused or well-formed for its
syscall: it leaves the process marked killed and both modes poisoned exactly when the call
has to be rejected, or they were so before.  Otherwise it returns the entry and changes
nothing but `scrs_idx`, which it advances. -/
theorem comparator_rejects_iff (c : Core) (scr : SCR) (hentry : EntryOk c) :
    (Poisoned (compareSCRS scr c).2 ↔ Rejects c scr ∨ Poisoned c) ∧
    (¬ Rejects c scr → compareSCRS scr c = (c.session.recordedScrs c.session.scrsIdx,
      { c with session := { c.session with scrsIdx := c.session.scrsIdx + 1 } })) := by
  rw [compareSCRS_eq]
  by_cases hrejects : Rejects c scr
  · rw [if_neg (fun h => (accepts_iff_not_rejects hentry scr).mp h hrejects)]
    exact ⟨iff_of_true (poisoned_recRepErr _) (.inl hrejects), fun h => absurd hrejects h⟩
  · have hidx : c.session.scrsIdx < maxScrs := by
      by_contra hfull
      exact hrejects (.inl (by omega))
    rw [if_pos ((accepts_iff_not_rejects hentry scr).mpr hrejects), poisoned_step_iff]
    refine ⟨⟨.inr, fun h => h.resolve_left hrejects⟩, fun _ => ?_⟩
    rw [Core.next, Core.step, if_pos hidx, if_pos hidx]

/-- The record that a `getpid` of process `5` leaves in the log. -/
def loggedPid : SCR :=
  (endState (((handler OneFile.ops .getpid).run Frame.zero).run
    readingMachine)).core.session.recordedScrs 0

/-- A session of process `7` that is replaying a single record. -/
def replayingOne (scr : SCR) : Core :=
  ⟨{ Session.boot with
      replaySyscalls := 1
      rrPid := 7
      recordedScrs := Function.update (fun _ => createSCR unitializedScr) 0 scr },
    false⟩

/-- An `uptime` where a `getpid` was recorded. -/
theorem comparator_rejects_iff_uptime :
    Poisoned (compareSCRS (createSCR SYS.uptime) (replayingOne loggedPid)).2 := by
  have hentry : (replayingOne loggedPid).next.IsOf .getpid := by
    refine ⟨rfl, ?_⟩
    intro i tag h
    cases h
  exact (comparator_rejects_iff (replayingOne loggedPid) (createSCR SYS.uptime)
    fun _ => .inr ⟨.getpid, hentry⟩).1.mpr (.inl (.inr (.inr (.inl (by decide)))))

section

variable {σ ι π : Type}

/-! ## The record of the call at hand -/

/-- What a handler takes for an input: a failed fetch gives `-1` or the empty string. -/
def Input.given (p : Proc ι) : Input → FieldValue
  | .int pos => .int ((argint p pos).getD (-1))
  | .str pos => .raw ((argstr p pos).getD [])

/-- Storing more bytes than were delivered is the same as storing the delivered ones exactly
when the rest is there already. -/
theorem overlay_eq_overlay_take_iff (mem : Memory) (addr : ℕ) (bytes : List Byte) {d : ℕ}
    (hd : d ≤ bytes.length) : overlay mem addr bytes = overlay mem addr (bytes.take d) ↔
      ∀ j, d ≤ j → j < bytes.length → mem (addr + j) = bytes.getD j 0 := by
  have hlen : (bytes.take d).length = d := by rw [List.length_take]; omega
  constructor
  · intro h j hlo hhi
    have hj := congrFun h (addr + j)
    rw [overlay_apply_inside _ _ _ _ hhi,
      overlay_apply_outside _ _ _ _ (.inr (by rw [hlen]; omega))] at hj
    exact hj.symm
  · intro h
    funext i
    by_cases hin : addr ≤ i ∧ i < addr + bytes.length
    · obtain ⟨j, rfl⟩ := Nat.exists_eq_add_of_le hin.1
      rw [overlay_apply_inside _ _ _ _ (by omega)]
      by_cases hj : j < d
      · rw [overlay_apply_inside _ _ _ _ (by omega)]
        simp [List.getD_eq_getElem?_getD, hj]
      · rw [overlay_apply_outside _ _ _ _ (.inr (by omega)), h j (by omega) (by omega)]
    · rw [overlay_apply_outside _ _ _ _ (by omega), overlay_apply_outside _ _ _ _ (by omega)]

/-! ### The kernel stack around the arguments -/

section

variable {k : Kind} {c : Core} {scr : SCR} {M : Machine σ ι π} {ops : FsOps σ ι π} {frame : Frame}

/-! ### One kind after the other -/

section

variable {a : Word} (htarget : argptr M.kern.proc 1 (readSize frame M.kern.proc) = some a)
include htarget

end

end

end

/-- Process `7` calls `read(3, 64, 2)`, with `1` and `2` in its buffer. -/
def rereadingKern : Kern (List Byte) Unit Unit := OneFile.kern 7 [3, 64, 2] [1, 2] []

/-- It replays a single record. -/
def rereading (scr : SCR) : Machine (List Byte) Unit Unit := ⟨replayingOne scr, rereadingKern⟩

theorem rereadingKern_args : readArgs rereadingKern.proc = some (64, 2) := by decide

theorem rereadingKern_fetches : Kind.read.Fetches rereadingKern.proc [.int 3, .int 2] where
  inputs := by decide
  wf := by decide
  read _ := by decide
  fstat h := by cases h

section

variable {σ ι π : Type} {ops : FsOps σ ι π}

/-- **The original `read`** stores the bytes that it delivers, as many as it returns. -/
theorem readOriginal_stores (laws : ReadLaws ops) {k k' : Kern σ ι π} {ret a n : Word}
    (hargs : readArgs k.proc = some (a, n)) (hfd : (argfd k.proc 0).isSome)
    (hrun : (readOriginal ops).run k = .ok ret k') :
    ∃ bytes : List Byte, k'.proc.mem = overlay k.proc.mem a.toNat bytes ∧
      bytes.length = ret.toInt.toNat ∧ ret.toInt ≤ n.toInt := by
  obtain ⟨⟨fd, f⟩, hfd⟩ := Option.isSome_iff_exists.mp hfd
  obtain ⟨hn, hptr⟩ := readArgs_eq_some hargs
  rw [readOriginal, EStateM.run_bind, EStateM.run_get] at hrun
  simp only [hfd, hn, hptr] at hrun
  obtain ⟨r, k₁, hread, hrun⟩ := run_bind_eq_ok.mp hrun
  rw [run_bind_of_ok (storeUser_run _ _)] at hrun
  injection hrun with hret hk
  obtain ⟨⟨hlen, hle⟩, hproc⟩ := laws.fileread (argptr_nonneg hptr) hread
  rw [← hret, ← hk]
  exact ⟨r.2, by rw [hproc], hlen, hle⟩

section

variable (frame : Frame) (m₂ : Machine σ ι π) {m : Machine σ ι π} {kern' : Kern σ ι π}
  {ins : List FieldValue} {ret a addr n : Word} (hlim : Kind.read.InLimits m.kern.proc ins)
  (hargs : readArgs m.kern.proc = some (a, n))
  (hrep : isReplaying m₂.core.session m₂.kern.proc.pid = true)
  (hentry : m₂.core.next.Holds
    ⟨SYS.read, ins ++ Kind.read.outputs m.kern.proc kern'.proc.mem ret⟩)
  (hfetch : Kind.read.Fetches m₂.kern.proc ins)
  (hargs₂ : readArgs m₂.kern.proc = some (addr, n))
include hlim hargs hrep hentry hfetch hargs₂

variable (ops) in
/-- A replayed `read` that matches the log copies the whole recorded buffer. -/
theorem replayed_read_run : ((handler ops .read).run frame).run m₂
    = .ok ret ⟨m₂.core.step, withMem m₂.kern
      (overlay m₂.kern.proc.mem addr.toNat (slice kern'.proc.mem a.toNat n.toNat))⟩ := by
  obtain ⟨fd, hins⟩ := fetchInputs_read hlim.inputs hargs
  have houts : Kind.read.outputs m.kern.proc kern'.proc.mem ret
      = [.int ret, .raw (slice kern'.proc.mem a.toNat n.toNat)] := by
    rw [Kind.outputs, hargs]
    rfl
  have hholds : m₂.core.next.Holds ⟨SYS.read, [.int fd, .int n, .int ret,
      .raw (slice kern'.proc.mem a.toNat n.toNat)]⟩ := by
    rw [hins, houts] at hentry
    exact hentry
  obtain ⟨scr, hscr, hrun⟩ := run_replaying_call ops .read frame m₂ hrep hfetch
  have haccepts : Accepts m₂.core scr := by
    refine ⟨?_, ?_, ?_⟩
    · rw [hentry.syscall_eq]
      exact (by decide : SYS.read ≠ unitializedScr)
    · rw [hentry.syscall_eq, hscr.syscall_eq]
      rfl
    · exact (inputsMatch_iff (k := .read) hentry hscr (fetchInputs_tags hlim.inputs)
        (fetchInputs_tags hfetch.inputs) hlim.wf).mpr rfl
  have htail := replayRead_returns frame ⟨m₂.core.compared scr, m₂.kern⟩ hholds hargs₂
    (hlim.size_toNat_le rfl hargs) (length_slice _ _ _)
  rw [hrun, Core.compared, if_pos haccepts]
  rw [Core.compared, if_pos haccepts] at htail
  exact htail

/-- **What a replayed `read` writes.**  A `read` of `n` bytes at `a` was recorded; it returned
`ret` and, as the original code does, changed the buffer in its first `max(ret, 0)` bytes only.
Another process that replays it with the same inputs, at `addr`, is returned `ret`, and of its
memory exactly those bytes change to the delivered ones if and only if the rest of its buffer
holds already what the rest of the recorded buffer held. -/
theorem replayed_read_writes_iff (laws : ReadLaws ops)
    (horig : (readOriginal ops).run m.kern = .ok ret kern') :
    let delivered := slice kern'.proc.mem a.toNat ret.toInt.toNat
    kern'.proc.mem = overlay m.kern.proc.mem a.toNat delivered ∧
    ∃ mem, ((handler ops .read).run frame).run m₂ = .ok ret ⟨m₂.core.step, withMem m₂.kern mem⟩ ∧
      (mem = overlay m₂.kern.proc.mem addr.toNat delivered ↔
        ∀ j, ret.toInt.toNat ≤ j → j < n.toNat →
          m₂.kern.proc.mem (addr.toNat + j) = m.kern.proc.mem (a.toNat + j)) := by
  intro delivered
  obtain ⟨bytes, hmem, hlen, hle⟩ := readOriginal_stores laws hargs (hlim.fd_open (.inl rfl)) horig
  have hint := toInt_eq_toNat_of_le (hlim.size_toNat_le rfl hargs)
  have hdelivered : delivered = bytes := by
    show slice kern'.proc.mem a.toNat ret.toInt.toNat = bytes
    rw [hmem, ← hlen, slice_overlay_same]
  refine ⟨by rw [hdelivered, hmem], _,
    replayed_read_run ops frame m₂ hlim hargs hrep hentry hfetch hargs₂, ?_⟩
  have hd : ret.toInt.toNat ≤ n.toNat := by omega
  have htake : delivered = (slice kern'.proc.mem a.toNat n.toNat).take ret.toInt.toNat := by
    rw [← Nat.add_sub_cancel' hd, slice_add, List.take_left' (length_slice _ _ _)]
  rw [htake, overlay_eq_overlay_take_iff _ _ _ (by rw [length_slice]; exact hd), length_slice]
  refine forall_congr' fun j => forall_congr' fun hlo => forall_congr' fun hhi => ?_
  -- beyond the delivered bytes the recorded buffer is as it was
  have hj : (slice kern'.proc.mem a.toNat n.toNat).getD j 0 = m.kern.proc.mem (a.toNat + j) := by
    rw [List.getD_eq_getElem?_getD, getElem?_slice _ _ _ _ hhi, Option.getD_some, hmem,
      overlay_apply_outside _ _ _ _ (.inr (by omega))]
  rw [hj]

end

end

/-- The disk with one file delivers what it says. -/
theorem oneFile_readLaws : ReadLaws OneFile.ops where
  piperead := by
    intro s s' p n r hn hrun
    injection hrun with hr _
    rw [← hr]
    exact ⟨rfl, le_trans (by decide) hn⟩
  readi := by
    intro s s' ip off n r hn hrun
    have hrun' : (if s.length < off.toNat then .ok (-1, []) s
      else .ok (BitVec.ofNat 32 ((s.drop off.toNat).take n.toNat).length,
        (s.drop off.toNat).take n.toNat) s : EStateM.Result String (List Byte) _) = .ok r s' := hrun
    split at hrun'
    · injection hrun' with hr _
      rw [← hr]
      exact ⟨rfl, le_trans (by decide) hn⟩
    · injection hrun' with hr _
      have hint := BitVec.toInt_eq_toNat_cond n
      have hlt := n.isLt
      have hlen : ((s.drop off.toNat).take n.toNat).length ≤ n.toNat := List.length_take_le _ _
      have hsmall : ((s.drop off.toNat).take n.toNat).length < 2 ^ 31 := by
        split at hint <;> omega
      rw [← hr]
      dsimp only
      rw [toInt_ofNat_of_lt hsmall]
      split at hint <;> omega

/-- A `read` that delivered all it was asked for. -/
theorem replayed_read_writes_iff_full : ∃ scr mem,
    ((handler OneFile.ops .read).run Frame.zero).run (rereading scr)
      = .ok 2 ⟨(rereading scr).core.step, withMem rereadingKern mem⟩ ∧
    mem = overlay rereadingKern.proc.mem 64 [104, 105] := by
  have horig : ∃ kern', (readOriginal OneFile.ops).run readingMachine.kern = .ok 2 kern' ∧
      slice kern'.proc.mem 64 2 = [104, 105] := ⟨_, rfl, rfl⟩
  obtain ⟨kern', horig, hdelivered⟩ := horig
  obtain ⟨scr, -, hholds⟩ := record_call_ok OneFile.ops .read Frame.zero readingMachine (by decide)
    (by decide) readingMachine_inLimits horig (by decide)
  have hargs : readArgs readingMachine.kern.proc = some (64, 2) := by decide
  obtain ⟨-, mem, hrun, hiff⟩ := replayed_read_writes_iff Frame.zero (rereading scr)
    readingMachine_inLimits hargs rfl hholds rereadingKern_fetches rereadingKern_args
    oneFile_readLaws horig
  refine ⟨scr, mem, hrun, ?_⟩
  rw [hiff.mpr fun j hlo hhi => absurd hhi (not_lt.mpr hlo)]
  exact congrArg _ hdelivered

/-- Process `5` is recording and calls `read(3, 64, 2)` at the end of a file, with `7` and `8` in
its buffer. -/
def eofMachine : Machine (List Byte) Unit Unit where
  core := recordingCore
  kern := OneFile.kern 5 [3, 64, 2] [7, 8] []

theorem eofMachine_inLimits : Kind.read.InLimits eofMachine.kern.proc [.int 3, .int 2] where
  inputs := by decide
  wf := by decide
  read _ := by decide
  fstat h := by cases h
  fd_open _ := by decide
  size_le _ n hn := by
    have hsize : argint eofMachine.kern.proc 2 = some 2 := by decide
    obtain rfl := Option.some.inj (hsize.symm.trans hn)
    decide

/-- **A `read` at the end of a file** returns `0` and delivers nothing.  Replayed, it also returns
`0`, and overwrites the buffer of the replaying process with what the recording one had there. -/
theorem replayed_eof_overwrites : ∃ scr kern',
    ((handler OneFile.ops .read).run Frame.zero).run eofMachine
      = .ok 0 ⟨eofMachine.core.append scr, kern'⟩ ∧
    rereadingKern.proc.mem 64 = 1 ∧
    ∃ m', ((handler OneFile.ops .read).run Frame.zero).run (rereading scr) = .ok 0 m' ∧
      m'.core.killed = false ∧ m'.kern.proc.mem 64 = 7 := by
  have horig : ∃ kern', (readOriginal OneFile.ops).run eofMachine.kern = .ok 0 kern' ∧
      slice kern'.proc.mem 64 2 = [7, 8] := ⟨_, rfl, rfl⟩
  obtain ⟨kern', horig, hbuffer⟩ := horig
  obtain ⟨scr, hrecord, hholds⟩ := record_call_ok OneFile.ops .read Frame.zero eofMachine
    (by decide) (by decide) eofMachine_inLimits horig (by decide)
  have hargs : readArgs eofMachine.kern.proc = some (64, 2) := by decide
  have hreplay := replayed_read_run OneFile.ops Frame.zero (rereading scr) eofMachine_inLimits
    hargs rfl hholds rereadingKern_fetches rereadingKern_args
  refine ⟨scr, kern', hrecord, by decide, _, hreplay, rfl, ?_⟩
  show overlay rereadingKern.proc.mem 64 (slice kern'.proc.mem 64 2) 64 = 7
  rw [hbuffer]
  rfl

end V3
