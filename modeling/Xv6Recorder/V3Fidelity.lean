/-
# Replay gives back what was recorded

A call that the comparator accepts is answered from its entry: the return value, and
for `read` and `fstat` what the call had stored for its caller.  Together with saving
and loading this makes a replay of a recorded sequence of calls, by any process, hand
out what the recording process saw, call by call.
-/
import Xv6Recorder.V3Histories
import Xv6Recorder.V3Replaying

open Bytes StateError Xv6

namespace V3

/-! ## Reading an entry back -/

/-- An argument whose value is raw bytes holds them. -/
theorem slice_rawData_of_value {arg : Arg} {bytes : List Byte} (h : arg.value = .raw bytes) :
    slice arg.val.rawData 0 bytes.length = bytes := by
  unfold Arg.value at h
  split_ifs at h
  obtain rfl := FieldValue.raw.inj h
  rw [length_slice]
  exact slice_shift _ _ _

/-- An argument whose value is a `struct stat` holds its five fields. -/
theorem stat_of_value {arg : Arg} {st : Stat} (h : arg.value = .stat st) :
    st = ⟨arg.val.stType, arg.val.stDev, arg.val.stIno, arg.val.stNlink, arg.val.stSize⟩ := by
  unfold Arg.value at h
  split_ifs at h
  exact (FieldValue.stat.inj h).symm

/-- The five stores of a replayed `fstat` leave the five fields. -/
theorem loadStat_stores (addr : ℕ) (st : Stat) (mem : Memory) :
    loadStat (putField (addr + 4) st.dev (putField (addr + 12) st.nlink
      (putField (addr + 8) st.ino (putField (addr + 16) st.size
        (putField addr st.type mem))))) addr = st := by
  have h16 : 8 * (16 / 8) = 16 := by decide
  have h32 : 8 * (32 / 8) = 32 := by decide
  rw [loadStat, Stat.ext_iff]
  dsimp only
  refine ⟨?_, field_putField_same h32 _ _ _, ?_, ?_, ?_⟩
  · rw [field_putField_disjoint, field_putField_disjoint, field_putField_disjoint,
      field_putField_disjoint]
    · exact field_putField_same h16 _ _ _
    all_goals omega
  · rw [field_putField_disjoint, field_putField_disjoint]
    · exact field_putField_same h32 _ _ _
    all_goals omega
  · rw [field_putField_disjoint]
    · exact field_putField_same h16 _ _ _
    all_goals omega
  · rw [field_putField_disjoint, field_putField_disjoint, field_putField_disjoint]
    · exact field_putField_same h32 _ _ _
    all_goals omega

section

variable {σ ι π : Type}

variable {calls : List (Call σ ι π)} {ins : List FieldValue} {pid : Word}

/-- The inputs of a `read` are its descriptor and its size. -/
theorem fetchInputs_read {p : Proc ι} (h : fetchInputs p Kind.read.inputs = some ins)
    {addr n : Word} (hargs : readArgs p = some (addr, n)) : ∃ fd, ins = [.int fd, .int n] := by
  obtain ⟨v, vs, rfl, hv, hvs⟩ := fetchInputs_cons h
  obtain ⟨u, us, rfl, hu, hus⟩ := fetchInputs_cons hvs
  obtain ⟨fd, -, rfl⟩ := Option.map_eq_some_iff.mp hv
  obtain ⟨n', hn', rfl⟩ := Option.map_eq_some_iff.mp hu
  rw [(readArgs_eq_some hargs).1] at hn'
  obtain rfl := Option.some.inj hn'
  obtain rfl := Option.some.inj hus
  exact ⟨fd, rfl⟩

/-! ## The tail of a replayed call -/

variable (ops : FsOps σ ι π) (frame : Frame) {recorded : SCR} {ins : List FieldValue}

/-- The tail of a replayed `read` copies the recorded bytes. -/
theorem replayRead_returns (m : Machine σ ι π) {bytes : List Byte} {fd n ret addr : Word}
    (hholds : recorded.Holds ⟨SYS.read, [.int fd, .int n, .int ret, .raw bytes]⟩)
    (hargs : readArgs m.kern.proc = some (addr, n)) (hn : n.toNat ≤ maxRawSize)
    (hbytes : bytes.length = n.toNat) :
    (replayRead frame recorded : SysM σ ι π Word).run m = .ok ret
      { m with kern := withMem m.kern (overlay m.kern.proc.mem addr.toNat bytes) } := by
  have hpos : get1stOutputPos recorded.syscall = 2 := by rw [hholds.syscall_eq]; rfl
  -- the size, the return value and the bytes are arguments 1, 2 and 3
  have hval : ∀ (i : ℕ) (hi : i < 4), (recorded.argAt frame (i : ℕ)).value
      = [FieldValue.int fd, .int n, .int ret, .raw bytes][i] :=
    fun i hi => hholds.argAt_value frame i hi
  have hlen : (recorded.argAt frame 1).val.num = n := num_eq_of_value (Or.inl (hval 1 (by decide)))
  have hret : (recorded.argAt frame 2).val.num = ret :=
    num_eq_of_value (Or.inl (hval 2 (by decide)))
  have hraw : slice (recorded.argAt frame 3).val.rawData 0 n.toNat = bytes := by
    rw [← hbytes]
    exact slice_rawData_of_value (hval 3 (by decide))
  have hfit := argptr_le_pgroundup (readArgs_eq_some hargs).2 (hn.trans (by decide))
  rw [replayRead_at frame recorded m (argptr_readSize frame hargs) hpos,
    show (2 : ℤ) - 1 = 1 from rfl, show (2 : ℤ) + 1 = 3 from rfl, hlen, hret, hraw, if_pos hfit]

/-- The tail of a replayed `fstat` stores the recorded fields. -/
theorem replayFstat_returns (m : Machine σ ι π) {fd ret addr : Word} {st : Stat}
    (hholds : recorded.Holds ⟨SYS.fstat, [.int fd, .int ret, .stat st]⟩)
    (haddr : argptr m.kern.proc 1 statSize = some addr) :
    ∃ mem, (replayFstat frame recorded : SysM σ ι π Word).run m
        = .ok ret { m with kern := withMem m.kern mem } ∧ loadStat mem addr.toNat = st := by
  have hpos : get1stOutputPos recorded.syscall = 1 := by rw [hholds.syscall_eq]; rfl
  have hval : ∀ (i : ℕ) (hi : i < 3), (recorded.argAt frame (i : ℕ)).value
      = [FieldValue.int fd, .int ret, .stat st][i] := fun i hi => hholds.argAt_value frame i hi
  have hret : (recorded.argAt frame 1).val.num = ret :=
    num_eq_of_value (Or.inl (hval 1 (by decide)))
  have hst := stat_of_value (hval 2 (by decide))
  refine ⟨_, ?_, loadStat_stores addr.toNat st m.kern.proc.mem⟩
  rw [replayFstat_run frame recorded m haddr hpos, show (1 : ℤ) + 1 = 2 from rfl, hret, hst]
  rfl

/-- **The tail of a replayed call** whose entry is that of `call` returns what `call`
returned and stores what it stored. -/
theorem replay_tail_returns {call : Call σ ι π} (hlim : call.InLimits)
    (hholds : recorded.Holds call.entry) (m : Machine σ ι π)
    (hfetch : call.kind.Fetches m.kern.proc call.ins) :
    ∃ mem, ((handler ops call.kind).replay frame recorded).run m
        = .ok call.ret { m with kern := withMem m.kern mem } ∧
      call.kind.outputs m.kern.proc mem call.ret = call.outputs := by
  obtain ⟨kind, frame', ins, kern, ret, kern'⟩ := call
  have hfirst : recorded.firstOutput frame = ret :=
    firstOutput_eq hholds (fetchInputs_length hlim.inputs) (outputs_head kind _ _ _) frame
  cases kind with
  | read =>
    obtain ⟨⟨a, n⟩, hargs⟩ := Option.isSome_iff_exists.mp (hlim.read rfl)
    obtain ⟨⟨addr, n'⟩, hargs'⟩ := Option.isSome_iff_exists.mp (hfetch.read rfl)
    obtain ⟨fd, hins⟩ := fetchInputs_read hlim.inputs hargs
    obtain ⟨fd', hins'⟩ := fetchInputs_read hfetch.inputs hargs'
    -- the same inputs, so the same size
    dsimp only at hins hins'
    rw [hins] at hins'
    simp only [List.cons.injEq, FieldValue.int.injEq, and_true] at hins'
    obtain ⟨rfl, rfl⟩ := hins'
    have houts : Kind.read.outputs kern.proc kern'.proc.mem ret
        = [.int ret, .raw (slice kern'.proc.mem a.toNat n.toNat)] := by
      rw [Kind.outputs, hargs]
      rfl
    have hentry : recorded.Holds ⟨SYS.read, [.int fd, .int n, .int ret,
        .raw (slice kern'.proc.mem a.toNat n.toNat)]⟩ := by
      simpa [Call.entry, Call.outputs, houts, hins, Kind.number] using hholds
    refine ⟨_, replayRead_returns frame m hentry hargs' (hlim.size_toNat_le rfl hargs)
      (length_slice _ _ _), ?_⟩
    have hslice := slice_overlay_same m.kern.proc.mem addr.toNat
      (slice kern'.proc.mem a.toNat n.toNat)
    rw [length_slice] at hslice
    rw [Call.outputs, houts, Kind.outputs, hargs', Option.map_some, Option.toList_some, hslice]
  | fstat =>
    obtain ⟨a, haddr⟩ := Option.isSome_iff_exists.mp (hlim.fstat rfl)
    obtain ⟨addr, haddr'⟩ := Option.isSome_iff_exists.mp (hfetch.fstat rfl)
    have houts : Kind.fstat.outputs kern.proc kern'.proc.mem ret
        = [.int ret, .stat (loadStat kern'.proc.mem a.toNat)] := by
      rw [Kind.outputs, haddr]
      rfl
    obtain ⟨v, vs, hins, hv, hvs⟩ := fetchInputs_cons hlim.inputs
    obtain ⟨fd, -, rfl⟩ := Option.map_eq_some_iff.mp hv
    obtain rfl := Option.some.inj hvs
    dsimp only at hins
    have hentry : recorded.Holds ⟨SYS.fstat, [.int fd, .int ret,
        .stat (loadStat kern'.proc.mem a.toNat)]⟩ := by
      simpa [Call.entry, Call.outputs, houts, hins, Kind.number] using hholds
    obtain ⟨mem, hrun, hstat⟩ := replayFstat_returns frame m hentry haddr'
    refine ⟨mem, hrun, ?_⟩
    rw [Call.outputs, houts, Kind.outputs, haddr', Option.map_some, Option.toList_some, hstat]
  | _ =>
    refine ⟨m.kern.proc.mem, ?_, rfl⟩
    rw [← hfirst]
    rfl

/-! ## Replaying a recorded log -/

/-- Process `pid` is replaying the log `es` and has `i` calls behind it. -/
structure ReplayingAt (c : Core) (pid : Word) (es : List Entry) (i : ℕ) : Prop where
  replay : c.session.replaySyscalls = 1
  rrPid : c.session.rrPid = pid
  scrsIdx : c.session.scrsIdx = i
  decoded : Decoded c es

theorem ReplayReady.replayingAt {c : Core} {es : List Entry} (h : ReplayReady c pid es) :
    ReplayingAt c pid es 0 :=
  ⟨h.replay, h.rrPid, h.scrsIdx, h.decoded⟩

section

variable {c : Core} {pid : Word} {es : List Entry} {i : ℕ} (h : ReplayingAt c pid es i)
include h

theorem ReplayingAt.isReplaying {p : Word} (hp : p = pid) :
    V3.isReplaying c.session p = true := by
  simp [V3.isReplaying, h.replay, h.rrPid, hp]

theorem ReplayingAt.step (hi : i < maxScrs) : ReplayingAt c.step pid es (i + 1) where
  replay := h.replay
  rrPid := h.rrPid
  scrsIdx := by
    rw [Core.step, h.scrsIdx, if_pos (by exact_mod_cast hi)]
    rfl
  decoded := ⟨h.decoded.holds, h.decoded.fresh⟩

theorem ReplayingAt.next_holds (hi : i < es.length) (hlen : es.length ≤ maxScrs) :
    c.next.Holds es[i] := by
  have hnext : c.next = c.session.recordedScrs i := by
    rw [Core.next, h.scrsIdx, if_pos (by omega)]
  rw [hnext]
  exact h.decoded.holds i hi

/-- Past the end of the log there are only unused records. -/
theorem ReplayingAt.next_unused (hi : es.length ≤ i) : c.next = createSCR unitializedScr := by
  rw [Core.next, h.scrsIdx]
  by_cases hmax : (i : ℤ) < maxScrs
  · rw [if_pos hmax]
    exact h.decoded.fresh i hi (by exact_mod_cast hmax)
  · rw [if_neg hmax]

end

theorem ReplayingAt.next_entry {c : Core} {i : ℕ} (h : ReplayingAt c pid (calls.map Call.entry) i)
    (hlen : calls.length ≤ maxScrs) (hi : i < calls.length) : c.next.Holds calls[i].entry := by
  have hnext := h.next_holds (by rw [List.length_map]; exact hi) (by rw [List.length_map]; exact hlen)
  rwa [List.getElem_map] at hnext

/-- **The comparator decides** whether the next logged call has the number and the
inputs of the call at hand. -/
theorem ReplayingAt.accepts_iff {c : Core} {i : ℕ} (h : ReplayingAt c pid (calls.map Call.entry) i)
    (hlen : calls.length ≤ maxScrs) (hlim : ∀ call ∈ calls, call.InLimits) {k : Kind} {p : Proc ι}
    (hins : fetchInputs p k.inputs = some ins) {scr : SCR} (hscr : scr.Holds ⟨k.number, ins⟩) :
    Accepts c scr ↔ ∃ call, calls[i]? = some call ∧ call.kind.number = k.number ∧
      call.ins = ins := by
  by_cases hi : i < calls.length
  · have hnext := h.next_entry hlen hi
    have hcall := hlim _ (List.getElem_mem hi)
    have hsys : c.next.syscall = calls[i].kind.number := hnext.syscall_eq
    rw [List.getElem?_eq_getElem hi, Accepts, hsys, hscr.syscall_eq]
    simp only [Option.some.injEq, exists_eq_left']
    -- with equal numbers the inputs are fetched alike, and then compared
    have hmatch : calls[i].kind.number = k.number →
        (inputsMatch c.next scr = true ↔ calls[i].ins = ins) := by
      intro hnum
      rw [← hnum] at hscr
      refine inputsMatch_iff hnext hscr (fetchInputs_tags hcall.inputs) ?_ hcall.wf
      rw [inputs_eq_of_number_eq hnum]
      exact fetchInputs_tags hins
    constructor
    · rintro ⟨-, hnum, hin⟩
      exact ⟨hnum, (hmatch hnum).mp hin⟩
    · rintro ⟨hnum, hin⟩
      exact ⟨number_ne_unitializedScr _, hnum, (hmatch hnum).mpr hin⟩
  · rw [List.getElem?_eq_none (by omega), Accepts,
      h.next_unused (by rw [List.length_map]; omega)]
    constructor
    · rintro ⟨hused, -⟩
      exact absurd rfl hused
    · rintro ⟨call, hnone, -⟩
      cases hnone

/-- The kernel in which process `pid` makes `call` again, with the same inputs. -/
def Call.ReissuedBy (pid : Word) (call : Call σ ι π) (issue : Frame × Kern σ ι π) : Prop :=
  issue.2.proc.pid = pid ∧ call.kind.Fetches issue.2.proc call.ins

/-- The answer to a call is what `call` had been answered: the return value, and what
was stored for the caller. -/
structure Call.AnsweredBy (call answer : Call σ ι π) : Prop where
  kind : answer.kind = call.kind
  ins : answer.ins = call.ins
  ret : answer.ret = call.ret
  outputs : answer.outputs = call.outputs

section

variable {ops} {c : Core} {pid : Word} {calls : List (Call σ ι π)} {i : ℕ}
  (hlen : calls.length ≤ maxScrs) (hlim : ∀ call ∈ calls, call.InLimits)
include hlen hlim

/-- **One replayed call** that matches the log. -/
theorem ReplayingAt.call (h : ReplayingAt c pid (calls.map Call.entry) i) {call : Call σ ι π}
    (hcall : calls[i]? = some call) {issue : Frame × Kern σ ι π}
    (hissue : call.ReissuedBy pid issue) :
    ∃ kern', ((handler ops call.kind).run issue.1).run ⟨c, issue.2⟩
        = .ok call.ret ⟨c.step, kern'⟩ ∧
      call.kind.outputs issue.2.proc kern'.proc.mem call.ret = call.outputs := by
  obtain ⟨hi, hget⟩ := List.getElem?_eq_some_iff.mp hcall
  obtain ⟨hpid, hfetch⟩ := hissue
  obtain ⟨scr, hscr, hrun⟩ := run_replaying_call ops call.kind issue.1 ⟨c, issue.2⟩
    (h.isReplaying hpid) hfetch
  have haccepts : Accepts c scr :=
    (h.accepts_iff hlen hlim hfetch.inputs hscr).mpr ⟨call, hcall, rfl, rfl⟩
  have hnext := h.next_entry hlen hi
  rw [hget] at hnext
  obtain ⟨mem, htail, houts⟩ := replay_tail_returns ops issue.1
    (hlim call (List.mem_of_getElem? hcall)) hnext ⟨c.compared scr, issue.2⟩ hfetch
  refine ⟨withMem issue.2 mem, ?_, houts⟩
  rw [hrun, htail, Core.compared, if_pos haccepts]

omit hlen hlim in
/-- **A rejected call** marks its process, however its handler ends. -/
theorem ReplayingAt.killed_of_rejected (h : ReplayingAt c pid (calls.map Call.entry) i)
    {k : Kind} {frame : Frame} {kern : Kern σ ι π} {ins : List FieldValue} {v : Word}
    {m : Machine σ ι π} (hlen : calls.length ≤ maxScrs) (hlim : ∀ call ∈ calls, call.InLimits)
    (hpid : kern.proc.pid = pid) (hfetch : k.Fetches kern.proc ins)
    (hno : ¬ ∃ call, calls[i]? = some call ∧ call.kind.number = k.number ∧ call.ins = ins)
    (hok : ((handler ops k).run frame).run ⟨c, kern⟩ = .ok v m) : m.core.killed = true := by
  obtain ⟨scr, hscr, hrun⟩ := run_replaying_call ops k frame ⟨c, kern⟩ (h.isReplaying hpid) hfetch
  have hreject : ¬ Accepts c scr := fun haccepts =>
    hno ((h.accepts_iff hlen hlim hfetch.inputs hscr).mp haccepts)
  obtain ⟨mem, hend, -⟩ := replay_tail_frame ops k frame c.next ⟨c.compared scr, kern⟩ hfetch
  rw [← hrun, hok, endState_ok] at hend
  rw [hend]
  simp only [Core.compared, if_neg hreject]
  rfl

/-- **A replayed sequence of calls** that follows the log is answered from it, call by
call, and does not mark the process killed. -/
theorem ReplayingAt.reissue (h : ReplayingAt c pid (calls.map Call.entry) i)
    {taken : List (Call σ ι π)} {issues : List (Frame × Kern σ ι π)}
    (htaken : taken <+: calls.drop i) (hissues : List.Forall₂ (Call.ReissuedBy pid) taken issues) :
    ∃ answers c', Calls ops pid c answers c' ∧
      answers.map (fun a => (a.frame, a.kern)) = issues ∧
      List.Forall₂ Call.AnsweredBy taken answers ∧ c'.killed = c.killed := by
  induction hissues generalizing c i with
  | nil => exact ⟨[], c, .nil, rfl, .nil, rfl⟩
  | @cons call issue taken issues hissue hissues ih =>
    have hi : i < calls.length := by
      have := htaken.length_le
      rw [List.length_cons, List.length_drop] at this
      omega
    -- the next call of the log is the one that is made
    rw [List.drop_eq_getElem_cons hi, List.cons_prefix_cons] at htaken
    obtain ⟨hget, htaken⟩ := htaken
    have hcall : calls[i]? = some call := by rw [List.getElem?_eq_getElem hi, hget]
    obtain ⟨kern', hrun, houts⟩ := h.call hlen hlim hcall hissue
    obtain ⟨answers, c', hcalls, hmap, hanswers, hkilled⟩ := ih (h.step (by omega)) htaken
    refine ⟨⟨call.kind, issue.1, call.ins, issue.2, call.ret, kern'⟩ :: answers, c',
      .cons hissue.1 hrun hcalls, by rw [List.map_cons, hmap], .cons ?_ hanswers, hkilled⟩
    exact ⟨rfl, rfl, rfl, houts⟩

end

/-! ## From the recording to the replay -/

/-- A process has recorded `calls` to the file `path`: it started while nobody replayed,
made at most `MAX_SCRS` calls within the limits, whose encoding fits in the buffer, and
stopped with result `0`, which left the machine as given. -/
inductive Recorded {ops : FsOps σ ι π} (store : FileStore ops) (path : List Byte)
    (calls : List (Call σ ι π)) : Machine σ ι π → Prop
  | stop {m₀ m₁ m₂ : Machine σ ι π} {c : Core} {kern : Kern σ ι π}
      (hidle : m₀.core.session.replaySyscalls ≠ 1)
      (hname : argstr m₀.kern.proc 0 = some path)
      (hstart : (sysRecordStart : SysM σ ι π Word).run m₀ = .ok 1 m₁)
      (hcalls : Calls ops m₀.kern.proc.pid m₁.core calls c) (hlen : calls.length ≤ maxScrs)
      (hlim : ∀ call ∈ calls, call.InLimits)
      (hfit : (encodeLog (calls.map Call.entry)).length ≤ maxFileSize)
      (hpid : kern.proc.pid = m₀.kern.proc.pid) (hinv : store.Inv kern.fs)
      (hstop : (sysRecordStop ops).run ⟨c, kern⟩ = .ok 0 m₂) : Recorded store path calls m₂

section

variable {ops} {store : FileStore ops} {path : List Byte} {calls : List (Call σ ι π)}
  {m₂ m₃ m₄ : Machine σ ι π}

theorem Recorded.length_le (h : Recorded store path calls m₂) : calls.length ≤ maxScrs := by
  cases h
  assumption

theorem Recorded.inLimits (h : Recorded store path calls m₂) : ∀ call ∈ calls, call.InLimits := by
  cases h
  assumption

/-- What stopping leaves: the record flag is off, and the file begins with the entries
of the calls. -/
theorem Recorded.saved (h : Recorded store path calls m₂) :
    m₂.core.session.recordSyscalls = 0 ∧
      (encodeLog (calls.map Call.entry)).length ≤ maxFileSize ∧
      ∃ after, store.contents (m₂.kern.proc.cwd, strcpy path 255) m₂.kern.fs
        = some (encodeLog (calls.map Call.entry) ++ after) := by
  cases h with
  | @stop m₀ m₁ m₂ c kern hidle hname hstart hcalls hlen hlim hfit hpid hinv hstop =>
    rw [sysRecordStart_run hname] at hstart
    injection hstart with _ hm₁
    subst hm₁
    have hrecording : RecordingAt (m₀.startRecord path).core m₀.kern.proc.pid 0 :=
      ⟨rfl, hidle, rfl, rfl⟩
    obtain ⟨henc, hbytes, hown, hfile⟩ := hcalls.encoderInput hrecording hlen hlim
    obtain ⟨hcore, fd, k₁, ip, -, -, hfound⟩ := sysRecordStop_saves henc (hown.trans hpid.symm)
      store hinv (by rw [hbytes]; exact hfit) hstop
    have hcontents := hfound.contents
    dsimp only at hcontents
    rw [hbytes, hfile] at hcontents
    rw [hfound.proc]
    exact ⟨by rw [hcore]; rfl, hfit, _, hcontents⟩

/-- The session file of the recording, as it was left, is loaded by a replay. -/
abbrev Recording.ReloadedBy (store : FileStore ops) (path : List Byte) (m₂ m₃ : Machine σ ι π)
    (filename : List Byte) (m₄ : Machine σ ι π) : Prop :=
  Reloads store (store.contents (m₂.kern.proc.cwd, strcpy path 255) m₂.kern.fs) m₃ filename m₄

/-- **Replaying a recording**: a process that starts to replay the file, as the recording
left it, has the entries of the calls before it, or none while the record flag is on. -/
theorem Recorded.replayReady {filename : List Byte} (h : Recorded store path calls m₂)
    (hreload : Recording.ReloadedBy store path m₂ m₃ filename m₄) :
    ∃ c', (sysReplayStart ops).run m₃ = .ok 1 { m₄ with core := c' } ∧
      ReplayReady c' m₃.kern.proc.pid ((m₃.installs calls).map Call.entry) ∧
      c'.killed = m₃.core.killed := by
  obtain ⟨-, hfit, after, hsaved⟩ := h.saved
  have hes : ∀ e ∈ calls.map Call.entry, e.WellFormed := by
    intro e he
    obtain ⟨call, hcall, rfl⟩ := List.mem_map.mp he
    exact (h.inLimits call hcall).entry_wf
  rw [Recording.ReloadedBy, hsaved] at hreload
  rw [map_installs]
  exact hreload.replayReady hes (by rw [List.length_map]; exact h.length_le) hfit

end

/-- **What fidelity means**, from the state `c` after `sys_replay_start` by process `pid`:
re-issuing any part of the calls from the first on, with the same inputs, returns for each
what it had returned, with the same bytes for `read` and the same fields for `fstat`, and
never marks the process killed. -/
def Faithful (pid : Word) (c : Core) (calls : List (Call σ ι π)) : Prop :=
  ∀ (taken : List (Call σ ι π)) (issues : List (Frame × Kern σ ι π)), taken <+: calls →
    List.Forall₂ (Call.ReissuedBy pid) taken issues →
    ∃ answers c', Calls ops pid c answers c' ∧
      answers.map (fun a => (a.frame, a.kern)) = issues ∧
      List.Forall₂ Call.AnsweredBy taken answers ∧ c'.killed = false

section

variable {ops} {pid : Word} {c : Core} {calls : List (Call σ ι π)}

/-- A replay of the whole log is faithful. -/
theorem ReplayingAt.faithful (h : ReplayingAt c pid (calls.map Call.entry) 0)
    (hlen : calls.length ≤ maxScrs) (hlim : ∀ call ∈ calls, call.InLimits)
    (halive : c.killed = false) : Faithful ops pid c calls := by
  intro taken issues htaken hissues
  obtain ⟨answers, c', hanswers, hmap, hequal, hkilled⟩ :=
    h.reissue hlen hlim (by rw [List.drop_zero]; exact htaken) hissues
  exact ⟨answers, c', hanswers, hmap, hequal, hkilled.trans halive⟩

/-- The fetches do not look at the process id. -/
theorem fetchInputs_withPid (p : Proc ι) (pid : Word) (inputs : List Input) :
    fetchInputs { p with pid := pid } inputs = fetchInputs p inputs := by
  induction inputs with
  | nil => rfl
  | cons input inputs ih =>
    have hone : input.fetch { p with pid := pid } = input.fetch p := by cases input <;> rfl
    rw [fetchInputs, fetchInputs, ih, hone]

/-- Any call can be made again by another process. -/
theorem Call.InLimits.exists_reissue {call : Call σ ι π} (h : call.InLimits) (pid : Word) :
    ∃ issue, call.ReissuedBy pid issue := by
  refine ⟨(call.frame, { call.kern with proc := { call.kern.proc with pid := pid } }), rfl,
    ?_, h.wf, h.read, h.fstat⟩
  exact (fetchInputs_withPid call.kern.proc pid _).trans h.inputs

/-- A replay of an empty log kills at the first call. -/
theorem ReplayingAt.not_faithful {call : Call σ ι π} (h : ReplayingAt c pid [] 0)
    (hlim : call.InLimits) : ¬ Faithful ops pid c (call :: calls) := by
  intro hfaithful
  obtain ⟨issue, hissue⟩ := hlim.exists_reissue pid
  obtain ⟨answers, c', hcalls, hmap, hequal, halive⟩ := hfaithful [call] [issue]
    (List.cons_prefix_cons.mpr ⟨rfl, List.nil_prefix⟩) (.cons hissue .nil)
  cases hequal with
  | @cons _ answer _ _ hanswer hnil =>
    cases hnil
    cases hcalls with
    | cons hpid hrun hrest =>
      cases hrest
      obtain ⟨hframe, hkern⟩ := Prod.ext_iff.mp (List.singleton_inj.mp hmap)
      dsimp only at hframe hkern
      have hfetch : answer.kind.Fetches answer.kern.proc call.ins := by
        rw [hanswer.kind, hkern]
        exact hissue.2
      have hempty : ReplayingAt c pid (([] : List (Call σ ι π)).map Call.entry) 0 := h
      have hkilled := hempty.killed_of_rejected (Nat.zero_le _) (by simp) hpid hfetch (by simp) hrun
      rw [hkilled] at halive
      cases halive

end

/-- **Fidelity of replay.**  A process records `calls` to the file `path`, within the
limits, and stops with result `0`, which turns the record flag off.  Whatever else happens,
as long as the file is not changed: any process that starts to replay it, and whose file
can be opened, read and closed, is told that it replays and is not marked killed; and
re-issuing the calls gives back what was recorded exactly when the record flag is off at
the start of the replay, or no call was recorded. -/
theorem replay_fidelity_iff {store : FileStore ops} {path filename : List Byte}
    {m₂ m₃ m₄ : Machine σ ι π} {calls : List (Call σ ι π)}
    (hrecorded : Recorded store path calls m₂)
    (hreload : Recording.ReloadedBy store path m₂ m₃ filename m₄)
    (halive : m₃.core.killed = false) :
    m₂.core.session.recordSyscalls = 0 ∧
    ∃ c', (sysReplayStart ops).run m₃ = .ok 1 { m₄ with core := c' } ∧ c'.killed = false ∧
      (Faithful ops m₃.kern.proc.pid c' calls ↔
        m₃.core.session.recordSyscalls ≠ 1 ∨ calls = []) := by
  obtain ⟨c', hreplay, hready, hkilled⟩ := hrecorded.replayReady hreload
  refine ⟨hrecorded.saved.1, c', hreplay, hkilled.trans halive, ?_⟩
  rw [Machine.installs] at hready
  by_cases hrec : m₃.core.session.recordSyscalls = 1
  · rw [if_pos hrec] at hready
    cases calls with
    | nil =>
      exact iff_of_true (hready.replayingAt.faithful (Nat.zero_le _) (by simp)
        (hkilled.trans halive)) (.inr rfl)
    | cons call calls =>
      refine iff_of_false (hready.replayingAt.not_faithful
        (hrecorded.inLimits call List.mem_cons_self)) ?_
      simp [hrec]
  · rw [if_neg hrec] at hready
    exact iff_of_true (hready.replayingAt.faithful hrecorded.length_le hrecorded.inLimits
      (hkilled.trans halive)) (.inl hrec)

end

/-! ## One recorded call -/

/-- Process `pid` in a call with the path `"/f"`. -/
def callerKern (pid : Word) (file : List Byte) : Kern (List Byte) Unit Unit :=
  OneFile.kern pid [64] [47, 102, 0] file

/-- That process at boot. -/
def caller (pid : Word) (file : List Byte) : Machine (List Byte) Unit Unit :=
  ⟨⟨Session.boot, false⟩, callerKern pid file⟩

/-- The kernel after `my_open`, with open file `1` behind descriptor `0`. -/
def openKern : Kern (List Byte) Unit Unit :=
  openedFile ⟨1, one_lt_nfile⟩ () (oCreate ||| oRdwr)
    (setFd ⟨0, nofile_pos⟩ (some ⟨1, one_lt_nfile⟩)
      (setFile ⟨1, one_lt_nfile⟩ { (callerKern 5 []).ftable ⟨1, one_lt_nfile⟩ with ref := 1 }
        (callerKern 5 [])))

/-- The kernel after `my_write`. -/
def writtenKern (file : List Byte) : Kern (List Byte) Unit Unit :=
  setFile ⟨1, one_lt_nfile⟩
    { openKern.ftable ⟨1, one_lt_nfile⟩ with off := BitVec.ofNat 32 file.length }
    { openKern with fs := file }

variable {k : Kern (List Byte) Unit Unit} {file : List Byte}

/-- Stopping a recording whose encoding is `file`. -/
theorem stop_oneFile {c : Core} {n : ℕ} {w : Word} (henc : EncoderInput c n)
    (hpid : c.session.rrPid = 5) (hbytes : c.encoding n = file) (hfit : file.length ≤ maxFileSize)
    (hwrite : (myWrite OneFile.ops 0 file).run openKern = .ok w (writtenKern file)) (hw : w ≠ -1)
    (hclose : (myClose OneFile.ops 0).run (writtenKern file) = .ok 0 k) :
    (sysRecordStop OneFile.ops).run ⟨c, callerKern 5 []⟩ = .ok 0 ⟨c.packed file, k⟩ := by
  have hrun : (sysRecordStop OneFile.ops).run ⟨c, callerKern 5 []⟩
      = (saveSession OneFile.ops).run ⟨c.packed (c.encoding n), callerKern 5 []⟩ :=
    sysRecordStop_fits henc hpid (by rw [hbytes]; exact hfit)
  have hopen : (myOpen OneFile.ops c.session.recordFilename (oCreate ||| oRdwr)).run
      (callerKern 5 []) = .ok 0 openKern := rfl
  have hbuffer : slice (c.packed file).session.buffer 0
      (c.packed file).session.bufferPos.toNat = file := by
    simp only [Core.packed, Core.write, Core.rewind, zero_add, Int.toNat_natCast]
    exact slice_overlay_same _ _ _
  have hsave := saveSession_of_ok (m := ⟨c.packed file, callerKern 5 []⟩) hopen (by decide)
    (by rw [hbuffer]; exact hwrite) hw hclose (by decide)
  rw [hrun, hbytes, hsave]
  rfl

/-- Process `5` records calls and stops. -/
theorem recorded_oneFile (calls : List (Call (List Byte) Unit Unit)) {w : Word}
    (hlen : calls.length ≤ maxScrs) (hlim : ∀ call ∈ calls, call.InLimits)
    (hpid : ∀ call ∈ calls, call.kern.proc.pid = 5) (hrun : ∀ call ∈ calls,
      (handler OneFile.ops call.kind).original.run call.kern = .ok call.ret call.kern')
    (hlog : encodeLog (calls.map Call.entry) = file) (hfit : file.length ≤ maxFileSize)
    (hwrite : (myWrite OneFile.ops 0 file).run openKern = .ok w (writtenKern file)) (hw : w ≠ -1)
    (hclose : (myClose OneFile.ops 0).run (writtenKern file) = .ok 0 k) (hfs : k.fs = file) :
    ∃ m₂, Recorded OneFile.store [47, 102] calls m₂ ∧ m₂.kern.fs = file ∧
      m₂.core.killed = false := by
  have hname : argstr (caller 5 []).kern.proc 0 = some [47, 102] := rfl
  have hstart : RecordingAt ((caller 5 []).startRecord [47, 102]).core 5 0 :=
    ⟨rfl, by decide, rfl, rfl⟩
  have hidle : (caller 5 []).core.session.replaySyscalls ≠ 1 := by decide
  obtain ⟨c, hcalls⟩ := hstart.exists_calls calls (by omega) hlim hpid hrun
  obtain ⟨henc, hbytes, howner, -⟩ := hcalls.encoderInput hstart hlen hlim
  obtain ⟨f, hc, -, -⟩ := hstart.calls hcalls (by omega) hlim
  have hstop := stop_oneFile henc howner (hbytes.trans hlog) hfit hwrite hw hclose
  refine ⟨_, .stop hidle hname (sysRecordStart_run hname) hcalls hlen hlim
    (by rw [hlog]; exact hfit) rfl trivial hstop, hfs, ?_⟩
  show c.killed = false
  rw [hc]
  rfl

/-- Process `7` can load the file of a recording, whatever the session is by then. -/
theorem reloaded_oneFile {m₂ m₄ : Machine (List Byte) Unit Unit} (c : Core) {rStatus : Word}
    (hfs : m₂.kern.fs = file)
    (hload : (loadSession OneFile.ops).run ((caller 7 file).startReplay [47, 102])
      = .ok (some rStatus) m₄) :
    ∃ m, Recording.ReloadedBy OneFile.store [47, 102] m₂ ⟨c, callerKern 7 file⟩ [47, 102] m := by
  have hname : argstr (OneFile.proc 7 [64] [47, 102, 0]) 0 = some [47, 102] := by decide
  have hsame : (c.session.startReplay [47, 102] 7).replayFilename
      = ((caller 7 file).startReplay [47, 102]).core.session.replayFilename := rfl
  obtain ⟨c', hloads⟩ := loadSession_of_name (c := ⟨c.session.startReplay [47, 102] 7, c.killed⟩) hsame
    hload
  exact ⟨_, trivial, hname, congrArg some hfs.symm, rStatus, hloads⟩

/-- A `getpid` of process `5`. -/
def pidCall : Call (List Byte) Unit Unit := ⟨.getpid, Frame.zero, [], callerKern 5 [], 5,
  callerKern 5 []⟩

/-- The session file of one `getpid` of process `5`. -/
def pidFile : List Byte := [1, 0, 0, 0, 11, 1, 1, 5, 0, 0, 0]

theorem pidCall_inLimits (pid : Word) (file : List Byte) :
    Kind.getpid.InLimits (callerKern pid file).proc [] :=
  Kind.inLimits_of_plain (by decide) (by decide) rfl (by decide)

/-- Process `5` records a `getpid`. -/
theorem recorded_pidCall : ∃ m₂, Recorded OneFile.store [47, 102] [pidCall] m₂ ∧
    m₂.kern.fs = pidFile ∧ m₂.core.killed = false := by
  have hclose : ∃ k, (myClose OneFile.ops 0).run (writtenKern pidFile) = .ok 0 k ∧
      k.fs = pidFile := ⟨_, rfl, rfl⟩
  have hwrite : (myWrite OneFile.ops 0 pidFile).run openKern = .ok 11 (writtenKern pidFile) := rfl
  obtain ⟨k, hclose, hfs⟩ := hclose
  have hlim : pidCall.InLimits := pidCall_inLimits 5 []
  exact recorded_oneFile _ (by decide) (by simpa using hlim) (by simp [pidCall, callerKern,
    OneFile.kern, OneFile.proc]) (by simp only [List.mem_singleton, forall_eq]; rfl) (by decide)
    (by decide) hwrite (by decide) hclose hfs

/-- Process `7` can load the recording of the `getpid`. -/
theorem load_pidFile : ∃ m₄, (loadSession OneFile.ops).run
    ((caller 7 pidFile).startReplay [47, 102]) = .ok (some 11) m₄ := ⟨_, rfl⟩

/-- A `read` of four bytes by process `5`. -/
def readCall : Call (List Byte) Unit Unit where
  kind := .read
  frame := Frame.zero
  ins := [.int 3, .int 4]
  kern := OneFile.kern 5 [3, 64, 4] [] [9, 8, 7, 6]
  ret := 4
  kern' := endState ((handler OneFile.ops .read).original.run
    (OneFile.kern 5 [3, 64, 4] [] [9, 8, 7, 6]))

theorem readCall_inLimits {pid : Word} (hpid : pid = 5 ∨ pid = 7) :
    Kind.read.InLimits (OneFile.proc pid [3, 64, 4] []) [.int 3, .int 4] := by
  have hsize : argint (OneFile.proc pid [3, 64, 4] []) 2 = some 4 := by
    obtain rfl | rfl := hpid <;> decide
  have hins : fetchInputs (OneFile.proc pid [3, 64, 4] []) Kind.read.inputs
      = some [.int 3, .int 4] := by
    obtain rfl | rfl := hpid <;> decide
  refine ⟨⟨hins, by decide, fun _ => ?_, fun h => by cases h⟩, fun _ => ?_, ?_⟩
  · obtain rfl | rfl := hpid <;> decide
  · obtain rfl | rfl := hpid <;> decide
  · intro _ n hn
    rw [hsize] at hn
    obtain rfl := Option.some.inj hn
    decide

/-- The session file of the `read` and the `getpid`. -/
def readFile : List Byte :=
  [2, 0, 0, 0, 5, 4, 1, 3, 0, 0, 0, 1, 4, 0, 0, 0, 1, 4, 0, 0, 0, 3, 4, 0, 0, 0, 9, 8, 7, 6,
    11, 1, 1, 5, 0, 0, 0]

/-- Process `5` records a `read` and a `getpid`; process `7` replays them while nobody
records, and is given the same bytes and told `5`. -/
theorem replay_fidelity_iff_read : ∃ m c' a b,
    (sysReplayStart OneFile.ops).run (caller 7 readFile) = .ok 1 m ∧
    Calls OneFile.ops 7 m.core [a, b] c' ∧ a.kind = .read ∧
    a.outputs = [.int 4, .raw [9, 8, 7, 6]] ∧ b.kind = .getpid ∧ b.ret = 5 ∧
    c'.killed = false := by
  have hclose : ∃ k, (myClose OneFile.ops 0).run (writtenKern readFile) = .ok 0 k ∧
      k.fs = readFile := ⟨_, rfl, rfl⟩
  have hwrite : (myWrite OneFile.ops 0 readFile).run openKern
      = .ok 37 (writtenKern readFile) := rfl
  have hload : ∃ m₄, (loadSession OneFile.ops).run
      ((caller 7 readFile).startReplay [47, 102]) = .ok (some 37) m₄ := ⟨_, rfl⟩
  obtain ⟨k, hclose, hfs⟩ := hclose
  obtain ⟨m₄, hload⟩ := hload
  have hread : readCall.InLimits := readCall_inLimits (.inl rfl)
  have hpid : pidCall.InLimits := pidCall_inLimits 5 _
  obtain ⟨m₂, hrecorded, hfile, -⟩ := recorded_oneFile [readCall, pidCall] (by decide)
    (by simp [hread, hpid])
    (by simp [readCall, pidCall, callerKern, OneFile.kern, OneFile.proc])
    (by
      simp only [List.mem_cons, List.not_mem_nil, or_false, forall_eq_or_imp, forall_eq]
      exact ⟨rfl, rfl⟩) (by decide) (by decide) hwrite (by decide) hclose hfs
  obtain ⟨m, hreload⟩ := reloaded_oneFile ⟨Session.boot, false⟩ hfile hload
  obtain ⟨-, c', hreplay, -, hiff⟩ := replay_fidelity_iff OneFile.ops hrecorded hreload rfl
  have hfaithful := hiff.mpr (.inl (by decide))
  obtain ⟨answers, c'', hcalls, -, hequal, hkilled⟩ := hfaithful [readCall, pidCall]
    [(Frame.zero, OneFile.kern 7 [3, 64, 4] [] readFile), (Frame.zero, callerKern 7 readFile)]
    List.prefix_rfl (.cons ⟨rfl, (readCall_inLimits (.inr rfl)).toFetches⟩
      (.cons ⟨rfl, (pidCall_inLimits 7 _).toFetches⟩ .nil))
  cases hequal with
  | cons ha hrest =>
    cases hrest with
    | cons hb hnil =>
      cases hnil
      exact ⟨_, c'', _, _, hreplay, hcalls, ha.kind, ha.outputs, hb.kind, hb.ret, hkilled⟩

/-- Process `9` in a call with the path `"/g"`. -/
def otherKern (file : List Byte) : Kern (List Byte) Unit Unit :=
  OneFile.kern 9 [64] [47, 103, 0] file

/-- **A recording that is not replayed.**  Process `5` records a `getpid` to `/f` and stops;
process `9` starts to record to `/g`; process `7` starts to replay `/f`, is told that it
replays, and makes the recorded call: it is marked killed. -/
theorem replay_while_recording_kills : ∃ m₂ m₃ m w m₅,
    Recorded OneFile.store [47, 102] [pidCall] m₂ ∧ m₂.kern.fs = pidFile ∧
    (sysRecordStart : SysM _ _ _ Word).run ⟨m₂.core, otherKern pidFile⟩ = .ok 1 m₃ ∧
    (sysReplayStart OneFile.ops).run ⟨m₃.core, callerKern 7 pidFile⟩ = .ok 1 m ∧
    m.core.killed = false ∧
    ((handler OneFile.ops .getpid).run Frame.zero).run ⟨m.core, callerKern 7 pidFile⟩ = .ok w m₅ ∧
    m₅.core.killed = true := by
  obtain ⟨m₂, hrecorded, hfs, halive⟩ := recorded_pidCall
  have hname : argstr (otherKern pidFile).proc 0 = some [47, 103] := by decide
  have hstart := sysRecordStart_run (m := ⟨m₂.core, otherKern pidFile⟩) hname
  obtain ⟨m₄, hload⟩ := load_pidFile
  obtain ⟨m, hreload⟩ := reloaded_oneFile
    ((⟨m₂.core, otherKern pidFile⟩ : Machine _ _ _).startRecord [47, 103]).core hfs hload
  obtain ⟨c', hreplay, hready, hkilled⟩ := hrecorded.replayReady hreload
  -- nothing was decoded, so `getpid` is compared with an unused record
  have hempty : ReplayingAt c' 7 (([] : List (Call (List Byte) Unit Unit)).map Call.entry) 0 :=
    hready.replayingAt
  have hfetch := (pidCall_inLimits 7 pidFile).toFetches
  obtain ⟨w, m₅, hrun⟩ : ∃ w m₅, ((handler OneFile.ops .getpid).run Frame.zero).run
      ⟨c', callerKern 7 pidFile⟩ = .ok w m₅ := by
    obtain ⟨scr, -, hrun⟩ := run_replaying_call OneFile.ops .getpid Frame.zero
      ⟨c', callerKern 7 pidFile⟩ (hempty.isReplaying rfl) hfetch
    exact ⟨_, _, hrun.trans rfl⟩
  exact ⟨m₂, _, _, w, m₅, hrecorded, hfs, hstart, hreplay, hkilled.trans halive, hrun,
    hempty.killed_of_rejected (Nat.zero_le _) (by simp) rfl hfetch (by simp) hrun⟩

end V3
