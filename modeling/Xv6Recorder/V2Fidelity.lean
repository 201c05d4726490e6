/-
# Replay of the second recorder gives back what was recorded

The parts are in place: what a recorded call leaves in the log, what a stop writes, what a
start reads, and how a logged call answers.  Here they are put together.  Whatever the file
held before the recording, and whatever a stale rest behind the new bytes decodes to, the
calls that were recorded come first in the table; a process that makes them again, with the
same inputs, is given for each of them what the recording process had seen, and nothing of
the kernel but its own memory changes.

The recorded calls are those that are logged: an `unlink` without a parent directory is not
(`Dropped`), and a replay has to leave it out.
-/
import Xv6Recorder.Layout
import Xv6Recorder.V2Overwriting

open Bytes StateError Xv6
open V3 (Kind readArgs withMem myOpen myRead myClose strcpy)

namespace V2

/-! ## Reading an entry back -/

/-- The packed fields of a `struct stat` are read back. -/
theorem pstat_packedStat (st : Stat) (mem : Memory) :
    Data.pstat (overlay mem 0 (packedStat st)) = st := by
  have hstands := stands_overlay mem 0 (packedStat st)
  generalize overlay mem 0 (packedStat st) = d at hstands ⊢
  simp only [packedStat, stands_append, length_toBytes, List.length_append] at hstands
  obtain ⟨⟨⟨⟨htype, hdev⟩, hino⟩, hnlink⟩, hsize⟩ := hstands
  unfold Data.pstat
  rw [Stat.ext_iff]
  exact ⟨htype.field rfl, hdev.field rfl, hino.field rfl, hnlink.field rfl, hsize.field rfl⟩

theorem content_byteStruct (bytes : List Byte) :
    slice (byteStruct bytes).content 0 bytes.length = bytes := by
  rw [show (byteStruct bytes).content = fun j => byteStruct bytes (4 + j) from rfl, slice_shift]
  exact slice_overlay_same _ 4 bytes

section

variable {σ ι π : Type} {ops : FsOps σ ι π} {stack : Memory}

theorem outputPos_val (k : Kind) : (outputPos k).val = k.inputs.length := by
  cases k <;> rfl

/-- The first output of every kind is the return value. -/
theorem outputs_ret (k : Kind) (p : Proc ι) (mem : Memory) (ret : Word) :
    ∃ v rest, outputs k p mem ret = v :: rest ∧ v.data = putField 0 ret fun _ => 0 := by
  cases k with
  | uptime => exact ⟨.uint ret, [], rfl, rfl⟩
  | read => exact ⟨.int ret, _, rfl, rfl⟩
  | fstat => exact ⟨.int ret, _, rfl, rfl⟩
  | _ => exact ⟨.int ret, [], rfl, rfl⟩

/-- The inputs of a `read` are its descriptor and its size. -/
theorem argsOf_read {p : Proc ι} {ins : List Arg} (h : argsOf p Kind.read.inputs = some ins)
    {addr n : Word} (hargs : readArgs p = some (addr, n)) : ∃ fd, ins = [.int fd, .int n] := by
  obtain ⟨v, vs, rfl, hv, hvs⟩ := argsOf_cons h
  obtain ⟨u, us, rfl, hu, hus⟩ := argsOf_cons hvs
  obtain ⟨fd, -, rfl⟩ := Option.map_eq_some_iff.mp hv
  obtain ⟨n', hn', rfl⟩ := Option.map_eq_some_iff.mp hu
  rw [(V3.readArgs_eq_some hargs).1] at hn'
  obtain rfl := Option.some.inj hn'
  obtain rfl := Option.some.inj hus
  exact ⟨fd, rfl⟩

/-- A value behind the inputs is found in the call of an entry. -/
theorem getFieldData_entry {number : Byte} {ins : List Arg} {outs : List Value}
    {i : Fin maxFieldSize} {v : Value} (hlo : ins.length ≤ i.val)
    (hv : outs[i.val - ins.length]? = some v) :
    getFieldData (Entry.call ⟨number, ins.map Arg.value ++ outs⟩) i = v.data := by
  obtain ⟨hlt, hget⟩ := List.getElem?_eq_some_iff.mp hv
  have hi : i.val < (ins.map Arg.value ++ outs).length := by
    rw [List.length_append, List.length_map]
    omega
  unfold getFieldData
  rw [fields_of_lt (e := ⟨number, _⟩) hi]
  dsimp only
  rw [List.getElem_append_right (by rw [List.length_map]; exact hlo)]
  simp only [List.length_map, hget, Value.field]

/-! ## A call that is answered -/

/-- Process `pid` makes the recorded call again, with the same inputs. -/
structure Made.ReissuedAs (pid : Word) (call : Made σ ι π) (issue : Issue σ ι π) : Prop where
  kind : issue.kind = call.kind
  ins : issue.ins = call.ins
  made : issue.MadeBy pid

/-- The call as it was made. -/
def Made.issue (call : Made σ ι π) : Issue σ ι π := ⟨call.kind, call.ins, call.kern⟩

/-- The answer to a call is what `call` had been answered: the return value, and what was
stored for the caller.  In the kernel nothing but the caller's memory has changed. -/
structure Made.AnsweredBy (call answer : Made σ ι π) : Prop where
  kind : answer.kind = call.kind
  ins : answer.ins = call.ins
  ret : answer.ret = call.ret
  outputs : outputs answer.kind answer.kern.proc answer.kern'.proc.mem answer.ret
    = V2.outputs call.kind call.kern.proc call.kern'.proc.mem call.ret
  untouched : ∃ mem, answer.kern' = withMem answer.kern mem

/-- The recorded entry has the inputs of its call. -/
theorem Made.hasInputs {call : Made σ ι π} (hwf : ∀ arg ∈ call.ins, arg.WellFormed) :
    HasInputs call.entry.call call.ins := by
  intro i arg harg
  rw [Made.entry, fields_inputs _ harg]
  cases arg with
  | int num => exact num_putField num
  | str text =>
    have hlen : text.length ≤ maxByteSize := hwf _ (List.mem_of_getElem? harg)
    exact ⟨size_byteStruct hlen, content_byteStruct text⟩

/-- **What a logged call answers** is what its call had been answered. -/
theorem Answers.outputs_eq {pid : Word} {call : Made σ ι π} (hcall : call.By ops pid)
    {p : Proc ι} (hfetch : Fetches call.kind p call.ins) {mem : Memory} {ret : Word}
    (h : Answers call.kind p call.entry.call mem ret) :
    ret = call.ret ∧ outputs call.kind p mem ret
      = outputs call.kind call.kern.proc call.kern'.proc.mem call.ret := by
  obtain ⟨kind, ins, kern, ret₀, kern'⟩ := call
  have hlen : ins.length = kind.inputs.length := hcall.inLimits.length_eq
  have hret : ret = ret₀ := by
    obtain ⟨v, rest, houts, hdata⟩ := outputs_ret kind kern.proc kern'.proc.mem ret₀
    have hdata' : getFieldData (Entry.call ⟨number kind, ins.map Arg.value ++
        outputs kind kern.proc kern'.proc.mem ret₀⟩) (outputPos kind) = v.data := by
      refine getFieldData_entry (by rw [outputPos_val]; omega) ?_
      rw [outputPos_val, hlen, Nat.sub_self, houts]
      rfl
    rw [h.ret_eq, Made.entry, hdata', hdata]
    exact num_putField ret₀
  subst hret
  refine ⟨rfl, ?_⟩
  cases kind with
  | read =>
    obtain ⟨⟨a, n⟩, hargs⟩ := Option.isSome_iff_exists.mp (hcall.inLimits.read rfl)
    obtain ⟨⟨addr, n'⟩, hargs'⟩ := Option.isSome_iff_exists.mp (hfetch.read rfl)
    obtain ⟨fd, hins⟩ := argsOf_read hcall.inLimits.inputs hargs
    obtain ⟨fd', hins'⟩ := argsOf_read hfetch.inputs hargs'
    -- the same inputs, so the same size
    dsimp only at hins hins' hargs
    rw [hins] at hins'
    simp only [List.cons.injEq, Arg.int.injEq, and_true] at hins'
    obtain ⟨-, rfl⟩ := hins'
    have hdata : getFieldData (Entry.call ⟨number .read, ins.map Arg.value ++
        outputs .read kern.proc kern'.proc.mem ret⟩) 3
        = byteStruct (slice kern'.proc.mem a.toNat n.toNat) := by
      refine getFieldData_entry (v := .bytes _) (by rw [hins]; exact Nat.le_succ 2) ?_
      rw [hins, outputs, hargs]
      rfl
    have hcontent := content_byteStruct (slice kern'.proc.mem a.toNat n.toNat)
    rw [length_slice] at hcontent
    have hread := h.read rfl addr n hargs'
    rw [Made.entry] at hread
    dsimp only at hread
    rw [hdata, hcontent] at hread
    dsimp only
    rw [outputs, outputs, hargs, hargs', Option.map_some, Option.map_some, hread]
  | fstat =>
    obtain ⟨a, haddr⟩ := Option.isSome_iff_exists.mp (hcall.inLimits.fstat rfl)
    obtain ⟨addr, haddr'⟩ := Option.isSome_iff_exists.mp (hfetch.fstat rfl)
    dsimp only at haddr
    have hlen' : ins.length = 1 := hlen
    have hdata : getFieldData (Entry.call ⟨number .fstat, ins.map Arg.value ++
        outputs .fstat kern.proc kern'.proc.mem ret⟩) 2
        = overlay (fun _ => 0) 0 (packedStat (loadStat kern'.proc.mem a.toNat)) := by
      refine getFieldData_entry (v := .pstat _) (by rw [hlen']; decide) ?_
      rw [hlen', outputs, haddr]
      rfl
    have hstat := h.fstat rfl addr haddr'
    rw [Made.entry] at hstat
    dsimp only at hstat
    rw [hdata, pstat_packedStat] at hstat
    dsimp only
    rw [outputs, outputs, haddr, haddr', Option.map_some, Option.map_some, hstat]
  | _ => rfl

/-! ## Replaying a table that begins with a log -/

/-- Process `pid` is replaying a table that begins with `log`, and has `i` calls behind it.
What stands behind the log is not said. -/
structure BeginsWith (c : Core) (pid : Word) (log : List Entry) (i : ℕ) : Prop where
  replay : c.session.replaySyscalls = 1
  record : c.session.recordSyscalls ≠ 1
  rrPid : c.session.rrPid = pid
  syscallIdx : c.session.syscallIdx = i
  calls : ∀ j (h : j < log.length), c.session.calls j = (log[j]).call
  length_le : log.length ≤ maxSysCalls

section

variable {c : Core} {pid : Word} {log : List Entry} {i : ℕ}

theorem BeginsWith.advance (h : BeginsWith c pid log i) : BeginsWith c.advance pid log (i + 1) :=
  ⟨h.replay, h.record, h.rrPid, congrArg (· + 1) h.syscallIdx, h.calls, h.length_le⟩

/-- The whole table is a log that is replayed. -/
theorem BeginsWith.replayingAt (h : BeginsWith c pid log i) :
    ReplayingAt c pid ((List.range maxSysCalls).map c.session.calls) i where
  replay := h.replay
  record := h.record
  rrPid := h.rrPid
  syscallIdx := h.syscallIdx
  calls j hj := by rw [List.getElem_map, List.getElem_range]
  unused j hlo hhi := by
    rw [List.length_map, List.length_range] at hlo
    omega
  length_le := by rw [List.length_map, List.length_range]

theorem BeginsWith.table_getElem? (h : BeginsWith c pid log i) {e : Entry}
    (hat : log[i]? = some e) :
    ((List.range maxSysCalls).map c.session.calls)[i]? = some e.call := by
  obtain ⟨hi, hget⟩ := List.getElem?_eq_some_iff.mp hat
  have hmax := h.length_le
  rw [List.getElem?_map, List.getElem?_range (by omega), Option.map_some, h.calls i hi, hget]

/-- **One recorded call, made again.** -/
theorem BeginsWith.answered (stack : Memory) {owner : Word} {call : Made σ ι π}
    (h : BeginsWith c pid log i) (halive : c.killed = false) (hcall : call.By ops owner)
    (hat : log[i]? = some call.entry) {issue : Issue σ ι π} (hissue : call.ReissuedAs pid issue) :
    ∃ answer : Made σ ι π, answer.issue = issue ∧ call.AnsweredBy answer ∧
      (trap ops stack (.call answer.kind)).run ⟨c, answer.kern⟩
        = .ok (some answer.ret) ⟨c.advance, answer.kern'⟩ := by
  obtain ⟨kind, ins, kern⟩ := issue
  obtain ⟨hkind, hins, hmade⟩ := hissue
  dsimp only at hkind hins
  subst hkind hins
  have hsame : (⟨call.kind, call.ins, kern⟩ : Issue σ ι π).SameAs call.entry.call :=
    ⟨rfl, Made.hasInputs hcall.inLimits.wf⟩
  obtain ⟨ret, mem, htrap, hanswers⟩ := h.replayingAt.answered ops stack halive hmade
    (h.table_getElem? hat) ⟨call.kind, hcall.wellTyped⟩ hsame
  obtain ⟨hret, houts⟩ := hanswers.outputs_eq hcall hmade.2
  exact ⟨⟨call.kind, call.ins, kern, ret, withMem kern mem⟩, rfl,
    ⟨rfl, rfl, hret, houts, mem, rfl⟩, htrap⟩

/-- **Recorded calls, made again in order,** from any position of the log on. -/
theorem BeginsWith.reissue (stack : Memory) {owner : Word} {kept : List (Made σ ι π)}
    (hkept : ∀ call ∈ kept, call.By ops owner) (h : BeginsWith c pid (kept.map Made.entry) i)
    (halive : c.killed = false) {taken : List (Made σ ι π)} {issues : List (Issue σ ι π)}
    (htaken : taken <+: kept.drop i)
    (hissues : List.Forall₂ (Made.ReissuedAs pid) taken issues) :
    ∃ answers c', Makes ops stack c answers c' ∧ answers.map Made.issue = issues ∧
      List.Forall₂ Made.AnsweredBy taken answers ∧
      BeginsWith c' pid (kept.map Made.entry) (i + taken.length) := by
  induction hissues generalizing c i with
  | nil => exact ⟨[], c, .nil, rfl, .nil, h⟩
  | @cons call issue taken issues hissue hissues ih =>
    have hi : i < kept.length := by
      have hle := htaken.length_le
      rw [List.length_cons, List.length_drop] at hle
      omega
    -- the next call of the log is the one that is made
    rw [List.drop_eq_getElem_cons hi, List.cons_prefix_cons] at htaken
    obtain ⟨hget, htaken⟩ := htaken
    have hat : (kept.map Made.entry)[i]? = some call.entry := by
      rw [List.getElem?_map, List.getElem?_eq_getElem hi, hget]
      rfl
    have hcall : call.By ops owner := by
      rw [hget]
      exact hkept _ (List.getElem_mem hi)
    obtain ⟨answer, hanswer, hanswered, htrap⟩ := h.answered stack halive hcall hat hissue
    obtain ⟨answers, c', hmakes, hmap, hanswers, hend⟩ := ih h.advance halive htaken
    refine ⟨answer :: answers, c', .cons htrap hmakes, ?_, .cons hanswered hanswers, ?_⟩
    · rw [List.map_cons, hanswer, hmap]
    · rw [List.length_cons, show i + (taken.length + 1) = i + 1 + taken.length by omega]
      exact hend

end

/-! ## From the recording to the table -/

/-- The recorded calls that the log keeps. -/
def Recording.kept (b : Recording ops stack) : List (Made σ ι π) :=
  b.calls.filter fun call => ¬ Dropped ops call.kind call.kern

theorem Recording.kept_by (b : Recording ops stack) :
    ∀ call ∈ b.kept, call.By ops b.before.kern.proc.pid :=
  fun call hcall => b.made call (List.mem_filter.mp hcall).1

/-- After a recording the file begins with the log, whatever it held before and whether or
not it was there. -/
theorem Recording.begins (b : Recording ops stack) (store : FileStore ops)
    (hinv : store.Inv b.kern.fs) :
    ∃ rest, store.contents b.place b.after.kern.fs = some (encodeLog b.log ++ rest) := by
  obtain ⟨fd, k₁, w, k₂, closed, hopen, hfd, hwrite, hw, hclose⟩ := b.saves
  have hfits : (encodeLog b.log).length ≤ bufferSize := b.fits
  simp only [bufferSize] at hfits
  exact ⟨_, (V3.overwrite_holds store b.place (by omega) rfl ⟨rfl, hinv, rfl⟩ hopen hfd hwrite hw
    hclose).contents⟩

theorem onBuffer_same {α : Type} {buffer : Memory} {x : CodecM α} {m m' : Machine σ ι π}
    {r : α × Cursor} (h : (onBuffer buffer x).run m = .ok r m') : m' = m := by
  rw [EStateM.run, onBuffer] at h
  split at h
  · injection h with _ hm
    exact hm.symm
  · cases h

/-- A load that returns has opened, read and closed the file. -/
theorem loads_of_loadSession {m m' : Machine σ ι π}
    (h : (loadSession ops stack).run m = .ok () m') :
    ∃ r k', Loads ops m.core.session.replayFilename m.kern r k' := by
  rw [loadSession, EStateM.run_bind, EStateM.run_get] at h
  obtain ⟨fd, m₁, hrun, h⟩ := run_bind_eq_ok.mp h
  obtain ⟨k₁, hopen, rfl⟩ := run_zoom_eq_ok.mp hrun
  split at h
  · cases h
  case isFalse hfd =>
    obtain ⟨r, m₂, hrun, h⟩ := run_bind_eq_ok.mp h
    obtain ⟨k₂, hread, rfl⟩ := run_zoom_eq_ok.mp hrun
    split at h
    · cases h
    case isFalse hr =>
      rw [EStateM.run_bind, EStateM.run_get] at h
      obtain ⟨decoded, m₃, hbuffer, h⟩ := run_bind_eq_ok.mp h
      obtain ⟨u, m₄, hcore, h⟩ := run_bind_eq_ok.mp h
      obtain ⟨closed, m₅, hrun, h⟩ := run_bind_eq_ok.mp h
      obtain ⟨k₃, hclose, -⟩ := run_zoom_eq_ok.mp hrun
      split at h
      · cases h
      case isFalse hclosed =>
        -- decoding and storing the table leave the kernel alone
        obtain rfl := onBuffer_same hbuffer
        obtain ⟨c, -, rfl⟩ := run_zoom_eq_ok.mp hcore
        exact ⟨r, k₃, fd, k₁, k₂, closed, hopen, hfd, hread, hr, hclose, hclosed⟩

/-- What is read of a file, up to the size of the buffer. -/
theorem Loads.takes (store : FileStore ops) {path bytes : List Byte} {k k' : Kern σ ι π}
    {r : Word × List Byte} (h : Loads ops path k r k') (hinv : store.Inv k.fs)
    (hcontents : store.contents (k.proc.cwd, path) k.fs = some bytes) :
    r.1.toInt = r.2.length ∧ r.2 = bytes.take bufferSize := by
  obtain ⟨fd, k₁, k₂, closed, hopen, hfd, hread, hr, hclose, -⟩ := h
  obtain ⟨hstatus, hbytes⟩ := Prod.ext_iff.mp (V3.load_reads store (k.proc.cwd, path) rfl
    ⟨rfl, hinv, hcontents⟩ hopen hfd hread hr hclose).1
  simp only at hstatus hbytes
  rw [toNat_ofNat_of_lt (by decide)] at hbytes
  have hle : r.2.length ≤ bufferSize := by
    rw [hbytes, List.length_take]
    exact min_le_left _ _
  simp only [bufferSize] at hle
  exact ⟨by rw [hstatus, toInt_ofNat_of_lt (by omega)], hbytes⟩

/-- **A started replay** of a file that begins with a log has a table that begins with it,
whatever the rest of the file decodes to. -/
theorem sysReplayStart_beginsWith (store : FileStore ops) {log : List Entry}
    (hlog : ∀ e ∈ log, e.WellFormed) (hlen : log.length ≤ maxSysCalls)
    (hfit : (encodeLog log).length ≤ bufferSize) {m m' : Machine σ ι π} {path rest : List Byte}
    (hpath : argstr m.kern.proc 0 = some path) (hinv : store.Inv m.kern.fs)
    (hcontents : store.contents (m.kern.proc.cwd, strcpy path 255) m.kern.fs
      = some (encodeLog log ++ rest))
    (hstart : (sysReplayStart ops stack).run m = .ok 1 m') :
    BeginsWith m'.core m.kern.proc.pid log 0 ∧ m'.core.killed = m.core.killed := by
  have hload : ∃ r k', Loads ops (strcpy path 255) m.kern r k' := by
    have hrun := hstart
    rw [sysReplayStart_run, hpath] at hrun
    obtain ⟨⟨⟩, m₁, hrun, -⟩ := run_bind_eq_ok.mp hrun
    exact loads_of_loadSession (m := ⟨m.core.startReplay path m.kern.proc.pid, m.kern⟩) hrun
  obtain ⟨r, k', hload⟩ := hload
  obtain ⟨hstatus, hbytes⟩ := hload.takes store hinv hcontents
  obtain ⟨calls, c', hdecode, rfl⟩ := (sysReplayStart_eq_ok stack hpath hload m').mp hstart
  -- the buffer begins with the encoding of the log
  rw [List.take_append, List.take_of_length_le hfit] at hbytes
  have hsees : slice (overlay stack 0 r.2) 0 (encodeLog log).length = encodeLog log := by
    rw [hbytes, ← overlay_overlay_append, slice_overlay_disjoint _ _ _ _ _ (by omega),
      slice_overlay_same]
  have hlength : (encodeLog log).length ≤ r.2.length := by
    rw [hbytes, List.length_append]
    omega
  rw [uncompressCalls_log (c := ⟨overlay stack 0 r.2, 0⟩) log hlog (unused_reset _ hlen) hlen
    (by simpa using hfit) hsees (by rw [hstatus]; exact_mod_cast (by simpa using hlength))] at hdecode
  refine ⟨⟨rfl, (by decide : (0 : Word) ≠ 1), rfl, rfl, fun j hj => ?_, hlen⟩, rfl⟩
  have hslot := uncompressCalls_below hdecode (j := j) (by omega)
  have hat := fillCalls_at (resetSyscalls m.core.session).calls 0 hj
  rw [Nat.zero_add] at hat
  exact hslot.trans hat

/-- **Fidelity of replay.**  A process records calls to a file, within the limits, and stops
with result `0`; the file may have held anything before, or not have been there.  Any process
that later starts to replay the contents it left, and is told that it replays, may make any
part of the logged calls again, from the first on and with the same inputs.  Every one of
them is answered in user mode with what had been answered when it was recorded: the return
value, the bytes of a `read` and the fields of an `fstat`; and none of them changes anything
in the kernel but the caller's memory. -/
theorem recorded_calls_replay (store : FileStore ops) (b : Recording ops stack)
    (hinv : store.Inv b.kern.fs) {stack' : Memory} {m m' : Machine σ ι π} {path : List Byte}
    (halive : m.core.killed = false) (hpath : argstr m.kern.proc 0 = some path)
    (hinv' : store.Inv m.kern.fs)
    (hsame : store.contents (m.kern.proc.cwd, strcpy path 255) m.kern.fs
      = store.contents b.place b.after.kern.fs)
    (hstart : (sysReplayStart ops stack').run m = .ok 1 m') {taken : List (Made σ ι π)}
    {issues : List (Issue σ ι π)} (htaken : taken <+: b.kept)
    (hissues : List.Forall₂ (Made.ReissuedAs m.kern.proc.pid) taken issues) :
    ∃ answers c', Makes ops stack' m'.core answers c' ∧ answers.map Made.issue = issues ∧
      List.Forall₂ Made.AnsweredBy taken answers := by
  obtain ⟨rest, hbegins⟩ := b.begins store hinv
  obtain ⟨hreplaying, hkilled⟩ := sysReplayStart_beginsWith store b.wellFormed b.log_length_le
    b.fits hpath hinv' (hsame.trans hbegins) hstart
  obtain ⟨answers, c', hmakes, hmap, hanswers, -⟩ := hreplaying.reissue stack' b.kept_by
    (hkilled.trans halive) (by rw [List.drop_zero]; exact htaken) hissues
  exact ⟨answers, c', hmakes, hmap, hanswers⟩

end

/-- Process `5` records a `getpid` over two calls of `uptime`; process `7` replays the file,
in which one of the two is left, and is told `5`. -/
theorem recorded_calls_replay_getpid : ∃ m' answer c',
    (sysReplayStart OneFile.ops fun _ => 0).run (replayer (encodeLog [pidEntry, uptimeEntry]))
        = .ok 1 m' ∧
      Makes OneFile.ops (fun _ => 0) m'.core [answer] c' ∧ answer.kern = pathKern 7 [] ∧
      answer.kind = .getpid ∧ answer.ret = 5 := by
  have hrun : ∃ m', (sysReplayStart OneFile.ops fun _ => 0).run
      (replayer (encodeLog [pidEntry, uptimeEntry])) = .ok 1 m' := ⟨_, rfl⟩
  obtain ⟨m', hrun⟩ := hrun
  have hissue : pidMade.ReissuedAs 7 ⟨.getpid, [], pathKern 7 []⟩ :=
    ⟨rfl, rfl, rfl, fetches_of_plain (by decide) (by decide) rfl (by decide)⟩
  obtain ⟨answers, c', hmakes, hmap, hanswers⟩ := recorded_calls_replay
    (m := replayer (encodeLog [pidEntry, uptimeEntry])) OneFile.store
    (pidRecording [uptimeEntry, uptimeEntry] rfl) trivial rfl rfl trivial rfl hrun
    (show [pidMade] <+: _ from List.prefix_rfl) (.cons hissue .nil)
  cases hanswers with
  | @cons _ answer _ _ h hnil =>
    cases hnil
    have hissue' := (List.cons.inj hmap).1
    exact ⟨m', answer, c', hrun, hmakes, congrArg Issue.kern hissue', h.kind, h.ret⟩

end V2
