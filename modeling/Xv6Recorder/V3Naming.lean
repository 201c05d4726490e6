/-
# Which file a session is saved to

`sys_record_start` keeps the name of the session file as text, cut to `254` bytes, and
`sys_record_stop` resolves that text from the directory the process is in by then.  The
session is in the file that the name stands for where the recording started exactly when
the kept text means that file in both places.  It does when the name is short enough to be
kept whole, and is absolute or the process has not moved; a process that records a `chdir`
under a relative name finds its session elsewhere.
-/
import Xv6Recorder.FsPaths
import Xv6Recorder.V3Histories
import Xv6Recorder.V3System

open Bytes StateError Xv6

namespace V3

section

variable {σ ι π : Type}

/-! ## Recordings under a name -/

/-- The working directory of the calling process goes from `d` to `d'`: between its
calls nobody else moves it. -/
inductive Wanders : ι → List (Call σ ι π) → ι → Prop
  | nil {d : ι} : Wanders d [] d
  | cons {d d' : ι} {call : Call σ ι π} {calls : List (Call σ ι π)}
      (hcwd : call.kern.proc.cwd = d) (hrest : Wanders call.kern'.proc.cwd calls d') :
      Wanders d (call :: calls) d'

/-- The session is stopped with result `0`, by the call for it or by the two stop calls
with which `sys_exit` begins. -/
inductive StoppedBy (ops : FsOps σ ι π) (m m' : Machine σ ι π) : Prop
  | stop (h : (sysRecordStop ops).run m = .ok 0 m')
  | exit (h : (sysReplayStop >>= fun _ => sysRecordStop ops).run m = .ok 0 m')

/-- A recording to the file name `f`: it starts in `before` while nobody replays, the
calls are within the limits and their encoding fits in the buffer, and it is stopped in
`atStop`, which leads to `after`. -/
structure NamedRecording {ops : FsOps σ ι π} (store : FileStore ops) (f : List Byte) where
  before : Machine σ ι π
  calls : List (Call σ ι π)
  atStop : Machine σ ι π
  after : Machine σ ι π
  name : argstr before.kern.proc 0 = some f
  idle : before.core.session.replaySyscalls ≠ 1
  recorded : Calls ops before.kern.proc.pid (before.startRecord f).core calls atStop.core
  inLimits : ∀ call ∈ calls, call.InLimits
  length_le : calls.length ≤ maxScrs
  fits : (encodeLog (calls.map Call.entry)).length ≤ maxFileSize
  owner : atStop.kern.proc.pid = before.kern.proc.pid
  wanders : Wanders before.kern.proc.cwd calls atStop.kern.proc.cwd
  inv : store.Inv atStop.kern.fs
  stopped : StoppedBy ops atStop after

namespace NamedRecording

variable {ops : FsOps σ ι π} {store : FileStore ops} {f : List Byte} (R : NamedRecording store f)

/-- The process ends in another directory than it started in. -/
def Moves : Prop := R.atStop.kern.proc.cwd ≠ R.before.kern.proc.cwd

/-- What a name denotes after the stop, from the directory in which the recording started. -/
def denotes (name : List Byte) : Option ι :=
  store.target (R.before.kern.proc.cwd, name) R.after.kern.fs

/-- `ip` is the file that `sys_record_stop` opens, and it holds the session. -/
def WrittenTo (ip : ι) : Prop :=
  ∃ fd k₁ tail, (myOpen ops R.atStop.core.session.recordFilename (oCreate ||| oRdwr)).run
      R.atStop.kern = .ok fd k₁ ∧ OpenedOn k₁ fd ip ∧
    store.bytes R.after.kern.fs ip = some (encodeLog (R.calls.map Call.entry) ++ tail)

/-- **Saved where the name points.**  The session is in the file that `f` denotes from the
directory of the start, and that is also the file of the name that a replay started there
keeps of `f`. -/
def SavedThere : Prop :=
  ∃ ip, R.WrittenTo ip ∧ R.denotes f = some ip ∧ R.denotes (strcpy f 255) = some ip

/-- The text that is kept of the name means, from the directory of the stop and from that of
the start, what the name means from that of the start. -/
structure SameFile : Prop where
  atStop : store.target (R.atStop.kern.proc.cwd, strcpy f 255) R.after.kern.fs = R.denotes f
  atStart : R.denotes (strcpy f 255) = R.denotes f

/-- What is encoded, and under which name, when the recording is stopped. -/
theorem encoderInput : EncoderInput R.atStop.core R.calls.length ∧
    R.atStop.core.encoding R.calls.length = encodeLog (R.calls.map Call.entry) ∧
    R.atStop.core.session.rrPid = R.atStop.kern.proc.pid ∧
    R.atStop.core.session.recordFilename = strcpy f 255 := by
  have hstart : RecordingAt (R.before.startRecord f).core R.before.kern.proc.pid 0 :=
    ⟨rfl, R.idle, rfl, rfl⟩
  obtain ⟨henc, hbytes, hown, hfile⟩ :=
    Calls.encoderInput hstart R.recorded R.length_le R.inLimits
  exact ⟨henc, hbytes, hown.trans R.owner.symm, hfile⟩

/-- Either way of stopping runs `sys_record_stop`. -/
theorem stop : (sysRecordStop ops).run R.atStop = .ok 0 R.after := by
  have hidle : isReplaying R.atStop.core.session R.atStop.kern.proc.pid = false := by
    rw [isReplaying, beq_eq_false_iff_ne.mpr R.encoderInput.1.replay, Bool.false_and]
  cases R.stopped with
  | stop h => exact h
  | exit h => rwa [run_bind_of_ok (sysReplayStop_idle hidle)] at h

/-- The session is in the file that the kept name denotes at the stop. -/
theorem written : store.Inv R.after.kern.fs ∧ ∃ ip, R.WrittenTo ip ∧
    store.target (R.atStop.kern.proc.cwd, strcpy f 255) R.after.kern.fs = some ip := by
  obtain ⟨henc, hbytes, hown, hfile⟩ := R.encoderInput
  obtain ⟨-, fd, k₁, ip, hopen, hopened, hfound⟩ := sysRecordStop_saves henc hown store R.inv
    (by rw [hbytes]; exact R.fits) R.stop
  rw [hbytes] at hfound
  have hholds := hfound.contents
  rw [store.contents_eq hfound.target] at hholds
  rw [← hfile]
  exact ⟨hfound.inv, ip, ⟨fd, k₁, _, hopen, hopened, hholds⟩, hfound.target⟩

/-- An open descriptor is open on one inode. -/
theorem openedOn_unique {k : Kern σ ι π} {fd : Word} {ip ip' : ι} (h : OpenedOn k fd ip)
    (h' : OpenedOn k fd ip') : ip = ip' := by
  obtain ⟨i, file, hfd, hi, htype⟩ := h
  obtain ⟨i', file', hfd', hi', htype'⟩ := h'
  have hsame : i = i' := by
    have heq := congrArg BitVec.toNat (hfd.symm.trans hfd')
    have hlt : nofile < 2 ^ 32 := by decide
    rw [BitVec.toNat_ofNat, BitVec.toNat_ofNat, Nat.mod_eq_of_lt (by omega),
      Nat.mod_eq_of_lt (by omega)] at heq
    exact Fin.ext heq
  subst hsame
  obtain rfl := Option.some.inj (hi.symm.trans hi')
  exact FileType.inode.inj (htype.symm.trans htype')

/-- The stop writes to one file. -/
theorem writtenTo_unique {ip ip' : ι} (h : R.WrittenTo ip) (h' : R.WrittenTo ip') : ip = ip' := by
  obtain ⟨fd, k₁, -, hopen, hopened, -⟩ := h
  obtain ⟨fd', k₁', -, hopen', hopened', -⟩ := h'
  rw [hopen] at hopen'
  injection hopen' with hfd hk
  subst hfd hk
  exact openedOn_unique hopened hopened'

theorem savedThere_iff : R.SavedThere ↔ R.SameFile := by
  obtain ⟨-, ip, hwritten, htarget⟩ := R.written
  constructor
  · rintro ⟨ip', hwritten', hname, hkept⟩
    obtain rfl := R.writtenTo_unique hwritten hwritten'
    exact ⟨htarget.trans hname.symm, hkept.trans hname.symm⟩
  · rintro ⟨hstop, hstart⟩
    have hname : R.denotes f = some ip := hstop.symm.trans htarget
    exact ⟨ip, hwritten, hname, hstart.trans hname⟩

/-- **A name that is kept whole** and denotes the same file at the stop. -/
theorem sameFile_of (hlen : f.length < 255) (hplace : Absolute f ∨ ¬ R.Moves) : R.SameFile := by
  have hcopy : strcpy f 255 = f := List.take_of_length_le (by omega)
  refine ⟨?_, by rw [hcopy]⟩
  rw [hcopy, denotes]
  rcases hplace with habsolute | hstays
  · exact store.absolute habsolute
  · rw [not_not.mp hstays]

theorem entries_wf : ∀ e ∈ R.calls.map Call.entry, e.WellFormed := by
  intro e he
  obtain ⟨call, hcall, rfl⟩ := List.mem_map.mp he
  exact (R.inLimits call hcall).entry_wf

/-- **Found again.**  A replay that starts in the directory of the start, under the same
name, opens the file to which the session was written, and has its calls. -/
theorem found_again (hsaved : R.SavedThere) {m m₁ : Machine σ ι π} {r : Word}
    (hfs : m.kern.fs = R.after.kern.fs) (hcwd : m.kern.proc.cwd = R.before.kern.proc.cwd)
    (hname : argstr m.kern.proc 0 = some f)
    (hload : (loadSession ops).run (m.startReplay f) = .ok (some r) m₁) :
    (∃ fd k₁ ip, (myOpen ops (strcpy f 255) oRdwr).run m.kern = .ok fd k₁ ∧
      OpenedOn k₁ fd ip ∧ R.WrittenTo ip) ∧
    ∃ c, (sysReplayStart ops).run m = .ok 1 { m₁ with core := c } ∧
      ReplayReady c m.kern.proc.pid (m.installs (R.calls.map Call.entry)) := by
  obtain ⟨ip, hwritten, -, hkept⟩ := hsaved
  have hholds := hwritten
  obtain ⟨_, _, tail, -, -, hbytes⟩ := hholds
  have htarget : store.target (m.kern.proc.cwd, strcpy f 255) m.kern.fs = some ip := by
    rw [hfs, hcwd]
    exact hkept
  have hfile : store.contents (m.kern.proc.cwd, strcpy f 255) m.kern.fs
      = some (encodeLog (R.calls.map Call.entry) ++ tail) := by
    rw [store.contents_eq htarget, hfs]
    exact hbytes
  have hinv : store.Inv m.kern.fs := by
    rw [hfs]
    exact R.written.1
  constructor
  · obtain ⟨fd, _, _, k₁, _, _, hopen, hfd, -⟩ := loadSession_eq_some.mp hload
    have hfound : store.Found m.kern.proc (m.kern.proc.cwd, strcpy f 255)
        (encodeLog (R.calls.map Call.entry) ++ tail) ip m.kern := ⟨⟨rfl, hinv, hfile⟩, htarget⟩
    obtain ⟨i, file, ip', hi, -, hopened, rfl⟩ :=
      myOpen_of_find store (myOpenFind_named store (by decide) rfl) hfound hopen hfd
    refine ⟨fd, k₁, ip', hopen, ⟨i, file, hi, ?_, hopened.type⟩, hwritten⟩
    rw [hopened.proc]
    exact Function.update_self _ _ _
  · obtain ⟨c, hrun, hready, -⟩ := Reloads.replayReady ⟨hinv, hname, hfile, r, hload⟩ R.entries_wf
      (by rw [List.length_map]; exact R.length_le) R.fits
    exact ⟨c, hrun, hready⟩

end NamedRecording

/-- What a reader of a recording sees of a call. -/
def Call.summary (call : Call σ ι π) : Kind × List FieldValue × Word :=
  (call.kind, call.ins, call.ret)

end

/-! ## Recordings on a disk with two directories -/

section

open TwoDirs

/-- The process of `p` in the directory `d`. -/
def placed (p : Proc Unit) (d : ℕ) : Kern Fs ℕ Unit where
  proc :=
    { pid := 5, sz := p.sz, sz_lt := p.sz_lt, esp := p.esp, mem := p.mem
      ofile := fun _ => none, cwd := d, isInit := false }
  ftable := fun _ => { type := .none, ref := 0, readable := false, writable := false, off := 0 }
  ticks := 0
  fs := disk

/-- The process in the directory `/h` that passes the name `f`. -/
def atHome : Kern Fs ℕ Unit := placed (OneFile.proc 5 [64] [102, 0]) 2

theorem argstr_atHome : argstr atHome.proc 0 = some [102] := by rfl

/-- **Recordings to `f`** that start in `/h`: the process makes calls that bring it to `k`,
and there the three file operations of the stop return. -/
theorem exists_recording {k k₁ k₂ k₃ : Kern Fs ℕ Unit} (calls : List (Call Fs ℕ Unit))
    {bytes : List Byte} {fd w closed : Word} (hlen : calls.length ≤ maxScrs)
    (hlim : ∀ call ∈ calls, call.InLimits) (hpid : ∀ call ∈ calls, call.kern.proc.pid = 5)
    (hrun : ∀ call ∈ calls,
      (handler (fsOps geometry3 outside) call.kind).original.run call.kern = .ok call.ret call.kern')
    (hbytes : encodeLog (calls.map Call.entry) = bytes) (hfit : bytes.length ≤ maxFileSize)
    (howner : k.proc.pid = 5) (hwanders : Wanders 2 calls k.proc.cwd)
    (hinv : names.toNaming.Inv k.fs)
    (hopen : (myOpen (fsOps geometry3 outside) [102] (oCreate ||| oRdwr)).run k = .ok fd k₁)
    (hfd : fd ≠ -1) (hwrite : (myWrite (fsOps geometry3 outside) fd bytes).run k₁ = .ok w k₂)
    (hw : w ≠ -1) (hclose : (myClose (fsOps geometry3 outside) fd).run k₂ = .ok closed k₃)
    (hclosed : closed ≠ -1) :
    ∃ R : NamedRecording names.store [102], R.calls = calls ∧ R.before.kern = atHome ∧
      R.atStop.kern = k ∧ R.after.kern = k₃ := by
  let before : Machine Fs ℕ Unit := ⟨⟨Session.boot, false⟩, atHome⟩
  have hidle : before.core.session.replaySyscalls ≠ 1 := show (0 : Word) ≠ 1 by decide
  have hstart : RecordingAt (before.startRecord [102]).core 5 0 := ⟨rfl, hidle, rfl, rfl⟩
  obtain ⟨c, hcalls⟩ := hstart.exists_calls calls (by omega) hlim hpid hrun
  obtain ⟨henc, hencoded, hown, hfile⟩ := hcalls.encoderInput hstart hlen hlim
  have hname : c.session.recordFilename = [102] := hfile.trans (by decide)
  have hsaved : c.encoding calls.length = bytes := hencoded.trans hbytes
  have hbuffer : slice (c.packed bytes).session.buffer 0 (c.packed bytes).session.bufferPos.toNat
      = bytes := by
    simp only [Core.packed, Core.write, Core.rewind, zero_add, Int.toNat_natCast]
    exact slice_overlay_same _ _ _
  have hsave := saveSession_of_ok (m := ⟨c.packed bytes, k⟩) (by rw [← hname] at hopen; exact hopen)
    hfd (by rw [hbuffer]; exact hwrite) hw hclose hclosed
  have hstop : (sysRecordStop (fsOps geometry3 outside)).run ⟨c, k⟩
      = .ok 0 ⟨c.packed bytes, k₃⟩ := by
    rw [sysRecordStop_fits henc (hown.trans howner.symm) (by rw [hsaved]; exact hfit), hsaved]
    exact hsave
  exact ⟨{ before := before, calls := calls, atStop := ⟨c, k⟩, after := ⟨c.packed bytes, k₃⟩
           name := argstr_atHome, idle := hidle, recorded := hcalls, inLimits := hlim, length_le := hlen
           fits := by rw [hbytes]; exact hfit
           owner := howner, wanders := hwanders, inv := hinv, stopped := .stop hstop },
    rfl, rfl, rfl, rfl⟩

/-- A process in `/h` changes to the root directory. -/
def chdirRoot : Call Fs ℕ Unit where
  kind := .chdir
  frame := Frame.zero
  ins := [.raw [47]]
  kern := placed (OneFile.proc 5 [64] [47, 0]) 2
  ret := 0
  kern' := endState ((handler (fsOps geometry3 outside) .chdir).original.run
    (placed (OneFile.proc 5 [64] [47, 0]) 2))

theorem chdirRoot_inLimits : chdirRoot.InLimits :=
  Kind.inLimits_of_plain (by decide) (by decide) rfl (by decide)

theorem chdirRoot_run : (handler (fsOps geometry3 outside) chdirRoot.kind).original.run
    chdirRoot.kern = .ok chdirRoot.ret chdirRoot.kern' :=
  run_eq_ok_of_returned (by decide +kernel)

/-- It has only counted references. -/
theorem chdirRoot_fs : chdirRoot.kern'.fs = { disk with ref := chdirRoot.kern'.fs.ref } := by rfl

theorem inv_chdirRoot : names.toNaming.Inv chdirRoot.kern'.fs := by
  have hstill := Fs.still_ref inv_disk.1 chdirRoot.kern'.fs.ref
  rw [chdirRoot_fs]
  exact (hstill.quiet inv_disk.2).1

/-- A process in `/h` asks for its number. -/
def pidAtHome : Call Fs ℕ Unit where
  kind := .getpid
  frame := Frame.zero
  ins := []
  kern := atHome
  ret := 5
  kern' := atHome

theorem pidAtHome_inLimits : pidAtHome.InLimits :=
  Kind.inLimits_of_plain (by decide) (by decide) rfl (by decide)

/-- The three file operations of a stop, from the kernel `k`. -/
def openedFrom (k : Kern Fs ℕ Unit) : Kern Fs ℕ Unit :=
  endState ((myOpen (fsOps geometry3 outside) [102] (oCreate ||| oRdwr)).run k)

def writtenFrom (k : Kern Fs ℕ Unit) (bytes : List Byte) : Kern Fs ℕ Unit :=
  endState ((myWrite (fsOps geometry3 outside) 0 bytes).run (openedFrom k))

def closedFrom (k : Kern Fs ℕ Unit) (bytes : List Byte) : Kern Fs ℕ Unit :=
  endState ((myClose (fsOps geometry3 outside) 0).run (writtenFrom k bytes))

/-- The session of one call. -/
def sessionOf (call : Call Fs ℕ Unit) : List Byte := encodeLog [call.entry]

/-- A recording of one call, with the file operations of its stop evaluated. -/
theorem exists_recording_one (call : Call Fs ℕ Unit) {w : Word} (hw : w ≠ -1) (hlim : call.InLimits)
    (hpid : call.kern.proc.pid = 5 ∧ call.kern'.proc.pid = 5) (hcwd : call.kern.proc.cwd = 2)
    (hrun : (handler (fsOps geometry3 outside) call.kind).original.run call.kern
      = .ok call.ret call.kern')
    (hfit : (sessionOf call).length ≤ maxFileSize) (hinv : names.toNaming.Inv call.kern'.fs)
    (hopen : returned ((myOpen (fsOps geometry3 outside) [102] (oCreate ||| oRdwr)).run
      call.kern') = some 0)
    (hwrite : returned ((myWrite (fsOps geometry3 outside) 0 (sessionOf call)).run
      (openedFrom call.kern')) = some w)
    (hclose : returned ((myClose (fsOps geometry3 outside) 0).run
      (writtenFrom call.kern' (sessionOf call))) = some 0) :
    ∃ R : NamedRecording names.store [102], R.calls = [call] ∧ R.before.kern = atHome ∧
      R.atStop.kern = call.kern' ∧ R.after.kern = closedFrom call.kern' (sessionOf call) :=
  exists_recording [call] (show 1 ≤ maxScrs by decide) (by simpa using hlim) (by simpa using hpid.1)
    (by simpa using hrun) rfl hfit hpid.2 (.cons hcwd .nil) hinv (run_eq_ok_of_returned hopen)
    (by decide) (run_eq_ok_of_returned hwrite) hw (run_eq_ok_of_returned hclose) (by decide)

/-- What is stopped in the root directory is saved in `/f`, and `/h/f` is not there. -/
theorem closedFrom_root :
    names.store.target (2, [102]) (closedFrom chdirRoot.kern' (sessionOf chdirRoot)).fs = none ∧
      names.store.contents (1, [102]) (closedFrom chdirRoot.kern' (sessionOf chdirRoot)).fs
        = some (sessionOf chdirRoot) := by
  rw [store_target, store_contents]
  exact ⟨by decide +kernel, by decide +kernel⟩

end

/-- **File naming.**  A recording is saved in the file that its name denotes where it started,
if and only if the text that is kept of the name means that file from the directory of the
stop, and from that of the start.  It does if the name has at most `254` bytes and is
absolute, or the process has not moved.  A replay started where the recording started then
opens that file and has the calls. -/
theorem session_file_naming_iff {σ ι π : Type} {ops : FsOps σ ι π} (store : FileStore ops)
    {f : List Byte} (R : NamedRecording store f) :
    (R.SavedThere ↔ R.SameFile) ∧
    (f.length < 255 ∧ (Absolute f ∨ ¬ R.Moves) → R.SameFile) ∧
    (R.SavedThere → ∀ m m₁ r, m.kern.fs = R.after.kern.fs →
      m.kern.proc.cwd = R.before.kern.proc.cwd → argstr m.kern.proc 0 = some f →
      (loadSession ops).run (m.startReplay f) = .ok (some r) m₁ →
      (∃ fd k₁ ip, (myOpen ops (strcpy f 255) oRdwr).run m.kern = .ok fd k₁ ∧
        OpenedOn k₁ fd ip ∧ R.WrittenTo ip) ∧
      ∃ c, (sysReplayStart ops).run m = .ok 1 { m₁ with core := c } ∧
        ReplayReady c m.kern.proc.pid (m.installs (R.calls.map Call.entry))) :=
  ⟨R.savedThere_iff, fun h => R.sameFile_of h.1 h.2,
    fun h _ _ _ hfs hcwd hname hload => R.found_again h hfs hcwd hname hload⟩

/-- A process records a `getpid` to `f` and stops in the directory in which it started. -/
theorem session_file_naming_iff_relative :
    ∃ R : NamedRecording TwoDirs.names.store [102],
      R.calls.map Call.summary = [(.getpid, [], 5)] ∧ ¬ Absolute [102] ∧ R.SavedThere := by
  obtain ⟨R, hcalls, hbefore, hstop, -⟩ := exists_recording_one pidAtHome (w := 11)
    (by decide) pidAtHome_inLimits ⟨rfl, rfl⟩ rfl rfl (by decide) TwoDirs.inv_disk (by decide +kernel)
    (by decide +kernel) (by decide +kernel)
  obtain ⟨hiff, hsame, -⟩ := session_file_naming_iff TwoDirs.names.store R
  have hstays : ¬ R.Moves := by
    intro hmoves
    rw [NamedRecording.Moves, hbefore, hstop] at hmoves
    exact hmoves rfl
  refine ⟨R, ?_, by simp [Absolute], hiff.mpr (hsame ⟨by decide, .inr hstays⟩)⟩
  rw [hcalls]
  rfl

/-- A process in `/h` records to `f`, moves with `chdir("/")`, and stops with result `0`: the
session is in `/f`, and there is no file `/h/f`. -/
theorem chdir_moves_session_file :
    ∃ R : NamedRecording TwoDirs.names.store [102],
      R.calls.map Call.summary = [(.chdir, [.raw [47]], 0)] ∧ R.before.kern.proc.cwd = 2 ∧
      R.denotes [102] = none ∧
      TwoDirs.names.store.contents (1, [102]) R.after.kern.fs
        = some (encodeLog (R.calls.map Call.entry)) ∧ ¬ R.SavedThere := by
  obtain ⟨R, hcalls, hbefore, -, hafter⟩ := exists_recording_one chdirRoot (w := 17)
    (by decide) chdirRoot_inLimits ⟨rfl, by decide +kernel⟩ rfl chdirRoot_run (by decide) inv_chdirRoot
    (by decide +kernel) (by decide +kernel) (by decide +kernel)
  obtain ⟨hhome, hroot⟩ := closedFrom_root
  have hnone : R.denotes [102] = none := by
    rw [NamedRecording.denotes, hbefore, hafter]
    exact hhome
  refine ⟨R, by rw [hcalls]; rfl, by rw [hbefore]; rfl, hnone, by rw [hafter, hcalls]; exact hroot, ?_⟩
  rintro ⟨ip, -, hsome, -⟩
  rw [hnone] at hsome
  cases hsome

end V3
