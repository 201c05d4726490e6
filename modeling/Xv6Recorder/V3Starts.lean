/-
# The start calls

What `sys_record_start` and `sys_replay_start` make of the session.  The first only
sets globals.  The second also loads its file, which changes nothing of the session
but the buffer, and decodes it; on a file that begins with the encoding of a log it
installs that log, unless the record flag is on as well, and then it installs nothing.
-/
import Xv6Recorder.V3Decoder
import Xv6Recorder.V3Session

open Bytes StateError Xv6

namespace V3

section

variable {σ ι π : Type} {ops : FsOps σ ι π} {m m' : Machine σ ι π}

/-! ## The assignments -/

/-- The globals set for recording to `filename`. -/
def Session.startRecord (s : Session) (filename : List Byte) (pid : Word) : Session :=
  Session.reset { s with recordFilename := strcpy filename 255, recordSyscalls := 1 } pid

/-- The globals set for replaying `filename`. -/
def Session.startReplay (s : Session) (filename : List Byte) (pid : Word) : Session :=
  Session.reset { s with replayFilename := strcpy filename 255, replaySyscalls := 1 } pid

/-- The machine after the assignments of `sys_record_start`. -/
def Machine.startRecord (m : Machine σ ι π) (filename : List Byte) : Machine σ ι π :=
  { m with core := ⟨m.core.session.startRecord filename m.kern.proc.pid, m.core.killed⟩ }

/-- The machine after the assignments of `sys_replay_start`, before the file is read. -/
def Machine.startReplay (m : Machine σ ι π) (filename : List Byte) : Machine σ ι π :=
  { m with core := ⟨m.core.session.startReplay filename m.kern.proc.pid, m.core.killed⟩ }

variable {filename : List Byte} {r : Word}

theorem sysRecordStart_run (h : argstr m.kern.proc 0 = some filename) :
    (sysRecordStart : SysM σ ι π Word).run m = .ok 1 (m.startRecord filename) := by
  rw [sysRecordStart, EStateM.run_bind, EStateM.run_get]
  simp only [h]
  rfl

theorem sysRecordStart_none (h : argstr m.kern.proc 0 = none) :
    (sysRecordStart : SysM σ ι π Word).run m = .ok (-1) m := by
  rw [sysRecordStart, EStateM.run_bind, EStateM.run_get]
  simp only [h]
  rfl

theorem sysReplayStart_run (h : argstr m.kern.proc 0 = some filename) :
    (sysReplayStart ops).run m = (do
      match ← loadSession ops with
      | none => replayFail
      | some rStatus => decodeSession rStatus : SysM σ ι π Word).run
        (m.startReplay filename) := by
  rw [sysReplayStart, EStateM.run_bind, EStateM.run_get]
  simp only [h]
  rfl

theorem sysReplayStart_none (h : argstr m.kern.proc 0 = none) :
    (sysReplayStart ops).run m = .ok (-1) m := by
  rw [sysReplayStart, EStateM.run_bind, EStateM.run_get]
  simp only [h]
  rfl

/-! ## Loading and decoding a file -/

/-- The machine with other bytes in the buffer. -/
def Machine.withBuffer (m : Machine σ ι π) (b : Memory) : Machine σ ι π :=
  { m with core := ⟨{ m.core.session with buffer := b }, m.core.killed⟩ }

/-- **Loading**, when it succeeds: the three file operations succeed, and of the session
only the buffer changes. -/
theorem loadSession_eq_some :
    (loadSession ops).run m = .ok (some r) m' ↔ ∃ fd bytes closed k₁ k₂ k₃,
      (myOpen ops m.core.session.replayFilename oRdwr).run m.kern = .ok fd k₁ ∧ fd ≠ -1 ∧
      (myRead ops fd (BitVec.ofNat 32 maxFileSize)).run k₁ = .ok (r, bytes) k₂ ∧ r ≠ -1 ∧
      (myClose ops fd).run k₂ = .ok closed k₃ ∧ closed ≠ -1 ∧
      m' = ⟨(m.withBuffer (overlay m.core.session.buffer 0 bytes)).core, k₃⟩ := by
  unfold loadSession
  rw [EStateM.run_bind, EStateM.run_get]
  simp only
  constructor
  · intro h
    obtain ⟨fd, m₁, hopen, h⟩ := run_bind_eq_ok.mp h
    obtain ⟨k₁, hopen', rfl⟩ := run_zoom_eq_ok.mp hopen
    by_cases hfd : fd = -1
    · rw [if_pos hfd] at h
      cases h
    rw [if_neg hfd] at h
    obtain ⟨r', m₂, hread, h⟩ := run_bind_eq_ok.mp h
    obtain ⟨k₂, hread', rfl⟩ := run_zoom_eq_ok.mp hread
    obtain ⟨_, m₃, hstore, h⟩ := run_bind_eq_ok.mp h
    injection hstore with _ hm₃
    subst hm₃
    by_cases hr : r'.1 = -1
    · rw [if_pos hr] at h
      cases h
    rw [if_neg hr] at h
    obtain ⟨closed, m₄, hclose, h⟩ := run_bind_eq_ok.mp h
    obtain ⟨k₃, hclose', rfl⟩ := run_zoom_eq_ok.mp hclose
    by_cases hclosed : closed = -1
    · rw [if_pos hclosed] at h
      cases h
    rw [if_neg hclosed] at h
    injection h with hsome hm'
    obtain rfl := Option.some.inj hsome
    exact ⟨fd, r'.2, closed, k₁, k₂, k₃, hopen', hfd, hread', hr, hclose', hclosed, hm'.symm⟩
  · rintro ⟨fd, bytes, closed, k₁, k₂, k₃, hopen, hfd, hread, hr, hclose, hclosed, rfl⟩
    have hstore : (onSession fun s => { s with buffer := overlay s.buffer 0 bytes }).run
        { m with kern := k₂ }
        = .ok () ⟨(m.withBuffer (overlay m.core.session.buffer 0 bytes)).core, k₂⟩ := rfl
    rw [run_bind_of_ok (run_onKern_of_ok hopen), if_neg hfd,
      run_bind_of_ok (run_onKern_of_ok (m := { m with kern := k₁ }) hread),
      run_bind_of_ok hstore, if_neg hr, run_bind_of_ok (run_onKern_of_ok hclose), if_neg hclosed]
    rfl

theorem loadSession_core (h : (loadSession ops).run m = .ok (some r) m') :
    m'.core = (m.withBuffer m'.core.session.buffer).core := by
  obtain ⟨_, _, _, _, _, _, -, -, -, -, -, -, rfl⟩ := loadSession_eq_some.mp h
  rfl

/-- What the buffer held before does not matter to the loading. -/
theorem loadSession_withBuffer (b : Memory) (h : (loadSession ops).run m = .ok (some r) m') :
    ∃ b', (loadSession ops).run (m.withBuffer b) = .ok (some r) (m'.withBuffer b') := by
  obtain ⟨fd, bytes, closed, k₁, k₂, k₃, hopen, hfd, hread, hr, hclose, hclosed, rfl⟩ :=
    loadSession_eq_some.mp h
  exact ⟨overlay b 0 bytes, loadSession_eq_some.mpr
    ⟨fd, bytes, closed, k₁, k₂, k₃, hopen, hfd, hread, hr, hclose, hclosed, rfl⟩⟩

/-- Of the session only the name of the file matters to the loading. -/
theorem loadSession_of_name {c : Core}
    (hname : c.session.replayFilename = m.core.session.replayFilename)
    (h : (loadSession ops).run m = .ok (some r) m') :
    ∃ c', (loadSession ops).run ⟨c, m.kern⟩ = .ok (some r) ⟨c', m'.kern⟩ := by
  obtain ⟨fd, bytes, closed, k₁, k₂, k₃, hopen, hfd, hread, hr, hclose, hclosed, rfl⟩ :=
    loadSession_eq_some.mp h
  rw [← hname] at hopen
  exact ⟨_, loadSession_eq_some.mpr
    ⟨fd, bytes, closed, k₁, k₂, k₃, hopen, hfd, hread, hr, hclose, hclosed, rfl⟩⟩

/-- What `sys_replay_start` installs of a log: all of it, or nothing while the record flag
is on. -/
def Machine.installs {α : Type} (m : Machine σ ι π) (log : List α) : List α :=
  if m.core.session.recordSyscalls = 1 then [] else log

theorem map_installs {α β : Type} (f : α → β) (m : Machine σ ι π) (log : List α) :
    (m.installs log).map f = m.installs (log.map f) := by
  unfold Machine.installs
  split <;> rfl

/-- The session after a successful `sys_replay_start` by process `pid` that has installed
the log `es`. -/
structure ReplayReady (c : Core) (pid : Word) (es : List Entry) : Prop where
  replay : c.session.replaySyscalls = 1
  rrPid : c.session.rrPid = pid
  scrsIdx : c.session.scrsIdx = 0
  decoded : Decoded c es

/-- **Starting a replay** of a file that begins with the encoding of a log. -/
theorem sysReplayStart_of_load {rStatus : Word} {es : List Entry}
    (hname : argstr m.kern.proc 0 = some filename)
    (hload : (loadSession ops).run (m.startReplay filename) = .ok (some rStatus) m')
    (hes : ∀ e ∈ es, e.WellFormed) (hlen : es.length ≤ maxScrs)
    (hfit : (encodeLog es).length ≤ maxFileSize) (hfile : (encodeLog es).length ≤ rStatus.toInt)
    (hat : slice m'.core.session.buffer 0 (encodeLog es).length = encodeLog es) :
    ∃ c, (sysReplayStart ops).run m = .ok 1 { m' with core := c } ∧
      ReplayReady c m.kern.proc.pid (m.installs es) ∧ c.killed = m.core.killed := by
  have hm' := loadSession_core hload
  have hreplay : m'.core.session.replaySyscalls = 1 := by rw [hm']; rfl
  have hpos : m'.core.session.bufferPos = 0 := by rw [hm']; rfl
  have hpid : m'.core.session.rrPid = m.kern.proc.pid := by rw [hm']; rfl
  have hkilled : m'.core.killed = m.core.killed := by rw [hm']; rfl
  have hrecord : m'.core.session.recordSyscalls = m.core.session.recordSyscalls := by
    rw [hm']
    rfl
  have hfresh : ∀ k : ℕ, k < maxScrs →
      m'.core.session.recordedScrs k = createSCR unitializedScr := by
    intro k hk
    rw [hm']
    simp only [Machine.withBuffer, Machine.startReplay, Session.startReplay, Session.reset,
      resetScrs]
    exact if_pos ⟨by omega, by omega⟩
  -- the call returns what the decoder leaves in the replay flag
  have hstart : ∀ c, (unpackScrs rStatus.toInt).run m'.core = .ok true c →
      c.session.replaySyscalls = 1 →
      (sysReplayStart ops).run m = .ok 1 { m' with core := c } := by
    intro c hrun hone
    rw [sysReplayStart_run hname, run_bind_of_ok hload]
    simp only [decodeSession_of_ok hrun, if_true]
    exact congrArg (EStateM.Result.ok · _) hone
  by_cases hrec : m.core.session.recordSyscalls = 1
  · -- both modes: the first record is still unused, and the loop stops there
    have hfour : 4 ≤ rStatus.toInt := by
      have hcount : 4 ≤ (encodeLog es).length := by
        rw [encodeLog, List.length_append, length_toBytes]
        omega
      omega
    have hboth := unpackScrs_both (hrecord.trans hrec) hreplay hpos
      (by rw [show (0 : ℤ) = (0 : ℕ) from rfl, hfresh 0 (by decide)]; rfl) rStatus.toInt
    rw [if_pos (.inr hfour)] at hboth
    refine ⟨_, hstart _ hboth hreplay, ?_, hkilled⟩
    rw [Machine.installs, if_pos hrec]
    exact ⟨hreplay, hpid, rfl, fun k hk => absurd hk (by simp), fun k _ hk => hfresh k hk⟩
  · have hinput : DecoderInput m'.core := ⟨hreplay, by rw [hrecord]; exact hrec, hpos, hfresh⟩
    obtain ⟨f, hrun, hnew, hold⟩ := unpackScrs_replay es hes hlen m'.core hinput.replaying
      hinput.pos rStatus.toInt hfit hfile hat
    refine ⟨_, hstart _ hrun hreplay, ?_, hkilled⟩
    rw [Machine.installs, if_neg hrec]
    refine ⟨hreplay, hpid, rfl, hnew, fun k hlo hhi => ?_⟩
    rw [← hfresh k hhi]
    exact hold k (Or.inr (by omega))

end

end V3
