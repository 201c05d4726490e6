/-
# Recording and replaying at the same time

`sys_record_start` does not look at the replay flag and `sys_replay_start` does not
look at the record flag, so a start call that finds the other mode still on, after a
session that was abandoned or taken over, puts its caller in both modes at once.
Nothing else does: in a run from boot no process is ever in both modes exactly when
every start call finds the other mode off.
-/
import Xv6Recorder.V3Decoder
import Xv6Recorder.V3Starts
import Xv6Recorder.V3System

open Bytes StateError Xv6

namespace V3

section

variable {σ ι π : Type} {ops : FsOps σ ι π} {m m' : Machine σ ι π}

/-! ## The start calls -/

/-- The replay file can be opened, read and closed. -/
def Loads (ops : FsOps σ ι π) (m : Machine σ ι π) : Prop :=
  ∃ filename rStatus m', argstr m.kern.proc 0 = some filename ∧
    (loadSession ops).run (m.startReplay filename) = .ok (some rStatus) m'

/-- Whether both modes are on. -/
def Session.BothOn (s : Session) : Prop := s.recordSyscalls = 1 ∧ s.replaySyscalls = 1

/-- A replay that starts while the record flag is on leaves both modes on. -/
theorem sysReplayStart_bothOn (hload : Loads ops m) (hrec : m.core.session.recordSyscalls = 1) :
    ∃ r m', (sysReplayStart ops).run m = .ok r m' ∧ m'.core.session.BothOn ∧
      m'.core.session.rrPid = m.kern.proc.pid ∧ m'.core.killed = m.core.killed := by
  obtain ⟨filename, rStatus, m₁, hname, hload⟩ := hload
  have hm₁ := loadSession_core hload
  have hrec₁ : m₁.core.session.recordSyscalls = 1 := by rw [hm₁]; exact hrec
  have hrep₁ : m₁.core.session.replaySyscalls = 1 := by rw [hm₁]; rfl
  have hpid₁ : m₁.core.session.rrPid = m.kern.proc.pid := by rw [hm₁]; rfl
  have hkilled₁ : m₁.core.killed = m.core.killed := by rw [hm₁]; rfl
  have hdecode := unpackScrs_both (c := m₁.core) hrec₁ hrep₁ (by rw [hm₁]; rfl)
    (by rw [hm₁]; rfl) rStatus.toInt
  rw [sysReplayStart_run hname, run_bind_of_ok hload]
  split at hdecode
  · exact ⟨_, _, decodeSession_of_ok hdecode, ⟨hrec₁, hrep₁⟩, hpid₁, hkilled₁⟩
  · exact ⟨_, _, decodeSession_of_ok hdecode, ⟨hrec₁, hrep₁⟩, hpid₁, hkilled₁⟩

/-- A replay that leaves the record flag on has found it on, and has loaded its file or
done nothing. -/
theorem sysReplayStart_record {r : Word} (hrun : (sysReplayStart ops).run m = .ok r m')
    (hon : m'.core.session.recordSyscalls = 1) :
    m.core.session.recordSyscalls = 1 ∧ (Loads ops m ∨ m' = m) := by
  cases hname : argstr m.kern.proc 0 with
  | none =>
    rw [sysReplayStart_none hname] at hrun
    injection hrun with _ hm
    rw [← hm] at hon
    exact ⟨hon, .inr hm.symm⟩
  | some filename =>
    rw [sysReplayStart_run hname] at hrun
    obtain ⟨rStatus, m₁, hload, hrest⟩ := run_bind_eq_ok.mp hrun
    cases rStatus with
    | none =>
      -- the error exit poisons both flags
      obtain ⟨_, m₂, hflag, hrest⟩ := run_bind_eq_ok.mp hrest
      obtain ⟨_, m₃, herr, hrest⟩ := run_bind_eq_ok.mp hrest
      injection hrest with _ hm
      injection herr with _ hm₃
      rw [← hm, ← hm₃] at hon
      exact absurd hon (by simp [recRepErr])
    | some rStatus =>
      have hdecode : Keeps Machine.NoStart (decodeSession rStatus : SysM σ ι π Word) :=
        (keeps_onCore (keeps_unpackScrs _)).bind fun _ =>
          .ite (Keeps.get.bind fun _ => .pure _) (.pure _)
      have hrec := (hdecode.of_ok hrest).record hon
      rw [loadSession_core hload] at hrec
      exact ⟨hrec, .inl ⟨filename, rStatus, m₁, hname, hload⟩⟩

/-- A replay that starts with the record flag off, or whose file cannot be loaded,
does not put both modes on. -/
theorem sysReplayStart_not_bothOn (hboth : ¬ m.core.session.BothOn)
    (hclean : Loads ops m → m.core.session.recordSyscalls ≠ 1) {r : Word}
    (hrun : (sysReplayStart ops).run m = .ok r m') : ¬ m'.core.session.BothOn := by
  rintro ⟨hrec, hrep⟩
  obtain ⟨hrec₀, hload | rfl⟩ := sysReplayStart_record hrun hrec
  · exact hclean hload hrec₀
  · exact hboth ⟨hrec, hrep⟩

/-! ## Steps -/

variable (ops) in
/-- A start call that gets as far as taking over the session finds the other mode off. -/
def CleanStart (s : System σ ι π) : Event → Prop
  | .trap pid _ .recordStart _ => ∀ p, s.procs pid = some (p, false) →
      (argstr p 0).isSome → s.session.replaySyscalls ≠ 1
  | .trap pid _ .replayStart _ => ∀ p, s.procs pid = some (p, false) →
      Loads ops (s.machine p false) → s.session.recordSyscalls ≠ 1
  | _ => True

variable {s s' : System σ ι π} {e : Event}

/-- **One step**: after a clean start call, or any other event, both modes are on only
if they were before. -/
theorem Step.not_bothOn (h : Step ops s e s') (hclean : CleanStart ops s e)
    (hs : ¬ s.session.BothOn) : ¬ s'.session.BothOn := by
  cases h with
  | kill hproc => exact hs
  | other hsession => rw [hsession]; exact hs
  | @trap pid p killed frame sc eax m hproc hpid hrun =>
    rcases trap_eq_ok hrun with ⟨-, -, hsame⟩ | ⟨hkilled, r, m₁, hcall, hsame, -⟩
    · rw [System.put, hsame]
      exact hs
    · rw [System.put, hsame]
      subst hkilled
      cases hsc : sc.isStart with
      | false =>
        have hkeep := (keeps_syscall ops frame sc hsc).of_ok hcall
        exact fun ⟨hrec, hrep⟩ => hs ⟨hkeep.record hrec, hkeep.replay hrep⟩
      | true =>
        cases sc with
        | recordStart =>
          obtain ⟨v, hstart, -⟩ := run_bind_pure_eq_ok.mp hcall
          cases hname : argstr p 0 with
          | none =>
            rw [sysRecordStart_none hname] at hstart
            injection hstart with _ hm
            rw [← hm]
            exact hs
          | some filename =>
            rw [sysRecordStart_run hname] at hstart
            injection hstart with _ hm
            rw [← hm]
            exact fun hboth => hclean p hproc (by rw [hname]; rfl) hboth.2
        | replayStart =>
          obtain ⟨v, hstart, -⟩ := run_bind_pure_eq_ok.mp hcall
          exact sysReplayStart_not_bothOn hs (hclean p hproc) hstart
        | _ => simp [Syscall.isStart] at hsc

/-- A start call that is not clean leaves its caller alive and in both modes. -/
theorem Step.bothOn (h : Step ops s e s') (hdirty : ¬ CleanStart ops s e) :
    ∃ pid, (s'.procs pid).isSome ∧ isRecording s'.session pid ∧ isReplaying s'.session pid := by
  cases h with
  | kill hproc => exact absurd trivial hdirty
  | other hsession => exact absurd trivial hdirty
  | @trap pid p killed frame sc eax m hproc hpid hrun =>
    refine ⟨pid, ?_⟩
    have hmain : ∀ r m₁, (syscall ops frame sc).run (s.machine p false) = .ok (some r) m₁ →
        m₁.core.session.BothOn → m₁.core.session.rrPid = pid → m₁.core.killed = false →
        killed = false → ((s.put pid eax m).procs pid).isSome ∧
          isRecording (s.put pid eax m).session pid ∧
          isReplaying (s.put pid eax m).session pid := by
      rintro r m₁ hcall ⟨hrec, hrep⟩ hown halive rfl
      rw [trap_of_alive rfl hcall halive] at hrun
      injection hrun with heax hm
      simp [System.put, ← heax, ← hm, isRecording, isReplaying, hrec, hrep, hown]
    cases sc with
    | recordStart =>
      simp only [CleanStart, not_forall, not_not] at hdirty
      obtain ⟨q, hq, hname, hrep⟩ := hdirty
      rw [hproc] at hq
      injection hq with hq
      injection hq with hq hkilled
      subst hq
      obtain ⟨filename, hname⟩ := Option.isSome_iff_exists.mp hname
      refine hmain 1 ((s.machine p false).startRecord filename) ?_ ⟨rfl, hrep⟩ hpid rfl hkilled
      exact run_bind_of_ok (sysRecordStart_run hname)
    | replayStart =>
      simp only [CleanStart, not_forall, not_not] at hdirty
      obtain ⟨q, hq, hload, hrec⟩ := hdirty
      rw [hproc] at hq
      injection hq with hq
      injection hq with hq hkilled
      subst hq
      obtain ⟨r, m₁, hstart, hboth, hown, halive⟩ := sysReplayStart_bothOn hload hrec
      refine hmain r m₁ ?_ hboth (hown.trans hpid) halive hkilled
      exact run_bind_of_ok hstart
    | _ => exact absurd trivial hdirty

/-! ## Runs -/

variable (ops) in
/-- No process is in both modes, and the recorded-kind calls of a process that is
recording are executed and logged. -/
def ModesExclusive (s : System σ ι π) : Prop :=
  (∀ pid, (s.procs pid).isSome → ¬ (isRecording s.session pid ∧ isReplaying s.session pid)) ∧
  ∀ pid p killed, s.procs pid = some (p, killed) → p.pid = pid → isRecording s.session pid →
    ∀ (k : Kind) (frame : Frame), ((handler ops k).run frame).run (s.machine p killed)
      = ((handler ops k).recordBranch frame).run (s.machine p killed)

theorem modesExclusive_of_not_bothOn (h : ¬ s.session.BothOn) : ModesExclusive ops s := by
  have hnot : ∀ pid, ¬ (isRecording s.session pid ∧ isReplaying s.session pid) := by
    rintro pid ⟨hrec, hrep⟩
    simp only [isRecording, isReplaying, Bool.and_eq_true, beq_iff_eq] at hrec hrep
    exact h ⟨hrec.1, hrep.1⟩
  refine ⟨fun pid _ => hnot pid, ?_⟩
  rintro pid p killed - rfl hrec k frame
  refine Handler.run_recording _ frame (s.machine p killed) hrec ?_
  exact Bool.eq_false_iff.mpr fun hrep => hnot p.pid ⟨hrec, hrep⟩

/-- A process that is not killed and whose argument is a string starts a recording. -/
theorem Step.recordStart {pid : Word} {p : Proc ι} {filename : List Byte}
    (hproc : s.procs pid = some (p, false)) (hpid : p.pid = pid)
    (hname : argstr p 0 = some filename) (frame : Frame) :
    Step ops s (.trap pid frame .recordStart (some 1))
      (s.put pid (some 1) ((s.machine p false).startRecord filename)) :=
  .trap hproc hpid (trap_of_alive rfl (run_bind_of_ok (sysRecordStart_run hname)) rfl)

/-- A caller to which `sys_record_start` returns `1` is recording. -/
theorem Step.isRecording_of_recordStart {pid : Word} {frame : Frame}
    (h : Step ops s (.trap pid frame .recordStart (some 1)) s') :
    isRecording s'.session pid := by
  cases h with
  | @trap pid p killed frame sc eax m hproc hpid hrun =>
    rcases trap_eq_ok hrun with ⟨-, hnone, -⟩ | ⟨hkilled, r, m₁, hcall, hsame, heax⟩
    · cases hnone
    · obtain ⟨v, hstart, rfl⟩ := run_bind_pure_eq_ok.mp hcall
      cases hname : argstr p 0 with
      | none =>
        rw [sysRecordStart_none hname] at hstart
        injection hstart with hv _
        rw [← hv] at heax
        split at heax <;> simp at heax
      | some filename =>
        rw [sysRecordStart_run hname] at hstart
        injection hstart with _ hm
        rw [← hm] at hsame
        have hcore : m.core = ((s.machine p killed).startRecord filename).core := hsame
        have hown : ((s.machine p killed).startRecord filename).core.session.rrPid = pid := hpid
        simp [System.put, hcore, isRecording, hown]
        rfl

/-- **A whole run**: if both modes are not on at the start and every start call is
clean, they are never on together. -/
theorem Run.not_bothOn {path : List (Event × System σ ι π)} (h : Run ops s path)
    (hs : ¬ s.session.BothOn)
    (hclean : ∀ before e s' after, path = before ++ (e, s') :: after →
      CleanStart ops (Transitions.last s before) e) :
    ∀ before after, path = before ++ after →
      ¬ (Transitions.last s before).session.BothOn := by
  refine h.invariant (I := fun _ t => ¬ t.session.BothOn) hs ?_
  intro before e s' after hpath hstep hboth
  exact hstep.not_bothOn (hclean before e s' after hpath) hboth

/-- **Mode exclusion.**  In a run from boot, no process is ever in both modes, and
every call of a process that is recording, in particular of one to which
`sys_record_start` returned `1`, is executed and logged, exactly when every
`sys_record_start` that gets its file name finds the replay flag off and every
`sys_replay_start` that gets and loads its file finds the record flag off. -/
theorem mode_exclusion_iff {path : List (Event × System σ ι π)} (hrun : Run ops s path)
    (hboot : s.session = Session.boot) :
    ((∀ before after, path = before ++ after →
        ModesExclusive ops (Transitions.last s before)) ∧
      (∀ before pid frame s' after,
        path = before ++ (.trap pid frame .recordStart (some 1), s') :: after →
        isRecording s'.session pid)) ↔
    ∀ before e s' after, path = before ++ (e, s') :: after →
      CleanStart ops (Transitions.last s before) e := by
  constructor
  · rintro ⟨hmodes, -⟩ before e s' after hpath
    by_contra hdirty
    have hstep := Transitions.Path.step (hpath ▸ hrun)
    obtain ⟨pid, halive, hboth⟩ := hstep.bothOn hdirty
    have hafter := hmodes (before ++ [(e, s')]) after (by rw [hpath, List.append_cons])
    rw [Transitions.last_concat] at hafter
    exact hafter.1 pid halive hboth
  · intro hclean
    have hs : ¬ s.session.BothOn := by
      rw [hboot]
      exact fun h => absurd h.1 (by decide)
    refine ⟨fun before after hpath =>
      modesExclusive_of_not_bothOn (Run.not_bothOn hrun hs hclean before after hpath), ?_⟩
    intro before pid frame s' after hpath
    exact (Transitions.Path.step (hpath ▸ hrun)).isRecording_of_recordStart

end

/-- Boot, with two processes about to make a call with the path `"f"`, which names the
file of a session without calls. -/
def bootSystem : System (List Byte) Unit Unit where
  session := Session.boot
  procs := fun pid =>
    if pid = 5 ∨ pid = 7 then some (OneFile.proc pid [64] [102, 0], false) else none
  ftable := (OneFile.kern 5 [64] [102, 0] []).ftable
  ticks := 0
  fs := [0, 0, 0, 0]

theorem mode_exclusion_iff_record :
    ∃ s', Run OneFile.ops bootSystem [(.trap 5 Frame.zero .recordStart (some 1), s')] ∧
      ModesExclusive OneFile.ops s' ∧ isRecording s'.session 5 := by
  have hname : argstr (OneFile.proc 5 [64] [102, 0]) 0 = some [102] := rfl
  have hstep : Step OneFile.ops bootSystem (.trap 5 Frame.zero .recordStart (some 1)) _ :=
    .recordStart rfl rfl hname Frame.zero
  have hrun := Transitions.Path.cons hstep .nil
  have hclean : CleanStart OneFile.ops bootSystem (.trap 5 Frame.zero .recordStart (some 1)) := by
    intro p _ _
    decide
  obtain ⟨hmodes, hrec⟩ := (mode_exclusion_iff hrun rfl).mpr
    (Transitions.forall_step_cons (Q := fun t e _ => CleanStart OneFile.ops t e) hclean
      (Transitions.forall_step_nil (Q := fun t e _ => CleanStart OneFile.ops t e)))
  exact ⟨_, hrun, hmodes _ [] (List.append_nil _).symm, hrec [] 5 Frame.zero _ [] rfl⟩

/-- Process `5` starts a replay and does not stop it; process `7` then starts to
record, is told that it does, and is in both modes. -/
theorem both_modes_after_abandoned_replay :
    ∃ s₁ s₂, bootSystem.session = Session.boot ∧
      Run OneFile.ops bootSystem
        [(.trap 5 Frame.zero .replayStart (some 1), s₁),
         (.trap 7 Frame.zero .recordStart (some 1), s₂)] ∧
      (s₂.procs 7).isSome ∧ isRecording s₂.session 7 ∧ isReplaying s₂.session 7 := by
  have hload : ∃ m₁, (loadSession OneFile.ops).run
      ((bootSystem.machine (OneFile.proc 5 [64] [102, 0]) false).startReplay [102])
        = .ok (some 4) m₁ ∧ slice m₁.core.session.buffer 0 4 = [0, 0, 0, 0] := ⟨_, rfl, rfl⟩
  obtain ⟨m₁, hload, hat⟩ := hload
  have hno : ∀ e ∈ ([] : List Entry), e.WellFormed := by simp
  obtain ⟨c, hstart, hready, hkilled⟩ := sysReplayStart_of_load
    (m := bootSystem.machine (OneFile.proc 5 [64] [102, 0]) false) rfl hload
    hno (by decide) (by decide) (by decide) hat
  have hstep₁ : Step OneFile.ops bootSystem (.trap 5 Frame.zero .replayStart (some 1)) _ :=
    .trap (show bootSystem.procs 5 = some (OneFile.proc 5 [64] [102, 0], false) from rfl) rfl
      (trap_of_alive rfl (run_bind_of_ok hstart) hkilled)
  have hname : argstr (OneFile.proc 7 [64] [102, 0]) 0 = some [102] := rfl
  have hstep₂ : Step OneFile.ops (bootSystem.put 5 (some 1) { m₁ with core := c })
      (.trap 7 Frame.zero .recordStart (some 1)) _ :=
    .recordStart rfl rfl hname Frame.zero
  refine ⟨_, _, rfl, .cons hstep₁ (.cons hstep₂ .nil), rfl, rfl, ?_⟩
  exact congrArg (fun v : Word => v == 1 && (7 : Word) == 7) hready.replay

end V3
