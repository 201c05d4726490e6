/-
# The system, and isolation of the session's owner

All processes together: they share the session, the open-file table and the file
system, and take turns.  A step is one system call of one process, a `kill`, or
anything else the kernel and user programs do, of which all that is assumed is that
it leaves the session alone.

A process that does not own the session cannot reach it: its recorded-kind calls run
the original code, and its stop and exit calls do nothing to the session.  So until
some process calls a start call, the session is a function of the owner's own calls.
-/
import Xv6Recorder.Transitions
import Xv6Recorder.V3Modes
import Xv6Recorder.V3Recording

open Bytes StateError Xv6

namespace V3

section

variable {σ ι π : Type}

/-! ## Steps and runs -/

/-- The state of the whole system.  A live process has a `killed` mark. -/
structure System (σ ι π : Type) where
  session : Session
  procs : Word → Option (Proc ι × Bool)
  ftable : Fin nfile → File ι π
  ticks : Word
  fs : σ

/-- The kernel as process `p` sees it. -/
def System.kern (s : System σ ι π) (p : Proc ι) : Kern σ ι π :=
  { proc := p, ftable := s.ftable, ticks := s.ticks, fs := s.fs }

/-- The machine on which a system call of process `p` runs. -/
def System.machine (s : System σ ι π) (p : Proc ι) (killed : Bool) : Machine σ ι π :=
  { core := { session := s.session, killed := killed }, kern := s.kern p }

/-- The system after a system call; the process is gone when it did not return. -/
def System.put (s : System σ ι π) (pid : Word) (eax : Option Word) (m : Machine σ ι π) :
    System σ ι π where
  session := m.core.session
  procs := Function.update s.procs pid
    (if eax.isSome then some (m.kern.proc, m.core.killed) else none)
  ftable := m.kern.ftable
  ticks := m.kern.ticks
  fs := m.kern.fs

/-- What happens in a step.  A system call shows the value that user mode sees. -/
inductive Event where
  | trap (pid : Word) (frame : Frame) (sc : Syscall) (eax : Option Word)
  | kill (pid : Word)
  | other

variable (ops : FsOps σ ι π)

/-- One step of the system. -/
inductive Step : System σ ι π → Event → System σ ι π → Prop
  | trap {s : System σ ι π} {pid : Word} {p : Proc ι} {killed : Bool} {frame : Frame}
      {sc : Syscall} {eax : Option Word} {m : Machine σ ι π}
      (hproc : s.procs pid = some (p, killed)) (hpid : p.pid = pid)
      (hrun : (trap ops frame sc).run (s.machine p killed) = .ok eax m) :
      Step s (.trap pid frame sc eax) (s.put pid eax m)
  | kill {s : System σ ι π} {pid : Word} {p : Proc ι} {killed : Bool}
      (hproc : s.procs pid = some (p, killed)) :
      Step s (.kill pid) { s with procs := Function.update s.procs pid (some (p, true)) }
  | other {s s' : System σ ι π} (hsession : s'.session = s.session) : Step s .other s'

/-- A run, as the list of its events with the states they lead to. -/
abbrev Run (s : System σ ι π) (path : List (Event × System σ ι π)) : Prop :=
  Transitions.Path (Step ops) s path

/-- Whether an event is a start call. -/
def Event.isStart : Event → Bool
  | .trap _ _ sc _ => sc.isStart
  | _ => false

/-- A system call of the owner as the kernel sees it. -/
structure OwnCall (σ ι π : Type) where
  frame : Frame
  sc : Syscall
  killed : Bool
  kern : Kern σ ι π

/-- The session after a call of the owner. -/
def OwnCall.apply (session : Session) (v : OwnCall σ ι π) : Session :=
  (endState ((trap ops v.frame v.sc).run ⟨⟨session, v.killed⟩, v.kern⟩)).core.session

/-- The system calls of one process in a run. -/
def ownCalls (pid : Word) : System σ ι π → List (Event × System σ ι π) → List (OwnCall σ ι π)
  | _, [] => []
  | s, (.trap pid' frame sc _, s') :: path =>
    match s.procs pid' with
    | some (p, killed) =>
      if pid' = pid then ⟨frame, sc, killed, s.kern p⟩ :: ownCalls pid s' path
      else ownCalls pid s' path
    | none => ownCalls pid s' path
  | _, (_, s') :: path => ownCalls pid s' path

/-! ## A process that does not own the session -/

variable {ops} {m : Machine σ ι π}

theorem isRecording_eq_false {s : Session} {pid : Word} (h : s.rrPid ≠ pid) :
    isRecording s pid = false := by
  simp [isRecording, h]

theorem isReplaying_eq_false {s : Session} {pid : Word} (h : s.rrPid ≠ pid) :
    isReplaying s pid = false := by
  simp [isReplaying, h]

/-- A stop of a process that is not replaying. -/
theorem sysReplayStop_idle (h : isReplaying m.core.session m.kern.proc.pid = false) :
    (sysReplayStop : SysM σ ι π Word).run m = .ok m.core.session.replaySyscalls m := by
  rw [sysReplayStop, EStateM.run_bind, EStateM.run_get]
  simp only [h, Bool.false_eq_true, if_false]
  rfl

section

variable (hne : m.core.session.rrPid ≠ m.kern.proc.pid)
include hne

theorem stranger_handler (k : Kind) (frame : Frame) :
    ((handler ops k).run frame).run m = (onKern (handler ops k).original).run m :=
  Handler.run_idle _ _ _ (isRecording_eq_false hne) (isReplaying_eq_false hne)

theorem stranger_recordStop :
    (sysRecordStop ops).run m = .ok m.core.session.recordSyscalls m := by
  rw [sysRecordStop, EStateM.run_bind, EStateM.run_get]
  simp only [isRecording_eq_false hne, Bool.false_eq_true, if_false, EStateM.run_pure]

theorem stranger_replayStop :
    (sysReplayStop : SysM σ ι π Word).run m = .ok m.core.session.replaySyscalls m :=
  sysReplayStop_idle (isReplaying_eq_false hne)

end

/-- A call that leaves the process alive reaches user mode. -/
theorem trap_of_alive {frame : Frame} {sc : Syscall} {v : Word} {m' : Machine σ ι π}
    (hkilled : m.core.killed = false) (hcall : (syscall ops frame sc).run m = .ok (some v) m')
    (halive : m'.core.killed = false) : (trap ops frame sc).run m = .ok (some v) m' := by
  rw [trap, EStateM.run_bind, EStateM.run_get]
  simp only [hkilled, Bool.false_eq_true, if_false]
  rw [run_bind_of_ok hcall]
  simp only [EStateM.run_bind, EStateM.run_get, halive, Bool.false_eq_true, if_false,
    EStateM.run_pure]

/-- The two ways through the trap: a process that is already killed exits, any other
makes its call and sees the result unless that call killed it. -/
theorem trap_eq_ok {frame : Frame} {sc : Syscall} {eax : Option Word} {m' : Machine σ ι π}
    (h : (trap ops frame sc).run m = .ok eax m') :
    (m.core.killed = true ∧ eax = none ∧ m.SameCore m') ∨
    (m.core.killed = false ∧ ∃ r m₁, (syscall ops frame sc).run m = .ok r m₁ ∧
      m₁.SameCore m' ∧ eax = if m₁.core.killed then none else r) := by
  rw [trap, EStateM.run_bind, EStateM.run_get] at h
  simp only at h
  split at h
  case isTrue hkilled =>
    obtain ⟨_, m₁, hexit, hpure⟩ := run_bind_eq_ok.mp h
    injection hpure with heax hm
    rw [← hm]
    exact .inl ⟨hkilled, heax.symm, (sameCore_onKern _).of_ok hexit⟩
  case isFalse hkilled =>
    obtain ⟨r, m₁, hcall, hrest⟩ := run_bind_eq_ok.mp h
    refine .inr ⟨by simpa using hkilled, r, m₁, hcall, ?_⟩
    cases r with
    | none =>
      injection hrest with heax hm
      rw [← hm, ← heax]
      exact ⟨rfl, by simp⟩
    | some v =>
      rw [EStateM.run_bind, EStateM.run_get] at hrest
      simp only at hrest
      split at hrest
      case isTrue hkilled₁ =>
        obtain ⟨_, m₂, hexit, hpure⟩ := run_bind_eq_ok.mp hrest
        injection hpure with heax hm
        rw [← hm, ← heax]
        exact ⟨(sameCore_onKern _).of_ok hexit, by simp [hkilled₁]⟩
      case isFalse hkilled₁ =>
        injection hrest with heax hm
        rw [← hm, ← heax]
        exact ⟨rfl, by simp [hkilled₁]⟩

section

variable (hne : m.core.session.rrPid ≠ m.kern.proc.pid)
include hne

theorem stranger_exit : (sysExit ops).run m = (onKern (exit ops)).run m := by
  rw [sysExit, run_bind_of_ok (stranger_replayStop hne), run_bind_of_ok (stranger_recordStop hne)]

/-- A system call of a process that does not own the session. -/
theorem stranger_syscall (frame : Frame) (sc : Syscall) (hsc : sc.isStart = false) :
    m.SameCore (endState ((syscall ops frame sc).run m)) := by
  cases sc with
  | call kind =>
    refine Keeps.bind_at ?_ fun _ => .pure _
    rw [stranger_handler hne]
    exact sameCore_onKern _ m
  | recordStop =>
    refine Keeps.bind_at ?_ fun _ => .pure _
    rw [stranger_recordStop hne]
    exact refl m
  | replayStop =>
    refine Keeps.bind_at ?_ fun _ => .pure _
    rw [stranger_replayStop hne]
    exact refl m
  | exit =>
    refine Keeps.bind_at ?_ fun _ => .pure _
    rw [stranger_exit hne]
    exact sameCore_onKern _ m
  | recordStart => simp [Syscall.isStart] at hsc
  | replayStart => simp [Syscall.isStart] at hsc

theorem stranger_trap (frame : Frame) (sc : Syscall) (hsc : sc.isStart = false) :
    m.SameCore (endState ((trap ops frame sc).run m)) := by
  have hexit : Keeps Machine.SameCore
      (onKern (exit ops) >>= fun _ => pure none : SysM σ ι π (Option Word)) :=
    (sameCore_onKern _).bind fun _ => .pure _
  rw [trap, EStateM.run_bind, EStateM.run_get]
  simp only
  split
  · exact hexit m
  · refine Keeps.bind_at (stranger_syscall hne frame sc hsc) fun r => ?_
    cases r with
    | none => exact .pure _
    | some eax => exact Keeps.get.bind fun _ => .ite hexit (.pure _)

end

/-! ## Runs without a start call -/

/-- **One step**: without a start call the owner stays, and the session changes only
by a call of the owner. -/
theorem Step.session_eq {s s' : System σ ι π} {e : Event} (h : Step ops s e s')
    (he : e.isStart = false) (path : List (Event × System σ ι π)) :
    s'.session.rrPid = s.session.rrPid ∧
    ∃ own : List (OwnCall σ ι π), s'.session = own.foldl (OwnCall.apply ops) s.session ∧
      ownCalls s.session.rrPid s ((e, s') :: path)
        = own ++ ownCalls s.session.rrPid s' path := by
  cases h with
  | @trap pid p killed frame sc eax m hproc hpid hrun =>
    have hend : endState ((V3.trap ops frame sc).run (s.machine p killed)) = m := by rw [hrun]; rfl
    have hkeep := keeps_trap ops frame sc (keeps_onKern _) (keeps_syscall ops frame sc he)
      (s.machine p killed)
    rw [hend] at hkeep
    refine ⟨hkeep.rrPid_eq, ?_⟩
    simp only [ownCalls, hproc]
    by_cases howner : pid = s.session.rrPid
    · refine ⟨[⟨frame, sc, killed, s.kern p⟩], ?_, by rw [if_pos howner]; rfl⟩
      simp only [List.foldl_cons, List.foldl_nil, OwnCall.apply]
      exact congrArg (fun m => m.core.session) hend.symm
    · refine ⟨[], ?_, by rw [if_neg howner]; rfl⟩
      have hne : (s.machine p killed).core.session.rrPid
          ≠ (s.machine p killed).kern.proc.pid := fun h => howner (by rw [← hpid]; exact h.symm)
      have hsame : Machine.SameCore _ (endState ((V3.trap ops frame sc).run _)) :=
        stranger_trap hne frame sc he
      rw [hend] at hsame
      exact congrArg Core.session hsame
  | kill hproc => exact ⟨rfl, [], rfl, rfl⟩
  | other hsession => exact ⟨by rw [hsession], [], hsession, rfl⟩

/-- **A whole run**: without a start call the session is what the owner's calls, one
after the other, make of it. -/
theorem Run.session_eq {s : System σ ι π} {path : List (Event × System σ ι π)}
    (h : Run ops s path) (hstart : ∀ t ∈ path, t.1.isStart = false) :
    (Transitions.last s path).session
      = (ownCalls s.session.rrPid s path).foldl (OwnCall.apply ops) s.session := by
  induction h with
  | nil => rfl
  | @cons s s' e path hstep _ ih =>
    obtain ⟨hpid, own, hsession, hcalls⟩ :=
      hstep.session_eq (hstart _ List.mem_cons_self) path
    rw [hcalls, List.foldl_append, ← hsession, ← hpid]
    exact ih fun t ht => hstart t (List.mem_cons_of_mem _ ht)

/-- **Isolation.**  For a process that does not own the session, each recorded-kind
call is its original branch, with the recorder's state untouched, and the stop and
exit calls leave the session as it was.  In any run without a start call, the session
is what the owner's own calls make of it. -/
theorem session_isolation (ops : FsOps σ ι π) :
    (∀ (m : Machine σ ι π) (frame : Frame), m.core.session.rrPid ≠ m.kern.proc.pid →
      (∀ k : Kind,
        match (handler ops k).original.run m.kern with
        | .ok ret kern' =>
          ((handler ops k).run frame).run m = .ok ret { m with kern := kern' }
        | .error msg kern' =>
          ((handler ops k).run frame).run m = .error (.panic msg) { m with kern := kern' }) ∧
      (sysRecordStop ops).run m = .ok m.core.session.recordSyscalls m ∧
      (sysReplayStop : SysM σ ι π Word).run m = .ok m.core.session.replaySyscalls m ∧
      (endState ((sysExit ops).run m)).core.session = m.core.session) ∧
    (∀ (s : System σ ι π) (path : List (Event × System σ ι π)), Run ops s path →
      (∀ t ∈ path, t.1.isStart = false) →
      (Transitions.last s path).session
        = (ownCalls s.session.rrPid s path).foldl (OwnCall.apply ops) s.session) := by
  refine ⟨fun m frame hne => ⟨fun k => ?_, stranger_recordStop hne, stranger_replayStop hne, ?_⟩,
    fun s path hrun hstart => hrun.session_eq hstart⟩
  · rw [stranger_handler hne]
    cases h : (handler ops k).original.run m.kern with
    | ok ret kern' => exact run_onKern_of_ok h
    | error msg kern' => exact run_onKern_of_error h
  · rw [stranger_exit hne]
    exact congrArg Core.session (sameCore_onKern (exit ops) m)

end

/-- Process `5` is recording; process `7` is running. -/
def sharedSystem : System (List Byte) Unit Unit where
  session := { Session.boot with recordSyscalls := 1, rrPid := 5 }
  procs := fun pid => if pid = 7 then some (OneFile.proc 7 [3] [], false) else none
  ftable := (OneFile.kern 7 [3] [] []).ftable
  ticks := 0
  fs := []

theorem session_isolation_getpid :
    ((handler OneFile.ops .getpid).run Frame.zero).run
        (sharedSystem.machine (OneFile.proc 7 [3] []) false)
        = .ok 7 (sharedSystem.machine (OneFile.proc 7 [3] []) false) ∧
    ∃ s', Run OneFile.ops sharedSystem
        [(.trap 7 Frame.zero (.call .getpid) (some 7), s')] ∧
      s'.session = sharedSystem.session := by
  constructor
  · exact ((session_isolation OneFile.ops).1 (sharedSystem.machine (OneFile.proc 7 [3] []) false)
      Frame.zero (by decide)).1 .getpid
  · have hrun : Run OneFile.ops sharedSystem
        [(.trap 7 Frame.zero (.call .getpid) (some 7), sharedSystem.put 7 (some 7)
          (sharedSystem.machine (OneFile.proc 7 [3] []) false))] :=
      .cons (.trap (show sharedSystem.procs 7 = some (OneFile.proc 7 [3] [], false) from rfl)
        rfl rfl) .nil
    exact ⟨_, hrun, (session_isolation OneFile.ops).2 _ _ hrun (by simp [Event.isStart,
      Syscall.isStart])⟩

end V3
