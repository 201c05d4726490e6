/-
# The system of the second recorder, and what other processes do to a session

All processes together, as for the third recorder: they share the session, the open-file table
and the file system, and take turns.  Here the stop calls do not look at their caller, and
`sys_exit` makes both of them, so that any process that exits ends the session of the process
that started one.  The session is isolated from the other processes, and the calls of its
owner are logged or replayed, exactly in those runs in which no other process makes a stop or
exit call that finds something to change, and each call of the owner can be logged or
replayed.
-/
import Xv6Recorder.Transitions
import Xv6Recorder.V2Logged

open Bytes StateError Xv6
open V3 (Kind Syscall)

namespace V2

section

variable {σ ι π : Type}

/-! ## Steps and runs -/

/-- The state of the whole system.  A live process has a `killed` mark. -/
structure System (σ ι π : Type) where
  session : Session
  procs : Word → Option (Proc ι × Bool)
  ftable : Fin nfile → File ι π
  ticks : Word
  fs : σ

/-- The machine on which a system call of process `p` runs. -/
def System.machine (s : System σ ι π) (p : Proc ι) (killed : Bool) : Machine σ ι π where
  core := ⟨s.session, killed⟩
  kern := { proc := p, ftable := s.ftable, ticks := s.ticks, fs := s.fs }

/-- The system after a system call; the process is gone when it did not return. -/
def System.put (s : System σ ι π) (pid : Word) (eax : Option Word) (m : Machine σ ι π) :
    System σ ι π where
  session := m.core.session
  procs := Function.update s.procs pid
    (if eax.isSome then some (m.kern.proc, m.core.killed) else none)
  ftable := m.kern.ftable
  ticks := m.kern.ticks
  fs := m.kern.fs

/-- What happens in a step.  A system call shows the value that user mode sees. -/
inductive Event where
  | trap (pid : Word) (stack : Memory) (sc : Syscall) (eax : Option Word)
  | kill (pid : Word)
  | other

variable (ops : FsOps σ ι π)

/-- One step of the system.  Process numbers are positive, as `allocproc` counts them up from
`1`; of what is not a system call of the recorder all that is assumed is that it leaves the
session alone. -/
inductive Step : System σ ι π → Event → System σ ι π → Prop
  | trap {s : System σ ι π} {pid : Word} {p : Proc ι} {killed : Bool} {stack : Memory}
      {sc : Syscall} {eax : Option Word} {m : Machine σ ι π}
      (hproc : s.procs pid = some (p, killed)) (hpid : p.pid = pid) (hpos : 0 < pid.toInt)
      (hrun : (trap ops stack sc).run (s.machine p killed) = .ok eax m) :
      Step s (.trap pid stack sc eax) (s.put pid eax m)
  | kill {s : System σ ι π} {pid : Word} {p : Proc ι} {killed : Bool}
      (hproc : s.procs pid = some (p, killed)) :
      Step s (.kill pid) { s with procs := Function.update s.procs pid (some (p, true)) }
  | other {s s' : System σ ι π} (hsession : s'.session = s.session) : Step s .other s'

/-- A run, as the list of its events with the states they lead to. -/
abbrev Run (s : System σ ι π) (path : List (Event × System σ ι π)) : Prop :=
  Transitions.Path (Step ops) s path

/-- The five globals of a session are the same. -/
structure Session.SameGlobals (s s' : Session) : Prop where
  rrPid : s'.rrPid = s.rrPid
  record : s'.recordSyscalls = s.recordSyscalls
  replay : s'.replaySyscalls = s.replaySyscalls
  calls : s'.calls = s.calls
  syscallIdx : s'.syscallIdx = s.syscallIdx

/-- What a process has started. -/
inductive Mode where
  | record
  | replay
deriving DecidableEq

/-- A stop or exit call that finds something to change: an owner, a replay or a recording. -/
def Disturbs (sc : Syscall) (s : Session) : Prop :=
  (sc = .replayStop ∨ sc = .exit) ∧ (s.rrPid ≠ -1 ∨ s.replaySyscalls = 1) ∨
    (sc = .recordStop ∨ sc = .exit) ∧ s.recordSyscalls = 1

/-- No process other than `a`, unless it is already marked killed, makes a disturbing call. -/
def Undisturbed (a : Word) (s : System σ ι π) (path : List (Event × System σ ι π)) : Prop :=
  ∀ before pid stack sc eax s' after, path = before ++ (.trap pid stack sc eax, s') :: after →
    pid ≠ a → ∀ p, (Transitions.last s before).procs pid = some (p, false) →
      ¬ Disturbs sc (Transitions.last s before).session

variable {ops} {m m' : Machine σ ι π} {stack : Memory}

variable {path : List (Event × System σ ι π)} {eax : Option Word} {sc : Syscall} {a : Word}

theorem leave_eq_ok (h : (leave ops).run m = .ok eax m') : eax = none ∧ m'.core = m.core := by
  obtain ⟨_, m₁, hexit, hpure⟩ := run_bind_eq_ok.mp h
  injection hpure with heax hm
  obtain ⟨kern', -, hm₁⟩ := run_zoom_eq_ok.mp hexit
  rw [← hm, hm₁]
  exact ⟨heax.symm, rfl⟩

/-- The two ways through the trap: a process that is marked killed exits, and any other makes
its call, after which the recorder's state is what the call left. -/
theorem trap_eq_ok (h : (trap ops stack sc).run m = .ok eax m') :
    (m.core.killed = true ∧ eax = none ∧ m'.core = m.core) ∨
    (m.core.killed = false ∧ m'.core = (endState ((syscall ops stack sc).run m)).core) := by
  rw [EStateM.run, trap] at h
  split at h
  case isTrue hkilled =>
    obtain ⟨heax, hcore⟩ := leave_eq_ok h
    exact .inl ⟨hkilled, heax, hcore⟩
  case isFalse hkilled =>
    refine .inr ⟨by simpa using hkilled, ?_⟩
    split at h
    case h_1 v m₁ hcall =>
      rw [hcall]
      split at h
      · exact (leave_eq_ok h).2
      · injection h with _ hm
        rw [← hm]
        rfl
    case h_2 m₁ hcall =>
      rw [hcall]
      exact (leave_eq_ok h).2
    case h_3 => cases h

/-- An exit is a stop of replaying and then a stop of recording. -/
theorem endState_sysExit : endState ((sysExit ops stack).run m)
    = endState ((sysRecordStop ops stack).run ⟨m.core.stopReplay, m.kern⟩) := by
  rw [sysExit, run_bind_of_ok sysReplayStop_run]
  cases h : (sysRecordStop ops stack).run ⟨m.core.stopReplay, m.kern⟩ with
  | ok v m₁ => rw [run_bind_of_ok h]; rfl
  | error e m₁ => rw [run_bind_of_error h]

/-- The owner after a system call: the same, nobody, or the caller of a start call. -/
theorem syscall_rrPid (ops : FsOps σ ι π) (stack : Memory) (m : Machine σ ι π) (sc : Syscall) :
    (endState ((syscall ops stack sc).run m)).core.session.rrPid = m.core.session.rrPid ∨
    (endState ((syscall ops stack sc).run m)).core.session.rrPid = -1 ∨
    sc.isStart = true ∧
      (endState ((syscall ops stack sc).run m)).core.session.rrPid = m.kern.proc.pid := by
  cases sc with
  | call k =>
    rcases (handler_mode ops k m).1.rrPid with h | h
    · exact .inl h
    · exact .inr (.inl h)
  | recordStart =>
    simp only [syscall, sysRecordStart_run]
    split
    · exact .inl rfl
    · exact .inr (.inr ⟨rfl, rfl⟩)
  | replayStart =>
    simp only [syscall, sysReplayStart_run]
    split
    · exact .inl rfl
    · rename_i filename _
      have hkeeps : Machine.Decays
          ⟨m.core.startReplay filename m.kern.proc.pid, m.kern⟩ _ :=
        Keeps.bind_at (f := fun _ => do
          let m ← get
          pure m.core.session.replaySyscalls)
          ((steadyCall_loadSession ops stack).keeps (fun _ _ => Core.SameMode.decays) _)
          fun _ => Keeps.get.bind fun _ => Keeps.pure _
      rcases hkeeps.rrPid with h | h
      · exact .inr (.inr ⟨rfl, h⟩)
      · exact .inr (.inl h)
  | recordStop =>
    by_cases hrec : m.core.session.recordSyscalls = 1
    · rcases (sysRecordStop_mode ops stack hrec).2 with h | h
      · exact .inl h
      · exact .inr (.inl h)
    · simp only [syscall, sysRecordStop_idle ops stack hrec]
      exact .inl rfl
  | replayStop =>
    simp only [syscall, sysReplayStop_run]
    exact .inr (.inl rfl)
  | exit =>
    refine .inr (.inl ?_)
    simp only [syscall, endState_sysExit]
    by_cases hrec : m.core.session.recordSyscalls = 1
    · rcases (sysRecordStop_mode (m := ⟨m.core.stopReplay, m.kern⟩) ops stack hrec).2 with h | h
      · exact h
      · exact h
    · rw [sysRecordStop_idle (m := ⟨m.core.stopReplay, m.kern⟩) ops stack hrec]
      rfl

/-! ## Other processes -/

theorem Session.SameGlobals.refl (s : Session) : s.SameGlobals s := ⟨rfl, rfl, rfl, rfl, rfl⟩

/-- The session is in the mode that process `a` has started. -/
def InMode (a : Word) : Option Mode → Session → Prop
  | none, _ => True
  | some .record, s => s.recordSyscalls = 1 ∧ s.replaySyscalls ≠ 1 ∧ s.rrPid = a
  | some .replay, s => s.replaySyscalls = 1 ∧ s.recordSyscalls ≠ 1 ∧ s.rrPid = a

theorem InMode.congr {mode : Option Mode} {s s' : Session} (h : InMode a mode s)
    (hrec : s'.recordSyscalls = s.recordSyscalls) (hrep : s'.replaySyscalls = s.replaySyscalls)
    (hpid : s'.rrPid = s.rrPid) : InMode a mode s' := by
  match mode with
  | none => trivial
  | some .record =>
    rw [InMode, hrec, hrep, hpid]
    exact h
  | some .replay =>
    rw [InMode, hrec, hrep, hpid]
    exact h

variable (ops)

section

variable {a pid : Word} {s s' : System σ ι π} {e : Event} {sc : Syscall} {eax : Option Word}
  (howner : s.session.rrPid = a ∨ s.session.rrPid = -1)
include howner

/-- The owner is the process that makes the start calls, or nobody. -/
theorem Step.owner (h : Step ops s e s')
    (hstart : ∀ pid stack sc eax, e = .trap pid stack sc eax → sc.isStart = true → pid = a) :
    s'.session.rrPid = a ∨ s'.session.rrPid = -1 := by
  cases h with
  | @trap pid p killed stack sc eax m hproc hpid hpos hrun =>
    show m.core.session.rrPid = a ∨ m.core.session.rrPid = -1
    rcases trap_eq_ok hrun with ⟨-, -, hcore⟩ | ⟨-, hcore⟩
    · rw [hcore]
      exact howner
    · rw [hcore]
      rcases syscall_rrPid ops stack (s.machine p killed) sc with
        hsame | hnone | ⟨hsc, hcaller⟩
      · rw [hsame]
        exact howner
      · exact .inr hnone
      · rw [hcaller, ← hstart pid stack sc eax rfl hsc]
        exact .inl hpid
  | kill hproc => exact howner
  | other hsession => rw [hsession]; exact howner

variable {p : Proc ι}

omit howner in
/-- A call of a process that is not marked killed runs on the machine of that process; if it
hands out a value, the process is there afterwards, and not marked killed. -/
theorem Step.call_eq (h : Step ops s (.trap pid stack sc eax) s')
    (hproc : s.procs pid = some (p, false)) :
    ∃ m, (V2.trap ops stack sc).run (s.machine p false) = .ok eax m ∧ p.pid = pid ∧
      s'.session = m.core.session ∧
      ((∃ v, eax = some v) → s'.procs pid = some (m.kern.proc, false)) := by
  cases h with
  | @trap _ p' killed _ _ _ m hproc' hpid hpos hrun =>
    obtain ⟨rfl, rfl⟩ := Prod.mk.inj (Option.some.inj (hproc.symm.trans hproc'))
    refine ⟨m, hrun, hpid, rfl, ?_⟩
    rintro ⟨v, rfl⟩
    rw [System.put, (trap_eq_some hrun).2]
    exact Function.update_self _ _ _

end

end

/-! ## Two processes -/

variable {s' s₂ s₃ : System (List Byte) Unit Unit} {eax eax' : Option Word}

end V2
