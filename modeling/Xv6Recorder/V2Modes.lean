/-
# Modes of the second recorder

How the system calls move the two mode flags and the owner.  Recorder code that fails sets a
flag to `-1` and exits, so a program that comes back has left them alone (`SameMode`), and
one that does not has at most let some of them decay to `-1` (`Decays`).  Only the start and
stop calls do more, and what they do is written out.
-/
import Xv6Recorder.V2Replaying

open Bytes StateError Xv6
open V3 (Kind Input)

namespace V2

/-! ## The two relations -/

/-- The flags and the owner are the same. -/
structure Core.SameMode (c c' : Core) : Prop where
  record : c'.session.recordSyscalls = c.session.recordSyscalls
  replay : c'.session.replaySyscalls = c.session.replaySyscalls
  rrPid : c'.session.rrPid = c.session.rrPid

/-- Each of the flags and the owner is the same or has become `-1`. -/
structure Core.Decays (c c' : Core) : Prop where
  record : c'.session.recordSyscalls = c.session.recordSyscalls ∨ c'.session.recordSyscalls = -1
  replay : c'.session.replaySyscalls = c.session.replaySyscalls ∨ c'.session.replaySyscalls = -1
  rrPid : c'.session.rrPid = c.session.rrPid ∨ c'.session.rrPid = -1

/-- What is the same has decayed at most. -/
theorem Core.SameMode.decays {c c' : Core} (h : c.SameMode c') : c.Decays c' :=
  ⟨.inl h.record, .inl h.replay, .inl h.rrPid⟩

instance : IsPreorder Core Core.SameMode where
  refl _ := ⟨rfl, rfl, rfl⟩
  trans _ _ _ h h' := ⟨h'.record.trans h.record, h'.replay.trans h.replay, h'.rrPid.trans h.rrPid⟩

instance : IsPreorder Core Core.Decays where
  refl _ := ⟨.inl rfl, .inl rfl, .inl rfl⟩
  trans _ _ _ h h' := by
    have hstep : ∀ {x y z : Word}, y = x ∨ y = -1 → z = y ∨ z = -1 → z = x ∨ z = -1 := by
      rintro x y z (rfl | rfl) (rfl | rfl) <;> simp
    exact ⟨hstep h.record h'.record, hstep h.replay h'.replay, hstep h.rrPid h'.rrPid⟩

instance : Trans Core.SameMode Core.Decays Core.Decays where
  trans h h' := IsTrans.trans _ _ _ h.decays h'

section

variable {σ ι π α : Type}

/-- The flags and the owner in the recorder of a machine are the same. -/
def Machine.SameMode (m m' : Machine σ ι π) : Prop := m.core.SameMode m'.core

/-- They have decayed at most, whatever the kernel of the machine did. -/
def Machine.Decays (m m' : Machine σ ι π) : Prop := m.core.Decays m'.core

instance : IsPreorder (Machine σ ι π) Machine.SameMode where
  refl m := refl m.core
  trans _ _ _ h h' := IsTrans.trans (r := Core.SameMode) _ _ _ h h'

instance : IsPreorder (Machine σ ι π) Machine.Decays where
  refl m := refl m.core
  trans _ _ _ h h' := IsTrans.trans (r := Core.Decays) _ _ _ h h'

instance : Trans (Machine.SameMode : Machine σ ι π → Machine σ ι π → Prop) Machine.Decays
    Machine.Decays where
  trans h h' := IsTrans.trans (r := Core.Decays) _ _ _ (Core.SameMode.decays h) h'

/-! ## Recorder code -/

/-- A recorder program that leaves the mode alone when it returns. -/
abbrev Steady (x : RecM α) : Prop := Moves Core.SameMode Core.Decays x

/-- The three error exits do not return; each lets its flags decay. -/
theorem steady_replayExit : Steady (replayExit : RecM α) := fun _ => ⟨.inl rfl, .inr rfl, .inl rfl⟩

theorem steady_recordExit : Steady (recordExit : RecM α) := fun _ => ⟨.inr rfl, .inl rfl, .inl rfl⟩

theorem steady_bothExit : Steady (bothExit : RecM α) := fun _ => ⟨.inr rfl, .inr rfl, .inl rfl⟩

/-- A call with too many fields halts the kernel, with the flags as they were. -/
theorem steady_setField (msg : String) (call : Call) (field : Field) :
    Steady (setField msg call field) := by
  rw [setField]
  split
  · exact Moves.pure _
  · exact Moves.throw _

theorem steady_setInt (call : Call) (num : Word) : Steady (setInt call num) := steady_setField _ _ _

theorem steady_setUint (call : Call) (unum : Word) : Steady (setUint call unum) :=
  steady_setField _ _ _

/-- A text that is too long ends both modes. -/
theorem steady_setInput (call : Call) (arg : Arg) : Steady (setInput call arg) := by
  cases arg with
  | int num => exact steady_setInt _ _
  | str text =>
    exact (Moves.ite steady_bothExit (Moves.pure _)).bind fun _ => steady_setField _ _ _

/-- By induction on the inputs that are still to be set. -/
theorem steady_setInputs (args : List Arg) (call : Call) : Steady (setInputs call args) := by
  induction args generalizing call with
  | nil => exact Moves.pure _
  | cons arg args ih => exact (steady_setInput call arg).bind fun call => ih call

/-- The bytes of a `read` that are too many end both modes. -/
theorem steady_transformCharPointerToByte (buffer : Option Memory) (size : Word) :
    Steady (transformCharPointerToByte buffer size) := by
  refine Moves.ite steady_bothExit (Moves.ite (Moves.throw _) ?_)
  cases buffer with
  | some buffer => exact Moves.pure _
  | none => exact Moves.ite (Moves.pure _) (Moves.throw _)

/-- A full log ends the recording, and any other log grows. -/
theorem steady_addSyscall (call : Call) : Steady (addSyscall call) :=
  Moves.get.bind fun _ => Moves.ite steady_recordExit (Moves.modify fun _ => ⟨rfl, rfl, rfl⟩)

/-- Bytes that differ end the replay. -/
theorem steady_compareContent (replayed recorded : Data) :
    Steady (compareContent replayed recorded) := by
  unfold compareContent
  dsimp only
  split
  · split
    · exact Moves.pure _
    · exact Moves.throw _
  · exact steady_replayExit

/-- So does a field of another type, or another number. -/
theorem steady_compareField (replayed recorded : Field) :
    Steady (compareField replayed recorded) := by
  refine Moves.ite steady_replayExit (Moves.ite (Moves.pure _) (Moves.ite ?_ (Moves.ite ?_ ?_)))
  · exact Moves.ite steady_replayExit (Moves.pure _)
  · exact Moves.ite steady_replayExit (steady_compareContent replayed.data recorded.data)
  · exact Moves.ite (Moves.pure _) steady_replayExit

/-- By induction on the fields that are still to be compared. -/
theorem steady_compareSyscalls (replayed recorded : Call) :
    Steady (compareSyscalls replayed recorded) := by
  have hfields : ∀ l, Steady (compareFields replayed recorded l) := by
    intro l
    induction l with
    | nil => exact Moves.pure _
    | cons i l ih => exact (steady_compareField _ _).bind fun _ => ih
  exact hfields _

/-! ## Handlers -/

/-- A system call program that leaves the mode alone when it returns. -/
abbrev SteadyCall (x : SysM σ ι π α) : Prop := Moves Machine.SameMode Machine.Decays x

/-- Kernel code does not touch the session. -/
theorem steadyCall_onKern (x : KM σ ι π α) : SteadyCall (onKern x) :=
  Moves.zoom (Q := fun _ _ => True) (F := fun _ _ => True) (fun k => by cases x.run k <;> trivial)
    (fun m _ _ => refl m.core) (fun m _ _ => refl m.core)

/-- A program of the recorder, run as a part of a system call. -/
theorem steadyCall_onCore {x : RecM α} (hx : Steady x) : SteadyCall (onCore x : SysM σ ι π α) :=
  Moves.zoom hx (fun _ _ h => h) (fun _ _ h => h)

section Fetching

variable {fail : {α : Type} → RecM α} (hfail : ∀ {α : Type}, Steady (fail : RecM α))
include hfail

/-- An argument that cannot be fetched takes the error exit the caller has chosen. -/
theorem steadyCall_fetchInt (pos : ℕ) : SteadyCall (fetchInt fail pos : SysM σ ι π Word) :=
  moves_fetchInt (steadyCall_onCore hfail) pos

theorem steadyCall_fetchPtr (pos : ℕ) (size : Word) :
    SteadyCall (fetchPtr fail pos size : SysM σ ι π Word) :=
  moves_fetchPtr (steadyCall_onCore hfail) pos size

theorem steadyCall_fetchInputs (inputs : List Input) :
    SteadyCall (fetchInputs fail inputs : SysM σ ι π (List Arg)) :=
  moves_fetchInputs (steadyCall_onCore hfail) inputs

/-- The replay of a call with one output: fetch, set, compare, answer. -/
theorem steadyCall_replayOutput (number : Byte) (inputs : List Input)
    {setOutput : Call → Word → RecM Call} (hset : ∀ call num, Steady (setOutput call num))
    (pos : Fin maxFieldSize) (recorded : Call) :
    SteadyCall (replayOutput fail number inputs setOutput pos recorded : SysM σ ι π Word) := by
  refine (steadyCall_fetchInputs hfail inputs).bind fun args => steadyCall_onCore ?_
  refine (steady_setInputs args _).bind fun _ => (hset _ _).bind fun _ => ?_
  exact (steady_compareSyscalls _ _).bind fun _ => Moves.pure _

end Fetching

/-- `read` fetches with the exit of the recording, in the replay too. -/
theorem steadyCall_replayRead (recorded : Call) :
    SteadyCall (replayRead recorded : SysM σ ι π Word) := by
  refine (steadyCall_fetchInt steady_recordExit _).bind fun fd => ?_
  refine (steadyCall_fetchInt steady_recordExit _).bind fun n => ?_
  refine (steadyCall_fetchPtr steady_recordExit _ _).bind fun p => ?_
  refine (steadyCall_onCore ?_).bind fun _ => Moves.ite (Moves.throw _) ?_
  · refine (steady_setField _ _ _).bind fun _ => (steady_setField _ _ _).bind fun _ => ?_
    refine (steady_setField _ _ _).bind fun _ => (steady_setField _ _ _).bind fun _ => ?_
    exact steady_compareSyscalls _ _
  · exact (steadyCall_onKern _).bind fun _ => Moves.pure _

/-- So does `fstat`. -/
theorem steadyCall_replayFstat (recorded : Call) :
    SteadyCall (replayFstat recorded : SysM σ ι π Word) := by
  refine (steadyCall_fetchInt steady_recordExit _).bind fun fd => ?_
  refine (steadyCall_fetchPtr steady_recordExit _ _).bind fun st => ?_
  refine (steadyCall_onCore ?_).bind fun _ => (steadyCall_onKern _).bind fun _ => Moves.pure _
  refine (steady_setField _ _ _).bind fun _ => (steady_setField _ _ _).bind fun _ => ?_
  exact (steady_setField _ _ _).bind fun _ => steady_compareSyscalls _ _

/-- The recording of a call with one output: fetch, set, run, log. -/
theorem steadyCall_recordOutput (number : Byte) (inputs : List Input) (body : KM σ ι π Word) :
    SteadyCall (recordOutput number inputs body) := by
  refine (steadyCall_fetchInputs steady_recordExit inputs).bind fun args => ?_
  refine (steadyCall_onCore (steady_setInputs args _)).bind fun _ => ?_
  refine (steadyCall_onKern _).bind fun _ => (steadyCall_onCore (steady_setField _ _ _)).bind ?_
  exact fun _ => (steadyCall_onCore (steady_addSyscall _)).bind fun _ => Moves.pure _

variable (ops : FsOps σ ι π)

/-- `read` logs its bytes besides. -/
theorem steadyCall_recordRead : SteadyCall (recordRead ops) := by
  refine (steadyCall_fetchInt steady_recordExit _).bind fun fd => ?_
  refine (steadyCall_fetchInt steady_recordExit _).bind fun n => ?_
  refine (steadyCall_onCore (steady_setField _ _ _)).bind fun _ => ?_
  refine (steadyCall_onCore (steady_setField _ _ _)).bind fun _ => ?_
  refine (steadyCall_onKern _).bind fun r => Moves.get.bind fun m => ?_
  refine (steadyCall_onCore ?_).bind fun _ => Moves.pure _
  refine (steady_setField _ _ _).bind fun _ => ?_
  refine (steady_transformCharPointerToByte _ _).bind fun _ => ?_
  exact (steady_setField _ _ _).bind fun _ => steady_addSyscall _

/-- `close` sets its input after it has run. -/
theorem steadyCall_recordClose : SteadyCall (recordClose ops) := by
  refine (steadyCall_fetchInt steady_recordExit _).bind fun fd => ?_
  refine (steadyCall_onKern _).bind fun _ => (steadyCall_onCore ?_).bind fun _ => Moves.pure _
  refine (steady_setField _ _ _).bind fun _ => ?_
  exact (steady_setField _ _ _).bind fun _ => steady_addSyscall _

theorem steadyCall_recordFstat : SteadyCall (recordFstat ops) := by
  refine (steadyCall_fetchInt steady_recordExit _).bind fun fd => ?_
  refine (steadyCall_onCore (steady_setField _ _ _)).bind fun _ => ?_
  refine (steadyCall_onKern _).bind fun r => Moves.get.bind fun m => ?_
  refine (steadyCall_onCore (steady_setField _ _ _)).bind fun _ => ?_
  split
  · exact Moves.throw _
  · refine (steadyCall_onCore (steady_setField _ _ _)).bind fun _ => ?_
    exact (steadyCall_onCore (steady_addSyscall _)).bind fun _ => Moves.pure _

/-- An `unlink` whose parent directory is missing returns before it is logged. -/
theorem steadyCall_recordUnlink : SteadyCall (recordUnlink ops) := by
  refine (steadyCall_fetchInputs steady_recordExit _).bind fun args => ?_
  refine (steadyCall_onCore (steady_setInputs args _)).bind fun _ => ?_
  refine (steadyCall_onKern _).bind fun status => ?_
  cases status with
  | none => exact Moves.pure _
  | some status =>
    refine (steadyCall_onCore (steady_setField _ _ _)).bind fun _ => ?_
    exact (steadyCall_onCore (steady_addSyscall _)).bind fun _ => Moves.pure _

/-- **The recording of any call.** -/
theorem steadyCall_record (k : Kind) : SteadyCall (handler ops k).record := by
  cases k with
  | uptime =>
    refine (steadyCall_onKern _).bind fun _ => (steadyCall_onCore (steady_setField _ _ _)).bind ?_
    exact fun _ => (steadyCall_onCore (steady_addSyscall _)).bind fun _ => Moves.pure _
  | read => exact steadyCall_recordRead ops
  | close => exact steadyCall_recordClose ops
  | fstat => exact steadyCall_recordFstat ops
  | unlink => exact steadyCall_recordUnlink ops
  | _ => exact steadyCall_recordOutput _ _ _

/-- **The replay of any call.**  Which exit a failed fetch takes depends on the call. -/
theorem steadyCall_replay (k : Kind) (recorded : Call) :
    SteadyCall ((handler ops k).replay recorded) := by
  cases k with
  | getpid => exact steadyCall_replayOutput steady_replayExit _ _ steady_setInt _ _
  | uptime => exact steadyCall_replayOutput steady_replayExit _ _ steady_setUint _ _
  | close => exact steadyCall_replayOutput steady_replayExit _ _ steady_setInt _ _
  | read => exact steadyCall_replayRead recorded
  | fstat => exact steadyCall_replayFstat recorded
  | _ => exact steadyCall_replayOutput steady_recordExit _ _ steady_setInt _ _

/-- What a handler does below its replay branch. -/
theorem steadyCall_below (k : Kind) : SteadyCall (handler ops k).below :=
  Moves.get.bind fun _ => Moves.ite (steadyCall_record ops k) (steadyCall_onKern _)

/-- **A recorded-kind call** lets flags decay at most, and when it returns to a process that
is not marked killed, the mode is the same. -/
theorem handler_mode (k : Kind) (m : Machine σ ι π) :
    m.Decays (endState ((handler ops k).run.run m)) ∧
      ∀ v m', (handler ops k).run.run m = .ok v m' → m'.core.killed = false → m.SameMode m' := by
  have hsteady : ∀ {x : SysM σ ι π Word} {m₁ : Machine σ ι π}, SteadyCall x → m.SameMode m₁ →
      m.Decays (endState (x.run m₁)) ∧
        ∀ v m', x.run m₁ = .ok v m' → m'.core.killed = false → m.SameMode m' := by
    intro x m₁ hx hm
    refine ⟨Trans.trans hm (hx.keeps (fun _ _ => Core.SameMode.decays) m₁), fun v m' h _ => ?_⟩
    exact IsTrans.trans (r := Machine.SameMode) _ _ _ hm (hx.of_ok h)
  by_cases hrep : isReplaying m.core.session m.kern.proc.pid = true
  · rcases Nat.lt_or_ge m.core.session.syscallIdx maxSysCalls with hidx | hfull
    · by_cases hnext : m.core.next.syscall = uninitialized
      · -- the flag is gone, and so is the process when the handler comes back
        have hdecay : m.Decays ⟨m.core.advance.endReplay, m.kern⟩ := ⟨.inl rfl, .inr rfl, .inl rfl⟩
        have hdecay' : m.Decays ⟨m.core.advance.endReplay.kill, m.kern⟩ :=
          ⟨.inl rfl, .inr rfl, .inl rfl⟩
        rw [run_exhausted hrep hidx hnext]
        cases hex : (handler ops k).exhausted with
        | exit => exact ⟨hdecay, fun v m' h => by cases h⟩
        | killReturn =>
          refine ⟨hdecay', fun v m' h halive => ?_⟩
          injection h with _ hm
          rw [← hm] at halive
          cases halive
        | kill =>
          refine ⟨IsTrans.trans (r := Machine.Decays) _ _ _ hdecay'
            ((steadyCall_below ops k).keeps (fun _ _ => Core.SameMode.decays) _),
            fun v m' h halive => ?_⟩
          have hkilled := (sameKilled_below ops hex).of_ok h
          rw [Machine.SameKilled, Core.SameKilled, halive] at hkilled
          cases hkilled
      · rw [run_logged hrep hidx hnext]
        split
        · exact hsteady (steadyCall_replay ops k _) ⟨rfl, rfl, rfl⟩
        · exact ⟨⟨.inl rfl, .inr rfl, .inl rfl⟩, fun v m' h => by cases h⟩
    · rw [run_full hrep hfull]
      exact ⟨⟨.inr rfl, .inr rfl, .inl rfl⟩, fun v m' h => by cases h⟩
  · rw [Handler.run_below _ (by simpa using hrep)]
    exact hsteady (steadyCall_below ops k) (refl m)

/-! ## The session calls -/

/-- The recorder's state after `sys_record_start` with a readable file name. -/
def Core.startRecord (c : Core) (filename : List Byte) (pid : Word) : Core :=
  { c with session := { resetSyscalls { c.session with
      recordFilename := V3.strcpy filename 255, recordSyscalls := 1, replaySyscalls := 0 } with
      rrPid := pid } }

/-- The recorder's state in which `sys_record_stop` saves the session. -/
def Core.stopRecord (c : Core) : Core :=
  { c with session := { c.session with recordSyscalls := 0 } }

/-- The recorder's state in which `sys_replay_start` opens the file. -/
def Core.startReplay (c : Core) (filename : List Byte) (pid : Word) : Core :=
  { c with session := { resetSyscalls { c.session with
      replayFilename := V3.strcpy filename 255, replaySyscalls := 1, recordSyscalls := 0 } with
      rrPid := pid } }

/-- The recorder's state after `sys_replay_stop`. -/
def Core.stopReplay (c : Core) : Core :=
  { c with session := { c.session with
      replaySyscalls := if c.session.replaySyscalls = 1 then 0 else c.session.replaySyscalls
      rrPid := -1 } }

section

variable {m : Machine σ ι π}

/-- `sys_record_start` returns `1` for every name that can be fetched. -/
theorem sysRecordStart_run : (sysRecordStart : SysM σ ι π Word).run m
    = match argstr m.kern.proc 0 with
      | none => .ok (-1) m
      | some filename => .ok 1 ⟨m.core.startRecord filename m.kern.proc.pid, m.kern⟩ := by
  rw [sysRecordStart, EStateM.run_bind, EStateM.run_get]
  simp only
  cases argstr m.kern.proc 0 <;> rfl

/-- `sys_replay_stop` forgets the owner even when nobody replays. -/
theorem sysReplayStop_run : (sysReplayStop : SysM σ ι π Word).run m
    = .ok m.core.stopReplay.session.replaySyscalls ⟨m.core.stopReplay, m.kern⟩ := by
  rw [sysReplayStop, EStateM.run_bind, EStateM.run_get]
  by_cases h : m.core.session.replaySyscalls = 1
  · simp only [Core.stopReplay, h, if_true]
    rfl
  · simp only [Core.stopReplay, h, if_false]
    rfl

variable (stack : Memory)

/-- `sys_replay_start` sets the mode, loads the file and returns the flag. -/
theorem sysReplayStart_run : (sysReplayStart ops stack).run m
    = match argstr m.kern.proc 0 with
      | none => .ok (-1) m
      | some filename => (do
          loadSession ops stack
          let m ← get
          pure m.core.session.replaySyscalls : SysM σ ι π Word).run
            ⟨m.core.startReplay filename m.kern.proc.pid, m.kern⟩ := by
  rw [sysReplayStart, EStateM.run_bind, EStateM.run_get]
  simp only
  cases argstr m.kern.proc 0 <;> rfl

/-- The codec works on a local buffer. -/
theorem steadyCall_onBuffer (buffer : Memory) (x : CodecM α) :
    SteadyCall (onBuffer buffer x : SysM σ ι π (α × Cursor)) := by
  intro m
  simp only [EStateM.run, onBuffer]
  cases x ⟨buffer, 0⟩ with
  | ok a c => exact ⟨rfl, rfl, rfl⟩
  | error e c => exact ⟨.inl rfl, .inl rfl, .inl rfl⟩

/-- A save that fails ends the recording. -/
theorem steadyCall_saveSession : SteadyCall (saveSession ops stack) := by
  have hexit : SteadyCall (onCore recordExit : SysM σ ι π Unit) := steadyCall_onCore steady_recordExit
  refine Moves.get.bind fun m => (steadyCall_onKern _).bind fun fd => Moves.ite hexit ?_
  refine (steadyCall_onBuffer _ _).bind fun r => (steadyCall_onKern _).bind fun w => ?_
  exact Moves.ite hexit ((steadyCall_onKern _).bind fun c => Moves.ite hexit (Moves.pure _))

/-- A load that fails ends the replay. -/
theorem steadyCall_loadSession : SteadyCall (loadSession ops stack) := by
  have hexit : SteadyCall (onCore replayExit : SysM σ ι π Unit) := steadyCall_onCore steady_replayExit
  refine Moves.get.bind fun m => (steadyCall_onKern _).bind fun fd => Moves.ite hexit ?_
  refine (steadyCall_onKern _).bind fun r => Moves.ite hexit (Moves.get.bind fun m => ?_)
  refine (steadyCall_onBuffer _ _).bind fun calls => ?_
  have hstore : Steady (onSession fun s => { s with calls := calls.1 }) :=
    Moves.modify fun _ => ⟨rfl, rfl, rfl⟩
  refine (steadyCall_onCore hstore).bind fun _ => ?_
  exact (steadyCall_onKern _).bind fun c => Moves.ite hexit (Moves.pure _)

/-- A stop while nobody records. -/
theorem sysRecordStop_idle (h : m.core.session.recordSyscalls ≠ 1) :
    (sysRecordStop ops stack).run m = .ok m.core.session.recordSyscalls m := by
  rw [sysRecordStop, EStateM.run_bind, EStateM.run_get]
  simp only [h, if_false]
  rfl

/-- A stop of a recording saves it and forgets the owner. -/
theorem sysRecordStop_run (h : m.core.session.recordSyscalls = 1) :
    (sysRecordStop ops stack).run m = (do
      saveSession ops stack
      onCore (onSession fun s => { s with rrPid := -1 })
      let m ← get
      pure m.core.session.recordSyscalls : SysM σ ι π Word).run ⟨m.core.stopRecord, m.kern⟩ := by
  rw [sysRecordStop, EStateM.run_bind, EStateM.run_get]
  simp only [h, if_true]
  rfl

/-- A stop of a recording: the flag is not `1` any more, and the owner is the same or
forgotten. -/
theorem sysRecordStop_mode (h : m.core.session.recordSyscalls = 1) :
    (endState ((sysRecordStop ops stack).run m)).core.session.recordSyscalls ≠ 1 ∧
      ((endState ((sysRecordStop ops stack).run m)).core.session.rrPid = m.core.session.rrPid ∨
        (endState ((sysRecordStop ops stack).run m)).core.session.rrPid = -1) := by
  have hdecays : Machine.Decays ⟨m.core.stopRecord, m.kern⟩
      (endState ((sysRecordStop ops stack).run m)) := by
    rw [sysRecordStop_run ops stack h]
    refine Keeps.bind_at
      ((steadyCall_saveSession ops stack).keeps (fun _ _ => Core.SameMode.decays) _) fun _ => ?_
    refine Keeps.bind ?_ fun _ => Keeps.get.bind fun _ => Keeps.pure _
    exact Keeps.zoom (Q := Core.Decays) (Keeps.modify fun _ => ⟨.inl rfl, .inl rfl, .inr rfl⟩)
      fun _ _ h => h
  refine ⟨?_, hdecays.rrPid⟩
  rcases hdecays.record with hzero | hgone
  · rw [hzero]
    show (0 : Word) ≠ 1
    decide
  · rw [hgone]
    decide

end

end

end V2
