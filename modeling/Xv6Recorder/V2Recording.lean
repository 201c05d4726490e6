/-
# Every recorded call leaves one record, almost

While a process is recording, a call within the limits runs as its original code does and
its entry is appended to the log.  There is one exception, an `unlink` whose parent
directory is not found: the pasted code has kept the `return -1` of the original there, and
the handler ends without a record.  Over a sequence of calls the log is therefore the
sequence of their entries exactly when no such call is among them.
-/
import Xv6Recorder.OneFile
import Xv6Recorder.V2Calls
import Xv6Recorder.V2RoundTrip

open Bytes StateError Xv6
open V3 (Kind)

namespace V2

section

variable {σ ι π : Type}

/-! ## Branches -/

/-- Below the replay branch, the record branch is taken. -/
theorem Handler.below_recording (h : Handler σ ι π) {m : Machine σ ι π}
    (hrec : isRecording m.core.session m.kern.proc.pid = true) : h.below.run m = h.record.run m := by
  rw [Handler.below, EStateM.run_bind, EStateM.run_get]
  simp only [hrec, if_true]

/-- Below the replay branch, the original code is reached. -/
theorem Handler.below_idle (h : Handler σ ι π) {m : Machine σ ι π}
    (hrec : isRecording m.core.session m.kern.proc.pid = false) :
    h.below.run m = (onKern h.original).run m := by
  rw [Handler.below, EStateM.run_bind, EStateM.run_get]
  simp only [hrec, Bool.false_eq_true, if_false]

/-- The replay branch is not taken. -/
theorem Handler.run_below (h : Handler σ ι π) {m : Machine σ ι π}
    (hrep : isReplaying m.core.session m.kern.proc.pid = false) : h.run.run m = h.below.run m := by
  rw [Handler.run, EStateM.run_bind, EStateM.run_get]
  simp only [hrep, Bool.false_eq_true, if_false]

/-! ## How a call ends -/

section Trap

variable {ops : FsOps σ ι π} {stack : Memory} {sc : V3.Syscall} {m m' : Machine σ ι π}
  (halive : m.core.killed = false)
include halive

theorem trap_of_live : (trap ops stack sc).run m = match (syscall ops stack sc).run m with
    | .ok eax m' => if m'.core.killed then (leave ops).run m' else .ok (some eax) m'
    | .error .exited m' => (leave ops).run m'
    | .error e m' => .error e m' :=
  if_neg (by rw [halive]; exact Bool.false_ne_true)

/-- A call that returns without a killed mark hands its value to user mode. -/
theorem trap_of_alive {v : Word} (hcall : (syscall ops stack sc).run m = .ok v m')
    (halive' : m'.core.killed = false) : (trap ops stack sc).run m = .ok (some v) m' := by
  rw [trap_of_live halive, hcall]
  simp only [halive', Bool.false_eq_true, if_false]

/-- A call that marks its process killed ends in `exit`. -/
theorem trap_of_killed {v : Word} (hcall : (syscall ops stack sc).run m = .ok v m')
    (hkilled : m'.core.killed = true) : (trap ops stack sc).run m = (leave ops).run m' := by
  rw [trap_of_live halive, hcall]
  simp only [hkilled, if_true]

theorem trap_of_exited (hcall : (syscall ops stack sc).run m = .error .exited m') :
    (trap ops stack sc).run m = (leave ops).run m' := by
  rw [trap_of_live halive, hcall]

theorem trap_of_panic {msg : String}
    (hcall : (syscall ops stack sc).run m = .error (.panic msg) m') :
    (trap ops stack sc).run m = .error (.panic msg) m' := by
  rw [trap_of_live halive, hcall]

end Trap

/-! ## Sequences of calls -/

/-- A call with inputs `ins` in the kernel `kern`, for which the original code returns `ret`
in the kernel `kern'`. -/
structure Made (σ ι π : Type) where
  kind : Kind
  ins : List Arg
  kern : Kern σ ι π
  ret : Word
  kern' : Kern σ ι π

/-- The entry of a call: number, inputs, and then the return value and what the call stored
for its caller. -/
def Made.entry (call : Made σ ι π) : Entry :=
  ⟨number call.kind, call.ins.map Arg.value ++
    outputs call.kind call.kern.proc call.kern'.proc.mem call.ret⟩

variable (ops : FsOps σ ι π) (stack : Memory)

/-- Process `pid` makes the call within the limits of the recorder. -/
structure Made.By (call : Made σ ι π) (pid : Word) : Prop where
  pid_eq : call.kern.proc.pid = pid
  inLimits : InLimits call.kind call.kern.proc call.ins
  returns : (handler ops call.kind).original.run call.kern = .ok call.ret call.kern'

/-- The calls are made one after the other, and each hands its value to user mode.  Between
two calls anything may happen to the kernel. -/
inductive Makes : Core → List (Made σ ι π) → Core → Prop
  | nil {c : Core} : Makes c [] c
  | cons {c c' c'' : Core} {call : Made σ ι π} {calls : List (Made σ ι π)}
      (hrun : (trap ops stack (.call call.kind)).run ⟨c, call.kern⟩
        = .ok (some call.ret) ⟨c', call.kern'⟩)
      (hrest : Makes c' calls c'') : Makes c (call :: calls) c''

/-- The recorder's state with more entries in the log, and otherwise the same. -/
def Core.appendLog (c : Core) (log : List Entry) : Core :=
  { c with session := { c.session with
      calls := fillCalls c.session.calls c.session.syscallIdx log
      syscallIdx := c.session.syscallIdx + log.length } }

theorem appendLog_nil (c : Core) : c.appendLog [] = c := by
  rw [Core.appendLog, fillCalls_nil]
  rfl

theorem appendLog_cons (c : Core) (e : Entry) (log : List Entry) :
    c.appendLog (e :: log) = (c.append e.call).appendLog log := by
  simp only [Core.appendLog, Core.append, fillCalls_cons, List.length_cons]
  rw [show c.session.syscallIdx + (log.length + 1) = c.session.syscallIdx + 1 + log.length by omega]

/-- Process `pid` is the recording owner. -/
structure RecordingAt (c : Core) (pid : Word) : Prop where
  record : c.session.recordSyscalls = 1
  replay : c.session.replaySyscalls ≠ 1
  rrPid : c.session.rrPid = pid

variable {ops} {c : Core} {pid : Word}

theorem RecordingAt.isRecording (h : RecordingAt c pid) {p : Word} (hp : p = pid) :
    V2.isRecording c.session p = true := by
  simp [V2.isRecording, h.record, h.rrPid, hp]

theorem RecordingAt.isReplaying (h : RecordingAt c pid) (p : Word) :
    V2.isReplaying c.session p = false := by
  rw [V2.isReplaying, beq_eq_false_iff_ne.mpr h.replay, Bool.and_false]

theorem RecordingAt.append (h : RecordingAt c pid) (call : Call) : RecordingAt (c.append call) pid :=
  ⟨h.record, h.replay, h.rrPid⟩

section OneCall

variable {call : Made σ ι π} (h : RecordingAt c pid) (halive : c.killed = false)
  (hmade : call.By ops pid)
include h halive hmade

/-- A recorded call ends as its record branch does. -/
theorem RecordingAt.trap_record {c' : Core}
    (hbranch : (handler ops call.kind).record.run ⟨c, call.kern⟩ = .ok call.ret ⟨c', call.kern'⟩)
    (halive' : c'.killed = false) : (trap ops stack (.call call.kind)).run ⟨c, call.kern⟩
      = .ok (some call.ret) ⟨c', call.kern'⟩ := by
  have hrun : (handler ops call.kind).run.run ⟨c, call.kern⟩
      = (handler ops call.kind).record.run ⟨c, call.kern⟩ :=
    (Handler.run_below _ (h.isReplaying _)).trans
      (Handler.below_recording _ (h.isRecording hmade.pid_eq))
  exact trap_of_alive halive (hrun.trans hbranch) halive'

theorem RecordingAt.call_dropped (hdropped : Dropped ops call.kind call.kern) :
    (trap ops stack (.call call.kind)).run ⟨c, call.kern⟩
      = .ok (some call.ret) ⟨c, call.kern'⟩ := by
  refine h.trap_record stack halive hmade ?_ halive
  obtain ⟨hkind, hmissing⟩ := hdropped
  obtain ⟨kind, ins, kern, ret, kern'⟩ := call
  subst hkind
  exact unlink_dropped (m := ⟨c, kern⟩) ops hmade.inLimits.toFetches hmissing hmade.returns

theorem RecordingAt.call_kept (hidx : c.session.syscallIdx < maxSysCalls)
    (hkept : ¬ Dropped ops call.kind call.kern) :
    (trap ops stack (.call call.kind)).run ⟨c, call.kern⟩
      = .ok (some call.ret) ⟨c.append call.entry.call, call.kern'⟩ :=
  h.trap_record stack halive hmade ((handler_recordsAs (m := ⟨c, call.kern⟩) ops hidx
    hmade.inLimits hkept).1 call.ret call.kern' hmade.returns) halive

end OneCall

variable (ops) in
/-- The log that calls leave: the entries of those that are not dropped. -/
def recordedLog (calls : List (Made σ ι π)) : List Entry :=
  (calls.filter fun call => ¬ Dropped ops call.kind call.kern).map Made.entry

theorem recordedLog_dropped {call : Made σ ι π} (h : Dropped ops call.kind call.kern)
    (calls : List (Made σ ι π)) : recordedLog ops (call :: calls) = recordedLog ops calls := by
  rw [recordedLog, List.filter_cons_of_neg (by simpa using h), recordedLog]

theorem recordedLog_kept {call : Made σ ι π} (h : ¬ Dropped ops call.kind call.kern)
    (calls : List (Made σ ι π)) :
    recordedLog ops (call :: calls) = call.entry :: recordedLog ops calls := by
  rw [recordedLog, List.filter_cons_of_pos (by simpa using h), List.map_cons, recordedLog]

/-- **A sequence of recorded calls.**  All of them return, and the log grows by the entries
of those that are not dropped. -/
theorem RecordingAt.makes {calls : List (Made σ ι π)} (h : RecordingAt c pid)
    (halive : c.killed = false) (hroom : c.session.syscallIdx + calls.length ≤ maxSysCalls)
    (hmade : ∀ call ∈ calls, call.By ops pid) :
    Makes ops stack c calls (c.appendLog (recordedLog ops calls)) := by
  induction calls generalizing c with
  | nil =>
    rw [show recordedLog ops ([] : List (Made σ ι π)) = [] from rfl, appendLog_nil]
    exact .nil
  | cons call calls ih =>
    rw [List.length_cons] at hroom
    have hcall := hmade call List.mem_cons_self
    have hrest : ∀ d ∈ calls, d.By ops pid := fun d hd => hmade d (List.mem_cons_of_mem _ hd)
    by_cases hd : Dropped ops call.kind call.kern
    · rw [recordedLog_dropped hd]
      exact .cons (h.call_dropped stack halive hcall hd) (ih h halive (by omega) hrest)
    · rw [recordedLog_kept hd, appendLog_cons]
      have hidx : (c.append call.entry.call).session.syscallIdx = c.session.syscallIdx + 1 := rfl
      exact .cons (h.call_kept stack halive hcall (by omega) hd)
        (ih (h.append _) halive (by rw [hidx]; omega) hrest)

/-- What the calls leave is determined by what they start from. -/
theorem Makes.unique {calls : List (Made σ ι π)} {c' c'' : Core} (h : Makes ops stack c calls c')
    (h' : Makes ops stack c calls c'') : c' = c'' := by
  induction h with
  | nil =>
    cases h'
    rfl
  | cons hrun _ ih =>
    cases h' with
    | cons hrun' hrest' =>
      injection hrun.symm.trans hrun' with _ hm
      injection hm with hc _
      subst hc
      exact ih hrest'

/-- **When every recorded call leaves one record.**  A process is recording, there is room
for the calls that it makes within the limits, and the original code returns from each of
them, with success or failure.  Then the handlers return the same values to user mode, and
the log is extended by exactly the entries of the calls, in order, if and only if none of
them is an `unlink` whose parent directory is not found. -/
theorem every_call_logged_iff (ops : FsOps σ ι π) (stack : Memory) {c : Core} {pid : Word}
    (calls : List (Made σ ι π)) (hrec : RecordingAt c pid) (halive : c.killed = false)
    (hroom : c.session.syscallIdx + calls.length ≤ maxSysCalls)
    (hmade : ∀ call ∈ calls, call.By ops pid) :
    ∃ c', Makes ops stack c calls c' ∧
      (c' = c.appendLog (calls.map Made.entry) ↔
        ∀ call ∈ calls, ¬ Dropped ops call.kind call.kern) := by
  refine ⟨_, hrec.makes stack halive hroom hmade, fun heq => ?_, fun hnone => ?_⟩
  · -- a dropped call leaves the log too short
    have hlength := congrArg (fun c => c.session.syscallIdx) heq
    simp only [Core.appendLog, recordedLog, List.length_map, Nat.add_left_cancel_iff] at hlength
    intro call hcall
    simpa using List.length_filter_eq_length_iff.mp hlength call hcall
  · rw [recordedLog, List.filter_eq_self.mpr fun call hcall => by simpa using hnone call hcall]

end

/-! ## A disk without directories -/

/-- The one-file disk on which a path with a slash has no parent directory. -/
def flatOps : FsOps (List Byte) Unit Unit :=
  { OneFile.ops with
    nameiparent := fun _ path => pure (if 47 ∈ path then none else some ((), path)) }

/-- A process with pid `5` that is recording. -/
def recordingCore : Core := ⟨{ Session.boot with recordSyscalls := 1, rrPid := 5 }, false⟩

theorem recordingAt_recordingCore : RecordingAt recordingCore 5 := ⟨rfl, by decide, rfl⟩

/-- The kernel in which process `5` calls `mkdir` or `unlink` with the path `"d/x"`. -/
def missingKern : Kern (List Byte) Unit Unit := OneFile.kern 5 [64] [100, 47, 120, 0] []

/-- `mkdir("d/x")`, which fails. -/
def mkdirMissing : Made (List Byte) Unit Unit :=
  ⟨.mkdir, [.str [100, 47, 120]], missingKern, -1, missingKern⟩

/-- `unlink("d/x")`, which fails. -/
def unlinkMissing : Made (List Byte) Unit Unit :=
  ⟨.unlink, [.str [100, 47, 120]], missingKern, -1, missingKern⟩

theorem mkdirMissing_by : mkdirMissing.By flatOps 5 where
  pid_eq := rfl
  inLimits := inLimits_of_plain (by decide) (by decide) rfl (by decide)
  returns := rfl

theorem unlinkMissing_by : unlinkMissing.By flatOps 5 where
  pid_eq := rfl
  inLimits := inLimits_of_plain (by decide) (by decide) rfl (by decide)
  returns := rfl

theorem every_call_logged_iff_mkdir : ∃ c',
    Makes flatOps (fun _ => 0) recordingCore [mkdirMissing] c' ∧
      c'.session.syscallIdx = 1 ∧ c'.session.calls 0 = Entry.call
        ⟨V3.SYS.mkdir, [.bytes [100, 47, 120], .int (-1)]⟩ := by
  obtain ⟨c', hmakes, hiff⟩ := every_call_logged_iff flatOps (fun _ => 0) [mkdirMissing]
    recordingAt_recordingCore rfl (by decide)
    (fun call hcall => by rw [List.mem_singleton.mp hcall]; exact mkdirMissing_by)
  have hlog := hiff.mpr fun call hcall hdropped => by
    rw [List.mem_singleton.mp hcall] at hdropped
    cases hdropped.1
  rw [hlog] at hmakes
  exact ⟨_, hmakes, rfl, rfl⟩

/-- **A call that is lost.**  Process `5` records `unlink("d/x")` where there is no
directory `d`; the call returns `-1`, and the log stays empty. -/
theorem unlink_leaves_no_record : unlinkMissing.By flatOps 5 ∧ ∃ c',
    Makes flatOps (fun _ => 0) recordingCore [unlinkMissing] c' ∧
      c'.session.syscallIdx = 0 ∧ c' ≠ recordingCore.appendLog [unlinkMissing.entry] := by
  refine ⟨unlinkMissing_by, recordingCore, .cons rfl .nil, rfl, fun h => ?_⟩
  have hidx := congrArg (fun c => c.session.syscallIdx) h
  exact absurd hidx (by decide)

end V2
