/-
# Divergence of a replay from its recording

A replaying process may make other calls than the recording had.  Here the second recorder
does what it promises: a call is answered from the log as long as it and all calls before it
are the logged ones, and at the first that is not, or that has no counterpart in the log, the
process exits.  It does so inside the handler or, where the handler only marks the process
killed and runs on, before it returns to user mode.
-/
import Xv6Recorder.Lockstep
import Xv6Recorder.V2Comparing

open Bytes StateError Xv6
open V3 (Kind withMem)

namespace V2

section

variable {σ ι π : Type}

/-! ## Calls that are made and their fate -/

/-- A recorded-kind call that a process makes in the kernel `kern`, with the inputs `ins`. -/
structure Issue (σ ι π : Type) where
  kind : Kind
  ins : List Arg
  kern : Kern σ ι π

/-- Process `pid` makes the call, and its argument fetches succeed. -/
def Issue.MadeBy (pid : Word) (issue : Issue σ ι π) : Prop :=
  issue.kern.proc.pid = pid ∧ Fetches issue.kind issue.kern.proc issue.ins

/-- The logged call has the number and the inputs of the call that is made. -/
def Issue.SameAs (issue : Issue σ ι π) (recorded : Call) : Prop :=
  recorded.syscall = number issue.kind ∧ HasInputs recorded issue.ins

variable (ops : FsOps σ ι π) (stack : Memory)

/-- The system call path for a call. -/
def Issue.trap (issue : Issue σ ι π) (c : Core) :
    EStateM.Result Halt (Machine σ ι π) (Option Word) :=
  (V2.trap ops stack (.call issue.kind)).run ⟨c, issue.kern⟩

/-- Make a call: the recorder's state afterwards, when its result is delivered to user
mode. -/
def deliverOne (c : Core) (issue : Issue σ ι π) : Option Core :=
  match issue.trap ops stack c with
  | .ok (some _) m => some m.core
  | _ => none

/-- Make calls one after the other, as long as their results are delivered. -/
def deliver (c : Core) (issues : List (Issue σ ι π)) : Option Core :=
  issues.foldlM (deliverOne ops stack) c

/-- The call terminates its process: it ends in `exit`.  (A `close` may find its own kernel
code panic before that.) -/
def Issue.Terminates (issue : Issue σ ι π) (c : Core) : Prop :=
  (∃ m, issue.trap ops stack c = (leave ops).run m) ∨
    issue.kind = .close ∧ ∃ msg kern' m,
      (V3.closeOriginal ops).run issue.kern = .error msg kern' ∧
      issue.trap ops stack c = .error (.panic msg) m

/-- The call at a position is the one that is logged there. -/
def Matches (log : List Call) (issues : List (Issue σ ι π)) (i : ℕ) : Prop :=
  ∃ recorded issue, log[i]? = some recorded ∧ issues[i]? = some issue ∧ issue.SameAs recorded

/-- The replay is as far as `i` calls, all of which are those logged, and then makes another
one. -/
structure FirstMismatch (log : List Call) (issues : List (Issue σ ι π)) (i : ℕ)
    (issue : Issue σ ι π) : Prop where
  at_pos : issues[i]? = some issue
  before : ∀ j < i, Matches log issues j
  here : ¬ Matches log issues i

/-- **What divergence detection means** from the state `c`: the result of a call is delivered
exactly when it and all calls before it are the logged ones, and it is then the logged
result; at the first call that is not, the process is terminated. -/
structure Detects (c : Core) (log : List Call) (issues : List (Issue σ ι π)) : Prop where
  delivered_iff : ∀ i < issues.length,
    (deliver ops stack c (issues.take (i + 1))).isSome ↔ ∀ j ≤ i, Matches log issues j
  answers : ∀ i recorded issue, log[i]? = some recorded → issues[i]? = some issue →
    (∀ j ≤ i, Matches log issues j) → ∃ c' ret m,
      deliver ops stack c (issues.take i) = some c' ∧
      issue.trap ops stack c' = .ok (some ret) m ∧
      Answers issue.kind issue.kern.proc recorded m.kern.proc.mem ret
  terminates : ∀ i issue, FirstMismatch log issues i issue →
    ∃ c', deliver ops stack c (issues.take i) = some c' ∧ issue.Terminates ops stack c'

variable {ops} {c : Core} {issue : Issue σ ι π}

/-- A call that terminates its process is not delivered. -/
theorem Issue.Terminates.not_delivered (h : issue.Terminates ops stack c) :
    deliverOne ops stack c issue = none := by
  rcases h with ⟨m, hleave⟩ | ⟨-, msg, kern', m, -, hpanic⟩
  · rw [deliverOne, hleave, leave, EStateM.run_bind]
    cases (onKern (V3.exit ops)).run m <;> rfl
  · rw [deliverOne, hpanic]

/-! ## One replayed call -/

/-- Process `pid` is replaying `log` and has `i` calls behind it. -/
structure ReplayingAt (c : Core) (pid : Word) (log : List Call) (i : ℕ) : Prop where
  replay : c.session.replaySyscalls = 1
  record : c.session.recordSyscalls ≠ 1
  rrPid : c.session.rrPid = pid
  syscallIdx : c.session.syscallIdx = i
  calls : ∀ j (h : j < log.length), c.session.calls j = log[j]
  unused : ∀ j, log.length ≤ j → j < maxSysCalls → (c.session.calls j).syscall = uninitialized
  length_le : log.length ≤ maxSysCalls

section

variable (ops) {pid : Word} {log : List Call} {i : ℕ} (h : ReplayingAt c pid log i)
  (halive : c.killed = false)
include h

theorem ReplayingAt.isReplaying {p : Word} (hp : p = pid) :
    V2.isReplaying c.session p = true := by
  simp [V2.isReplaying, h.replay, h.rrPid, hp]

theorem ReplayingAt.isRecording (p : Word) : V2.isRecording c.session p = false := by
  rw [V2.isRecording, beq_eq_false_iff_ne.mpr h.record, Bool.and_false]

theorem ReplayingAt.advance : ReplayingAt c.advance pid log (i + 1) where
  replay := h.replay
  record := h.record
  rrPid := h.rrPid
  syscallIdx := congrArg (· + 1) h.syscallIdx
  calls := h.calls
  unused := h.unused
  length_le := h.length_le

theorem ReplayingAt.next_eq {recorded : Call} (hat : log[i]? = some recorded) :
    c.session.syscallIdx < maxSysCalls ∧ c.next = recorded := by
  obtain ⟨hi, hget⟩ := List.getElem?_eq_some_iff.mp hat
  have hle := h.length_le
  rw [Core.next, h.syscallIdx]
  exact ⟨by omega, (h.calls i hi).trans hget⟩

include halive

/-- **A call that is the logged one** is answered from the log. -/
theorem ReplayingAt.answered (hmade : issue.MadeBy pid) {recorded : Call}
    (hat : log[i]? = some recorded) (htyped : ∃ k, WellTyped k recorded)
    (hsame : issue.SameAs recorded) :
    ∃ ret mem, issue.trap ops stack c = .ok (some ret) ⟨c.advance, withMem issue.kern mem⟩ ∧
      Answers issue.kind issue.kern.proc recorded mem ret := by
  obtain ⟨hpid, hfetch⟩ := hmade
  obtain ⟨hnum, hinputs⟩ := hsame
  obtain ⟨k, htyped⟩ := htyped
  obtain rfl : k = issue.kind := number_inj (htyped.syscall.symm.trans hnum)
  obtain ⟨hidx, hnext⟩ := h.next_eq hat
  have hused : c.next.syscall ≠ uninitialized := by
    rw [hnext, hnum]
    exact number_ne_uninitialized _
  have hrun := run_logged (h := handler ops issue.kind) (m := ⟨c, issue.kern⟩)
    (h.isReplaying hpid) hidx hused
  simp only [hnext, handler_number, hnum, if_true] at hrun
  obtain ⟨mem, ret, hreplay, hanswers⟩ :=
    (handler_replays ops (m := ⟨c.advance, issue.kern⟩) hfetch htyped).1 hinputs
  refine ⟨ret, mem, ?_, hanswers⟩
  exact trap_of_alive halive (hrun.trans hreplay) halive

omit h halive in
variable {ops} in
/-- Of the handlers that go on below the branch, only `close` has code that can panic. -/
theorem original_panic {k : Kind} {kern kern' : Kern σ ι π} {msg : String}
    (hex : (handler ops k).exhausted = .kill)
    (horig : (handler ops k).original.run kern = .error msg kern') :
    k = .close ∧ (V3.closeOriginal ops).run kern = .error msg kern' := by
  cases k with
  | getpid => cases horig
  | uptime => cases horig
  | close => exact ⟨rfl, horig⟩
  | _ => cases hex

/-- **A call that is not the logged one**, or has no counterpart in the log, terminates its
process. -/
theorem ReplayingAt.terminated (htyped : ∀ recorded ∈ log, ∃ k, WellTyped k recorded)
    (hmade : issue.MadeBy pid) (hno : ¬ ∃ recorded, log[i]? = some recorded ∧ issue.SameAs recorded) :
    issue.Terminates ops stack c := by
  obtain ⟨hpid, hfetch⟩ := hmade
  have hrep : V2.isReplaying (⟨c, issue.kern⟩ : Machine σ ι π).core.session issue.kern.proc.pid
      = true := h.isReplaying hpid
  cases hat : log[i]? with
  | some recorded =>
    -- another number or other inputs: the handler exits
    obtain ⟨hidx, hnext⟩ := h.next_eq hat
    obtain ⟨k, htyped⟩ := htyped recorded (List.mem_of_getElem? hat)
    have hused : c.next.syscall ≠ uninitialized := by
      rw [hnext, htyped.syscall]
      exact number_ne_uninitialized _
    have hrun := run_logged (h := handler ops issue.kind) (m := ⟨c, issue.kern⟩) hrep hidx hused
    simp only [hnext, handler_number, htyped.syscall] at hrun
    refine .inl ?_
    by_cases hnum : number k = number issue.kind
    · obtain rfl := number_inj hnum
      rw [if_pos rfl] at hrun
      have hdiff : ¬ HasInputs recorded issue.ins := fun hin =>
        hno ⟨recorded, hat, htyped.syscall, hin⟩
      have hexit := (handler_replays ops (m := ⟨c.advance, issue.kern⟩) hfetch htyped).2 hdiff
      exact ⟨_, trap_of_exited halive (hrun.trans hexit)⟩
    · rw [if_neg hnum] at hrun
      exact ⟨_, trap_of_exited halive hrun⟩
  | none =>
    have hi : log.length ≤ i := List.getElem?_eq_none_iff.mp hat
    rcases Nat.lt_or_ge i maxSysCalls with hidx | hfull
    · have hidx' : c.session.syscallIdx < maxSysCalls := by rw [h.syscallIdx]; exact hidx
      have hnext : c.next.syscall = uninitialized := by
        rw [Core.next, h.syscallIdx]
        exact h.unused i hi hidx
      have hrun := run_exhausted (h := handler ops issue.kind) (m := ⟨c, issue.kern⟩) hrep hidx' hnext
      cases hex : (handler ops issue.kind).exhausted with
      | exit =>
        rw [hex] at hrun
        exact .inl ⟨_, trap_of_exited halive hrun⟩
      | killReturn =>
        rw [hex] at hrun
        exact .inl ⟨_, trap_of_killed halive hrun rfl⟩
      | kill =>
        -- the original code runs once more, with the process marked killed
        rw [hex] at hrun
        simp only at hrun
        rw [Handler.below_idle _ (h.isRecording _)] at hrun
        cases horig : (handler ops issue.kind).original.run issue.kern with
        | ok v kern' =>
          rw [run_onKern_of_ok horig] at hrun
          exact .inl ⟨_, trap_of_killed halive hrun rfl⟩
        | error msg kern' =>
          rw [run_onKern_of_error horig] at hrun
          obtain ⟨hclose, hpanic⟩ := original_panic hex horig
          exact .inr ⟨hclose, msg, kern', _, hpanic, trap_of_panic halive hrun⟩
    · have hfull' : maxSysCalls ≤ c.session.syscallIdx := by rw [h.syscallIdx]; exact hfull
      have hrun := run_full (h := handler ops issue.kind) (m := ⟨c, issue.kern⟩) hrep hfull'
      exact .inl ⟨_, trap_of_exited halive hrun⟩

end

/-! ## A whole replay -/

/-- Replaying steps along the log: the calls that are delivered are those logged. -/
theorem follows_log (ops : FsOps σ ι π) (pid : Word) {log : List Call}
    (htyped : ∀ recorded ∈ log, ∃ k, WellTyped k recorded) :
    Lockstep.Follows (deliverOne ops stack) (Issue.MadeBy pid)
      (fun i c => ReplayingAt c pid log i ∧ c.killed = false)
      (fun i issue => ∃ recorded, log[i]? = some recorded ∧ issue.SameAs recorded) where
  go := by
    rintro i c issue ⟨h, halive⟩ hmade ⟨recorded, hat, hsame⟩
    obtain ⟨ret, mem, htrap, -⟩ := h.answered ops stack halive hmade hat
      (htyped recorded (List.mem_of_getElem? hat)) hsame
    exact ⟨c.advance, by rw [deliverOne, htrap], h.advance, halive⟩
  stop := by
    rintro i c issue ⟨h, halive⟩ hmade hno
    exact (h.terminated ops stack halive htyped hmade hno).not_delivered stack

theorem matches_iff {log : List Call} {issues : List (Issue σ ι π)} {i : ℕ} :
    Matches log issues i ↔ Lockstep.ExpectedAt
      (fun i issue => ∃ recorded, log[i]? = some recorded ∧ issue.SameAs recorded) issues i := by
  constructor
  · rintro ⟨recorded, issue, hat, hissue, hsame⟩
    exact ⟨issue, hissue, recorded, hat, hsame⟩
  · rintro ⟨issue, hissue, recorded, hat, hsame⟩
    exact ⟨recorded, issue, hat, hissue, hsame⟩

/-- **Divergence detection.**  A process is replaying a log whose calls have the field types
that the record branches build, and makes any calls, with inputs that can be fetched and are
within the limits.  A result is delivered to user mode exactly when the call and all before
it are the logged ones, by number and inputs, and is then the logged result; the first call
that is not, or goes beyond the log, terminates the process. -/
theorem divergence_detected (ops : FsOps σ ι π) (stack : Memory) {c : Core} {pid : Word}
    {log : List Call} (hreplaying : ReplayingAt c pid log 0) (halive : c.killed = false)
    (htyped : ∀ recorded ∈ log, ∃ k, WellTyped k recorded) (issues : List (Issue σ ι π))
    (hmade : ∀ issue ∈ issues, issue.MadeBy pid) : Detects ops stack c log issues := by
  have hfollows := follows_log stack ops pid htyped
  have hruns : ∀ i, (∀ j < i, Matches log issues j) → ∃ c',
      deliver ops stack c (issues.take i) = some c' ∧ ReplayingAt c' pid log i ∧
        c'.killed = false := fun i hmatch =>
    hfollows.runs hmade ⟨hreplaying, halive⟩ fun j hj => matches_iff.mp (hmatch j hj)
  refine ⟨fun i hi => ?_, ?_, ?_⟩
  · rw [deliver, hfollows.isSome_iff hmade ⟨hreplaying, halive⟩ hi]
    simp only [matches_iff]
  · intro i recorded issue hat hissue hmatch
    obtain ⟨c', hpast, hat', halive'⟩ := hruns i fun j hj => hmatch j (by omega)
    obtain ⟨recorded', issue', hrecorded', hissue', hsame⟩ := hmatch i le_rfl
    obtain rfl := Option.some.inj (hat.symm.trans hrecorded')
    obtain rfl := Option.some.inj (hissue.symm.trans hissue')
    obtain ⟨ret, mem, htrap, hanswers⟩ := hat'.answered ops stack halive'
      (hmade issue (List.mem_of_getElem? hissue)) hat (htyped recorded (List.mem_of_getElem? hat))
      hsame
    exact ⟨c', ret, _, hpast, htrap, hanswers⟩
  · intro i issue hfirst
    obtain ⟨c', hpast, hat', halive'⟩ := hruns i hfirst.before
    refine ⟨c', hpast, hat'.terminated ops stack halive' htyped
      (hmade issue (List.mem_of_getElem? hfirst.at_pos)) ?_⟩
    rintro ⟨recorded, hrecorded, hsame⟩
    exact hfirst.here ⟨recorded, issue, hrecorded, hfirst.at_pos, hsame⟩

end

/-- The record of a `getpid` that returned `5`. -/
def pidRecord : Call := Entry.call ⟨V3.SYS.getpid, [.int 5]⟩

/-- Process `7` replays that record. -/
def replayingPid : Core :=
  ⟨{ Session.boot with
      replaySyscalls := 1, rrPid := 7
      calls := Function.update Session.boot.calls 0 pidRecord }, false⟩

/-- A call of process `7` without inputs. -/
def plainIssue (kind : Kind) : Issue (List Byte) Unit Unit := ⟨kind, [], OneFile.kern 7 [] [] []⟩

theorem replayingAt_replayingPid : ReplayingAt replayingPid 7 [pidRecord] 0 where
  replay := rfl
  record := by decide
  rrPid := rfl
  syscallIdx := rfl
  calls j hj := by
    obtain rfl : j = 0 := Nat.lt_one_iff.mp hj
    rfl
  unused j hj _ := by
    have hne : j ≠ 0 := Nat.one_le_iff_ne_zero.mp hj
    show (Function.update Session.boot.calls 0 pidRecord j).syscall = uninitialized
    rw [Function.update_of_ne hne]
    rfl
  length_le := by decide

/-- A replay of one `getpid` that goes on with `uptime` is stopped there. -/
theorem divergence_detected_uptime : Detects OneFile.ops (fun _ => 0) replayingPid [pidRecord]
    [plainIssue .getpid, plainIssue .uptime] := by
  refine divergence_detected OneFile.ops (fun _ => 0) replayingAt_replayingPid rfl ?_ _ ?_
  · intro recorded hmem
    rw [List.mem_singleton.mp hmem]
    exact ⟨.getpid, rfl, by decide, by decide⟩
  · have hplain : ∀ issue ∈ [plainIssue .getpid, plainIssue .uptime],
        issue = plainIssue .getpid ∨ issue = plainIssue .uptime := by simp
    intro issue hmem
    rcases hplain issue hmem with rfl | rfl
    · exact ⟨rfl, fetches_of_plain (by decide) (by decide) rfl (by decide)⟩
    · exact ⟨rfl, fetches_of_plain (by decide) (by decide) rfl (by decide)⟩

end V2
