/-
# Programs under replay

What the recorder is for: a program runs again as it ran.  All that a program learns from
the kernel is what its calls return and store for it, so a program is given by the next call
that it makes, by kind and inputs, and by how it goes on with the answer.  A program that
has been recorded and is replayed makes the same calls and ends up in the same state,
whatever has become of the files, the clock and the process it runs in.
-/
import Xv6Recorder.V3Fidelity

open Bytes StateError Xv6

namespace V3

/-- A user program with states `U`.  It makes no more calls where `next` is `none`. -/
structure Program (U : Type) where
  next : U → Option (Kind × List FieldValue)
  resume : U → List FieldValue → U

variable {U σ ι π : Type}

/-- The program makes the calls, one after the other, and is then in the state `u'`. -/
inductive Program.Makes (prog : Program U) : U → List (Call σ ι π) → U → Prop
  | nil {u : U} : prog.Makes u [] u
  | cons {u u' : U} {call : Call σ ι π} {calls : List (Call σ ι π)}
      (hnext : prog.next u = some (call.kind, call.ins))
      (hfetches : call.kind.Fetches call.kern.proc call.ins)
      (hrest : prog.Makes (prog.resume u call.outputs) calls u') :
      prog.Makes u (call :: calls) u'

section

variable {ops : FsOps σ ι π} {prog : Program U} {u u' v : U} {c c' : Core} {pid : Word}
  {calls answers : List (Call σ ι π)} {i : ℕ}

/-- A program that has made calls goes on from where they have left it. -/
theorem Program.Makes.take (h : prog.Makes u calls u') (n : ℕ) :
    ∃ w, prog.Makes u (calls.take n) w ∧ prog.Makes w (calls.drop n) u' := by
  induction h generalizing n with
  | nil => exact ⟨_, by rw [List.take_nil]; exact .nil, by rw [List.drop_nil]; exact .nil⟩
  | cons hnext hfetches hrest ih =>
    cases n with
    | zero => exact ⟨_, .nil, .cons hnext hfetches hrest⟩
    | succ n =>
      obtain ⟨w, htake, hdrop⟩ := ih n
      exact ⟨w, .cons hnext hfetches htake, hdrop⟩

/-- Calls that are answered alike leave a program in the same state. -/
theorem Program.Makes.unique (h : prog.Makes u calls u') (h' : prog.Makes u answers v)
    (hanswers : List.Forall₂ Call.AnsweredBy calls answers) : u' = v := by
  induction hanswers generalizing u with
  | nil =>
    cases h
    cases h'
    rfl
  | cons hanswer _ ih =>
    cases h with
    | cons _ _ hrest =>
      cases h' with
      | cons _ _ hrest' =>
        rw [hanswer.outputs] at hrest'
        exact ih hrest hrest'

/-- **One call of a replayed program** is the next one of the log, and is answered as it was. -/
theorem ReplayingAt.program_call (h : ReplayingAt c pid (calls.map Call.entry) i)
    (hlen : calls.length ≤ maxScrs) (hlim : ∀ call ∈ calls, call.InLimits)
    (hprog : prog.Makes u (calls.drop i) u') (hi : i < calls.length) {answer : Call σ ι π}
    (hnext : prog.next u = some (answer.kind, answer.ins))
    (hfetches : answer.kind.Fetches answer.kern.proc answer.ins)
    (hpid : answer.kern.proc.pid = pid)
    (hrun : ((handler ops answer.kind).run answer.frame).run ⟨c, answer.kern⟩
      = .ok answer.ret ⟨c', answer.kern'⟩) :
    c' = c.step ∧ calls[i].AnsweredBy answer ∧
      prog.Makes (prog.resume u answer.outputs) (calls.drop (i + 1)) u' := by
  rw [List.drop_eq_getElem_cons hi] at hprog
  cases hprog with
  | cons hlogged _ hrest =>
    -- the program is in the state in which it made the logged call
    rw [hnext, Option.some.injEq, Prod.mk.injEq] at hlogged
    obtain ⟨hkind, hins⟩ := hlogged
    obtain ⟨issue, hframe, hkern⟩ : ∃ issue : Frame × Kern σ ι π,
        issue.1 = answer.frame ∧ issue.2 = answer.kern := ⟨(_, _), rfl, rfl⟩
    have hissue : calls[i].ReissuedBy pid issue := by
      rw [← hkern] at hpid hfetches
      exact ⟨hpid, by rw [← hkind, ← hins]; exact hfetches⟩
    obtain ⟨kern', hrun', houts⟩ : ∃ kern', ((handler ops calls[i].kind).run issue.1).run
        ⟨c, issue.2⟩ = .ok calls[i].ret ⟨c.step, kern'⟩ ∧
        calls[i].kind.outputs issue.2.proc kern'.proc.mem calls[i].ret = calls[i].outputs :=
      h.call hlen hlim (List.getElem?_eq_getElem hi) hissue
    rw [hframe, hkern] at hrun'
    rw [hkern] at houts
    rw [← hkind, hrun] at hrun'
    injection hrun' with hret hm
    injection hm with hcore hkern
    have houtputs : answer.outputs = calls[i].outputs := by
      rw [← houts, Call.outputs, hkind, hret, hkern]
    refine ⟨hcore, ⟨hkind, hins, hret, houtputs⟩, ?_⟩
    rw [houtputs]
    exact hrest

/-- **A replayed program** is answered as it was, and is not marked killed. -/
theorem ReplayingAt.program (h : ReplayingAt c pid (calls.map Call.entry) i)
    (hlen : calls.length ≤ maxScrs) (hlim : ∀ call ∈ calls, call.InLimits)
    (hprog : prog.Makes u (calls.drop i) u') (hcalls : Calls ops pid c answers c')
    (hmakes : prog.Makes u answers v) (hle : i + answers.length ≤ calls.length) :
    ReplayingAt c' pid (calls.map Call.entry) (i + answers.length) ∧ c'.killed = c.killed ∧
      List.Forall₂ Call.AnsweredBy ((calls.drop i).take answers.length) answers := by
  induction hcalls generalizing u i with
  | nil => exact ⟨h, rfl, .nil⟩
  | @cons c c₁ c₂ answer answers hpid hrun _ ih =>
    rw [List.length_cons] at hle
    have hi : i < calls.length := by omega
    cases hmakes with
    | cons hnext hfetches hmakes =>
      obtain ⟨rfl, hanswer, hrest⟩ := h.program_call hlen hlim hprog hi hnext hfetches hpid hrun
      obtain ⟨hat, hkilled, hanswers⟩ := ih (h.step (by omega)) hrest hmakes (by omega)
      rw [List.length_cons, List.drop_eq_getElem_cons hi, List.take_succ_cons]
      refine ⟨?_, hkilled, .cons hanswer hanswers⟩
      rw [show i + (answers.length + 1) = i + 1 + answers.length by omega]
      exact hat

end

/-- **A program runs again as it ran.**  A program makes `calls` while it is recorded to the
file `path`, and is then in the state `u'`.  Any process may replay the file later, as long
as it is not changed and nobody records when the replay starts, and run the program again.
After any number of calls that it makes, up to those that were recorded, the program is in the
state in which it was after as many calls of the recording, with the same answers, and is not
killed; in the end it is in the state `u'`.  Until then it always has a next call, and this is
answered. -/
theorem program_replays (ops : FsOps σ ι π) {store : FileStore ops} {path filename : List Byte}
    {m₂ m₃ m₄ : Machine σ ι π} {calls : List (Call σ ι π)}
    (hrecorded : Recorded store path calls m₂)
    (hreload : Recording.ReloadedBy store path m₂ m₃ filename m₄)
    (hrec : m₃.core.session.recordSyscalls ≠ 1) {prog : Program U} {u u' : U}
    (hprog : prog.Makes u calls u') :
    ∃ c', (sysReplayStart ops).run m₃ = .ok 1 { m₄ with core := c' } ∧
      ∀ answers c'' v, Calls ops m₃.kern.proc.pid c' answers c'' → prog.Makes u answers v →
        answers.length ≤ calls.length →
        prog.Makes u (calls.take answers.length) v ∧ c''.killed = m₃.core.killed ∧
        (answers.length = calls.length → v = u') ∧
        (answers.length < calls.length → ∃ kind ins, prog.next v = some (kind, ins) ∧
          ∀ frame kern, kern.proc.pid = m₃.kern.proc.pid → kind.Fetches kern.proc ins →
            ∃ ret c₃ kern', ((handler ops kind).run frame).run ⟨c'', kern⟩
              = .ok ret ⟨c₃, kern'⟩ ∧ c₃.killed = m₃.core.killed) := by
  obtain ⟨c', hreplay, hready, hkilled⟩ := hrecorded.replayReady hreload
  rw [Machine.installs, if_neg hrec] at hready
  refine ⟨c', hreplay, fun answers c'' v hcalls hmakes hle => ?_⟩
  have hlen := hrecorded.length_le
  have hlim := hrecorded.inLimits
  obtain ⟨hat, hkilled', hanswers⟩ := hready.replayingAt.program hlen hlim
    (by rw [List.drop_zero]; exact hprog) hcalls hmakes (by omega)
  rw [List.drop_zero] at hanswers
  rw [Nat.zero_add] at hat
  obtain ⟨w, htake, hdrop⟩ := hprog.take answers.length
  obtain rfl := htake.unique hmakes hanswers
  refine ⟨htake, hkilled'.trans hkilled, fun hall => ?_, fun hlt => ?_⟩
  · rw [List.drop_of_length_le (by omega)] at hdrop
    cases hdrop
    rfl
  · rw [List.drop_eq_getElem_cons hlt] at hdrop
    cases hdrop with
    | cons hnext _ _ =>
      refine ⟨_, _, hnext, fun frame kern hpid hfetches => ?_⟩
      have hissue : calls[answers.length].ReissuedBy m₃.kern.proc.pid (frame, kern) :=
        ⟨hpid, hfetches⟩
      obtain ⟨kern', hrun, -⟩ := hat.call hlen hlim (List.getElem?_eq_getElem hlt) hissue
      exact ⟨_, _, _, hrun, hkilled'.trans hkilled⟩

/-! ## One recorded call -/

/-- The program that asks for its process id once, and remembers the answer. -/
def askPid : Program (Option (List FieldValue)) where
  next u := if u = none then some (.getpid, []) else none
  resume _ outputs := some outputs

/-- Process `5` records the program; when process `7` replays it, the program believes that it
is process `5`. -/
theorem program_replays_askPid :
    ∃ m c'' answer, (sysReplayStart OneFile.ops).run (caller 7 pidFile) = .ok 1 m ∧
      Calls OneFile.ops 7 m.core [answer] c'' ∧ askPid.Makes none [answer] (some [.int 5]) ∧
      c''.killed = false := by
  obtain ⟨m₂, hrecorded, hfs, -⟩ := recorded_pidCall
  obtain ⟨m₄, hload⟩ := load_pidFile
  obtain ⟨m, hreload⟩ := reloaded_oneFile ⟨Session.boot, false⟩ hfs hload
  have hprog : askPid.Makes none [pidCall] (some [.int 5]) :=
    .cons rfl (pidCall_inLimits 5 []).toFetches .nil
  obtain ⟨c', hreplay, hrun⟩ := program_replays OneFile.ops hrecorded hreload
    (show (caller 7 pidFile).core.session.recordSyscalls ≠ 1 by decide) hprog
  -- the first call is answered, and with this answer the program is done
  obtain ⟨-, -, -, hfirst⟩ := hrun [] c' none .nil .nil (Nat.zero_le _)
  obtain ⟨kind, ins, hnext, hanswer⟩ := hfirst Nat.zero_lt_one
  obtain ⟨rfl, rfl⟩ : kind = .getpid ∧ ins = [] := by
    injection hnext with hnext
    injection hnext with hkind hins
    exact ⟨hkind.symm, hins.symm⟩
  have hfetches := (pidCall_inLimits 7 pidFile).toFetches
  obtain ⟨ret, c'', kern', hret, -⟩ := hanswer Frame.zero (callerKern 7 pidFile) rfl hfetches
  have hcalls : Calls OneFile.ops 7 c'
      [⟨.getpid, Frame.zero, [], callerKern 7 pidFile, ret, kern'⟩] c'' := .cons rfl hret .nil
  have hmakes : askPid.Makes none
      [(⟨.getpid, Frame.zero, [], callerKern 7 pidFile, ret, kern'⟩ : Call _ _ _)] (some _) :=
    .cons rfl hfetches .nil
  obtain ⟨-, hkilled, hend, -⟩ := hrun _ c'' _ hcalls hmakes (le_refl 1)
  rw [hend rfl] at hmakes
  exact ⟨_, c'', _, hreplay, hcalls, hmakes, hkilled⟩

end V3
