/-
# When a call of the owner is logged, or answered from the log

For one system call of the process that records, `logged_iff` says when its entry is
appended to the log: the inputs are fetched and not too long, the log has room, and the call
is not an `unlink` that is dropped.  For one of the process that replays,
`replayed_iff` says when it is answered from the next logged call: when that is of its kind
and has its inputs.
-/
import Xv6Recorder.V2Comparing
import Xv6Recorder.V2Modes

open Bytes StateError Xv6
open V3 (Kind Input readArgs)

namespace V2

section

variable {σ ι π : Type}

/-- The field value of what a call returns. -/
def resultValue (k : Kind) (ret : Word) : Value :=
  if k = .uptime then .uint ret else .int ret

/-- The result is the first output of every call. -/
theorem outputs_eq_cons (k : Kind) (p : Proc ι) (mem : Memory) (ret : Word) :
    ∃ outs, outputs k p mem ret = resultValue k ret :: outs := by
  cases k <;> exact ⟨_, rfl⟩

/-- **The call is logged.**  It hands a value to its process, and the log is longer by one
record with the number of the call, its inputs and that value; within the limits, with
what the call stored for its caller. -/
def Logged (k : Kind) (p p' : Proc ι) (s s' : Session) (eax : Option Word) : Prop :=
  ∃ ins ret outs, eax = some ret ∧ argsOf p k.inputs = some ins ∧
    (InLimits k p ins → resultValue k ret :: outs = outputs k p p'.mem ret) ∧
    s' = (Core.append ⟨s, false⟩
      (Entry.call ⟨number k, ins.map Arg.value ++ resultValue k ret :: outs⟩)).session

variable {c c' : Core} {eax : Option Word}

theorem Logged.returned {k : Kind} {p p' : Proc ι} {s s' : Session} (h : Logged k p p' s s' eax) :
    ∃ ret, eax = some ret := by
  obtain ⟨_, ret, _, heax, -⟩ := h
  exact ⟨ret, heax⟩

/-- What it takes for a call to be logged. -/
structure Loggable (ops : FsOps σ ι π) (k : Kind) (kern : Kern σ ι π) (idx : ℕ) : Prop where
  fetched : ∃ ins, argsOf kern.proc k.inputs = some ins ∧ ∀ arg ∈ ins, arg.WellFormed
  size_le : k = .read → ∀ n, argint kern.proc 2 = some n → n.toInt ≤ maxByteSize
  room : idx < maxSysCalls
  kept : ¬ Dropped ops k kern

/-! ## What a record branch that returns has done -/

section

variable {fail : {α : Type} → RecM α} (hfail : ∀ {α : Type} {c c' : Core} {v : α},
  fail.run c ≠ .ok v c') {m m' : Machine σ ι π}

include hfail

end

section

variable {m m' : Machine σ ι π} {v : Word} {k : Kind}

variable (ops : FsOps σ ι π)

/-- Calls without string inputs have nothing that is too long. -/
theorem wellFormed_ints (nums : List Word) : ∀ arg ∈ nums.map Arg.int, arg.WellFormed := by
  intro arg harg
  obtain ⟨num, -, rfl⟩ := List.mem_map.mp harg
  trivial

/-- A `read` outside the limits that comes back was of no bytes. -/
theorem read_outside {fd n : Word} (hfd : argint m.kern.proc 0 = some fd)
    (hn : argint m.kern.proc 2 = some n) (hle : n.toInt ≤ maxByteSize)
    (hidx : m.core.session.syscallIdx < maxSysCalls)
    (hout : ¬ InLimits .read m.kern.proc [.int fd, .int n]) :
    (recordRead ops).run m = .ok (-1) ⟨m.core.append (Entry.call
        ⟨V3.SYS.read, [.int fd, .int n, .int (-1), .bytes []]⟩), m.kern⟩ ∨
      (recordRead ops).run m = .error .outOfBounds m := by
  have hinputs : argsOf m.kern.proc Kind.read.inputs = some [.int fd, .int n] := by
    simp only [Kind.inputs, argsOf, argOf, hfd, hn, Option.map_some]
  -- the descriptor or the pointer is bad, and nothing is read
  have hread : (V3.readRecorded ops).run m.kern = .ok (-1, none) m.kern := by
    rw [V3.readRecorded, EStateM.run_bind, EStateM.run_get]
    dsimp only
    rw [hn]
    rcases hopen : argfd m.kern.proc 0 with _ | ⟨i, f⟩
    · rfl
    · rcases hptr : argptr m.kern.proc 1 n with _ | p
      · simp only [hptr]
        rfl
      · refine absurd ?_ hout
        have hneg : 0 ≤ n.toInt := by
          rw [argptr] at hptr
          split at hptr
          · cases hptr
          · split at hptr
            · cases hptr
            case isFalse hbad => exact Int.not_lt.mp fun h => hbad (.inl h)
        refine ⟨⟨hinputs, wellFormed_ints [fd, n], fun _ => ?_, (fun h => by cases h),
          fun _ n' hn' => ?_⟩, fun _ => by rw [hopen]; rfl⟩
        · rw [readArgs, hn, Option.bind_some, hptr]
          rfl
        · obtain rfl := Option.some.inj (hn.symm.trans hn')
          exact ⟨hneg, hle⟩
  rw [recordRead_eq ops hfd hn, run_bind_of_ok (run_onKern_of_ok hread), EStateM.run_bind,
    EStateM.run_get]
  dsimp only [Option.map_none]
  have hset := setInt_run V3.SYS.read [.int fd, .int n] (show 2 < maxFieldSize by decide) m.core (-1)
  by_cases hzero : n = 0
  · left
    subst hzero
    have hbytes : (transformCharPointerToByte none 0).run m.core = .ok (byteStruct []) m.core := rfl
    have hcore : (do
        let recorded ← setInt (Entry.call ⟨V3.SYS.read, [.int fd, .int 0]⟩) (-1)
        let bytes ← transformCharPointerToByte none 0
        let recorded ← setByte recorded bytes
        addSyscall recorded).run m.core = .ok () (m.core.append (Entry.call
          ⟨V3.SYS.read, [.int fd, .int 0, .int (-1), .bytes []]⟩)) := by
      rw [run_bind_of_ok hset, run_bind_of_ok hbytes]
      exact (run_bind_of_ok (setByte_run V3.SYS.read [.int fd, .int 0, .int (-1)]
        (show 3 < maxFieldSize by decide) _ [])).trans (addSyscall_run hidx _)
    rw [run_bind_of_ok (run_onCore_of_ok hcore)]
    rfl
  · right
    have hbytes : (transformCharPointerToByte none n).run m.core = .error .outOfBounds m.core := by
      rw [transformCharPointerToByte.eq_def, if_neg (Int.not_lt.mpr hle)]
      dsimp only
      rw [if_neg hzero]
      split
      · rfl
      · rfl
    have hcore : (do
        let recorded ← setInt (Entry.call ⟨V3.SYS.read, [.int fd, .int n]⟩) (-1)
        let bytes ← transformCharPointerToByte none n
        let recorded ← setByte recorded bytes
        addSyscall recorded).run m.core = .error .outOfBounds m.core := by
      rw [run_bind_of_ok hset, run_bind_of_error hbytes]
    rw [run_bind_of_error (run_onCore_of_error hcore)]

/-- An `fstat` outside the limits does not come back. -/
theorem fstat_outside {ins : List Arg} (hins : argsOf m.kern.proc Kind.fstat.inputs = some ins)
    (hout : ¬ InLimits .fstat m.kern.proc ins) :
    (recordFstat ops).run m = .error .outOfBounds m := by
  obtain ⟨arg, rest, rfl, harg, hrest⟩ := argsOf_cons hins
  obtain ⟨fd, hfd, rfl⟩ := Option.map_eq_some_iff.mp harg
  obtain rfl := Option.some.inj hrest
  have hstat : (V3.fstatRecorded ops).run m.kern = .ok (-1, none) m.kern := by
    rw [V3.fstatRecorded, EStateM.run_bind, EStateM.run_get]
    dsimp only
    rcases hopen : argfd m.kern.proc 0 with _ | ⟨i, f⟩
    · rfl
    · rcases hptr : argptr m.kern.proc 1 statSize with _ | p
      · rfl
      · refine absurd ?_ hout
        exact ⟨⟨hins, wellFormed_ints [fd], (fun h => by cases h),
          (fun _ => by rw [hptr]; rfl), fun h => by cases h⟩, fun _ => by rw [hopen]; rfl⟩
  have hset : (setInt (createSyscall V3.SYS.fstat) fd).run m.core
      = .ok (Entry.call ⟨V3.SYS.fstat, [.int fd]⟩) m.core :=
    setInt_run V3.SYS.fstat [] (show 0 < maxFieldSize by decide) m.core fd
  have hset' := setInt_run V3.SYS.fstat [.int fd] (show 1 < maxFieldSize by decide) m.core (-1)
  rw [recordFstat, run_bind_of_ok (fetchInt_run hfd), run_bind_of_ok (run_onCore_of_ok hset),
    run_bind_of_ok (run_onKern_of_ok hstat), EStateM.run_bind, EStateM.run_get]
  dsimp only
  rw [run_bind_of_ok (run_onCore_of_ok hset')]
  rfl

end

/-! ## One call of the recording owner -/

section

variable {ops : FsOps σ ι π} {stack : Memory} {m m' : Machine σ ι π} {k : Kind}
  {eax : Option Word} (halive : m.core.killed = false)

include halive

/-- A loggable call that comes back is logged. -/
theorem Loggable.logged (h : Loggable ops k m.kern m.core.session.syscallIdx)
    (hrun : (syscall ops stack (.call k)).run m = (handler ops k).record.run m)
    (htrap : (trap ops stack (.call k)).run m = .ok eax m') :
    Logged k m.kern.proc m'.kern.proc m.core.session m'.core.session eax := by
  obtain ⟨ins, hins, hwf⟩ := h.fetched
  rw [trap_of_live halive, hrun] at htrap
  by_cases hlim : InLimits k m.kern.proc ins
  · obtain ⟨hok, herror⟩ := handler_recordsAs ops h.room hlim h.kept
    cases horig : (handler ops k).original.run m.kern with
    | error msg kern' =>
      rw [herror msg kern' horig] at htrap
      cases htrap
    | ok ret kern' =>
      rw [hok ret kern' horig] at htrap
      dsimp only at htrap
      rw [show (m.core.append _).killed = false from halive, if_neg Bool.false_ne_true] at htrap
      injection htrap with heax hm
      subst heax hm
      obtain ⟨outs, houts⟩ := outputs_eq_cons k m.kern.proc kern'.proc.mem ret
      refine ⟨ins, ret, outs, rfl, hins, fun _ => houts.symm, ?_⟩
      rw [houts]
      rfl
  · -- only `read` and `fstat` have further limits
    cases k with
    | read =>
      obtain ⟨arg, rest, rfl, harg, hrest⟩ := argsOf_cons hins
      obtain ⟨arg', rest', rfl, harg', hrest'⟩ := argsOf_cons hrest
      obtain ⟨fd, hfd, rfl⟩ := Option.map_eq_some_iff.mp harg
      obtain ⟨n, hn, rfl⟩ := Option.map_eq_some_iff.mp harg'
      obtain rfl := Option.some.inj hrest'
      rw [show (handler ops .read).record = recordRead ops from rfl] at htrap
      rcases read_outside ops hfd hn (h.size_le rfl n hn) h.room hlim with hread | hread
      · rw [hread] at htrap
        dsimp only at htrap
        rw [show (m.core.append _).killed = false from halive, if_neg Bool.false_ne_true] at htrap
        injection htrap with heax hm
        subst heax hm
        exact ⟨_, -1, [.bytes []], rfl, hins, fun hin => absurd hin hlim, rfl⟩
      · rw [hread] at htrap
        cases htrap
    | fstat =>
      rw [show (handler ops .fstat).record = recordFstat ops from rfl] at htrap
      rw [fstat_outside ops hins hlim] at htrap
      cases htrap
    | _ => exact absurd (inLimits_of_plain (by decide) (by decide) hins hwf) hlim

end

/-! ## One call of the replaying owner -/

/-- **The call is replayed.**  It finds a logged call of its number and hands out what is
recorded in it, and the log is one call further. -/
def Replayed (k : Kind) (p p' : Proc ι) (s s' : Session) (eax : Option Word) : Prop :=
  (s.calls s.syscallIdx).syscall = number k ∧
    ∃ ret, eax = some ret ∧ Answers k p (s.calls s.syscallIdx) p'.mem ret ∧
      s' = (Core.advance ⟨s, false⟩).session

theorem Replayed.returned {k : Kind} {p p' : Proc ι} {s s' : Session} (h : Replayed k p p' s s' eax) :
    ∃ ret, eax = some ret := by
  obtain ⟨-, ret, heax, -⟩ := h
  exact ⟨ret, heax⟩

section

variable {a b : Field} {c c' : Core} {u : Unit}

end

/-- What a call whose replay code returns has found in the log. -/
def Found (k : Kind) (p : Proc ι) (recorded : Call) : Prop :=
  WellTyped k recorded ∧ ∃ ins, Fetches k p ins ∧ HasInputs recorded ins

section

variable {m m' : Machine σ ι π} {v : Word} {k : Kind} {recorded : Call}

end

end

end V2
