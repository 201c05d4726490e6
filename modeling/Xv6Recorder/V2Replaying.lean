/-
# Replaying

What a handler does while its caller is replaying: it fetches the next logged call, and
then one of four things happens (`run_full`, `run_exhausted`, `run_logged`).  The replay
code itself runs no kernel code and stores at most into the caller's memory.

When the log is exhausted, seven handlers exit, `fstat` marks the process killed and
returns, and `getpid`, `uptime` and `close` mark it killed and go on to the code below the
branch.  For `close` this is the original code, which closes the descriptor.
-/
import Xv6Recorder.V2Recording

open Bytes StateError Xv6
open V3 (Kind Input)

namespace V2

section

variable {σ ι π α : Type}

/-! ## The replay branch -/

/-- The log advanced by one call. -/
def Core.advance (c : Core) : Core :=
  { c with session := { c.session with syscallIdx := c.session.syscallIdx + 1 } }

/-- `replay_syscalls = -1`. -/
def Core.endReplay (c : Core) : Core :=
  { c with session := { c.session with replaySyscalls := -1 } }

/-- Both flags `-1`. -/
def Core.endBoth (c : Core) : Core :=
  { c with session := { c.session with replaySyscalls := -1, recordSyscalls := -1 } }

/-- `kill` of the calling process. -/
def Core.kill (c : Core) : Core := { c with killed := true }

/-- The next call of the log. -/
def Core.next (c : Core) : Call := c.session.calls c.session.syscallIdx

section

variable {h : Handler σ ι π} {m : Machine σ ι π}
  (hrep : isReplaying m.core.session m.kern.proc.pid = true)
include hrep

theorem Handler.run_replaying : h.run.run m
    = (h.replayBranch >>= fun r => match r with
      | some r => pure r
      | none => h.below).run m := by
  rw [Handler.run, EStateM.run_bind, EStateM.run_get]
  exact congrArg (fun x : SysM σ ι π Word => x.run m) (if_pos hrep)

/-- The index is at the end of the table. -/
theorem run_full (hidx : maxSysCalls ≤ m.core.session.syscallIdx) :
    h.run.run m = .error .exited ⟨m.core.endBoth, m.kern⟩ := by
  have hget : getSyscall.run m.core = .error .exited m.core.endBoth := by
    rw [getSyscall, EStateM.run_bind, EStateM.run_get]
    simp only [hidx, if_true]
    rfl
  have hbranch : h.replayBranch.run m = .error .exited ⟨m.core.endBoth, m.kern⟩ := by
    rw [Handler.replayBranch, run_bind_of_error (run_onCore_of_error hget)]
  rw [Handler.run_replaying hrep, run_bind_of_error hbranch]

omit hrep in
theorem getSyscall_run {c : Core} (hidx : c.session.syscallIdx < maxSysCalls) :
    getSyscall.run c = .ok c.next c.advance := by
  rw [getSyscall, EStateM.run_bind, EStateM.run_get]
  simp only [Nat.not_le.mpr hidx, if_false]
  rfl

variable (hidx : m.core.session.syscallIdx < maxSysCalls)
include hidx

/-- The log has no further call. -/
theorem run_exhausted (hnext : m.core.next.syscall = uninitialized) :
    h.run.run m = match h.exhausted with
      | .exit => .error .exited ⟨m.core.advance.endReplay, m.kern⟩
      | .killReturn => .ok (-1) ⟨m.core.advance.endReplay.kill, m.kern⟩
      | .kill => h.below.run ⟨m.core.advance.endReplay.kill, m.kern⟩ := by
  have hbranch : h.replayBranch.run m
      = (onCore h.exhausted.run).run ⟨m.core.advance.endReplay, m.kern⟩ := by
    rw [Handler.replayBranch, run_bind_of_ok (run_onCore_of_ok (getSyscall_run hidx)),
      if_pos hnext]
    rfl
  rw [Handler.run_replaying hrep, EStateM.run_bind, hbranch]
  cases h.exhausted <;> rfl

/-- The log has a further call: the replay code runs when the number is the same. -/
theorem run_logged (hnext : m.core.next.syscall ≠ uninitialized) :
    h.run.run m = if m.core.next.syscall = h.number then
        (h.replay m.core.next).run ⟨m.core.advance, m.kern⟩
      else .error .exited ⟨m.core.advance.endReplay, m.kern⟩ := by
  have hbranch : h.replayBranch.run m = if m.core.next.syscall = h.number then
      (do
        let r ← h.replay m.core.next
        pure (some r) : SysM σ ι π (Option Word)).run ⟨m.core.advance, m.kern⟩
      else .error .exited ⟨m.core.advance.endReplay, m.kern⟩ := by
    rw [Handler.replayBranch, run_bind_of_ok (run_onCore_of_ok (getSyscall_run hidx)),
      if_neg hnext]
    split
    · rfl
    · rfl
  rw [Handler.run_replaying hrep, EStateM.run_bind, hbranch]
  by_cases hnum : m.core.next.syscall = h.number
  · rw [if_pos hnum, if_pos hnum]
    cases hrun : (h.replay m.core.next).run ⟨m.core.advance, m.kern⟩ with
    | ok r m' => rw [run_bind_of_ok hrun]; rfl
    | error e m' => rw [run_bind_of_error hrun]
  · rw [if_neg hnum, if_neg hnum]

end

/-! ## What replay leaves alone -/

/-- The file system, the open-file table, and the descriptors and the working directory of
the process are the same. -/
structure SameFiles (k k' : Kern σ ι π) : Prop where
  fs : k'.fs = k.fs
  ftable : k'.ftable = k.ftable
  ofile : k'.proc.ofile = k.proc.ofile
  cwd : k'.proc.cwd = k.proc.cwd

theorem SameFiles.refl (k : Kern σ ι π) : SameFiles k k := ⟨rfl, rfl, rfl, rfl⟩

theorem SameFiles.trans {k k' k'' : Kern σ ι π} (h : SameFiles k k') (h' : SameFiles k' k'') :
    SameFiles k k'' :=
  ⟨h'.fs.trans h.fs, h'.ftable.trans h.ftable, h'.ofile.trans h.ofile, h'.cwd.trans h.cwd⟩

/-- The kernels of two machines have the same files, whatever their recorders hold. -/
def Machine.SameFiles (m m' : Machine σ ι π) : Prop := V2.SameFiles m.kern m'.kern

instance : IsPreorder (Machine σ ι π) Machine.SameFiles where
  refl m := V2.SameFiles.refl m.kern
  trans _ _ _ h h' := V2.SameFiles.trans h h'

theorem sameFiles_onCore (x : RecM α) :
    Keeps Machine.SameFiles (onCore x : SysM σ ι π α) :=
  Keeps.zoom (Q := fun _ _ => True) (fun _ => trivial) fun m _ _ => SameFiles.refl m.kern

theorem sameFiles_fetchInt (fail : RecM Word) (pos : ℕ) :
    Keeps Machine.SameFiles (fetchInt fail pos : SysM σ ι π Word) :=
  (moves_fetchInt (sameFiles_onCore _).moves pos).keeps fun _ _ h => h

theorem sameFiles_fetchPtr (fail : RecM Word) (pos : ℕ) (size : Word) :
    Keeps Machine.SameFiles (fetchPtr fail pos size : SysM σ ι π Word) :=
  (moves_fetchPtr (sameFiles_onCore _).moves pos size).keeps fun _ _ h => h

theorem sameFiles_fetchInputs (fail : {α : Type} → RecM α) (inputs : List Input) :
    Keeps Machine.SameFiles (fetchInputs fail inputs : SysM σ ι π (List Arg)) :=
  (moves_fetchInputs (sameFiles_onCore _).moves inputs).keeps fun _ _ h => h

theorem sameFiles_replayOutput (fail : {α : Type} → RecM α) (number : Byte) (inputs : List Input)
    (setOutput : Call → Word → RecM Call) (pos : Fin maxFieldSize) (recorded : Call) :
    Keeps Machine.SameFiles
      (replayOutput fail number inputs setOutput pos recorded : SysM σ ι π Word) :=
  (sameFiles_fetchInputs fail inputs).bind fun _ => sameFiles_onCore _

theorem sameFiles_copyout (addr : Word) (src : Memory) (n : ℕ) :
    Keeps Machine.SameFiles (onKern (copyout addr src n) : SysM σ ι π Unit) := by
  refine Keeps.zoom (Q := V2.SameFiles) (fun k => ?_) fun _ _ h => h
  simp only [EStateM.run, copyout]
  split
  · exact ⟨rfl, rfl, rfl, rfl⟩
  · exact ⟨rfl, rfl, rfl, rfl⟩

theorem sameFiles_replayRead (recorded : Call) :
    Keeps Machine.SameFiles (replayRead recorded : SysM σ ι π Word) := by
  refine (sameFiles_fetchInt _ _).bind fun fd => (sameFiles_fetchInt _ _).bind fun n => ?_
  refine (sameFiles_fetchPtr _ _ _).bind fun p => (sameFiles_onCore _).bind fun _ => ?_
  exact Keeps.ite (Keeps.throw _) ((sameFiles_copyout _ _ _).bind fun _ => Keeps.pure _)

theorem sameFiles_replayFstat (recorded : Call) :
    Keeps Machine.SameFiles (replayFstat recorded : SysM σ ι π Word) := by
  refine (sameFiles_fetchInt _ _).bind fun fd => (sameFiles_fetchPtr _ _ _).bind fun st => ?_
  refine (sameFiles_onCore _).bind fun _ => Keeps.bind ?_ fun _ => Keeps.pure _
  exact Keeps.zoom (Q := V2.SameFiles) (fun k => ⟨rfl, rfl, rfl, rfl⟩) fun _ _ h => h

/-- **The replay code** touches no file. -/
theorem sameFiles_replay (ops : FsOps σ ι π) (k : Kind) (recorded : Call) :
    Keeps Machine.SameFiles ((handler ops k).replay recorded) := by
  cases k with
  | read => exact sameFiles_replayRead recorded
  | fstat => exact sameFiles_replayFstat recorded
  | _ => exact sameFiles_replayOutput _ _ _ _ _ _

/-! ## Below the branch -/

/-- `getpid` and `uptime` touch no file below the branch either. -/
theorem sameFiles_below (ops : FsOps σ ι π) {k : Kind} (hk : k = .getpid ∨ k = .uptime) :
    Keeps Machine.SameFiles (handler ops k).below := by
  have hquiet : ∀ (x : KM σ ι π Word), (∀ kern, endState (x.run kern) = kern) →
      Keeps Machine.SameFiles (onKern x) := fun x hx =>
    Keeps.zoom (Q := V2.SameFiles) (fun kern => by rw [hx]; exact SameFiles.refl _)
      fun _ _ h => h
  refine Keeps.get.bind fun m => Keeps.ite ?_ ?_
  · rcases hk with rfl | rfl
    · refine (sameFiles_fetchInputs _ _).bind fun _ => (sameFiles_onCore _).bind fun _ => ?_
      refine (hquiet getpidOriginal fun kern => rfl).bind fun _ => ?_
      exact (sameFiles_onCore _).bind fun _ => (sameFiles_onCore _).bind fun _ => Keeps.pure _
    · refine (hquiet uptimeOriginal fun kern => rfl).bind fun _ => ?_
      exact (sameFiles_onCore _).bind fun _ => (sameFiles_onCore _).bind fun _ => Keeps.pure _
  · rcases hk with rfl | rfl
    · exact hquiet _ fun kern => rfl
    · exact hquiet _ fun kern => rfl

section Close

variable (ops : FsOps σ ι π) {m : Machine σ ι π}

theorem close_of_none {k : Kern σ ι π} (hfd : argfd k.proc 0 = none) :
    (V3.closeOriginal ops).run k = .ok (-1) k := by
  rw [V3.closeOriginal, EStateM.run_bind, EStateM.run_get]
  simp only [hfd]
  rfl

theorem sameProc_fileclose (f : Fin nfile) :
    Keeps (fun k k' : Kern σ ι π => k'.proc = k.proc) (fileclose ops f) := by
  have : IsPreorder (Kern σ ι π) (fun k k' => k'.proc = k.proc) :=
    { refl := fun _ => rfl, trans := fun _ _ _ h h' => h'.trans h }
  have hfs : ∀ {α : Type} (x : EStateM String σ α),
      Keeps (fun k k' : Kern σ ι π => k'.proc = k.proc) (onFs x) := fun x =>
    Keeps.zoom (Q := fun _ _ => True) (fun _ => trivial) fun _ _ _ => rfl
  intro k
  rw [fileclose, EStateM.run_bind, EStateM.run_get]
  simp only
  split
  · rfl
  · split
    · rfl
    · refine Keeps.bind_at (R := fun k k' : Kern σ ι π => k'.proc = k.proc) rfl fun _ => ?_
      split
      · exact hfs _
      · exact (hfs _).bind fun _ => (hfs _).bind fun _ => hfs _
      · exact Keeps.pure _

/-- A `close` with an open descriptor frees it, however the call ends. -/
theorem close_of_some {k : Kern σ ι π} {fd : Fin nofile} {f : Fin nfile}
    (hfd : argfd k.proc 0 = some (fd, f)) :
    (endState ((V3.closeOriginal ops).run k)).proc.ofile = Function.update k.proc.ofile fd none := by
  rw [V3.closeOriginal, EStateM.run_bind, EStateM.run_get]
  simp only [hfd]
  have hset : (modify (setFd fd none) : KM σ ι π PUnit).run k = .ok ⟨⟩ (setFd fd none k) := rfl
  rw [run_bind_of_ok hset, EStateM.run_bind]
  have hkeep := sameProc_fileclose ops f (setFd fd none k)
  cases hclose : (fileclose ops f).run (setFd fd none k) with
  | ok u k' =>
    rw [hclose] at hkeep
    exact congrArg Proc.ofile hkeep
  | error msg k' =>
    rw [hclose] at hkeep
    exact congrArg Proc.ofile hkeep

/-- Below the branch, `close` does to the files what its original code does. -/
theorem close_below {fd : Word} (hfd : argint m.kern.proc 0 = some fd) :
    SameFiles (endState ((V3.closeOriginal ops).run m.kern))
      (endState ((handler ops .close).below.run m)).kern := by
  rw [Handler.below, EStateM.run_bind, EStateM.run_get]
  simp only
  split
  · show SameFiles _ (endState ((recordClose ops).run m)).kern
    rw [recordClose, run_bind_of_ok (fetchInt_run hfd), V3.closeRecorded_eq]
    cases hclose : (V3.closeOriginal ops).run m.kern with
    | error msg k' =>
      rw [run_bind_of_error (run_onKern_of_error hclose)]
      exact SameFiles.refl _
    | ok status k' =>
      rw [run_bind_of_ok (run_onKern_of_ok hclose)]
      exact (sameFiles_onCore _).bind (fun _ => Keeps.pure _) ⟨m.core, k'⟩
  · show SameFiles _ (endState ((onKern (V3.closeOriginal ops)).run m)).kern
    cases hclose : (V3.closeOriginal ops).run m.kern with
    | error msg k' =>
      rw [run_onKern_of_error hclose]
      exact SameFiles.refl _
    | ok status k' =>
      rw [run_onKern_of_ok hclose]
      exact SameFiles.refl _

/-- Without an argument to fetch, nothing is closed. -/
theorem close_below_of_none (hfd : argint m.kern.proc 0 = none) :
    SameFiles m.kern (endState ((handler ops .close).below.run m)).kern := by
  have hargfd : argfd m.kern.proc 0 = none := by rw [argfd, hfd]
  rw [Handler.below, EStateM.run_bind, EStateM.run_get]
  simp only
  split
  · show SameFiles _ (endState ((recordClose ops).run m)).kern
    have hfail : (fetchInt recordExit 0 : SysM σ ι π Word).run m = .error .exited
        ⟨{ m.core with session := { m.core.session with recordSyscalls := -1 } }, m.kern⟩ := by
      rw [fetchInt, EStateM.run_bind, EStateM.run_get]
      simp only [hfd]
      rfl
    rw [recordClose, run_bind_of_error hfail]
    exact SameFiles.refl _
  · show SameFiles _ (endState ((onKern (V3.closeOriginal ops)).run m)).kern
    rw [run_onKern_of_ok (close_of_none ops hargfd)]
    exact SameFiles.refl _

/-- What is below the branch of `close` touches files exactly when there is an open
descriptor to close. -/
theorem sameFiles_close_iff : SameFiles m.kern (endState ((handler ops .close).below.run m)).kern ↔
    argfd m.kern.proc 0 = none := by
  cases hint : argint m.kern.proc 0 with
  | none => exact iff_of_true (close_below_of_none ops hint) (by rw [argfd, hint])
  | some fd =>
    have hbelow := close_below ops hint
    constructor
    · intro hsame
      by_contra hne
      obtain ⟨⟨fd', f⟩, hargfd⟩ := Option.ne_none_iff_exists'.mp hne
      have hopen : m.kern.proc.ofile fd' = some f := by
        rw [argfd, hint] at hargfd
        simp only [myArgfd] at hargfd
        split at hargfd
        · obtain ⟨f', hf', heq⟩ := Option.map_eq_some_iff.mp hargfd
          obtain ⟨rfl, rfl⟩ := Prod.mk.inj heq
          exact hf'
        · cases hargfd
      have hfreed := congrFun (hbelow.ofile.trans (close_of_some ops hargfd)) fd'
      rw [hsame.ofile, Function.update_self, hopen] at hfreed
      cases hfreed
    · intro hnone
      rw [close_of_none ops hnone] at hbelow
      exact hbelow

end Close

/-! ## The answer comes from the log -/

/-- The position of the first output of a call. -/
def outputPos : Kind → Fin maxFieldSize
  | .getpid | .uptime => 0
  | .close | .fstat | .unlink | .mkdir | .chdir => 1
  | .read | .link | .open => 2
  | .mknod => 3

theorem replay_returns (ops : FsOps σ ι π) (k : Kind) (recorded : Call) :
    Ensures (fun _ => True) ((handler ops k).replay recorded)
      (fun v _ => v = (getFieldData recorded (outputPos k)).num) := by
  have hlast : ∀ (fail : {α : Type} → RecM α) number inputs setOutput pos,
      Ensures (fun _ => True)
        (replayOutput fail number inputs setOutput pos recorded : SysM σ ι π Word)
        (fun v _ => v = (getFieldData recorded pos).num) := by
    intro fail number inputs setOutput pos
    refine (ensures_true _).bind fun args => Ensures.zoom fun m _ => ?_
    refine (ensures_true _).bind fun _ => (ensures_true _).bind fun _ => ?_
    exact (ensures_true _).bind fun _ => Ensures.pure fun _ _ => rfl
  cases k with
  | read =>
    refine (ensures_true _).bind fun fd => (ensures_true _).bind fun n => ?_
    refine (ensures_true _).bind fun p => (ensures_true _).bind fun _ => ?_
    refine Ensures.ite (fun _ => Ensures.throw _) fun _ => ?_
    exact (ensures_true _).bind fun _ => Ensures.pure fun _ _ => rfl
  | fstat =>
    refine (ensures_true _).bind fun fd => (ensures_true _).bind fun st => ?_
    refine (ensures_true _).bind fun _ => (ensures_true _).bind fun _ => ?_
    exact Ensures.pure fun _ _ => rfl
  | _ => exact hlast _ _ _ _ _

/-! ## The killed mark -/

/-- The killed mark stays as it is. -/
def Core.SameKilled (c c' : Core) : Prop := c'.killed = c.killed

instance : IsPreorder Core Core.SameKilled where
  refl _ := rfl
  trans _ _ _ h h' := h'.trans h

/-- The mark of the calling process is the same in both machines. -/
def Machine.SameKilled (m m' : Machine σ ι π) : Prop := m.core.SameKilled m'.core

instance : IsPreorder (Machine σ ι π) Machine.SameKilled where
  refl _ := rfl
  trans _ _ _ h h' := h'.trans h

theorem sameKilled_onKern (x : KM σ ι π α) : Keeps Machine.SameKilled (onKern x) :=
  Keeps.zoom (Q := fun _ _ => True) (fun _ => trivial) fun _ _ _ => rfl

theorem sameKilled_onCore {x : RecM α} (hx : Keeps Core.SameKilled x) :
    Keeps Machine.SameKilled (onCore x : SysM σ ι π α) :=
  Keeps.zoom hx fun _ _ h => h

theorem sameKilled_setField (msg : String) (call : Call) (field : Field) :
    Keeps Core.SameKilled (setField msg call field) := by
  rw [setField]
  split
  · exact Keeps.pure _
  · exact Keeps.throw _

theorem sameKilled_onSession (f : Session → Session) : Keeps Core.SameKilled (onSession f) :=
  Keeps.modify fun _ => rfl

theorem sameKilled_recordExit : Keeps Core.SameKilled (recordExit : RecM α) :=
  (sameKilled_onSession _).bind fun _ => Keeps.throw _

theorem sameKilled_addSyscall (call : Call) : Keeps Core.SameKilled (addSyscall call) :=
  Keeps.get.bind fun _ => Keeps.ite sameKilled_recordExit (sameKilled_onSession _)

theorem sameKilled_setInputs (args : List Arg) (call : Call) :
    Keeps Core.SameKilled (setInputs call args) := by
  induction args generalizing call with
  | nil => exact Keeps.pure _
  | cons arg args ih =>
    refine Keeps.bind ?_ fun call => ih call
    cases arg with
    | int num => exact sameKilled_setField _ _ _
    | str text =>
      refine Keeps.bind (Keeps.ite ?_ (Keeps.pure _)) fun _ => sameKilled_setField _ _ _
      exact (sameKilled_onSession _).bind fun _ => Keeps.throw _

/-- The three handlers that go on below the branch leave the mark alone there. -/
theorem sameKilled_below (ops : FsOps σ ι π) {k : Kind}
    (hk : (handler ops k).exhausted = .kill) :
    Keeps Machine.SameKilled (handler ops k).below := by
  refine Keeps.get.bind fun m => Keeps.ite ?_ (sameKilled_onKern _)
  cases k with
  | getpid =>
    refine (Keeps.pure _).bind fun args => ?_
    refine (sameKilled_onCore (sameKilled_setInputs args _)).bind fun _ => ?_
    refine (sameKilled_onKern _).bind fun _ => ?_
    refine (sameKilled_onCore (sameKilled_setField _ _ _)).bind fun _ => ?_
    exact (sameKilled_onCore (sameKilled_addSyscall _)).bind fun _ => Keeps.pure _
  | uptime =>
    refine (sameKilled_onKern _).bind fun _ => ?_
    refine (sameKilled_onCore (sameKilled_setField _ _ _)).bind fun _ => ?_
    exact (sameKilled_onCore (sameKilled_addSyscall _)).bind fun _ => Keeps.pure _
  | close =>
    have hfetch := moves_fetchInt (σ := σ) (ι := ι) (π := π)
      (sameKilled_onCore sameKilled_recordExit).moves 0
    refine Keeps.bind (hfetch.keeps fun _ _ h => h) fun fd => ?_
    refine (sameKilled_onKern _).bind fun _ => Keeps.bind ?_ fun _ => Keeps.pure _
    refine sameKilled_onCore ((sameKilled_setField _ _ _).bind fun _ => ?_)
    exact (sameKilled_setField _ _ _).bind fun _ => sameKilled_addSyscall _
  | _ => cases hk

/-! ## Replay executes nothing, almost -/

/-- A value reaches user mode only from a call that returned without a killed mark. -/
theorem trap_eq_some {ops : FsOps σ ι π} {stack : Memory} {sc : V3.Syscall}
    {m m' : Machine σ ι π} {v : Word} (h : (trap ops stack sc).run m = .ok (some v) m') :
    (syscall ops stack sc).run m = .ok v m' ∧ m'.core.killed = false := by
  have hleave : ∀ m₁, (leave ops).run m₁ ≠ .ok (some v) m' := by
    intro m₁ hok
    obtain ⟨u, m₂, -, hpure⟩ := run_bind_eq_ok.mp hok
    cases hpure
  rw [EStateM.run, trap] at h
  split at h
  · exact absurd h (hleave m)
  · split at h
    · split at h
      · exact absurd h (hleave _)
      · rename_i eax m₁ hrun halive
        injection h with hv hm
        obtain rfl := Option.some.inj hv
        subst hm
        exact ⟨hrun, Bool.not_eq_true _ ▸ halive⟩
    · exact absurd h (hleave _)
    · cases h

/-- A `close` of an open descriptor that finds the log exhausted. -/
def LateClose (k : Kind) (m : Machine σ ι π) : Prop :=
  k = .close ∧ m.core.session.syscallIdx < maxSysCalls ∧ m.core.next.syscall = uninitialized ∧
    (argfd m.kern.proc 0).isSome

section

variable (ops : FsOps σ ι π) (k : Kind) {m : Machine σ ι π}
  (hrep : isReplaying m.core.session m.kern.proc.pid = true)
include hrep

/-- A replayed call and the files. -/
theorem sameFiles_run_iff :
    SameFiles m.kern (endState ((handler ops k).run.run m)).kern ↔ ¬ LateClose k m := by
  rcases Nat.lt_or_ge m.core.session.syscallIdx maxSysCalls with hidx | hfull
  · by_cases hnext : m.core.next.syscall = uninitialized
    · rw [run_exhausted hrep hidx hnext]
      cases hex : (handler ops k).exhausted with
      | exit =>
        exact iff_of_true (SameFiles.refl _) fun ⟨hk, _⟩ => by subst hk; cases hex
      | killReturn =>
        exact iff_of_true (SameFiles.refl _) fun ⟨hk, _⟩ => by subst hk; cases hex
      | kill =>
        simp only
        by_cases hk : k = .close
        · subst hk
          have hclose := sameFiles_close_iff ops (m := ⟨m.core.advance.endReplay.kill, m.kern⟩)
          refine hclose.trans ?_
          rw [LateClose, Option.isSome_iff_ne_none]
          constructor
          · rintro hnone ⟨-, -, -, hsome⟩
            exact hsome hnone
          · intro hlate
            by_contra hne
            exact hlate ⟨rfl, hidx, hnext, hne⟩
        · have hquiet : k = .getpid ∨ k = .uptime := by
            cases k with
            | getpid => exact .inl rfl
            | uptime => exact .inr rfl
            | close => exact absurd rfl hk
            | _ => cases hex
          have hbelow := sameFiles_below ops hquiet ⟨m.core.advance.endReplay.kill, m.kern⟩
          exact iff_of_true hbelow fun h => hk h.1
    · rw [run_logged hrep hidx hnext]
      refine iff_of_true ?_ fun h => hnext h.2.2.1
      split
      · exact sameFiles_replay ops k m.core.next ⟨m.core.advance, m.kern⟩
      · exact SameFiles.refl _
  · rw [run_full hrep hfull]
    exact iff_of_true (SameFiles.refl _) fun h => by have := h.2.1; omega

/-- A replayed call that hands a value to user mode has found a logged call of its number,
and comes from the replay code. -/
theorem replay_returned (stack : Memory) {v : Word} {m' : Machine σ ι π}
    (h : (trap ops stack (.call k)).run m = .ok (some v) m') :
    m.core.session.syscallIdx < maxSysCalls ∧ m.core.next.syscall = number k ∧
      ((handler ops k).replay m.core.next).run ⟨m.core.advance, m.kern⟩ = .ok v m' := by
  obtain ⟨hrun, halive⟩ := trap_eq_some h
  replace hrun : (handler ops k).run.run m = .ok v m' := hrun
  rcases Nat.lt_or_ge m.core.session.syscallIdx maxSysCalls with hidx | hfull
  · by_cases hnext : m.core.next.syscall = uninitialized
    · rw [run_exhausted hrep hidx hnext] at hrun
      cases hex : (handler ops k).exhausted with
      | exit => rw [hex] at hrun; cases hrun
      | killReturn =>
        rw [hex] at hrun
        injection hrun with _ hm
        rw [← hm] at halive
        cases halive
      | kill =>
        rw [hex] at hrun
        have hkilled := (sameKilled_below ops hex).of_ok hrun
        rw [Machine.SameKilled, Core.SameKilled, halive] at hkilled
        cases hkilled
    · rw [run_logged hrep hidx hnext, handler_number] at hrun
      split at hrun
      case isTrue hnum => exact ⟨hidx, hnum, hrun⟩
      case isFalse => cases hrun
  · rw [run_full hrep hfull] at hrun
    cases hrun

/-- That value is the recorded one. -/
theorem replay_value (stack : Memory) {v : Word} {m' : Machine σ ι π}
    (h : (trap ops stack (.call k)).run m = .ok (some v) m') :
    v = (getFieldData m.core.next (outputPos k)).num := by
  obtain ⟨-, -, hreplay⟩ := replay_returned ops k hrep stack h
  exact replay_returns ops k m.core.next trivial hreplay

end

/-- **When replay executes nothing.**  While the caller is replaying, with any log and any
arguments, a call leaves the file system, the open-file table, and the descriptors and the
working directory of the process as they were, however it ends, if and only if it is not a
`close` of an open descriptor that finds the log exhausted.  A value that a call hands to
user mode is the recorded one. -/
theorem replay_executes_nothing_iff (ops : FsOps σ ι π) (stack : Memory) (k : Kind)
    (m : Machine σ ι π) (hrep : isReplaying m.core.session m.kern.proc.pid = true) :
    (SameFiles m.kern (endState ((syscall ops stack (.call k)).run m)).kern ↔ ¬ LateClose k m) ∧
      ∀ v m', (trap ops stack (.call k)).run m = .ok (some v) m' →
        v = (getFieldData m.core.next (outputPos k)).num :=
  ⟨sameFiles_run_iff ops k hrep, fun _ _ h => replay_value ops k hrep stack h⟩

end

/-- Process `5` replays an empty log, with a call that has the argument words `args`. -/
def replayingMachine (args : List Word) : Machine (List Byte) Unit Unit where
  core := ⟨{ Session.boot with replaySyscalls := 1, rrPid := 5 }, false⟩
  kern := OneFile.kern 5 args [] []

theorem replay_executes_nothing_iff_uptime :
    SameFiles (replayingMachine []).kern (endState ((syscall OneFile.ops (fun _ => 0)
      (.call .uptime)).run (replayingMachine []))).kern :=
  (replay_executes_nothing_iff OneFile.ops (fun _ => 0) .uptime (replayingMachine [])
    (by decide)).1.mpr fun h => by cases h.1

/-- **A call that replay executes.**  Process `5` replays an empty log and closes
descriptor `3`; the descriptor is free and the reference to the open file is gone when the
handler returns. -/
theorem late_close_executes : isReplaying (replayingMachine [3]).core.session 5 = true ∧
    ∃ m', (syscall OneFile.ops (fun _ => 0) (.call .close)).run (replayingMachine [3])
        = .ok 0 m' ∧
      (replayingMachine [3]).kern.proc.ofile ⟨3, by decide⟩ = some ⟨0, by decide⟩ ∧
      m'.kern.proc.ofile ⟨3, by decide⟩ = none ∧
      ((replayingMachine [3]).kern.ftable ⟨0, by decide⟩).ref = 1 ∧
      (m'.kern.ftable ⟨0, by decide⟩).ref = 0 :=
  ⟨by decide, _, rfl, rfl, rfl, rfl, rfl⟩

end V2
