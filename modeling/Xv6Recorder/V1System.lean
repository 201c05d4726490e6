/-
# Which session a replay of the first recorder loads

Whole runs: system calls of any processes, reboots, which reset the globals and keep the disk,
and whatever else happens.  `sys_replay_start(f)` copies `f` into a global and then opens the file
of the last `sys_record_start` since boot.  What it loads is therefore the session of `f` exactly
when that other file holds the same record group.
-/
import Xv6Recorder.NamedFiles
import Xv6Recorder.Transitions
import Xv6Recorder.V1Idle
import Xv6Recorder.V3Persistence

open Bytes StateError Xv6 Transitions
open V3 (Kind myOpen myRead myWrite myClose strcpy)

namespace V1

section

variable {σ ι π : Type}

/-! ## Steps and runs -/

/-- The state that is left between two system calls. -/
structure System (σ ι π : Type) where
  session : Session
  ftable : Fin nfile → File ι π
  ticks : Word
  fs : σ

/-- The machine on which a system call of process `p` runs. -/
def System.machine (s : System σ ι π) (p : Proc ι) : Machine σ ι π :=
  ⟨s.session, { proc := p, ftable := s.ftable, ticks := s.ticks, fs := s.fs }⟩

/-- What a system call leaves. -/
def Machine.system (m : Machine σ ι π) : System σ ι π :=
  ⟨m.session, m.kern.ftable, m.kern.ticks, m.kern.fs⟩

/-- What happens in a step. -/
inductive Event (ι : Type) where
  | trap (p : Proc ι) (locals : Locals) (sc : V3.Syscall) (eax : Option Word)
  | reboot
  | other

variable (ops : FsOps σ ι π)

/-- One step of the system.  Any process may make a system call; the rest leaves the globals
alone. -/
inductive Step : System σ ι π → Event ι → System σ ι π → Prop
  | trap {s : System σ ι π} {p : Proc ι} {locals : Locals} {sc : V3.Syscall} {eax : Option Word}
      {m : Machine σ ι π} (hrun : (trap ops locals sc).run (s.machine p) = .ok eax m) :
      Step s (.trap p locals sc eax) m.system
  | reboot {s s' : System σ ι π} (hsession : s'.session = Session.boot) : Step s .reboot s'
  | other {s s' : System σ ι π} (hsession : s'.session = s.session) : Step s .other s'

/-- A run, as the list of its events with the states they lead to. -/
abbrev Run (s : System σ ι π) (path : List (Event ι × System σ ι π)) : Prop :=
  Path (Step ops) s path

/-! ## The name of the last recording -/

/-- The name of the last recording since boot, after one more event. -/
def nextName (name : List Byte) : Event ι → List Byte
  | .trap p _ .recordStart _ =>
    match argstr p 0 with
    | none => name
    | some filename => strcpy filename 255
  | .reboot => []
  | _ => name

/-- The name of the last recording since boot; empty when there was none. -/
def lastName (path : List (Event ι × System σ ι π)) : List Byte :=
  path.foldl (fun name t => nextName name t.1) []

/-- The name of the recording stays. -/
def SameName (m m' : Machine σ ι π) : Prop :=
  m'.session.recordFilename = m.session.recordFilename

instance : IsPreorder (Machine σ ι π) SameName where
  refl _ := rfl
  trans _ _ _ h h' := h'.trans h

variable {m : Machine σ ι π} {k₁ k₂ k₃ : Kern σ ι π} {v : Word} {α : Type}

omit ops in
theorem sameName_onKern (x : KM σ ι π α) : Keeps SameName (onKern x) :=
  Keeps.zoom (Q := fun _ _ => True) (fun _ => trivial) fun _ _ _ => rfl

omit ops in
theorem sameName_onSession {f : Session → Session}
    (h : ∀ s, (f s).recordFilename = s.recordFilename) :
    Keeps SameName (onSession f : SysM σ ι π Unit) := Keeps.modify fun m => h m.session

omit ops in
theorem sameName_access (o : Option α) : Keeps SameName (access o : SysM σ ι π α) := by
  cases o with
  | none => exact Keeps.throw _
  | some a => exact Keeps.pure a

omit ops in
theorem sameName_sysReplayStop : Keeps SameName (sysReplayStop : SysM σ ι π Word) :=
  Keeps.get.bind fun _ => Keeps.ite
    ((sameName_onSession fun _ => by rfl).bind fun _ => Keeps.get.bind fun _ => Keeps.pure _)
    (Keeps.get.bind fun _ => Keeps.pure _)

theorem sameName_sysRecordStop : Keeps SameName (sysRecordStop ops) :=
  Keeps.get.bind fun _ => Keeps.ite
    ((sameName_onSession fun _ => by rfl).bind fun _ => (sameName_onKern _).bind fun _ =>
      (sameName_onKern _).bind fun _ => (sameName_onKern _).bind fun _ =>
      (sameName_onSession fun _ => by rfl).bind fun _ => Keeps.get.bind fun _ => Keeps.pure _)
    (Keeps.get.bind fun _ => Keeps.pure _)

theorem sameName_sysReplayStart (locals : Locals) : Keeps SameName (sysReplayStart ops locals) := by
  refine Keeps.get.bind fun m => ?_
  cases argstr m.kern.proc 0 with
  | none => exact Keeps.pure _
  | some filename =>
    exact (sameName_onSession fun _ => by rfl).bind fun _ => (sameName_onSession fun _ => by rfl).bind
      fun _ => (sameName_onKern _).bind fun _ => (sameName_onKern _).bind fun _ =>
      (sameName_onSession fun _ => by rfl).bind fun _ => (sameName_onKern _).bind fun _ =>
      Keeps.get.bind fun _ => Keeps.pure _

theorem sameName_sysExit : Keeps SameName (sysExit ops : SysM σ ι π α) :=
  sameName_sysReplayStop.bind fun _ => (sameName_sysRecordStop ops).bind fun _ => Keeps.throw _

theorem sameName_errorHandling (code : ErrCode) : Keeps SameName (errorHandling ops code) :=
  Keeps.ite (Keeps.pure _) (sameName_sysExit ops)

theorem sameName_capture (text : List Byte) : Keeps SameName (capture ops text) :=
  (sameName_errorHandling ops _).bind fun _ => Keeps.pure _

theorem sameName_captureAt (p : Word) : Keeps SameName (captureAt ops p) := by
  refine Keeps.get.bind fun m => ?_
  cases textAt m.kern.proc p with
  | none => exact Keeps.throw _
  | some text => exact sameName_capture ops text

theorem sameName_validateInputs (record : Record) (i : ℕ) (inputs : List Typed) :
    Keeps SameName (validateInputs ops record i inputs) := by
  induction inputs generalizing i with
  | nil => exact Keeps.pure _
  | cons input inputs ih =>
    exact (sameName_access _).bind fun _ => (sameName_errorHandling ops _).bind fun _ => ih (i + 1)

theorem sameName_recordFields (locals : Locals) (record : Record) (i : ℕ)
    (fields : List (Typed × Byte)) : Keeps SameName (recordFields ops locals record i fields) := by
  induction fields generalizing record i with
  | nil => exact Keeps.pure _
  | cons f fields ih =>
    exact (sameName_access _).bind fun _ => (sameName_errorHandling ops _).bind fun _ => ih _ _

theorem sameName_replayCall (syscall : Word) (inputs : List Typed) :
    Keeps SameName (replayCall ops syscall inputs) :=
  Keeps.get.bind fun _ => (sameName_access _).bind fun _ =>
    (sameName_onSession fun _ => by rfl).bind fun _ => (sameName_errorHandling ops _).bind fun _ =>
    (sameName_validateInputs ops _ _ _).bind fun _ => (sameName_access _).bind fun _ =>
    (sameName_errorHandling ops _).bind fun _ => Keeps.pure _

theorem sameName_recordCall (locals : Locals) (syscall : Word) (inputs : List Typed)
    (output : Word) : Keeps SameName (recordCall ops locals syscall inputs output) :=
  (sameName_recordFields ops locals _ _ _).bind fun _ => Keeps.get.bind fun _ =>
    (sameName_access _).bind fun _ => (sameName_onSession fun _ => by rfl).bind fun _ =>
    sameName_errorHandling ops _

theorem sameName_handler {h : Handler σ ι π} (locals : Locals) (hinputs : Keeps SameName h.inputs) :
    Keeps SameName (h.run ops locals) :=
  hinputs.bind fun _ => Keeps.get.bind fun _ => Keeps.ite (sameName_replayCall ops _ _)
    ((sameName_onKern _).bind fun _ => Keeps.get.bind fun _ => Keeps.ite
      ((sameName_recordCall ops locals _ _ _).bind fun _ => Keeps.pure _) (Keeps.pure _))

theorem sameName_sysRead_inputs (locals : Locals) : Keeps SameName (sysRead ops locals).inputs := by
  refine Keeps.get.bind fun m => ?_
  dsimp only
  split
  · exact (sameName_capture ops []).bind fun _ => Keeps.pure _
  · exact (sameName_captureAt ops _).bind fun _ => Keeps.pure _

theorem sameName_sysCall (locals : Locals) (kind : Kind) :
    Keeps SameName (sysCall ops locals kind) := by
  cases kind with
  | getpid => exact sameName_handler ops locals (Keeps.pure _)
  | read => exact sameName_handler ops locals (sameName_sysRead_inputs ops locals)
  | «open» =>
    exact sameName_handler ops locals (Keeps.get.bind fun _ =>
      (sameName_capture ops _).bind fun _ => Keeps.pure _)
  | close => exact sameName_handler ops locals (Keeps.get.bind fun _ => Keeps.pure _)
  | _ => exact sameName_onKern _

omit ops in
/-- `sys_record_start` is the one call that sets the name. -/
theorem sysRecordStart_name (m : Machine σ ι π) :
    (endState ((sysRecordStart : SysM σ ι π Word).run m)).session.recordFilename
      = match argstr m.kern.proc 0 with
        | none => m.session.recordFilename
        | some filename => strcpy filename 255 := by
  rw [sysRecordStart, EStateM.run_bind, EStateM.run_get]
  dsimp only
  cases argstr m.kern.proc 0 <;> rfl

variable {ops}

variable {m m' : Machine σ ι π} {locals : Locals} {filename : List Byte}

/-- The name after a system call. -/
theorem trap_name {sc : V3.Syscall} {eax : Option Word}
    (h : (trap ops locals sc).run m = .ok eax m') : m'.session.recordFilename
      = nextName m.session.recordFilename (.trap m.kern.proc locals sc eax) := by
  -- the trap ends with the session as the call left it
  have hend : m'.session = (endState ((syscall ops locals sc).run m)).session := by
    rw [EStateM.run, trap] at h
    split at h
    case h_1 v m₁ hcall =>
      injection h with _ hm
      rw [hcall, ← hm]
      rfl
    case h_2 m₁ hcall =>
      obtain ⟨_, m₂, hexit, hpure⟩ := run_bind_eq_ok.mp h
      obtain ⟨k, -, hm₂⟩ := run_zoom_eq_ok.mp hexit
      injection hpure with _ hm
      rw [hcall, ← hm, hm₂]
      rfl
    case h_3 => cases h
  rw [hend]
  cases sc with
  | call kind => exact sameName_sysCall ops locals kind m
  | recordStart => exact sysRecordStart_name m
  | recordStop => exact sameName_sysRecordStop ops m
  | replayStart => exact sameName_sysReplayStart ops locals m
  | replayStop => exact sameName_sysReplayStop m
  | exit => exact sameName_sysExit ops m

theorem Step.name {s s' : System σ ι π} {e : Event ι} (h : Step ops s e s') :
    s'.session.recordFilename = nextName s.session.recordFilename e := by
  cases h with
  | trap hrun => exact trap_name hrun
  | reboot hsession => rw [hsession]; rfl
  | other hsession => rw [hsession]; rfl

/-- **The global holds the name of the last recording since boot**, along every run. -/
theorem Run.name {s : System σ ι π} {path : List (Event ι × System σ ι π)} (h : Run ops s path)
    (hboot : s.session = Session.boot) :
    (last s path).session.recordFilename = lastName path := by
  have hinv := h.invariant (I := fun before s' => s'.session.recordFilename = lastName before)
    (by rw [hboot]; rfl) ?_ path [] (List.append_nil _).symm
  · exact hinv
  · intro before e s' after _ hstep hbefore
    rw [hstep.name, hbefore, lastName, lastName, List.foldl_append]
    rfl

/-! ## Saving and loading -/

/-- The group that the bytes of a file give, over a buffer that is not initialised. -/
def groupOf (buffer : Memory) (bytes : List Byte) : RecordGroup :=
  loadGroup (overlay buffer 0 (bytes.take sizeofGroup)) 0

omit ops in
/-- A file that begins with the bytes of a group gives the group. -/
theorem groupOf_bytes (buffer : Memory) (rg : RecordGroup) (after : List Byte) :
    groupOf buffer (rg.bytes ++ after) = rg := by
  rw [groupOf, List.take_left' (length_group_bytes rg)]
  exact loadGroup_of_stands (stands_overlay _ _ _)

theorem sysRecordStart_run (h : argstr m.kern.proc 0 = some filename) :
    (sysRecordStart : SysM σ ι π Word).run m = .ok 1 { m with
      session := { m.session with
        recordFilename := strcpy filename 255
        recordSyscalls := 1
        rg := recordGroupConstructor } } := by
  rw [sysRecordStart, EStateM.run_bind, EStateM.run_get]
  dsimp only
  rw [h]
  rfl

/-- A stop call of a recording, from what the three file calls do. -/
theorem sysRecordStop_run {fd w c : Word} (hrec : m.session.recordSyscalls = 1)
    (hopen : (myOpen ops m.session.recordFilename (oCreate ||| oRdwr)).run m.kern = .ok fd k₁)
    (hwrite : (myWrite ops fd m.session.rg.bytes).run k₁ = .ok w k₂)
    (hclose : (myClose ops fd).run k₂ = .ok c k₃) :
    (sysRecordStop ops).run m = .ok 0
      ⟨{ m.session with recordSyscalls := 0, rg := recordGroupConstructor }, k₃⟩ := by
  rw [sysRecordStop, EStateM.run_bind, EStateM.run_get]
  dsimp only
  rw [if_pos hrec, run_onSession_bind, run_onKern_bind hopen, run_onKern_bind hwrite,
    run_onKern_bind hclose]
  rfl

/-- The three file calls of a stop call that returned. -/
theorem sysRecordStop_eq_ok (hrec : m.session.recordSyscalls = 1)
    (hrun : (sysRecordStop ops).run m = .ok v m') :
    ∃ fd w c k₁ k₂,
      (myOpen ops m.session.recordFilename (oCreate ||| oRdwr)).run m.kern = .ok fd k₁ ∧
      (myWrite ops fd m.session.rg.bytes).run k₁ = .ok w k₂ ∧
      (myClose ops fd).run k₂ = .ok c m'.kern := by
  rw [sysRecordStop, EStateM.run_bind, EStateM.run_get] at hrun
  dsimp only at hrun
  rw [if_pos hrec, run_onSession_bind] at hrun
  obtain ⟨fd, k₁, hopen, hrun⟩ := onKern_bind_eq_ok hrun
  obtain ⟨w, k₂, hwrite, hrun⟩ := onKern_bind_eq_ok hrun
  obtain ⟨c, k₃, hclose, hrun⟩ := onKern_bind_eq_ok hrun
  injection hrun with _ hm
  rw [← hm]
  exact ⟨fd, w, c, k₁, k₂, hopen, hwrite, hclose⟩

/-- The file under a name can be opened and takes the bytes. -/
def Writes (ops : FsOps σ ι π) (k : Kern σ ι π) (name bytes : List Byte) : Prop :=
  ∃ fd w k₁ k₂, (myOpen ops name (oCreate ||| oRdwr)).run k = .ok fd k₁ ∧ fd ≠ -1 ∧
    (myWrite ops fd bytes).run k₁ = .ok w k₂ ∧ w ≠ -1

/-- **A stop call saves the session**, unless one of its file calls fails. -/
theorem recordStop_saves (store : FileStore ops) (hrec : m.session.recordSyscalls = 1)
    (hinv : store.Inv m.kern.fs)
    (hwrites : Writes ops m.kern m.session.recordFilename m.session.rg.bytes)
    (hrun : (sysRecordStop ops).run m = .ok v m') :
    ∃ rest, store.contents (m.kern.proc.cwd, m.session.recordFilename) m'.kern.fs
      = some (m.session.rg.bytes ++ rest) := by
  obtain ⟨fd, w, c, k₁, k₂, hopen, hwrite, hclose⟩ := sysRecordStop_eq_ok hrec hrun
  obtain ⟨fd', w', k₁', k₂', hopen', hfd, hwrite', hw⟩ := hwrites
  rw [hopen'] at hopen
  obtain ⟨rfl, rfl⟩ := EStateM.Result.ok.inj hopen
  rw [hwrite'] at hwrite
  obtain ⟨rfl, rfl⟩ := EStateM.Result.ok.inj hwrite
  have hshort : m.session.rg.bytes.length < 2 ^ 31 := by
    rw [length_group_bytes]
    decide
  exact ⟨_, (V3.overwrite_holds store (m.kern.proc.cwd, m.session.recordFilename) hshort rfl
    ⟨rfl, hinv, rfl⟩ hopen' hfd hwrite' hw hclose).contents⟩

/-- A replay start, from what the three file calls do: the name that is opened is not the one of
the argument. -/
theorem sysReplayStart_run {fd c : Word} {r : Word × List Byte}
    (hname : argstr m.kern.proc 0 = some filename)
    (hopen : (myOpen ops m.session.recordFilename (oCreate ||| oRdwr)).run m.kern = .ok fd k₁)
    (hread : (myRead ops fd (BitVec.ofNat 32 sizeofGroup)).run k₁ = .ok r k₂)
    (hclose : (myClose ops fd).run k₂ = .ok c k₃) :
    (sysReplayStart ops locals).run m = .ok 1 ⟨{ m.session with
      replayFilename := strcpy filename 255
      replaySyscalls := 1
      rg := loadGroup (overlay locals.buffer 0 r.2) 0 }, k₃⟩ := by
  rw [sysReplayStart, EStateM.run_bind, EStateM.run_get]
  dsimp only
  rw [hname]
  dsimp only
  rw [run_onSession_bind, run_onSession_bind, run_onKern_bind hopen, run_onKern_bind hread,
    run_onSession_bind, run_onKern_bind hclose]
  rfl

/-- What a replay start that returned has loaded. -/
theorem sysReplayStart_eq_ok (hname : argstr m.kern.proc 0 = some filename)
    (hrun : (sysReplayStart ops locals).run m = .ok v m') : ∃ fd r k₁ k₂,
    (myOpen ops m.session.recordFilename (oCreate ||| oRdwr)).run m.kern = .ok fd k₁ ∧
    (myRead ops fd (BitVec.ofNat 32 sizeofGroup)).run k₁ = .ok r k₂ ∧
    m'.session.rg = loadGroup (overlay locals.buffer 0 r.2) 0 := by
  rw [sysReplayStart, EStateM.run_bind, EStateM.run_get] at hrun
  dsimp only at hrun
  rw [hname] at hrun
  dsimp only at hrun
  rw [run_onSession_bind, run_onSession_bind] at hrun
  obtain ⟨fd, k₁, hopen, hrun⟩ := onKern_bind_eq_ok hrun
  obtain ⟨r, k₂, hread, hrun⟩ := onKern_bind_eq_ok hrun
  rw [run_onSession_bind] at hrun
  obtain ⟨c, k₃, -, hrun⟩ := onKern_bind_eq_ok hrun
  injection hrun with _ hm
  refine ⟨fd, r, k₁, k₂, hopen, hread, ?_⟩
  rw [← hm]

section

variable {locals : Locals} {m m' : Machine σ ι π} {filename : List Byte} {v fd : Word}
  {k₁ : Kern σ ι π} (hname : argstr m.kern.proc 0 = some filename)
  (hrun : (sysReplayStart ops locals).run m = .ok v m')
include hname hrun

/-- **What `sys_replay_start` loads**: the file that `record_filename` names. -/
theorem replayStart_group (store : FileStore ops) (hinv : store.Inv m.kern.fs)
    (hopen : (myOpen ops m.session.recordFilename (oCreate ||| oRdwr)).run m.kern = .ok fd k₁)
    (hfd : fd ≠ -1) :
    m'.session.rg = groupOf locals.buffer
      ((store.contents (m.kern.proc.cwd, m.session.recordFilename) m.kern.fs).getD []) := by
  obtain ⟨fd', r, k₁', k₂, hopen', hread, hrg⟩ := sysReplayStart_eq_ok hname hrun
  rw [hopen] at hopen'
  obtain ⟨rfl, rfl⟩ := EStateM.Result.ok.inj hopen'
  -- the file has what it had when it was opened, and is empty when it was not there
  have hbytes := V3.myRead_opened store (m.kern.proc.cwd, m.session.recordFilename) rfl
    ⟨rfl, hinv, rfl⟩ hopen hfd hread
  rw [hrg, hbytes, groupOf]
  rfl

/-- Without the file the buffer stays as it is. -/
theorem replayStart_unopened
    (hopen : (myOpen ops m.session.recordFilename (oCreate ||| oRdwr)).run m.kern = .ok (-1) k₁) :
    m'.session.rg = loadGroup locals.buffer 0 := by
  obtain ⟨fd, r, k₁', k₂, hopen', hread, hrg⟩ := sysReplayStart_eq_ok hname hrun
  rw [hopen] at hopen'
  obtain ⟨rfl, rfl⟩ := EStateM.Result.ok.inj hopen'
  have hnone : myArgfd k₁.proc (-1) = none := dif_neg (by decide)
  rw [myRead, EStateM.run_bind, EStateM.run_get] at hread
  dsimp only at hread
  rw [hnone] at hread
  obtain ⟨hr, -⟩ := EStateM.Result.ok.inj hread
  rw [hrg, ← hr, overlay_nil]

end

theorem trap_eq_ok {sc : V3.Syscall} (h : (trap ops locals sc).run m = .ok (some v) m') :
    (syscall ops locals sc).run m = .ok v m' := by
  rw [EStateM.run, trap] at h
  split at h
  case h_1 v' m₁ hcall =>
    injection h with hv hm
    rw [hcall, ← hm, Option.some.inj hv]
  case h_2 m₁ hcall =>
    obtain ⟨_, m₂, -, hpure⟩ := run_bind_eq_ok.mp h
    cases hpure
  case h_3 => cases h

/-! ## What was recorded to which file -/

/-- **A session that was recorded to a file.**  In the past of a run a stop call ends a recording
to the file, and its file calls succeed.  The file has not changed since, so this is the latest
session recorded to it.  The file is named from the directory `cwd` in the end. -/
structure RecordedTo (store : FileStore ops) (s₀ : System σ ι π)
    (past : List (Event ι × System σ ι π)) (cwd : ι) (name : List Byte) (rg : RecordGroup) where
  before : List (Event ι × System σ ι π)
  p : Proc ι
  locals : Locals
  ret : Word
  stopped : System σ ι π
  after : List (Event ι × System σ ι π)
  past_eq : past = before ++ (.trap p locals .recordStop (some ret), stopped) :: after
  recording : (last s₀ before).session.recordSyscalls = 1
  named : (last s₀ before).session.recordFilename = name
  group : (last s₀ before).session.rg = rg
  inv : store.Inv (last s₀ before).fs
  writes : Writes ops ((last s₀ before).machine p).kern name rg.bytes
  kept : store.contents (cwd, name) (last stopped after).fs
    = store.contents (p.cwd, name) stopped.fs

/-- The file still begins with the bytes of the group. -/
theorem RecordedTo.holds {store : FileStore ops} {s₀ : System σ ι π}
    {past : List (Event ι × System σ ι π)} {cwd : ι} {name : List Byte} {rg : RecordGroup}
    (R : RecordedTo store s₀ past cwd name rg) (hrun : Run ops s₀ past) :
    ∃ rest, store.contents (cwd, name) (last s₀ past).fs = some (rg.bytes ++ rest) := by
  obtain ⟨before, p, locals, ret, stopped, after, rfl, hrec, rfl, rfl, hinv, hwrites, hkept⟩ := R
  have hstep := Path.step hrun
  rw [last_append_cons, hkept]
  cases hstep with
  | trap htrap =>
    exact recordStop_saves (m := (last s₀ before).machine p) store hrec hinv hwrites
      (trap_eq_ok htrap)

/-- **Which session a replay loads.**  In a run from boot, the group `rg` is that of the latest
session recorded to a file, and a process then calls `sys_replay_start` with the name of that file.
The call opens the file of the last `sys_record_start` since boot instead.  If a session has been
recorded to that file, the global group is afterwards the one asked for if and only if that other
session has the same group, which it has when the two names are the same.  If no session has been
recorded to that file, what the file gives counts in place of it; and if it cannot be opened, as
after a reboot, what the kernel stack held. -/
theorem replay_loads_session_iff (store : FileStore ops) {s₀ s₁ : System σ ι π}
    (hboot : s₀.session = Session.boot) {past : List (Event ι × System σ ι π)} {p : Proc ι}
    {locals : Locals} {v fd : Word} {filename : List Byte} {rg : RecordGroup} {k₁ : Kern σ ι π}
    (hrun : Run ops s₀ (past ++ [(.trap p locals .replayStart (some v), s₁)]))
    (hname : argstr p 0 = some filename) (R : RecordedTo store s₀ past p.cwd filename rg)
    (hinv : store.Inv (last s₀ past).fs)
    (hopen : (myOpen ops (lastName past) (oCreate ||| oRdwr)).run ((last s₀ past).machine p).kern
      = .ok fd k₁) :
    (∀ rg', fd ≠ -1 → RecordedTo store s₀ past p.cwd (lastName past) rg' →
      (s₁.session.rg = rg ↔ rg' = rg)) ∧
    (fd ≠ -1 → lastName past = filename → s₁.session.rg = rg) ∧
    (∀ bytes, fd ≠ -1 →
      (store.contents (p.cwd, lastName past) (last s₀ past).fs).getD [] = bytes →
      (s₁.session.rg = rg ↔ groupOf locals.buffer bytes = rg)) ∧
    (fd = -1 → (s₁.session.rg = rg ↔ loadGroup locals.buffer 0 = rg)) := by
  have hpast : Run ops s₀ past := Path.of_append hrun
  -- the name that is opened is the last one a `sys_record_start` of the run has stored
  have hrecorded : (last s₀ past).session.recordFilename = lastName past := hpast.name hboot
  have hstep := Path.step hrun
  cases hstep with
  | @trap _ _ _ _ m htrap =>
    have hstart : (sysReplayStart ops locals).run ((last s₀ past).machine p) = .ok v m :=
      trap_eq_ok htrap
    rw [← hrecorded] at hopen ⊢
    have hloaded : fd ≠ -1 → m.session.rg = groupOf locals.buffer ((store.contents
        (p.cwd, (last s₀ past).session.recordFilename) (last s₀ past).fs).getD []) :=
      replayStart_group (m := (last s₀ past).machine p) hname hstart store hinv hopen
    have hholds : ∀ {name rg'}, RecordedTo store s₀ past p.cwd name rg' → groupOf locals.buffer
        ((store.contents (p.cwd, name) (last s₀ past).fs).getD []) = rg' := by
      intro name rg' R'
      obtain ⟨rest, hfile⟩ := R'.holds hpast
      rw [hfile]
      exact groupOf_bytes _ _ _
    refine ⟨fun rg' hfd R' => ?_, fun hfd hsame => ?_, fun bytes hfd hbytes => ?_, fun hfd => ?_⟩
    · rw [Machine.system, hloaded hfd, hholds R']
    · rw [Machine.system, hloaded hfd, hsame, hholds R]
    · rw [Machine.system, hloaded hfd, hbytes]
    · subst hfd
      rw [Machine.system, replayStart_unopened (m := (last s₀ past).machine p) hname hstart hopen]

end

/-! ### Two files -/

namespace TwoFiles

open NamedFiles (Disk Node Idle)

/-- A process without open files that passes a name. -/
def caller (name : List Byte) : Proc Node where
  pid := 5
  sz := 320
  sz_lt := toNat_lt_kernbase
  esp := 0
  mem := overlay (overlay (fun _ => 0) 4 (toBytes (64 : Word))) 64 name
  ofile := fun _ => none
  cwd := none
  isInit := false

/-- The system at boot, with empty files. -/
def boot : System Disk Node Unit where
  session := Session.boot
  ftable := fun _ => { type := .none, ref := 0, readable := false, writable := false, off := 0 }
  ticks := 0
  fs := fun _ => []

/-- What a call of the process does. -/
def call (name : List Byte) (sc : V3.Syscall) (eax : Word) : Event Node :=
  .trap (caller name) Locals.zero sc (some eax)

variable {s : System Disk Node Unit} {name : List Byte}

theorem step_of_ok (sc : V3.Syscall) {v : Word} {m : Machine Disk Node Unit}
    (h : (syscall NamedFiles.ops Locals.zero sc).run (s.machine (caller name)) = .ok v m) :
    Step NamedFiles.ops s (call name sc v) m.system := by
  refine .trap ?_
  rw [EStateM.run, trap, h]

/-- No file is open. -/
def Quiet (s : System Disk Node Unit) : Prop := ∀ f, (s.ftable f).ref = 0

/-- The system while a session with the group `rg` is recorded to a file. -/
def recording (s : System Disk Node Unit) (name : List Byte) (rg : RecordGroup) :
    System Disk Node Unit :=
  { s with session := { s.session with recordFilename := name, recordSyscalls := 1, rg } }

theorem start_step (hname : argstr (caller name) 0 = some name) (hshort : name.length < 255) :
    Step NamedFiles.ops s (call name .recordStart 1) (recording s name recordGroupConstructor) := by
  have hcopy : strcpy name 255 = name := List.take_of_length_le (by omega)
  have hrun := step_of_ok .recordStart (sysRecordStart_run (m := s.machine (caller name)) hname)
  rw [hcopy] at hrun
  exact hrun

/-- A stop call saves the group. -/
theorem stop_step (rg : RecordGroup) (hname : name ≠ []) (hquiet : Quiet s) : ∃ s',
    Step NamedFiles.ops (recording s name rg) (call [] .recordStop 0) s' ∧
      Writes NamedFiles.ops ((recording s name rg).machine (caller [])).kern name rg.bytes ∧
      Quiet s' ∧ s'.session.replaySyscalls = s.session.replaySyscalls ∧
      s'.fs = Function.update s.fs name (rg.bytes ++ (s.fs name).drop rg.bytes.length) := by
  have hlen := length_group_bytes rg
  have hshort : rg.bytes.length < 2 ^ 31 := by
    rw [hlen]
    decide
  have hsome : rg.bytes ≠ [] := by
    intro hnil
    rw [hnil] at hlen
    exact absurd hlen (by decide)
  have hidle : Idle ((recording s name rg).machine (caller [])).kern := ⟨fun _ => rfl, hquiet⟩
  obtain ⟨k₁, k₂, k₃, hopen, hwrite, hclose, hidle', hfs⟩ :=
    NamedFiles.save_run hname hidle hsome hshort
  have hstep := step_of_ok .recordStop (sysRecordStop_run
    (m := (recording s name rg).machine (caller [])) rfl hopen hwrite hclose)
  have hwritten : BitVec.ofNat 32 rg.bytes.length ≠ -1 := by
    rw [hlen]
    decide
  exact ⟨_, hstep, ⟨_, _, k₁, k₂, hopen, by decide, hwrite, hwritten⟩, hidle'.ref, rfl, hfs⟩

/-- A replay start loads the file of the last recording. -/
theorem replay_step {file : List Byte} (hname : argstr (caller name) 0 = some name)
    (hfile : s.session.recordFilename = file) (hsome : file ≠ []) (hquiet : Quiet s) :
    ∃ s' k₁, Step NamedFiles.ops s (call name .replayStart 1) s' ∧
      (myOpen NamedFiles.ops file (oCreate ||| oRdwr)).run (s.machine (caller name)).kern
        = .ok 0 k₁ ∧
      s'.session.rg = groupOf Locals.zero.buffer (s.fs file) := by
  subst hfile
  have hidle : Idle (s.machine (caller name)).kern := ⟨fun _ => rfl, hquiet⟩
  obtain ⟨k₁, k₂, k₃, hopen, hread, hclose, -, -⟩ := NamedFiles.load_run hsome hidle
    (BitVec.ofNat 32 sizeofGroup)
  exact ⟨_, k₁, step_of_ok .replayStart
    (sysReplayStart_run (m := s.machine (caller name)) hname hopen hread hclose), hopen, rfl⟩

/-- The record of a `getpid` of the process. -/
def pidRecord : Record :=
  (recordConstructor 11).push ⟨isOutput, intType, 5, (Locals.zero.newField 0).strVal⟩ |>.getD
    (recordConstructor 11)

/-- A recorded `getpid` appends its record. -/
theorem getpid_step {rg rg' : RecordGroup} (hreplay : s.session.replaySyscalls ≠ 1)
    (hadd : addRecord rg pidRecord = some (.valid, rg')) :
    Step NamedFiles.ops (recording s name rg) (call [] (.call .getpid) 5)
      (recording s name rg') := by
  have hrecord : (recordCall NamedFiles.ops Locals.zero 11 [] 5).run
      ((recording s name rg).machine (caller []))
      = .ok () ((recording s name rg').machine (caller [])) := by
    have hfields : (recordFields NamedFiles.ops Locals.zero (recordConstructor 11) 0
        [(Typed.int 5, isOutput)]).run ((recording s name rg).machine (caller []))
        = .ok pidRecord ((recording s name rg).machine (caller [])) := rfl
    refine (run_bind_of_ok hfields).trans ?_
    rw [EStateM.run_bind, EStateM.run_get]
    dsimp only
    rw [show ((recording s name rg).machine (caller [])).session.rg = rg from rfl, hadd]
    rfl
  refine step_of_ok (.call .getpid) (m := (recording s name rg').machine (caller [])) ?_
  show (Handler.run NamedFiles.ops Locals.zero sysGetpid).run _ = _
  rw [Handler.run]
  refine (run_bind_of_ok rfl).trans ?_
  rw [EStateM.run_bind, EStateM.run_get]
  dsimp only
  rw [if_neg (show ((recording s name rg).machine (caller [])).session.replaySyscalls ≠ 1 from hreplay)]
  exact run_bind_of_ok hrecord

/-- Groups with one and with two of these records. -/
def onePid : RecordGroup := (recordGroupConstructor.push pidRecord).getD recordGroupConstructor
def twoPids : RecordGroup := (onePid.push pidRecord).getD recordGroupConstructor

theorem addRecord_onePid : addRecord recordGroupConstructor pidRecord = some (.valid, onePid) := rfl
theorem addRecord_twoPids : addRecord onePid pidRecord = some (.valid, twoPids) := rfl
theorem size_pids : onePid.size = 1 ∧ twoPids.size = 2 := by decide

/-- What is at a name. -/
theorem contents_eq (cwd : Node) (fs : Disk) (hname : name ≠ []) :
    NamedFiles.store.contents (cwd, name) fs = some (fs name) := by
  show (some (NamedFiles.node name)).bind (NamedFiles.fileBytes fs) = _
  rw [NamedFiles.node, if_neg hname]
  rfl

/-- A session with one `getpid` is recorded to one file, until `s₃`, and then a session with two of
them to another. -/
def recordings (first second : List Byte) (s₃ s₇ : System Disk Node Unit) :
    List (Event Node × System Disk Node Unit) :=
  [(call first .recordStart 1, recording boot first recordGroupConstructor),
    (call [] (.call .getpid) 5, recording boot first onePid),
    (call [] .recordStop 0, s₃),
    (call second .recordStart 1, recording s₃ second recordGroupConstructor),
    (call [] (.call .getpid) 5, recording s₃ second onePid),
    (call [] (.call .getpid) 5, recording s₃ second twoPids),
    (call [] .recordStop 0, s₇)]

/-- The recordings are a run, after which both files hold their sessions. -/
structure TwoRecordings (first second : List Byte) (s₃ s₇ : System Disk Node Unit) where
  run : Run NamedFiles.ops boot (recordings first second s₃ s₇)
  quiet : Quiet s₇
  name : s₇.session.recordFilename = second
  atFirst : RecordedTo NamedFiles.store boot (recordings first second s₃ s₇) none first onePid
  atSecond : RecordedTo NamedFiles.store boot (recordings first second s₃ s₇) none second twoPids

theorem exists_twoRecordings (first second : List Byte)
    (hfirst : argstr (caller first) 0 = some first) (hsecond : argstr (caller second) 0 = some second)
    (hlen : first.length < 255) (hlen' : second.length < 255) (hsome : first ≠ [])
    (hsome' : second ≠ []) (hne : first ≠ second) :
    ∃ s₃ s₇, Nonempty (TwoRecordings first second s₃ s₇) := by
  have hoff : (0 : Word) ≠ 1 := by decide
  obtain ⟨s₃, hstop, hwrites, hquiet, hreplay, hfs⟩ :=
    stop_step (s := boot) onePid hsome fun _ => rfl
  have hoff' : s₃.session.replaySyscalls ≠ 1 := by
    rw [hreplay]
    exact hoff
  obtain ⟨s₇, hstop', hwrites', hquiet', -, hfs'⟩ := stop_step (s := s₃) twoPids hsome' hquiet
  refine ⟨s₃, s₇, ⟨⟨?_, hquiet', hstop'.name, ?_, ?_⟩⟩⟩
  · exact .cons (start_step hfirst hlen) (.cons (getpid_step hoff addRecord_onePid) (.cons hstop
      (.cons (start_step hsecond hlen') (.cons (getpid_step hoff' addRecord_onePid)
        (.cons (getpid_step hoff' addRecord_twoPids) (.cons hstop' .nil))))))
  · refine ⟨(recordings first second s₃ s₇).take 2, caller [], Locals.zero, 0, s₃,
      (recordings first second s₃ s₇).drop 3, rfl, rfl, rfl, rfl, trivial, hwrites, ?_⟩
    rw [contents_eq _ _ hsome, contents_eq _ _ hsome]
    show some (s₇.fs first) = some (s₃.fs first)
    rw [hfs', Function.update_of_ne hne]
  · exact ⟨(recordings first second s₃ s₇).take 6, caller [], Locals.zero, 0, s₇, [], rfl, rfl, rfl,
      rfl, trivial, hwrites', rfl⟩

end TwoFiles

open TwoFiles in
/-- Sessions are recorded to `b` and then to `a`, and a replay of `a` loads the one of `a`. -/
theorem replay_loads_session_iff_same : ∃ s₃ s₇ s₈, Nonempty (TwoRecordings [98] [97] s₃ s₇) ∧
    Run NamedFiles.ops boot (recordings [98] [97] s₃ s₇ ++ [(call [97] .replayStart 1, s₈)]) ∧
    s₈.session.rg = twoPids ∧ twoPids.size = 2 := by
  have hname : argstr (caller [97]) 0 = some [97] := by decide
  obtain ⟨s₃, s₇, ⟨T⟩⟩ := exists_twoRecordings [98] [97] (by decide) hname (by decide)
    (by decide) (by decide) (by decide) (by decide)
  have hlast : lastName (recordings [98] [97] s₃ s₇) = [97] := (T.run.name rfl).symm.trans T.name
  obtain ⟨s₈, k₁, hreplay, hopen, -⟩ := replay_step hname (T.run.name rfl) (by rw [hlast]; decide)
    T.quiet
  have hrun : Run NamedFiles.ops boot
      (recordings [98] [97] s₃ s₇ ++ [(call [97] .replayStart 1, s₈)]) :=
    T.run.append (.cons hreplay .nil)
  have hloaded := (replay_loads_session_iff NamedFiles.store rfl hrun hname T.atSecond trivial hopen).1
  have hlastSession : RecordedTo NamedFiles.store boot (recordings [98] [97] s₃ s₇) none
      (lastName (recordings [98] [97] s₃ s₇)) twoPids := by
    rw [hlast]
    exact T.atSecond
  exact ⟨s₃, s₇, s₈, ⟨T⟩, hrun, (hloaded twoPids (by decide) hlastSession).mpr rfl, size_pids.2⟩

open TwoFiles in
/-- **The last recording is loaded, not the named one.**  A session with one `getpid` is recorded to
`a`, then a session with two of them to `b`.  A replay of `a` loads the session of `b`. -/
theorem replay_loads_last_recording : ∃ s₃ s₇ s₈, Nonempty (TwoRecordings [97] [98] s₃ s₇) ∧
    Run NamedFiles.ops boot (recordings [97] [98] s₃ s₇ ++ [(call [97] .replayStart 1, s₈)]) ∧
    s₈.session.rg = twoPids ∧ onePid.size = 1 ∧ twoPids.size = 2 := by
  have hname : argstr (caller [97]) 0 = some [97] := by decide
  obtain ⟨s₃, s₇, ⟨T⟩⟩ := exists_twoRecordings [97] [98] hname (by decide) (by decide)
    (by decide) (by decide) (by decide) (by decide)
  obtain ⟨s₈, k₁, hreplay, -, hloaded⟩ := replay_step hname T.name (by decide) T.quiet
  obtain ⟨rest, hrest⟩ := T.atSecond.holds T.run
  rw [contents_eq _ _ (by decide)] at hrest
  refine ⟨s₃, s₇, s₈, ⟨T⟩, T.run.append (.cons hreplay .nil), ?_, size_pids⟩
  have hfile : s₇.fs [98] = twoPids.bytes ++ rest := Option.some.inj hrest
  rw [hloaded, hfile]
  exact groupOf_bytes _ _ _

end V1
