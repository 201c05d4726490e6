/-
# Only the start calls start a session

Every other program of the recorder leaves the owner of the session alone and
never turns a mode on: it moves the session along the preorder `Session.NoStart`.
The proofs follow the program text, one rule per construct.
-/
import Xv6Recorder.V3CodecFrame
import Xv6Recorder.V3Session

open Bytes StateError Xv6

namespace V3

/-- The owner stays, and no mode is on that was not on before. -/
structure Session.NoStart (s s' : Session) : Prop where
  rrPid_eq : s'.rrPid = s.rrPid
  record : s'.recordSyscalls = 1 → s.recordSyscalls = 1
  replay : s'.replaySyscalls = 1 → s.replaySyscalls = 1

theorem Session.NoStart.refl (s : Session) : s.NoStart s := ⟨rfl, id, id⟩

theorem Session.NoStart.trans {s₁ s₂ s₃ : Session} (h : s₁.NoStart s₂) (h' : s₂.NoStart s₃) :
    s₁.NoStart s₃ :=
  ⟨h'.rrPid_eq.trans h.rrPid_eq, h.record ∘ h'.record, h.replay ∘ h'.replay⟩

/-- `NoStart` for the state of the recorder, which holds the session. -/
def Core.NoStart (c c' : Core) : Prop := c.session.NoStart c'.session

instance : IsPreorder Core Core.NoStart where
  refl c := Session.NoStart.refl c.session
  trans _ _ _ := Session.NoStart.trans

/-- A record flag that is not `1` turns no mode on. -/
theorem noStart_setRecord (s : Session) {v : Word} (hv : v ≠ 1) :
    s.NoStart { s with recordSyscalls := v } :=
  ⟨rfl, fun h => absurd h hv, id⟩

/-- Nor does a replay flag that is not `1`. -/
theorem noStart_setReplay (s : Session) {v : Word} (hv : v ≠ 1) :
    s.NoStart { s with replaySyscalls := v } :=
  ⟨rfl, id, fun h => absurd h hv⟩

/-! ## The codec -/

/-- The error helper sets both flags to `-1`. -/
theorem recRepErr_noStart (c : Core) : c.NoStart (recRepErr c) :=
  (noStart_setReplay c.session (by decide)).trans (noStart_setRecord _ (by decide))

/-- The single steps of the codec start no session; of the programs built from them this is then
`CodecSteps`. -/
theorem noStart_steps : CodecSteps Core.NoStart where
  move obj cap size c := by
    simp only [EStateM.run, memmoveAndIncrement]
    split
    · exact refl c
    · exact ⟨rfl, id, id⟩
  err := recRepErr_noStart
  log _ _ := ⟨rfl, id, id⟩

/-- The encoder may set the record count besides. -/
theorem keeps_packScrs : Keeps Core.NoStart packScrs :=
  noStart_steps.packScrs (fun _ _ => ⟨rfl, id, id⟩) fun _ => ⟨rfl, id, id⟩

/-- So may the decoder, which resets it once the file is decoded. -/
theorem keeps_unpackScrs (fileSize : ℤ) : Keeps Core.NoStart (unpackScrs fileSize) :=
  noStart_steps.unpackScrs (fun _ _ => ⟨rfl, id, id⟩) fileSize

/-! ## The record of a call -/

/-- A full record runs the error helper. -/
theorem keeps_pushArg (scr : SCR) (arg : Arg) : Keeps Core.NoStart (pushArg scr arg) := by
  intro c
  simp only [EStateM.run, pushArg]
  split
  · exact refl c
  · exact recRepErr_noStart c

theorem keeps_addStr (scr : SCR) (s : List Byte) : Keeps Core.NoStart (addStr scr s) := by
  intro c
  simp only [EStateM.run, addStr]
  split
  · exact recRepErr_noStart c
  · exact keeps_pushArg _ _ c

/-- Too many bytes run the error helper first; in both error cases the copy is out of bounds. -/
theorem keeps_addRaw (scr : SCR) (src : Memory) (size : Word) :
    Keeps Core.NoStart (addRaw scr src size) := by
  intro c
  simp only [EStateM.run, addRaw]
  split
  · exact recRepErr_noStart c
  · split
    · exact refl c
    · exact keeps_pushArg _ _ c

/-- A full log stops the session. -/
theorem addSRC_noStart (scr : SCR) (c : Core) : c.NoStart (addSRC scr c) := by
  unfold addSRC
  split
  · exact recRepErr_noStart c
  · exact ⟨rfl, id, id⟩

/-- The comparator moves the log position, and rejects through the error helper. -/
theorem compareSCRS_noStart (scr : SCR) (c : Core) : c.NoStart (compareSCRS scr c).2 := by
  have hadvance : c.NoStart { c with session := { c.session with
      scrsIdx := c.session.scrsIdx + 1 } } := ⟨rfl, id, id⟩
  have hreject := IsTrans.trans _ _ _ hadvance (recRepErr_noStart _)
  simp only [compareSCRS]
  split
  · exact recRepErr_noStart c
  split
  · exact hreject
  split
  · exact hreject
  split
  · exact hadvance
  · exact hreject

/-! ## System calls -/

section

variable {σ ι π α : Type}

/-- `NoStart` for the machine; the kernel is free to move. -/
def Machine.NoStart (m m' : Machine σ ι π) : Prop := m.core.session.NoStart m'.core.session

instance : IsPreorder (Machine σ ι π) Machine.NoStart where
  refl m := Session.NoStart.refl m.core.session
  trans _ _ _ := Session.NoStart.trans

/-- Kernel code does not touch the session. -/
theorem keeps_onKern (x : KM σ ι π α) : Keeps Machine.NoStart (onKern x) :=
  Keeps.zoom (Q := fun _ _ => True) (fun _ => trivial) fun _ _ _ => Session.NoStart.refl _

/-- A program of the recorder, run as a part of a system call. -/
theorem keeps_onCore {x : RecM α} (hx : Keeps Core.NoStart x) :
    Keeps Machine.NoStart (onCore x : SysM σ ι π α) :=
  hx.zoom fun _ _ h => h

theorem keeps_recRepErr : Keeps Machine.NoStart (onCore (modify recRepErr) : SysM σ ι π Unit) :=
  keeps_onCore (.modify recRepErr_noStart)

/-- An assignment to fields of the session. -/
theorem keeps_onSession {f : Session → Session} (hf : ∀ s, Session.NoStart s (f s)) :
    Keeps Machine.NoStart (onSession f : SysM σ ι π Unit) :=
  keeps_onCore (.modify fun c => hf c.session)

/-- An argument that cannot be fetched is recorded after the error helper has run. -/
theorem keeps_inputAdd (scr : SCR) (input : Input) :
    Keeps Machine.NoStart (input.add scr : SysM σ ι π SCR) := by
  cases input with
  | int pos =>
    refine (Keeps.get.bind fun m => ?_).bind fun val => keeps_onCore (keeps_pushArg _ _)
    cases argint m.kern.proc pos with
    | some val => exact .pure _
    | none => exact keeps_recRepErr.bind fun _ => .pure _
  | str pos =>
    refine (Keeps.get.bind fun m => ?_).bind fun val => keeps_onCore (keeps_addStr _ _)
    cases argstr m.kern.proc pos with
    | some val => exact .pure _
    | none => exact keeps_recRepErr.bind fun _ => .pure _

/-- By induction on the inputs that are still to be recorded. -/
theorem keeps_addInputs (inputs : List Input) (scr : SCR) :
    Keeps Machine.NoStart (addInputs inputs scr : SysM σ ι π SCR) := by
  induction inputs generalizing scr with
  | nil => exact .pure _
  | cons input inputs ih => exact (keeps_inputAdd _ _).bind fun scr => ih scr

theorem keeps_compare (scr : SCR) : Keeps Machine.NoStart (compare scr : SysM σ ι π SCR) :=
  keeps_onCore fun c => compareSCRS_noStart scr c

/-- The replay of `read` and `fstat` stores to user memory, that of the others only answers. -/
theorem keeps_replay (ops : FsOps σ ι π) (k : Kind) (frame : Frame) (recorded : SCR) :
    Keeps Machine.NoStart ((handler ops k).replay frame recorded) := by
  cases k with
  | read =>
    refine Keeps.get.bind fun m => ?_
    split
    · exact keeps_recRepErr.bind fun _ => .pure _
    · exact (keeps_onKern _).bind fun _ => .pure _
  | fstat =>
    refine Keeps.get.bind fun m => ?_
    split
    · exact keeps_recRepErr.bind fun _ => .pure _
    · exact (keeps_onKern _).bind fun _ => .pure _
  | _ => exact .pure _

/-- The recording of a call: its original, then the output into the record. -/
theorem keeps_record (ops : FsOps σ ι π) (k : Kind) (scr : SCR) :
    Keeps Machine.NoStart ((handler ops k).record scr) := by
  cases k with
  | uptime => exact Keeps.get.bind fun m => keeps_onCore (keeps_pushArg _ _)
  | read =>
    refine (keeps_onKern _).bind fun r => (keeps_onCore (keeps_pushArg _ _)).bind fun scr => ?_
    split
    · exact .throw _
    · exact Keeps.get.bind fun m => keeps_onCore (keeps_addRaw _ _ _)
  | fstat =>
    refine (keeps_onKern _).bind fun r => (keeps_onCore (keeps_pushArg _ _)).bind fun scr => ?_
    split
    · exact .throw _
    · exact Keeps.get.bind fun m => keeps_onCore (keeps_pushArg _ _)
  | _ => exact (keeps_onKern _).bind fun output => keeps_onCore (keeps_pushArg _ _)

/-- **A recorded call** starts no session, in either mode or in none. -/
theorem keeps_handler (ops : FsOps σ ι π) (k : Kind) (frame : Frame) :
    Keeps Machine.NoStart ((handler ops k).run frame) := by
  refine Keeps.get.bind fun m => .ite ?_ (.ite ?_ (keeps_onKern _))
  · exact (keeps_addInputs _ _).bind fun scr => (keeps_compare _).bind fun recorded =>
      keeps_replay ops k frame recorded
  · exact (keeps_addInputs _ _).bind fun scr => (keeps_record ops k scr).bind fun scr =>
      (keeps_onCore (.modify (addSRC_noStart scr))).bind fun _ => .pure _

/-- A save that fails has the record flag at `-1`. -/
theorem keeps_recordFail : Keeps Machine.NoStart (recordFail : SysM σ ι π Word) :=
  (keeps_onSession fun s => noStart_setRecord s (by decide)).bind fun _ =>
    keeps_recRepErr.bind fun _ => Keeps.get.bind fun _ => .pure _

theorem keeps_saveSession (ops : FsOps σ ι π) : Keeps Machine.NoStart (saveSession ops) :=
  Keeps.get.bind fun _ => (keeps_onKern _).bind fun _ => .ite keeps_recordFail <|
    (keeps_onKern _).bind fun _ => .ite keeps_recordFail <|
      (keeps_onKern _).bind fun _ => .ite keeps_recordFail <| Keeps.get.bind fun _ => .pure _

/-- The flag is `0` before the file is opened, so a stop does not start what it ends. -/
theorem keeps_sysRecordStop (ops : FsOps σ ι π) : Keeps Machine.NoStart (sysRecordStop ops) := by
  refine Keeps.get.bind fun m => .ite ?_ (.pure _)
  refine (keeps_onCore keeps_packScrs).bind fun ok => .ite ?_ (keeps_recRepErr.bind fun _ => .pure _)
  exact (keeps_onSession fun s => noStart_setRecord s (by decide)).bind fun _ =>
    keeps_saveSession ops

theorem keeps_sysReplayStop : Keeps Machine.NoStart (sysReplayStop : SysM σ ι π Word) := by
  refine Keeps.get.bind fun m => ?_
  split
  · exact (keeps_onSession fun s => noStart_setReplay s (by decide)).bind fun _ =>
      Keeps.get.bind fun _ => .pure _
  · exact Keeps.get.bind fun _ => .pure _

/-- `exit` stops both modes and then runs kernel code. -/
theorem keeps_sysExit (ops : FsOps σ ι π) : Keeps Machine.NoStart (sysExit ops) :=
  keeps_sysReplayStop.bind fun _ => (keeps_sysRecordStop ops).bind fun _ => keeps_onKern _

/-- **No other system call starts a session.** -/
theorem keeps_syscall (ops : FsOps σ ι π) (frame : Frame) (sc : Syscall)
    (hsc : sc.isStart = false) : Keeps Machine.NoStart (syscall ops frame sc) := by
  cases sc with
  | call kind => exact (keeps_handler ops kind frame).bind fun _ => .pure _
  | recordStop => exact (keeps_sysRecordStop ops).bind fun _ => .pure _
  | replayStop => exact keeps_sysReplayStop.bind fun _ => .pure _
  | exit => exact (keeps_sysExit ops).bind fun _ => .pure _
  | recordStart => simp [Syscall.isStart] at hsc
  | replayStart => simp [Syscall.isStart] at hsc

/-- The trap around a system call adds nothing to what it does to the session. -/
theorem keeps_trap {R : Machine σ ι π → Machine σ ι π → Prop} [IsPreorder (Machine σ ι π) R]
    (ops : FsOps σ ι π) (frame : Frame) (sc : Syscall)
    (hkern : Keeps R (onKern (exit ops))) (hsc : Keeps R (syscall ops frame sc)) :
    Keeps R (trap ops frame sc) := by
  refine Keeps.get.bind fun m => .ite (hkern.bind fun _ => .pure _) (hsc.bind fun r => ?_)
  cases r with
  | none => exact .pure _
  | some eax =>
    exact Keeps.get.bind fun m => .ite (hkern.bind fun _ => .pure _) (.pure _)

end

end V3
