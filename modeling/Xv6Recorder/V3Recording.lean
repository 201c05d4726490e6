/-
# Recording is transparent

Within the limits, the record branch of a handler does to the kernel exactly what
its original branch does, returns the same value, and appends one record that holds
the inputs and the outputs of the call.
-/
import Xv6Recorder.OneFile
import Xv6Recorder.V3Calls

open Bytes StateError Xv6

namespace V3

variable {σ ι π : Type}

/-- The recorder's state with one more record in the log. -/
def Core.append (c : Core) (scr : SCR) : Core :=
  { c with session := { c.session with
      recordedScrs := Function.update c.session.recordedScrs c.session.scrsIdx scr
      scrsIdx := c.session.scrsIdx + 1 } }

theorem addSRC_eq_append (scr : SCR) (c : Core) (h : c.session.scrsIdx < maxScrs) :
    addSRC scr c = c.append scr := by
  rw [addSRC, if_neg (by omega)]
  rfl

/-- The record branch is taken. -/
theorem Handler.run_recording (h : Handler σ ι π) (frame : Frame) (m : Machine σ ι π)
    (hrec : isRecording m.core.session m.kern.proc.pid = true)
    (hrep : isReplaying m.core.session m.kern.proc.pid = false) :
    (h.run frame).run m = (h.recordBranch frame).run m := by
  rw [Handler.run, EStateM.run_bind, EStateM.run_get]
  simp only [hrep, hrec, if_true, Bool.false_eq_true, if_false]

/-- The original branch is taken. -/
theorem Handler.run_idle (h : Handler σ ι π) (frame : Frame) (m : Machine σ ι π)
    (hrec : isRecording m.core.session m.kern.proc.pid = false)
    (hrep : isReplaying m.core.session m.kern.proc.pid = false) :
    (h.run frame).run m = (onKern h.original).run m := by
  rw [Handler.run, EStateM.run_bind, EStateM.run_get]
  simp only [hrep, hrec, Bool.false_eq_true, if_false]

section

variable (ops : FsOps σ ι π) (k : Kind) (frame : Frame) (m : Machine σ ι π)
  {ins : List FieldValue}

/-- The record of a call, before the call runs. -/
theorem addInputs_call (hfetch : k.Fetches m.kern.proc ins) :
    ∃ scr, (addInputs (handler ops k).inputs (createSCR (handler ops k).number) :
        SysM σ ι π SCR).run m = .ok scr m ∧ scr.Holds ⟨k.number, ins⟩ := by
  rw [handler_inputs, handler_number]
  have hlen : k.inputs.length ≤ maxArgc := by cases k <;> decide
  exact addInputs_run k.inputs (createSCR_holds k.number) (by simpa using hlen) m hfetch.inputs
    hfetch.wf

variable (hrec : isRecording m.core.session m.kern.proc.pid = true)
  (hrep : isReplaying m.core.session m.kern.proc.pid = false)
  (hlim : k.InLimits m.kern.proc ins)
include hrec hrep hlim

variable {kern' : Kern σ ι π}

/-- A recorded call whose kernel code returns hands its record to the log. -/
theorem record_call_run {ret : Word} (horig : (handler ops k).original.run m.kern = .ok ret kern') :
    ∃ scr, ((handler ops k).run frame).run m = .ok ret ⟨addSRC scr m.core, kern'⟩ ∧
      scr.Holds ⟨k.number, ins ++ k.outputs m.kern.proc kern'.proc.mem ret⟩ := by
  obtain ⟨scr₁, hadd, hholds₁⟩ := addInputs_call ops k m hlim.toFetches
  obtain ⟨scr, hrecord, hholds⟩ := (handler_recordsAs ops k m hlim scr₁ hholds₁).1 ret kern' horig
  refine ⟨scr, ?_, hholds⟩
  have hlog : (onCore (modify (addSRC scr)) : SysM σ ι π Unit).run { m with kern := kern' }
      = .ok () ⟨addSRC scr m.core, kern'⟩ := rfl
  rw [Handler.run_recording _ frame m hrec hrep, Handler.recordBranch, run_bind_of_ok hadd,
    run_bind_of_ok hrecord, run_bind_of_ok hlog, EStateM.run_pure,
    firstOutput_eq hholds (fetchInputs_length hlim.inputs) (outputs_head k _ _ _) frame]

/-- With room in the log, the record is appended. -/
theorem record_call_ok {ret : Word} (horig : (handler ops k).original.run m.kern = .ok ret kern')
    (hidx : m.core.session.scrsIdx < maxScrs) :
    ∃ scr, ((handler ops k).run frame).run m = .ok ret ⟨m.core.append scr, kern'⟩ ∧
      scr.Holds ⟨k.number, ins ++ k.outputs m.kern.proc kern'.proc.mem ret⟩ := by
  obtain ⟨scr, hrun, hholds⟩ := record_call_run ops k frame m hrec hrep hlim horig
  rw [addSRC_eq_append scr m.core hidx] at hrun
  exact ⟨scr, hrun, hholds⟩

/-- A full log ends the recording. -/
theorem record_call_full {ret : Word} (horig : (handler ops k).original.run m.kern = .ok ret kern')
    (hidx : (maxScrs : ℤ) ≤ m.core.session.scrsIdx) :
    ((handler ops k).run frame).run m = .ok ret ⟨recRepErr m.core, kern'⟩ := by
  obtain ⟨scr, hrun, -⟩ := record_call_run ops k frame m hrec hrep hlim horig
  rwa [addSRC, if_pos hidx] at hrun

/-- A recorded call whose kernel code panics. -/
theorem record_call_panic {msg : String}
    (horig : (handler ops k).original.run m.kern = .error msg kern') :
    ((handler ops k).run frame).run m = .error (.panic msg) ⟨m.core, kern'⟩ := by
  obtain ⟨scr₁, hadd, hholds₁⟩ := addInputs_call ops k m hlim.toFetches
  rw [Handler.run_recording _ frame m hrec hrep, Handler.recordBranch, run_bind_of_ok hadd,
    run_bind_of_error ((handler_recordsAs ops k m hlim scr₁ hholds₁).2 msg kern' horig)]

end

/-- **Recording is transparent.**  For a caller that is recording and a call within
the limits, the handler ends as its original code ends from the same kernel state:
with the same value and the same kernel state, and one record appended that holds
the inputs and then the outputs of the call; or with the same panic. -/
theorem recording_is_transparent (ops : FsOps σ ι π) (k : Kind) (frame : Frame)
    (m : Machine σ ι π) (ins : List FieldValue)
    (hrec : isRecording m.core.session m.kern.proc.pid = true)
    (hrep : isReplaying m.core.session m.kern.proc.pid = false)
    (hidx : m.core.session.scrsIdx < maxScrs) (hlim : k.InLimits m.kern.proc ins) :
    match (handler ops k).original.run m.kern with
    | .ok ret kern' =>
      ∃ scr : SCR, ((handler ops k).run frame).run m = .ok ret
          { core := { m.core with session := { m.core.session with
              recordedScrs :=
                Function.update m.core.session.recordedScrs m.core.session.scrsIdx scr
              scrsIdx := m.core.session.scrsIdx + 1 } }
            kern := kern' } ∧
        scr.Holds ⟨k.number, ins ++ k.outputs m.kern.proc kern'.proc.mem ret⟩
    | .error msg kern' =>
      ((handler ops k).run frame).run m = .error (.panic msg) { m with kern := kern' } := by
  cases horig : (handler ops k).original.run m.kern with
  | ok ret kern' => exact record_call_ok ops k frame m hrec hrep hlim horig hidx
  | error msg kern' => exact record_call_panic ops k frame m hrec hrep hlim horig

/-- A kernel stack full of zeros. -/
def Frame.zero : Frame := ⟨fun _ => ⟨noneType, fun _ => 0⟩, 0⟩

/-- A process with pid `5` that is recording and reads two bytes from descriptor `3`
into address `64`. -/
def readingMachine : Machine (List Byte) Unit Unit where
  core := ⟨{ Session.boot with recordSyscalls := 1, rrPid := 5 }, false⟩
  kern := OneFile.kern 5 [3, 64, 2] [] [104, 105, 33]

theorem readingMachine_inLimits :
    Kind.read.InLimits readingMachine.kern.proc [.int 3, .int 2] where
  inputs := by decide
  wf := by decide
  read := fun _ => by decide
  fstat := fun h => by cases h
  fd_open := fun _ => by decide
  size_le := by
    intro _ n hn
    rw [show argint readingMachine.kern.proc 2 = some 2 by decide] at hn
    obtain rfl := Option.some.inj hn
    decide

theorem recording_is_transparent_read :
    ∃ scr kern', ((handler OneFile.ops .read).run Frame.zero).run readingMachine
        = .ok 2 ⟨readingMachine.core.append scr, kern'⟩ ∧
      kern'.proc.mem 64 = 104 ∧ kern'.proc.mem 65 = 105 ∧
      scr.Holds ⟨SYS.read, [.int 3, .int 2, .int 2, .raw [104, 105]]⟩ := by
  have h := recording_is_transparent OneFile.ops .read Frame.zero readingMachine [.int 3, .int 2]
    (by decide) (by decide) (by decide) readingMachine_inLimits
  obtain ⟨kern', horig, h64, h65, hout⟩ : ∃ kern',
      (handler OneFile.ops .read).original.run readingMachine.kern = .ok 2 kern' ∧
      kern'.proc.mem 64 = 104 ∧ kern'.proc.mem 65 = 105 ∧
      Kind.read.outputs readingMachine.kern.proc kern'.proc.mem 2
        = [.int 2, .raw [104, 105]] := ⟨_, rfl, by decide, by decide, by decide⟩
  rw [horig] at h
  obtain ⟨scr, hrun, hholds⟩ := h
  rw [hout] at hholds
  exact ⟨scr, kern', hrun, h64, h65, hholds⟩

end V3
