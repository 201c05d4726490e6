/-
# Calls outside a session of the first recorder

With both flags off, `read` and `open` still capture a text before anything else: the caller's
buffer up to its first zero byte, respectively the path.  When the text fits into a
`struct String`, the call is the original one.  When it does not, `errorHandling` ends the
process, and when the scan of the buffer meets no zero byte, the kernel faults.
-/
import Xv6Recorder.OneFile
import Xv6Recorder.V1Handlers
import Xv6Recorder.V3Calls

open Bytes StateError Xv6

namespace V1

section

variable {σ ι π : Type} {ops : FsOps σ ι π} {locals : Locals} {m : Machine σ ι π}

/-! ## Capturing -/

theorem convertToStr_fits {text : List Byte} (h : text.length ≤ strMaxSize) :
    (convertToStr text).1 = .valid := by
  rw [convertToStr, if_neg (by omega)]

theorem convertToStr_long {text : List Byte} (h : strMaxSize < text.length) :
    (convertToStr text).1 ≠ .valid := by
  rw [convertToStr, if_pos h]
  decide

/-- A text that fits is captured, whatever the flags. -/
theorem capture_fits {text : List Byte} (h : text.length ≤ strMaxSize) :
    (capture ops text).run m = .ok (.str (convertToStr text).2) m := by
  rw [capture, errorHandling, if_pos (convertToStr_fits h)]
  rfl

section

variable (hrec : m.session.recordSyscalls ≠ 1) (hrep : m.session.replaySyscalls ≠ 1)
include hrec hrep

/-- Outside a session the two stop calls do nothing. -/
theorem sysExit_idle {α : Type} : (sysExit ops : SysM σ ι π α).run m = .error .exited m := by
  have hreplay : (sysReplayStop : SysM σ ι π Word).run m = .ok m.session.replaySyscalls m := by
    rw [sysReplayStop, EStateM.run_bind, EStateM.run_get]
    dsimp only
    rw [if_neg hrep]
    rfl
  have hrecord : (sysRecordStop ops).run m = .ok m.session.recordSyscalls m := by
    rw [sysRecordStop, EStateM.run_bind, EStateM.run_get]
    dsimp only
    rw [if_neg hrec]
    rfl
  rw [sysExit, run_bind_of_ok hreplay, run_bind_of_ok hrecord]
  rfl

/-- A text that does not fit ends the process. -/
theorem capture_long {text : List Byte} (h : strMaxSize < text.length) :
    (capture ops text).run m = .error .exited m := by
  rw [capture, errorHandling, if_neg (convertToStr_long h)]
  exact run_bind_of_error (sysExit_idle hrec hrep)

/-- Outside a session a handler is its original code, once its inputs are captured. -/
theorem Handler.run_idle {h : Handler σ ι π} {inputs : List Typed}
    (hinputs : h.inputs.run m = .ok inputs m) :
    (h.run ops locals).run m = (onKern h.original).run m := by
  rw [Handler.run, run_bind_of_ok hinputs, EStateM.run_bind, EStateM.run_get]
  dsimp only
  rw [if_neg hrep]
  cases horig : (onKern h.original).run m with
  | error e m' => exact run_bind_of_error horig
  | ok output m' =>
    rw [run_bind_of_ok horig]
    obtain ⟨k', -, rfl⟩ := run_zoom_eq_ok.mp horig
    rw [EStateM.run_bind, EStateM.run_get]
    dsimp only
    rw [if_neg hrec]
    rfl

end

/-- Kernel code does not exit and does not fault. -/
theorem onKern_panics {α : Type} {x : KM σ ι π α} {e : Halt} {m' : Machine σ ι π}
    (h : (onKern x).run m = .error e m') : ∃ msg, e = .panic msg := by
  rw [onKern, run_zoom] at h
  split at h
  · cases h
  · injection h with he _
    exact ⟨_, he.symm⟩

/-! ## The original code -/

/-- The descriptor has been fetched when the file behind it has. -/
theorem readOriginal_eq (ops : FsOps σ ι π) : readOriginal ops = V3.readOriginal ops := by
  funext k
  show (readOriginal ops).run k = (V3.readOriginal ops).run k
  rw [readOriginal, V3.readOriginal, EStateM.run_bind, EStateM.run_get, EStateM.run_bind,
    EStateM.run_get]
  dsimp only
  cases hfd : argint k.proc 0 with
  | some fd => cases argfd k.proc 0 <;> cases argint k.proc 2 <;> rfl
  | none =>
    have hfile : argfd k.proc 0 = none := by
      rw [argfd, hfd]
    rw [hfile]

/-! ## The two calls -/

theorem captureAt_run (ops : FsOps σ ι π) (m : Machine σ ι π) (p : Word) :
    (captureAt ops p).run m = (match textAt m.kern.proc p with
      | none => throw .fault
      | some text => capture ops text : SysM σ ι π Typed).run m := by
  unfold captureAt
  exact run_bind_of_ok (EStateM.run_get m)

/-- The inputs of a `read` whose pointer is accepted. -/
theorem sysRead_inputs (ops : FsOps σ ι π) (locals : Locals) {n p : Word}
    (hn : argint m.kern.proc 2 = some n) (hp : argptr m.kern.proc 1 n = some p) :
    (sysRead ops locals).inputs.run m = ((captureAt ops p).bind fun text =>
      pure [.int ((argint m.kern.proc 0).getD (-1)), text, .int n]).run m := by
  rw [sysRead, EStateM.run_bind, EStateM.run_get]
  simp only [hn, Option.getD_some, hp]
  rfl

/-- A `read` stops where the capture of its buffer stops. -/
theorem sysRead_stops (ops : FsOps σ ι π) (locals : Locals) {n p : Word} {e : Halt}
    (hn : argint m.kern.proc 2 = some n) (hp : argptr m.kern.proc 1 n = some p)
    (herror : (captureAt ops p).run m = .error e m) :
    (sysCall ops locals .read).run m = .error e m :=
  run_bind_of_error ((sysRead_inputs ops locals hn hp).trans (run_bind_of_error herror))

section

variable (ops locals) (hrec : m.session.recordSyscalls ≠ 1) (hrep : m.session.replaySyscalls ≠ 1)
include hrec hrep

/-- A `read` into a buffer that holds a text that does not fit. -/
theorem read_idle_exits {n p : Word} {text : List Byte} (hn : argint m.kern.proc 2 = some n)
    (hp : argptr m.kern.proc 1 n = some p) (htext : textAt m.kern.proc p = some text)
    (hlong : strMaxSize < text.length) :
    (sysCall ops locals .read).run m = .error .exited m := by
  refine sysRead_stops ops locals hn hp ?_
  rw [captureAt_run, htext]
  exact capture_long hrec hrep hlong

/-- **`read` outside a session.** -/
theorem read_idle_iff {n p : Word} (hn : argint m.kern.proc 2 = some n)
    (hp : argptr m.kern.proc 1 n = some p) :
    (sysCall ops locals .read).run m = (onKern (V3.readOriginal ops)).run m ↔
      ∃ text, textAt m.kern.proc p = some text ∧ text.length ≤ strMaxSize := by
  constructor
  · intro hsame
    cases htext : textAt m.kern.proc p with
    | none =>
      have hfault : (captureAt ops p).run m = .error .fault m := by
        rw [captureAt_run, htext]
        rfl
      rw [sysRead_stops ops locals hn hp hfault] at hsame
      obtain ⟨msg, hpanic⟩ := onKern_panics hsame.symm
      cases hpanic
    | some text =>
      refine ⟨text, rfl, ?_⟩
      by_contra hlong
      rw [read_idle_exits ops locals hrec hrep hn hp htext (by omega)] at hsame
      obtain ⟨msg, hpanic⟩ := onKern_panics hsame.symm
      cases hpanic
  · rintro ⟨text, htext, hfits⟩
    have hcaptured : (captureAt ops p).run m = .ok (.str (convertToStr text).2) m := by
      rw [captureAt_run, htext]
      exact capture_fits hfits
    have hinputs := (sysRead_inputs ops locals hn hp).trans (run_bind_of_ok hcaptured)
    rw [sysCall, Handler.run_idle hrec hrep (hinputs.trans rfl), ← readOriginal_eq]
    rfl

/-- **`open` outside a session.** -/
theorem open_idle_iff {path : List Byte} (hpath : argstr m.kern.proc 0 = some path) :
    (sysCall ops locals .open).run m = (onKern (V3.openOriginal ops)).run m ↔
      path.length ≤ strMaxSize := by
  have hinputs : (sysOpen ops).inputs.run m = ((capture ops path).bind fun text =>
      pure [text, .int ((argint m.kern.proc 1).getD 0)]).run m := by
    rw [sysOpen, EStateM.run_bind, EStateM.run_get]
    simp only [hpath, Option.getD_some]
    rfl
  constructor
  · intro hsame
    by_contra hlong
    have hexit : (sysCall ops locals .open).run m = .error .exited m :=
      run_bind_of_error (hinputs.trans
        (run_bind_of_error (capture_long hrec hrep (by omega))))
    rw [hexit] at hsame
    obtain ⟨msg, hpanic⟩ := onKern_panics hsame.symm
    cases hpanic
  · intro hfits
    have hcaptured := hinputs.trans (run_bind_of_ok (capture_fits hfits))
    rw [sysCall, Handler.run_idle hrec hrep (hcaptured.trans rfl)]
    rfl

end

end

/-- A text that stands in memory with its NUL. -/
theorem textAt_of_stands {ι : Type} {p : Proc ι} {addr : Word} {text : List Byte}
    (h : Stands p.mem addr.toNat (text ++ [0])) (hzero : 0 ∉ text)
    (hmapped : addr.toNat + text.length < pgroundup p.sz) : textAt p addr = some text := by
  have hsplit : pgroundup p.sz - addr.toNat
      = (text ++ [0]).length + (pgroundup p.sz - addr.toNat - (text ++ [0]).length) := by
    rw [List.length_append, List.length_singleton]
    omega
  rw [textAt, hsplit, slice_add, h]
  have hnonzero : ∀ b ∈ text, (b != 0) = true := fun b hb =>
    bne_iff_ne.mpr fun hb0 => hzero (hb0 ▸ hb)
  rw [if_pos (by simp), List.append_assoc, List.takeWhile_append_of_pos hnonzero]
  simp

/-- **No session, no change.**  With neither flag set, a `read` whose arguments are fetched is the
unmodified one if and only if the buffer holds a text of at most `STR_MAX_SIZE` bytes before its
first zero byte, and an `open` if and only if the path has at most `STR_MAX_SIZE` bytes.  The
unmodified calls never end the process. -/
theorem no_session_no_change_iff {σ ι π : Type} (ops : FsOps σ ι π) (locals : Locals)
    (m : Machine σ ι π) (hrec : m.session.recordSyscalls ≠ 1)
    (hrep : m.session.replaySyscalls ≠ 1) :
    (∀ fd n p, argint m.kern.proc 0 = some fd → argint m.kern.proc 2 = some n →
      argptr m.kern.proc 1 n = some p →
      ((sysCall ops locals .read).run m = (onKern (V3.readOriginal ops)).run m ↔
        ∃ text, textAt m.kern.proc p = some text ∧ text.length ≤ strMaxSize)) ∧
    (∀ path omode, argstr m.kern.proc 0 = some path → argint m.kern.proc 1 = some omode →
      ((sysCall ops locals .open).run m = (onKern (V3.openOriginal ops)).run m ↔
        path.length ≤ strMaxSize)) ∧
    ∀ m', (onKern (V3.readOriginal ops)).run m ≠ .error .exited m' ∧
      (onKern (V3.openOriginal ops)).run m ≠ .error .exited m' := by
  refine ⟨fun _ n p _ hn hp => read_idle_iff ops locals hrec hrep hn hp,
    fun path omode hpath _ => open_idle_iff ops locals hrec hrep hpath, fun m' => ⟨?_, ?_⟩⟩
  all_goals
    intro hexit
    obtain ⟨msg, hpanic⟩ := onKern_panics hexit
    cases hpanic

/-- What the kernel stack holds is all zero. -/
def Locals.zero : Locals := ⟨fun _ => ⟨0, 0, 0, stringConstructor⟩, fun _ => 0, 0⟩

/-- Outside a session, a process calls `read(3, 64, 2)`, with `data` in its buffer. -/
def idleMachine (data : List Byte) : Machine (List Byte) Unit Unit where
  session := Session.boot
  kern := OneFile.kern 5 [3, 64, 2] data [104, 105, 33]

/-- The buffer holds the text `a`. -/
theorem no_session_no_change_iff_short :
    (sysCall OneFile.ops Locals.zero .read).run (idleMachine [97])
      = (onKern (V3.readOriginal OneFile.ops)).run (idleMachine [97]) :=
  ((no_session_no_change_iff OneFile.ops Locals.zero (idleMachine [97]) (by decide)
    (by decide)).1 3 2 64 (by decide) (by decide) (by decide)).mpr
      ⟨[97], textAt_of_stands (by decide) (by decide) (by decide), by decide⟩

/-- A buffer full of `a`. -/
def longText : List Byte := List.replicate 201 97

theorem length_longText : longText.length = 201 := List.length_replicate

/-- **A `read` into a buffer that held 201 other bytes** ends the process, where the unmodified
call returns `2`. -/
theorem read_into_old_text_exits : ∃ kern',
    (sysCall OneFile.ops Locals.zero .read).run (idleMachine longText)
        = .error .exited (idleMachine longText) ∧
      (onKern (V3.readOriginal OneFile.ops)).run (idleMachine longText)
        = .ok 2 { idleMachine longText with kern := kern' } := by
  have hnul : (idleMachine longText).kern.proc.mem (64 + 201) = 0 := by
    have hmem : (idleMachine longText).kern.proc.mem
        = overlay (OneFile.proc 5 [3, 64, 2] []).mem 64 longText := by
      show overlay _ 64 longText = overlay (overlay _ 64 []) 64 longText
      rw [overlay_nil]
    rw [hmem, overlay_apply_outside _ _ _ _ (.inr (by rw [length_longText]))]
    decide
  have hstands : Stands (idleMachine longText).kern.proc.mem 64 (longText ++ [0]) := by
    refine stands_append.mpr ⟨stands_overlay _ _ _, ?_⟩
    rw [length_longText]
    exact congrArg (fun b => [b]) hnul
  have htext : textAt (idleMachine longText).kern.proc 64 = some longText :=
    textAt_of_stands hstands (fun h => absurd (List.eq_of_mem_replicate h) (by decide))
      (by rw [length_longText]; decide)
  have hn : argint (idleMachine longText).kern.proc 2 = some 2 := by decide
  have hp : argptr (idleMachine longText).kern.proc 1 2 = some 64 := by decide
  refine ⟨_, ?_, rfl⟩
  exact read_idle_exits _ _ (by decide) (by decide) hn hp htext (by rw [length_longText]; decide)

end V1
