/-
# Capturing arguments and results (`v3/sysproc.c`, lines 168–228)

`addStr` and `addRaw` copy a path, or the bytes that a `read` has delivered, into the 200
bytes of a raw argument.  Their length check calls the error helper, and the error helper
returns: what does not fit is copied all the same, past the end of the array.  A negative
size passes the check and is a huge one for `memmove`.

The record branches of `read` and `fstat` make this worse.  They capture the result after
a chain of checks that may have stopped before the pointer to it was set, and use the
pointer whether it was or not.
-/
import Xv6Recorder.V3Decoder
import Xv6Recorder.V3Recording

open Bytes StateError Xv6

namespace V3

/-! ## Bounds -/

/-- The record `scr'` is `scr` with one more argument, which holds `v`. -/
structure SCR.Gains (scr scr' : SCR) (v : FieldValue) : Prop where
  syscall : scr'.syscall = scr.syscall
  argc : scr'.argc = scr.argc + 1
  value : ∀ i : Fin maxArgc, (i : ℕ) = scr.argc.toNat → (scr'.args i).value = v
  others : ∀ i : Fin maxArgc, (i : ℕ) ≠ scr.argc.toNat → scr'.args i = scr.args i

/-- **What capturing `bytes` should come to**: it returns, so that nothing is stored
outside the array; bytes that fit are the new argument, and nothing else changes; bytes
that do not fit mark the process killed and poison both modes. -/
structure Captures (scr : SCR) (fits : Prop) (bytes : List Byte) (c : Core)
    (result : EStateM.Result Halt Core SCR) : Prop where
  returns : ∃ scr' c', result = .ok scr' c'
  exact : fits → ∃ scr', result = .ok scr' c ∧ scr.Gains scr' (.raw bytes)
  refused : ¬ fits → Poisoned (endState result)

/-- A record with room takes an argument. -/
theorem pushArg_gains {scr : SCR} (hroom : scr.argc.toNat < maxArgc) (arg : Arg) (c : Core) :
    ∃ scr', (pushArg scr arg).run c = .ok scr' c ∧ scr.Gains scr' arg.value := by
  refine ⟨{ scr with
    args := Function.update scr.args ⟨scr.argc.toNat, hroom⟩ arg
    argc := scr.argc + 1 }, dif_pos hroom, rfl, rfl, fun i hi => ?_, fun i hi => ?_⟩
  · obtain rfl : i = ⟨scr.argc.toNat, hroom⟩ := Fin.ext hi
    exact congrArg Arg.value (Function.update_self _ _ _)
  · exact Function.update_of_ne (fun heq => hi (by rw [heq])) _ _

theorem addStr_eq_pushArg {scr : SCR} {buffer : List Byte} (h : buffer.length ≤ maxRawSize)
    (c : Core) : (addStr scr buffer).run c = (pushArg scr ⟨byteType, rawVal buffer⟩).run c :=
  if_neg (by omega)

theorem addStr_long {scr : SCR} {buffer : List Byte} (h : maxRawSize < buffer.length) (c : Core) :
    (addStr scr buffer).run c = .error .outOfBounds (recRepErr c) :=
  if_pos h

theorem addRaw_eq_pushArg {scr : SCR} {size : Word} (h : size.toNat ≤ maxRawSize) (src : Memory)
    (c : Core) : (addRaw scr src size).run c
      = (pushArg scr ⟨byteType, rawVal (slice src 0 size.toNat)⟩).run c := by
  have hint := toInt_eq_toNat_of_le h
  rw [EStateM.run, addRaw, if_neg (by omega), if_neg (by omega)]

/-- A copy that returns was of a size that fits. -/
theorem addRaw_eq_ok {scr scr' : SCR} {src : Memory} {size : Word} {c c' : Core}
    (h : (addRaw scr src size).run c = .ok scr' c') : size.toNat ≤ maxRawSize := by
  by_contra hbig
  rw [EStateM.run, addRaw] at h
  split at h
  · cases h
  · rw [if_pos (by omega)] at h
    cases h

/-- As a signed number, a size fits exactly when it does as an unsigned one. -/
theorem size_fits_iff (size : Word) :
    0 ≤ size.toInt ∧ size.toInt ≤ maxRawSize ↔ size.toNat ≤ maxRawSize := by
  constructor
  · rintro ⟨hlo, hhi⟩
    rw [BitVec.toInt_eq_toNat_cond] at hlo hhi
    split at hlo
    · rw [if_pos ‹_›] at hhi
      exact_mod_cast hhi
    · have := size.isLt
      omega
  · intro h
    rw [toInt_eq_toNat_of_le h]
    omega

/-- **Arguments are captured in bounds** exactly when they fit: a path of at most
`MAX_RAW_SIZE` bytes, a size from `0` to `MAX_RAW_SIZE`.  Any other is copied past the
end of `raw.data`. -/
theorem capture_in_bounds_iff {scr : SCR} (hroom : scr.argc.toNat < maxArgc) (c : Core) :
    (∀ buffer : List Byte, Captures scr (buffer.length ≤ maxRawSize) buffer c
        ((addStr scr buffer).run c) ↔ buffer.length ≤ maxRawSize) ∧
    (∀ (src : Memory) (size : Word), Captures scr (0 ≤ size.toInt ∧ size.toInt ≤ maxRawSize)
        (slice src 0 size.toNat) c ((addRaw scr src size).run c) ↔
      0 ≤ size.toInt ∧ size.toInt ≤ maxRawSize) := by
  constructor
  · intro buffer
    constructor
    · rintro ⟨⟨scr', c', hrun⟩, -, -⟩
      by_contra hlong
      rw [addStr_long (by omega)] at hrun
      cases hrun
    · intro hfits
      obtain ⟨scr', hrun, hgains⟩ := pushArg_gains hroom ⟨byteType, rawVal buffer⟩ c
      rw [← addStr_eq_pushArg hfits] at hrun
      rw [value_rawVal _ hfits] at hgains
      exact ⟨⟨scr', c, hrun⟩, fun _ => ⟨scr', hrun, hgains⟩, fun h => absurd hfits h⟩
  · intro src size
    constructor
    · rintro ⟨⟨scr', c', hrun⟩, -, -⟩
      exact (size_fits_iff size).mpr (addRaw_eq_ok hrun)
    · intro hfits
      have hsize := (size_fits_iff size).mp hfits
      obtain ⟨scr', hrun, hgains⟩ :=
        pushArg_gains hroom ⟨byteType, rawVal (slice src 0 size.toNat)⟩ c
      rw [← addRaw_eq_pushArg hsize] at hrun
      rw [value_rawVal _ (by rw [length_slice]; exact hsize)] at hgains
      exact ⟨⟨scr', c, hrun⟩, fun _ => ⟨scr', hrun, hgains⟩, fun h => absurd hfits h⟩

/-- A short path. -/
theorem capture_in_bounds_iff_short :
    Captures (createSCR SYS.open) (([47, 97] : List Byte).length ≤ maxRawSize) [47, 97]
      ⟨Session.boot, false⟩ ((addStr (createSCR SYS.open) [47, 97]).run ⟨Session.boot, false⟩) :=
  have hroom : (createSCR SYS.open).argc.toNat < maxArgc := by decide
  ((capture_in_bounds_iff hroom ⟨Session.boot, false⟩).1 [47, 97]).mpr (by decide)

/-- The session of process `5`, which is recording. -/
def recordingCore : Core := ⟨{ Session.boot with recordSyscalls := 1, rrPid := 5 }, false⟩

/-- A path of 201 bytes. -/
def longPath : List Byte := List.replicate 201 97

theorem length_longPath : longPath.length = 201 := List.length_replicate

/-- **A path of 201 bytes** is copied past the end after the error helper has returned, and
a **negative size** is so without the process being marked at all. -/
theorem long_path_overruns :
    (addStr (createSCR SYS.open) longPath).run recordingCore
        = .error .outOfBounds (recRepErr recordingCore) ∧
      (addRaw (createSCR SYS.read) (fun _ => 0) (-1)).run recordingCore
        = .error .outOfBounds recordingCore ∧
      ¬ Captures (createSCR SYS.open) (longPath.length ≤ maxRawSize) longPath recordingCore
        ((addStr (createSCR SYS.open) longPath).run recordingCore) := by
  have hlong : (addStr (createSCR SYS.open) longPath).run recordingCore
      = .error .outOfBounds (recRepErr recordingCore) :=
    addStr_long (by rw [length_longPath]; decide) recordingCore
  have hneg : (addRaw (createSCR SYS.read) (fun _ => 0) (-1)).run recordingCore
      = .error .outOfBounds recordingCore := by
    rw [EStateM.run, addRaw, if_neg (by decide), if_pos (by decide)]
  refine ⟨hlong, hneg, fun h => ?_⟩
  obtain ⟨scr', c', hrun⟩ := h.returns
  rw [hlong] at hrun
  cases hrun

/-! ## Results of calls that fail -/

section

variable {σ ι π : Type}

/-- The checks before the result of a `read` or `fstat` is captured all succeed, so that
the pointer to it has been set. -/
def Kind.PointerSet (k : Kind) (p : Proc ι) : Prop :=
  (argfd p 0).isSome ∧ (k = .read → (readArgs p).isSome) ∧
    (k = .fstat → (argptr p 1 statSize).isSome)

/-- The log and the position in it stay as they are. -/
structure Core.SameLog (c c' : Core) : Prop where
  scrsIdx : c'.session.scrsIdx = c.session.scrsIdx
  recordedScrs : c'.session.recordedScrs = c.session.recordedScrs

/-- The kernel and the log stay as they are. -/
def Machine.SameKern (m m' : Machine σ ι π) : Prop := m'.kern = m.kern ∧ m.core.SameLog m'.core

instance : IsPreorder (Machine σ ι π) Machine.SameKern where
  refl _ := ⟨rfl, rfl, rfl⟩
  trans _ _ _ h h' := ⟨h'.1.trans h.1, h'.2.1.trans h.2.1, h'.2.2.trans h.2.2⟩

theorem sameKern_onCore {α : Type} {x : RecM α} (h : Keeps Core.SameLog x) :
    Keeps Machine.SameKern (onCore x : SysM σ ι π α) :=
  Keeps.zoom h fun _ _ hlog => ⟨rfl, hlog⟩

theorem sameLog_recRepErr : Keeps Core.SameLog (modify recRepErr : RecM PUnit) :=
  Keeps.modify fun _ => ⟨rfl, rfl⟩

theorem sameLog_pushArg (scr : SCR) (arg : Arg) : Keeps Core.SameLog (pushArg scr arg) := by
  intro c
  rw [EStateM.run, pushArg]
  split <;> exact ⟨rfl, rfl⟩

theorem sameLog_addStr (scr : SCR) (buffer : List Byte) : Keeps Core.SameLog (addStr scr buffer) := by
  intro c
  rw [EStateM.run, addStr]
  split
  · exact ⟨rfl, rfl⟩
  · exact sameLog_pushArg _ _ c

theorem sameLog_addRaw (scr : SCR) (src : Memory) (size : Word) :
    Keeps Core.SameLog (addRaw scr src size) := by
  intro c
  rw [EStateM.run, addRaw]
  split
  · exact ⟨rfl, rfl⟩
  · split
    · exact ⟨rfl, rfl⟩
    · exact sameLog_pushArg _ _ c

theorem sameKern_inputAdd (input : Input) (scr : SCR) :
    Keeps Machine.SameKern (input.add scr : SysM σ ι π SCR) := by
  cases input with
  | int pos =>
    refine Keeps.bind (Keeps.get.bind fun m => ?_) fun val =>
      sameKern_onCore (sameLog_pushArg _ _)
    split
    · exact Keeps.pure _
    · exact (sameKern_onCore sameLog_recRepErr).bind fun _ => Keeps.pure _
  | str pos =>
    refine Keeps.bind (Keeps.get.bind fun m => ?_) fun val =>
      sameKern_onCore (sameLog_addStr _ _)
    split
    · exact Keeps.pure _
    · exact (sameKern_onCore sameLog_recRepErr).bind fun _ => Keeps.pure _

/-- Adding the inputs of a call only ever touches the mode and the killed mark. -/
theorem sameKern_addInputs (inputs : List Input) (scr : SCR) :
    Keeps Machine.SameKern (addInputs inputs scr : SysM σ ι π SCR) := by
  induction inputs generalizing scr with
  | nil => exact Keeps.pure _
  | cons input inputs ih => exact (sameKern_inputAdd input scr).bind ih

variable (ops : FsOps σ ι π) {k k' : Kern σ ι π}

/-- The pointer of a recorded `read` comes out of the checks. -/
theorem readRecorded_eq_some {r p n : Word}
    (h : (readRecorded ops).run k = .ok (r, some (p, n)) k') :
    (argfd k.proc 0).isSome ∧ readArgs k.proc = some (p, n) := by
  rw [readRecorded, EStateM.run_bind, EStateM.run_get] at h
  dsimp only at h
  split at h
  case h_1 fd f n' hfd hn =>
    split at h
    case h_1 p' hp =>
      obtain ⟨r', k₁, -, h⟩ := run_bind_eq_ok.mp h
      obtain ⟨_, k₂, -, h⟩ := run_bind_eq_ok.mp h
      injection h with h _
      injection h with _ h
      injection h with h
      injection h with hp' hn'
      subst hp' hn'
      exact ⟨by rw [hfd]; rfl, by rw [readArgs, hn, Option.bind_some, hp]; rfl⟩
    case h_2 => cases h
  case h_2 => cases h

theorem fstatRecorded_eq_some {r st : Word}
    (h : (fstatRecorded ops).run k = .ok (r, some st) k') :
    (argfd k.proc 0).isSome ∧ (argptr k.proc 1 statSize).isSome := by
  rw [fstatRecorded, EStateM.run_bind, EStateM.run_get] at h
  dsimp only at h
  split at h
  case h_1 fd f st' hfd hst => exact ⟨by rw [hfd]; rfl, by rw [hst]; rfl⟩
  case h_2 => cases h

variable {m m' : Machine σ ι π}

/-- **A recorded `read` that returns** had its pointer set and a size that fits. -/
theorem read_record_eq_ok {scr scr' : SCR} (h : ((sysRead ops).record scr).run m = .ok scr' m') :
    (Kind.read.PointerSet m.kern.proc ∧ ∀ n, argint m.kern.proc 2 = some n →
      n.toInt ≤ maxRawSize) ∧ m'.core.session.scrsIdx = m.core.session.scrsIdx := by
  obtain ⟨⟨r, ptr⟩, m₁, hread, h⟩ := run_bind_eq_ok.mp h
  obtain ⟨kern₁, hrecorded, rfl⟩ := run_zoom_eq_ok.mp hread
  obtain ⟨scr₁, m₂, hint, h⟩ := run_bind_eq_ok.mp h
  have hidx := ((sameKern_onCore (sameLog_pushArg _ _)).of_ok hint).2.scrsIdx
  cases ptr with
  | none => cases h
  | some ptr =>
    obtain ⟨p, n⟩ := ptr
    obtain ⟨hfd, hargs⟩ := readRecorded_eq_some ops hrecorded
    obtain ⟨m₃, m₃', hget, h⟩ := run_bind_eq_ok.mp h
    injection hget with hm hm'
    subst hm hm'
    have hidx' := ((sameKern_onCore (sameLog_addRaw _ _ _)).of_ok h).2.scrsIdx
    obtain ⟨c', hraw, -⟩ := run_zoom_eq_ok.mp h
    have hfits := (size_fits_iff n).mpr (addRaw_eq_ok hraw)
    refine ⟨⟨⟨hfd, fun _ => by rw [hargs]; rfl, fun h => by cases h⟩, fun n' hn' => ?_⟩,
      hidx'.trans hidx⟩
    rw [(readArgs_eq_some hargs).1] at hn'
    obtain rfl := Option.some.inj hn'
    exact hfits.2

theorem fstat_record_eq_ok {scr scr' : SCR}
    (h : ((sysFstat ops).record scr).run m = .ok scr' m') :
    Kind.fstat.PointerSet m.kern.proc ∧ m'.core.session.scrsIdx = m.core.session.scrsIdx := by
  obtain ⟨⟨r, ptr⟩, m₁, hstat, h⟩ := run_bind_eq_ok.mp h
  obtain ⟨kern₁, hrecorded, rfl⟩ := run_zoom_eq_ok.mp hstat
  obtain ⟨scr₁, m₂, hint, h⟩ := run_bind_eq_ok.mp h
  have hidx := ((sameKern_onCore (sameLog_pushArg _ _)).of_ok hint).2.scrsIdx
  cases ptr with
  | none => cases h
  | some st =>
    obtain ⟨hfd, hptr⟩ := fstatRecorded_eq_some ops hrecorded
    obtain ⟨m₃, m₃', hget, h⟩ := run_bind_eq_ok.mp h
    injection hget with hm hm'
    subst hm hm'
    have hidx' := ((sameKern_onCore (sameLog_pushArg _ _)).of_ok h).2.scrsIdx
    exact ⟨⟨hfd, (fun h => by cases h), fun _ => hptr⟩, hidx'.trans hidx⟩

/-- A size that `argptr` lets pass is not negative. -/
theorem argptr_nonneg {p : Proc ι} {i : ℕ} {addr n : Word} (h : argptr p i n = some addr) :
    0 ≤ n.toInt := by
  rw [argptr] at h
  split at h
  · cases h
  · split at h
    · cases h
    · omega

/-- With the pointer set, the call is within the limits, but for the size of a `read`. -/
theorem Kind.PointerSet.inLimits {kind : Kind} {p : Proc ι} (h : kind.PointerSet p)
    (hkind : kind = .read ∨ kind = .fstat)
    (hsize : kind = .read → ∀ n, argint p 2 = some n → n.toInt ≤ maxRawSize) :
    ∃ ins, kind.InLimits p ins := by
  obtain ⟨hfd, hread, hfstat⟩ := h
  have hargint : ∃ fd, argint p 0 = some fd := by
    rw [argfd] at hfd
    split at hfd
    · cases hfd
    · exact ⟨_, ‹_›⟩
  obtain ⟨fd, hargint⟩ := hargint
  rcases hkind with rfl | rfl
  · obtain ⟨⟨addr, n⟩, hargs⟩ := Option.isSome_iff_exists.mp (hread rfl)
    obtain ⟨hn, hptr⟩ := readArgs_eq_some hargs
    have hnonneg := argptr_nonneg hptr
    refine ⟨[.int fd, .int n], ⟨⟨?_, ?_, hread, hfstat⟩, fun _ => hfd, fun _ n' hn' => ?_⟩⟩
    · simp [Kind.inputs, fetchInputs, Input.fetch, hargint, hn]
    · simp [FieldValue.WellFormed]
    · have := hsize rfl n' hn'
      rw [hn] at hn'
      obtain rfl := Option.some.inj hn'
      exact ⟨hnonneg, this⟩
  · refine ⟨[.int fd], ⟨⟨?_, ?_, hread, hfstat⟩, fun _ => hfd, fun h => by cases h⟩⟩
    · simp [Kind.inputs, fetchInputs, Input.fetch, hargint]
    · simp [FieldValue.WellFormed]

/-- The log at hand after the append has one more entry, so the log was not full. -/
theorem room_of_addSRC_eq_append {scr scr' : SCR} {c c' : Core}
    (hidx : c'.session.scrsIdx = c.session.scrsIdx) (h : addSRC scr c' = c.append scr') :
    c.session.scrsIdx < maxScrs := by
  by_contra hfull
  rw [addSRC, if_pos (by omega)] at h
  have := congrArg (fun c : Core => c.session.scrsIdx) h
  simp only [recRepErr, Core.append, hidx] at this
  omega

/-- **Recording of calls that fail.**  While recording, a `read` or `fstat` whose original
code returns `ret` returns the same and appends exactly one record if and only if the log
has room, all checks before the capture succeed, so that the pointer it uses is set, and
the size of a `read` is at most `MAX_RAW_SIZE`. -/
theorem failing_call_is_recorded_iff {kind : Kind} (hkind : kind = .read ∨ kind = .fstat)
    (frame : Frame) (hrec : isRecording m.core.session m.kern.proc.pid = true)
    (hrep : isReplaying m.core.session m.kern.proc.pid = false) {ret : Word}
    (horig : (handler ops kind).original.run m.kern = .ok ret k') :
    (∃ scr kern'', ((handler ops kind).run frame).run m = .ok ret ⟨m.core.append scr, kern''⟩) ↔
      m.core.session.scrsIdx < maxScrs ∧ kind.PointerSet m.kern.proc ∧
        (kind = .read → ∀ n, argint m.kern.proc 2 = some n → n.toInt ≤ maxRawSize) := by
  constructor
  · rintro ⟨scr, kern'', hrun⟩
    rw [Handler.run_recording _ frame m hrec hrep] at hrun
    obtain ⟨scr₁, m₁, hadd, hrun⟩ := run_bind_eq_ok.mp hrun
    obtain ⟨scr₂, m₂, hrecord, hrun⟩ := run_bind_eq_ok.mp hrun
    obtain ⟨_, m₃, hlog, hrun⟩ := run_bind_eq_ok.mp hrun
    injection hlog with _ hm₃
    injection hrun with _ hm
    obtain ⟨hkern, hidx₁, -⟩ := (sameKern_addInputs _ _).of_ok hadd
    have happend : addSRC scr₂ m₂.core = m.core.append scr := by
      rw [← hm₃] at hm
      exact congrArg Machine.core hm
    -- the capture has come back, so it was in bounds, and the log has one record more
    rcases hkind with rfl | rfl
    · obtain ⟨⟨hset, hsize⟩, hidx₂⟩ := read_record_eq_ok ops hrecord
      rw [hkern] at hset hsize
      exact ⟨room_of_addSRC_eq_append (hidx₂.trans hidx₁) happend, hset, fun _ => hsize⟩
    · obtain ⟨hset, hidx₂⟩ := fstat_record_eq_ok ops hrecord
      rw [hkern] at hset
      exact ⟨room_of_addSRC_eq_append (hidx₂.trans hidx₁) happend, hset, fun h => by cases h⟩
  · rintro ⟨hidx, hset, hsize⟩
    obtain ⟨ins, hlim⟩ := hset.inLimits hkind hsize
    obtain ⟨scr, hrun, -⟩ := record_call_ok ops kind frame m hrec hrep hlim horig hidx
    exact ⟨scr, k', hrun⟩

end

/-- A `read` of two bytes from an open file. -/
theorem failing_call_is_recorded_iff_read : ∃ scr kern'',
    ((handler OneFile.ops .read).run Frame.zero).run readingMachine
      = .ok 2 ⟨readingMachine.core.append scr, kern''⟩ := by
  have horig : ∃ kern', (handler OneFile.ops .read).original.run readingMachine.kern
      = .ok 2 kern' := ⟨_, rfl⟩
  obtain ⟨kern', horig⟩ := horig
  refine (failing_call_is_recorded_iff OneFile.ops (.inl rfl) Frame.zero (by decide) (by decide)
    horig).mpr ⟨by decide, ⟨by decide, fun _ => by decide, fun h => by cases h⟩, fun _ n hn => ?_⟩
  have htwo : argint readingMachine.kern.proc 2 = some 2 := rfl
  obtain rfl := Option.some.inj (htwo.symm.trans hn)
  decide

/-- Process `5` is recording and calls `read(9, 64, 2)`, with no such descriptor. -/
def closedFdMachine : Machine (List Byte) Unit Unit where
  core := recordingCore
  kern := OneFile.kern 5 [9, 64, 2] [] [104, 105, 33]

/-- **A `read` of a closed descriptor**: the original code returns `-1`, and the record branch
captures two bytes through a pointer that was never set. -/
theorem closed_fd_uses_unset_pointer :
    (handler OneFile.ops .read).original.run closedFdMachine.kern = .ok (-1) closedFdMachine.kern ∧
      ((handler OneFile.ops .read).run Frame.zero).run closedFdMachine
        = .error .outOfBounds closedFdMachine :=
  ⟨rfl, rfl⟩

end V3
