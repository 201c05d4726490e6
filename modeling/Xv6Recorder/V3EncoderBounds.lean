/-
# The encoder and the end of its buffer

`bidirectionalTransform` tests the cursor against `MAX_FILE_SIZE` before a record,
never inside or after one, so the record that crosses the end of the buffer is
written past it before any test can fail.  A recording is encoded safely exactly when
its encoding fits in the buffer; one that does not fit never gets as far as the error
exit that is meant for it.  The file is decoded to the recorded calls unless the record
flag is on again when the replay starts.
-/
import Xv6Recorder.V3Histories

open Bytes StateError Xv6

namespace V3

section

variable {σ ι π : Type} {ops : FsOps σ ι π} (store : FileStore ops)

/-- No program on the kernel stores outside an array of the recorder. -/
theorem onKern_raises {α : Type} (x : KM σ ι π α) : Raises (· ≠ Halt.outOfBounds) (onKern x) :=
  Raises.zoom fun _ _ _ _ => nofun

theorem onCore_modify_raises {E : Halt → Prop} (f : Core → Core) :
    Raises E (onCore (modify f) : SysM σ ι π Unit) := by
  unfold onCore
  exact Raises.zoom (.modify f)

theorem recordFail_raises : Raises (· ≠ Halt.outOfBounds) (recordFail : SysM σ ι π Word) :=
  (onCore_modify_raises _).bind fun _ => (onCore_modify_raises _).bind fun _ =>
    Raises.get.bind fun _ => .pure _

omit store in
/-- Writing the file stores nothing into the recorder's arrays. -/
theorem saveSession_raises : Raises (· ≠ Halt.outOfBounds) (saveSession ops) :=
  Raises.get.bind fun _ => (onKern_raises _).bind fun _ => .ite recordFail_raises
    ((onKern_raises _).bind fun _ => .ite recordFail_raises
      ((onKern_raises _).bind fun _ => .ite recordFail_raises (Raises.get.bind fun _ => .pure _)))

/-- The stop call of `m` has returned `0`, and the replay that `m₂` starts loads what it has
written. -/
def Rereads (m m₂ : Machine σ ι π) (filename : List Byte) (m₃ : Machine σ ι π) : Prop :=
  ∃ m₁, (sysRecordStop ops).run m = .ok 0 m₁ ∧ Reloads store
    (store.contents (m.kern.proc.cwd, m.core.session.recordFilename) m₁.kern.fs) m₂ filename m₃

/-- What `sys_record_stop` should do in `m` with a recording of `n` calls, and what a replay
that `m₂` starts should make of the file. -/
structure EncodesSafely (m m₂ : Machine σ ι π) (n : ℕ) : Prop where
  /-- No store outside the buffer. -/
  in_buffer : ∀ m', (sysRecordStop ops).run m ≠ .error .outOfBounds m'
  /-- At most `MAX_FILE_SIZE` bytes for `my_write`. -/
  size_le : ∀ c, packScrs.run m.core = .ok true c → c.session.bufferPos ≤ maxFileSize
  /-- A file that was written is decoded to the recorded calls. -/
  decodes : ∀ filename m₃, Rereads store m m₂ filename m₃ →
    ∃ c, (sysReplayStart ops).run m₂ = .ok 1 { m₃ with core := c } ∧
      (∀ k : ℕ, k < n → (c.session.recordedScrs k).Agrees (m.core.session.recordedScrs k)) ∧
      (∀ k : ℕ, n ≤ k → k < maxScrs → c.session.recordedScrs k = createSCR unitializedScr)
  /-- A recording that is too long is refused, with no effect on the kernel. -/
  refuses : maxFileSize < (m.core.encoding n).length →
    ∃ m', (sysRecordStop ops).run m = .ok (-1) m' ∧ m'.kern = m.kern

section

variable {m m₂ m₃ : Machine σ ι π} {n : ℕ} {filename : List Byte} (henc : EncoderInput m.core n)
  (hpid : m.core.session.rrPid = m.kern.proc.pid) (hinv : store.Inv m.kern.fs)
  (hfit : (m.core.encoding n).length ≤ maxFileSize)
include henc hpid hinv hfit

/-- What a replay installs of the file. -/
theorem Rereads.replayReady (h : Rereads store m m₂ filename m₃) :
    ∃ c, (sysReplayStart ops).run m₂ = .ok 1 { m₃ with core := c } ∧
      ReplayReady c m₂.kern.proc.pid (m₂.installs (logEntries m.core.session.recordedScrs n 0)) := by
  obtain ⟨m₁, hstop, hreload⟩ := h
  obtain ⟨-, fd, k₁, ip, -, -, hfound⟩ := sysRecordStop_saves henc hpid store hinv hfit hstop
  rw [hfound.contents] at hreload
  obtain ⟨c, hrun, hready, -⟩ := hreload.replayReady (logEntries_wf _ n henc.wf)
    (by rw [length_logEntries]; exact henc.le) hfit
  exact ⟨c, hrun, hready⟩

/-- **A recording that fits** is encoded safely, and decoded unless the record flag is on. -/
theorem encodesSafely_of_fits (hflag : m₂.core.session.recordSyscalls = 1 → 0 < n →
    ∀ filename m₃, ¬ Rereads store m m₂ filename m₃) : EncodesSafely store m m₂ n where
  in_buffer := by
    rw [sysRecordStop_fits henc hpid hfit]
    exact fun m' h => saveSession_raises h rfl
  size_le := by
    intro c hc
    rw [(packScrs_record m.core henc.record henc.replay n henc.idx henc.le henc.wf).1 hfit] at hc
    injection hc with _ hc
    rw [← hc]
    simp only [Core.write, Core.rewind, Int.zero_add]
    exact_mod_cast hfit
  decodes := by
    intro filename m₃ hreread
    obtain ⟨c, hrun, hready⟩ := hreread.replayReady store henc hpid hinv hfit
    have hall : m₂.installs (logEntries m.core.session.recordedScrs n 0)
        = logEntries m.core.session.recordedScrs n 0 := by
      rw [Machine.installs]
      split
      case isTrue hrec =>
        -- then there is nothing to decode
        have hzero : n = 0 := by
          by_contra hne
          exact hflag hrec (by omega) filename m₃ hreread
        rw [hzero]
        rfl
      case isFalse => rfl
    rw [hall] at hready
    refine ⟨c, hrun, fun k hk => ?_, fun k hlo hhi => ?_⟩
    · have hholds := hready.decoded.holds k (by rw [length_logEntries]; exact hk)
      rw [getElem_logEntries, Nat.zero_add] at hholds
      exact hholds.agrees (henc.wf k hk).holds
    · exact hready.decoded.fresh k (by rw [length_logEntries]; exact hlo) hhi
  refuses := fun hlong => absurd hlong (by omega)

/-- While the record flag is on, not even the first call is decoded. -/
theorem Rereads.not_encodesSafely (h : Rereads store m m₂ filename m₃)
    (hrec : m₂.core.session.recordSyscalls = 1) (hn : 0 < n) : ¬ EncodesSafely store m m₂ n := by
  intro hsafe
  obtain ⟨c, hrun, hready⟩ := h.replayReady store henc hpid hinv hfit
  obtain ⟨c', hrun', hagrees, -⟩ := hsafe.decodes filename m₃ h
  rw [hrun] at hrun'
  injection hrun' with _ hm
  injection hm with hc _
  rw [Machine.installs, if_pos hrec] at hready
  have hfresh := hready.decoded.fresh 0 (Nat.zero_le _) (by decide)
  have hsyscall := (hagrees 0 hn).syscall_eq
  rw [← hc, hfresh] at hsyscall
  exact (henc.wf 0 hn).syscall_ne hsyscall.symm

end

/-- **The encoder stays in its buffer** and does all it should exactly for the recordings
whose encoding fits in the buffer; and the file is decoded to the recorded calls exactly
when the record flag is off at the start of a replay that loads it, or no call was
recorded. -/
theorem encodes_safely_iff {m : Machine σ ι π} {n : ℕ} (henc : EncoderInput m.core n)
    (hpid : m.core.session.rrPid = m.kern.proc.pid) (hinv : store.Inv m.kern.fs)
    (m₂ : Machine σ ι π) :
    EncodesSafely store m m₂ n ↔ (m.core.encoding n).length ≤ maxFileSize ∧
      (m₂.core.session.recordSyscalls = 1 → 0 < n →
        ∀ filename m₃, ¬ Rereads store m m₂ filename m₃) := by
  constructor
  · intro h
    have hfit : (m.core.encoding n).length ≤ maxFileSize := by
      by_contra hlong
      have hover : ∃ m', (sysRecordStop ops).run m = .error .outOfBounds m' :=
        sysRecordStop_overflows henc hpid (by omega)
      obtain ⟨m', hrun⟩ := hover
      exact h.in_buffer m' hrun
    exact ⟨hfit, fun hrec hn filename m₃ hreread =>
      hreread.not_encodesSafely store henc hpid hinv hfit hrec hn h⟩
  · rintro ⟨hfit, hflag⟩
    exact encodesSafely_of_fits store henc hpid hinv hfit hflag

end

/-- A `read` of `200` bytes from descriptor `3`, at the end of the file. -/
def longRead : Call (List Byte) Unit Unit where
  kind := .read
  frame := Frame.zero
  ins := [.int 3, .int 200]
  kern := OneFile.kern 5 [3, 64, 200] [] []
  ret := 0
  kern' := endState ((handler OneFile.ops .read).original.run (OneFile.kern 5 [3, 64, 200] [] []))

theorem longRead_inLimits : longRead.InLimits where
  inputs := by decide
  wf := by decide
  read := fun _ => by decide
  fstat := fun h => by cases h
  fd_open := fun _ => by decide
  size_le := by
    intro _ n hn
    rw [show argint longRead.kern.proc 2 = some 200 by decide] at hn
    obtain rfl := Option.some.inj hn
    decide

theorem length_longRead_encode : longRead.entry.encode.length = 222 := by
  have hargs : readArgs longRead.kern.proc = some (64, 200) := by decide
  have hentry : longRead.entry = ⟨SYS.read, [.int 3, .int 200, .int 0,
      .raw (slice longRead.kern'.proc.mem 64 200)]⟩ := by
    rw [Call.entry, Call.outputs, show longRead.kind = .read from rfl, Kind.outputs, hargs]
    rfl
  rw [hentry]
  simp [Entry.encode, FieldValue.encode]

theorem longReads_inLimits (n : ℕ) : ∀ call ∈ List.replicate n longRead, call.InLimits := by
  intro call hcall
  rw [List.eq_of_mem_replicate hcall]
  exact longRead_inLimits

/-- The encoding of `n` such reads. -/
theorem length_longReads (n : ℕ) :
    (encodeLog ((List.replicate n longRead).map Call.entry)).length = 4 + n * 222 := by
  rw [length_encodeLog, List.map_replicate, List.length_flatMap, List.map_replicate,
    List.sum_replicate_nat, length_longRead_encode]

/-- A process about to record to `"f"`. -/
def startingMachine : Machine (List Byte) Unit Unit where
  core := ⟨Session.boot, false⟩
  kern := OneFile.kern 5 [64] [102, 0] []

/-- After any number of such reads that the log can take, the encoder has all of them
before it. -/
theorem exists_longReads (n : ℕ) (hn : n ≤ maxScrs) :
    ∃ c, Calls OneFile.ops 5 (startingMachine.startRecord [102]).core
        (List.replicate n longRead) c ∧ EncoderInput c n ∧
      c.encoding n = encodeLog ((List.replicate n longRead).map Call.entry) ∧
      c.session.rrPid = 5 := by
  have hstart : RecordingAt (startingMachine.startRecord [102]).core 5 0 :=
    ⟨rfl, by decide, rfl, rfl⟩
  have hlen : (List.replicate n longRead).length ≤ maxScrs := by rwa [List.length_replicate]
  have hlim := longReads_inLimits n
  have hcalls : ∃ c, Calls OneFile.ops 5 (startingMachine.startRecord [102]).core
      (List.replicate n longRead) c := by
    refine hstart.exists_calls _ (by omega) hlim ?_ ?_
    all_goals
      intro call hcall
      rw [List.eq_of_mem_replicate hcall]
      rfl
  obtain ⟨c, hcalls⟩ := hcalls
  obtain ⟨henc, hbytes, hpid, -⟩ := hcalls.encoderInput hstart hlen hlim
  rw [List.length_replicate] at henc hbytes
  exact ⟨c, hcalls, henc, hbytes, hpid⟩

/-- `270` reads of `200` bytes each still fit, and are decoded while nobody records. -/
theorem encodes_safely_iff_reads : ∃ c,
    Calls OneFile.ops 5 (startingMachine.startRecord [102]).core (List.replicate 270 longRead) c ∧
    EncodesSafely OneFile.store ⟨c, OneFile.kern 5 [] [] []⟩ startingMachine 270 := by
  obtain ⟨c, hcalls, henc, hbytes, hpid⟩ := exists_longReads 270 (by decide)
  refine ⟨c, hcalls, (encodes_safely_iff OneFile.store
    (m := ⟨c, OneFile.kern 5 [] [] []⟩) henc hpid trivial startingMachine).mpr ⟨?_, ?_⟩⟩
  · rw [hbytes, length_longReads]
    decide
  · intro hrec
    exact absurd hrec (by decide)

/-- **An overflow.**  After `271` reads of `200` bytes each, all within the limits,
`sys_record_stop` stores past the end of the buffer. -/
theorem encoder_overflows_after_reads :
    (sysRecordStart : SysM (List Byte) Unit Unit Word).run startingMachine
        = .ok 1 (startingMachine.startRecord [102]) ∧
    ∃ c, Calls OneFile.ops 5 (startingMachine.startRecord [102]).core
        (List.replicate 271 longRead) c ∧
      (∀ call ∈ List.replicate 271 longRead, call.InLimits) ∧
      (∃ m', (sysRecordStop OneFile.ops).run ⟨c, OneFile.kern 5 [] [] []⟩
        = .error .outOfBounds m') ∧
      ¬ EncodesSafely OneFile.store ⟨c, OneFile.kern 5 [] [] []⟩ startingMachine 271 := by
  obtain ⟨c, hcalls, henc, hbytes, hpid⟩ := exists_longReads 271 (by decide)
  have hlong : maxFileSize < (c.encoding 271).length := by
    rw [hbytes, length_longReads]
    decide
  have hover : ∃ m', (sysRecordStop OneFile.ops).run ⟨c, OneFile.kern 5 [] [] []⟩
      = .error .outOfBounds m' := sysRecordStop_overflows henc hpid hlong
  refine ⟨sysRecordStart_run rfl, c, hcalls, longReads_inLimits 271, hover, fun h => ?_⟩
  obtain ⟨m', hrun⟩ := hover
  exact h.in_buffer m' hrun

end V3
