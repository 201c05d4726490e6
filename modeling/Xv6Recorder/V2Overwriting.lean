/-
# Recording over an old recording

`sys_record_stop` does not truncate the file, and the format has no count and no end mark.
Over an old recording the file then holds the new bytes and behind them what is left of the
old ones.  `sys_replay_start` goes on decoding there: it stops behind the last call of the
new recording when the file ends there, when the table is full, or when the first byte of
the old rest happens to be `UNINITIALIZED`.  In all other cases the table gets a call that
was not recorded (`uncompressCalls_exactly_iff`).

The kernel side, what the file holds after a save and what a load reads, is shared with the
third recorder.
-/
import Xv6Recorder.V2Divergence
import Xv6Recorder.V2Modes
import Xv6Recorder.V3Persistence

open Bytes StateError Xv6
open V3 (Kind myOpen myRead myWrite myClose strcpy readArgs)

namespace V2

/-! ## Behind the last call of a log -/

/-- The table holds the calls of a log, and all further slots are unused. -/
structure HoldsExactly (calls : ℕ → Call) (log : List Entry) : Prop where
  logged : ∀ j (h : j < log.length), calls j = (log[j]).call
  unused : ∀ j, log.length ≤ j → j < maxSysCalls → (calls j).syscall = uninitialized

theorem holdsExactly_fillCalls (s : Session) (log : List Entry) :
    HoldsExactly (fillCalls (resetSyscalls s).calls 0 log) log where
  logged j h := by
    have hat := fillCalls_at (resetSyscalls s).calls 0 h
    rwa [Nat.zero_add] at hat
  unused j hlo hhi := by
    rw [fillCalls_beyond _ _ (by omega)]
    exact congrArg Call.syscall (if_pos hhi)

section Decoder

variable {rStatus : ℤ} {c c' : Cursor}

theorem loadByte_run (h : c.pos + 1 ≤ bufferSize) :
    loadByte.run c = .ok (c.data c.pos) (c.skip 1) :=
  loadByte_reads (c.data c.pos) c h rfl

theorem loadByte_eq_ok {b : Byte} (h : loadByte.run c = .ok b c') :
    c.pos + 1 ≤ bufferSize ∧ b = c.data c.pos ∧ c' = c.skip 1 := by
  by_cases hfit : c.pos + 1 ≤ bufferSize
  · rw [loadByte_run hfit] at h
    injection h with hb hc
    exact ⟨hfit, hb.symm, hc.symm⟩
  · have hfail : (load 1).run c = .error .outOfBounds c := if_neg hfit
    rw [loadByte, run_bind_of_error hfail] at h
    cases h

/-- The fields do not touch the syscall number. -/
theorem uncompressFields_syscall {call call' : Call} {remaining i : ℕ}
    (h : (uncompressFields call remaining i).run c = .ok call' c') :
    call'.syscall = call.syscall := by
  induction remaining generalizing call i c with
  | zero =>
    injection h with hcall _
    rw [hcall]
  | succ remaining ih =>
    rw [uncompressFields] at h
    split at h
    case isTrue hi =>
      obtain ⟨type, c₁, -, h⟩ := run_bind_eq_ok.mp h
      obtain ⟨data, c₂, -, h⟩ := run_bind_eq_ok.mp h
      have hrest := ih h
      exact hrest
    case isFalse => cases h

/-- **A slot that is decoded** gets the byte at the cursor as its syscall number, whether or
not that is one. -/
theorem uncompress_syscall {call : Call} {r : Bool × Call} (hmore : c.pos < rStatus)
    (h : (uncompress call rStatus).run c = .ok r c') :
    c.pos + 2 ≤ bufferSize ∧ r.2.syscall = c.data c.pos := by
  rw [uncompress, EStateM.run_bind, EStateM.run_get] at h
  simp only [Int.not_le.mpr hmore, if_false] at h
  obtain ⟨syscall, c₁, hload, h⟩ := run_bind_eq_ok.mp h
  obtain ⟨-, rfl, rfl⟩ := loadByte_eq_ok hload
  obtain ⟨size, c₂, hload, h⟩ := run_bind_eq_ok.mp h
  obtain ⟨hfit, -, -⟩ := loadByte_eq_ok hload
  refine ⟨hfit, ?_⟩
  split at h
  · injection h with hr _
    rw [← hr]
  · obtain ⟨call', c₃, hfields, h⟩ := run_bind_eq_ok.mp h
    injection h with hr _
    rw [← hr]
    exact uncompressFields_syscall hfields

/-- The decoding loop does not come back to a slot. -/
theorem uncompressCalls_below {remaining i j : ℕ} {calls calls' : ℕ → Call}
    (h : (uncompressCalls rStatus remaining i calls).run c = .ok calls' c') (hj : j < i) :
    calls' j = calls j := by
  induction remaining generalizing i calls c with
  | zero =>
    injection h with hcalls _
    rw [hcalls]
  | succ remaining ih =>
    obtain ⟨r, c₁, -, h⟩ := run_bind_eq_ok.mp h
    have hslot : Function.update calls i r.2 j = calls j := Function.update_of_ne (by omega) _ _
    split at h
    · rw [ih h (by omega), hslot]
    · injection h with hcalls _
      rw [← hcalls, hslot]

/-- The next slot of the decoding loop, while there are bytes left. -/
theorem uncompressCalls_next {remaining i : ℕ} {calls calls' : ℕ → Call} (hmore : c.pos < rStatus)
    (h : (uncompressCalls rStatus (remaining + 1) i calls).run c = .ok calls' c') :
    c.pos + 2 ≤ bufferSize ∧ (calls' i).syscall = c.data c.pos := by
  obtain ⟨r, c₁, hdecode, h⟩ := run_bind_eq_ok.mp h
  obtain ⟨hfit, hsyscall⟩ := uncompress_syscall hmore hdecode
  refine ⟨hfit, ?_⟩
  rw [← hsyscall]
  have hslot : Function.update calls i r.2 i = r.2 := Function.update_self _ _ _
  split at h
  · rw [uncompressCalls_below h (Nat.lt_succ_self i), hslot]
  · injection h with hcalls _
    rw [← hcalls, hslot]

/-- A zero where the next call would begin ends the loop. -/
theorem uncompressCalls_zero {remaining i : ℕ} {calls : ℕ → Call} (hmore : c.pos < rStatus)
    (hfit : c.pos + 2 ≤ bufferSize) (hzero : c.data c.pos = uninitialized) :
    (uncompressCalls rStatus (remaining + 1) i calls).run c
      = .ok (Function.update calls i
          { calls i with syscall := uninitialized, size := c.data (c.pos + 1) }) (c.skip 2) := by
  have hdecode : (uncompress (calls i) rStatus).run c = .ok
      (false, { calls i with syscall := uninitialized, size := c.data (c.pos + 1) })
      (c.skip 2) := by
    rw [uncompress, EStateM.run_bind, EStateM.run_get]
    simp only [Int.not_le.mpr hmore, if_false]
    rw [run_bind_of_ok (loadByte_run (by omega)), run_bind_of_ok (loadByte_run hfit), hzero,
      if_pos (.inl rfl)]
    rfl
  rw [uncompressCalls, run_bind_of_ok hdecode]
  rfl

/-- **When the decoder loads exactly a log** from `n` bytes that begin with its encoding:
the table is full, or the bytes end there, or the next byte is zero (and the one behind it,
which is loaded too, still in the buffer). -/
theorem uncompressCalls_exactly_iff {log : List Entry} (hlog : ∀ e ∈ log, e.WellFormed)
    (hlen : log.length ≤ maxSysCalls) (hfit : (encodeLog log).length ≤ bufferSize) (s : Session)
    {buffer : Memory} (hbuffer : slice buffer 0 (encodeLog log).length = encodeLog log) {n : ℕ}
    (hn : (encodeLog log).length ≤ n) :
    (∃ calls' c', (uncompressCalls n maxSysCalls 0 (resetSyscalls s).calls).run ⟨buffer, 0⟩
        = .ok calls' c' ∧ HoldsExactly calls' log) ↔
      log.length = maxSysCalls ∨ n = (encodeLog log).length ∨
        buffer (encodeLog log).length = uninitialized ∧
          (encodeLog log).length + 2 ≤ bufferSize := by
  have hexact := holdsExactly_fillCalls s log
  rw [uncompressCalls_log (c := ⟨buffer, 0⟩) log hlog (unused_reset s hlen) hlen
    (by simpa using hfit) hbuffer (by simpa using hn)]
  simp only [Cursor.skip, Nat.zero_add]
  by_cases hstop : maxSysCalls - log.length = 0 ∨ (n : ℤ) ≤ (encodeLog log).length
  · rw [uncompressCalls_stop hstop]
    refine iff_of_true ⟨_, _, rfl, hexact⟩ ?_
    rcases hstop with hfull | hend
    · exact .inl (by omega)
    · exact .inr (.inl (by omega))
  · obtain ⟨hroom, hmore⟩ := not_or.mp hstop
    obtain ⟨remaining, hremaining⟩ := Nat.exists_eq_succ_of_ne_zero hroom
    rw [hremaining]
    have hmore' : ((⟨buffer, (encodeLog log).length⟩ : Cursor).pos : ℤ) < n := Int.not_le.mp hmore
    constructor
    · rintro ⟨calls', c', hrun, hholds⟩
      obtain ⟨hfit', hsyscall⟩ := uncompressCalls_next hmore' hrun
      rw [hholds.unused log.length le_rfl (by omega)] at hsyscall
      exact .inr (.inr ⟨hsyscall.symm, hfit'⟩)
    · rintro (hfull | hend | ⟨hzero, hfit'⟩)
      · omega
      · omega
      · refine ⟨_, _, uncompressCalls_zero hmore' hfit' hzero, fun j h => ?_, fun j hlo hhi => ?_⟩
        · rw [Function.update_of_ne (by omega)]
          exact hexact.logged j h
        · by_cases hj : j = log.length
          · rw [hj, Function.update_self]
          · rw [Function.update_of_ne hj]
            exact hexact.unused j hlo hhi

end Decoder

section

variable {σ ι π : Type} {ops : FsOps σ ι π} {stack : Memory}

/-! ## What a recording holds -/

theorem outputs_wf {k : Kind} {p : Proc ι} {ins : List Arg} (hfetch : Fetches k p ins)
    (mem : Memory) (ret : Word) : ∀ v ∈ outputs k p mem ret, v.WellFormed := by
  have hint : ∀ x : Word, (Value.int x).WellFormed := fun _ => trivial
  cases k with
  | read =>
    obtain ⟨⟨addr, n⟩, hargs⟩ := Option.isSome_iff_exists.mp (hfetch.read rfl)
    have hsize := hfetch.size_toNat_le rfl (V3.readArgs_eq_some hargs).1
    intro v hv
    simp only [outputs, hargs, Option.map_some, Option.toList_some, List.mem_cons,
      List.not_mem_nil, or_false] at hv
    rcases hv with rfl | rfl
    · exact hint ret
    · show (slice mem addr.toNat n.toNat).length ≤ maxByteSize
      rw [length_slice]
      exact hsize
  | fstat =>
    obtain ⟨st, hst⟩ := Option.isSome_iff_exists.mp (hfetch.fstat rfl)
    intro v hv
    simp only [outputs, hst, Option.map_some, Option.toList_some, List.mem_cons,
      List.not_mem_nil, or_false] at hv
    rcases hv with rfl | rfl
    · exact hint ret
    · trivial
  | _ =>
    intro v hv
    rw [List.mem_singleton.mp hv]
    trivial

theorem outputs_tags {k : Kind} {p : Proc ι} {ins : List Arg} (hfetch : Fetches k p ins)
    (mem : Memory) (ret : Word) : (outputs k p mem ret).map Value.tag = outputTags k := by
  cases k with
  | read =>
    obtain ⟨args, hargs⟩ := Option.isSome_iff_exists.mp (hfetch.read rfl)
    rw [outputs, hargs]
    rfl
  | fstat =>
    obtain ⟨st, hst⟩ := Option.isSome_iff_exists.mp (hfetch.fstat rfl)
    rw [outputs, hst]
    rfl
  | _ => rfl

theorem length_fieldTypes_le (k : Kind) : (fieldTypes k).length ≤ maxFieldSize := by
  cases k <;> decide

namespace Made.By

variable {call : Made σ ι π} {pid : Word} (h : call.By ops pid)
include h

theorem tags : call.entry.values.map Value.tag = fieldTypes call.kind := by
  rw [Made.entry, List.map_append, List.map_map, fieldTypes, ← argsOf_tags h.inLimits.inputs,
    outputs_tags h.inLimits.toFetches]
  rfl

/-- The entry of a call can be logged. -/
theorem wellFormed : call.entry.WellFormed where
  number_pos := number_ne_uninitialized _
  number_le := number_le _
  length_le := by
    rw [← List.length_map (f := Value.tag), h.tags]
    exact length_fieldTypes_le _
  values v hv := by
    rcases List.mem_append.mp hv with hin | hout
    · obtain ⟨arg, harg, rfl⟩ := List.mem_map.mp hin
      exact h.inLimits.wf arg harg
    · exact outputs_wf h.inLimits.toFetches _ _ v hout

/-- Its call has the field types of the kind. -/
theorem wellTyped : WellTyped call.kind call.entry.call where
  syscall := rfl
  types i := by
    rw [← h.tags, List.getElem?_map]
    rcases Nat.lt_or_ge i.val call.entry.values.length with hi | hi
    · rw [fields_of_lt hi, List.getElem?_eq_getElem hi]
      rfl
    · rw [fields_of_le hi, List.getElem?_eq_none hi]
      rfl
  size_le i htype := by
    rcases Nat.lt_or_ge i.val call.entry.values.length with hi | hi
    · have hwf := h.wellFormed.values _ (List.getElem_mem hi)
      rw [fields_of_lt hi] at htype ⊢
      generalize call.entry.values[i.val] = v at hwf htype ⊢
      cases v with
      | bytes content =>
        have hsize := size_byteStruct hwf
        have hle : content.length ≤ maxByteSize := hwf
        show (byteStruct content).size.toInt ≤ maxByteSize
        rw [BitVec.toInt_eq_toNat_of_lt (by rw [hsize]; simp only [maxByteSize] at hle; omega),
          hsize]
        omega
      | int num => exact absurd htype (show intType ≠ byteType by decide)
      | uint unum => exact absurd htype (show uintType ≠ byteType by decide)
      | pstat st => exact absurd htype (show pstatType ≠ byteType by decide)
    · rw [fields_of_le hi] at htype
      exact absurd htype (by decide)

end Made.By

/-- A process records calls to a file: it starts, makes the calls within the limits, and
stops, in the kernel `kern`; the stop succeeds. -/
structure Recording (ops : FsOps σ ι π) (stack : Memory) where
  path : List Byte
  before : Machine σ ι π
  started : Machine σ ι π
  calls : List (Made σ ι π)
  core : Core
  kern : Kern σ ι π
  after : Machine σ ι π
  alive : before.core.killed = false
  path_eq : argstr before.kern.proc 0 = some path
  start : sysRecordStart.run before = .ok 1 started
  made : ∀ call ∈ calls, call.By ops before.kern.proc.pid
  length_le : calls.length ≤ maxSysCalls
  makes : Makes ops stack started.core calls core
  fits : (encodeLog (recordedLog ops calls)).length ≤ bufferSize
  stop : (sysRecordStop ops stack).run ⟨core, kern⟩ = .ok 0 after

namespace Recording

variable (b : Recording ops stack)

/-- The recorded calls. -/
def log : List Entry := recordedLog ops b.calls

/-- The file, from where the process is when it stops. -/
def place : Place ι := (b.kern.proc.cwd, strcpy b.path 255)

theorem made_of_mem {e : Entry} (he : e ∈ b.log) :
    ∃ call : Made σ ι π, call.By ops b.before.kern.proc.pid ∧ e = call.entry := by
  obtain ⟨call, hcall, rfl⟩ := List.mem_map.mp he
  exact ⟨call, b.made call (List.mem_filter.mp hcall).1, rfl⟩

theorem wellFormed : ∀ e ∈ b.log, e.WellFormed := by
  intro e he
  obtain ⟨call, hcall, rfl⟩ := b.made_of_mem he
  exact hcall.wellFormed

theorem wellTyped : ∀ recorded ∈ b.log.map Entry.call, ∃ k, WellTyped k recorded := by
  intro recorded hrecorded
  obtain ⟨e, he, rfl⟩ := List.mem_map.mp hrecorded
  obtain ⟨call, hcall, rfl⟩ := b.made_of_mem he
  exact ⟨call.kind, hcall.wellTyped⟩

theorem log_length_le : b.log.length ≤ maxSysCalls := by
  have hle := List.length_filter_le (fun call => ¬ Dropped ops call.kind call.kern) b.calls
  rw [log, recordedLog, List.length_map]
  exact hle.trans b.length_le

/-- The recorder's state when the recording is stopped. -/
theorem core_eq : b.core
    = (b.before.core.startRecord b.path b.before.kern.proc.pid).appendLog b.log := by
  have hstart := b.start
  rw [sysRecordStart_run, b.path_eq] at hstart
  injection hstart with _ hstarted
  have hmakes := b.makes
  rw [← hstarted] at hmakes
  exact hmakes.unique stack (RecordingAt.makes stack ⟨rfl, (by decide : (0 : Word) ≠ 1), rfl⟩ b.alive
    (by simpa [Core.startRecord, resetSyscalls] using b.length_le) b.made)

end Recording

/-! ## Saving -/

variable (ops) in
/-- The kernel opens the file, writes the bytes at its start and closes it. -/
def Saves (path bytes : List Byte) (k k' : Kern σ ι π) : Prop :=
  ∃ fd k₁ w k₂ closed, (myOpen ops path (oCreate ||| oRdwr)).run k = .ok fd k₁ ∧ fd ≠ -1 ∧
    (myWrite ops fd bytes).run k₁ = .ok w k₂ ∧ w ≠ -1 ∧ (myClose ops fd).run k₂ = .ok closed k'

/-- A save that returns has written what the encoder emits. -/
theorem saveSession_saves {m m' : Machine σ ι π} {bytes : List Byte}
    (hcompress : (compressCalls m.core.session.calls m.core.session.syscallIdx 0).run ⟨stack, 0⟩
      = .ok () (Cursor.put ⟨stack, 0⟩ bytes))
    (h : (saveSession ops stack).run m = .ok () m') :
    Saves ops m.core.session.recordFilename bytes m.kern m'.kern := by
  rw [saveSession, EStateM.run_bind, EStateM.run_get] at h
  obtain ⟨fd, m₁, hrun, h⟩ := run_bind_eq_ok.mp h
  obtain ⟨k₁, hopen, rfl⟩ := run_zoom_eq_ok.mp hrun
  split at h
  · cases h
  case isFalse hfd =>
    rw [run_bind_of_ok (run_onBuffer_of_ok hcompress _)] at h
    simp only [Cursor.put, Nat.zero_add, slice_overlay_same] at h
    obtain ⟨w, m₂, hrun', h⟩ := run_bind_eq_ok.mp h
    obtain ⟨k₂, hwrite, rfl⟩ := run_zoom_eq_ok.mp hrun'
    split at h
    · cases h
    case isFalse hw =>
      obtain ⟨closed, m₃, hrun'', h⟩ := run_bind_eq_ok.mp h
      obtain ⟨k₃, hclose, rfl⟩ := run_zoom_eq_ok.mp hrun''
      split at h
      · cases h
      · injection h with _ hm
        rw [← hm]
        exact ⟨fd, k₁, w, k₂, closed, hopen, hfd, hwrite, hw, hclose⟩

namespace Recording

variable (b : Recording ops stack)

/-- The stop writes the encoding of the log. -/
theorem saves : Saves ops (strcpy b.path 255) (encodeLog b.log) b.kern b.after.kern := by
  have hcore := b.core_eq
  have hstop := b.stop
  rw [sysRecordStop_run ops stack (by rw [hcore]; rfl)] at hstop
  obtain ⟨u, m₁, hsave, hstop⟩ := run_bind_eq_ok.mp hstop
  have hafter : b.after.kern = m₁.kern := by
    injection hstop with _ hm
    rw [← hm]
  have hemits : Cursor.Emits bufferSize (compressCalls b.core.session.calls b.log.length 0)
      (encodeLog b.log) () :=
    compressCalls_emits b.log 0 b.wellFormed fun j h => by
      rw [hcore]
      exact fillCalls_at _ 0 h
  have hidx : b.core.session.syscallIdx = b.log.length := by
    rw [hcore]
    exact Nat.zero_add _
  have hfile : b.core.session.recordFilename = strcpy b.path 255 := by
    rw [hcore]
    rfl
  have hfits : (encodeLog b.log).length ≤ bufferSize := b.fits
  have hcompress := hemits ⟨stack, 0⟩ (by simpa using hfits)
  rw [← hidx] at hcompress
  rw [hafter, ← hfile]
  exact saveSession_saves (m := ⟨b.core.stopRecord, b.kern⟩) hcompress hsave

/-- **After a recording** the file holds the new log, and behind it what is left of what it
held. -/
theorem holds (store : FileStore ops) {old : List Byte} (hinv : store.Inv b.kern.fs)
    (hold : store.contents b.place b.kern.fs = some old) :
    store.contents b.place b.after.kern.fs
      = some (encodeLog b.log ++ old.drop (encodeLog b.log).length) := by
  obtain ⟨fd, k₁, w, k₂, closed, hopen, hfd, hwrite, hw, hclose⟩ := b.saves
  have hfits : (encodeLog b.log).length ≤ bufferSize := b.fits
  simp only [bufferSize] at hfits
  exact (V3.overwrite_holds store b.place (by omega) rfl ⟨rfl, hinv, by rw [hold]; rfl⟩ hopen hfd
    hwrite hw hclose).contents

end Recording

/-! ## Loading -/

variable (ops) in
/-- The kernel opens the file, reads `r` from its start and closes it. -/
def Loads (path : List Byte) (k : Kern σ ι π) (r : Word × List Byte) (k' : Kern σ ι π) : Prop :=
  ∃ fd k₁ k₂ closed, (myOpen ops path oRdwr).run k = .ok fd k₁ ∧ fd ≠ -1 ∧
    (myRead ops fd (BitVec.ofNat 32 bufferSize)).run k₁ = .ok r k₂ ∧ r.1 ≠ -1 ∧
    (myClose ops fd).run k₂ = .ok closed k' ∧ closed ≠ -1

section

variable {m : Machine σ ι π} {r : Word × List Byte} {k' : Kern σ ι π}

/-- The session with another table. -/
def Core.setCalls (c : Core) (calls : ℕ → Call) : Core :=
  { c with session := { c.session with calls } }

/-- With a file that can be read, a load returns exactly when the decoder does. -/
theorem loadSession_eq_ok (stack : Memory)
    (h : Loads ops m.core.session.replayFilename m.kern r k') (m' : Machine σ ι π) :
    (loadSession ops stack).run m = .ok () m' ↔ ∃ calls c',
      (uncompressCalls r.1.toInt maxSysCalls 0 m.core.session.calls).run ⟨overlay stack 0 r.2, 0⟩
        = .ok calls c' ∧ m' = ⟨m.core.setCalls calls, k'⟩ := by
  obtain ⟨fd, k₁, k₂, closed, hopen, hfd, hread, hr, hclose, hclosed⟩ := h
  rw [loadSession, EStateM.run_bind, EStateM.run_get]
  simp only
  rw [run_bind_of_ok (run_onKern_of_ok hopen), if_neg hfd,
    run_bind_of_ok (run_onKern_of_ok (m := ⟨m.core, k₁⟩) hread), if_neg hr, EStateM.run_bind,
    EStateM.run_get]
  simp only
  cases hdecode : (uncompressCalls r.1.toInt maxSysCalls 0 m.core.session.calls).run
      ⟨overlay stack 0 r.2, 0⟩ with
  | ok calls c' =>
    rw [run_bind_of_ok (run_onBuffer_of_ok hdecode _),
      run_bind_of_ok (run_onCore_of_ok (c := m.core.setCalls calls) rfl),
      run_bind_of_ok (run_onKern_of_ok (m := ⟨m.core.setCalls calls, k₂⟩) hclose),
      if_neg hclosed]
    constructor
    · intro hrun
      injection hrun with _ hm
      exact ⟨calls, c', rfl, hm.symm⟩
    · rintro ⟨calls₁, c₁, heq, rfl⟩
      injection heq with hcalls _
      rw [← hcalls]
      rfl
  | error e c' =>
    rw [run_bind_of_error (run_onBuffer_of_error hdecode _)]
    constructor
    · intro hrun
      cases hrun
    · rintro ⟨calls, c', heq, -⟩
      cases heq

/-- A replay starts exactly when the decoder returns, and then with what it decoded. -/
theorem sysReplayStart_eq_ok {path : List Byte} (stack : Memory)
    (hpath : argstr m.kern.proc 0 = some path)
    (hload : Loads ops (strcpy path 255) m.kern r k') (m' : Machine σ ι π) :
    (sysReplayStart ops stack).run m = .ok 1 m' ↔ ∃ calls c',
      (uncompressCalls r.1.toInt maxSysCalls 0 (resetSyscalls m.core.session).calls).run
        ⟨overlay stack 0 r.2, 0⟩ = .ok calls c' ∧
      m' = ⟨(m.core.startReplay path m.kern.proc.pid).setCalls calls, k'⟩ := by
  rw [sysReplayStart_run, hpath]
  simp only
  have hiff := loadSession_eq_ok (m := ⟨m.core.startReplay path m.kern.proc.pid, m.kern⟩) stack
    hload
  constructor
  · intro hrun
    obtain ⟨u, m₁, hrun, hrest⟩ := run_bind_eq_ok.mp hrun
    injection hrest with _ hm
    rw [← hm]
    exact (hiff m₁).mp hrun
  · rintro ⟨calls, c', hdecode, rfl⟩
    rw [run_bind_of_ok ((hiff _).mpr ⟨calls, c', hdecode, rfl⟩)]
    rfl

/-- What is read of a file that fits into the buffer. -/
theorem Loads.reads (store : FileStore ops) {path bytes : List Byte}
    (h : Loads ops path m.kern r k') (hinv : store.Inv m.kern.fs)
    (hcontents : store.contents (m.kern.proc.cwd, path) m.kern.fs = some bytes)
    (hfit : bytes.length ≤ bufferSize) : r.1.toInt = bytes.length ∧ r.2 = bytes := by
  obtain ⟨fd, k₁, k₂, closed, hopen, hfd, hread, hr, hclose, -⟩ := h
  obtain ⟨hstatus, hbytes⟩ := Prod.ext_iff.mp (V3.load_reads store (m.kern.proc.cwd, path) rfl
    ⟨rfl, hinv, hcontents⟩ hopen hfd hread hr hclose).1
  simp only at hstatus hbytes
  rw [toNat_ofNat_of_lt (by decide), List.take_of_length_le hfit] at hbytes
  refine ⟨?_, hbytes⟩
  simp only [bufferSize] at hfit
  rw [hstatus, hbytes, toInt_ofNat_of_lt (by omega)]

end

/-! ## A call beyond the last one -/

/-- After the calls of the log, any further call terminates the process. -/
theorem ReplayingAt.beyond {c : Core} {pid : Word} {log : List Call}
    (h : ReplayingAt c pid log 0) (halive : c.killed = false)
    (htyped : ∀ recorded ∈ log, ∃ k, WellTyped k recorded) {issues : List (Issue σ ι π)}
    (hmade : ∀ issue ∈ issues, issue.MadeBy pid) (hmatch : ∀ j < log.length, Matches log issues j)
    {issue : Issue σ ι π} (hissue : issues[log.length]? = some issue) :
    ∃ c', deliver ops stack c (issues.take log.length) = some c' ∧
      issue.Terminates ops stack c' := by
  obtain ⟨c', hpast, hat, halive'⟩ := (follows_log stack ops pid htyped).runs hmade ⟨h, halive⟩
    fun j hj => matches_iff.mp (hmatch j hj)
  refine ⟨c', hpast, hat.terminated ops stack halive' htyped
    (hmade issue (List.mem_of_getElem? hissue)) ?_⟩
  rintro ⟨recorded, hrecorded, -⟩
  rw [List.getElem?_eq_none le_rfl] at hrecorded
  cases hrecorded

variable (ops stack) in
/-- **What loading exactly `log` means**: the process replays it from its first call, all
slots behind it are unused, and a call beyond the last one terminates the process. -/
structure LoadsExactly (c : Core) (pid : Word) (log : List Call) : Prop where
  replaying : ReplayingAt c pid log 0
  beyond : ∀ (issues : List (Issue σ ι π)) issue, (∀ issue ∈ issues, issue.MadeBy pid) →
    (∀ j < log.length, Matches log issues j) → issues[log.length]? = some issue →
    ∃ c', deliver ops stack c (issues.take log.length) = some c' ∧ issue.Terminates ops stack c'

/-! ## Replaying what was recorded over an old recording -/

/-- The old recording shows nothing behind the new log: the log fills the table, or is at
least as long as the old recording, or the next byte of the old recording is zero. -/
def Covers (log old : List Entry) : Prop :=
  log.length = maxSysCalls ∨ (encodeLog old).length ≤ (encodeLog log).length ∨
    (encodeLog old)[(encodeLog log).length]? = some uninitialized ∧
      (encodeLog log).length + 2 ≤ bufferSize

instance (log old : List Entry) : Decidable (Covers log old) := inferInstanceAs (Decidable (_ ∨ _))

/-- The same condition, on the bytes that are read. -/
theorem covers_iff {log old : List Entry} {bytes : List Byte}
    (hbytes : bytes = encodeLog log ++ (encodeLog old).drop (encodeLog log).length) :
    (log.length = maxSysCalls ∨ bytes.length = (encodeLog log).length ∨
      overlay stack 0 bytes (encodeLog log).length = uninitialized ∧
        (encodeLog log).length + 2 ≤ bufferSize) ↔ Covers log old := by
  have hlength : bytes.length = max (encodeLog log).length (encodeLog old).length := by
    rw [hbytes, V3.length_overwritten]
  by_cases hle : (encodeLog old).length ≤ (encodeLog log).length
  · exact iff_of_true (.inr (.inl (by omega))) (.inr (.inl hle))
  · have hlt : (encodeLog log).length < (encodeLog old).length := Nat.not_le.mp hle
    have hbyte : overlay stack 0 bytes (encodeLog log).length
        = (encodeLog old)[(encodeLog log).length] := by
      have hinside := overlay_apply_inside stack 0 bytes (encodeLog log).length (by omega)
      rw [Nat.zero_add, hbytes, List.getD_append_right _ _ _ _ le_rfl, Nat.sub_self,
        List.getD_eq_getElem _ _ (by rw [List.length_drop]; omega), List.getElem_drop] at hinside
      rw [hbytes, hinside]
      rfl
    have hne : bytes.length ≠ (encodeLog log).length := by omega
    rw [Covers, hbyte, List.getElem?_eq_getElem hlt, Option.some_inj]
    simp only [hne, hle, false_or]

/-- **When a recording over an old one is loaded as it is.**  The file holds the log `old`;
it is then the target of a recording that stops successfully, and what it then holds is
named by the path of a replay, in a kernel that opens, reads and closes it.  The replay
starts with exactly the recorded calls if and only if these fill the table, or take at
least as many bytes as the old recording, or the byte of the old recording behind them is
zero. -/
theorem overwritten_loads_exactly_iff (store : FileStore ops) (b : Recording ops stack)
    (old : List Entry) (hfit : (encodeLog old).length ≤ bufferSize)
    (hinv : store.Inv b.kern.fs)
    (hold : store.contents b.place b.kern.fs = some (encodeLog old))
    {m : Machine σ ι π} {path : List Byte} (halive : m.core.killed = false)
    (hpath : argstr m.kern.proc 0 = some path) (hinv' : store.Inv m.kern.fs)
    (hsame : store.contents (m.kern.proc.cwd, strcpy path 255) m.kern.fs
      = store.contents b.place b.after.kern.fs)
    (hload : ∃ r k', Loads ops (strcpy path 255) m.kern r k') (stack' : Memory) :
    (∃ m', (sysReplayStart ops stack').run m = .ok 1 m' ∧
        LoadsExactly ops stack' m'.core m.kern.proc.pid (b.log.map Entry.call)) ↔
      Covers b.log old := by
  obtain ⟨r, k', hload⟩ := hload
  let bytes := encodeLog b.log ++ (encodeLog old).drop (encodeLog b.log).length
  have hfits : (encodeLog b.log).length ≤ bufferSize := b.fits
  have hlength : bytes.length = max (encodeLog b.log).length (encodeLog old).length :=
    V3.length_overwritten _ _
  obtain ⟨hstatus, hr⟩ := hload.reads store hinv' (hsame.trans (b.holds store hinv hold))
    (show bytes.length ≤ bufferSize by omega)
  have hbuffer : slice (overlay stack' 0 bytes) 0 (encodeLog b.log).length = encodeLog b.log := by
    rw [← overlay_overlay_append, slice_overlay_disjoint _ _ _ _ _ (by omega), slice_overlay_same]
  have hstart := sysReplayStart_eq_ok stack' hpath hload
  rw [hr, hstatus] at hstart
  have hiff := uncompressCalls_exactly_iff b.wellFormed b.log_length_le hfits m.core.session
    hbuffer (n := bytes.length) (by omega)
  rw [← covers_iff rfl, ← hiff]
  constructor
  · rintro ⟨m', hrun, hexact⟩
    obtain ⟨calls, c', hdecode, rfl⟩ := (hstart m').mp hrun
    refine ⟨calls, c', hdecode, fun j h => ?_, fun j hlo hhi => ?_⟩
    · have hcall := hexact.replaying.calls j (by rw [List.length_map]; exact h)
      rwa [List.getElem_map] at hcall
    · exact hexact.replaying.unused j (by rw [List.length_map]; exact hlo) hhi
  · rintro ⟨calls, c', hdecode, hholds⟩
    refine ⟨_, (hstart _).mpr ⟨calls, c', hdecode, rfl⟩, ?_⟩
    have hreplaying : ReplayingAt ((m.core.startReplay path m.kern.proc.pid).setCalls calls)
        m.kern.proc.pid (b.log.map Entry.call) 0 :=
      { replay := rfl
        record := (by decide : (0 : Word) ≠ 1)
        rrPid := rfl
        syscallIdx := rfl
        calls := fun j h => by
          rw [List.length_map] at h
          rw [List.getElem_map]
          exact hholds.logged j h
        unused := fun j hlo hhi => by
          rw [List.length_map] at hlo
          exact hholds.unused j hlo hhi
        length_le := by
          rw [List.length_map]
          exact b.log_length_le }
    exact ⟨hreplaying, fun issues issue hmade hmatch hissue =>
      hreplaying.beyond halive b.wellTyped hmade hmatch hissue⟩

end

/-! ### One call over one, and over two -/

/-- A logged `uptime` that returned `0`. -/
def uptimeEntry : Entry := ⟨14, [.uint 0]⟩

/-- Process `pid` calls with the path `"/f"`, and the one file holds `file`. -/
def pathKern (pid : Word) (file : List Byte) : Kern (List Byte) Unit Unit :=
  OneFile.kern pid [64] [47, 102, 0] file

/-- A `getpid` of process `5`. -/
def pidMade : Made (List Byte) Unit Unit := ⟨.getpid, [], pathKern 5 [], 5, pathKern 5 []⟩

theorem pidMade_by : pidMade.By OneFile.ops 5 where
  pid_eq := rfl
  inLimits := inLimits_of_plain (by decide) (by decide) rfl (by decide)
  returns := rfl

/-- Process `5` has recorded that call. -/
def recordedPid : Core := (Core.startRecord ⟨Session.boot, false⟩ [47, 102] 5).append pidEntry.call

/-- It stops, with the old recording in the file. -/
def stopPid (old : List Entry) : EStateM.Result Halt (Machine (List Byte) Unit Unit) Word :=
  (sysRecordStop OneFile.ops fun _ => 0).run ⟨recordedPid, pathKern 5 (encodeLog old)⟩

/-- The recording, when the stop succeeds. -/
def pidRecording (old : List Entry) (h : stopPid old = .ok 0 (endState (stopPid old))) :
    Recording OneFile.ops fun _ => 0 where
  path := [47, 102]
  before := ⟨⟨Session.boot, false⟩, pathKern 5 []⟩
  started := ⟨Core.startRecord ⟨Session.boot, false⟩ [47, 102] 5, pathKern 5 []⟩
  calls := [pidMade]
  core := recordedPid
  kern := pathKern 5 (encodeLog old)
  after := endState (stopPid old)
  alive := rfl
  path_eq := rfl
  start := rfl
  made call hcall := by
    rw [List.mem_singleton.mp hcall]
    exact pidMade_by
  length_le := by decide
  makes := .cons (RecordingAt.call_kept _ ⟨rfl, (by decide : (0 : Word) ≠ 1), rfl⟩ rfl pidMade_by
    (by decide) (by decide)) .nil
  fits := by decide
  stop := h

/-- Process `7` replays a file. -/
def replayer (file : List Byte) : Machine (List Byte) Unit Unit :=
  ⟨⟨Session.boot, false⟩, pathKern 7 file⟩

theorem loads_replayer : ∃ r k', Loads OneFile.ops (strcpy [47, 102] 255)
    (replayer (encodeLog [pidEntry])).kern r k' := by
  have hruns : ∃ k₁ r k₂ k', (myOpen OneFile.ops (strcpy [47, 102] 255) oRdwr).run
        (replayer (encodeLog [pidEntry])).kern = .ok 0 k₁ ∧
      (myRead OneFile.ops 0 (BitVec.ofNat 32 bufferSize)).run k₁ = .ok (7, r) k₂ ∧
      (myClose OneFile.ops 0).run k₂ = .ok 0 k' := ⟨_, _, _, _, rfl, rfl, rfl⟩
  obtain ⟨k₁, r, k₂, k', hopen, hread, hclose⟩ := hruns
  exact ⟨(7, r), k', 0, k₁, k₂, 0, hopen, by decide, hread, by simp, hclose, by decide⟩

/-- Over a recording of the same length, the new one is loaded as it is. -/
theorem overwritten_loads_exactly_iff_uptime : ∃ m',
    (sysReplayStart OneFile.ops fun _ => 0).run (replayer (encodeLog [pidEntry])) = .ok 1 m' ∧
      LoadsExactly OneFile.ops (fun _ => 0) m'.core 7 [pidEntry.call] :=
  (overwritten_loads_exactly_iff (m := replayer (encodeLog [pidEntry])) OneFile.store
    (pidRecording [uptimeEntry] rfl) [uptimeEntry] (by decide) trivial rfl rfl rfl trivial rfl
    loads_replayer fun _ => 0).mpr (by decide)

/-- **A call that was not recorded.**  The file holds two calls of `uptime`.  Process `5`
records one `getpid` over them, and a replay of the file gets a call of `uptime` behind
it. -/
theorem stale_call_loaded : ∃ (b : Recording OneFile.ops fun _ => 0) (m' : Machine _ _ _),
    OneFile.store.contents b.place b.kern.fs = some (encodeLog [uptimeEntry, uptimeEntry]) ∧
      b.log = [pidEntry] ∧ b.after.kern.fs = encodeLog [pidEntry, uptimeEntry] ∧
      (sysReplayStart OneFile.ops fun _ => 0).run (replayer (encodeLog [pidEntry, uptimeEntry]))
        = .ok 1 m' ∧
      (m'.core.session.calls 1).syscall = V3.SYS.uptime ∧
      ¬ ReplayingAt m'.core 7 [pidEntry.call] 0 := by
  have hrun : ∃ m', (sysReplayStart OneFile.ops fun _ => 0).run
      (replayer (encodeLog [pidEntry, uptimeEntry])) = .ok 1 m' ∧
      (m'.core.session.calls 1).syscall = V3.SYS.uptime := ⟨_, rfl, rfl⟩
  obtain ⟨m', hrun, hstale⟩ := hrun
  refine ⟨pidRecording [uptimeEntry, uptimeEntry] rfl, m', rfl, rfl, rfl, hrun, hstale, fun h => ?_⟩
  have hunused := h.unused 1 (by decide) (by decide)
  rw [hstale] at hunused
  exact absurd hunused (by decide)

end V2
