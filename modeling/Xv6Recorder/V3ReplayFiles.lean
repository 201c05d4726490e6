/-
# Replaying arbitrary files

`sys_replay_start` decodes whatever file it is given, from a buffer that an earlier
session has used.  Two questions about it have the same answer.  Is the decoding safe:
does it store only inside the arrays and look only at bytes that were read from the
file?  And does it depend on the file alone, whatever the buffer held before?  Both hold
exactly when the file has a count and, unless the record flag is on as well, can be read
from there to where the decoder stops.
-/
import Xv6Recorder.V3DecodedBytes
import Xv6Recorder.V3Fidelity

open Bytes StateError Xv6

namespace V3

/-! ## Decoding a file -/

/-- The number of records that the first four bytes of a file announce. -/
def fileCount (file : List Byte) : ℕ := (fromBytes 32 (file.take 4)).toInt.toNat

/-- The condition under which a file can be decoded: it has a count, and the record flag
is on, or the records can be read. -/
def Decodable (recordSyscalls : Word) (file : List Byte) : Prop :=
  4 ≤ file.length ∧ (recordSyscalls = 1 ∨ Readable (fileCount file) 0 (file.drop 4))

/-- The state in which `sys_replay_start` decodes `file`. -/
structure Loaded (c : Core) (file : List Byte) : Prop where
  replay : c.session.replaySyscalls = 1
  pos : c.session.bufferPos = 0
  seen : c.session.bufferSeen = 0
  fresh : (c.session.recordedScrs 0).syscall = unitializedScr
  buffer : slice c.session.buffer 0 file.length = file
  le : file.length ≤ maxFileSize

section

variable {c : Core} {file : List Byte} (h : Loaded c file)
include h

theorem Loaded.replaying (hrec : c.session.recordSyscalls ≠ 1) : Replaying c :=
  ⟨h.replay, hrec, h.pos.ge⟩

/-- The first bytes of the buffer are those of the file. -/
theorem Loaded.slice_eq {pos n : ℕ} (hle : pos + n ≤ file.length) :
    slice c.session.buffer pos n = (file.drop pos).take n := by
  have hall := h.buffer
  rw [show file.length = pos + (n + (file.length - (pos + n))) by omega, slice_add, slice_add,
    Nat.zero_add] at hall
  have hdrop := congrArg (List.drop pos) hall
  rw [List.drop_left' (length_slice _ _ _)] at hdrop
  rw [← hdrop, List.take_left' (length_slice _ _ _)]

/-- The bytes of the file after the count. -/
theorem Loaded.slice_drop (hle : 4 ≤ file.length) :
    slice c.session.buffer 4 (file.length - 4) = file.drop 4 := by
  rw [h.slice_eq (by omega), List.take_of_length_le (by rw [List.length_drop])]

theorem Loaded.count_eq (hle : 4 ≤ file.length) : c.count.toInt.toNat = fileCount file := by
  have hslice : slice c.session.buffer 0 4 = (file.drop 0).take 4 := h.slice_eq (by omega)
  rw [List.drop_zero] at hslice
  rw [fileCount, ← hslice, Core.count]
  rfl

theorem Loaded.counted (hrec : c.session.recordSyscalls ≠ 1) : Replaying c.counted :=
  ⟨h.replay, hrec, by rw [bufferPos_counted h.pos]; decide⟩

theorem Loaded.bufferSeen_counted : c.counted.session.bufferSeen = 4 := by
  refine (advance_bufferSeen ?_ 4).trans ?_
  · rw [h.seen, h.pos]
    rfl
  · rw [h.pos]
    rfl

/-- In replay mode the count is read whatever the length of the file. -/
theorem Loaded.transferIdx_run (hrec : c.session.recordSyscalls ≠ 1) :
    transferIdx.run c = .ok () c.counted := by
  refine transferIdx_replay c (h.replaying hrec) c.count (by rw [h.pos]; decide) ?_
  rw [h.pos, Core.count]
  exact (toBytes_field (w := 32) (by decide) 0 c.session.buffer).symm

/-- The loop of `unpackScrs` and the step after it. -/
theorem Loaded.unpackScrs_eq_ok (hrec : c.session.recordSyscalls ≠ 1) {fileSize : ℤ} {ok : Bool}
    {c' : Core} : (unpackScrs fileSize).run c = .ok ok c' ↔
      ∃ c₁, (transformLoop fileSize c.count.toInt.toNat 0).run c.counted = .ok ok c₁ ∧
        c' = if ok then c₁.withIdx 0 else c₁ := by
  rw [unpackScrs, run_bind_of_ok (h.transferIdx_run hrec), EStateM.run_bind, EStateM.run_get]
  simp only
  rw [show c.counted.session.scrsIdx = c.count.toInt from rfl]
  rw [run_bind_eq_ok]
  constructor
  · rintro ⟨ok', c₁, hloop, hrest⟩
    cases ok' with
    | true =>
      injection hrest with hok hc'
      subst hok
      exact ⟨c₁, hloop, hc'.symm⟩
    | false =>
      injection hrest with hok hc'
      subst hok
      exact ⟨c₁, hloop, hc'.symm⟩
  · rintro ⟨c₁, hloop, rfl⟩
    refine ⟨ok, c₁, hloop, ?_⟩
    cases ok <;> rfl

/-- A file without a whole count: the count comes from what the buffer held before, and
the first record is already past the file. -/
theorem Loaded.unpackScrs_short (hshort : file.length < 4) :
    ∃ c', (unpackScrs file.length).run c = .ok (decide (c.count.toInt ≤ 0)) c' ∧
      c'.session.replaySyscalls = 1 := by
  by_cases hrec : c.session.recordSyscalls = 1
  · rw [unpackScrs_both hrec h.replay h.pos h.fresh]
    by_cases hcount : c.count.toInt ≤ 0
    · rw [if_pos (Or.inl hcount), decide_eq_true hcount]
      exact ⟨_, rfl, h.replay⟩
    · rw [if_neg (by omega), decide_eq_false hcount]
      exact ⟨_, rfl, h.replay⟩
  · by_cases hcount : c.count.toInt ≤ 0
    · rw [decide_eq_true hcount]
      refine ⟨c.counted.withIdx 0, (h.unpackScrs_eq_ok hrec).mpr ⟨c.counted, ?_, rfl⟩, h.replay⟩
      rw [Int.toNat_of_nonpos hcount]
      rfl
    · rw [decide_eq_false hcount]
      refine ⟨c.counted, (h.unpackScrs_eq_ok hrec).mpr ⟨c.counted, ?_, rfl⟩, h.replay⟩
      have hpass : (bidirectionalTransform 0 file.length).run c.counted = .ok (-1) c.counted := by
        unfold bidirectionalTransform
        rw [EStateM.run_bind, EStateM.run_get]
        simp only [bufferPos_counted h.pos]
        rw [if_neg (by decide), if_pos ⟨h.replay, by omega⟩, EStateM.run_pure]
      rw [show c.count.toInt.toNat = c.count.toInt.toNat - 1 + 1 by omega, transformLoop,
        run_bind_of_ok hpass]
      rfl

/-- In replay mode the bytes that were decoded can be read off the log, and they are
readable when they do not go past the file. -/
theorem Loaded.unpackScrs_inv (hrec : c.session.recordSyscalls ≠ 1) {ok : Bool} {c' : Core}
    (hrun : (unpackScrs file.length).run c = .ok ok c') :
    let l := logImage file.length c'.session.recordedScrs c.count.toInt.toNat 0 4
    slice c.session.buffer 4 l.length = l ∧ c'.session.bufferSeen = 4 + l.length ∧
      (4 + l.length ≤ file.length → Readable c.count.toInt.toNat 0
        (slice c.session.buffer 4 (file.length - 4))) := by
  obtain ⟨c₁, hloop, rfl⟩ := (h.unpackScrs_eq_ok hrec).mp hrun
  have hcur : c.counted.session.bufferPos.toNat = 4 := by
    rw [bufferPos_counted h.pos]
    rfl
  have hinv := transformLoop_inv h.le (h.counted hrec) (h.bufferSeen_counted.trans hcur.symm) hloop
  rw [hcur, Nat.zero_add] at hinv
  obtain ⟨-, hat, hseen, hread⟩ := hinv
  unfold Core.At at hat
  rw [hcur] at hat
  cases ok with
  | true => exact ⟨hat, hseen, hread⟩
  | false => exact ⟨hat, hseen, hread⟩

/-- **Decoding that stays inside the file** shows that the file can be decoded. -/
theorem Loaded.decodable {ok : Bool} {c' : Core}
    (hrun : (unpackScrs file.length).run c = .ok ok c')
    (hseen : c'.session.bufferSeen ≤ file.length) :
    Decodable c.session.recordSyscalls file := by
  by_cases hrec : c.session.recordSyscalls = 1
  · rw [unpackScrs_both hrec h.replay h.pos h.fresh] at hrun
    refine ⟨?_, .inl hrec⟩
    split at hrun
    all_goals
      injection hrun with _ hc'
      rw [← hc'] at hseen
      exact h.bufferSeen_counted.ge.trans hseen
  · obtain ⟨-, hlast, hread⟩ := h.unpackScrs_inv hrec hrun
    rw [hlast] at hseen
    have hfour : 4 ≤ file.length := by omega
    refine ⟨hfour, .inr ?_⟩
    rw [← h.count_eq hfour, ← h.slice_drop hfour]
    exact hread hseen

end

/-- **A file that can be decoded** is decoded without a look past it.  The log and the
result depend on the file and on what the log held before, not on the rest of the
buffer. -/
theorem Decodable.decodes {recordSyscalls : Word} {file : List Byte}
    (hfile : Decodable recordSyscalls file) (scrs : ℤ → SCR) (behind : ℤ → ℕ → Arg) :
    ∃ (f : ℤ → SCR) (v : Word), (v = 1 ∨ v = -1) ∧ ∀ c, Loaded c file →
      c.session.recordSyscalls = recordSyscalls → c.session.recordedScrs = scrs →
      c.session.behindArgs = behind → ∃ ok c', (unpackScrs file.length).run c = .ok ok c' ∧
        c'.session.recordedScrs = f ∧ (if ok then c'.session.replaySyscalls else -1) = v ∧
        c'.session.bufferSeen ≤ file.length := by
  obtain ⟨hfour, hread⟩ := hfile
  by_cases hrec : recordSyscalls = 1
  · refine ⟨scrs, 1, .inl rfl, fun c h hc hscrs _ => ?_⟩
    rw [hrec] at hc
    refine ⟨true, (c.advance 4).withIdx 0, ?_, hscrs, h.replay, ?_⟩
    · rw [unpackScrs_both hc h.replay h.pos h.fresh, if_pos (Or.inr (by omega))]
    · exact h.bufferSeen_counted.le.trans hfour
  · obtain ⟨f, v, hv, hloop⟩ := (hread.resolve_left hrec).decodes scrs behind
    refine ⟨f, v, hv, fun c h hc hscrs hbehind => ?_⟩
    rw [← hc] at hrec
    have hlen : (file.drop 4).length = file.length - 4 := List.length_drop
    have hend : c.counted.session.bufferPos + (file.drop 4).length = file.length := by
      rw [bufferPos_counted h.pos, hlen]
      omega
    have hat : slice c.counted.session.buffer c.counted.session.bufferPos.toNat
        (file.drop 4).length = file.drop 4 := by
      rw [bufferPos_counted h.pos, hlen]
      exact h.slice_drop hfour
    obtain ⟨ok, c₁, hrun, hlog, hresult, hseen⟩ := hloop c.counted file.length (h.counted hrec)
      hscrs hbehind hend h.le hat (h.bufferSeen_counted.le.trans hfour)
    rw [Nat.sub_zero, ← h.count_eq hfour] at hrun
    refine ⟨ok, _, (h.unpackScrs_eq_ok hrec).mpr ⟨c₁, hrun, rfl⟩, ?_⟩
    cases ok with
    | true => exact ⟨hlog, hresult, hseen⟩
    | false => exact ⟨hlog, hresult, hseen⟩

/-! ## Recorded files -/

theorem argsShape_values {vs : List FieldValue} (hvs : ∀ v ∈ vs, v.WellFormed) {i : ℕ}
    (hi : i + vs.length ≤ maxArgc) :
    ArgsShape vs.length i (vs.flatMap FieldValue.encode) .next := by
  induction vs generalizing i with
  | nil => exact .done
  | cons v vs ih =>
    rw [List.length_cons] at hi
    rw [List.flatMap_cons]
    exact .value (hvs v List.mem_cons_self) (by omega)
      (ih (fun w hw => hvs w (List.mem_cons_of_mem _ hw)) (by omega))

theorem Entry.WellFormed.takesRecord {e : Entry} (h : e.WellFormed) :
    TakesRecord e.encode .next := by
  have hargc : (BitVec.ofNat 8 e.values.length).toNat = e.values.length := by
    have := h.length_le
    rw [BitVec.toNat_ofNat, Nat.mod_eq_of_lt (by simp only [maxArgc] at this; omega)]
  refine .used h.syscall_ne ?_
  rw [hargc]
  exact argsShape_values h.values_wf (by rw [Nat.zero_add]; exact h.length_le)

theorem readable_entries {es : List Entry} (hes : ∀ e ∈ es, e.WellFormed) {k : ℕ}
    (hk : k + es.length ≤ maxScrs) (after : List Byte) :
    Readable (k + es.length) k (es.flatMap Entry.encode ++ after) := by
  induction es generalizing k with
  | nil => exact .done le_rfl
  | cons e es ih =>
    rw [List.length_cons] at hk ⊢
    rw [List.flatMap_cons, List.append_assoc, show k + (es.length + 1) = k + 1 + es.length by omega]
    exact .next (by omega) (by omega) (hes e List.mem_cons_self).takesRecord
      (ih (fun e' he' => hes e' (List.mem_cons_of_mem _ he')) (by omega))

/-- **What the recorder writes can be decoded**, whatever follows it in the file. -/
theorem decodable_encodeLog {es : List Entry} (hes : ∀ e ∈ es, e.WellFormed)
    (hlen : es.length ≤ maxScrs) (recordSyscalls : Word) (after : List Byte) :
    Decodable recordSyscalls (encodeLog es ++ after) := by
  have hfour : (toBytes (BitVec.ofNat 32 es.length)).length = 4 := length_toBytes _
  have hcount : fileCount (encodeLog es ++ after) = es.length := by
    rw [fileCount, encodeLog, List.append_assoc, List.take_left' hfour,
      fromBytes_toBytes (by decide), toInt_ofNat_of_lt (lt_of_le_of_lt hlen (by decide)),
      Int.toNat_natCast]
  refine ⟨?_, .inr ?_⟩
  · simp only [encodeLog, List.length_append, hfour]
    omega
  · rw [hcount, encodeLog, List.append_assoc, List.drop_left' hfour]
    simpa only [Nat.zero_add] using readable_entries hes (k := 0) (by omega) after

/-! ## Two stale buffers -/

/-- The last of its four bytes bounds the count. -/
theorem count_bounds (c : Core) : (c.session.buffer 3).toNat * 2 ^ 24 ≤ c.count.toNat ∧
    c.count.toNat < ((c.session.buffer 3).toNat + 1) * 2 ^ 24 := by
  have hvalue : c.count.toNat = leValue [c.session.buffer 0, c.session.buffer 1,
      c.session.buffer 2, c.session.buffer 3] % 2 ^ 32 := by
    rw [Core.count]
    exact BitVec.toNat_ofNat _ _
  simp only [leValue] at hvalue
  omega

theorem count_nonpos {c : Core} (h : c.session.buffer 3 = 128) : c.count.toInt ≤ 0 := by
  have hbounds := count_bounds c
  rw [h, show (128 : Byte).toNat = 128 from rfl] at hbounds
  rw [BitVec.toInt_eq_toNat_cond]
  split <;> omega

theorem count_pos {c : Core} (h : c.session.buffer 3 = 1) : 0 < c.count.toInt := by
  have hbounds := count_bounds c
  rw [h, show (1 : Byte).toNat = 1 from rfl] at hbounds
  rw [BitVec.toInt_eq_toNat_cond]
  split <;> omega

/-- **The same outcome over two stale buffers** that differ everywhere past the file
shows that the file can be decoded. -/
theorem Loaded.decodable_of_same {c₁ c₂ c₁' c₂' : Core} {file : List Byte} {ok₁ ok₂ : Bool}
    (h₁ : Loaded c₁ file) (h₂ : Loaded c₂ file)
    (hrec : c₂.session.recordSyscalls = c₁.session.recordSyscalls)
    (hold₁ : ∀ k, file.length ≤ k → c₁.session.buffer k = 128)
    (hold₂ : ∀ k, file.length ≤ k → c₂.session.buffer k = 1)
    (hrun₁ : (unpackScrs file.length).run c₁ = .ok ok₁ c₁')
    (hrun₂ : (unpackScrs file.length).run c₂ = .ok ok₂ c₂')
    (hresult : (if ok₁ then c₁'.session.replaySyscalls else -1)
      = if ok₂ then c₂'.session.replaySyscalls else -1)
    (hlog : c₁'.session.recordedScrs = c₂'.session.recordedScrs) :
    Decodable c₁.session.recordSyscalls file := by
  by_cases hfour : file.length < 4
  · -- the sign of the count is that of a stale byte
    obtain ⟨c, hshort₁, hreplay⟩ := h₁.unpackScrs_short hfour
    obtain ⟨d, hshort₂, -⟩ := h₂.unpackScrs_short hfour
    rw [decide_eq_true (count_nonpos (hold₁ 3 (by omega)))] at hshort₁
    rw [decide_eq_false (by have := count_pos (hold₂ 3 (by omega)); omega)] at hshort₂
    rw [hshort₁] at hrun₁
    rw [hshort₂] at hrun₂
    injection hrun₁ with hok₁ hc₁
    injection hrun₂ with hok₂ hc₂
    rw [← hok₁, ← hok₂, ← hc₁, if_pos rfl, if_neg (by decide), hreplay] at hresult
    exact absurd hresult (by decide)
  · by_cases hboth : c₁.session.recordSyscalls = 1
    · exact ⟨by omega, .inl hboth⟩
    · obtain ⟨hat₁, hseen, -⟩ := h₁.unpackScrs_inv hboth hrun₁
      obtain ⟨hat₂, -, -⟩ := h₂.unpackScrs_inv (by rw [hrec]; exact hboth) hrun₂
      rw [← hlog, h₂.count_eq (by omega), ← h₁.count_eq (by omega)] at hat₂
      refine h₁.decodable hrun₁ ?_
      -- a byte decoded past the file would be in both buffers
      by_contra hpast
      have hsame := eq_of_slice_eq (hat₁.trans hat₂.symm) (k := file.length) (by omega) (by omega)
      rw [hold₁ _ le_rfl, hold₂ _ le_rfl] at hsame
      exact absurd hsame (by decide)

/-! ## The start call -/

section

variable {σ ι π : Type} {ops : FsOps σ ι π} {store : FileStore ops} {m m₁ : Machine σ ι π}
  {filename bytes : List Byte} (h : Reloads store (some bytes) m filename m₁)
include h

/-- A file that has been loaded, up to the capacity of the buffer, is ready to decode. -/
theorem Reloads.loaded : Loaded m₁.core (bytes.take maxFileSize) := by
  obtain ⟨hload, hbuffer⟩ := h.load
  have hm₁ := loadSession_core hload
  refine ⟨by rw [hm₁]; rfl, by rw [hm₁]; rfl, by rw [hm₁]; rfl, by rw [hm₁]; rfl, ?_,
    List.length_take_le _ _⟩
  rw [hbuffer]
  exact slice_overlay_same _ _ _

theorem Reloads.recordSyscalls_eq :
    m₁.core.session.recordSyscalls = m.core.session.recordSyscalls := by
  rw [loadSession_core h.load.1]
  rfl

omit h in
/-- The call returns what the decoder returns. -/
theorem sysReplayStart_eq_ok {rStatus : Word} (hname : argstr m.kern.proc 0 = some filename)
    (hload : (loadSession ops).run (m.startReplay filename) = .ok (some rStatus) m₁) {v : Word}
    {m' : Machine σ ι π} : (sysReplayStart ops).run m = .ok v m' ↔
      ∃ ok c', (unpackScrs rStatus.toInt).run m₁.core = .ok ok c' ∧
        v = (if ok then c'.session.replaySyscalls else -1) ∧ m' = { m₁ with core := c' } := by
  rw [sysReplayStart_run hname, run_bind_of_ok hload]
  constructor
  · intro hrun
    obtain ⟨ok, m₂, hdecode, -⟩ := run_bind_eq_ok.mp hrun
    obtain ⟨c', hdecode', -⟩ := run_zoom_eq_ok.mp hdecode
    rw [decodeSession_of_ok hdecode'] at hrun
    injection hrun with hv hm'
    exact ⟨ok, c', hdecode', hv.symm, hm'.symm⟩
  · rintro ⟨ok, c', hdecode, rfl, rfl⟩
    exact decodeSession_of_ok hdecode

theorem Reloads.sysReplayStart_iff {v : Word} {m' : Machine σ ι π} :
    (sysReplayStart ops).run m = .ok v m' ↔
      ∃ ok c', (unpackScrs (bytes.take maxFileSize).length).run m₁.core = .ok ok c' ∧
        v = (if ok then c'.session.replaySyscalls else -1) ∧ m' = { m₁ with core := c' } := by
  have hle : (bytes.take maxFileSize).length ≤ maxFileSize := List.length_take_le _ _
  rw [sysReplayStart_eq_ok h.name h.load.1,
    toInt_ofNat_of_lt (lt_of_le_of_lt hle (by decide))]

/-! ## Safety -/

variable (ops) in
/-- **Safe decoding** of a file of which `my_read` returned `n` bytes: `sys_replay_start`
returns, so that it stored nothing outside the arrays; it looked at no byte of the
buffer beyond those `n`; and its result is `1` or negative. -/
def DecodesSafely (m : Machine σ ι π) (n : ℕ) : Prop :=
  ∃ v m', (sysReplayStart ops).run m = .ok v m' ∧ m'.core.session.bufferSeen ≤ n ∧
    (v = 1 ∨ v.toInt < 0)

/-- **Safety of the decoder**: a file is decoded safely just when it has a count and,
unless the record flag is on, its records can be read. -/
theorem decodes_safely_iff : DecodesSafely ops m (bytes.take maxFileSize).length ↔
    Decodable m.core.session.recordSyscalls (bytes.take maxFileSize) := by
  constructor
  · rintro ⟨v, m', hrun, hseen, -⟩
    obtain ⟨ok, c', hdecode, -, rfl⟩ := h.sysReplayStart_iff.mp hrun
    rw [← h.recordSyscalls_eq]
    exact h.loaded.decodable hdecode hseen
  · intro hdecodable
    obtain ⟨f, v, hv, hdecodes⟩ := hdecodable.decodes m₁.core.session.recordedScrs
      m₁.core.session.behindArgs
    obtain ⟨ok, c', hdecode, -, hresult, hseen⟩ := hdecodes m₁.core h.loaded
      h.recordSyscalls_eq rfl rfl
    refine ⟨v, { m₁ with core := c' }, h.sysReplayStart_iff.mpr
      ⟨ok, c', hdecode, hresult.symm, rfl⟩, hseen, ?_⟩
    rcases hv with rfl | rfl
    · exact .inl rfl
    · exact .inr (by decide)

end

theorem decodable_pidFile : Decodable 0 (pidFile.take maxFileSize) := by
  have hes : ∀ e ∈ [pidCall.entry], e.WellFormed := by
    rintro _ (_ | ⟨_, ⟨⟩⟩)
    exact Call.InLimits.entry_wf (pidCall_inLimits 5 [])
  exact decodable_encodeLog hes (by rw [List.length_singleton]; decide) 0 []

theorem reloads_pidFile :
    ∃ m₁, Reloads OneFile.store (some pidFile) (caller 7 pidFile) [47, 102] m₁ := by
  obtain ⟨m₁, hload⟩ := load_pidFile
  have hname : argstr (caller 7 pidFile).kern.proc 0 = some [47, 102] := rfl
  exact ⟨m₁, trivial, hname, rfl, 11, hload⟩

/-- The recording of one `getpid` is decoded safely. -/
theorem decodes_safely_iff_getpid : DecodesSafely OneFile.ops (caller 7 pidFile) 11 := by
  obtain ⟨m₁, hreload⟩ := reloads_pidFile
  exact (decodes_safely_iff hreload).mpr decodable_pidFile

/-- A file of one record, whose only argument is announced as `201` raw bytes. -/
def oversizedFile : List Byte := [1, 0, 0, 0, 11, 1, 3, 201, 0, 0, 0]

/-- The error that ended a run. -/
def halt {α : Type} : EStateM.Result Halt (Machine (List Byte) Unit Unit) α → Option Halt
  | .ok _ _ => none
  | .error e _ => some e

/-- The decoder copies `201` bytes into the `200` of `raw.data`. -/
theorem oversized_argument_is_copied :
    halt ((sysReplayStart OneFile.ops).run (caller 7 oversizedFile)) = some .outOfBounds ∧
      ¬ DecodesSafely OneFile.ops (caller 7 oversizedFile) 11 := by
  have hhalt : halt ((sysReplayStart OneFile.ops).run (caller 7 oversizedFile))
    = some .outOfBounds := by decide +kernel
  refine ⟨hhalt, ?_⟩
  rintro ⟨v, m', hok, -, -⟩
  rw [hok] at hhalt
  cases hhalt

section

variable {σ ι π : Type} {ops : FsOps σ ι π} {store : FileStore ops} {m m₁ : Machine σ ι π}
  {filename bytes : List Byte}

/-! ## Independence of stale bytes -/

variable (ops) in
/-- **Replay depends only on the file**: whatever an earlier session left in the buffer,
`sys_replay_start` returns, with the same result and the same log. -/
def DependsOnFile (m : Machine σ ι π) : Prop :=
  ∀ b₁ b₂ : Memory, ∃ v m₁ m₂, (sysReplayStart ops).run (m.withBuffer b₁) = .ok v m₁ ∧
    (sysReplayStart ops).run (m.withBuffer b₂) = .ok v m₂ ∧
    m₁.core.session.recordedScrs = m₂.core.session.recordedScrs

/-- The call over a given stale buffer loads the same file, and the rest of the buffer
is the stale one. -/
theorem Reloads.onto (h : Reloads store (some bytes) m filename m₁) (b : Memory) :
    ∃ b', Reloads store (some bytes) (m.withBuffer b) filename (m₁.withBuffer b') ∧
      ∀ k, (bytes.take maxFileSize).length ≤ k → b' k = b k := by
  obtain ⟨b', hload⟩ := loadSession_withBuffer b h.load.1
  change (loadSession ops).run ((m.withBuffer b).startReplay filename) = _ at hload
  have hover : Reloads store (some bytes) (m.withBuffer b) filename (m₁.withBuffer b') :=
    ⟨h.inv, h.name, h.file, _, hload⟩
  have hbuffer : b' = overlay b 0 (bytes.take maxFileSize) := hover.load.2
  refine ⟨b', hover, fun k hk => ?_⟩
  rw [hbuffer]
  exact overlay_apply_outside _ _ _ _ (by omega)

/-- **Stale bytes**: the replay of a file depends on the file alone just when the file
has a count and, unless the record flag is on, its records can be read. -/
theorem depends_on_file_iff (h : Reloads store (some bytes) m filename m₁) :
    DependsOnFile ops m ↔
      Decodable m.core.session.recordSyscalls (bytes.take maxFileSize) := by
  constructor
  · intro hsame
    obtain ⟨v, m', m'', hrun₁, hrun₂, hlog⟩ := hsame (fun _ => 128) (fun _ => 1)
    obtain ⟨b₁, hover₁, hold₁⟩ := h.onto fun _ => 128
    obtain ⟨b₂, hover₂, hold₂⟩ := h.onto fun _ => 1
    obtain ⟨ok₁, c₁, hdecode₁, hv₁, rfl⟩ := hover₁.sysReplayStart_iff.mp hrun₁
    obtain ⟨ok₂, c₂, hdecode₂, hv₂, rfl⟩ := hover₂.sysReplayStart_iff.mp hrun₂
    rw [← h.recordSyscalls_eq]
    exact hover₁.loaded.decodable_of_same hover₂.loaded rfl hold₁ hold₂ hdecode₁ hdecode₂
      (hv₁.symm.trans hv₂) hlog
  · intro hdecodable b₁ b₂
    obtain ⟨f, v, -, hdecodes⟩ := hdecodable.decodes m₁.core.session.recordedScrs
      m₁.core.session.behindArgs
    have hrun : ∀ b, ∃ m', (sysReplayStart ops).run (m.withBuffer b) = .ok v m' ∧
        m'.core.session.recordedScrs = f := by
      intro b
      obtain ⟨b', hover, -⟩ := h.onto b
      obtain ⟨ok, c', hdecode, hlog, hresult, -⟩ := hdecodes (m₁.withBuffer b').core hover.loaded
        hover.recordSyscalls_eq rfl rfl
      exact ⟨_, hover.sysReplayStart_iff.mpr ⟨ok, c', hdecode, hresult.symm, rfl⟩, hlog⟩
    obtain ⟨m', hrun₁, hlog₁⟩ := hrun b₁
    obtain ⟨m'', hrun₂, hlog₂⟩ := hrun b₂
    exact ⟨v, m', m'', hrun₁, hrun₂, hlog₁.trans hlog₂.symm⟩

end

/-- The recording of one `getpid` replays the same over any stale buffer. -/
theorem depends_on_file_iff_getpid : DependsOnFile OneFile.ops (caller 7 pidFile) := by
  obtain ⟨m₁, hreload⟩ := reloads_pidFile
  exact (depends_on_file_iff hreload).mpr decodable_pidFile

/-- A file cut off after its count of one record. -/
def cutFile : List Byte := [1, 0, 0, 0]

/-- The result of a call and the system call in the first record of its log. -/
def firstRecord : EStateM.Result Halt (Machine (List Byte) Unit Unit) Word → Option (Word × Byte)
  | .ok v m => some (v, (m.core.session.recordedScrs 0).syscall)
  | .error _ _ => none

/-- Over a blank buffer the cut file gives an empty log, and after an earlier session
it gives the `getpid` that this session has left in the buffer. -/
theorem stale_record_is_replayed :
    firstRecord ((sysReplayStart OneFile.ops).run ((caller 7 cutFile).withBuffer fun _ => 0))
        = some (1, unitializedScr) ∧
      firstRecord ((sysReplayStart OneFile.ops).run
        ((caller 7 cutFile).withBuffer (overlay (fun _ => 0) 0 pidFile))) = some (1, 11) ∧
      ¬ DependsOnFile OneFile.ops (caller 7 cutFile) := by
  have hblank : firstRecord ((sysReplayStart OneFile.ops).run
    ((caller 7 cutFile).withBuffer fun _ => 0)) = some (1, unitializedScr) := by decide +kernel
  have hstale : firstRecord ((sysReplayStart OneFile.ops).run
    ((caller 7 cutFile).withBuffer (overlay (fun _ => 0) 0 pidFile))) = some (1, 11) := by
    decide +kernel
  refine ⟨hblank, hstale, fun hsame => ?_⟩
  obtain ⟨v, m₁, m₂, hrun₁, hrun₂, hlog⟩ := hsame (fun _ => 0) (overlay (fun _ => 0) 0 pidFile)
  rw [hrun₁, firstRecord, hlog] at hblank
  rw [hrun₂, firstRecord, hblank] at hstale
  exact absurd hstale (by decide)

end V3
