/-
# What the log looks like while a process records

As long as start calls find both modes off and recorded calls stay within the limits,
the log of a recording has one record per call and nothing behind them, and every
record has the shape that its handler also builds when it replays: the inputs the arity
table says, then the outputs.  Stop, exit, a full log and the error helper end the
recording instead of breaking this, so `sys_record_stop` never meets a record that it
cannot encode.
-/
import Xv6Recorder.V3Histories
import Xv6Recorder.V3ModeExclusion

open Bytes StateError Xv6

namespace V3

/-! ## The shape of a record -/

/-- The arguments of a record, below `argc`, have these types. -/
structure SCR.Typed (scr : SCR) (tags : List Byte) : Prop where
  argc : scr.argc.toNat = tags.length
  types : ∀ (i : Fin maxArgc) (t : Byte), tags[(i : ℕ)]? = some t → (scr.args i).type = t

theorem createSCR_typed (number : Byte) : (createSCR number).Typed [] :=
  ⟨rfl, fun _ _ h => by simp at h⟩

/-- Adding an argument adds its type. -/
theorem pushArg_typed {scr : SCR} {tags : List Byte} (h : scr.Typed tags) (arg : Arg) :
    Ensures (fun _ => True) (pushArg scr arg)
      (fun scr' _ => scr'.Typed (tags ++ [arg.type])) := by
  intro c scr' c' _ hrun
  unfold pushArg at hrun
  simp only [EStateM.run] at hrun
  split at hrun
  case isFalse => cases hrun
  case isTrue hlt =>
    injection hrun with hscr _
    subst hscr
    have hargc := h.argc
    simp only [maxArgc] at hlt
    refine ⟨?_, fun i t ht => ?_⟩
    · rw [BitVec.toNat_add, List.length_append, ← hargc]
      exact Nat.mod_eq_of_lt (by simp; omega)
    · by_cases hi : (i : ℕ) = scr.argc.toNat
      · have hfin : i = ⟨scr.argc.toNat, hlt⟩ := Fin.ext hi
        rw [hi, hargc, List.getElem?_concat_length] at ht
        rw [hfin]
        simpa using ht
      · have hother : i ≠ ⟨scr.argc.toNat, hlt⟩ := fun hfin => hi (congrArg Fin.val hfin)
        have hbound := (List.getElem?_eq_some_iff.mp ht).1
        rw [List.length_append, List.length_singleton] at hbound
        rw [List.getElem?_append_left (by omega)] at ht
        simp only [Function.update_of_ne hother]
        exact h.types i t ht

theorem addStr_typed {scr : SCR} {tags : List Byte} (h : scr.Typed tags) (s : List Byte) :
    Ensures (fun _ => True) (addStr scr s) (fun scr' _ => scr'.Typed (tags ++ [byteType])) := by
  intro c scr' c' hP hrun
  unfold addStr at hrun
  simp only [EStateM.run] at hrun
  split at hrun
  · cases hrun
  · exact pushArg_typed h ⟨byteType, rawVal s⟩ hP hrun

section

variable {σ ι π : Type}

variable {P : Machine σ ι π → Prop} {ins : List FieldValue} {scr : SCR}

theorem onCore_typed {x : RecM SCR} {tags : List Byte}
    (hx : Ensures (fun _ => True) x (fun scr' _ => scr'.Typed tags)) :
    Ensures P (onCore x) (fun scr' _ => scr'.Typed tags) := by
  intro m scr' m' _ hrun
  obtain ⟨c, hcore, -⟩ := run_zoom_eq_ok.mp hrun
  exact hx trivial hcore

/-- **The types that a handler builds** for its inputs, whether or not they can be
fetched. -/
theorem addInputs_typed (inputs : List Input) {tags : List Byte} (h : scr.Typed tags) :
    Ensures P (addInputs inputs scr) (fun scr' _ => scr'.Typed (tags ++ inputs.map Input.tag)) := by
  induction inputs generalizing scr tags P with
  | nil => exact .pure fun _ _ => by simpa using h
  | cons input inputs ih =>
    have hadd : Ensures P (input.add scr) (fun scr' _ => scr'.Typed (tags ++ [input.tag])) := by
      cases input with
      | int pos => exact (ensures_true _).bind fun _ => onCore_typed (pushArg_typed h _)
      | str pos => exact (ensures_true _).bind fun _ => onCore_typed (addStr_typed h _)
    refine hadd.bind fun scr₁ m scr₂ m' h₁ hrun => ?_
    have h₂ := ih (P := fun _ => True) h₁ trivial hrun
    rwa [List.append_assoc, List.singleton_append] at h₂

/-- The types of the outputs of a call. -/
def Kind.outputTags : Kind → List Byte
  | .uptime => [uintType]
  | .read => [intType, byteType]
  | .fstat => [intType, statType]
  | _ => [intType]

theorem outputs_tags {k : Kind} {p : Proc ι} (hlim : k.InLimits p ins) (mem : Memory) (ret : Word) :
    (k.outputs p mem ret).map FieldValue.tag = k.outputTags := by
  cases k with
  | read =>
    obtain ⟨a, ha⟩ := Option.isSome_iff_exists.mp (hlim.read rfl)
    simp only [Kind.outputs, ha]
    rfl
  | fstat =>
    obtain ⟨a, ha⟩ := Option.isSome_iff_exists.mp (hlim.fstat rfl)
    simp only [Kind.outputs, ha]
    rfl
  | _ => rfl

theorem SCR.Holds.typed {e : Entry} (h : scr.Holds e) :
    scr.Typed (e.values.map FieldValue.tag) := by
  refine ⟨by rw [h.argc_toNat, List.length_map], fun i t ht => ?_⟩
  obtain ⟨hi, ht⟩ := List.getElem?_eq_some_iff.mp ht
  rw [List.length_map] at hi
  rw [List.getElem_map] at ht
  rw [← tag_value, h.value_at i hi, ← ht]
  rfl

/-- A record that the handler of a recorded call has built. -/
structure RecordOf (ops : FsOps σ ι π) (k : Kind) (scr : SCR) : Prop where
  syscall : scr.syscall = (handler ops k).number
  argc_le : scr.argc.toNat ≤ maxArgc
  /-- As many inputs as the arity table says. -/
  arity : get1stOutputPos scr.syscall = (handler ops k).inputs.length
  /-- The inputs, then the outputs, and nothing else. -/
  typed : scr.Typed ((handler ops k).inputs.map Input.tag ++ k.outputTags)
  /-- The inputs have the types that the handler builds when it replays. -/
  replayed : ∀ (m m' : Machine σ ι π) (built : SCR),
    (addInputs (handler ops k).inputs (createSCR (handler ops k).number)).run m = .ok built m' →
    (built.argc.toNat : ℤ) = get1stOutputPos scr.syscall ∧
      ∀ i : Fin maxArgc, (i : ℕ) < built.argc.toNat → (scr.args i).type = (built.args i).type
  type_ne : ∀ i : Fin maxArgc, (i : ℕ) < scr.argc.toNat → (scr.args i).type ≠ noneType
  rawSize : ∀ i : Fin maxArgc, (i : ℕ) < scr.argc.toNat → (scr.args i).type = byteType →
    0 ≤ (scr.args i).val.rawSize.toInt ∧ (scr.args i).val.rawSize.toInt ≤ maxRawSize

/-- **A call within the limits** leaves such a record. -/
theorem recordOf_of_holds (ops : FsOps σ ι π) {k : Kind} {p : Proc ι} (hlim : k.InLimits p ins)
    {mem : Memory} {ret : Word} (hwf : scr.WellFormed)
    (h : scr.Holds ⟨k.number, ins ++ k.outputs p mem ret⟩) : RecordOf ops k scr := by
  have htyped := h.typed
  simp only [List.map_append, fetchInputs_tags hlim.inputs, outputs_tags hlim] at htyped
  have hpos : get1stOutputPos scr.syscall = k.inputs.length := by
    rw [h.syscall_eq, get1stOutputPos_number]
  refine ⟨by rw [h.syscall_eq, handler_number], hwf.argc_le, by rw [hpos, handler_inputs],
    by rw [handler_inputs]; exact htyped, ?_, fun i hi => type_ne_noneType (hwf.args_wf i hi), ?_⟩
  · intro m m' built hbuilt
    have hb := addInputs_typed _ (createSCR_typed _) (P := fun _ => True) trivial hbuilt
    rw [List.nil_append, handler_inputs] at hb
    refine ⟨by rw [hpos, hb.argc, List.length_map], fun i hi => ?_⟩
    rw [hb.argc] at hi
    have htag := List.getElem?_eq_getElem hi
    rw [hb.types i _ htag]
    exact htyped.types i _ (by rw [List.getElem?_append_left hi, htag])
  · intro i hi htype
    rcases wellFormed_cases (hwf.args_wf i hi) with h | h | ⟨-, hle⟩ | h
    · rw [htype] at h
      exact absurd h (by decide)
    · rw [htype] at h
      exact absurd h (by decide)
    · rw [toInt_eq_toNat_of_le hle]
      exact ⟨Int.natCast_nonneg _, by exact_mod_cast hle⟩
    · rw [htype] at h
      exact absurd h (by decide)

/-- The types of the arguments of a recorded call are those the codec has a case for. -/
theorem mem_tags_of_kind (k : Kind) :
    ∀ t ∈ k.inputs.map Input.tag ++ k.outputTags,
      t = intType ∨ t = uintType ∨ t = byteType ∨ t = statType := by
  cases k <;> simp [Kind.inputs, Kind.outputTags, Input.tag]

/-- The codec can carry such a record. -/
theorem RecordOf.wellFormed {ops : FsOps σ ι π} {k : Kind} (h : RecordOf ops k scr) :
    scr.WellFormed := by
  refine ⟨by rw [h.syscall, handler_number]; exact number_ne_unitializedScr k, h.argc_le, ?_⟩
  intro i hi
  have htyped := h.typed
  rw [handler_inputs] at htyped
  have hlt := hi
  rw [htyped.argc] at hlt
  have htype := htyped.types i _ (List.getElem?_eq_getElem hlt)
  have hmem := mem_tags_of_kind k _ (List.getElem_mem hlt)
  rw [← htype] at hmem
  unfold Arg.value
  split_ifs with h₁ h₂ h₃ h₄
  · trivial
  · trivial
  · obtain ⟨hlo, hhi⟩ := h.rawSize i hi h₃
    show (slice _ _ _).length ≤ maxRawSize
    rw [length_slice]
    rw [BitVec.toInt_eq_toNat_cond] at hlo hhi
    split at hhi <;> omega
  · trivial
  · simp only [h₁, h₂, h₃, h₄, or_self] at hmem

/-! ## The invariant -/

/-- The log of a recording: one record per call, and only unused records behind. -/
structure LogInvariant (ops : FsOps σ ι π) (s : Session) : Prop where
  replay : s.replaySyscalls ≠ 1
  idx : 0 ≤ s.scrsIdx ∧ s.scrsIdx ≤ maxScrs
  records : ∀ i, 0 ≤ i → i < s.scrsIdx → ∃ k, RecordOf ops k (s.recordedScrs i)
  unused : ∀ i, s.scrsIdx ≤ i → i < maxScrs → s.recordedScrs i = createSCR unitializedScr

section

variable {ops : FsOps σ ι π} {m m' : Machine σ ι π}

/-- The start call leaves an empty log. -/
theorem logInvariant_start (s : Session) (filename : List Byte) (pid : Word)
    (hrep : s.replaySyscalls ≠ 1) : LogInvariant ops (s.startRecord filename pid) where
  replay := hrep
  idx := ⟨le_rfl, Int.natCast_nonneg _⟩
  records _ hlo hhi := absurd (lt_of_le_of_lt hlo hhi) (lt_irrefl _)
  unused _ hlo hhi := if_pos ⟨hlo, hhi⟩

/-- One more record. -/
theorem LogInvariant.append {c : Core} (h : LogInvariant ops c.session)
    (hidx : c.session.scrsIdx < maxScrs) {k : Kind} {scr : SCR} (hscr : RecordOf ops k scr) :
    LogInvariant ops (c.append scr).session := by
  have hlog : ∀ i, (c.append scr).session.recordedScrs i
      = if i = c.session.scrsIdx then scr else c.session.recordedScrs i := fun i => by
    simp only [Core.append, Function.update_apply]
  have hnext : (c.append scr).session.scrsIdx = c.session.scrsIdx + 1 := rfl
  have hrange := h.idx
  refine ⟨h.replay, by rw [hnext]; omega, fun i hlo hhi => ?_, fun i hlo hhi => ?_⟩
  · rw [hlog]
    split
    · exact ⟨k, hscr⟩
    · exact h.records i hlo (by rw [hnext] at hhi; omega)
  · rw [hnext] at hlo
    rw [hlog, if_neg (by omega)]
    exact h.unused i (by omega) hhi

/-! ## Calls and stops -/

/-- **A recorded call** keeps the invariant, or ends the recording. -/
theorem LogInvariant.call (h : LogInvariant ops m.core.session)
    (hrec : isRecording m.core.session m.kern.proc.pid = true) {k : Kind} {frame : Frame}
    {ins : List FieldValue} (hlim : k.InLimits m.kern.proc ins) {r : Word}
    (hrun : ((handler ops k).run frame).run m = .ok r m')
    (hstill : m'.core.session.recordSyscalls = 1) : LogInvariant ops m'.core.session := by
  have hrep : isReplaying m.core.session m.kern.proc.pid = false := by
    rw [isReplaying, beq_eq_false_iff_ne.mpr h.replay, Bool.false_and]
  cases horig : (handler ops k).original.run m.kern with
  | error msg kern' =>
    rw [record_call_panic ops k frame m hrec hrep hlim horig] at hrun
    cases hrun
  | ok ret kern' =>
    by_cases hidx : m.core.session.scrsIdx < maxScrs
    · obtain ⟨scr, hcall, hholds⟩ := record_call_ok ops k frame m hrec hrep hlim horig hidx
      rw [hcall] at hrun
      injection hrun with _ hm
      have hcall : (⟨k, frame, ins, m.kern, ret, kern'⟩ : Call σ ι π).InLimits := hlim
      have hentry : Entry.WellFormed
          ⟨k.number, ins ++ k.outputs m.kern.proc kern'.proc.mem ret⟩ := hcall.entry_wf
      rw [← hm]
      exact h.append hidx (recordOf_of_holds ops hlim (hholds.wellFormed hentry) hholds)
    · rw [record_call_full ops k frame m hrec hrep hlim horig (by omega)] at hrun
      injection hrun with _ hm
      rw [← hm] at hstill
      exact absurd hstill (by simp [recRepErr])

/-- A stop that leaves the record flag on has done nothing. -/
theorem sysRecordStop_still {r : Word} (hrun : (sysRecordStop ops).run m = .ok r m')
    (hstill : m'.core.session.recordSyscalls = 1) : m' = m := by
  rw [sysRecordStop, EStateM.run_bind, EStateM.run_get] at hrun
  simp only at hrun
  split at hrun
  case isFalse =>
    injection hrun with _ hm
    exact hm.symm
  case isTrue =>
    exfalso
    obtain ⟨ok, m₁, -, hrest⟩ := run_bind_eq_ok.mp hrun
    split at hrest
    · obtain ⟨_, m₂, hoff, hsave⟩ := run_bind_eq_ok.mp hrest
      injection hoff with _ hm₂
      have hon := ((keeps_saveSession ops).of_ok hsave).record hstill
      rw [← hm₂] at hon
      exact absurd (show (0 : Word) = 1 from hon) (by decide)
    · obtain ⟨_, m₂, herr, hpure⟩ := run_bind_eq_ok.mp hrest
      injection herr with _ hm₂
      injection hpure with _ hm
      rw [← hm, ← hm₂] at hstill
      exact absurd hstill (by simp [recRepErr])

/-- Stopping a replay does not touch a recording. -/
theorem sysReplayStop_still {r : Word} (h : m.core.session.replaySyscalls ≠ 1)
    (hrun : (sysReplayStop : SysM σ ι π Word).run m = .ok r m') : m' = m := by
  have hidle : isReplaying m.core.session m.kern.proc.pid = false := by
    rw [isReplaying, beq_eq_false_iff_ne.mpr h, Bool.false_and]
  rw [sysReplayStop_idle hidle] at hrun
  injection hrun with _ hm
  exact hm.symm

/-- `sys_exit` before the kernel's own `exit`, as for the two stop calls. -/
theorem sysExit_still (h : m.core.session.replaySyscalls ≠ 1)
    (hrun : (sysExit ops).run m = .ok () m') (hstill : m'.core.session.recordSyscalls = 1) :
    m'.core = m.core := by
  obtain ⟨_, m₁, hreplay, hrest⟩ := run_bind_eq_ok.mp hrun
  obtain rfl := sysReplayStop_still h hreplay
  obtain ⟨_, m₂, hrecord, hexit⟩ := run_bind_eq_ok.mp hrest
  have hsame : m₂.SameCore m' := (sameCore_onKern _).of_ok hexit
  have hcore : m'.core = m₂.core := hsame
  rw [hcore] at hstill ⊢
  rw [sysRecordStop_still hrecord hstill]

/-! ## Steps -/

variable (ops) in
/-- While the record flag is on, the invariant holds. -/
def Session.LogOk (s : Session) : Prop := s.recordSyscalls = 1 → LogInvariant ops s

/-- A start call finds both modes off. -/
def IdleStart (s : System σ ι π) : Event → Prop
  | .trap pid _ .recordStart _ | .trap pid _ .replayStart _ => ∀ p, s.procs pid = some (p, false) →
      s.session.recordSyscalls ≠ 1 ∧ s.session.replaySyscalls ≠ 1
  | _ => True

/-- A recorded-kind call of the process that is recording is within the limits. -/
def CallInLimits (s : System σ ι π) : Event → Prop
  | .trap pid _ (.call k) _ => ∀ p, s.procs pid = some (p, false) → isRecording s.session pid →
      ∃ ins, k.InLimits p ins
  | _ => True

/-- **One step** keeps the invariant. -/
theorem Step.logOk {s s' : System σ ι π} {e : Event} (h : Step ops s e s')
    (hidle : IdleStart s e) (hlim : CallInLimits s e) (hs : s.session.LogOk ops) :
    s'.session.LogOk ops := by
  cases h with
  | kill hproc => exact hs
  | other hsession => rw [hsession]; exact hs
  | @trap pid p killed frame sc eax m hproc hpid hrun =>
    rcases trap_eq_ok hrun with ⟨-, -, hsame⟩ | ⟨hkilled, r, m₁, hcall, hsame, -⟩
    · rw [System.put, hsame]
      exact hs
    · rw [System.put, hsame]
      subst hkilled
      intro hon
      have hrec₀ : sc.isStart = false → s.session.recordSyscalls = 1 := fun hsc =>
        ((keeps_syscall ops frame sc hsc).of_ok hcall).record hon
      cases sc with
      | call k =>
        have hinv := hs (hrec₀ rfl)
        obtain ⟨v, hhandler, -⟩ := run_bind_pure_eq_ok.mp hcall
        by_cases howner : s.session.rrPid = pid
        · have hrec : isRecording s.session pid = true := by
            simp [isRecording, hrec₀ rfl, howner]
          obtain ⟨ins, hins⟩ := hlim p hproc hrec
          rw [← hpid] at hrec
          exact LogInvariant.call (m := s.machine p false) hinv hrec hins hhandler hon
        · have hne : (s.machine p false).core.session.rrPid
              ≠ (s.machine p false).kern.proc.pid := fun h => howner (h.trans hpid)
          rw [stranger_handler hne] at hhandler
          have hcore : (s.machine p false).SameCore m₁ := (sameCore_onKern _).of_ok hhandler
          rw [hcore]
          exact hinv
      | recordStart =>
        obtain ⟨v, hstart, -⟩ := run_bind_pure_eq_ok.mp hcall
        cases hname : argstr p 0 with
        | none =>
          rw [sysRecordStart_none hname] at hstart
          injection hstart with _ hm
          rw [← hm] at hon ⊢
          exact hs hon
        | some filename =>
          rw [sysRecordStart_run hname] at hstart
          injection hstart with _ hm
          rw [← hm]
          exact logInvariant_start _ _ _ (hidle p hproc).2
      | replayStart =>
        obtain ⟨v, hstart, -⟩ := run_bind_pure_eq_ok.mp hcall
        exact absurd (sysReplayStart_record hstart hon).1 (hidle p hproc).1
      | recordStop =>
        have hinv := hs (hrec₀ rfl)
        obtain ⟨v, hstop, -⟩ := run_bind_pure_eq_ok.mp hcall
        rw [sysRecordStop_still hstop hon]
        exact hinv
      | replayStop =>
        have hinv := hs (hrec₀ rfl)
        obtain ⟨v, hstop, -⟩ := run_bind_pure_eq_ok.mp hcall
        rw [sysReplayStop_still hinv.replay hstop]
        exact hinv
      | exit =>
        have hinv := hs (hrec₀ rfl)
        obtain ⟨_, hexit, -⟩ := run_bind_pure_eq_ok.mp hcall
        rw [sysExit_still hinv.replay hexit hon]
        exact hinv

/-- **A whole run** keeps the invariant. -/
theorem Run.logOk {s : System σ ι π} {path : List (Event × System σ ι π)} (h : Run ops s path)
    (hidle : ∀ before e s' after, path = before ++ (e, s') :: after →
      IdleStart (Transitions.last s before) e)
    (hlim : ∀ before e s' after, path = before ++ (e, s') :: after →
      CallInLimits (Transitions.last s before) e) (hs : s.session.LogOk ops) :
    ∀ before after, path = before ++ after → (Transitions.last s before).session.LogOk ops := by
  refine h.invariant (I := fun _ t => t.session.LogOk ops) hs ?_
  intro before e s' after hpath hstep hok
  exact hstep.logOk (hidle before e s' after hpath) (hlim before e s' after hpath) hok

/-! ## Stopping -/

/-- The encoder takes none of its error branches: every record is encoded whole, and
all of them are, unless the buffer is too small. -/
structure EncodesWhole (s : Session) : Prop where
  record : ∀ i, 0 ≤ i → i < s.scrsIdx → ∀ behind,
    Emits (transformSCR behind (s.recordedScrs i)) (s.recordedScrs i).entry.encode
      (1, s.recordedScrs i)
  log : ∀ killed, (packScrs.run ⟨s, killed⟩ = .ok true ((Core.mk s killed).rewind.write
      ((Core.mk s killed).encoding s.scrsIdx.toNat))) ∨
    (maxFileSize < ((Core.mk s killed).encoding s.scrsIdx.toNat).length ∧
      ∃ c, packScrs.run ⟨s, killed⟩ = .error .outOfBounds c)

theorem LogInvariant.encodable {s : Session} (h : LogInvariant ops s) {i : ℤ} (hlo : 0 ≤ i)
    (hhi : i < s.scrsIdx) : (s.recordedScrs i).WellFormed := by
  obtain ⟨k, hk⟩ := h.records i hlo hhi
  exact hk.wellFormed

theorem LogInvariant.encodesWhole {s : Session} (h : LogInvariant ops s)
    (hrec : s.recordSyscalls = 1) : EncodesWhole s := by
  have hrange := h.idx
  refine ⟨fun i hlo hhi behind => emits_transformSCR behind _ (h.encodable hlo hhi),
    fun killed => ?_⟩
  have hpack := packScrs_record ⟨s, killed⟩ hrec h.replay s.scrsIdx.toNat
    (by rw [Int.toNat_of_nonneg hrange.1]) (by omega)
    (fun k hk => h.encodable (Int.natCast_nonneg _) (by omega))
  rcases le_or_gt ((Core.mk s killed).encoding s.scrsIdx.toNat).length maxFileSize with hfit | hlong
  · exact .inl (hpack.1 hfit)
  · exact .inr ⟨hlong, hpack.2 hlong⟩

end

/-- **The recording invariant.**  In a run from boot in which start calls find both modes
off and recorded calls are within the limits, in every state in which the record flag is
on, the log has between `0` and `MAX_SCRS` records, each built by the handler of its
call, with only unused records behind them; and `sys_record_stop` encodes all of them
without meeting an unused record or an argument it has no case for. -/
theorem recording_invariant {ops : FsOps σ ι π} {s : System σ ι π}
    {path : List (Event × System σ ι π)} (hrun : Run ops s path)
    (hboot : s.session = Session.boot)
    (hidle : ∀ before e s' after, path = before ++ (e, s') :: after →
      IdleStart (Transitions.last s before) e)
    (hlim : ∀ before e s' after, path = before ++ (e, s') :: after →
      CallInLimits (Transitions.last s before) e) :
    ∀ before after, path = before ++ after →
      (Transitions.last s before).session.recordSyscalls = 1 →
      LogInvariant ops (Transitions.last s before).session ∧
        EncodesWhole (Transitions.last s before).session := by
  intro before after hpath hrec
  have hs : s.session.LogOk ops := by
    rw [hboot]
    exact fun h => absurd h (by decide)
  have hinv := Run.logOk hrun hidle hlim hs before after hpath hrec
  exact ⟨hinv, hinv.encodesWhole hrec⟩

end

/-- Process `5` starts to record and calls `getpid`: the log has one record. -/
theorem recording_invariant_getpid :
    ∃ s₁ s₂, Run OneFile.ops bootSystem [(.trap 5 Frame.zero .recordStart (some 1), s₁),
        (.trap 5 Frame.zero (.call .getpid) (some 5), s₂)] ∧
      s₂.session.recordSyscalls = 1 ∧ s₂.session.scrsIdx = 1 ∧
      LogInvariant OneFile.ops s₂.session ∧ EncodesWhole s₂.session := by
  have hname : argstr (OneFile.proc 5 [64] [102, 0]) 0 = some [102] := rfl
  have hlim : Kind.getpid.InLimits (OneFile.proc 5 [64] [102, 0]) [] :=
    Kind.inLimits_of_plain (by decide) (by decide) rfl (by decide)
  let m₁ := (bootSystem.machine (OneFile.proc 5 [64] [102, 0]) false).startRecord [102]
  have hstep₁ : Step OneFile.ops bootSystem (.trap 5 Frame.zero .recordStart (some 1))
      (bootSystem.put 5 (some 1) m₁) := .recordStart rfl rfl hname Frame.zero
  obtain ⟨scr, hcall, -⟩ := record_call_ok OneFile.ops .getpid Frame.zero m₁ rfl rfl hlim
    (show (handler OneFile.ops .getpid).original.run m₁.kern = .ok 5 m₁.kern from rfl) (by decide)
  have hstep₂ : Step OneFile.ops (bootSystem.put 5 (some 1) m₁)
      (.trap 5 Frame.zero (.call .getpid) (some 5)) _ :=
    .trap (show (bootSystem.put 5 (some 1) m₁).procs 5
      = some (OneFile.proc 5 [64] [102, 0], false) from rfl) rfl
      (trap_of_alive rfl (run_bind_of_ok hcall) rfl)
  have hrun := Transitions.Path.cons hstep₁ (.cons hstep₂ .nil)
  have hidle : IdleStart bootSystem (.trap 5 Frame.zero .recordStart (some 1)) := by
    intro _ _
    decide
  have hcall' : CallInLimits (bootSystem.put 5 (some 1) m₁)
      (.trap 5 Frame.zero (.call .getpid) (some 5)) := by
    rintro p hp -
    injection hp with hp
    injection hp with hp _
    rw [← hp]
    exact ⟨[], hlim⟩
  obtain ⟨hinv, hencodes⟩ := recording_invariant hrun rfl
    (Transitions.forall_step_cons (Q := fun t e _ => IdleStart t e) hidle
      (Transitions.forall_step_cons (Q := fun t e _ => IdleStart t e) trivial
        (Transitions.forall_step_nil (Q := fun t e _ => IdleStart t e))))
    (Transitions.forall_step_cons (Q := fun t e _ => CallInLimits t e) trivial
      (Transitions.forall_step_cons (Q := fun t e _ => CallInLimits t e) hcall'
        (Transitions.forall_step_nil (Q := fun t e _ => CallInLimits t e))))
    _ [] (List.append_nil _).symm rfl
  exact ⟨_, _, hrun, rfl, rfl, hinv, hencodes⟩

end V3
