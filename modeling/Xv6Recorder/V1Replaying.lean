/-
# Record and replay of the first recorder

The first recorder logs `getpid`, `read`, `open` and `close`, of all processes, with the inputs
that a handler captures and the value that it returns.  A replayed call compares what it captures
with the next record and returns the recorded value; a call that captures something else, or that
has no record left, ends its process.  So a replay gets exactly as far as the calls are the
recorded ones.

Only the return value is replayed: the bytes that a recorded `read` delivered are not in the
record, and a replayed `read` leaves the caller's buffer as it is.  What is compared for a `read`
is the text that stood in the buffer before the call.
-/
import Xv6Recorder.Lockstep
import Xv6Recorder.V1RecordGroup
import Xv6Recorder.V1System
import Xv6Recorder.V1Validation

open Bytes StateError Xv6
open V3 (Kind myOpen myRead myWrite myClose strcpy)

namespace V1

/-! ## Values and what is captured -/

namespace Value

/-- The value as a handler hands it on. -/
def typed : Value → Typed
  | .int num => .int num
  | .text original => .str (convertToStr original).2

theorem typed_type (v : Value) : v.typed.type = v.type := by
  cases v <;> rfl

theorem typed_holds (v : Value) : v.typed.val.Holds v := by
  cases v with
  | int num => exact DataVal.holds_setInt _ num
  | text original => exact DataVal.holds_setStr _ original

/-- A text fits into a `struct String`. -/
def Fits : Value → Prop
  | .int _ => True
  | .text original => original.length ≤ strMaxSize

instance (v : Value) : Decidable v.Fits := by
  cases v <;> simp only [Fits] <;> infer_instance

end Value

/-- A field that holds a value that fits is made of it. -/
theorem Value.Fits.fill {v : Value} (h : v.Fits) (newField : Field) :
    ∃ field, newField.fill v.type v.typed.val = .ok field := by
  cases v with
  | int num => exact ⟨_, if_pos rfl⟩
  | text original =>
    have hstr : (Value.text original).typed.val.strVal = (convertToStr original).2 :=
      (Value.text original).typed_holds
    have hvalid : (convertToStr original).2.isValid ≠ 0 := by
      rw [convertToStr_of_le h]
      exact (by decide : (1 : Byte) ≠ 0)
    refine ⟨{ newField with strVal := (convertToStr original).2 }, ?_⟩
    unfold Field.fill
    rw [Value.type, if_neg (by decide), if_pos rfl, hstr, if_neg hvalid]

section

variable {σ ι π : Type}

/-- What the handler of a recorded kind captures, unless the scan of a buffer faults.  The other
kinds are not recorded. -/
def captured (locals : Locals) (p : Proc ι) : Kind → Option (List Value)
  | .getpid => some []
  | .read =>
    let n := argint p 2
    let text := match argptr p 1 (n.getD locals.n) with
      | none => some []
      | some addr => textAt p addr
    text.map fun text => [.int ((argint p 0).getD (-1)), .text text, .int (n.getD (-1))]
  | .open => some [.text ((argstr p 0).getD []), .int ((argint p 1).getD 0)]
  | .close => some [.int ((argint p 0).getD (-1))]
  | _ => none

/-- The syscall number under which a call is recorded. -/
def number : Kind → Word
  | .getpid => 11
  | .read => 5
  | .open => 15
  | .close => 21
  | _ => 0

/-- The handlers that record. -/
def handlerOf (ops : FsOps σ ι π) (locals : Locals) : Kind → Option (Handler σ ι π)
  | .getpid => some sysGetpid
  | .read => some (sysRead ops locals)
  | .open => some (sysOpen ops)
  | .close => some (sysClose ops)
  | _ => none

theorem sysCall_of_handler {ops : FsOps σ ι π} {locals : Locals} {k : Kind} {h : Handler σ ι π}
    (hk : handlerOf ops locals k = some h) : sysCall ops locals k = h.run ops locals := by
  cases k <;> cases hk <;> rfl

/-- How many inputs a kind has. -/
def arity : Kind → ℕ
  | .read => 3
  | .open => 2
  | .close => 1
  | _ => 0

theorem arity_lt (k : Kind) : arity k < maxFieldSize := by
  cases k <;> decide

section Captured

variable {locals : Locals} {p : Proc ι} {k k' : Kind} {vals : List Value}

theorem captured_length (h : captured locals p k = some vals) : vals.length = arity k := by
  cases k <;> simp only [captured, Option.map_eq_some_iff, Option.some.injEq, reduceCtorEq] at h
  case read =>
    obtain ⟨text, -, rfl⟩ := h
    rfl
  all_goals
    subst h
    rfl

/-- The recorded kinds have known numbers, and no two of them share one. -/
theorem captured_number (h : captured locals p k = some vals) :
    0 < ((number k).setWidth 8).toInt ∧ ((number k).setWidth 8).toInt ≤ 27 := by
  cases k <;> first | cases h | skip
  all_goals decide

theorem number_inj (h : captured locals p k = some vals)
    (heq : (number k).setWidth 8 = (number k').setWidth 8) : k = k' := by
  cases k <;> first | cases h | skip
  all_goals
    cases k' <;> first | rfl | exact absurd heq (by decide)

end Captured

/-! ## How a replaying process ends -/

/-- The machine after both stop calls, when only a replay was going on. -/
def Machine.stopped (m : Machine σ ι π) : Machine σ ι π :=
  { m with session := { m.session with replaySyscalls := 0, rg := recordGroupConstructor } }

variable {ops : FsOps σ ι π} {m : Machine σ ι π}

section Replaying

variable (hrec : m.session.recordSyscalls ≠ 1) (hrep : m.session.replaySyscalls = 1)
include hrec hrep

theorem sysExit_replaying {α : Type} :
    (sysExit ops : SysM σ ι π α).run m = .error .exited m.stopped := by
  have hreplay : (sysReplayStop : SysM σ ι π Word).run m = .ok 0 m.stopped := by
    rw [sysReplayStop, EStateM.run_bind, EStateM.run_get]
    dsimp only
    rw [if_pos hrep]
    rfl
  have hrecord : (sysRecordStop ops).run m.stopped = .ok m.session.recordSyscalls m.stopped := by
    rw [sysRecordStop, EStateM.run_bind, EStateM.run_get]
    dsimp only [Machine.stopped]
    rw [if_neg hrec]
    rfl
  rw [sysExit, run_bind_of_ok hreplay, run_bind_of_ok hrecord]
  rfl

/-- Any code but `VALID` ends a replay. -/
theorem errorHandling_replaying {code : ErrCode} (hcode : code ≠ .valid) :
    (errorHandling ops code).run m = .error .exited m.stopped := by
  rw [errorHandling, if_neg hcode]
  exact sysExit_replaying hrec hrep

end Replaying

theorem run_access_bind {α β : Type} (a : α) (g : α → SysM σ ι π β) :
    (access (some a) >>= g).run m = (g a).run m := rfl

theorem errorHandling_valid : (errorHandling ops .valid).run m = .ok () m := by
  rw [errorHandling, if_pos rfl]
  rfl

/-- **What a handler captures.**  Texts that fit are handed on; in a replay, a text that does not
ends the process. -/
theorem handler_inputs (ops : FsOps σ ι π) {locals : Locals} {k : Kind} {vals : List Value}
    (hcap : captured locals m.kern.proc k = some vals) :
    ∃ h, handlerOf ops locals k = some h ∧ h.syscall = number k ∧
      ((∀ v ∈ vals, v.Fits) → h.inputs.run m = .ok (vals.map Value.typed) m) ∧
      (¬ (∀ v ∈ vals, v.Fits) → m.session.recordSyscalls ≠ 1 → m.session.replaySyscalls = 1 →
        h.inputs.run m = .error .exited m.stopped) := by
  -- one text is captured at most, and it decides
  have hcapture : ∀ text, (text.length ≤ strMaxSize →
        (capture ops text).run m = .ok (.str (convertToStr text).2) m) ∧
      (¬ text.length ≤ strMaxSize → m.session.recordSyscalls ≠ 1 → m.session.replaySyscalls = 1 →
        (capture ops text).run m = .error .exited m.stopped) := by
    intro text
    refine ⟨capture_fits, fun hlong hrec hrep => ?_⟩
    rw [capture]
    exact run_bind_of_error (errorHandling_replaying hrec hrep (convertToStr_long (by omega)))
  cases k with
  | getpid =>
    cases hcap
    exact ⟨_, rfl, rfl, fun _ => rfl, fun hno => absurd (fun v hv => by cases hv) hno⟩
  | close =>
    cases hcap
    refine ⟨_, rfl, rfl, fun _ => rfl, fun hno => absurd (fun v hv => ?_) hno⟩
    rw [List.mem_singleton.mp hv]
    trivial
  | «open» =>
    cases hcap
    obtain ⟨hshort, hlong⟩ := hcapture ((argstr m.kern.proc 0).getD [])
    have hrun : (sysOpen ops).inputs.run m = ((capture ops ((argstr m.kern.proc 0).getD [])).bind
        fun text => pure [text, .int ((argint m.kern.proc 1).getD 0)]).run m := rfl
    refine ⟨_, rfl, rfl, fun hfits => ?_, fun hno hrec hrep => ?_⟩
    · exact hrun.trans (run_bind_of_ok (hshort (hfits _ List.mem_cons_self)))
    · refine hrun.trans (run_bind_of_error (hlong (fun hle => hno fun v hv => ?_) hrec hrep))
      simp only [List.mem_cons, List.not_mem_nil, or_false] at hv
      rcases hv with rfl | rfl
      · exact hle
      · trivial
  | read =>
    obtain ⟨text, htext, rfl⟩ := Option.map_eq_some_iff.mp hcap
    obtain ⟨hshort, hlong⟩ := hcapture text
    have hrun : (sysRead ops locals).inputs.run m = ((capture ops text).bind fun text =>
        pure [.int ((argint m.kern.proc 0).getD (-1)), text,
          .int ((argint m.kern.proc 2).getD (-1))]).run m := by
      rw [sysRead, EStateM.run_bind, EStateM.run_get]
      dsimp only
      cases hptr : argptr m.kern.proc 1 ((argint m.kern.proc 2).getD locals.n) with
      | none =>
        rw [hptr] at htext
        obtain rfl := Option.some.inj htext
        rfl
      | some addr =>
        rw [hptr] at htext
        dsimp only at htext ⊢
        have hat := captureAt_run ops m addr
        rw [htext] at hat
        rw [EStateM.run_bind, hat]
        rfl
    refine ⟨_, rfl, rfl, fun hfits => ?_, fun hno hrec hrep => ?_⟩
    · have hfit : text.length ≤ strMaxSize := hfits (.text text) (by simp)
      exact hrun.trans (run_bind_of_ok (hshort hfit))
    · refine hrun.trans (run_bind_of_error (hlong (fun hle => hno fun v hv => ?_) hrec hrep))
      simp only [List.mem_cons, List.not_mem_nil, or_false] at hv
      rcases hv with rfl | rfl | rfl
      · trivial
      · exact hle
      · trivial
  | _ => cases hcap

/-! ## The record of a call -/

/-- The record of a call with the given number, inputs and return value: at the index of an input
stands its value, and behind the inputs the return value. -/
structure Record.Logs (record : Record) (syscall : Word) (vals : List Value) (ret : Word) : Prop where
  syscall_eq : record.syscall = syscall.setWidth 8
  known : ¬ record.Unknown
  input : ∀ i v, vals[i]? = some v → ∃ f, record.currField (BitVec.ofNat 32 i) = some (.ok f) ∧
    f.isInput = isInput ∧ f.Known ∧ f.Holds v
  output : ∃ f, record.currField (BitVec.ofNat 32 vals.length) = some (.ok f) ∧
    f.isInput = isOutput ∧ f.Holds (.int ret)

/-- A sequence of fields, the inputs before the one output, is the record of a call. -/
theorem FieldSeq.logs {fs : FieldSeq} {fields : List Field} {out : Field} {syscall : Word}
    {vals : List Value} {ret : Word} (hsyscall : fs.syscall = syscall.setWidth 8)
    (hitems : fs.items = fields ++ [out])
    (hfields : List.Forall₂ (fun v f => f.isInput = isInput ∧ f.Holds v) vals fields)
    (hout : out.isInput = isOutput ∧ out.Holds (.int ret)) : fs.record.Logs syscall vals ret := by
  have hnonempty : fs.items ≠ [] := by
    rw [hitems]
    exact List.append_ne_nil_of_right_ne_nil _ (List.cons_ne_nil _ _)
  have hat : ∀ i f, fs.items[i]? = some f → fs.record.currField (BitVec.ofNat 32 i) = some (.ok f) := by
    intro i f hi
    obtain ⟨hlt, hget⟩ := List.getElem?_eq_some_iff.mp hi
    have hbound : i < 2 ^ 31 := (hlt.trans_le fs.length_le).trans (by decide)
    rw [fs.currField_eq hnonempty, toInt_ofNat_of_lt hbound, fs.fieldAt_of_lt hlt, hget]
    rfl
  refine ⟨hsyscall, fun h => fs.unknown_iff.mp h (fs.syscall_known hnonempty), fun i v hv => ?_, ?_⟩
  · obtain ⟨hlt, hget⟩ := List.getElem?_eq_some_iff.mp hv
    have hlt' : i < fields.length := hfields.length_eq ▸ hlt
    obtain ⟨hdir, hholds⟩ := hfields.get hlt hlt'
    have hi : fs.items[i]? = some fields[i] := by
      rw [hitems, List.getElem?_append_left hlt', List.getElem?_eq_getElem hlt']
    simp only [List.get_eq_getElem] at hdir hholds
    rw [hget] at hholds
    exact ⟨fields[i], hat i _ hi, hdir, fs.known _ (List.mem_of_getElem? hi), hholds⟩
  · refine ⟨out, hat _ _ ?_, hout⟩
    rw [hitems, hfields.length_eq, List.getElem?_concat_length]

/-- One more field. -/
theorem FieldSeq.recordField_add (fs : FieldSeq) (newField : Field) {v : Value} {dir : Byte}
    (hv : v.Fits) (hadmits : fs.record.Admits dir) : ∃ f, ∃ h : fs.Accepts f,
      recordField newField fs.record v.typed.type dir v.typed.val = some (.valid, (fs.add f h).record) ∧
      f.isInput = dir ∧ f.Holds v := by
  obtain ⟨field, hfill⟩ := hv.fill newField
  have hmakes : FieldCall.Makes ⟨newField, v.type, dir, v.typed.val⟩ _ :=
    FieldCall.makes_of_fill hfill
  have haccepts := fs.accepts_of_admits hadmits hmakes.known
  refine ⟨_, haccepts, ?_, rfl, rfl, ?_⟩
  · rw [v.typed_type, recordField_of_admits hadmits hfill, fs.push_add haccepts]
    rfl
  · have hheld := v.typed_holds
    cases v with
    | int num => exact (hmakes.intVal rfl).trans hheld
    | text original => exact (hmakes.strVal rfl).trans hheld

/-- What `recordField` tests, with only inputs recorded so far. -/
theorem FieldSeq.admits {fs : FieldSeq} {done : List Value}
    (hknown : 0 < fs.syscall.toInt ∧ fs.syscall.toInt ≤ 27) (hroom : fs.items.length < maxFieldSize)
    (hfields : List.Forall₂ (fun v f => f.isInput = isInput ∧ f.Holds v) done fs.items)
    (dir : Byte) : fs.record.Admits dir where
  known h := fs.unknown_iff.mp h hknown
  room := by
    rw [fs.fieldCount_toInt]
    exact_mod_cast hroom
  order f hf hzero := by
    rw [fs.fieldAt_last] at hf
    obtain ⟨j, hj, rfl⟩ := List.getElem_of_mem (List.mem_of_getLast? hf)
    have hdir : fs.items[j].isInput = isInput := (hfields.get (hfields.length_eq ▸ hj) hj).1
    rw [hdir] at hzero
    exact absurd hzero (by decide)

/-- **The calls of `recordField` of a handler** leave the record of its call. -/
theorem recordFields_run (ops : FsOps σ ι π) (locals : Locals) {syscall : Word} (ret : Word)
    {vals : List Value} (done : List Value) (fs : FieldSeq) (hsyscall : fs.syscall = syscall.setWidth 8)
    (hknown : 0 < fs.syscall.toInt ∧ fs.syscall.toInt ≤ 27)
    (hfields : List.Forall₂ (fun v f => f.isInput = isInput ∧ f.Holds v) done fs.items)
    (hroom : fs.items.length + vals.length < maxFieldSize) (hfits : ∀ v ∈ vals, v.Fits) (i : ℕ) :
    ∃ record : Record, record.Logs syscall (done ++ vals) ret ∧
      (recordFields ops locals fs.record i ((vals.map Value.typed).map (fun t => (t, isInput)) ++
        [(Typed.int ret, isOutput)])).run m = .ok record m := by
  induction vals generalizing done fs i with
  | nil =>
    obtain ⟨f, h, hrun, hout⟩ := fs.recordField_add (locals.newField i) (v := .int ret) trivial
      (FieldSeq.admits hknown hroom hfields isOutput)
    refine ⟨(fs.add f h).record, ?_, ?_⟩
    · rw [List.append_nil]
      exact FieldSeq.logs hsyscall rfl hfields hout
    · show (recordFields ops locals fs.record i [((Value.int ret).typed, isOutput)]).run m = _
      rw [recordFields, hrun, run_access_bind, run_bind_of_ok errorHandling_valid]
      rfl
  | cons v vals ih =>
    rw [List.length_cons] at hroom
    obtain ⟨f, h, hrun, hin⟩ := fs.recordField_add (locals.newField i)
      (hfits v List.mem_cons_self) (FieldSeq.admits hknown (by omega) hfields isInput)
    have hsyscall' : (fs.add f h).syscall = syscall.setWidth 8 := hsyscall
    have hfields' : List.Forall₂ (fun v f => f.isInput = isInput ∧ f.Holds v) (done ++ [v])
        (fs.add f h).items := List.rel_append hfields (.cons hin .nil)
    have hlen : (fs.add f h).items.length = fs.items.length + 1 := List.length_append
    obtain ⟨record, hlogs, hrest⟩ := ih _ _ hsyscall' hknown hfields' (by omega)
      (fun w hw => hfits w (List.mem_cons_of_mem _ hw)) (i + 1)
    refine ⟨record, ?_, ?_⟩
    · rw [List.append_assoc] at hlogs
      exact hlogs
    · rw [List.map_cons, List.map_cons, List.cons_append, recordFields, hrun, run_access_bind,
        run_bind_of_ok errorHandling_valid]
      exact hrest

/-! ## Comparing a call with a record -/

theorem strsMatchLoop_isSome (str1 str2 : Str) {n i : ℕ} (h : i + n ≤ strMaxSize) :
    (strsMatchLoop str1 str2 n i).isSome := by
  induction n generalizing i with
  | zero => rfl
  | succ n ih =>
    rw [strsMatchLoop, dif_pos (by omega)]
    split
    · rfl
    · exact ih (by omega)

theorem strsMatch_isSome {original other : List Byte} (h : original.length ≤ strMaxSize) :
    (strsMatch (convertToStr original).2 (convertToStr other).2).isSome := by
  have hsize := toInt_ofNat_of_lt (lt_of_le_of_lt h (by decide))
  rw [convertToStr_of_le h]
  unfold strsMatch
  split
  · rfl
  · split
    · rfl
    · refine strsMatchLoop_isSome _ _ ?_
      rw [hsize]
      omega

/-- **Comparing an input**: the comparison stays in its arrays, and is passed by the recorded value
only. -/
theorem validateInputField_typed {record : Record} {fieldIdx : Word} {f : Field} {v w : Value}
    (hcurr : record.currField fieldIdx = some (.ok f)) (hdir : f.isInput = isInput)
    (hknown : f.Known) (hf : f.Holds v) :
    ∃ code, validateInputField record w.typed.type fieldIdx w.typed.val = some code ∧
      (code = .valid ↔ w = v) := by
  have hdir0 : f.isInput ≠ 0 := by
    rw [hdir]
    decide
  rw [w.typed_type]
  by_cases htype : w.type = v.type
  · have hiff := Record.validateInputField_iff hcurr hf hknown hdir0 w.typed_holds htype
    rw [htype]
    have hsome : (validateInputField record v.type fieldIdx w.typed.val).isSome := by
      have hheld := w.typed_holds
      rw [validateInputField, hcurr]
      dsimp only
      rw [if_neg hdir0, hf.type]
      cases v with
      | int num =>
        rw [Value.type, if_neg (by decide), if_neg (not_not.mpr rfl), if_pos rfl]
        split <;> rfl
      | text original =>
        cases w with
        | int num => cases htype
        | text other =>
          have hstr : (Value.text other).typed.val.strVal = (convertToStr other).2 := hheld
          have hrecorded : f.strVal = (convertToStr original).2 := hf.value
          rw [Value.type, if_neg (by decide), if_neg (not_not.mpr rfl), if_neg (by decide),
            if_pos rfl, hstr, hrecorded]
          split
          · rfl
          case isFalse hvalid => exact strsMatch_isSome (length_le_of_isValid hvalid)
    obtain ⟨code, hcode⟩ := Option.isSome_iff_exists.mp hsome
    refine ⟨code, hcode, ?_⟩
    rw [← hiff, hcode, Option.some.injEq]
  · have hne : f.type ≠ w.type := by
      rw [hf.type]
      exact fun heq => htype heq.symm
    have hrefuses : record.RefusesInput w.type fieldIdx w.typed.val :=
      Record.refusesInput_of_type hcurr hne
    obtain ⟨code, hcode, hrefused⟩ := hrefuses
    refine ⟨code, hrefused, iff_of_false hcode ?_⟩
    rintro rfl
    exact htype rfl

section Replaying

variable (hrec : m.session.recordSyscalls ≠ 1) (hrep : m.session.replaySyscalls = 1)
include hrec hrep

/-- **The validations of a call** pass exactly when its inputs are the recorded ones. -/
theorem validateInputs_run (ops : FsOps σ ι π) {record : Record} {syscall ret : Word}
    {vals : List Value} (hlogs : record.Logs syscall vals ret) (given : List Value) (i : ℕ)
    (hlen : given.length = (vals.drop i).length) :
    (given = vals.drop i →
      (validateInputs ops record i (given.map Value.typed)).run m = .ok () m) ∧
    (given ≠ vals.drop i →
      (validateInputs ops record i (given.map Value.typed)).run m = .error .exited m.stopped) := by
  induction given generalizing i with
  | nil =>
    refine ⟨fun _ => rfl, fun hne => absurd ?_ hne⟩
    exact (List.eq_nil_of_length_eq_zero hlen.symm).symm
  | cons w given ih =>
    have hi : i < vals.length := by
      rw [List.length_cons, List.length_drop] at hlen
      omega
    rw [List.drop_eq_getElem_cons hi] at hlen ⊢
    obtain ⟨f, hcurr, hdir, hknown, hholds⟩ := hlogs.input i _ (List.getElem?_eq_getElem hi)
    obtain ⟨code, hcode, hiff⟩ := validateInputField_typed (w := w) hcurr hdir hknown hholds
    have hrun : (validateInputs ops record i ((w :: given).map Value.typed)).run m = (do
        errorHandling ops code
        validateInputs ops record (i + 1) (given.map Value.typed) : SysM σ ι π Unit).run m := by
      rw [List.map_cons, validateInputs, hcode, run_access_bind]
    rw [hrun]
    obtain ⟨hsame, hother⟩ := ih (i + 1) (Nat.succ.inj hlen)
    by_cases hw : w = vals[i]
    · rw [hiff.mpr hw, run_bind_of_ok errorHandling_valid, hw]
      simp only [List.cons.injEq, true_and, ne_eq]
      exact ⟨hsame, hother⟩
    · rw [run_bind_of_error (errorHandling_replaying hrec hrep (mt hiff.mp hw))]
      exact ⟨fun heq => absurd (List.cons.inj heq).1 hw, fun _ => rfl⟩

/-- The validation of the output, behind the inputs, returns the recorded value. -/
theorem replayCall_next {rg : RecordGroup} {record : Record} {syscall ret : Word}
    {vals given : List Value} (hlogs : record.Logs syscall vals ret)
    (hget : getRecord m.session.rg (recordConstructor syscall) = some (.valid, rg, record))
    (hlen : given.length = vals.length) :
    (given = vals → (replayCall ops syscall (given.map Value.typed)).run m
      = .ok ret { m with session := { m.session with rg } }) ∧
    (given ≠ vals → ∃ m', (replayCall ops syscall (given.map Value.typed)).run m
      = .error .exited m') := by
  let m₁ : Machine σ ι π := { m with session := { m.session with rg } }
  have hrun : (replayCall ops syscall (given.map Value.typed)).run m = (do
      validateInputs ops record 0 (given.map Value.typed)
      let out ← access (validateOutputField record intType
        (BitVec.ofNat 32 (given.map Value.typed).length) fun _ => 0)
      errorHandling ops out.1
      pure out.2.intVal : SysM σ ι π Word).run m₁ := by
    rw [replayCall, EStateM.run_bind, EStateM.run_get]
    dsimp only
    rw [hget, run_access_bind, run_onSession_bind]
    exact run_bind_of_ok errorHandling_valid
  obtain ⟨hsame, hother⟩ := validateInputs_run (m := m₁) hrec hrep ops hlogs given 0 hlen
  rw [hrun]
  constructor
  · intro heq
    obtain ⟨f, hcurr, hdir, hholds⟩ := hlogs.output
    obtain ⟨val, hval, hret⟩ := Record.validateOutputField_holds hcurr hholds
      (by rw [hdir]; decide) fun _ => 0
    rw [run_bind_of_ok (hsame heq), List.length_map, hlen,
      show intType = (Value.int ret).type from rfl, hval, run_access_bind,
      run_bind_of_ok errorHandling_valid]
    exact congrArg (EStateM.Result.ok · m₁) hret
  · intro hne
    exact ⟨_, run_bind_of_error (hother hne)⟩

end Replaying

/-- The next record of a group, for a caller with a known number. -/
theorem Represents.getRecord_next {rg : RecordGroup} {q : RecordQueue} (h : Represents rg q)
    {record next : Record} (hknown : ¬ record.Unknown) (hat : q.items[q.taken]? = some next) :
    getRecord rg record
      = if next.syscall ≠ record.syscall then some (.mismatchSysCalls, rg, record)
        else some (.valid, { rg with counter := rg.counter + 1 }, next) := by
  obtain ⟨hlt, rfl⟩ := List.getElem?_eq_some_iff.mp hat
  have hsize := h.size_toInt
  have hcounter := h.counter_toInt
  have hbound := hlt.trans_le q.length_le
  have hsyscall : q.items[q.taken].syscall ≠ 0 := by
    intro hzero
    have hused := h.known _ (List.getElem_mem hlt)
    rw [Record.Unknown, hzero] at hused
    exact hused (.inl (by decide))
  rw [getRecord, if_neg hknown, if_neg (by omega), if_neg (by omega), h.recordAt_counter hlt]
  exact if_neg hsyscall

/-- Behind the last record there is none. -/
theorem Represents.getRecord_end {rg : RecordGroup} {q : RecordQueue} (h : Represents rg q)
    {record : Record} (hknown : ¬ record.Unknown) (hend : q.items.length ≤ q.taken) :
    ∃ code, code ≠ .valid ∧ getRecord rg record = some (code, rg, record) := by
  have hsize := h.size_toInt
  have hcounter := h.counter_toInt
  by_cases hfull : maxRecordGroupSize ≤ q.taken
  · refine ⟨.invalidMaxRecordBound, by decide, ?_⟩
    rw [getRecord, if_neg hknown, if_pos (by omega)]
  · refine ⟨.additionalSysCall, by decide, ?_⟩
    rw [getRecord, if_neg hknown, if_neg (by omega), if_pos (by omega)]

/-! ## Calls that are made -/

/-- A call of a recorded kind that a process makes in the kernel `kern`, with what its handler
captures. -/
structure Issue (σ ι π : Type) where
  locals : Locals
  kind : Kind
  vals : List Value
  kern : Kern σ ι π

/-- The handler captures the inputs of the call. -/
def Issue.Captures (issue : Issue σ ι π) : Prop :=
  captured issue.locals issue.kern.proc issue.kind = some issue.vals

/-- The system call path for a call. -/
def Issue.trap (ops : FsOps σ ι π) (issue : Issue σ ι π) (s : Session) :
    EStateM.Result Halt (Machine σ ι π) (Option Word) :=
  (V1.trap ops issue.locals (.call issue.kind)).run ⟨s, issue.kern⟩

/-- The call ends its process. -/
def Issue.Terminates (ops : FsOps σ ι π) (issue : Issue σ ι π) (s : Session) : Prop :=
  ∃ m, issue.trap ops s = (do
    onKern (V3.exit ops)
    pure none : SysM σ ι π (Option Word)).run m

/-- A call that was made: the original code returned `ret` in the kernel `kern'`. -/
structure Made (σ ι π : Type) extends Issue σ ι π where
  ret : Word
  kern' : Kern σ ι π

/-- The call is made within the limits of the recorder, and the original code returns. -/
structure Made.Ok (ops : FsOps σ ι π) (call : Made σ ι π) : Prop where
  captures : call.toIssue.Captures
  fits : ∀ v ∈ call.vals, v.Fits
  returns : ∀ h, handlerOf ops call.locals call.kind = some h →
    h.original.run call.kern = .ok call.ret call.kern'

/-- The record is that of the call. -/
def Made.LoggedAs (record : Record) (call : Made σ ι π) : Prop :=
  record.Logs (number call.kind) call.vals call.ret

variable {s : Session} {calls : List (Made σ ι π)} {i : ℕ} {issue : Issue σ ι π}

theorem trap_of_ok {v : Word} {m' : Machine σ ι π}
    (h : (sysCall ops issue.locals issue.kind).run ⟨s, issue.kern⟩ = .ok v m') :
    issue.trap ops s = .ok (some v) m' := by
  rw [Issue.trap, EStateM.run, V1.trap, syscall, h]

theorem trap_of_exited {m' : Machine σ ι π}
    (h : (sysCall ops issue.locals issue.kind).run ⟨s, issue.kern⟩ = .error .exited m') :
    issue.Terminates ops s := by
  refine ⟨m', ?_⟩
  rw [Issue.trap, EStateM.run, V1.trap, syscall, h]

/-! ## Recording -/

/-- A recording is going on, and the group holds the records of the calls. -/
structure RecordingAt (s : Session) (calls : List (Made σ ι π)) : Prop where
  record : s.recordSyscalls = 1
  replay : s.replaySyscalls ≠ 1
  group : ∃ q : RecordQueue, Represents s.rg q ∧ q.taken = 0 ∧
    List.Forall₂ Made.LoggedAs q.items calls

/-- The calls are made one after the other, and each hands its value to user mode.  Between two
calls anything may happen to the kernel. -/
inductive Makes (ops : FsOps σ ι π) : Session → List (Made σ ι π) → Session → Prop
  | nil {s : Session} : Makes ops s [] s
  | cons {s s' s'' : Session} {call : Made σ ι π} {calls : List (Made σ ι π)}
      (hrun : call.toIssue.trap ops s = .ok (some call.ret) ⟨s', call.kern'⟩)
      (hrest : Makes ops s' calls s'') : Makes ops s (call :: calls) s''

/-- **One recorded call** appends its record and is otherwise the original one. -/
theorem RecordingAt.call (h : RecordingAt s calls) {call : Made σ ι π}
    (hcall : call.Ok ops) (hroom : calls.length < maxRecordGroupSize) :
    ∃ rg, call.toIssue.trap ops s = .ok (some call.ret) ⟨{ s with rg }, call.kern'⟩ ∧
      RecordingAt { s with rg } (calls ++ [call]) := by
  obtain ⟨q, hq, htaken, hlogged⟩ := h.group
  obtain ⟨hd, hhandler, hnumber, hinputs, -⟩ := handler_inputs (m := ⟨s, call.kern⟩) ops hcall.captures
  have hknown := captured_number hcall.captures
  have hlen := captured_length hcall.captures
  have hfits := arity_lt call.kind
  obtain ⟨record, hlogs, hfields⟩ := recordFields_run (m := ⟨s, call.kern'⟩) ops call.locals
    call.ret [] (FieldSeq.empty ((number call.kind).setWidth 8)) rfl hknown .nil
    (show 0 + call.vals.length < maxFieldSize by omega) hcall.fits 0
  rw [List.nil_append] at hlogs
  rw [FieldSeq.record_empty] at hfields
  -- there is room in the group
  have hroom' : q.items.length < maxRecordGroupSize := by rw [hlogged.length_eq]; exact hroom
  obtain ⟨rg, hpush, hrep⟩ := hq.push_add hlogs.known hroom'
  have hsize := hq.size_toInt
  have hadd : addRecord s.rg record = some (.valid, rg) := by
    rw [addRecord, if_neg hlogs.known, if_neg (by omega), hpush]
    rfl
  refine ⟨rg, trap_of_ok ?_, ⟨h.record, h.replay, _, hrep, htaken,
    List.rel_append hlogged (.cons hlogs .nil)⟩⟩
  have horig : (onKern hd.original).run (⟨s, call.kern⟩ : Machine σ ι π)
      = .ok call.ret ⟨s, call.kern'⟩ := run_zoom_of_ok (hcall.returns hd hhandler)
  rw [sysCall_of_handler hhandler, Handler.run, run_bind_of_ok (hinputs hcall.fits),
    EStateM.run_bind, EStateM.run_get]
  dsimp only
  rw [if_neg h.replay, run_bind_of_ok horig, EStateM.run_bind, EStateM.run_get]
  dsimp only
  rw [if_pos h.record, hnumber]
  have hrecord : (recordCall ops call.locals (number call.kind) (call.vals.map Value.typed)
      call.ret).run ⟨s, call.kern'⟩ = .ok () ⟨{ s with rg }, call.kern'⟩ := by
    rw [recordCall, run_bind_of_ok hfields, EStateM.run_bind, EStateM.run_get]
    dsimp only
    rw [hadd, run_access_bind, run_onSession_bind]
    exact errorHandling_valid
  exact run_bind_of_ok hrecord

/-- **A sequence of recorded calls.**  All of them return, and the group holds their records. -/
theorem RecordingAt.makes {past : List (Made σ ι π)} (h : RecordingAt s past)
    (hcalls : ∀ call ∈ calls, call.Ok ops)
    (hroom : past.length + calls.length ≤ maxRecordGroupSize) :
    ∃ rg, Makes ops s calls { s with rg } ∧ RecordingAt { s with rg } (past ++ calls) := by
  induction calls generalizing s past with
  | nil =>
    refine ⟨s.rg, .nil, ?_⟩
    rw [List.append_nil]
    exact h
  | cons call calls ih =>
    rw [List.length_cons] at hroom
    obtain ⟨rg, hrun, hnext⟩ := h.call (hcalls call List.mem_cons_self) (by omega)
    obtain ⟨rg', hmakes, hend⟩ := ih hnext (fun d hd => hcalls d (List.mem_cons_of_mem _ hd))
      (by rw [List.length_append, List.length_singleton]; omega)
    refine ⟨rg', .cons hrun hmakes, ?_⟩
    rw [List.append_assoc] at hend
    exact hend

/-- What the calls leave is determined by what they start from. -/
theorem Makes.unique {s' s'' : Session} (h : Makes ops s calls s') (h' : Makes ops s calls s'') :
    s' = s'' := by
  induction h with
  | nil =>
    cases h'
    rfl
  | cons hrun _ ih =>
    cases h' with
    | cons hrun' hrest' =>
      injection hrun.symm.trans hrun' with _ hm
      injection hm with hs _
      subst hs
      exact ih hrest'

/-! ## Replaying -/

/-- A replay of the calls is going on and has `i` of them behind it. -/
structure ReplayingAt (s : Session) (calls : List (Made σ ι π)) (i : ℕ) : Prop where
  replay : s.replaySyscalls = 1
  record : s.recordSyscalls ≠ 1
  group : ∃ q : RecordQueue, Represents s.rg q ∧ q.taken = i ∧
    List.Forall₂ Made.LoggedAs q.items calls

/-- The call is the recorded one, by kind and by what is captured. -/
def Issue.SameAs (issue : Issue σ ι π) (call : Made σ ι π) : Prop :=
  issue.kind = call.kind ∧ issue.vals = call.vals

/-- The globals with the next record taken. -/
def Session.next (s : Session) : Session :=
  { s with rg := { s.rg with counter := s.rg.counter + 1 } }

/-- In a replay a handler runs its replay branch. -/
theorem ReplayingAt.sysCall_run (h : ReplayingAt s calls i) (hissue : issue.Captures)
    (hfits : ∀ v ∈ issue.vals, v.Fits) :
    (sysCall ops issue.locals issue.kind).run ⟨s, issue.kern⟩
      = (replayCall ops (number issue.kind) (issue.vals.map Value.typed)).run ⟨s, issue.kern⟩ := by
  obtain ⟨hd, hhandler, hnumber, hinputs, -⟩ := handler_inputs (m := ⟨s, issue.kern⟩) ops hissue
  rw [sysCall_of_handler hhandler, Handler.run, run_bind_of_ok (hinputs hfits), EStateM.run_bind,
    EStateM.run_get]
  dsimp only
  rw [if_pos h.replay, hnumber]

theorem Issue.Captures.known (hissue : issue.Captures) :
    ¬ (recordConstructor (number issue.kind)).Unknown := by
  obtain ⟨hlo, hhi⟩ := captured_number hissue
  rintro (hle | hlt)
  · exact absurd hlo (not_lt.mpr hle)
  · exact absurd hhi (not_le.mpr hlt)

section

variable (h : ReplayingAt s calls i) (hok : ∀ call ∈ calls, call.Ok ops) (hissue : issue.Captures)
include h hok hissue

/-- **A call that is the recorded one** returns the recorded value, and changes nothing in the
kernel. -/
theorem ReplayingAt.answered {call : Made σ ι π} (hat : calls[i]? = some call)
    (hsame : issue.SameAs call) :
    issue.trap ops s = .ok (some call.ret) ⟨s.next, issue.kern⟩ ∧ ReplayingAt s.next calls (i + 1) := by
  obtain ⟨q, hq, rfl, hlogged⟩ := h.group
  obtain ⟨hi, hget⟩ := List.getElem?_eq_some_iff.mp hat
  have hi' : q.taken < q.items.length := hlogged.length_eq ▸ hi
  have hlogs : Made.LoggedAs q.items[q.taken] call := by
    rw [← hget]
    exact hlogged.get hi' hi
  obtain ⟨hkind, hvals⟩ := hsame
  have hcall := hok call (List.mem_of_getElem? hat)
  have hknown := hissue.known
  have hnext := hq.getRecord_next hknown (List.getElem?_eq_getElem hi')
  rw [if_neg (not_not.mpr (hlogs.syscall_eq.trans (by rw [hkind]; rfl)))] at hnext
  refine ⟨trap_of_ok ?_, h.replay, h.record, _, hq.advance hi', rfl, hlogged⟩
  rw [Made.LoggedAs, ← hkind] at hlogs
  rw [h.sysCall_run hissue (by rw [hvals]; exact hcall.fits)]
  exact (replayCall_next (m := ⟨s, issue.kern⟩) h.record h.replay hlogs hnext
    (congrArg List.length hvals)).1 hvals

/-- **A call that is not the recorded one**, or has no record left, ends its process. -/
theorem ReplayingAt.terminated (hno : ¬ ∃ call, calls[i]? = some call ∧ issue.SameAs call) :
    issue.Terminates ops s := by
  obtain ⟨q, hq, rfl, hlogged⟩ := h.group
  suffices hexit : ∃ m', (sysCall ops issue.locals issue.kind).run ⟨s, issue.kern⟩
      = .error .exited m' by
    obtain ⟨m', hrun⟩ := hexit
    exact trap_of_exited hrun
  by_cases hfits : ∀ v ∈ issue.vals, v.Fits
  · rw [h.sysCall_run hissue hfits]
    have hknown := hissue.known
    -- a code of `getRecord` other than `VALID`
    have hrefused : ∀ code, code ≠ .valid → getRecord s.rg (recordConstructor (number issue.kind))
        = some (code, s.rg, recordConstructor (number issue.kind)) →
        ∃ m', (replayCall ops (number issue.kind) (issue.vals.map Value.typed)).run ⟨s, issue.kern⟩
          = .error .exited m' := by
      intro code hcode hget
      refine ⟨(⟨s, issue.kern⟩ : Machine σ ι π).stopped, ?_⟩
      rw [replayCall, EStateM.run_bind, EStateM.run_get]
      dsimp only
      rw [hget, run_access_bind, run_onSession_bind]
      exact run_bind_of_error (errorHandling_replaying h.record h.replay hcode)
    rcases Nat.lt_or_ge q.taken q.items.length with hi | hend
    · have hi' : q.taken < calls.length := hlogged.length_eq ▸ hi
      have hlogs : Made.LoggedAs q.items[q.taken] calls[q.taken] := hlogged.get hi hi'
      have hnext := hq.getRecord_next hknown (List.getElem?_eq_getElem hi)
      by_cases hnum : q.items[q.taken].syscall = (recordConstructor (number issue.kind)).syscall
      · -- the same number, so the same kind, but other inputs
        rw [if_neg (not_not.mpr hnum)] at hnext
        have hcall := hok calls[q.taken] (List.getElem_mem hi')
        have hkind : issue.kind = calls[q.taken].kind :=
          number_inj hissue (hnum.symm.trans hlogs.syscall_eq)
        have hlen : issue.vals.length = calls[q.taken].vals.length := by
          rw [captured_length hissue, captured_length hcall.captures, hkind]
        rw [Made.LoggedAs, ← hkind] at hlogs
        refine (replayCall_next (m := ⟨s, issue.kern⟩) h.record h.replay hlogs hnext hlen).2 ?_
        intro hvals
        exact hno ⟨_, List.getElem?_eq_getElem hi', hkind, hvals⟩
      · rw [if_pos hnum] at hnext
        exact hrefused _ (by decide) hnext
    · obtain ⟨code, hcode, hget⟩ := hq.getRecord_end hknown hend
      exact hrefused code hcode hget
  · obtain ⟨hd, hhandler, -, -, hlong⟩ := handler_inputs (m := ⟨s, issue.kern⟩) ops hissue
    refine ⟨(⟨s, issue.kern⟩ : Machine σ ι π).stopped, ?_⟩
    rw [sysCall_of_handler hhandler]
    exact run_bind_of_error (hlong hfits h.record h.replay)

end

/-! ## From the recording to the replay -/

/-- Make a call: the globals afterwards, when its result is delivered to user mode. -/
def deliverOne (ops : FsOps σ ι π) (s : Session) (issue : Issue σ ι π) : Option Session :=
  match issue.trap ops s with
  | .ok (some _) m => some m.session
  | _ => none

/-- Make calls one after the other, as long as their results are delivered. -/
def deliver (ops : FsOps σ ι π) (s : Session) (issues : List (Issue σ ι π)) : Option Session :=
  issues.foldlM (deliverOne ops) s

theorem Issue.Terminates.not_delivered (h : issue.Terminates ops s) :
    deliverOne ops s issue = none := by
  obtain ⟨m, hexit⟩ := h
  rw [deliverOne, hexit, EStateM.run_bind]
  cases (onKern (V3.exit ops)).run m <;> rfl

/-- The call at a position is the one that was recorded there. -/
def Matches (calls : List (Made σ ι π)) (i : ℕ) (issue : Issue σ ι π) : Prop :=
  ∃ call, calls[i]? = some call ∧ issue.SameAs call

/-- Replaying steps along the recorded calls. -/
theorem follows_calls (hok : ∀ call ∈ calls, call.Ok ops) :
    Lockstep.Follows (deliverOne ops) Issue.Captures (fun i s => ReplayingAt s calls i)
      (Matches calls) where
  go := by
    rintro i s issue h hissue ⟨call, hat, hsame⟩
    obtain ⟨htrap, hnext⟩ := h.answered hok hissue hat hsame
    exact ⟨s.next, by rw [deliverOne, htrap], hnext⟩
  stop := by
    intro i s issue h hissue hno
    exact (h.terminated hok hissue hno).not_delivered

/-- **What following a recording means** from the globals `s`: the result of a call is delivered
exactly when it and all calls before it are the recorded ones, it is then the recorded value, and
the kernel stays as it is; the first call that is not ends its process. -/
structure FollowsRecording (ops : FsOps σ ι π) (s : Session) (calls : List (Made σ ι π))
    (issues : List (Issue σ ι π)) : Prop where
  delivered_iff : ∀ i < issues.length, (deliver ops s (issues.take (i + 1))).isSome ↔
    ∀ j ≤ i, Lockstep.ExpectedAt (Matches calls) issues j
  answers : ∀ i call issue, calls[i]? = some call → issues[i]? = some issue →
    (∀ j ≤ i, Lockstep.ExpectedAt (Matches calls) issues j) → ∃ s₁ s₂,
      deliver ops s (issues.take i) = some s₁ ∧
      issue.trap ops s₁ = .ok (some call.ret) ⟨s₂, issue.kern⟩
  terminates : ∀ i issue, Lockstep.FirstUnexpected (Matches calls) issues i issue →
    ∃ s₁, deliver ops s (issues.take i) = some s₁ ∧ issue.Terminates ops s₁

theorem ReplayingAt.follows (h : ReplayingAt s calls 0) (hok : ∀ call ∈ calls, call.Ok ops)
    {issues : List (Issue σ ι π)} (hissues : ∀ issue ∈ issues, issue.Captures) :
    FollowsRecording ops s calls issues := by
  have hfollows := follows_calls hok
  refine ⟨fun i hi => hfollows.isSome_iff hissues h hi, ?_, ?_⟩
  · intro i call issue hat hissue hmatch
    obtain ⟨s₁, hpast, hat'⟩ := hfollows.runs hissues h fun j (hj : j < i) => hmatch j (by omega)
    obtain ⟨issue', hissue', call', hcall', hsame⟩ := hmatch i le_rfl
    obtain rfl := Option.some.inj (hissue.symm.trans hissue')
    obtain rfl := Option.some.inj (hat.symm.trans hcall')
    exact ⟨s₁, _, hpast,
      (hat'.answered hok (hissues issue (List.mem_of_getElem? hissue)) hat hsame).1⟩
  · intro i issue hfirst
    obtain ⟨s₁, hpast, hat'⟩ := hfollows.runs hissues h hfirst.before
    exact ⟨s₁, hpast,
      hat'.terminated hok (hissues issue (List.mem_of_getElem? hfirst.at_pos)) hfirst.here⟩

/-- Calls are recorded to a file: the session starts while no replay is going on, any processes
make at most six calls within the limits, and a process stops the session, in the kernel `kern`,
with a file that can be opened and takes the bytes. -/
structure Recording (ops : FsOps σ ι π) where
  path : List Byte
  before : Machine σ ι π
  started : Machine σ ι π
  calls : List (Made σ ι π)
  session : Session
  kern : Kern σ ι π
  ret : Word
  stopped : Machine σ ι π
  path_eq : argstr before.kern.proc 0 = some path
  idle : before.session.replaySyscalls ≠ 1
  start : sysRecordStart.run before = .ok 1 started
  ok : ∀ call ∈ calls, call.Ok ops
  length_le : calls.length ≤ maxRecordGroupSize
  makes : Makes ops started.session calls session
  stop : (sysRecordStop ops).run ⟨session, kern⟩ = .ok ret stopped
  writes : Writes ops kern session.recordFilename session.rg.bytes

namespace Recording

variable (b : Recording ops)

/-- The group that is saved holds the records of the calls. -/
theorem recordingAt : RecordingAt b.session b.calls ∧ b.session.recordFilename = strcpy b.path 255 := by
  have hstart := b.start
  rw [sysRecordStart_run b.path_eq] at hstart
  injection hstart with _ hstarted
  have hrecording : RecordingAt b.started.session ([] : List (Made σ ι π)) := by
    rw [← hstarted]
    exact ⟨rfl, b.idle, Fifo.Queue.empty, represents_empty, rfl, .nil⟩
  have hfile : b.started.session.recordFilename = strcpy b.path 255 := by rw [← hstarted]
  obtain ⟨rg, hmakes, hend⟩ := hrecording.makes b.ok (by simpa using b.length_le)
  rw [List.nil_append] at hend
  rw [b.makes.unique hmakes]
  exact ⟨hend, hfile⟩

/-- The file, from where the process is that stops. -/
def place : Place ι := (b.kern.proc.cwd, strcpy b.path 255)

/-- After the stop the file begins with the bytes of the group. -/
theorem saved (store : FileStore ops) (hinv : store.Inv b.kern.fs) :
    ∃ rest, store.contents b.place b.stopped.kern.fs = some (b.session.rg.bytes ++ rest) := by
  rw [place, ← b.recordingAt.2]
  exact recordStop_saves (m := ⟨b.session, b.kern⟩) store b.recordingAt.1.record hinv b.writes b.stop

end Recording

/-- What a replay start that returned has done to the globals. -/
theorem sysReplayStart_session {locals : Locals} {m m' : Machine σ ι π} {filename : List Byte}
    {v : Word} (hname : argstr m.kern.proc 0 = some filename)
    (hrun : (sysReplayStart ops locals).run m = .ok v m') :
    m'.session.replaySyscalls = 1 ∧ m'.session.recordSyscalls = m.session.recordSyscalls := by
  rw [sysReplayStart, EStateM.run_bind, EStateM.run_get] at hrun
  dsimp only at hrun
  rw [hname] at hrun
  dsimp only at hrun
  rw [run_onSession_bind, run_onSession_bind] at hrun
  obtain ⟨fd, k₁, -, hrun⟩ := onKern_bind_eq_ok hrun
  obtain ⟨r, k₂, -, hrun⟩ := onKern_bind_eq_ok hrun
  rw [run_onSession_bind] at hrun
  obtain ⟨c, k₃, -, hrun⟩ := onKern_bind_eq_ok hrun
  injection hrun with _ hm
  rw [← hm]
  exact ⟨rfl, rfl⟩

/-- **A replay follows the recording.**  Calls of `getpid`, `read`, `open` and `close`, of any
processes, are recorded to a file, which is saved.  Later, when this is still the last recording
since boot and nobody records, the contents that the recording left are loaded by a replay start,
whatever name it is given.  Any process may then make any calls of these kinds.  The result of a
call is delivered to user mode exactly when this and all calls before it are the recorded ones, by
kind and by what is captured; it is the recorded value, and nothing in the kernel has changed.  The
first call that is not a recorded one, or comes behind the last one, ends its process. -/
theorem replay_follows_recording (store : FileStore ops) (b : Recording ops)
    (hinv : store.Inv b.kern.fs) {locals : Locals} {m m' : Machine σ ι π} {filename : List Byte}
    (hname : argstr m.kern.proc 0 = some filename)
    (hlast : m.session.recordFilename = strcpy b.path 255) (hrec : m.session.recordSyscalls ≠ 1)
    (hinv' : store.Inv m.kern.fs)
    (hsame : store.contents (m.kern.proc.cwd, strcpy b.path 255) m.kern.fs
      = store.contents b.place b.stopped.kern.fs) {fd : Word} {k₁ : Kern σ ι π}
    (hopen : (myOpen ops (strcpy b.path 255) (oCreate ||| oRdwr)).run m.kern = .ok fd k₁)
    (hfd : fd ≠ -1)
    (hstart : (sysReplayStart ops locals).run m = .ok 1 m') {issues : List (Issue σ ι π)}
    (hissues : ∀ issue ∈ issues, issue.Captures) :
    FollowsRecording ops m'.session b.calls issues := by
  obtain ⟨rest, hsaved⟩ := b.saved store hinv
  have hgroup : m'.session.rg = b.session.rg := by
    rw [← hlast] at hopen
    rw [replayStart_group hname hstart store hinv' hopen hfd, hlast, hsame, hsaved]
    exact groupOf_bytes _ _ _
  obtain ⟨hreplay, hrecord⟩ := sysReplayStart_session hname hstart
  have hreplaying : ReplayingAt m'.session b.calls 0 := by
    refine ⟨hreplay, by rw [hrecord]; exact hrec, ?_⟩
    rw [hgroup]
    exact b.recordingAt.1.group
  exact hreplaying.follows b.ok hissues

end

/-! ### Two recorded calls -/

section Example

open TwoFiles

/-- A `close` of a descriptor that is not open, by process `5`: its argument word is `64`. -/
def closeMade : Made NamedFiles.Disk NamedFiles.Node Unit where
  locals := Locals.zero
  kind := .close
  vals := [.int 64]
  kern := (boot.machine (caller [])).kern
  ret := -1
  kern' := (boot.machine (caller [])).kern

theorem closeMade_ok : closeMade.Ok NamedFiles.ops where
  captures := rfl
  fits v hv := by
    rw [List.mem_singleton.mp hv]
    trivial
  returns h hh := by
    cases hh
    rfl

/-- A `getpid` of process `5`. -/
def pidMade : Made NamedFiles.Disk NamedFiles.Node Unit where
  locals := Locals.zero
  kind := .getpid
  vals := []
  kern := (boot.machine (caller [])).kern
  ret := 5
  kern' := (boot.machine (caller [])).kern

theorem pidMade_ok : pidMade.Ok NamedFiles.ops where
  captures := rfl
  fits v hv := by cases hv
  returns h hh := by
    cases hh
    rfl

/-- The globals when a recording has started. -/
def startedSession (name : List Byte) : Session :=
  { Session.boot with
    recordFilename := strcpy name 255, recordSyscalls := 1, rg := recordGroupConstructor }

/-- A `close` and a `getpid` are recorded to a file, and made when the file is replayed; the third
call comes behind the last recorded one. -/
theorem replay_follows_recording_close : ∃ s : Session,
    s.replaySyscalls = 1 ∧ FollowsRecording NamedFiles.ops s [closeMade, pidMade]
      [closeMade.toIssue, pidMade.toIssue, closeMade.toIssue] := by
  obtain ⟨name, hname, hfile⟩ : ∃ name, argstr (caller name) 0 = some name ∧ strcpy name 255 ≠ [] :=
    ⟨[97], by decide, by decide⟩
  have hidle : NamedFiles.Idle (boot.machine (caller [])).kern := ⟨fun _ => rfl, fun _ => rfl⟩
  have hok : ∀ call ∈ [closeMade, pidMade], call.Ok NamedFiles.ops := by
    intro call hcall
    rcases List.mem_cons.mp hcall with rfl | hcall
    · exact closeMade_ok
    · rw [List.mem_singleton.mp hcall]
      exact pidMade_ok
  have hoff : (0 : Word) ≠ 1 := by decide
  have hrecording : RecordingAt (startedSession name)
      ([] : List (Made NamedFiles.Disk NamedFiles.Node Unit)) :=
    ⟨rfl, hoff, Fifo.Queue.empty, represents_empty, rfl, .nil⟩
  obtain ⟨rg, hmakes, -⟩ := hrecording.makes hok (by decide)
  have hlen := length_group_bytes rg
  have hsome : rg.bytes ≠ [] := by
    intro hnil
    rw [hnil] at hlen
    exact absurd hlen (by decide)
  obtain ⟨k₁, k₂, k₃, hopen, hwrite, hclose, -, -⟩ := NamedFiles.save_run hfile hidle hsome
    (by rw [hlen]; decide)
  let b : Recording NamedFiles.ops :=
    { path := name
      before := boot.machine (caller name)
      started := ⟨startedSession name, (boot.machine (caller name)).kern⟩
      calls := [closeMade, pidMade]
      session := { startedSession name with rg }
      kern := (boot.machine (caller [])).kern
      ret := 0
      stopped := _
      path_eq := hname
      idle := hoff
      start := sysRecordStart_run hname
      ok := hok
      length_le := by decide
      makes := hmakes
      stop := sysRecordStop_run rfl hopen hwrite hclose
      writes := ⟨0, _, k₁, k₂, hopen, by decide, hwrite, by rw [hlen]; decide⟩ }
  let s : System NamedFiles.Disk NamedFiles.Node Unit :=
    { boot with
      session := { Session.boot with recordFilename := strcpy name 255 }
      fs := k₃.fs }
  obtain ⟨s', k₄, hstep, hopen', -⟩ := replay_step (s := s) hname rfl hfile fun _ => rfl
  have hissues : ∀ issue ∈ [closeMade.toIssue, pidMade.toIssue, closeMade.toIssue],
      issue.Captures := by
    intro issue hissue
    simp only [List.mem_cons, List.not_mem_nil, or_false] at hissue
    rcases hissue with rfl | rfl | rfl
    · exact closeMade_ok.captures
    · exact pidMade_ok.captures
    · exact closeMade_ok.captures
  cases hstep with
  | @trap _ _ _ _ m htrap =>
    have hstart := trap_eq_ok htrap
    rw [syscall] at hstart
    refine ⟨m.session, (sysReplayStart_session (m := s.machine (caller name)) hname hstart).1, ?_⟩
    exact replay_follows_recording (m := s.machine (caller name)) NamedFiles.store b trivial hname
      rfl hoff trivial rfl hopen' (by decide) hstart hissues

end Example

end V1
