/-
# The fields of a record

`recordField` in any sequence, on a record made by `recordConstructor`.  The fields recorded so
far are a sequence of at most four typed fields with the inputs before the outputs, and the slots
after them are as the constructor left them.  The source tests the order on the previous field
only; the order is transitive, so it holds between any two fields.

An accepted call appends one field to the sequence, and a refused call changes nothing.
-/
import Mathlib.Data.List.Chain
import Xv6Recorder.V1Record

open Bytes Xv6

namespace V1

/-! ## Sequences of calls -/

/-- A call of `recordField`, with what its local `newField` holds before it is filled. -/
structure FieldCall where
  newField : Field
  type : Byte
  isInput : Byte
  val : DataVal

/-- What a call did: its code, and the record before and after it. -/
structure FieldAnswer where
  call : FieldCall
  code : ErrCode
  before : Record
  after : Record

/-- The successful calls, in order. -/
def accepted (as : List FieldAnswer) : List FieldCall :=
  (as.filter fun a => a.code = .valid).map (·.call)

namespace Record

/-- One call. -/
def fieldAnswer (record : Record) (call : FieldCall) : Option FieldAnswer :=
  (recordField call.newField record call.type call.isInput call.val).map fun r =>
    ⟨call, r.1, record, r.2⟩

/-- A sequence of calls, with the record they leave. -/
def fieldAnswers (record : Record) : List FieldCall → Option (List FieldAnswer × Record)
  | [] => some ([], record)
  | call :: calls => do
    let a ← record.fieldAnswer call
    let rest ← a.after.fieldAnswers calls
    pure (a :: rest.1, rest.2)

end Record

/-- The type is one of the two that are recorded, and a string is marked valid. -/
def Field.Known (f : Field) : Prop :=
  f.type = intType ∨ (f.type = strType ∧ f.strVal.isValid ≠ 0)

/-- `g` may stand after `f`: no input follows an output. -/
def Field.Precedes (f g : Field) : Prop := f.isInput = 0 → g.isInput = 0

instance : Trans Field.Precedes Field.Precedes Field.Precedes := ⟨fun hfg hgh hf => hgh (hfg hf)⟩

/-- **The shape of a record.** -/
structure Record.WellShaped (record : Record) : Prop where
  count_nonneg : 0 ≤ record.fieldCount.toInt
  count_le : record.fieldCount.toInt ≤ maxFieldSize
  known : ∀ i : Fin maxFieldSize, (i : ℤ) < record.fieldCount.toInt → (record.fields i).Known
  inputs_first : ∀ i j : Fin maxFieldSize, i < j → (j : ℤ) < record.fieldCount.toInt →
    (record.fields i).Precedes (record.fields j)

/-! ## One call -/

/-- The tests of `recordField` on the record pass: the system call is known, there is room, and no
input follows an output. -/
structure Record.Admits (record : Record) (isInput : Byte) : Prop where
  known : ¬ record.Unknown
  room : record.fieldCount.toInt < maxFieldSize
  order : ∀ f ∈ record.fieldAt (record.fieldCount.toInt - 1), f.isInput = 0 → isInput = 0

theorem Record.inside_of_fieldAt {record : Record} {i : ℤ} {f : Field}
    (h : record.fieldAt i = some f) : 0 ≤ i ∧ i < maxFieldSize := by
  by_contra hout
  rw [Record.fieldAt, dif_neg hout] at h
  cases h

theorem fill_error_ne_valid {f : Field} {type : Byte} {val : DataVal} {code : ErrCode}
    (h : f.fill type val = .error code) : code ≠ .valid := by
  unfold Field.fill at h
  split_ifs at h
  · rw [← Except.error.inj h]
    decide
  · rw [← Except.error.inj h]
    decide

section
variable {newField : Field} {record : Record} {type isInput : Byte} {val : DataVal}

/-- A call that passes the tests appends its field. -/
theorem recordField_of_admits {field : Field} (h : record.Admits isInput)
    (hfill : newField.fill type val = .ok field) :
    recordField newField record type isInput val
      = (record.push { field with type, isInput }).map fun record => (.valid, record) := by
  have horder : ¬ (0 < record.fieldCount.toInt ∧ isInput ≠ 0 ∧
      (record.fieldAt (record.fieldCount.toInt - 1)).any (·.isInput = 0)) := by
    rintro ⟨-, hin, hany⟩
    cases hprevious : record.fieldAt (record.fieldCount.toInt - 1) with
    | none =>
      rw [hprevious] at hany
      cases hany
    | some f =>
      rw [hprevious, Option.any_some, decide_eq_true_eq] at hany
      exact hin (h.order f hprevious hany)
  rw [recordField, if_neg h.known, if_neg (not_le.mpr h.room), if_neg horder, hfill]

/-- **What a call can do**: it is refused and leaves the record, or it passes the tests. -/
theorem recordField_refused_or_admits (newField : Field) (record : Record) (type isInput : Byte)
    (val : DataVal) :
    (∃ code, code ≠ .valid ∧
      recordField newField record type isInput val = some (code, record)) ∨
    (record.Admits isInput ∧ ∃ field, newField.fill type val = .ok field) := by
  by_cases hunknown : record.Unknown
  · left
    exact ⟨.invalidRecordSysCall, by decide, if_pos hunknown⟩
  by_cases hfull : maxFieldSize ≤ record.fieldCount.toInt
  · left
    refine ⟨.invalidMaxBound, by decide, ?_⟩
    rw [recordField, if_neg hunknown, if_pos hfull]
  by_cases horder : 0 < record.fieldCount.toInt ∧ isInput ≠ 0 ∧
      (record.fieldAt (record.fieldCount.toInt - 1)).any (·.isInput = 0)
  · left
    refine ⟨.inproperOrderingOfInputOutput, by decide, ?_⟩
    rw [recordField, if_neg hunknown, if_neg hfull, if_pos horder]
  cases hfill : newField.fill type val with
  | error code =>
    left
    refine ⟨code, fill_error_ne_valid hfill, ?_⟩
    rw [recordField, if_neg hunknown, if_neg hfull, if_neg horder, hfill]
  | ok field =>
    right
    refine ⟨⟨hunknown, not_le.mp hfull, ?_⟩, field, rfl⟩
    -- the source tests the order only when there is a previous field
    intro f hf hout
    by_contra hin
    have hinside := Record.inside_of_fieldAt hf
    apply horder
    refine ⟨by omega, hin, ?_⟩
    rw [Option.mem_def.mp hf, Option.any_some, hout]
    rfl

end

namespace FieldCall

variable {call : FieldCall} {f : Field}

/-- What the field of a call holds: the type and the direction of the call, and the member of the
value that belongs to the type. -/
structure Makes (call : FieldCall) (f : Field) : Prop where
  type : f.type = call.type
  isInput : f.isInput = call.isInput
  known : f.Known
  intVal : call.type = intType → f.intVal = call.val.intVal
  strVal : call.type = strType → f.strVal = call.val.strVal

theorem makes_of_fill {field : Field} (h : call.newField.fill call.type call.val = .ok field) :
    call.Makes { field with type := call.type, isInput := call.isInput } := by
  unfold Field.fill at h
  split_ifs at h with hint hstr hvalid
  · rw [← Except.ok.inj h]
    refine ⟨rfl, rfl, .inl hint, fun _ => rfl, fun hstr => ?_⟩
    rw [hint] at hstr
    cases hstr
  · rw [← Except.ok.inj h]
    exact ⟨rfl, rfl, .inr ⟨hstr, hvalid⟩, fun hint' => absurd hint' hint, fun _ => rfl⟩

end FieldCall

/-! ## The sequence that a record represents -/

/-- A slot that is not in use. -/
def unusedField : Field := ⟨0, nonType, -1, stringConstructor⟩

/-- The recorded fields of a system call.  Only a known system call has any. -/
structure FieldSeq where
  syscall : Byte
  items : List Field
  length_le : items.length ≤ maxFieldSize
  known : ∀ f ∈ items, f.Known
  ordered : items.IsChain Field.Precedes
  syscall_known : items ≠ [] → 0 < syscall.toInt ∧ syscall.toInt ≤ 27

namespace FieldSeq

/-- The record of a sequence. -/
def record (fs : FieldSeq) : Record where
  syscall := fs.syscall
  fieldCount := BitVec.ofNat 32 fs.items.length
  fields i := fs.items.getD i unusedField

def empty (syscall : Byte) : FieldSeq where
  syscall := syscall
  items := []
  length_le := Nat.zero_le _
  known f hf := by cases hf
  ordered := .nil
  syscall_known h := absurd rfl h

theorem record_empty (s : Word) : (empty (s.setWidth 8)).record = recordConstructor s := rfl

/-- What the source tests before it appends a field. -/
structure Accepts (fs : FieldSeq) (f : Field) : Prop where
  syscall : 0 < fs.syscall.toInt ∧ fs.syscall.toInt ≤ 27
  room : fs.items.length < maxFieldSize
  known : f.Known
  order : ∀ g ∈ fs.items.getLast?, g.Precedes f

/-- One more field. -/
def add (fs : FieldSeq) (f : Field) (h : fs.Accepts f) : FieldSeq where
  syscall := fs.syscall
  items := fs.items ++ [f]
  length_le := by
    rw [List.length_append]
    exact h.room
  known g hg := by
    rcases List.mem_append.mp hg with hg | hg
    · exact fs.known g hg
    · rw [List.mem_singleton.mp hg]
      exact h.known
  ordered := by
    refine fs.ordered.append (.singleton f) ?_
    intro g hg f' hf'
    rw [List.head?_cons, Option.mem_some_iff] at hf'
    rw [← hf']
    exact h.order g hg
  syscall_known _ := h.syscall

variable (fs : FieldSeq)

theorem unknown_iff :
    fs.record.Unknown ↔ ¬ (0 < fs.syscall.toInt ∧ fs.syscall.toInt ≤ 27) := by
  show fs.syscall.toInt ≤ 0 ∨ 27 < fs.syscall.toInt ↔ _
  omega

theorem fieldCount_toInt : fs.record.fieldCount.toInt = fs.items.length :=
  toInt_ofNat_of_lt (lt_of_le_of_lt fs.length_le (by decide))

theorem fieldCount_eq_zero_iff : fs.record.fieldCount = 0 ↔ fs.items = [] := by
  have hcount := fs.fieldCount_toInt
  constructor
  · intro hzero
    rw [hzero] at hcount
    exact List.length_eq_zero_iff.mp (Int.ofNat_eq_zero.mp hcount.symm)
  · intro hnil
    show BitVec.ofNat 32 fs.items.length = 0
    rw [hnil]
    rfl

/-- A slot of the array is a field of the sequence or not in use. -/
theorem fieldAt_eq (i : ℕ) (hi : i < maxFieldSize) :
    fs.record.fieldAt i = some (fs.items.getD i unusedField) := by
  rw [Record.fieldAt, dif_pos (by omega)]
  rfl

theorem fieldAt_of_lt {i : ℕ} (hi : i < fs.items.length) :
    fs.record.fieldAt i = some fs.items[i] := by
  rw [fs.fieldAt_eq i (hi.trans_le fs.length_le), List.getD_eq_getElem _ _ hi]

/-- `fields[fieldCount - 1]` is the last field recorded. -/
theorem fieldAt_last :
    fs.record.fieldAt (fs.record.fieldCount.toInt - 1) = fs.items.getLast? := by
  rw [fs.fieldCount_toInt, List.getLast?_eq_getElem?]
  by_cases hempty : fs.items.length = 0
  · rw [hempty, List.getElem?_eq_none (by omega)]
    rfl
  · have hlt : fs.items.length - 1 < fs.items.length := by omega
    have hcast : (fs.items.length : ℤ) - 1 = (fs.items.length - 1 : ℕ) := by omega
    rw [hcast, fs.fieldAt_of_lt hlt, List.getElem?_eq_getElem hlt]

/-- **No input follows an output**, at any distance. -/
theorem pairwise : fs.items.Pairwise Field.Precedes := List.isChain_iff_pairwise.mp fs.ordered

/-- **The record of a sequence is well shaped.** -/
theorem wellShaped : fs.record.WellShaped where
  count_nonneg := by
    rw [fs.fieldCount_toInt]
    exact Int.natCast_nonneg _
  count_le := by
    rw [fs.fieldCount_toInt]
    exact Int.ofNat_le.mpr fs.length_le
  known i hi := by
    rw [fs.fieldCount_toInt] at hi
    have hlt : i.val < fs.items.length := Int.ofNat_lt.mp hi
    show (fs.items.getD i unusedField).Known
    rw [List.getD_eq_getElem _ _ hlt]
    exact fs.known _ (List.getElem_mem hlt)
  inputs_first i j hij hj := by
    rw [fs.fieldCount_toInt] at hj
    have hlt : j.val < fs.items.length := Int.ofNat_lt.mp hj
    have hlt' : i.val < fs.items.length := lt_trans hij hlt
    show (fs.items.getD i unusedField).Precedes (fs.items.getD j unusedField)
    rw [List.getD_eq_getElem _ _ hlt, List.getD_eq_getElem _ _ hlt']
    exact List.pairwise_iff_getElem.mp fs.pairwise _ _ hlt' hlt hij

/-- What passes the tests on the record is accepted by the sequence. -/
theorem accepts_of_admits {f : Field} (h : fs.record.Admits f.isInput) (hknown : f.Known) :
    fs.Accepts f := by
  have hroom := h.room
  rw [fs.fieldCount_toInt] at hroom
  refine ⟨?_, by omega, hknown, ?_⟩
  · by_contra hunknown
    exact h.known (fs.unknown_iff.mpr hunknown)
  · intro g hg
    apply h.order g
    rw [fs.fieldAt_last]
    exact hg

/-- Room in the sequence is room in the array. -/
theorem push_add {f : Field} (h : fs.Accepts f) : fs.record.push f = some (fs.add f h).record := by
  have hcount := fs.fieldCount_toInt
  have hroom := h.room
  have hslot : fs.record.fieldCount.toInt.toNat = fs.items.length := by omega
  rw [Record.push, dif_pos (by omega)]
  congr 1
  refine Record.ext rfl ?_ (funext fun i => ?_)
  · show BitVec.ofNat 32 fs.items.length + 1 = BitVec.ofNat 32 (fs.items ++ [f]).length
    rw [List.length_append]
    exact (BitVec.ofNat_add _ _).symm
  · show Function.update fs.record.fields _ f i = (fs.items ++ [f]).getD i unusedField
    -- the new field stands at the old count; the slots above it stay unused
    by_cases hi : i.val = fs.items.length
    · have heq : (⟨fs.record.fieldCount.toInt.toNat, by omega⟩ : Fin maxFieldSize) = i :=
        Fin.ext (hslot.trans hi.symm)
      rw [← heq, Function.update_self, heq, hi, List.getD_eq_getElem?_getD,
        List.getElem?_concat_length]
      rfl
    · rw [Function.update_of_ne fun heq => hi ((congrArg Fin.val heq).trans hslot)]
      show fs.items.getD i unusedField = (fs.items ++ [f]).getD i unusedField
      by_cases hlt : i.val < fs.items.length
      · rw [List.getD_append _ _ _ _ hlt]
      · rw [List.getD_eq_default _ _ (by omega), List.getD_eq_default]
        rw [List.length_append, List.length_singleton]
        omega

end FieldSeq

/-- A call that is refused and changes nothing, or that appends the field it makes. -/
inductive FieldSeq.Step (fs : FieldSeq) (call : FieldCall) : FieldAnswer → FieldSeq → Prop
  | refused {code : ErrCode} (hcode : code ≠ .valid) :
      Step fs call ⟨call, code, fs.record, fs.record⟩ fs
  | added {f : Field} (hmakes : call.Makes f) (h : fs.Accepts f) :
      Step fs call ⟨call, .valid, fs.record, (fs.add f h).record⟩ (fs.add f h)

/-- **One `recordField`** is a step of the sequence. -/
theorem FieldSeq.step (fs : FieldSeq) (call : FieldCall) :
    ∃ a fs', fs.record.fieldAnswer call = some a ∧ fs.Step call a fs' := by
  rcases recordField_refused_or_admits call.newField fs.record call.type call.isInput call.val with
    ⟨code, hcode, hrefused⟩ | ⟨hadmits, field, hfill⟩
  · refine ⟨_, fs, ?_, .refused hcode⟩
    rw [Record.fieldAnswer, hrefused]
    rfl
  · have hmakes := FieldCall.makes_of_fill hfill
    have haccepts := fs.accepts_of_admits hadmits hmakes.known
    refine ⟨_, _, ?_, .added hmakes haccepts⟩
    rw [Record.fieldAnswer, recordField_of_admits hadmits hfill, fs.push_add haccepts]
    rfl

namespace FieldSeq.Step

variable {fs fs' : FieldSeq} {call : FieldCall} {a : FieldAnswer}

theorem after_eq (h : fs.Step call a fs') : a.after = fs'.record := by
  cases h with
  | refused => rfl
  | added => rfl

theorem call_eq (h : fs.Step call a fs') : a.call = call := by
  cases h with
  | refused => rfl
  | added => rfl

/-- A call that is not successful leaves the record as it was. -/
theorem unchanged (h : fs.Step call a fs') (hcode : a.code ≠ .valid) : a.after = a.before := by
  cases h with
  | refused => rfl
  | added => exact absurd rfl hcode

end FieldSeq.Step

/-! ## Whole runs -/

/-- **Runs of `recordField`** append the fields of the successful calls, in order. -/
theorem FieldSeq.run (fs : FieldSeq) (calls : List FieldCall) : ∃ as, ∃ fs' : FieldSeq, ∃ fields,
    fs.record.fieldAnswers calls = some (as, fs'.record) ∧
    fs'.items = fs.items ++ fields ∧
    List.Forall₂ FieldCall.Makes (accepted as) fields ∧
    (∀ a ∈ as, a.call ∈ calls ∧ a.after.WellShaped ∧
      (a.code ≠ .valid → a.after = a.before)) := by
  induction calls generalizing fs with
  | nil => exact ⟨[], fs, [], rfl, (List.append_nil _).symm, .nil, fun a ha => by cases ha⟩
  | cons call calls ih =>
    obtain ⟨a, fs₁, hanswer, hstep⟩ := fs.step call
    obtain ⟨as, fs', fields, hanswers, hitems, hfields, has⟩ := ih fs₁
    have hrun : fs.record.fieldAnswers (call :: calls) = some (a :: as, fs'.record) := by
      rw [Record.fieldAnswers, hanswer]
      show (a.after.fieldAnswers calls).bind _ = _
      rw [hstep.after_eq, hanswers]
      rfl
    have hall : ∀ b ∈ a :: as, b.call ∈ call :: calls ∧ b.after.WellShaped ∧
        (b.code ≠ .valid → b.after = b.before) := by
      intro b hb
      rcases List.mem_cons.mp hb with rfl | hb
      · rw [hstep.call_eq, hstep.after_eq]
        refine ⟨List.mem_cons_self, fs₁.wellShaped, fun hcode => ?_⟩
        rw [← hstep.after_eq]
        exact hstep.unchanged hcode
      · exact ⟨List.mem_cons_of_mem _ (has b hb).1, (has b hb).2⟩
    cases hstep with
    | refused hcode =>
      refine ⟨_, fs', fields, hrun, hitems, ?_, hall⟩
      rw [accepted, List.filter_cons_of_neg (by simpa using hcode)]
      exact hfields
    | @added f hmakes haccepts =>
      refine ⟨_, fs', f :: fields, hrun, ?_, ?_, hall⟩
      · rw [hitems]
        exact List.append_assoc _ _ _
      · rw [accepted, List.filter_cons_of_pos (by rfl)]
        exact .cons hmakes hfields

/-- **The shape of a record.**  Along any sequence of `recordField` calls on a new record no access
leaves the array, the record stays well shaped, and a call that is not successful leaves it as it
was. -/
theorem record_wellShaped (s : Word) (calls : List FieldCall) : ∃ as record,
    (recordConstructor s).fieldAnswers calls = some (as, record) ∧ record.WellShaped ∧
    ∀ a ∈ as, a.after.WellShaped ∧ (a.code ≠ .valid → a.after = a.before) := by
  obtain ⟨as, fs, fields, hrun, -, -, has⟩ := (FieldSeq.empty (s.setWidth 8)).run calls
  rw [FieldSeq.record_empty] at hrun
  exact ⟨as, fs.record, hrun, fs.wellShaped, fun a ha => (has a ha).2⟩

end V1
