/-
# The two copies of the record functions

The functions of the test bench beside those of the kernel.  What `VALID` means is stated for each
of them in the same words, and the copies are compared by these words.  Four functions agree.
`validateInputField` of the bench refuses every string, since it tests `isValid` the wrong way
round, and `GetRecord` of the bench does not compare the system calls.
-/
import Xv6Recorder.V1Bench
import Xv6Recorder.V1Validation

open Bytes Xv6

namespace V1.Bench

/-! ## The functions that answer alike -/

/-- The code of the kernel with the same name. -/
def ErrCode.kernel : ErrCode → V1.ErrCode
  | .valid => .valid
  | .invalidRecordSysCall => .invalidRecordSysCall
  | .invalidMaxBound => .invalidMaxBound
  | .noFieldsInRecord => .noFieldsInRecord
  | .mistmatchInputOutputDeclaration => .mistmatchInputOutputDeclaration
  | .tryingToReadOutputWhenValidating => .tryingToReadOutputWhenValidating
  | .inproperOrderingOfInputOutput => .inproperOrderingOfInputOutput
  | .fieldUninitialized => .fieldUninitialized
  | .fieldTypeMismatch => .fieldTypeMismatch
  | .intValueMismatch => .intValueMismatch
  | .strSizeMismatch => .strSizeMismatch
  | .strValueMismatch => .strValueMismatch
  | .strValueMarkedInvalid => .strValueMarkedInvalid
  | .strAttemptConvertExceedMax => .strAttemptConvertExceedMax
  | .invalidMaxRecordBound => .invalidMaxRecordBound
  | .invalidRecordAccess => .invalidRecordAccess
  | .fieldTypeUnknown => .fieldTypeUnknown

theorem kernel_eq_valid_iff (code : ErrCode) : code.kernel = .valid ↔ code = .valid := by
  cases code <;> decide

theorem convertToStr_kernel (original : List Byte) :
    V1.convertToStr original = (convertToStr original).map ErrCode.kernel id := by
  unfold convertToStr V1.convertToStr
  split_ifs
  · rfl
  · rfl

theorem strsMatchLoop_kernel (str1 str2 : Str) (n i : ℕ) :
    V1.strsMatchLoop str1 str2 n i = (strsMatchLoop str1 str2 n i).map ErrCode.kernel := by
  induction n generalizing i with
  | zero => rfl
  | succ n ih =>
    unfold strsMatchLoop V1.strsMatchLoop
    split_ifs
    · rfl
    · exact ih (i + 1)
    · rfl

theorem strsMatch_kernel (str1 str2 : Str) :
    V1.strsMatch str1 str2 = (strsMatch str1 str2).map ErrCode.kernel := by
  unfold strsMatch V1.strsMatch
  split_ifs
  · rfl
  · rfl
  · exact strsMatchLoop_kernel _ _ _ _

theorem fill_kernel (newField : Field) (type : Byte) (val : DataVal) :
    newField.fill type val = (fill newField type val).mapError ErrCode.kernel := by
  unfold fill Field.fill
  split_ifs
  · rfl
  · rfl
  · rfl
  · rfl

theorem fill_eq_ok_iff {newField field : Field} {type : Byte} {val : DataVal} :
    fill newField type val = .ok field ↔ newField.fill type val = .ok field := by
  rw [fill_kernel]
  cases fill newField type val with
  | error code =>
    constructor
    · intro h
      cases h
    · intro h
      cases h
  | ok f =>
    rw [Except.mapError, Except.ok.injEq, Except.ok.injEq]

theorem addRecord_kernel (rg : RecordGroup) (record : Record) :
    V1.addRecord rg record = (addRecord rg record).map (Prod.map ErrCode.kernel id) := by
  unfold addRecord V1.addRecord
  split_ifs
  · rfl
  · rfl
  · rw [Option.map_map]
    rfl

/-- A result is `VALID` in one copy when it is in the other. -/
theorem map_kernel_eq_valid_iff {α : Type} (r : Option (ErrCode × α)) (x : α) :
    r.map (Prod.map ErrCode.kernel id) = some (.valid, x) ↔ r = some (.valid, x) := by
  cases r with
  | none => exact iff_of_false (by simp) (by simp)
  | some r =>
    rw [Option.map_some, Option.some.injEq, Option.some.injEq, Prod.ext_iff, Prod.ext_iff]
    exact and_congr_left' (kernel_eq_valid_iff r.1)

/-! ## What `VALID` means for `recordField` -/

/-- A test was passed when its branch would have answered otherwise. -/
theorem passed_of_ite {α : Type} {c : Prop} [Decidable c] {a b : α} {r : Option α}
    (h : (if c then some a else r) = some b) (hab : a ≠ b) : ¬ c ∧ r = some b := by
  by_cases hc : c
  · rw [if_pos hc] at h
    exact absurd (Option.some.inj h) hab
  · rw [if_neg hc] at h
    exact ⟨hc, h⟩

section
variable {newField : Field} {record record' : Record} {type isInput : Byte} {val : DataVal}

/-- A field is appended: the tests on the record pass, the value is of its type, and the slot is
inside the array. -/
structure Appends (newField : Field) (record : Record) (type isInput : Byte) (val : DataVal)
    (record' : Record) : Prop where
  admits : record.Admits isInput
  pushed : ∃ field, newField.fill type val = .ok field ∧
    record.push { field with type, isInput } = some record'

theorem room_of_push {f : Field} (h : record.push f = some record') :
    0 ≤ record.fieldCount.toInt ∧ record.fieldCount.toInt < maxFieldSize := by
  by_contra hroom
  rw [Record.push, dif_neg hroom] at h
  cases h

theorem kernel_recordField_eq_valid_iff :
    V1.recordField newField record type isInput val = some (.valid, record') ↔
      Appends newField record type isInput val record' := by
  constructor
  · intro h
    rcases recordField_refused_or_admits newField record type isInput val with
      ⟨code, hcode, hrefused⟩ | ⟨hadmits, field, hfill⟩
    · rw [hrefused] at h
      exact absurd (Prod.mk.inj (Option.some.inj h)).1 hcode
    · rw [recordField_of_admits hadmits hfill] at h
      obtain ⟨r, hpush, hr⟩ := Option.map_eq_some_iff.mp h
      rw [(Prod.mk.inj hr).2] at hpush
      exact ⟨hadmits, field, hfill, hpush⟩
  · rintro ⟨hadmits, field, hfill, hpush⟩
    rw [recordField_of_admits hadmits hfill, hpush]
    rfl

/-- With room in the array the test on the previous field stays inside it. -/
theorem wrongOrder_eq_false_iff
    (hroom : 0 ≤ record.fieldCount.toInt ∧ record.fieldCount.toInt < maxFieldSize) :
    wrongOrder record isInput = some false ↔
      ∀ f ∈ record.fieldAt (record.fieldCount.toInt - 1), f.isInput = 0 → isInput = 0 := by
  unfold wrongOrder
  by_cases htest : record.fieldCount ≠ 0 ∧ isInput ≠ 0
  · rw [if_pos htest]
    have hne : record.fieldCount.toInt ≠ 0 := fun h => htest.1 (BitVec.eq_of_toInt_eq h)
    cases hprevious : record.fieldAt (record.fieldCount.toInt - 1) with
    | none =>
      rw [Record.fieldAt, dif_pos (by omega)] at hprevious
      cases hprevious
    | some f =>
      rw [Option.map_some, Option.some.injEq, decide_eq_false_iff_not]
      constructor
      · intro hin g hg hout
        rw [← Option.some.inj hg] at hout
        exact absurd hout hin
      · intro horder hout
        exact htest.2 (horder f rfl hout)
  · rw [if_neg htest]
    refine iff_of_true rfl ?_
    intro f hf hout
    have hinside := Record.inside_of_fieldAt hf
    by_contra hin
    refine htest ⟨fun hzero => ?_, hin⟩
    rw [hzero] at hinside
    exact absurd hinside.1 (by decide)

theorem recordField_eq_valid_iff :
    recordField newField record type isInput val = some (.valid, record') ↔
      Appends newField record type isInput val record' := by
  constructor
  · intro h
    unfold recordField at h
    obtain ⟨hunknown, h⟩ := passed_of_ite h (by simp)
    obtain ⟨hfull, h⟩ := passed_of_ite h (by simp)
    have horder : wrongOrder record isInput = some false := by
      rcases horder : wrongOrder record isInput with _ | _ | _
      · rw [horder] at h
        cases h
      · rfl
      · rw [horder] at h
        cases h
    rw [horder] at h
    dsimp only at h
    cases hfill : fill newField type val with
    | error code =>
      rw [hfill] at h
      have hcode : code = .valid := (Prod.mk.inj (Option.some.inj h)).1
      have hkernel := fill_kernel newField type val
      rw [hfill] at hkernel
      exact absurd (congrArg ErrCode.kernel hcode) (fill_error_ne_valid hkernel)
    | ok field =>
      rw [hfill] at h
      obtain ⟨r, hpush, hr⟩ := Option.map_eq_some_iff.mp h
      rw [(Prod.mk.inj hr).2] at hpush
      have hroom := room_of_push hpush
      have hadmits : record.Admits isInput :=
        ⟨hunknown, hroom.2, (wrongOrder_eq_false_iff hroom).mp horder⟩
      exact ⟨hadmits, field, fill_eq_ok_iff.mp hfill, hpush⟩
  · rintro ⟨hadmits, field, hfill, hpush⟩
    have horder := (wrongOrder_eq_false_iff (room_of_push hpush)).mpr hadmits.order
    rw [recordField, if_neg hadmits.known, if_neg (not_le.mpr hadmits.room), horder]
    dsimp only
    rw [fill_eq_ok_iff.mpr hfill]
    dsimp only
    rw [hpush]
    rfl

end

/-! ## What `VALID` means for `validateInputField` and `GetRecord` -/

section
variable {record : Record} {type : Byte} {fieldIdx : Word} {val : DataVal} {f : Field}

/-- The field that is validated, when the tests of the record pass. -/
structure Selects (record : Record) (fieldIdx : Word) (f : Field) : Prop where
  known : ¬ record.Unknown
  bound : record.fieldCount.toInt ≤ maxFieldSize
  nonempty : record.fieldCount ≠ 0
  field : record.fieldAt fieldIdx.toInt = some f

/-- An input of the type that is asked for. -/
structure InputOf (record : Record) (type : Byte) (fieldIdx : Word) (f : Field) : Prop
    extends Selects record fieldIdx f where
  input : f.isInput ≠ 0
  same_type : f.type = type

/-- An int input of the same value. -/
structure IntMatches (record : Record) (type : Byte) (fieldIdx : Word) (val : DataVal)
    (f : Field) : Prop extends InputOf record type fieldIdx f where
  int : type = intType
  same : f.intVal = val.intVal

/-- A string input of the same value. -/
structure StrMatches (record : Record) (type : Byte) (fieldIdx : Word) (val : DataVal)
    (f : Field) : Prop extends InputOf record type fieldIdx f where
  str : type = strType
  same : V1.strsMatch f.strVal val.strVal = some .valid

theorem currField_eq_ok_iff :
    record.currField fieldIdx = some (.ok f) ↔ Selects record fieldIdx f := by
  constructor
  · intro h
    unfold Record.currField at h
    obtain ⟨hunknown, h⟩ := passed_of_ite h (by simp)
    obtain ⟨hbound, h⟩ := passed_of_ite h (by simp)
    obtain ⟨hempty, h⟩ := passed_of_ite h (by simp)
    obtain ⟨g, hg, heq⟩ := Option.map_eq_some_iff.mp h
    rw [Except.ok.inj heq] at hg
    exact ⟨hunknown, not_lt.mp hbound, hempty, hg⟩
  · intro h
    rw [Record.currField, if_neg h.known, if_neg (not_lt.mpr h.bound), if_neg h.nonempty, h.field]
    rfl

theorem isValid_of_strsMatch {str1 str2 : Str} (h : V1.strsMatch str1 str2 = some .valid) :
    str1.isValid ≠ 0 := by
  intro hzero
  rw [V1.strsMatch, if_pos (.inl hzero)] at h
  cases h

theorem currField_error_ne_valid {code : V1.ErrCode}
    (h : record.currField fieldIdx = some (.error code)) : code ≠ .valid := by
  unfold Record.currField at h
  split_ifs at h
  · rw [← Except.error.inj (Option.some.inj h)]
    decide
  · rw [← Except.error.inj (Option.some.inj h)]
    decide
  · rw [← Except.error.inj (Option.some.inj h)]
    decide
  · obtain ⟨g, -, heq⟩ := Option.map_eq_some_iff.mp h
    cases heq

theorem kernel_validateInputField_eq_valid_iff :
    V1.validateInputField record type fieldIdx val = some .valid ↔
      ∃ f, IntMatches record type fieldIdx val f ∨ StrMatches record type fieldIdx val f := by
  constructor
  · intro h
    unfold V1.validateInputField at h
    rcases hcurr : record.currField fieldIdx with _ | code | f
    · rw [hcurr] at h
      cases h
    · rw [hcurr] at h
      exact absurd (Option.some.inj h) (currField_error_ne_valid hcurr)
    rw [hcurr] at h
    dsimp only at h
    obtain ⟨hdir, h⟩ := passed_of_ite h (by simp)
    obtain ⟨hnon, h⟩ := passed_of_ite h (by simp)
    obtain ⟨htype, h⟩ := passed_of_ite h (by simp)
    have hinput : InputOf record type fieldIdx f :=
      ⟨currField_eq_ok_iff.mp hcurr, hdir, not_not.mp htype⟩
    rw [hinput.same_type] at h
    by_cases hint : type = intType
    · rw [if_pos hint] at h
      obtain ⟨hsame, -⟩ := passed_of_ite h (by simp)
      exact ⟨f, .inl ⟨hinput, hint, not_not.mp hsame⟩⟩
    rw [if_neg hint] at h
    by_cases hstr : type = strType
    · rw [if_pos hstr] at h
      obtain ⟨-, h⟩ := passed_of_ite h (by simp)
      exact ⟨f, .inr ⟨hinput, hstr, h⟩⟩
    · rw [if_neg hstr] at h
      cases h
  · rintro ⟨f, h | h⟩
    · rw [V1.validateInputField, currField_eq_ok_iff.mpr h.toSelects]
      dsimp only
      rw [if_neg h.input, h.same_type, h.int, if_neg (by decide), if_neg (not_not.mpr rfl), if_pos rfl,
        if_neg (not_not.mpr h.same)]
    · rw [V1.validateInputField, currField_eq_ok_iff.mpr h.toSelects]
      dsimp only
      rw [if_neg h.input, h.same_type, h.str, if_neg (by decide), if_neg (not_not.mpr rfl),
        if_neg (by decide), if_pos rfl, if_neg (isValid_of_strsMatch h.same)]
      exact h.same

/-- The bench validates no string. -/
theorem validateInputField_eq_valid_iff :
    validateInputField record type fieldIdx val = some .valid ↔
      ∃ f, IntMatches record type fieldIdx val f := by
  constructor
  · intro h
    unfold validateInputField at h
    obtain ⟨hunknown, h⟩ := passed_of_ite h (by simp)
    obtain ⟨hbound, h⟩ := passed_of_ite h (by simp)
    obtain ⟨hempty, h⟩ := passed_of_ite h (by simp)
    rcases hfield : record.fieldAt fieldIdx.toInt with _ | f
    · rw [hfield] at h
      cases h
    rw [hfield] at h
    dsimp only at h
    obtain ⟨hdir, h⟩ := passed_of_ite h (by simp)
    obtain ⟨hnon, h⟩ := passed_of_ite h (by simp)
    obtain ⟨htype, h⟩ := passed_of_ite h (by simp)
    have hinput : InputOf record type fieldIdx f :=
      ⟨⟨hunknown, not_lt.mp hbound, hempty, hfield⟩, hdir, not_not.mp htype⟩
    rw [hinput.same_type] at h
    by_cases hint : type = intType
    · rw [if_pos hint] at h
      obtain ⟨hsame, -⟩ := passed_of_ite h (by simp)
      exact ⟨f, hinput, hint, not_not.mp hsame⟩
    rw [if_neg hint] at h
    by_cases hstr : type = strType
    · -- a string that passes the flipped test is one that strsMatch refuses
      rw [if_pos hstr] at h
      obtain ⟨hvalid, h⟩ := passed_of_ite h (by simp)
      rw [strsMatch, if_pos (.inl (not_not.mp hvalid))] at h
      cases h
    · rw [if_neg hstr] at h
      cases h
  · rintro ⟨f, h⟩
    rw [validateInputField, if_neg h.known, if_neg (not_lt.mpr h.bound), if_neg h.nonempty, h.field]
    dsimp only
    rw [if_neg h.input, h.same_type, h.int, if_neg (by decide), if_neg (not_not.mpr rfl), if_pos rfl,
      if_neg (not_not.mpr h.same)]

end

section
variable {rg rg' : RecordGroup} {record record' : Record}

/-- The record at the cursor, when the tests of the group pass. -/
structure Next (rg : RecordGroup) (record next : Record) : Prop where
  known : ¬ record.Unknown
  bound : rg.counter.toInt < maxRecordGroupSize
  added : rg.counter.toInt < rg.size.toInt
  record : rg.recordAt rg.counter.toInt = some next

theorem getRecord_eq_valid_iff : getRecord rg record = some (.valid, rg', record') ↔
    Next rg record record' ∧ rg' = { rg with counter := rg.counter + 1 } := by
  constructor
  · intro h
    unfold getRecord at h
    obtain ⟨hunknown, h⟩ := passed_of_ite h (by simp)
    obtain ⟨hbound, h⟩ := passed_of_ite h (by simp)
    obtain ⟨hadded, h⟩ := passed_of_ite h (by simp)
    obtain ⟨next, hnext, heq⟩ := Option.map_eq_some_iff.mp h
    obtain ⟨hrg, hrecord⟩ := Prod.mk.inj (Prod.mk.inj heq).2
    rw [hrecord] at hnext
    exact ⟨⟨hunknown, not_le.mp hbound, not_le.mp hadded, hnext⟩, hrg.symm⟩
  · rintro ⟨h, rfl⟩
    rw [getRecord, if_neg h.known, if_neg (not_le.mpr h.bound), if_neg (not_le.mpr h.added),
      h.record]
    rfl

theorem kernel_getRecord_eq_valid_iff : V1.getRecord rg record = some (.valid, rg', record') ↔
    (Next rg record record' ∧ rg' = { rg with counter := rg.counter + 1 }) ∧
      record'.syscall = record.syscall := by
  constructor
  · intro h
    unfold V1.getRecord at h
    obtain ⟨hunknown, h⟩ := passed_of_ite h (by simp)
    obtain ⟨hbound, h⟩ := passed_of_ite h (by simp)
    obtain ⟨hadded, h⟩ := passed_of_ite h (by simp)
    rcases hnext : rg.recordAt rg.counter.toInt with _ | next
    · rw [hnext] at h
      cases h
    rw [hnext] at h
    dsimp only at h
    obtain ⟨-, h⟩ := passed_of_ite h (by simp)
    obtain ⟨hsame, h⟩ := passed_of_ite h (by simp)
    obtain ⟨hrg, hrecord⟩ := Prod.mk.inj (Prod.mk.inj (Option.some.inj h)).2
    rw [← hrecord, ← hrg]
    exact ⟨⟨⟨hunknown, not_le.mp hbound, not_le.mp hadded, hnext⟩, rfl⟩, not_not.mp hsame⟩
  · rintro ⟨⟨h, rfl⟩, hsame⟩
    have hzero : record'.syscall ≠ 0 := by
      intro hzero
      refine h.known (.inl ?_)
      rw [← hsame, hzero]
      decide
    rw [V1.getRecord, if_neg h.known, if_neg (not_le.mpr h.bound), if_neg (not_le.mpr h.added),
      h.record]
    dsimp only
    rw [if_neg hzero, if_neg (not_not.mpr hsame)]

end

/-! ## Where the copies agree -/

/-- The arguments of the six functions.  The local `newField` that `recordField` does not
initialise is one of them. -/
structure Inputs where
  original : List Byte
  str1 : Str
  str2 : Str
  newField : Field
  record : Record
  type : Byte
  isInput : Byte
  fieldIdx : Word
  val : DataVal
  rg : RecordGroup

/-- The copies give `VALID` on the same inputs, and leave the same then. -/
structure CopiesAgree (x : Inputs) : Prop where
  convertToStr : ∀ str, convertToStr x.original = (.valid, str) ↔
    V1.convertToStr x.original = (.valid, str)
  strsMatch : strsMatch x.str1 x.str2 = some .valid ↔ V1.strsMatch x.str1 x.str2 = some .valid
  recordField : ∀ record,
    recordField x.newField x.record x.type x.isInput x.val = some (.valid, record) ↔
      V1.recordField x.newField x.record x.type x.isInput x.val = some (.valid, record)
  validateInputField : validateInputField x.record x.type x.fieldIdx x.val = some .valid ↔
    V1.validateInputField x.record x.type x.fieldIdx x.val = some .valid
  addRecord : ∀ rg, addRecord x.rg x.record = some (.valid, rg) ↔
    V1.addRecord x.rg x.record = some (.valid, rg)
  getRecord : ∀ rg record, getRecord x.rg x.record = some (.valid, rg, record) ↔
    V1.getRecord x.rg x.record = some (.valid, rg, record)

/-- **Where the test bench agrees with the kernel**: away from a string input of the recorded value,
and from a next record of another system call. -/
theorem copiesAgree_iff (x : Inputs) : CopiesAgree x ↔
    (∀ f, ¬ StrMatches x.record x.type x.fieldIdx x.val f) ∧
      ∀ next, Next x.rg x.record next → next.syscall = x.record.syscall := by
  constructor
  · intro h
    constructor
    · intro f hf
      have hkernel := kernel_validateInputField_eq_valid_iff.mpr ⟨f, .inr hf⟩
      obtain ⟨g, hg⟩ := validateInputField_eq_valid_iff.mp (h.validateInputField.mpr hkernel)
      have hint := hg.int
      rw [hf.str] at hint
      cases hint
    · intro next hnext
      have hbench := getRecord_eq_valid_iff.mpr ⟨hnext, rfl⟩
      exact (kernel_getRecord_eq_valid_iff.mp ((h.getRecord _ _).mp hbench)).2
  · rintro ⟨hstr, hnext⟩
    refine ⟨?_, ?_, ?_, ?_, ?_, ?_⟩
    · intro str
      rw [convertToStr_kernel, Prod.ext_iff, Prod.ext_iff]
      exact and_congr_left' (kernel_eq_valid_iff _).symm
    · rw [strsMatch_kernel]
      cases strsMatch x.str1 x.str2 with
      | none => exact iff_of_false (by simp) (by simp)
      | some code =>
        rw [Option.map_some, Option.some.injEq, Option.some.injEq, kernel_eq_valid_iff]
    · intro record
      rw [recordField_eq_valid_iff, kernel_recordField_eq_valid_iff]
    · rw [validateInputField_eq_valid_iff, kernel_validateInputField_eq_valid_iff]
      exact exists_congr fun f => (or_iff_left (hstr f)).symm
    · intro rg
      rw [addRecord_kernel, map_kernel_eq_valid_iff]
    · intro rg record
      rw [getRecord_eq_valid_iff, kernel_getRecord_eq_valid_iff]
      exact (and_iff_left_of_imp fun h => hnext record h.1).symm

/-- **The copies disagree.**  A recorded string is validated with itself: the kernel accepts it and
the bench does not.  The next record is of system call `27`, and `26` is asked for: the bench returns
it and the kernel does not. -/
theorem copies_disagree :
    (∃ as record, (recordConstructor 15).fieldAnswers [nameInput] = some (as, record) ∧
      V1.validateInputField record strType 0 nameVal = some .valid ∧
      validateInputField record strType 0 nameVal = some .strValueMarkedInvalid ∧
      ∀ x : Inputs, x.record = record → x.type = strType → x.fieldIdx = 0 → x.val = nameVal →
        ¬ CopiesAgree x) ∧
    ∃ rg, V1.addRecord recordGroupConstructor (recordConstructor 27) = some (.valid, rg) ∧
      (V1.getRecord rg (recordConstructor 26)).map (·.1) = some .mismatchSysCalls ∧
      (getRecord rg (recordConstructor 26)).map (·.1) = some .valid ∧
      ∀ x : Inputs, x.rg = rg → x.record = recordConstructor 26 → ¬ CopiesAgree x := by
  constructor
  · refine ⟨_, _, rfl, rfl, rfl, ?_⟩
    rintro x hrecord htype hidx hval hagree
    have hbench := hagree.validateInputField.mpr (by rw [hrecord, htype, hidx, hval]; rfl)
    rw [hrecord, htype, hidx, hval] at hbench
    cases hbench
  · refine ⟨_, rfl, rfl, rfl, ?_⟩
    rintro x hrg hrecord hagree
    have hkernel := (hagree.getRecord _ _).mp (by rw [hrecord, hrg]; rfl)
    rw [hrecord, hrg] at hkernel
    cases hkernel

end V1.Bench
