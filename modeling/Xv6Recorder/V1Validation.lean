/-
# What the validators accept

A record built by `recordField`, read by `validateInputField` and `validateOutputField`.  A value
is an int or a text, and the string of a text is what `convertToStr` makes of it.  At the index of
a recorded input the first validator accepts exactly the recorded value; at the index of a recorded
output the second one returns it.

The bound is tested on `fieldCount` and not on the index.  An index inside the array but past the
recorded fields finds a slot as the constructor left it, and is refused; an index outside the array
is read all the same.
-/
import Xv6Recorder.V1Fields
import Xv6Recorder.V1Session

open Bytes Xv6

namespace V1

/-! ## Texts -/

theorem convertToStr_of_le {original : List Byte} (h : original.length ≤ strMaxSize) :
    convertToStr original
      = (.valid, ⟨1, BitVec.ofNat 32 original.length, fun i => original.getD i 0⟩) :=
  if_neg (not_lt.mpr h)

theorem convertToStr_of_lt {original : List Byte} (h : strMaxSize < original.length) :
    convertToStr original = (.strAttemptConvertExceedMax, stringConstructor) :=
  if_pos h

/-- Only a text that fits is marked valid. -/
theorem length_le_of_isValid {original : List Byte}
    (h : (convertToStr original).2.isValid ≠ 0) : original.length ≤ strMaxSize := by
  by_contra hlong
  rw [convertToStr_of_lt (not_le.mp hlong)] at h
  exact h rfl

theorem strsMatchLoop_eq_valid_iff (str1 str2 : Str) {n i : ℕ} (h : i + n ≤ strMaxSize) :
    strsMatchLoop str1 str2 n i = some .valid ↔ ∀ j (hj : j < strMaxSize), i ≤ j → j < i + n →
      str1.content ⟨j, hj⟩ = str2.content ⟨j, hj⟩ := by
  induction n generalizing i with
  | zero => exact ⟨fun _ j _ hij hji => by omega, fun _ => rfl⟩
  | succ n ih =>
    have hi : i < strMaxSize := by omega
    rw [strsMatchLoop, dif_pos hi]
    by_cases hsame : str1.content ⟨i, hi⟩ = str2.content ⟨i, hi⟩
    · rw [if_neg (not_not.mpr hsame), ih (by omega)]
      constructor
      · intro hrest j hj hij hji
        rcases Nat.eq_or_lt_of_le hij with rfl | hlt
        · exact hsame
        · exact hrest j hj hlt (by omega)
      · intro hall j hj hij hji
        exact hall j hj (by omega) (by omega)
    · rw [if_pos hsame]
      constructor
      · intro hcode
        cases hcode
      · intro hall
        exact absurd (hall i hi le_rfl (by omega)) hsame

/-- **Two strings match exactly when they are of one text.** -/
theorem strsMatch_convertToStr {original other : List Byte} (h : original.length ≤ strMaxSize) :
    strsMatch (convertToStr original).2 (convertToStr other).2 = some .valid ↔
      other = original := by
  rw [convertToStr_of_le h, strsMatch]
  by_cases hother : other.length ≤ strMaxSize
  · have hvalid : (1 : Byte) ≠ 0 := by decide
    rw [convertToStr_of_le hother, if_neg (not_or.mpr ⟨hvalid, hvalid⟩)]
    have hmax : strMaxSize < 2 ^ 31 := by decide
    have hsize := toInt_ofNat_of_lt (lt_of_le_of_lt h hmax)
    have hsize' := toInt_ofNat_of_lt (lt_of_le_of_lt hother hmax)
    by_cases hlen : original.length = other.length
    · rw [if_neg (not_not.mpr (congrArg (BitVec.ofNat 32) hlen)), hsize, Int.toNat_natCast,
        strsMatchLoop_eq_valid_iff _ _ (by omega)]
      constructor
      · intro hall
        refine List.ext_getElem hlen.symm fun j hj hj' => ?_
        have hbyte := hall j (hj'.trans_le h) (Nat.zero_le _) (by omega)
        dsimp only at hbyte
        rw [List.getD_eq_getElem _ _ hj, List.getD_eq_getElem _ _ hj'] at hbyte
        exact hbyte.symm
      · rintro rfl j hj - -
        rfl
    · have hne : BitVec.ofNat 32 original.length ≠ BitVec.ofNat 32 other.length := by
        intro heq
        rw [heq, hsize'] at hsize
        exact hlen (Int.ofNat_inj.mp hsize).symm
      rw [if_pos hne]
      constructor
      · intro hcode
        cases hcode
      · rintro rfl
        exact absurd rfl hlen
  · rw [convertToStr_of_lt (not_le.mp hother), if_pos (.inr rfl)]
    constructor
    · intro hcode
      cases hcode
    · rintro rfl
      exact absurd h hother

/-! ## Values -/

/-- A value that a caller records. -/
inductive Value where
  | int (num : Word)
  | text (original : List Byte)

namespace Value

def type : Value → Byte
  | .int _ => intType
  | .text _ => strType

/-- The member that belongs to the type holds the value. -/
def In (num : Word) (str : Str) : Value → Prop
  | .int n => num = n
  | .text original => str = (convertToStr original).2

end Value

def DataVal.Holds (val : DataVal) (v : Value) : Prop := v.In val.intVal val.strVal

/-- A recorded field of the value. -/
structure Field.Holds (f : Field) (v : Value) : Prop where
  type : f.type = v.type
  value : v.In f.intVal f.strVal

theorem DataVal.holds_setInt (val : DataVal) (num : Word) : (val.setInt num).Holds (.int num) :=
  field_putField_same rfl 0 num val

theorem DataVal.strVal_setStr (val : DataVal) (str : Str) : (val.setStr str).strVal = str :=
  loadStr_of_stands (stands_overlay _ _ _)

theorem DataVal.holds_setStr (val : DataVal) (original : List Byte) :
    (val.setStr (convertToStr original).2).Holds (.text original) :=
  val.strVal_setStr _

/-- A field made of an int, or of the string of a text, holds it. -/
theorem FieldCall.Makes.holds {call : FieldCall} {f : Field} (h : call.Makes f)
    (hconverted : call.type = strType → ∃ original, call.val.Holds (.text original)) :
    ∃ v, call.type = v.type ∧ call.val.Holds v ∧ f.Holds v := by
  rcases h.known with hint | ⟨hstr, -⟩
  · rw [h.type] at hint
    exact ⟨.int call.val.intVal, hint, rfl, h.type.trans hint, h.intVal hint⟩
  · rw [h.type] at hstr
    obtain ⟨original, horiginal⟩ := hconverted hstr
    exact ⟨.text original, hstr, horiginal, h.type.trans hstr, (h.strVal hstr).trans horiginal⟩

/-! ## One field -/

namespace Record

/-- `validateInputField` reads inside the array and refuses. -/
def RefusesInput (record : Record) (type : Byte) (fieldIdx : Word) (val : DataVal) : Prop :=
  ∃ code, code ≠ .valid ∧ validateInputField record type fieldIdx val = some code

/-- `validateOutputField` reads inside the array, refuses, and leaves the value. -/
def RefusesOutput (record : Record) (type : Byte) (fieldIdx : Word) (val : DataVal) : Prop :=
  ∃ code, code ≠ .valid ∧ validateOutputField record type fieldIdx val = some (code, val)

/-- **What is recorded is what validates**: the field at an index keeps the direction and the value
it was recorded with, and the validators accept that value only.  A direction flag other than `0`
and `1` is an input for the one and an output for the other. -/
structure Validates (record : Record) (fieldIdx : Word) (isInput : Byte) (v : Value) : Prop where
  kept : ∃ f, record.fieldAt fieldIdx.toInt = some f ∧ f.isInput = isInput ∧ f.Holds v
  input : isInput ≠ 0 → ∀ (val : DataVal) w, val.Holds w → w.type = v.type →
    (validateInputField record v.type fieldIdx val = some .valid ↔ w = v)
  output : isInput ≠ 1 → ∀ val, ∃ val' : DataVal,
    validateOutputField record v.type fieldIdx val = some (.valid, val') ∧ val'.Holds v
  refuses_output : isInput = 0 → ∀ type val, record.RefusesInput type fieldIdx val
  refuses_input : isInput = 1 → ∀ type val, record.RefusesOutput type fieldIdx val
  refuses_type : ∀ type, type ≠ v.type → ∀ val,
    record.RefusesInput type fieldIdx val ∧ record.RefusesOutput type fieldIdx val

variable {record : Record} {fieldIdx : Word} {f : Field} {type : Byte} {val : DataVal}

theorem refuses_of_error {code : ErrCode} (hcode : code ≠ .valid)
    (h : record.currField fieldIdx = some (.error code)) :
    record.RefusesInput type fieldIdx val ∧ record.RefusesOutput type fieldIdx val := by
  constructor
  · refine ⟨code, hcode, ?_⟩
    rw [validateInputField, h]
  · refine ⟨code, hcode, ?_⟩
    rw [validateOutputField, h]

section
variable (h : record.currField fieldIdx = some (.ok f))
include h

theorem refusesInput_of_isInput (hdir : f.isInput = 0) : record.RefusesInput type fieldIdx val := by
  refine ⟨.mistmatchInputOutputDeclaration, by decide, ?_⟩
  rw [validateInputField, h]
  exact if_pos hdir

theorem refusesOutput_of_isInput (hdir : f.isInput = 1) :
    record.RefusesOutput type fieldIdx val := by
  refine ⟨.mistmatchInputOutputDeclaration, by decide, ?_⟩
  rw [validateOutputField, h]
  exact if_pos hdir

theorem refusesOutput_of_nonType (hnon : f.type = nonType) :
    record.RefusesOutput type fieldIdx val := by
  by_cases hdir : f.isInput = 1
  · exact refusesOutput_of_isInput h hdir
  · refine ⟨.fieldUninitialized, by decide, ?_⟩
    rw [validateOutputField, h]
    dsimp only
    rw [if_neg hdir, if_pos hnon]

theorem refusesInput_of_type (htype : f.type ≠ type) : record.RefusesInput type fieldIdx val := by
  by_cases hdir : f.isInput = 0
  · exact refusesInput_of_isInput h hdir
  by_cases hnon : f.type = nonType
  · refine ⟨.fieldUninitialized, by decide, ?_⟩
    rw [validateInputField, h]
    dsimp only
    rw [if_neg hdir, if_pos hnon]
  · refine ⟨.fieldTypeMismatch, by decide, ?_⟩
    rw [validateInputField, h]
    dsimp only
    rw [if_neg hdir, if_neg hnon, if_pos htype]

theorem refusesOutput_of_type (htype : f.type ≠ type) : record.RefusesOutput type fieldIdx val := by
  by_cases hnon : f.type = nonType
  · exact refusesOutput_of_nonType h hnon
  by_cases hdir : f.isInput = 1
  · exact refusesOutput_of_isInput h hdir
  · refine ⟨.fieldTypeMismatch, by decide, ?_⟩
    rw [validateOutputField, h]
    dsimp only
    rw [if_neg hdir, if_neg hnon, if_pos htype]

variable {v w : Value} (hf : f.Holds v)
include hf

/-- **An input validates exactly with the recorded value.** -/
theorem validateInputField_iff (hknown : f.Known) (hdir : f.isInput ≠ 0) (hval : val.Holds w)
    (hw : w.type = v.type) :
    validateInputField record v.type fieldIdx val = some .valid ↔ w = v := by
  have hvalue := hf.value
  rw [validateInputField, h]
  dsimp only
  rw [if_neg hdir, hf.type]
  cases v with
  | int num =>
    cases w with
    | text other => cases hw
    | int num' =>
      have hnum : val.intVal = num' := hval
      have hrecorded : f.intVal = num := hvalue
      rw [Value.type, if_neg (by decide), if_neg (not_not.mpr rfl), if_pos rfl, hnum, hrecorded]
      by_cases hsame : num = num'
      · rw [if_neg (not_not.mpr hsame), hsame]
        exact iff_of_true rfl rfl
      · rw [if_pos hsame]
        refine iff_of_false (by decide) ?_
        rintro ⟨⟩
        exact hsame rfl
  | text original =>
    cases w with
    | int num => cases hw
    | text other =>
      have hstr : val.strVal = (convertToStr other).2 := hval
      have hrecorded : f.strVal = (convertToStr original).2 := hvalue
      have hvalid : f.strVal.isValid ≠ 0 := by
        rcases hknown with hint | hstr
        · rw [hf.type] at hint
          cases hint
        · exact hstr.2
      rw [Value.type, if_neg (by decide), if_neg (not_not.mpr rfl), if_neg (by decide), if_pos rfl,
        if_neg hvalid, hstr, hrecorded]
      rw [hrecorded] at hvalid
      rw [strsMatch_convertToStr (length_le_of_isValid hvalid), Value.text.injEq]

/-- **An output returns the recorded value.** -/
theorem validateOutputField_holds (hdir : f.isInput ≠ 1) (val : DataVal) : ∃ val' : DataVal,
    validateOutputField record v.type fieldIdx val = some (.valid, val') ∧ val'.Holds v := by
  have hvalue := hf.value
  rw [validateOutputField, h]
  dsimp only
  rw [if_neg hdir, hf.type]
  cases v with
  | int num =>
    have hrecorded : f.intVal = num := hvalue
    refine ⟨val.setInt num, ?_, val.holds_setInt num⟩
    rw [Value.type, if_neg (by decide), if_neg (not_not.mpr rfl), if_pos rfl, hrecorded]
  | text original =>
    have hrecorded : f.strVal = (convertToStr original).2 := hvalue
    refine ⟨val.setStr (convertToStr original).2, ?_, val.holds_setStr original⟩
    rw [Value.type, if_neg (by decide), if_neg (not_not.mpr rfl), if_neg (by decide), if_pos rfl,
      hrecorded]

end

end Record

/-! ## The records of `recordField` -/

namespace FieldSeq

variable (fs : FieldSeq)

/-- With a field recorded, the three tests of the record pass. -/
theorem currField_eq (hitems : fs.items ≠ []) (fieldIdx : Word) :
    fs.record.currField fieldIdx = (fs.record.fieldAt fieldIdx.toInt).map .ok := by
  have hcount := fs.fieldCount_toInt
  have hle := fs.length_le
  rw [Record.currField, if_neg (fun h => fs.unknown_iff.mp h (fs.syscall_known hitems)),
    if_neg (by omega), if_neg (mt fs.fieldCount_eq_zero_iff.mp hitems)]

theorem validates {i : ℕ} {f : Field} {v : Value} (hi : fs.items[i]? = some f) (hf : f.Holds v) :
    fs.record.Validates (BitVec.ofNat 32 i) f.isInput v := by
  obtain ⟨hlt, hget⟩ := List.getElem?_eq_some_iff.mp hi
  have hmem : f ∈ fs.items := List.mem_of_getElem? hi
  have hbound : i < 2 ^ 31 := (hlt.trans_le fs.length_le).trans (by decide)
  have hfield : fs.record.fieldAt (BitVec.ofNat 32 i).toInt = some f := by
    rw [toInt_ofNat_of_lt hbound, fs.fieldAt_of_lt hlt, hget]
  have hcurr : fs.record.currField (BitVec.ofNat 32 i) = some (.ok f) := by
    rw [fs.currField_eq (List.ne_nil_of_mem hmem), hfield]
    rfl
  refine ⟨⟨f, hfield, rfl, hf⟩, ?_, ?_, ?_, ?_, ?_⟩
  · intro hdir val w hval hw
    exact Record.validateInputField_iff hcurr hf (fs.known f hmem) hdir hval hw
  · intro hdir val
    exact Record.validateOutputField_holds hcurr hf hdir val
  · intro hdir type val
    exact Record.refusesInput_of_isInput hcurr hdir
  · intro hdir type val
    exact Record.refusesOutput_of_isInput hcurr hdir
  · intro type htype val
    have hne : f.type ≠ type := by
      rw [hf.type]
      exact htype.symm
    exact ⟨Record.refusesInput_of_type hcurr hne, Record.refusesOutput_of_type hcurr hne⟩

end FieldSeq

/-- **What is recorded is what validates.**  After any sequence of calls on a new record, whose
strings are made by `convertToStr`, there are as many fields as successful calls, and the `i`-th
field is the one of the `i`-th successful call. -/
theorem recorded_fields_validate (s : Word) (calls : List FieldCall)
    (hconverted : ∀ call ∈ calls, call.type = strType →
      ∃ original, call.val.Holds (.text original)) :
    ∃ as record, (recordConstructor s).fieldAnswers calls = some (as, record) ∧
      record.fieldCount.toInt = (accepted as).length ∧
      ∀ i call, (accepted as)[i]? = some call → ∃ v, call.type = v.type ∧ call.val.Holds v ∧
        record.Validates (BitVec.ofNat 32 i) call.isInput v := by
  obtain ⟨as, fs, fields, hrun, hitems, hfields, has⟩ := (FieldSeq.empty (s.setWidth 8)).run calls
  have hitems : fs.items = fields := hitems
  refine ⟨as, fs.record, hrun, ?_, ?_⟩
  · rw [fs.fieldCount_toInt, hitems, hfields.length_eq]
  · intro i call hcall
    obtain ⟨hlt, hget⟩ := List.getElem?_eq_some_iff.mp hcall
    have hlt' : i < fields.length := by rwa [hfields.length_eq] at hlt
    have hmakes : call.Makes fields[i] := by
      rw [← hget]
      exact hfields.get hlt hlt'
    obtain ⟨a, ha, rfl⟩ := List.mem_map.mp (List.mem_of_getElem? hcall)
    have hmem := (has a (List.mem_filter.mp ha).1).1
    obtain ⟨v, htype, hval, hf⟩ := hmakes.holds (hconverted a.call hmem)
    refine ⟨v, htype, hval, ?_⟩
    rw [← hmakes.isInput]
    refine fs.validates ?_ hf
    rw [hitems]
    exact List.getElem?_eq_getElem hlt'

/-- The bytes of a union with the string of `"a"`. -/
def nameVal : DataVal := fun i => if i ≤ 1 then 1 else if i = 5 then 97 else 0

theorem holds_nameVal : nameVal.Holds (.text [97]) := by
  refine Str.ext rfl rfl ?_
  funext i
  show nameVal (0 + 5 + i) = [97].getD i 0
  unfold nameVal
  rcases Nat.eq_zero_or_pos i.val with hzero | hpos
  · rw [hzero]
    rfl
  · rw [if_neg (by omega), if_neg (by omega), List.getD_eq_default _ _ hpos]

/-- The name and the mode that `open` records. -/
def nameInput : FieldCall := ⟨unusedField, strType, isInput, nameVal⟩
def modeInput : FieldCall := ⟨unusedField, intType, isInput, DataVal.setInt 7 fun _ => 0⟩

/-- Both fields are accepted. -/
theorem recorded_fields_validate_open : ∃ as record,
    (recordConstructor 15).fieldAnswers [nameInput, modeInput] = some (as, record) ∧
    accepted as = [nameInput, modeInput] ∧
    ∀ i call, (accepted as)[i]? = some call → ∃ v, call.type = v.type ∧ call.val.Holds v ∧
      record.Validates (BitVec.ofNat 32 i) call.isInput v := by
  have hconverted : ∀ call ∈ [nameInput, modeInput], call.type = strType →
      ∃ original, call.val.Holds (.text original) := by
    intro call hcall htype
    rcases List.mem_cons.mp hcall with rfl | hcall
    · exact ⟨[97], holds_nameVal⟩
    · rw [List.mem_singleton.mp hcall] at htype
      cases htype
  obtain ⟨as, record, hrun, -, hfields⟩ :=
    recorded_fields_validate 15 [nameInput, modeInput] hconverted
  refine ⟨as, record, hrun, ?_, hfields⟩
  have has : ((recordConstructor 15).fieldAnswers [nameInput, modeInput]).map
      (fun r => accepted r.1) = some [nameInput, modeInput] := rfl
  rw [hrun] at has
  exact Option.some.inj has

/-! ## Indices without a field -/

/-- Both validators refuse the index. -/
def Record.RejectsIndex (record : Record) (type : Byte) (fieldIdx : Word) (val : DataVal) : Prop :=
  record.RefusesInput type fieldIdx val ∧ record.RefusesOutput type fieldIdx val

namespace FieldSeq

variable (fs : FieldSeq) (type : Byte) (fieldIdx : Word) (val : DataVal)

/-- A record without fields is refused before the index is used. -/
theorem rejectsIndex_of_nil (h : fs.items = []) : fs.record.RejectsIndex type fieldIdx val := by
  by_cases hunknown : fs.record.Unknown
  · have hcurr : fs.record.currField fieldIdx = some (.error .invalidRecordSysCall) :=
      if_pos hunknown
    exact Record.refuses_of_error (by decide) hcurr
  · have hcount := fs.fieldCount_toInt
    have hle := fs.length_le
    have hcurr : fs.record.currField fieldIdx = some (.error .noFieldsInRecord) := by
      rw [Record.currField, if_neg hunknown, if_neg (by omega),
        if_pos (fs.fieldCount_eq_zero_iff.mpr h)]
    exact Record.refuses_of_error (by decide) hcurr

/-- A slot that is not in use is an output of no type. -/
theorem rejectsIndex_of_unused (hitems : fs.items ≠ []) (h0 : 0 ≤ fieldIdx.toInt)
    (hmax : fieldIdx.toInt < maxFieldSize) (hpast : fs.items.length ≤ fieldIdx.toInt) :
    fs.record.RejectsIndex type fieldIdx val := by
  obtain ⟨i, hi⟩ := Int.eq_ofNat_of_zero_le h0
  have hcurr : fs.record.currField fieldIdx = some (.ok unusedField) := by
    rw [fs.currField_eq hitems, hi, fs.fieldAt_eq i (by omega),
      List.getD_eq_default _ _ (by omega)]
    rfl
  exact ⟨Record.refusesInput_of_isInput hcurr rfl, Record.refusesOutput_of_nonType hcurr rfl⟩

/-- With a field recorded, an index outside the array is read. -/
theorem validateInputField_outside (hitems : fs.items ≠ [])
    (hout : ¬ (0 ≤ fieldIdx.toInt ∧ fieldIdx.toInt < maxFieldSize)) :
    validateInputField fs.record type fieldIdx val = none := by
  have hcurr : fs.record.currField fieldIdx = none := by
    rw [fs.currField_eq hitems, Record.fieldAt, dif_neg hout]
    rfl
  rw [validateInputField, hcurr]

end FieldSeq

/-- **Which bad indices are refused.**  On a record that `recordField` built, both validators refuse
an index without a field exactly when the record has no field at all or the index lies inside the
array. -/
theorem rejectsIndex_iff (s : Word) (calls : List FieldCall) (as : List FieldAnswer)
    (record : Record) (hrun : (recordConstructor s).fieldAnswers calls = some (as, record))
    (fieldIdx : Word)
    (hbad : ¬ (0 ≤ fieldIdx.toInt ∧ fieldIdx.toInt < record.fieldCount.toInt))
    (type : Byte) (val : DataVal) :
    record.RejectsIndex type fieldIdx val ↔
      record.fieldCount = 0 ∨ (0 ≤ fieldIdx.toInt ∧ fieldIdx.toInt < maxFieldSize) := by
  obtain ⟨as', fs, fields, hrun', -, -, -⟩ := (FieldSeq.empty (s.setWidth 8)).run calls
  rw [FieldSeq.record_empty, hrun] at hrun'
  obtain ⟨-, rfl⟩ := Prod.mk.inj (Option.some.inj hrun')
  rw [fs.fieldCount_eq_zero_iff]
  rw [fs.fieldCount_toInt] at hbad
  by_cases hitems : fs.items = []
  · exact iff_of_true (fs.rejectsIndex_of_nil type fieldIdx val hitems) (.inl hitems)
  by_cases hinside : 0 ≤ fieldIdx.toInt ∧ fieldIdx.toInt < maxFieldSize
  · refine iff_of_true ?_ (.inr hinside)
    exact fs.rejectsIndex_of_unused type fieldIdx val hitems hinside.1 hinside.2 (by omega)
  · refine iff_of_false ?_ (not_or.mpr ⟨hitems, hinside⟩)
    rintro ⟨⟨code, -, hcode⟩, -⟩
    rw [fs.validateInputField_outside type fieldIdx val hitems hinside] at hcode
    cases hcode

/-- The second slot is refused; the slots before and after the array are not. -/
theorem rejectsIndex_iff_open : ∃ as record,
    (recordConstructor 15).fieldAnswers [modeInput] = some (as, record) ∧
    ∀ type val, record.RejectsIndex type 1 val ∧ ¬ record.RejectsIndex type 4 val ∧
      ¬ record.RejectsIndex type (-1) val := by
  refine ⟨_, _, rfl, fun type val => ⟨?_, ?_, ?_⟩⟩
  · exact (rejectsIndex_iff 15 [modeInput] _ _ rfl 1 (by decide) type val).mpr (.inr (by decide))
  · rw [rejectsIndex_iff 15 [modeInput] _ _ rfl 4 (by decide) type val]
    decide
  · rw [rejectsIndex_iff 15 [modeInput] _ _ rfl (-1) (by decide) type val]
    decide

/-- **An index outside the array is read**: a record with one field, and index `4`. -/
theorem index_read_outside : ∃ as record,
    (recordConstructor 15).fieldAnswers [modeInput] = some (as, record) ∧ record.fieldCount = 1 ∧
    validateInputField record intType 4 modeInput.val = none ∧
    validateOutputField record intType 4 modeInput.val = none ∧
    ¬ record.RejectsIndex intType 4 modeInput.val := by
  refine ⟨_, _, rfl, rfl, rfl, rfl, ?_⟩
  rintro ⟨⟨code, -, hcode⟩, -⟩
  cases hcode

end V1
