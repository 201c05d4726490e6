/-
# Records of the first recorder (`v1/xv6-master/recordreplay.h`, `v1/xv6-master/sysproc.c`)

A session is a group of at most six records, and a record has at most four typed fields, the
inputs before the outputs.  `recordField` and `addRecord` build a group, `getRecord` takes the
next record of it, and `validateInputField` and `validateOutputField` compare a call with the
record.  Every function returns a code of `enum ERR_CODE`.

`none` stands for an access outside an array.  Numbers are the fixed-width integers of the
source, and `char` is signed.
-/
import Mathlib.Logic.Function.Basic
import Xv6Recorder.Kernel

open Bytes Xv6

namespace V1

/-! ## Limits, tags and codes -/

/-- `MAX_RECORD_GROUP_SIZE`: records per session. -/
def maxRecordGroupSize : ℕ := 6

/-- `MAX_FIELD_SIZE`: fields per record. -/
def maxFieldSize : ℕ := 4

/-- `STR_MAX_SIZE`: bytes per string. -/
def strMaxSize : ℕ := 200

/-- `NONTYPE`: the type of an unused field. -/
def nonType : Byte := 0
def intType : Byte := 1
def strType : Byte := 2

/-- `IS_INPUT` and `IS_OUTPUT`. -/
def isInput : Byte := 1
def isOutput : Byte := 0

/-- `enum ERR_CODE`. -/
inductive ErrCode where
  | valid
  | additionalSysCall
  | mismatchSysCalls
  | invalidRecordSysCall
  | invalidMaxBound
  | noFieldsInRecord
  | mistmatchInputOutputDeclaration
  | tryingToReadOutputWhenValidating
  | inproperOrderingOfInputOutput
  | fieldUninitialized
  | fieldTypeMismatch
  | intValueMismatch
  | strSizeMismatch
  | strValueMismatch
  | strValueMarkedInvalid
  | strAttemptConvertExceedMax
  | invalidMaxRecordBound
  | invalidRecordAccess
  | fieldTypeUnknown
deriving DecidableEq

/-! ## Strings and values -/

/-- `struct String`. -/
@[ext] structure Str where
  isValid : Byte
  strSize : Word
  content : Fin strMaxSize → Byte

def stringConstructor : Str := ⟨0, 0, fun _ => 0⟩

/-- The string of a text, given without its NUL; every field of the target is assigned. -/
def convertToStr (original : List Byte) : ErrCode × Str :=
  if strMaxSize < original.length then (.strAttemptConvertExceedMax, stringConstructor)
  else (.valid, ⟨1, BitVec.ofNat 32 original.length, fun i => original.getD i 0⟩)

/-- The loop of `strsMatch` from index `i` on, with `n` indices to go. -/
def strsMatchLoop (str1 str2 : Str) : (n i : ℕ) → Option ErrCode
  | 0, _ => some .valid
  | n + 1, i =>
    if h : i < strMaxSize then
      if str1.content ⟨i, h⟩ ≠ str2.content ⟨i, h⟩ then some .strValueMismatch
      else strsMatchLoop str1 str2 n (i + 1)
    else none

def strsMatch (str1 str2 : Str) : Option ErrCode :=
  if str1.isValid = 0 ∨ str2.isValid = 0 then some .strValueMarkedInvalid
  else if str1.strSize ≠ str2.strSize then some .strSizeMismatch
  else strsMatchLoop str1 str2 str1.strSize.toInt.toNat 0

/-- The packed `struct String` at an offset. -/
def loadStr (mem : Memory) (off : ℕ) : Str :=
  ⟨mem off, field 32 (off + 1) mem, fun i => mem (off + 5 + i)⟩

/-- The bytes of a packed `struct String`. -/
def Str.bytes (s : Str) : List Byte := s.isValid :: toBytes s.strSize ++ List.ofFn s.content

/-- `union dataVal` as the bytes it occupies: `intVal` and `strVal` both start at offset `0`. -/
abbrev DataVal := Memory

namespace DataVal

def intVal (val : DataVal) : Word := field 32 0 val
def strVal (val : DataVal) : Str := loadStr val 0

/-- Assign `intVal`, respectively `strVal`. -/
def setInt (num : Word) (val : DataVal) : DataVal := putField 0 num val
def setStr (str : Str) (val : DataVal) : DataVal := overlay val 0 str.bytes

end DataVal

/-! ## Records -/

/-- `struct Field`. -/
@[ext] structure Field where
  isInput : Byte
  type : Byte
  intVal : Word
  strVal : Str

/-- `struct Record`. -/
@[ext] structure Record where
  syscall : Byte
  fieldCount : Word
  fields : Fin maxFieldSize → Field

def recordConstructor (syscall : Word) : Record where
  syscall := syscall.setWidth 8
  fieldCount := 0
  fields _ := ⟨0, nonType, -1, stringConstructor⟩

namespace Record

/-- The test `syscall <= 0 || syscall > 27`. -/
def Unknown (record : Record) : Prop := record.syscall.toInt ≤ 0 ∨ 27 < record.syscall.toInt

instance (record : Record) : Decidable record.Unknown := inferInstanceAs (Decidable (_ ∨ _))

/-- `fields[i]`. -/
def fieldAt (record : Record) (i : ℤ) : Option Field :=
  if h : 0 ≤ i ∧ i < maxFieldSize then some (record.fields ⟨i.toNat, by omega⟩) else none

/-- `fields[fieldCount] = newField; fieldCount++`. -/
def push (record : Record) (newField : Field) : Option Record :=
  if h : 0 ≤ record.fieldCount.toInt ∧ record.fieldCount.toInt < maxFieldSize then
    some { record with
      fields := Function.update record.fields ⟨record.fieldCount.toInt.toNat, by omega⟩ newField
      fieldCount := record.fieldCount + 1 }
  else none

end Record

/-- The `switch` of `recordField`: the member of `newField` that belongs to the type. -/
def Field.fill (newField : Field) (type : Byte) (val : DataVal) : Except ErrCode Field :=
  if type = intType then .ok { newField with intVal := val.intVal }
  else if type = strType then
    if val.strVal.isValid = 0 then .error .strValueMarkedInvalid
    else .ok { newField with strVal := val.strVal }
  else .error .fieldTypeUnknown

/-- Append a field.  The local `newField` is not initialised, and the member that does not
belong to the type stays as it is. -/
def recordField (newField : Field) (record : Record) (type isInput : Byte) (val : DataVal) :
    Option (ErrCode × Record) :=
  if record.Unknown then some (.invalidRecordSysCall, record)
  else if maxFieldSize ≤ record.fieldCount.toInt then some (.invalidMaxBound, record)
  else if 0 < record.fieldCount.toInt ∧ isInput ≠ 0 ∧
      (record.fieldAt (record.fieldCount.toInt - 1)).any (·.isInput = 0) then
    some (.inproperOrderingOfInputOutput, record)
  else
    match newField.fill type val with
    | .error code => some (code, record)
    | .ok field => (record.push { field with type, isInput }).map fun record => (.valid, record)

/-- What the two validators begin with: the checks of the record, and `fields[fieldIdx]`. -/
def Record.currField (record : Record) (fieldIdx : Word) : Option (Except ErrCode Field) :=
  if record.Unknown then some (.error .invalidRecordSysCall)
  else if maxFieldSize < record.fieldCount.toInt then some (.error .invalidMaxBound)
  else if record.fieldCount = 0 then some (.error .noFieldsInRecord)
  else (record.fieldAt fieldIdx.toInt).map .ok

def validateInputField (record : Record) (type : Byte) (fieldIdx : Word) (val : DataVal) :
    Option ErrCode :=
  match record.currField fieldIdx with
  | none => none
  | some (.error code) => some code
  | some (.ok currField) =>
    if currField.isInput = 0 then some .mistmatchInputOutputDeclaration
    else if currField.type = nonType then some .fieldUninitialized
    else if currField.type ≠ type then some .fieldTypeMismatch
    else if currField.type = intType then
      if currField.intVal ≠ val.intVal then some .intValueMismatch else some .valid
    else if currField.type = strType then
      if currField.strVal.isValid = 0 then some .strValueMarkedInvalid
      else strsMatch currField.strVal val.strVal
    else some .fieldTypeUnknown

/-- The value is returned as it is left. -/
def validateOutputField (record : Record) (type : Byte) (fieldIdx : Word) (val : DataVal) :
    Option (ErrCode × DataVal) :=
  match record.currField fieldIdx with
  | none => none
  | some (.error code) => some (code, val)
  | some (.ok currField) =>
    if currField.isInput = 1 then some (.mistmatchInputOutputDeclaration, val)
    else if currField.type = nonType then some (.fieldUninitialized, val)
    else if currField.type ≠ type then some (.fieldTypeMismatch, val)
    else if currField.type = intType then some (.valid, val.setInt currField.intVal)
    else if currField.type = strType then some (.valid, val.setStr currField.strVal)
    else some (.fieldTypeUnknown, val)

/-! ## Record groups -/

/-- `struct RecordGroup`. -/
@[ext] structure RecordGroup where
  counter : Word
  size : Word
  records : Fin maxRecordGroupSize → Record

def recordGroupConstructor : RecordGroup := ⟨0, 0, fun _ => recordConstructor 0⟩

namespace RecordGroup

/-- `records[i]`. -/
def recordAt (rg : RecordGroup) (i : ℤ) : Option Record :=
  if h : 0 ≤ i ∧ i < maxRecordGroupSize then some (rg.records ⟨i.toNat, by omega⟩) else none

/-- `records[size] = record; size = size + 1`. -/
def push (rg : RecordGroup) (record : Record) : Option RecordGroup :=
  if h : 0 ≤ rg.size.toInt ∧ rg.size.toInt < maxRecordGroupSize then
    some { rg with
      records := Function.update rg.records ⟨rg.size.toInt.toNat, by omega⟩ record
      size := rg.size + 1 }
  else none

end RecordGroup

def addRecord (rg : RecordGroup) (record : Record) : Option (ErrCode × RecordGroup) :=
  if record.Unknown then some (.invalidRecordSysCall, rg)
  else if maxRecordGroupSize ≤ rg.size.toInt then some (.invalidMaxRecordBound, rg)
  else (rg.push record).map fun rg => (.valid, rg)

/-- The next record of the group, in place of the caller's. -/
def getRecord (rg : RecordGroup) (record : Record) : Option (ErrCode × RecordGroup × Record) :=
  if record.Unknown then some (.invalidRecordSysCall, rg, record)
  else if maxRecordGroupSize ≤ rg.counter.toInt then some (.invalidMaxRecordBound, rg, record)
  else if rg.size.toInt ≤ rg.counter.toInt then some (.additionalSysCall, rg, record)
  else
    match rg.recordAt rg.counter.toInt with
    | none => none
    | some next =>
      if next.syscall = 0 then some (.additionalSysCall, rg, record)
      else if next.syscall ≠ record.syscall then some (.mismatchSysCalls, rg, record)
      else some (.valid, { rg with counter := rg.counter + 1 }, next)

end V1
