/-
# The test bench of the first recorder (`v1/main.c`)

`v1/main.c` holds a copy of the record functions as a user program, with tests that call the copy.
The copy is modelled with the limits of the kernel, `4` fields and `6` records, in place of its own
`3` and `10`.  The structures and their constructors are then the same, and are those of the kernel;
the codes are an enumeration of their own.

The tests themselves and what they print are not modelled.
-/
import Xv6Recorder.V1Record

open Bytes Xv6

namespace V1.Bench

/-- `enum ERR_CODE` of `v1/main.c`. -/
inductive ErrCode where
  | valid
  | invalidRecordSysCall
  | invalidMaxBound
  | noFieldsInRecord
  | mistmatchInputOutputDeclaration
  | tryingToReadOutputWhenValidating
  | inproperOrderingOfInputOutput
  | fieldUninitialized
  | fieldTypeMismatch
  | intValueMismatch
  | strSizeMismatch
  | strValueMismatch
  | strValueMarkedInvalid
  | strAttemptConvertExceedMax
  | invalidMaxRecordBound
  | invalidRecordAccess
  | fieldTypeUnknown
deriving DecidableEq

def convertToStr (original : List Byte) : ErrCode × Str :=
  if strMaxSize < original.length then (.strAttemptConvertExceedMax, stringConstructor)
  else (.valid, ⟨1, BitVec.ofNat 32 original.length, fun i => original.getD i 0⟩)

/-- The loop of `strsMatch` from index `i` on, with `n` indices to go. -/
def strsMatchLoop (str1 str2 : Str) : (n i : ℕ) → Option ErrCode
  | 0, _ => some .valid
  | n + 1, i =>
    if h : i < strMaxSize then
      if str1.content ⟨i, h⟩ ≠ str2.content ⟨i, h⟩ then some .strValueMismatch
      else strsMatchLoop str1 str2 n (i + 1)
    else none

def strsMatch (str1 str2 : Str) : Option ErrCode :=
  if str1.isValid = 0 ∨ str2.isValid = 0 then some .strValueMarkedInvalid
  else if str1.strSize ≠ str2.strSize then some .strSizeMismatch
  else strsMatchLoop str1 str2 str1.strSize.toInt.toNat 0

/-- The `switch` of `recordField`. -/
def fill (newField : Field) (type : Byte) (val : DataVal) : Except ErrCode Field :=
  if type = intType then .ok { newField with intVal := val.intVal }
  else if type = strType then
    if val.strVal.isValid = 0 then .error .strValueMarkedInvalid
    else .ok { newField with strVal := val.strVal }
  else .error .fieldTypeUnknown

/-- Does the field come in the wrong order?  The count is compared with `0` for equality, so the
field before a negative count is read. -/
def wrongOrder (record : Record) (isInput : Byte) : Option Bool :=
  if record.fieldCount ≠ 0 ∧ isInput ≠ 0 then
    (record.fieldAt (record.fieldCount.toInt - 1)).map (·.isInput = 0)
  else some false

def recordField (newField : Field) (record : Record) (type isInput : Byte) (val : DataVal) :
    Option (ErrCode × Record) :=
  if record.Unknown then some (.invalidRecordSysCall, record)
  else if maxFieldSize ≤ record.fieldCount.toInt then some (.invalidMaxBound, record)
  else
    match wrongOrder record isInput with
    | none => none
    | some true => some (.inproperOrderingOfInputOutput, record)
    | some false =>
      match fill newField type val with
      | .error code => some (code, record)
      | .ok field => (record.push { field with type, isInput }).map fun record => (.valid, record)

/-- The last test of a string field is the other way round than in the kernel. -/
def validateInputField (record : Record) (type : Byte) (fieldIdx : Word) (val : DataVal) :
    Option ErrCode :=
  if record.Unknown then some .invalidRecordSysCall
  else if maxFieldSize < record.fieldCount.toInt then some .invalidMaxBound
  else if record.fieldCount = 0 then some .noFieldsInRecord
  else
    match record.fieldAt fieldIdx.toInt with
    | none => none
    | some currField =>
      if currField.isInput = 0 then some .mistmatchInputOutputDeclaration
      else if currField.type = nonType then some .fieldUninitialized
      else if currField.type ≠ type then some .fieldTypeMismatch
      else if currField.type = intType then
        if currField.intVal ≠ val.intVal then some .intValueMismatch else some .valid
      else if currField.type = strType then
        if currField.strVal.isValid ≠ 0 then some .strValueMarkedInvalid
        else strsMatch currField.strVal val.strVal
      else some .fieldTypeUnknown

/-- `AddRecord`. -/
def addRecord (rg : RecordGroup) (record : Record) : Option (ErrCode × RecordGroup) :=
  if record.Unknown then some (.invalidRecordSysCall, rg)
  else if maxRecordGroupSize ≤ rg.size.toInt then some (.invalidMaxRecordBound, rg)
  else (rg.push record).map fun rg => (.valid, rg)

/-- `GetRecord`: the next record of the group, of whatever system call. -/
def getRecord (rg : RecordGroup) (record : Record) : Option (ErrCode × RecordGroup × Record) :=
  if record.Unknown then some (.invalidRecordSysCall, rg, record)
  else if maxRecordGroupSize ≤ rg.counter.toInt then some (.invalidMaxRecordBound, rg, record)
  else if rg.size.toInt ≤ rg.counter.toInt then some (.invalidRecordAccess, rg, record)
  else (rg.recordAt rg.counter.toInt).map fun next =>
    (.valid, { rg with counter := rg.counter + 1 }, next)

end V1.Bench
