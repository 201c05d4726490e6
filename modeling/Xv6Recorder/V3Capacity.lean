/-
# How much a session can hold

`MAX_SCRS` records, `MAX_RAW_SIZE` bytes per path or read, and `MAX_FILE_SIZE` bytes per
session are three limits that nothing relates.  The size of a record follows from the
kind of its call and from the inputs; a session within the first two limits is saved
completely exactly when its records add up to what the third one leaves.
-/
import Xv6Recorder.V3EncoderBounds

open Bytes StateError Xv6

namespace V3

/-! ## The size of a record -/

/-- The bytes of a value in a session file, with its type. -/
def FieldValue.size : FieldValue → ℕ
  | .int _ => 5
  | .uint _ => 5
  | .raw bytes => 5 + bytes.length
  | .stat _ => 17
  | .other _ => 1

theorem length_encode_value (v : FieldValue) : v.encode.length = v.size := by
  cases v with
  | int x => simp [FieldValue.encode, FieldValue.size]
  | uint x => simp [FieldValue.encode, FieldValue.size]
  | raw bytes => simp [FieldValue.encode, FieldValue.size]; omega
  | stat st => simp [FieldValue.encode, FieldValue.size]
  | other tag => rfl

theorem length_encode_entry (e : Entry) :
    e.encode.length = 2 + (e.values.map FieldValue.size).sum := by
  have hsize : (fun v => FieldValue.encode v |>.length) = FieldValue.size :=
    funext length_encode_value
  rw [Entry.encode, List.length_cons, List.length_cons, List.length_flatMap, hsize]
  omega

/-- The bytes of the outputs of a call: the result, for `read` the bytes it asked for,
for `fstat` the metadata. -/
def Kind.outputSize : Kind → List FieldValue → ℕ
  | .read, [_, .int n] => 10 + n.toNat
  | .fstat, _ => 22
  | _, _ => 5

/-- The bytes of the record of a call with the given inputs. -/
def Kind.recordSize (k : Kind) (ins : List FieldValue) : ℕ :=
  2 + (ins.map FieldValue.size).sum + k.outputSize ins

section

variable {σ ι π : Type}

theorem size_outputs {k : Kind} {p : Proc ι} {ins : List FieldValue} (hlim : k.InLimits p ins)
    (mem : Memory) (ret : Word) :
    ((k.outputs p mem ret).map FieldValue.size).sum = k.outputSize ins := by
  cases k with
  | read =>
    obtain ⟨⟨addr, n⟩, hargs⟩ := Option.isSome_iff_exists.mp (hlim.read rfl)
    obtain ⟨v, vs, rfl, -, hvs⟩ := fetchInputs_cons hlim.inputs
    obtain ⟨u, us, rfl, hu, hus⟩ := fetchInputs_cons hvs
    obtain ⟨n', hn', rfl⟩ := Option.map_eq_some_iff.mp hu
    rw [(readArgs_eq_some hargs).1] at hn'
    obtain rfl := Option.some.inj hn'
    obtain rfl := Option.some.inj hus
    simp [Kind.outputs, Kind.outputSize, hargs, FieldValue.size]
    omega
  | fstat =>
    obtain ⟨a, ha⟩ := Option.isSome_iff_exists.mp (hlim.fstat rfl)
    simp [Kind.outputs, Kind.outputSize, ha, FieldValue.size]
  | _ => rfl

/-- **The size of a record** depends on the kind of the call and its inputs only. -/
theorem Call.InLimits.length_encode {call : Call σ ι π} (h : call.InLimits) :
    call.entry.encode.length = call.kind.recordSize call.ins := by
  rw [length_encode_entry, Call.entry, List.map_append, List.sum_append]
  simp only [Call.outputs]
  rw [size_outputs h, Kind.recordSize]
  omega

/-- The size of a session. -/
theorem length_encodeLog_calls {calls : List (Call σ ι π)} (hlim : ∀ call ∈ calls, call.InLimits) :
    (encodeLog (calls.map Call.entry)).length
      = 4 + (calls.map fun call => call.kind.recordSize call.ins).sum := by
  rw [length_encodeLog, List.length_flatMap, List.map_map]
  congr 2
  exact List.map_congr_left fun call hcall => (hlim call hcall).length_encode

/-! ## Saving a whole session -/

/-- `sys_record_stop` gets to writing the file, with the whole session in the buffer. -/
def SavesWhole (ops : FsOps σ ι π) (m : Machine σ ι π) (calls : List (Call σ ι π)) : Prop :=
  (sysRecordStop ops).run m = (saveSession ops).run
    { m with core := m.core.packed (encodeLog (calls.map Call.entry)) }

theorem savesWhole_iff {ops : FsOps σ ι π} {m : Machine σ ι π} {calls : List (Call σ ι π)}
    (henc : EncoderInput m.core calls.length) (hpid : m.core.session.rrPid = m.kern.proc.pid)
    (hbytes : m.core.encoding calls.length = encodeLog (calls.map Call.entry)) :
    SavesWhole ops m calls ↔ (encodeLog (calls.map Call.entry)).length ≤ maxFileSize := by
  rw [SavesWhole, ← hbytes]
  constructor
  · intro h
    by_contra hlong
    have hover : ∃ m', (sysRecordStop ops).run m = .error .outOfBounds m' :=
      sysRecordStop_overflows henc hpid (by omega)
    obtain ⟨m', hrun⟩ := hover
    rw [h] at hrun
    exact saveSession_raises hrun rfl
  · exact sysRecordStop_fits henc hpid

/-- **Log capacity.**  A session of at most `MAX_SCRS` calls within the limits, begun
while nobody replays, is saved completely by a stop of its owner exactly when its records
and the count take at most `MAX_FILE_SIZE` bytes. -/
theorem log_capacity_iff {ops : FsOps σ ι π} {m : Machine σ ι π} {f : List Byte}
    (hidle : m.core.session.replaySyscalls ≠ 1) {calls : List (Call σ ι π)} {c : Core}
    (hcalls : Calls ops m.kern.proc.pid (m.startRecord f).core calls c)
    (hlen : calls.length ≤ maxScrs) (hlim : ∀ call ∈ calls, call.InLimits)
    {kern : Kern σ ι π} (hpid : kern.proc.pid = m.kern.proc.pid) :
    SavesWhole ops ⟨c, kern⟩ calls ↔
      4 + (calls.map fun call => call.kind.recordSize call.ins).sum ≤ maxFileSize := by
  have hstart : RecordingAt (m.startRecord f).core m.kern.proc.pid 0 := ⟨rfl, hidle, rfl, rfl⟩
  obtain ⟨henc, hbytes, howner, -⟩ := hcalls.encoderInput hstart hlen hlim
  rw [← length_encodeLog_calls hlim]
  exact savesWhole_iff henc (howner.trans hpid.symm) hbytes

end

/-- `270` reads of `200` bytes are saved. -/
theorem log_capacity_iff_reads : ∃ c,
    Calls OneFile.ops 5 (startingMachine.startRecord [102]).core (List.replicate 270 longRead) c ∧
      SavesWhole OneFile.ops ⟨c, OneFile.kern 5 [] [] []⟩ (List.replicate 270 longRead) := by
  obtain ⟨c, hcalls, -⟩ := exists_longReads 270 (by decide)
  have hidle : startingMachine.core.session.replaySyscalls ≠ 1 := by decide
  have hpid : (OneFile.kern 5 [] [] []).proc.pid = startingMachine.kern.proc.pid := rfl
  refine ⟨c, hcalls, (log_capacity_iff hidle hcalls (by rw [List.length_replicate]; decide)
    (longReads_inLimits 270) hpid).mpr ?_⟩
  rw [List.map_replicate, List.sum_replicate_nat]
  decide

/-- One more, and the session of `271` calls, each within the limits, is not saved: the
stop call stores past the end of the buffer. -/
theorem log_capacity_exceeded :
    (List.replicate 271 longRead).length ≤ maxScrs ∧
    (∀ call ∈ List.replicate 271 longRead, call.InLimits) ∧
    ∃ c, Calls OneFile.ops 5 (startingMachine.startRecord [102]).core
        (List.replicate 271 longRead) c ∧
      (∃ m', (sysRecordStop OneFile.ops).run ⟨c, OneFile.kern 5 [] [] []⟩
        = .error .outOfBounds m') ∧
      ¬ SavesWhole OneFile.ops ⟨c, OneFile.kern 5 [] [] []⟩ (List.replicate 271 longRead) := by
  obtain ⟨c, hcalls, henc, hbytes, hpid⟩ := exists_longReads 271 (by decide)
  have hlong : maxFileSize < (c.encoding 271).length := by
    rw [hbytes, length_longReads]
    decide
  refine ⟨by rw [List.length_replicate]; decide, longReads_inLimits 271, c, hcalls,
    sysRecordStop_overflows henc hpid hlong, fun h => ?_⟩
  have hfit := (savesWhole_iff (by rw [List.length_replicate]; exact henc) hpid
    (by rw [List.length_replicate]; exact hbytes)).mp h
  rw [← hbytes] at hfit
  omega

end V3
