/-
# A record group is a bounded queue

`addRecord` and `getRecord` in any order, on a group made by `recordGroupConstructor`.  The
group represents a queue of at most six records: an accepted `addRecord` appends to the queue,
an accepted `getRecord` takes the next record, and a refused call changes nothing.
-/
import Xv6Recorder.Fifo
import Xv6Recorder.V1Record

open Bytes Xv6 Transitions

namespace V1

/-! ## Sequences of calls -/

/-- A call on a record group, with the caller's record. -/
inductive GroupCall where
  | add (record : Record)
  | get (record : Record)

/-- The caller's record before the call. -/
def GroupCall.record : GroupCall → Record
  | .add record => record
  | .get record => record

/-- What a call did: its code, the group before and after it, and the caller's record after it. -/
structure Answer where
  call : GroupCall
  code : ErrCode
  before : RecordGroup
  after : RecordGroup
  record : Record

namespace RecordGroup

/-- One call. -/
def answer (rg : RecordGroup) : GroupCall → Option Answer
  | .add record => (addRecord rg record).map fun r => ⟨.add record, r.1, rg, r.2, record⟩
  | .get record => (getRecord rg record).map fun r => ⟨.get record, r.1, rg, r.2.1, r.2.2⟩

/-- A sequence of calls, with the group they leave. -/
def answers (rg : RecordGroup) : List GroupCall → Option (List Answer × RecordGroup)
  | [] => some ([], rg)
  | call :: calls => do
    let a ← rg.answer call
    let rest ← a.after.answers calls
    pure (a :: rest.1, rest.2)

end RecordGroup

namespace Answer

/-- The record that an accepted `addRecord` added. -/
def added (a : Answer) : Option Record :=
  match a.call with
  | .add record => if a.code = .valid then some record else none
  | .get _ => none

/-- The record that an accepted `getRecord` returned. -/
def returned (a : Answer) : Option Record :=
  match a.call with
  | .add _ => none
  | .get _ => if a.code = .valid then some a.record else none

/-- A call that is not accepted changes neither the group nor the caller's record, and one that
returns a record returns one of the requested system call. -/
structure Ok (a : Answer) : Prop where
  unchanged : a.code ≠ .valid → a.after = a.before ∧ a.record = a.call.record
  same_syscall : ∀ record, a.call = .get record → a.code = .valid → a.record.syscall = record.syscall

end Answer

/-- **The invariant of a record group.** -/
structure RecordGroup.WellFormed (rg : RecordGroup) : Prop where
  counter_nonneg : 0 ≤ rg.counter.toInt
  counter_le : rg.counter.toInt ≤ rg.size.toInt
  size_le : rg.size.toInt ≤ maxRecordGroupSize
  known : ∀ i : Fin maxRecordGroupSize, (i : ℤ) < rg.size.toInt →
    1 ≤ (rg.records i).syscall.toInt ∧ (rg.records i).syscall.toInt ≤ 27

/-! ## The queue that a group represents -/

/-- The queues that record groups represent. -/
abbrev RecordQueue := Fifo.Queue Record maxRecordGroupSize

/-- A record group with the queue of its records. -/
structure Represents (rg : RecordGroup) (q : RecordQueue) : Prop where
  counter : rg.counter = BitVec.ofNat 32 q.taken
  size : rg.size = BitVec.ofNat 32 q.items.length
  records : ∀ i : Fin maxRecordGroupSize, ∀ record, q.items[i.val]? = some record →
    rg.records i = record
  known : ∀ record ∈ q.items, ¬ record.Unknown

theorem represents_empty : Represents recordGroupConstructor Fifo.Queue.empty where
  counter := rfl
  size := rfl
  records i record h := by cases h
  known record h := by cases h

/-- A call on the group that is a step of the queue. -/
def Simulates (rg : RecordGroup) (q : RecordQueue) (call : GroupCall) : Prop :=
  ∃ a e q', rg.answer call = some a ∧ a.Ok ∧ Represents a.after q' ∧ Fifo.Step q e q' ∧
    a.added = e.item ∧ a.returned = e.taken

namespace Represents

variable {rg : RecordGroup} {q : RecordQueue} (h : Represents rg q)
include h

theorem size_toInt : rg.size.toInt = q.items.length := by
  have hle := q.length_le
  rw [h.size]
  exact toInt_ofNat_of_lt (lt_of_le_of_lt hle (by decide))

theorem counter_toInt : rg.counter.toInt = q.taken := by
  have hle := q.taken_le.trans q.length_le
  rw [h.counter]
  exact toInt_ofNat_of_lt (lt_of_le_of_lt hle (by decide))

/-- **A group that represents a queue is well formed.** -/
theorem wellFormed : rg.WellFormed where
  counter_nonneg := by
    rw [h.counter_toInt]
    exact Int.natCast_nonneg _
  counter_le := by
    rw [h.counter_toInt, h.size_toInt]
    exact Int.ofNat_le.mpr q.taken_le
  size_le := by
    rw [h.size_toInt]
    exact Int.ofNat_le.mpr q.length_le
  known i hi := by
    rw [h.size_toInt] at hi
    have hlt : i.val < q.items.length := Int.ofNat_lt.mp hi
    have hknown := h.known _ (List.getElem_mem hlt)
    rw [h.records i _ (List.getElem?_eq_getElem hlt)]
    rw [Record.Unknown, not_or] at hknown
    omega

/-- The record at the cursor. -/
theorem recordAt_counter (hlt : q.taken < q.items.length) :
    rg.recordAt rg.counter.toInt = some q.items[q.taken] := by
  have hbound : q.taken < maxRecordGroupSize := hlt.trans_le q.length_le
  rw [h.counter_toInt, RecordGroup.recordAt, dif_pos (by omega)]
  exact congrArg some (h.records ⟨q.taken, hbound⟩ _ (List.getElem?_eq_getElem hlt))

/-- Room in the queue is room in the array. -/
theorem push_add {record : Record} (hknown : ¬ record.Unknown)
    (hroom : q.items.length < maxRecordGroupSize) :
    ∃ rg', rg.push record = some rg' ∧ Represents rg' (q.add record hroom) := by
  have hsize := h.size_toInt
  refine ⟨_, dif_pos (by omega), ⟨h.counter, ?_, ?_, ?_⟩⟩
  · show rg.size + 1 = BitVec.ofNat 32 (q.items ++ [record]).length
    rw [h.size, List.length_append]
    exact (BitVec.ofNat_add _ _).symm
  · intro i r hr
    have hitems : (q.items ++ [record])[i.val]? = some r := hr
    show Function.update rg.records _ record i = r
    -- the new record stands at the old size, all others below it
    by_cases hi : i.val = q.items.length
    · rw [hi, List.getElem?_concat_length] at hitems
      have heq : (⟨rg.size.toInt.toNat, by omega⟩ : Fin maxRecordGroupSize) = i :=
        Fin.ext (by show rg.size.toInt.toNat = i.val; omega)
      rw [← heq, Function.update_self]
      exact Option.some.inj hitems
    · have hlt : i.val < (q.items ++ [record]).length := (List.getElem?_eq_some_iff.mp hitems).1
      rw [List.length_append, List.length_singleton] at hlt
      rw [List.getElem?_append_left (by omega)] at hitems
      rw [Function.update_of_ne (fun heq => ?_)]
      · exact h.records i r hitems
      · have := congrArg Fin.val heq
        dsimp only at this
        omega
  · intro r hr
    rcases List.mem_append.mp hr with hr | hr
    · exact h.known r hr
    · rw [List.mem_singleton.mp hr]
      exact hknown

theorem advance (hlt : q.taken < q.items.length) :
    Represents { rg with counter := rg.counter + 1 } (q.advance hlt) where
  counter := by
    show rg.counter + 1 = BitVec.ofNat 32 (q.taken + 1)
    rw [h.counter]
    exact (BitVec.ofNat_add _ _).symm
  size := h.size
  records := h.records
  known := h.known

/-! ## One call and whole runs -/

/-- **One `addRecord`** is a step of the queue. -/
theorem simulates_add (record : Record) : Simulates rg q (.add record) := by
  by_cases hunknown : record.Unknown
  · refine ⟨_, .refused, q, by rw [RecordGroup.answer, addRecord, if_pos hunknown]; rfl, ?_, h,
      .refused, rfl, rfl⟩
    exact ⟨fun _ => ⟨rfl, rfl⟩, fun _ hget => by cases hget⟩
  by_cases hfull : q.items.length < maxRecordGroupSize
  · obtain ⟨rg', hpush, hrep⟩ := h.push_add hunknown hfull
    have hsize := h.size_toInt
    refine ⟨_, .added record, _,
      by rw [RecordGroup.answer, addRecord, if_neg hunknown, if_neg (by omega), hpush]; rfl, ?_,
      hrep, .added hfull, rfl, rfl⟩
    exact ⟨fun hcode => absurd rfl hcode, fun _ hget => by cases hget⟩
  · have hsize := h.size_toInt
    refine ⟨_, .refused, q,
      by rw [RecordGroup.answer, addRecord, if_neg hunknown, if_pos (by omega)]; rfl, ?_, h,
      .refused, rfl, rfl⟩
    exact ⟨fun _ => ⟨rfl, rfl⟩, fun _ hget => by cases hget⟩

/-- **One `getRecord`** is a step of the queue. -/
theorem simulates_get (record : Record) : Simulates rg q (.get record) := by
  -- the four refusals differ in their code only
  have hrefused : ∀ code, code ≠ ErrCode.valid → getRecord rg record = some (code, rg, record) →
      Simulates rg q (.get record) := by
    intro code hcode hget
    refine ⟨⟨.get record, code, rg, rg, record⟩, .refused, q, ?_, ?_, h, .refused, rfl,
      if_neg hcode⟩
    · rw [RecordGroup.answer, hget]
      rfl
    · exact ⟨fun _ => ⟨rfl, rfl⟩, fun _ _ hvalid => absurd hvalid hcode⟩
  have hsize := h.size_toInt
  have hcounter := h.counter_toInt
  have htaken := q.taken_le.trans q.length_le
  by_cases hunknown : record.Unknown
  · exact hrefused .invalidRecordSysCall (by decide) (by rw [getRecord, if_pos hunknown])
  by_cases hend : maxRecordGroupSize ≤ q.taken
  · exact hrefused .invalidMaxRecordBound (by decide)
      (by rw [getRecord, if_neg hunknown, if_pos (by omega)])
  by_cases hlt : q.taken < q.items.length
  · have hknown := h.known _ (List.getElem_mem hlt)
    have hsyscall : q.items[q.taken].syscall ≠ 0 := by
      intro hzero
      rw [Record.Unknown, hzero] at hknown
      exact hknown (.inl (by decide))
    have hnext : getRecord rg record
        = if q.items[q.taken].syscall ≠ record.syscall then some (.mismatchSysCalls, rg, record)
          else some (.valid, { rg with counter := rg.counter + 1 }, q.items[q.taken]) := by
      rw [getRecord, if_neg hunknown, if_neg (by omega), if_neg (by omega),
        h.recordAt_counter hlt]
      exact if_neg hsyscall
    by_cases hsame : q.items[q.taken].syscall = record.syscall
    · rw [if_neg (not_not.mpr hsame)] at hnext
      refine ⟨_, .took q.items[q.taken], _, by rw [RecordGroup.answer, hnext]; rfl, ?_,
        h.advance hlt, .took hlt (List.getElem?_eq_getElem hlt), rfl, rfl⟩
      refine ⟨fun hcode => absurd rfl hcode, ?_⟩
      rintro _ hget -
      injection hget with hget
      rw [← hget]
      exact hsame
    · rw [if_pos hsame] at hnext
      exact hrefused .mismatchSysCalls (by decide) hnext
  · exact hrefused .additionalSysCall (by decide)
      (by rw [getRecord, if_neg hunknown, if_neg (by omega), if_pos (by omega)])

theorem simulates (call : GroupCall) : Simulates rg q call := by
  cases call with
  | add record => exact h.simulates_add record
  | get record => exact h.simulates_get record

/-- **Runs of a group are runs of its queue.** -/
theorem answers (calls : List GroupCall) : ∃ as rg' path, rg.answers calls = some (as, rg') ∧
    (∀ a ∈ as, a.Ok) ∧ Path Fifo.Step q path ∧ Represents rg' (last q path) ∧
    as.filterMap Answer.added = path.filterMap (fun t => t.1.item) ∧
    as.filterMap Answer.returned = path.filterMap (fun t => t.1.taken) := by
  induction calls generalizing rg q with
  | nil => exact ⟨[], rg, [], rfl, (fun a ha => by cases ha), .nil, h, rfl, rfl⟩
  | cons call calls ih =>
    obtain ⟨a, e, q', hanswer, hok, hrep, hstep, hadded, hreturned⟩ := h.simulates call
    obtain ⟨as, rg', path, hanswers, hoks, hpath, hlast, hadds, hreturns⟩ := ih hrep
    refine ⟨a :: as, rg', (e, q') :: path, ?_, ?_, .cons hstep hpath, hlast, ?_, ?_⟩
    · rw [RecordGroup.answers, hanswer]
      show (a.after.answers calls).bind _ = _
      rw [hanswers]
      rfl
    · intro b hb
      rcases List.mem_cons.mp hb with rfl | hb
      · exact hok
      · exact hoks b hb
    · rw [List.filterMap_cons, List.filterMap_cons, hadded, hadds]
    · rw [List.filterMap_cons, List.filterMap_cons, hreturned, hreturns]

end Represents

/-- **A record group is a bounded FIFO.**  After any sequence of calls on a new group the group
is well formed and holds the records added, in order, and the records returned are the first
`counter` of them. -/
theorem record_group_fifo (calls : List GroupCall) : ∃ as rg,
    recordGroupConstructor.answers calls = some (as, rg) ∧ rg.WellFormed ∧
    (as.filterMap Answer.added).length = rg.size.toNat ∧
    (∀ (i : Fin maxRecordGroupSize) (hi : i.val < (as.filterMap Answer.added).length),
      rg.records i = (as.filterMap Answer.added)[i.val]) ∧
    as.filterMap Answer.returned = (as.filterMap Answer.added).take rg.counter.toNat ∧
    (as.filterMap Answer.returned).length = rg.counter.toNat ∧ ∀ a ∈ as, a.Ok := by
  obtain ⟨as, rg, path, hanswers, hoks, hpath, hrep, hadded, hreturned⟩ :=
    represents_empty.answers calls
  have hitems : (last Fifo.Queue.empty path).items = as.filterMap Answer.added := by
    rw [Fifo.path_items_eq hpath, hadded]
    rfl
  have htake := Fifo.path_take_eq hpath
  have hlen := (last Fifo.Queue.empty path).length_le
  have hle := (last Fifo.Queue.empty path).taken_le
  have hcounter : rg.counter.toNat = (last Fifo.Queue.empty path).taken := by
    rw [hrep.counter, toNat_ofNat_of_lt]
    exact lt_of_le_of_lt (hle.trans hlen) (by decide)
  have hsize : rg.size.toNat = (last Fifo.Queue.empty path).items.length := by
    rw [hrep.size, toNat_ofNat_of_lt]
    exact lt_of_le_of_lt hlen (by decide)
  have hreturns : as.filterMap Answer.returned
      = (as.filterMap Answer.added).take rg.counter.toNat := by
    rw [hreturned, hcounter, ← hitems]
    exact htake.symm
  refine ⟨as, rg, hanswers, hrep.wellFormed, by rw [hsize, hitems], fun i hi => ?_, hreturns, ?_,
    hoks⟩
  · refine hrep.records i _ ?_
    rw [hitems]
    exact List.getElem?_eq_getElem hi
  · rw [hreturns, List.length_take, hcounter, ← hitems, Nat.min_eq_left hle]

end V1
