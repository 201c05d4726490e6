/-
# Sequences of calls

The recorded-kind calls of one process, one after the other.  Between two calls
anything may happen to the kernel, the process included; the recorder's state is
handed from call to call.

A process that is recording appends the entry of each call to the log, so stopping
encodes the entries of its calls in order.
-/
import Xv6Recorder.V3Recording
import Xv6Recorder.V3Saving

open Bytes StateError Xv6

namespace V3

section

variable {σ ι π : Type}

/-- A call that has returned: with inputs `ins` in the kernel `kern`, and `ret` in the
kernel `kern'`. -/
structure Call (σ ι π : Type) where
  kind : Kind
  frame : Frame
  ins : List FieldValue
  kern : Kern σ ι π
  ret : Word
  kern' : Kern σ ι π

/-- The return value and what the call stored for its caller. -/
def Call.outputs (call : Call σ ι π) : List FieldValue :=
  call.kind.outputs call.kern.proc call.kern'.proc.mem call.ret

/-- The entry under which a call is logged. -/
def Call.entry (call : Call σ ι π) : Entry := ⟨call.kind.number, call.ins ++ call.outputs⟩

/-- The call is within the limits of the recorder. -/
def Call.InLimits (call : Call σ ι π) : Prop := call.kind.InLimits call.kern.proc call.ins

/-- Process `pid` makes the calls, with the recorder's state `c` before the first and
`c'` after the last. -/
inductive Calls (ops : FsOps σ ι π) (pid : Word) : Core → List (Call σ ι π) → Core → Prop
  | nil {c : Core} : Calls ops pid c [] c
  | cons {c c' c'' : Core} {call : Call σ ι π} {calls : List (Call σ ι π)}
      (hpid : call.kern.proc.pid = pid)
      (hrun : ((handler ops call.kind).run call.frame).run ⟨c, call.kern⟩
        = .ok call.ret ⟨c', call.kern'⟩)
      (hrest : Calls ops pid c' calls c'') : Calls ops pid c (call :: calls) c''

/-! ## Entries -/

theorem outputs_wf {k : Kind} {p : Proc ι} {ins : List FieldValue} (hlim : k.InLimits p ins)
    (mem : Memory) (ret : Word) : ∀ v ∈ k.outputs p mem ret, v.WellFormed := by
  have hint : ∀ x : Word, (FieldValue.int x).WellFormed := fun _ => trivial
  cases k with
  | read =>
    obtain ⟨⟨addr, n⟩, hargs⟩ := Option.isSome_iff_exists.mp (hlim.read rfl)
    have hsize := hlim.size_toNat_le rfl hargs
    intro v hv
    simp only [Kind.outputs, hargs, Option.map_some, Option.toList_some, List.mem_cons,
      List.not_mem_nil, or_false] at hv
    rcases hv with rfl | rfl
    · exact hint ret
    · show (slice mem addr.toNat n.toNat).length ≤ maxRawSize
      rw [length_slice]
      exact hsize
  | fstat =>
    obtain ⟨st, hst⟩ := Option.isSome_iff_exists.mp (hlim.fstat rfl)
    intro v hv
    simp only [Kind.outputs, hst, Option.map_some, Option.toList_some, List.mem_cons,
      List.not_mem_nil, or_false] at hv
    rcases hv with rfl | rfl
    · exact hint ret
    · trivial
  | _ =>
    intro v hv
    rw [List.mem_singleton.mp hv]
    trivial

theorem Call.InLimits.entry_wf {call : Call σ ι π} (h : call.InLimits) :
    call.entry.WellFormed where
  syscall_ne := number_ne_unitializedScr call.kind
  length_le := by
    rw [Call.entry, List.length_append, fetchInputs_length h.inputs]
    exact outputs_length_le call.kind _ _ _
  values_wf := by
    intro v hv
    rcases List.mem_append.mp hv with hin | hout
    · exact h.wf v hin
    · exact outputs_wf h _ _ v hout

/-! ## Recording -/

variable {ops : FsOps σ ι π} {pid : Word} {c c' : Core}

/-- The state in which process `pid` is recording. -/
structure RecordingAt (c : Core) (pid : Word) (i : ℕ) : Prop where
  record : c.session.recordSyscalls = 1
  replay : c.session.replaySyscalls ≠ 1
  rrPid : c.session.rrPid = pid
  scrsIdx : c.session.scrsIdx = i

theorem RecordingAt.append {i : ℕ} (h : RecordingAt c pid i) (scr : SCR) :
    RecordingAt (c.append scr) pid (i + 1) :=
  ⟨h.record, h.replay, h.rrPid, by simp only [Core.append, h.scrsIdx]; rfl⟩

theorem RecordingAt.isRecording {i : ℕ} (h : RecordingAt c pid i) {p : Word} (hp : p = pid) :
    V3.isRecording c.session p = true := by
  simp [V3.isRecording, h.record, h.rrPid, hp]

theorem RecordingAt.isReplaying {i : ℕ} (h : RecordingAt c pid i) (p : Word) :
    V3.isReplaying c.session p = false := by
  rw [V3.isReplaying, beq_eq_false_iff_ne.mpr h.replay, Bool.false_and]

/-- A call that is recorded appends its entry. -/
theorem RecordingAt.call {i : ℕ} (h : RecordingAt c pid i) (hi : i < maxScrs)
    {call : Call σ ι π} (hlim : call.InLimits) (hpid : call.kern.proc.pid = pid)
    (hrun : ((handler ops call.kind).run call.frame).run ⟨c, call.kern⟩
      = .ok call.ret ⟨c', call.kern'⟩) :
    ∃ scr : SCR, c' = c.append scr ∧ scr.Holds call.entry := by
  have hrec := h.isRecording hpid
  have hrep := h.isReplaying call.kern.proc.pid
  have hidx : c.session.scrsIdx < maxScrs := by
    rw [h.scrsIdx]
    exact_mod_cast hi
  cases horig : (handler ops call.kind).original.run call.kern with
  | error msg kern' =>
    rw [record_call_panic ops call.kind call.frame ⟨c, call.kern⟩ hrec hrep hlim horig] at hrun
    cases hrun
  | ok ret kern' =>
    obtain ⟨scr, hcall, hholds⟩ :=
      record_call_ok ops call.kind call.frame ⟨c, call.kern⟩ hrec hrep hlim horig hidx
    rw [hcall] at hrun
    injection hrun with hret hm
    injection hm with hc hkern
    refine ⟨scr, hc.symm, ?_⟩
    rw [Call.entry, Call.outputs, ← hret, ← hkern]
    exact hholds

/-- **Recording a sequence of calls** logs their entries, in order, and changes
nothing else of the session. -/
theorem RecordingAt.calls {i : ℕ} (h : RecordingAt c pid i) {calls : List (Call σ ι π)}
    (hcalls : Calls ops pid c calls c') (hlen : i + calls.length ≤ maxScrs)
    (hlim : ∀ call ∈ calls, call.InLimits) :
    ∃ f : ℤ → SCR, c' = (c.withLog f).withIdx (i + calls.length : ℕ) ∧
      (∀ j (hj : j < calls.length), (f (i + j : ℕ)).Holds (calls[j].entry)) ∧
      ∀ j : ℤ, j < i ∨ i + calls.length ≤ j → f j = c.session.recordedScrs j := by
  induction hcalls generalizing i with
  | @nil c =>
    refine ⟨c.session.recordedScrs, ?_, fun j hj => absurd hj (by simp), fun j _ => rfl⟩
    rw [List.length_nil, Nat.add_zero, ← h.scrsIdx]
    rfl
  | @cons c c₁ c₂ call calls hpid hrun hrest ih =>
    rw [List.length_cons] at hlen
    obtain ⟨scr, rfl, hholds⟩ := h.call (by omega) (hlim call List.mem_cons_self) hpid hrun
    obtain ⟨f, rfl, hnew, hold⟩ := ih (h.append scr) (by omega)
      fun call hcall => hlim call (List.mem_cons_of_mem _ hcall)
    have hupdate : (c.append scr).session.recordedScrs
        = Function.update c.session.recordedScrs (i : ℤ) scr := by
      simp only [Core.append, h.scrsIdx]
    rw [hupdate] at hold
    refine ⟨f, ?_, fun j hj => ?_, fun j hj => ?_⟩
    · rw [List.length_cons, show i + (calls.length + 1) = i + 1 + calls.length by omega]
      rfl
    · cases j with
      | zero =>
        rw [Nat.add_zero, hold i (Or.inl (by omega)), Function.update_self]
        exact hholds
      | succ j =>
        rw [show i + (j + 1) = i + 1 + j by omega]
        exact hnew j (by simpa using hj)
    · rw [List.length_cons] at hj
      rw [hold j (by omega), Function.update_of_ne (by omega)]

/-- Calls whose kernel code returns can be recorded. -/
theorem RecordingAt.exists_calls {i : ℕ} (h : RecordingAt c pid i) (calls : List (Call σ ι π))
    (hlen : i + calls.length ≤ maxScrs) (hlim : ∀ call ∈ calls, call.InLimits)
    (hpid : ∀ call ∈ calls, call.kern.proc.pid = pid)
    (hrun : ∀ call ∈ calls,
      (handler ops call.kind).original.run call.kern = .ok call.ret call.kern') :
    ∃ c', Calls ops pid c calls c' := by
  induction calls generalizing c i with
  | nil => exact ⟨c, .nil⟩
  | cons call calls ih =>
    rw [List.length_cons] at hlen
    have hcall := hpid call List.mem_cons_self
    have hidx : c.session.scrsIdx < maxScrs := by
      rw [h.scrsIdx]
      omega
    obtain ⟨scr, hrecord, -⟩ := record_call_ok ops call.kind call.frame ⟨c, call.kern⟩
      (h.isRecording hcall) (h.isReplaying _) (hlim call List.mem_cons_self)
      (hrun call List.mem_cons_self) hidx
    obtain ⟨c', hrest⟩ := ih (h.append scr) (by omega)
      (fun call hmem => hlim call (List.mem_cons_of_mem _ hmem))
      (fun call hmem => hpid call (List.mem_cons_of_mem _ hmem))
      (fun call hmem => hrun call (List.mem_cons_of_mem _ hmem))
    exact ⟨c', .cons hcall hrecord hrest⟩

/-- The entries that a sequence of calls leaves in the log. -/
theorem Calls.encoderInput (h : RecordingAt c pid 0) {calls : List (Call σ ι π)}
    (hcalls : Calls ops pid c calls c') (hlen : calls.length ≤ maxScrs)
    (hlim : ∀ call ∈ calls, call.InLimits) :
    EncoderInput c' calls.length ∧ c'.encoding calls.length = encodeLog (calls.map Call.entry) ∧
      c'.session.rrPid = pid ∧ c'.session.recordFilename = c.session.recordFilename := by
  obtain ⟨f, rfl, hnew, -⟩ := h.calls hcalls (by omega) hlim
  have hholds : ∀ j (hj : j < (calls.map Call.entry).length),
      (f (j : ℕ)).Holds (calls.map Call.entry)[j] := by
    intro j hj
    rw [List.length_map] at hj
    rw [List.getElem_map, show (j : ℤ) = (0 + j : ℕ) by simp]
    exact hnew j hj
  have hlog := logEntries_eq f (calls.map Call.entry) hholds
  rw [List.length_map] at hlog
  refine ⟨⟨h.record, h.replay, by simp [Core.withIdx], hlen, fun k hk => ?_⟩, ?_, h.rrPid, rfl⟩
  · refine (hholds k (by rw [List.length_map]; exact hk)).wellFormed ?_
    rw [List.getElem_map]
    exact (hlim _ (List.getElem_mem hk)).entry_wf
  · show encodeLog (logEntries f calls.length 0) = _
    rw [hlog]

end

end V3
