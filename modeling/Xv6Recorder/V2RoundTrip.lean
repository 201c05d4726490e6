/-
# Round trip of a session through the codec

The loop of `sys_replay_start` over bytes that begin with the encoding of a log puts the
calls of that log into the table, one slot each, and goes on behind them
(`uncompressCalls_log`).  Over exactly these bytes it stops by itself, since the cursor is
then at the number of bytes that were read.
-/
import Xv6Recorder.V2Format

open Bytes StateError Xv6 Cursor

namespace V2

/-! ## The table -/

/-- The table with the calls of a log from slot `i` on. -/
def fillCalls (calls : ℕ → Call) (i : ℕ) (log : List Entry) : ℕ → Call := fun j =>
  if i ≤ j then ((log[j - i]?).map Entry.call).getD (calls j) else calls j

theorem fillCalls_nil (calls : ℕ → Call) (i : ℕ) : fillCalls calls i [] = calls := by
  funext j
  rw [fillCalls, List.getElem?_nil, Option.map_none, Option.getD_none, ite_self]

theorem fillCalls_at (calls : ℕ → Call) (i : ℕ) {log : List Entry} {j : ℕ} (h : j < log.length) :
    fillCalls calls i log (i + j) = (log[j]).call := by
  rw [fillCalls, if_pos (by omega), Nat.add_sub_cancel_left, List.getElem?_eq_getElem h]
  rfl

theorem fillCalls_beyond (calls : ℕ → Call) (i : ℕ) {log : List Entry} {j : ℕ}
    (h : i + log.length ≤ j) : fillCalls calls i log j = calls j := by
  rw [fillCalls, List.getElem?_eq_none (by omega), Option.map_none, Option.getD_none, ite_self]

theorem fillCalls_cons (calls : ℕ → Call) (i : ℕ) (e : Entry) (log : List Entry) :
    fillCalls (Function.update calls i e.call) (i + 1) log = fillCalls calls i (e :: log) := by
  funext j
  rcases Nat.lt_trichotomy j i with hlt | rfl | hgt
  · rw [fillCalls, fillCalls, if_neg (by omega), if_neg (by omega),
      Function.update_of_ne (by omega)]
  · rw [fillCalls, fillCalls, if_neg (by omega), if_pos le_rfl, Function.update_self,
      Nat.sub_self]
    rfl
  · obtain ⟨k, rfl⟩ : ∃ k, j = i + 1 + k := ⟨j - (i + 1), by omega⟩
    rw [fillCalls, fillCalls, if_pos (by omega), if_pos (by omega),
      Function.update_of_ne (by omega), Nat.add_sub_cancel_left,
      show i + 1 + k - i = k + 1 by omega, List.getElem?_cons_succ]

/-! ## The decoding loop -/

/-- The slots from `i` on that a log needs are unused. -/
def UnusedFrom (calls : ℕ → Call) (i n : ℕ) : Prop :=
  ∀ j, i ≤ j → j < i + n → calls j = createSyscall uninitialized

/-- **The decoding loop reads a log** and goes on behind it. -/
theorem uncompressCalls_log (log : List Entry) {rStatus : ℤ} {remaining i : ℕ}
    {calls : ℕ → Call} {c : Cursor} (hlog : ∀ e ∈ log, e.WellFormed)
    (hunused : UnusedFrom calls i log.length) (hroom : log.length ≤ remaining)
    (hfit : c.pos + (encodeLog log).length ≤ bufferSize) (hsees : c.Sees (encodeLog log))
    (hbytes : c.pos + (encodeLog log).length ≤ rStatus) :
    (uncompressCalls rStatus remaining i calls).run c
      = (uncompressCalls rStatus (remaining - log.length) (i + log.length)
          (fillCalls calls i log)).run (c.skip (encodeLog log).length) := by
  induction log generalizing remaining i calls c with
  | nil =>
    rw [fillCalls_nil]
    rfl
  | cons e log ih =>
    obtain ⟨remaining, rfl⟩ : ∃ n, remaining = n + 1 := by
      rw [List.length_cons] at hroom
      exact ⟨remaining - 1, by omega⟩
    have hpos := encode_pos e
    rw [encodeLog, List.flatMap_cons] at hfit hsees hbytes
    rw [List.length_append] at hfit hbytes
    obtain ⟨hhead, htail⟩ := sees_append.mp hsees
    have hmore : (c.pos : ℤ) < rStatus := by omega
    have hdecode := uncompress_reads (hlog e List.mem_cons_self) (by omega) hhead hmore
    rw [← hunused i le_rfl (by rw [List.length_cons]; omega)] at hdecode
    rw [uncompressCalls, run_bind_of_ok hdecode]
    simp only [if_true]
    have hunused' : UnusedFrom (Function.update calls i e.call) (i + 1) log.length := by
      intro j hlo hhi
      rw [Function.update_of_ne (by omega)]
      exact hunused j (by omega) (by rw [List.length_cons]; omega)
    rw [ih (fun u hu => hlog u (List.mem_cons_of_mem _ hu)) hunused'
      (by rw [List.length_cons] at hroom; omega) (by simp only [skip, encodeLog]; omega) htail
      (by simp only [skip, encodeLog]; push_cast; omega)]
    rw [fillCalls_cons, ← skip_add, encodeLog, encodeLog, List.flatMap_cons,
      List.length_append, List.length_cons, Nat.add_sub_add_right,
      show i + 1 + log.length = i + (log.length + 1) by omega]

/-- The loop stops at the number of bytes that were read, and when the table is full. -/
theorem uncompressCalls_stop {rStatus : ℤ} {remaining i : ℕ} {calls : ℕ → Call} {c : Cursor}
    (h : remaining = 0 ∨ rStatus ≤ c.pos) :
    (uncompressCalls rStatus remaining i calls).run c = .ok calls c := by
  cases remaining with
  | zero => rfl
  | succ remaining =>
    have hend : rStatus ≤ c.pos := h.resolve_left (Nat.succ_ne_zero _)
    have hdecode : (uncompress (calls i) rStatus).run c = .ok (false, calls i) c := by
      rw [uncompress, EStateM.run_bind, EStateM.run_get]
      simp only [hend, if_true]
      rfl
    rw [uncompressCalls, run_bind_of_ok hdecode]
    simp only [Bool.false_eq_true, if_false, Function.update_eq_self]
    rfl

theorem unused_reset (s : Session) {n : ℕ} (h : n ≤ maxSysCalls) :
    UnusedFrom (resetSyscalls s).calls 0 n := by
  intro j _ hj
  exact if_pos (by omega)

/-! ## Sizes -/

/-- The bytes that `compress` writes for a field. -/
def Field.compressedSize (field : Field) : ℕ :=
  if field.type = intType ∨ field.type = uintType then 5
  else if field.type = pstatType then 17
  else if field.type = byteType then 5 + field.data.size.toNat
  else 1

/-- The bytes that `compress` writes for a call. -/
def Call.compressedSize (call : Call) : ℕ :=
  2 + (((List.ofFn call.fields).take call.size.toNat).map Field.compressedSize).sum

theorem compressedSize_field {v : Value} (hv : v.WellFormed) :
    v.field.compressedSize = v.encode.length := by
  cases v with
  | int num => rfl
  | uint unum => rfl
  | bytes content =>
    have hsize := size_byteStruct hv
    show 5 + (byteStruct content).size.toNat = _
    rw [hsize, Value.encode, Value.payload, List.length_cons, List.length_append, length_toBytes]
    omega
  | pstat st =>
    show 17 = (packedStat st).length + 1
    rw [length_packedStat]

theorem compressedSize_call {e : Entry} (he : e.WellFormed) :
    e.call.compressedSize = e.encode.length := by
  have hfields : (List.ofFn e.call.fields).take e.call.size.toNat = e.values.map Value.field := by
    rw [he.size_toNat]
    apply List.ext_getElem
    · rw [List.length_take, List.length_ofFn, List.length_map, Nat.min_eq_left he.length_le]
    · intro i h₁ h₂
      rw [List.length_map] at h₂
      rw [List.getElem_take, List.getElem_ofFn, List.getElem_map]
      exact fields_of_lt h₂
  have hsum : ((e.values.map Value.field).map Field.compressedSize).sum
      = (e.values.flatMap Value.encode).length := by
    rw [List.map_map, List.length_flatMap]
    congr 1
    apply List.map_congr_left
    intro v hv
    exact compressedSize_field (he.values v hv)
  rw [Call.compressedSize, hfields, hsum, Entry.encode, List.length_append]
  rfl

/-! ## The round trip -/

/-- A list of built calls is the list of the calls of well-formed entries. -/
theorem entries_of_built {calls : List Call} (h : ∀ call ∈ calls, Built call) :
    ∃ log : List Entry, (∀ e ∈ log, e.WellFormed) ∧ calls = log.map Entry.call := by
  induction calls with
  | nil => exact ⟨[], ⟨fun e he => absurd he List.not_mem_nil, rfl⟩⟩
  | cons call calls ih =>
    obtain ⟨log, hlog, rfl⟩ := ih fun c hc => h c (List.mem_cons_of_mem _ hc)
    obtain ⟨e, he, rfl⟩ := (h call List.mem_cons_self).entry
    refine ⟨e :: log, fun u hu => ?_, rfl⟩
    rcases List.mem_cons.mp hu with rfl | hu
    · exact he
    · exact hlog u hu

theorem length_encodeLog {log : List Entry} (h : ∀ e ∈ log, e.WellFormed) :
    ((log.map Entry.call).map Call.compressedSize).sum = (encodeLog log).length := by
  rw [encodeLog, List.length_flatMap, List.map_map]
  congr 1
  apply List.map_congr_left
  intro e he
  exact compressedSize_call (h e he)

/-- What the decoding loop leaves of exactly the bytes of a log. -/
theorem uncompressCalls_encodeLog {log : List Entry} (hlog : ∀ e ∈ log, e.WellFormed)
    (hlen : log.length ≤ maxSysCalls) (hfit : (encodeLog log).length ≤ bufferSize) (s : Session)
    {buffer : Memory} (hbuffer : slice buffer 0 (encodeLog log).length = encodeLog log) :
    (uncompressCalls (encodeLog log).length maxSysCalls 0 (resetSyscalls s).calls).run ⟨buffer, 0⟩
      = .ok (fillCalls (resetSyscalls s).calls 0 log) ⟨buffer, (encodeLog log).length⟩ := by
  rw [uncompressCalls_log (c := ⟨buffer, 0⟩) log hlog (unused_reset s hlen) hlen
    (by simpa using hfit) hbuffer (by simp), uncompressCalls_stop (.inr (by simp [skip]))]
  simp only [skip, Nat.zero_add]

/-- **Round trip.**  Take at most `MAX_SYS_CALLS` calls built with `createSyscall` and the
`set` functions, whose compressed form fits into the buffer.  The loop of `sys_record_stop`
compresses them, and the loop of `sys_replay_start` over exactly these bytes, whatever is
behind them in its buffer, restores the calls in order into a table that was reset, stops
behind the last byte, and leaves all further slots unused. -/
theorem compress_uncompress (recorded : List Call) (hlen : recorded.length ≤ maxSysCalls)
    (hbuilt : ∀ call ∈ recorded, Built call)
    (hfit : (recorded.map Call.compressedSize).sum ≤ bufferSize)
    (calls : ℕ → Call) (hcalls : ∀ i (h : i < recorded.length), calls i = recorded[i])
    (stack : Memory) :
    let n := (recorded.map Call.compressedSize).sum
    ∃ buffer, (compressCalls calls recorded.length 0).run ⟨stack, 0⟩ = .ok () ⟨buffer, n⟩ ∧
      ∀ (s : Session) (buffer' : Memory), slice buffer' 0 n = slice buffer 0 n →
        ∃ calls', (uncompressCalls n maxSysCalls 0 (resetSyscalls s).calls).run ⟨buffer', 0⟩
            = .ok calls' ⟨buffer', n⟩ ∧
          (∀ i (h : i < recorded.length), calls' i = recorded[i]) ∧
          ∀ i, recorded.length ≤ i → i < maxSysCalls →
            calls' i = createSyscall uninitialized := by
  intro n
  obtain ⟨log, hlog, rfl⟩ := entries_of_built hbuilt
  have hn : n = (encodeLog log).length := length_encodeLog hlog
  simp only [List.length_map, List.getElem_map] at hlen hcalls ⊢
  rw [show ((log.map Entry.call).map Call.compressedSize).sum = n from rfl] at hfit
  rw [hn] at hfit ⊢
  have hemits := compressCalls_emits log 0 hlog fun j h => by rw [Nat.zero_add]; exact hcalls j h
  have hcompress := hemits ⟨stack, 0⟩ (by simpa using hfit)
  refine ⟨overlay stack 0 (encodeLog log), by rw [hcompress, put, Nat.zero_add], ?_⟩
  intro s buffer' hbuffer'
  rw [slice_overlay_same] at hbuffer'
  refine ⟨_, uncompressCalls_encodeLog hlog hlen hfit s hbuffer', ?_, ?_⟩
  · intro i h
    have := fillCalls_at (resetSyscalls s).calls 0 h
    rwa [Nat.zero_add] at this
  · intro i hlo hhi
    rw [fillCalls_beyond _ _ (by omega)]
    exact if_pos hhi

/-- A logged `getpid` that returned `5`. -/
def pidEntry : Entry := ⟨11, [.int 5]⟩

/-- It, a `read` of the two bytes `hi`, and an `fstat`. -/
def fewEntries : List Entry :=
  [pidEntry, ⟨5, [.int 3, .int 2, .int 2, .bytes [104, 105]]⟩,
    ⟨8, [.int 3, .int 0, .pstat ⟨2, 1, 7, 1, 5⟩]⟩]

theorem fewEntries_built : ∀ call ∈ fewEntries.map Entry.call, Built call := by
  have hwf : ∀ e ∈ fewEntries, e.WellFormed := by
    intro e he
    simp only [fewEntries, List.mem_cons, List.not_mem_nil, or_false] at he
    rcases he with rfl | rfl | rfl
    · exact ⟨by decide, by decide, by decide, by decide⟩
    · exact ⟨by decide, by decide, by decide, by decide⟩
    · exact ⟨by decide, by decide, by decide, by decide⟩
  intro call hcall
  obtain ⟨e, he, rfl⟩ := List.mem_map.mp hcall
  exact (hwf e he).built

/-- Three calls take sixty bytes and come back. -/
theorem compress_uncompress_three_calls : ∃ buffer,
    (compressCalls (fun i => (fewEntries.map Entry.call).getD i (createSyscall 0)) 3 0).run
      ⟨fun _ => 0, 0⟩ = .ok () ⟨buffer, 60⟩ ∧
      ∃ calls', (uncompressCalls 60 maxSysCalls 0 (resetSyscalls .boot).calls).run ⟨buffer, 0⟩
          = .ok calls' ⟨buffer, 60⟩ ∧
        [calls' 0, calls' 1, calls' 2] = fewEntries.map Entry.call ∧
        calls' 3 = createSyscall uninitialized := by
  obtain ⟨buffer, hcompress, hrest⟩ := compress_uncompress (fewEntries.map Entry.call) (by decide)
    fewEntries_built (by decide) (fun i => (fewEntries.map Entry.call).getD i (createSyscall 0))
    (fun i h => List.getD_eq_getElem _ _ h) (fun _ => 0)
  obtain ⟨calls', hrun, hlog, hunused⟩ := hrest .boot buffer rfl
  refine ⟨buffer, hcompress, calls', hrun, ?_, hunused 3 (by decide) (by decide)⟩
  rw [hlog 0 (by decide), hlog 1 (by decide), hlog 2 (by decide)]
  rfl

end V2
