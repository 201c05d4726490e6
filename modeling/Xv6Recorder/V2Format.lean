/-
# The session file format of the second recorder

The abstract side of the codec.  An entry is a syscall number and a list of typed values;
`Entry.call` is the call that the `set` functions build from it and `Entry.encode` the
bytes that stand for it in a session file.  The encoder emits these bytes and the decoder
reads them back (`compress_emits`, `uncompress_reads`), and from that the loops over a
whole log are inverse to each other.
-/
import Mathlib.Data.List.Induction
import Xv6Recorder.V2Codec

open Bytes StateError Xv6

namespace V2

/-! ## Entries -/

/-- The value of a field. -/
inductive Value where
  | int (num : Word)
  | uint (unum : Word)
  | bytes (content : List Byte)
  | pstat (st : Stat)
deriving DecidableEq

namespace Value

def tag : Value → Byte
  | .int _ => intType
  | .uint _ => uintType
  | .bytes _ => byteType
  | .pstat _ => pstatType

/-- The union that the `set` function for the value stores. -/
def data : Value → Data
  | .int num => putField 0 num (fun _ => 0)
  | .uint unum => putField 0 unum (fun _ => 0)
  | .bytes content => byteStruct content
  | .pstat st => overlay (fun _ => 0) 0 (packedStat st)

def field (v : Value) : Field := ⟨v.tag, v.data⟩

/-- The bytes of a value behind its tag. -/
def payload : Value → List Byte
  | .int num => toBytes num
  | .uint unum => toBytes unum
  | .bytes content => toBytes (BitVec.ofNat 32 content.length) ++ content
  | .pstat st => packedStat st

def encode (v : Value) : List Byte := v.tag :: v.payload

/-- Content fits into its array. -/
def WellFormed : Value → Prop
  | .bytes content => content.length ≤ maxByteSize
  | _ => True

instance (v : Value) : Decidable v.WellFormed := by
  cases v <;> simp only [WellFormed] <;> infer_instance

end Value

/-- A logged call: a syscall number and the values of its fields. -/
@[ext] structure Entry where
  number : Byte
  values : List Value
deriving DecidableEq

namespace Entry

/-- The call that holds an entry. -/
def call (e : Entry) : Call where
  syscall := e.number
  size := BitVec.ofNat 8 e.values.length
  fields i := ((e.values[i.val]?).map Value.field).getD noneField

def encode (e : Entry) : List Byte :=
  [e.number, BitVec.ofNat 8 e.values.length] ++ e.values.flatMap Value.encode

/-- The entries that can be logged: a number in `1 … 27`, at most `MAX_FIELD_SIZE` values,
and content that fits. -/
structure WellFormed (e : Entry) : Prop where
  number_pos : e.number ≠ uninitialized
  number_le : e.number.toNat ≤ 27
  length_le : e.values.length ≤ maxFieldSize
  values : ∀ v ∈ e.values, v.WellFormed

end Entry

/-- The bytes of a log. -/
def encodeLog (log : List Entry) : List Byte := log.flatMap Entry.encode

theorem encode_pos (e : Entry) : 0 < e.encode.length := by
  rw [Entry.encode, List.length_append, List.length_cons]
  omega

variable {e : Entry} {v : Value}

theorem Entry.WellFormed.size_toNat (h : e.WellFormed) : e.call.size.toNat = e.values.length := by
  have hle := h.length_le
  simp only [maxFieldSize] at hle
  rw [Entry.call, BitVec.toNat_ofNat]
  exact Nat.mod_eq_of_lt (by omega)

theorem fields_of_lt {i : Fin maxFieldSize} (h : i.val < e.values.length) :
    e.call.fields i = (e.values[i.val]).field := by
  show ((e.values[i.val]?).map Value.field).getD noneField = _
  rw [List.getElem?_eq_getElem h]
  rfl

theorem fields_of_le {i : Fin maxFieldSize} (h : e.values.length ≤ i.val) :
    e.call.fields i = noneField := by
  show ((e.values[i.val]?).map Value.field).getD noneField = _
  rw [List.getElem?_eq_none h]
  rfl

/-- Storing the next value at its place. -/
theorem update_fields (number : Byte) (values : List Value) (v : Value)
    (h : values.length < maxFieldSize) :
    Function.update (Entry.call ⟨number, values⟩).fields ⟨values.length, h⟩ v.field
      = (Entry.call ⟨number, values ++ [v]⟩).fields := by
  funext i
  by_cases hi : i = ⟨values.length, h⟩
  · subst hi
    rw [Function.update_self, fields_of_lt (by simp)]
    simp
  · rw [Function.update_of_ne hi]
    rcases Nat.lt_or_ge i.val values.length with hlt | hge
    · rw [fields_of_lt hlt, fields_of_lt (by simp; omega)]
      simp [List.getElem_append_left hlt]
    · have hne : i.val ≠ values.length := fun heq => hi (Fin.ext heq)
      rw [fields_of_le hge, fields_of_le (by simp; omega)]

/-! ## Building calls -/

/-- A `set` function stores its field behind those there are. -/
theorem setField_update (msg : String) (e : Entry) (field : Field)
    (h : e.values.length < maxFieldSize) (c : Core) : (setField msg e.call field).run c
      = .ok ⟨e.number, BitVec.ofNat 8 (e.values.length + 1),
          Function.update e.call.fields ⟨e.values.length, h⟩ field⟩ c := by
  have hsize : e.call.size.toNat = e.values.length := by
    simp only [maxFieldSize] at h
    rw [Entry.call, BitVec.toNat_ofNat]
    exact Nat.mod_eq_of_lt (by omega)
  have hlt : e.call.size.toNat < maxFieldSize := by omega
  have hidx : (⟨e.call.size.toNat, hlt⟩ : Fin maxFieldSize) = ⟨e.values.length, h⟩ :=
    Fin.ext hsize
  rw [setField, dif_pos hlt, hidx, EStateM.run_pure]
  congr 1
  refine Call.ext rfl ?_ rfl
  simp [Entry.call, BitVec.ofNat_add]

/-- The `set` functions append one value. -/
theorem setField_run (msg : String) (e : Entry) (v : Value) (h : e.values.length < maxFieldSize)
    (c : Core) : (setField msg e.call v.field).run c
      = .ok (Entry.call ⟨e.number, e.values ++ [v]⟩) c := by
  rw [setField_update msg e v.field h c]
  congr 1
  refine Call.ext rfl ?_ (update_fields e.number e.values v h)
  simp [Entry.call]

section

variable (number : Byte) (values : List Value) (h : values.length < maxFieldSize) (c : Core)
include h

theorem setInt_run (num : Word) : (setInt (Entry.call ⟨number, values⟩) num).run c
    = .ok (Entry.call ⟨number, values ++ [.int num]⟩) c :=
  setField_run _ ⟨number, values⟩ (.int num) h c

theorem setUint_run (unum : Word) : (setUint (Entry.call ⟨number, values⟩) unum).run c
    = .ok (Entry.call ⟨number, values ++ [.uint unum]⟩) c :=
  setField_run _ ⟨number, values⟩ (.uint unum) h c

theorem setByte_run (content : List Byte) :
    (setByte (Entry.call ⟨number, values⟩) (byteStruct content)).run c
      = .ok (Entry.call ⟨number, values ++ [.bytes content]⟩) c :=
  setField_run _ ⟨number, values⟩ (.bytes content) h c

theorem setPackedStat_run (st : Stat) :
    (setPackedStat (Entry.call ⟨number, values⟩) st).run c
      = .ok (Entry.call ⟨number, values ++ [.pstat st]⟩) c :=
  setField_run _ ⟨number, values⟩ (.pstat st) h c

end

/-- The calls that the source builds: `createSyscall` with a number in `1 … 27`, and then
any of the `set` functions, as often as there is room, with byte structs that have a size in
`0 … MAX_BYTE_SIZE` and zero padding. -/
inductive Built : Call → Prop where
  | createSyscall (number : Byte) (hpos : 1 ≤ number.toNat) (hle : number.toNat ≤ 27) :
      Built (createSyscall number)
  | setInt {call call' : Call} {c c' : Core} (num : Word) :
      Built call → (setInt call num).run c = .ok call' c' → Built call'
  | setUint {call call' : Call} {c c' : Core} (unum : Word) :
      Built call → (setUint call unum).run c = .ok call' c' → Built call'
  | setByte {call call' : Call} {c c' : Core} (content : List Byte) :
      content.length ≤ maxByteSize →
      Built call → (setByte call (byteStruct content)).run c = .ok call' c' → Built call'
  | setPackedStat {call call' : Call} {c c' : Core} (st : Stat) :
      Built call → (setPackedStat call st).run c = .ok call' c' → Built call'

/-- A `set` function that returned had room. -/
theorem setField_room {msg : String} {c c' : Core} {call' : Call} (he : e.WellFormed)
    (h : (setField msg e.call v.field).run c = .ok call' c') : e.values.length < maxFieldSize := by
  rw [setField] at h
  split at h
  case isTrue hlt => rwa [he.size_toNat] at hlt
  case isFalse => cases h

/-- A `set` function turns the call of an entry into that of a longer one. -/
theorem setField_entry {msg : String} {c c' : Core} {call' : Call} (he : e.WellFormed)
    (hv : v.WellFormed) (h : (setField msg e.call v.field).run c = .ok call' c') :
    ∃ e' : Entry, e'.WellFormed ∧ call' = e'.call := by
  have hroom := setField_room he h
  rw [setField_run msg e v hroom c] at h
  injection h with hcall _
  refine ⟨⟨e.number, e.values ++ [v]⟩, ⟨he.number_pos, he.number_le, ?_, ?_⟩, hcall.symm⟩
  · rw [List.length_append, List.length_singleton]
    omega
  · intro u hu
    rcases List.mem_append.mp hu with hu | hu
    · exact he.values u hu
    · rw [List.mem_singleton.mp hu]
      exact hv

/-- Every well-formed entry has a call that is built. -/
theorem Entry.WellFormed.built (h : e.WellFormed) : Built e.call := by
  obtain ⟨number, values⟩ := e
  induction values using List.reverseRecOn with
  | nil =>
    refine .createSyscall number ?_ h.number_le
    exact Nat.pos_of_ne_zero fun hzero => h.number_pos (BitVec.eq_of_toNat_eq hzero)
  | append_singleton values v ih =>
    have hlen := h.length_le
    rw [List.length_append, List.length_singleton] at hlen
    have hfront : Built (Entry.call ⟨number, values⟩) :=
      ih ⟨h.number_pos, h.number_le, by dsimp only; omega,
        fun u hu => h.values u (List.mem_append_left _ hu)⟩
    have hv := h.values v (List.mem_append_right _ (List.mem_singleton_self v))
    cases v with
    | int num => exact .setInt (c := ⟨.boot, false⟩) num hfront (setInt_run number values hlen _ num)
    | uint unum =>
      exact .setUint (c := ⟨.boot, false⟩) unum hfront (setUint_run number values hlen _ unum)
    | bytes content =>
      exact .setByte (c := ⟨.boot, false⟩) content hv hfront
        (setByte_run number values hlen _ content)
    | pstat st =>
      exact .setPackedStat (c := ⟨.boot, false⟩) st hfront
        (setPackedStat_run number values hlen _ st)

/-- **Built calls are the calls of well-formed entries.** -/
theorem Built.entry {call : Call} (h : Built call) : ∃ e : Entry, e.WellFormed ∧ call = e.call := by
  induction h with
  | createSyscall number hpos hle =>
    refine ⟨⟨number, []⟩, ⟨?_, hle, Nat.zero_le _, fun v hv => by cases hv⟩, rfl⟩
    rintro rfl
    cases hpos
  | setInt num _ hset ih =>
    obtain ⟨e, he, rfl⟩ := ih
    exact setField_entry (v := .int num) he trivial hset
  | setUint unum _ hset ih =>
    obtain ⟨e, he, rfl⟩ := ih
    exact setField_entry (v := .uint unum) he trivial hset
  | setByte content hlen _ hset ih =>
    obtain ⟨e, he, rfl⟩ := ih
    exact setField_entry (v := .bytes content) he hlen hset
  | setPackedStat st _ hset ih =>
    obtain ⟨e, he, rfl⟩ := ih
    exact setField_entry (v := .pstat st) he trivial hset

/-! ## Encoding -/

theorem slice_word (x : Word) (f : Memory) : slice (putField 0 x f) 0 4 = toBytes x :=
  slice_overlay_same f 0 (toBytes x)

theorem length_packedStat (st : Stat) : (packedStat st).length = 16 := by
  simp [packedStat]

/-- The size of a byte struct, while it fits. -/
theorem size_byteStruct {content : List Byte} (h : content.length ≤ maxByteSize) :
    (byteStruct content).size.toNat = content.length := by
  simp only [maxByteSize] at h
  rw [Data.size, byteStruct, field_overlay_disjoint _ _ _ _ _ (by simp),
    field_putField_same (by decide), BitVec.toNat_ofNat]
  exact Nat.mod_eq_of_lt (by omega)

theorem slice_byteStruct_size (content : List Byte) :
    slice (byteStruct content) 0 4 = toBytes (BitVec.ofNat 32 content.length) := by
  rw [byteStruct, slice_overlay_disjoint _ _ _ _ _ (by simp), slice_word]

/-- The pieces of a packed stat, put together. -/
theorem slices_packedStat (st : Stat) (f : Memory) :
    let d := overlay f 0 (packedStat st)
    slice d 0 2 ++ (slice d 2 4 ++ (slice d 6 4 ++ (slice d 10 2 ++ slice d 12 4)))
      = packedStat st := by
  intro d
  have hall : slice d 0 16 = packedStat st := by
    have := slice_overlay_same f 0 (packedStat st)
    rwa [length_packedStat] at this
  rw [← slice_add, ← slice_add, ← slice_add, ← slice_add]
  exact hall

open Cursor

theorem store_emits (bytes : List Byte) : Emits bufferSize (store bytes) bytes () :=
  emits_emit bytes

theorem compressData_emits (hv : v.WellFormed) :
    Emits bufferSize (compressData v.tag v.data) v.payload () := by
  cases v with
  | int num =>
    rw [compressData, if_pos (.inl rfl)]
    exact slice_word num _ ▸ store_emits _
  | uint unum =>
    rw [compressData, if_pos (.inr rfl)]
    exact slice_word unum _ ▸ store_emits _
  | bytes content =>
    have hsize := size_byteStruct hv
    have hcontent : slice (byteStruct content) 4 content.length = content :=
      slice_overlay_same _ 4 content
    have hle : ¬ maxByteSize < (byteStruct content).size.toNat := by
      rw [hsize]
      exact Nat.not_lt.mpr hv
    show Emits _ (compressData byteType (byteStruct content)) _ _
    rw [compressData, if_neg (by decide), if_neg (by decide), if_pos rfl,
      slice_byteStruct_size, if_neg hle, hsize, hcontent]
    exact (store_emits _).bind (store_emits _)
  | pstat st =>
    show Emits _ (compressData pstatType (overlay (fun _ => 0) 0 (packedStat st)))
      (packedStat st) _
    rw [compressData, if_neg (by decide), if_pos rfl]
    have hslices := slices_packedStat st (fun _ => 0)
    generalize overlay (fun _ => 0) 0 (packedStat st) = d at hslices ⊢
    rw [← hslices]
    refine (store_emits (slice d 0 2)).bind ?_
    refine (store_emits (slice d 2 4)).bind ?_
    refine (store_emits (slice d 6 4)).bind ?_
    exact (store_emits (slice d 10 2)).bind (store_emits (slice d 12 4))

theorem compressField_emits (hv : v.WellFormed) :
    Emits bufferSize (compressField v.field) v.encode () :=
  (store_emits [v.tag]).bind (compressData_emits hv)

theorem tag_ne_noneType (v : Value) : v.tag ≠ noneType := by
  cases v <;> simp [Value.tag, noneType, intType, uintType, byteType, pstatType]

/-- The fields of a call from `i` on. -/
theorem compressFields_emits (he : e.WellFormed) (rest : List Value) (i : ℕ)
    (hrest : e.values.drop i = rest) :
    Emits bufferSize (compressFields e.call rest.length i) (rest.flatMap Value.encode) () := by
  induction rest generalizing i with
  | nil => exact Emits.pure ()
  | cons v rest ih =>
    have hi : i < e.values.length := by
      by_contra hge
      rw [List.drop_of_length_le (by omega)] at hrest
      cases hrest
    rw [List.drop_eq_getElem_cons hi] at hrest
    obtain ⟨hv, hrest⟩ := List.cons.inj hrest
    have hmax : i < maxFieldSize := lt_of_lt_of_le hi he.length_le
    have hfield : e.call.fields ⟨i, hmax⟩ = v.field := by
      rw [fields_of_lt (i := ⟨i, hmax⟩) hi]
      exact congrArg Value.field hv
    have hwf : v.WellFormed := hv ▸ he.values _ (List.getElem_mem hi)
    have htag : ¬ v.field.type = noneType := tag_ne_noneType v
    rw [List.length_cons, compressFields, dif_pos hmax, hfield, if_neg htag, List.flatMap_cons]
    exact (compressField_emits hwf).bind (ih (i + 1) hrest)

/-- **The encoder** writes the bytes of the entry. -/
theorem compress_emits (he : e.WellFormed) : Emits bufferSize (compress e.call) e.encode true := by
  have hfields := compressFields_emits he e.values 0 rfl
  rw [← he.size_toNat] at hfields
  have hused : ¬ e.call.syscall = uninitialized := he.number_pos
  rw [compress, if_neg hused]
  have hbody : Emits bufferSize (compressFields e.call e.call.size.toNat 0 >>= fun _ => pure true)
      (e.values.flatMap Value.encode) true :=
    (hfields.bind (Emits.pure true)).of_eq (List.append_nil _)
  exact (store_emits [e.number]).bind ((store_emits [BitVec.ofNat 8 e.values.length]).bind hbody)

/-- The loop of `sys_record_stop`. -/
theorem compressCalls_emits {calls : ℕ → Call} (log : List Entry) (i : ℕ)
    (hlog : ∀ e ∈ log, e.WellFormed)
    (hcalls : ∀ j (h : j < log.length), calls (i + j) = (log[j]).call) :
    Emits bufferSize (compressCalls calls log.length i) (encodeLog log) () := by
  induction log generalizing i with
  | nil => exact Emits.pure ()
  | cons e log ih =>
    have hhead : calls i = e.call := hcalls 0 (Nat.zero_lt_succ _)
    rw [List.length_cons, compressCalls, hhead, encodeLog, List.flatMap_cons]
    refine (compress_emits (hlog e List.mem_cons_self)).bind ?_
    rw [if_pos rfl]
    refine ih (i + 1) (fun e he => hlog e (List.mem_cons_of_mem _ he)) fun j h => ?_
    have := hcalls (j + 1) (by simpa using h)
    rwa [show i + (j + 1) = i + 1 + j by omega] at this

/-! ## Decoding -/

theorem loadByte_reads (b : Byte) : Reads bufferSize loadByte [b] b :=
  ((reads_grab [b]).bind (Reads.pure b)).of_eq rfl

theorem loadAt_reads (off : ℕ) (data : Data) (bytes : List Byte) :
    Reads bufferSize (loadAt off bytes.length data) bytes (overlay data off bytes) := by
  refine Reads.of_eq ?_ (List.append_nil bytes)
  exact (reads_grab bytes).bind (Reads.pure _)

/-- The pieces of a packed stat, stored one after the other. -/
theorem overlays_packedStat (st : Stat) (f : Memory) :
    overlay (overlay (overlay (overlay (overlay f 0 (toBytes st.type)) 2 (toBytes st.dev))
      6 (toBytes st.ino)) 10 (toBytes st.nlink)) 12 (toBytes st.size)
      = overlay f 0 (packedStat st) := by
  simp only [packedStat, ← overlay_overlay_append]
  simp

/-- The data of a value is loaded into a union of zeros. -/
theorem uncompressData_reads (hv : v.WellFormed) :
    Reads bufferSize (uncompressData v.tag (fun _ => 0)) v.payload v.data := by
  cases v with
  | int num =>
    rw [uncompressData, if_pos (.inl rfl)]
    exact loadAt_reads 0 _ (toBytes num)
  | uint unum =>
    rw [uncompressData, if_pos (.inr rfl)]
    exact loadAt_reads 0 _ (toBytes unum)
  | bytes content =>
    show Reads _ (uncompressData byteType _) _ _
    rw [uncompressData, if_neg (by decide), if_pos rfl]
    refine (loadAt_reads 0 _ (toBytes (BitVec.ofNat 32 content.length))).bind ?_
    have hsize : Data.size (overlay (fun _ => 0) 0 (toBytes (BitVec.ofNat 32 content.length)))
        = BitVec.ofNat 32 content.length := field_putField_same (by decide) 0 _ _
    have hlen : (BitVec.ofNat 32 content.length).toNat = content.length := by
      have : content.length ≤ 250 := hv
      exact toNat_ofNat_of_lt (by omega)
    rw [hsize, hlen, if_neg (Nat.not_lt.mpr hv)]
    exact loadAt_reads 4 _ content
  | pstat st =>
    show Reads _ (uncompressData pstatType _) (packedStat st)
      (overlay (fun _ => 0) 0 (packedStat st))
    rw [uncompressData, if_neg (by decide), if_neg (by decide), if_pos rfl,
      ← overlays_packedStat]
    have hsplit : toBytes st.type ++ (toBytes st.dev ++ (toBytes st.ino ++ (toBytes st.nlink ++
        toBytes st.size))) = packedStat st := by
      simp only [packedStat, List.append_assoc]
    refine Reads.of_eq ?_ hsplit
    refine (loadAt_reads 0 _ (toBytes st.type)).bind ?_
    refine (loadAt_reads 2 _ (toBytes st.dev)).bind ?_
    refine (loadAt_reads 6 _ (toBytes st.ino)).bind ?_
    refine (loadAt_reads 10 _ (toBytes st.nlink)).bind ?_
    exact loadAt_reads 12 _ (toBytes st.size)

/-- The call in a slot while its fields are being loaded. -/
def partialCall (number size : Byte) (values : List Value) : Call :=
  { Entry.call ⟨number, values⟩ with size }

/-- The fields behind those already loaded. -/
theorem uncompressFields_reads (number size : Byte) (rest front : List Value)
    (hlen : front.length + rest.length ≤ maxFieldSize) (hwf : ∀ v ∈ rest, v.WellFormed) :
    Reads bufferSize (uncompressFields (partialCall number size front) rest.length front.length)
      (rest.flatMap Value.encode) (partialCall number size (front ++ rest)) := by
  induction rest generalizing front with
  | nil =>
    rw [List.append_nil]
    exact Reads.pure _
  | cons v rest ih =>
    rw [List.length_cons] at hlen
    have hmax : front.length < maxFieldSize := by omega
    have hempty : ((partialCall number size front).fields ⟨front.length, hmax⟩).data
        = fun _ => 0 :=
      congrArg Field.data
        (fields_of_le (e := ⟨number, front⟩) (i := ⟨front.length, hmax⟩) le_rfl)
    have hstored : { partialCall number size front with
        fields := Function.update (partialCall number size front).fields
          ⟨front.length, hmax⟩ ⟨v.tag, v.data⟩ } = partialCall number size (front ++ [v]) :=
      Call.ext rfl rfl (update_fields number front v hmax)
    rw [List.length_cons, uncompressFields, dif_pos hmax, hempty, List.flatMap_cons]
    refine Reads.of_eq ?_ (show [v.tag] ++ (v.payload ++ rest.flatMap Value.encode)
      = v.encode ++ rest.flatMap Value.encode from rfl)
    refine (loadByte_reads v.tag).bind ?_
    refine (uncompressData_reads (hwf v List.mem_cons_self)).bind ?_
    have hrest := ih (front ++ [v])
      (by rw [List.length_append, List.length_singleton]; omega)
      (fun u hu => hwf u (List.mem_cons_of_mem _ hu))
    rw [List.append_assoc, List.singleton_append, List.length_append, List.length_singleton]
      at hrest
    rw [hstored]
    exact hrest

/-- **The decoder** restores the call of an entry from its bytes, in an unused slot. -/
theorem uncompress_reads (he : e.WellFormed) {rStatus : ℤ} {c : Cursor}
    (hfit : c.pos + e.encode.length ≤ bufferSize) (hsees : c.Sees e.encode)
    (hmore : (c.pos : ℤ) < rStatus) :
    (uncompress (createSyscall uninitialized) rStatus).run c
      = .ok (true, e.call) (c.skip e.encode.length) := by
  have hbody : Reads bufferSize (do
      let syscall ← loadByte
      let size ← loadByte
      let call := { createSyscall uninitialized with syscall, size }
      if syscall = uninitialized ∨ 27 < syscall.toNat then pure (false, call)
      else do
        let call ← uncompressFields call size.toNat 0
        pure (true, call)) e.encode (true, e.call) := by
    have hsplit : [e.number] ++ ([BitVec.ofNat 8 e.values.length] ++
        e.values.flatMap Value.encode) = e.encode := rfl
    refine Reads.of_eq ?_ hsplit
    refine (loadByte_reads e.number).bind ?_
    refine (loadByte_reads (BitVec.ofNat 8 e.values.length)).bind ?_
    have hnum : ¬ (e.number = uninitialized ∨ 27 < e.number.toNat) := by
      rintro (h | h)
      · exact he.number_pos h
      · have := he.number_le
        omega
    have hsize : (BitVec.ofNat 8 e.values.length).toNat = e.values.length := he.size_toNat
    rw [if_neg hnum, hsize]
    have hfields := uncompressFields_reads e.number (BitVec.ofNat 8 e.values.length) e.values []
      (by rw [List.length_nil, Nat.zero_add]; exact he.length_le) he.values
    refine Reads.of_eq ?_ (List.append_nil _)
    exact hfields.bind (Reads.pure _)
  rw [uncompress, EStateM.run_bind, EStateM.run_get]
  simp only [Int.not_le.mpr hmore, if_false]
  exact hbody c hfit hsees

end V2
