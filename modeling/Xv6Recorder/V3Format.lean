/-
# The session file format and the two directions of the codec

The abstract side of the codec: a record is an `Entry`, its syscall number with a
list of tagged values, and `Entry.encode` is the byte string that stands for it in
a session file.  Two judgements connect the code to it:

* `Emits x l a` : in record mode `x` appends exactly `l` at the cursor and returns
  `a`, or runs out of the buffer when `l` does not fit;
* `Consumes x l a` : in replay mode, with `l` at the cursor, `x` returns `a` and
  leaves the cursor just past `l`.

Both compose along `>>=`, so the spec of `bidirectionalTransform` in either
direction is assembled from the spec of one `memmove`.
-/
import Xv6Recorder.V3Codec

open Bytes StateError Xv6

namespace V3

/-! ## Values, entries and their bytes -/

/-- The meaningful content of an argument.  `other` is a type tag that the codec
has no case for, `NONE_TYPE` included. -/
inductive FieldValue where
  | int (x : Word)
  | uint (x : Word)
  | raw (bytes : List Byte)
  | stat (st : Stat)
  | other (tag : Byte)
deriving DecidableEq

/-- The content of an argument, read through the union member its tag names. -/
def Arg.value (arg : Arg) : FieldValue :=
  if arg.type = intType then .int arg.val.num
  else if arg.type = uintType then .uint arg.val.unum
  else if arg.type = byteType then .raw (slice arg.val 4 arg.val.rawSize.toNat)
  else if arg.type = statType then
    .stat ⟨arg.val.stType, arg.val.stDev, arg.val.stIno, arg.val.stNlink, arg.val.stSize⟩
  else .other arg.type

/-- The tag that the codec writes for a value. -/
def FieldValue.tag : FieldValue → Byte
  | .int _ => intType
  | .uint _ => uintType
  | .raw _ => byteType
  | .stat _ => statType
  | .other tag => tag

/-- Values that the codec can carry. -/
def FieldValue.WellFormed : FieldValue → Prop
  | .raw bytes => bytes.length ≤ maxRawSize
  | .other _ => False
  | _ => True

instance : DecidablePred FieldValue.WellFormed := fun v => by
  cases v <;> unfold FieldValue.WellFormed <;> infer_instance

/-- The bytes of one value. -/
def FieldValue.encode : FieldValue → List Byte
  | .int x => intType :: toBytes x
  | .uint x => uintType :: toBytes x
  | .raw bytes => byteType :: (toBytes (BitVec.ofNat 32 bytes.length) ++ bytes)
  | .stat st => statType :: (toBytes st.type ++ (toBytes st.dev ++ (toBytes st.ino ++
      (toBytes st.nlink ++ toBytes st.size))))
  | .other tag => [tag]

/-- A record as the file stores it. -/
structure Entry where
  syscall : Byte
  values : List FieldValue
deriving DecidableEq

/-- Entries that the codec can carry. -/
structure Entry.WellFormed (e : Entry) : Prop where
  syscall_ne : e.syscall ≠ unitializedScr
  length_le : e.values.length ≤ maxArgc
  values_wf : ∀ v ∈ e.values, v.WellFormed

/-- The bytes of one entry: syscall number, argument count, arguments. -/
def Entry.encode (e : Entry) : List Byte :=
  e.syscall :: BitVec.ofNat 8 e.values.length :: e.values.flatMap FieldValue.encode

/-- The bytes of a whole session: the count, then every entry. -/
def encodeLog (es : List Entry) : List Byte :=
  toBytes (BitVec.ofNat 32 es.length) ++ es.flatMap Entry.encode

/-- The contents of `remaining` arguments of a record from index `i` on. -/
def SCR.valuesFrom (scr : SCR) : (remaining i : ℕ) → List FieldValue
  | 0, _ => []
  | remaining + 1, i =>
    if h : i < maxArgc then (scr.args ⟨i, h⟩).value :: scr.valuesFrom remaining (i + 1) else []

/-- The meaningful fields of a record. -/
def SCR.entry (scr : SCR) : Entry :=
  { syscall := scr.syscall, values := scr.valuesFrom scr.argc.toNat 0 }

/-- A record the codec is specified for. -/
structure SCR.WellFormed (scr : SCR) : Prop where
  syscall_ne : scr.syscall ≠ unitializedScr
  argc_le : scr.argc.toNat ≤ maxArgc
  args_wf : ∀ i : Fin maxArgc, (i : ℕ) < scr.argc.toNat → (scr.args i).value.WellFormed

/-! ## Reading lists of arguments -/

theorem length_valuesFrom (scr : SCR) (remaining i : ℕ) (h : i + remaining ≤ maxArgc) :
    (scr.valuesFrom remaining i).length = remaining := by
  induction remaining generalizing i with
  | zero => rfl
  | succ remaining ih =>
    rw [SCR.valuesFrom, dif_pos (by omega), List.length_cons, ih (i + 1) (by omega)]

theorem length_valuesFrom_le (scr : SCR) (remaining i : ℕ) (h : i ≤ maxArgc) :
    i + (scr.valuesFrom remaining i).length ≤ maxArgc := by
  induction remaining generalizing i with
  | zero => exact h
  | succ remaining ih =>
    rw [SCR.valuesFrom]
    split
    · rename_i hi
      have := ih (i + 1) hi
      rw [List.length_cons]
      omega
    · exact h

/-- The values of a record depend only on the arguments they are read from. -/
theorem valuesFrom_congr {scr scr' : SCR} (remaining i : ℕ)
    (h : ∀ j : Fin maxArgc, i ≤ j → (j : ℕ) < i + remaining → scr.args j = scr'.args j) :
    scr.valuesFrom remaining i = scr'.valuesFrom remaining i := by
  induction remaining generalizing i with
  | zero => rfl
  | succ remaining ih =>
    rw [SCR.valuesFrom, SCR.valuesFrom]
    by_cases hi : i < maxArgc
    · rw [dif_pos hi, dif_pos hi, h ⟨i, hi⟩ le_rfl (by simp),
        ih (i + 1) (fun j hlo hhi => h j (by omega) (by omega))]
    · rw [dif_neg hi, dif_neg hi]

/-- One more argument is one more value at the end. -/
theorem valuesFrom_succ (scr : SCR) (remaining i : ℕ) (h : i + remaining < maxArgc) :
    scr.valuesFrom (remaining + 1) i
      = scr.valuesFrom remaining i ++ [(scr.args ⟨i + remaining, h⟩).value] := by
  induction remaining generalizing i with
  | zero =>
    have hi : i < maxArgc := by omega
    simp only [SCR.valuesFrom, dif_pos hi, List.nil_append, Nat.add_zero]
  | succ remaining ih =>
    have hi : i < maxArgc := by omega
    have hidx : (⟨i + 1 + remaining, by omega⟩ : Fin maxArgc) = ⟨i + (remaining + 1), h⟩ :=
      Fin.ext (by simp only; omega)
    rw [SCR.valuesFrom, dif_pos hi, ih (i + 1) (by omega), hidx, SCR.valuesFrom, dif_pos hi,
      List.cons_append]

theorem mem_valuesFrom {scr : SCR} {remaining i : ℕ} {v : FieldValue}
    (h : v ∈ scr.valuesFrom remaining i) :
    ∃ j : Fin maxArgc, i ≤ j ∧ (j : ℕ) < i + remaining ∧ (scr.args j).value = v := by
  induction remaining generalizing i with
  | zero => simp [SCR.valuesFrom] at h
  | succ remaining ih =>
    rw [SCR.valuesFrom] at h
    split at h
    · rename_i hi
      rcases List.mem_cons.mp h with rfl | h
      · exact ⟨⟨i, hi⟩, le_rfl, by simp, rfl⟩
      · obtain ⟨j, h1, h2, h3⟩ := ih h
        exact ⟨j, by omega, by omega, h3⟩
    · simp at h

theorem value_mem_valuesFrom (scr : SCR) (remaining i : ℕ) (j : Fin maxArgc) (hlo : i ≤ j)
    (hhi : (j : ℕ) < i + remaining) : (scr.args j).value ∈ scr.valuesFrom remaining i := by
  induction remaining generalizing i with
  | zero => omega
  | succ remaining ih =>
    have hi : i < maxArgc := by have := j.isLt; omega
    rw [SCR.valuesFrom, dif_pos hi]
    rcases Nat.eq_or_lt_of_le hlo with heq | hlt
    · have hij : (⟨i, hi⟩ : Fin maxArgc) = j := Fin.ext heq
      rw [hij]
      exact List.mem_cons_self
    · exact List.mem_cons_of_mem _ (ih (i + 1) (by omega) (by omega))

/-- Equal lists of values are equal argument by argument. -/
theorem value_eq_of_valuesFrom_eq {scr scr' : SCR} {remaining i : ℕ}
    (h : scr.valuesFrom remaining i = scr'.valuesFrom remaining i) (j : Fin maxArgc)
    (hlo : i ≤ j) (hhi : (j : ℕ) < i + remaining) :
    (scr.args j).value = (scr'.args j).value := by
  induction remaining generalizing i with
  | zero => omega
  | succ remaining ih =>
    have hi : i < maxArgc := by have := j.isLt; omega
    rw [SCR.valuesFrom, SCR.valuesFrom, dif_pos hi, dif_pos hi, List.cons.injEq] at h
    rcases Nat.eq_or_lt_of_le hlo with heq | hlt
    · have hij : (⟨i, hi⟩ : Fin maxArgc) = j := Fin.ext heq
      rw [← hij]
      exact h.1
    · exact ih h.2 (by omega) (by omega)

theorem SCR.WellFormed.entry_wf {scr : SCR} (h : scr.WellFormed) : scr.entry.WellFormed where
  syscall_ne := h.syscall_ne
  length_le := by
    rw [SCR.entry, length_valuesFrom _ _ _ (by have := h.argc_le; omega)]
    exact h.argc_le
  values_wf := by
    intro v hv
    obtain ⟨j, -, hj, rfl⟩ := mem_valuesFrom hv
    exact h.args_wf j (by omega)

/-! ## Record mode: emitting bytes -/

/-- The state with `l` stored at the cursor and the cursor past it. -/
def Core.write (c : Core) (l : List Byte) : Core :=
  { c with session := { c.session with
      buffer := overlay c.session.buffer c.session.bufferPos.toNat l
      bufferPos := c.session.bufferPos + l.length } }

/-- Record mode with the cursor inside the buffer. -/
structure Recording (c : Core) : Prop where
  record : c.session.recordSyscalls = 1
  replay : c.session.replaySyscalls ≠ 1
  pos_nonneg : 0 ≤ c.session.bufferPos
  pos_le : c.session.bufferPos ≤ maxFileSize

@[simp] theorem write_nil (c : Core) : c.write [] = c := by
  simp [Core.write]

theorem write_write (c : Core) (l₁ l₂ : List Byte) (h : 0 ≤ c.session.bufferPos) :
    (c.write l₁).write l₂ = c.write (l₁ ++ l₂) := by
  have hpos : (c.session.bufferPos + l₁.length).toNat
      = c.session.bufferPos.toNat + l₁.length := by omega
  simp only [Core.write, hpos, overlay_overlay_append, List.length_append, Nat.cast_add]
  rw [Int.add_assoc]

theorem Recording.write {c : Core} (h : Recording c) (l : List Byte)
    (hl : c.session.bufferPos + l.length ≤ maxFileSize) : Recording (c.write l) where
  record := h.record
  replay := h.replay
  pos_nonneg := by
    have := h.pos_nonneg
    simp only [Core.write]
    omega
  pos_le := hl

/-- In record mode `x` stores exactly `l` at the cursor and returns `a`; when `l`
does not fit, `x` stores outside the buffer. -/
def Emits {α : Type} (x : RecM α) (l : List Byte) (a : α) : Prop :=
  ∀ c, Recording c →
    (c.session.bufferPos + l.length ≤ maxFileSize → x.run c = .ok a (c.write l)) ∧
    (maxFileSize < c.session.bufferPos + l.length → ∃ c', x.run c = .error .outOfBounds c')

theorem Emits.pure {α : Type} (a : α) : Emits (Pure.pure a : RecM α) [] a := by
  intro c hc
  refine ⟨fun _ => by rw [write_nil, EStateM.run_pure], fun h => ?_⟩
  have := hc.pos_le
  simp only [List.length_nil, Nat.cast_zero, Int.add_zero] at h
  omega

theorem Emits.bind {α β : Type} {x : RecM α} {f : α → RecM β} {l₁ l₂ : List Byte} {a : α} {b : β}
    (hx : Emits x l₁ a) (hf : Emits (f a) l₂ b) : Emits (x >>= f) (l₁ ++ l₂) b := by
  intro c hc
  obtain ⟨hx1, hx2⟩ := hx c hc
  rw [List.length_append, Nat.cast_add]
  by_cases h1 : c.session.bufferPos + l₁.length ≤ maxFileSize
  · have hw := hc.write l₁ h1
    obtain ⟨hf1, hf2⟩ := hf (c.write l₁) hw
    have hpos : (c.write l₁).session.bufferPos = c.session.bufferPos + l₁.length := rfl
    rw [run_bind_of_ok (hx1 h1)]
    constructor
    · intro h
      rw [hf1 (by omega), write_write c l₁ l₂ hc.pos_nonneg]
    · intro h
      exact hf2 (by omega)
  · obtain ⟨c', he⟩ := hx2 (by omega)
    refine ⟨fun h => by omega, fun _ => ⟨c', run_bind_of_error he⟩⟩

/-- Reading the state before a program that emits. -/
theorem Emits.get_bind {α : Type} {f : Core → RecM α} {l : List Byte} {a : α}
    {y : RecM α} (hf : ∀ c, Recording c → f c = y) (hy : Emits y l a) :
    Emits (get >>= f) l a := by
  intro c hc
  have hrun : (get >>= f).run c = y.run c := by
    rw [EStateM.run_bind, EStateM.run_get]
    simp only [hf c hc]
  rw [hrun]
  exact hy c hc

/-- **One move, record mode.** -/
theorem emits_memmove (obj : Memory) (cap : ℕ) (size : Word)
    (hcap : size.toNat ≤ cap) (hint : size.toInt = size.toNat) :
    Emits (memmoveAndIncrement obj cap size) (slice obj 0 size.toNat) obj := by
  intro c hc
  have hrec := hc.record
  have hrep := hc.replay
  have hpos := hc.pos_nonneg
  simp only [EStateM.run, memmoveAndIncrement, hrec, hrep, length_slice, or_true, true_and,
    false_and, if_false, if_true, Core.write, hint]
  constructor
  · intro h
    rw [if_neg (by omega)]
  · intro h
    have hle := hc.pos_le
    exact ⟨c, by rw [if_pos (by omega)]⟩

theorem emits_transferByte (b : Byte) : Emits (transferByte b) [b] b := by
  have h := emits_memmove (fun _ => b) 1 1 (by decide) (by decide)
  exact h.bind (Emits.pure b)

theorem emits_transferVal (off cap : ℕ) (size : Word) (v : Val)
    (hcap : size.toNat ≤ cap) (hint : size.toInt = size.toNat) :
    Emits (transferVal off cap size v) (slice v off size.toNat) v := by
  have hmove := emits_memmove (fun k => v (off + k)) cap size hcap hint
  rw [slice_shift] at hmove
  have hres : overlay v off (slice (fun k => v (off + k)) 0 size.toNat) = v := by
    rw [slice_shift, overlay_slice_self]
  have hpure := Emits.pure v
  rw [← hres] at hpure
  have h := hmove.bind (f := fun obj => pure (overlay v off (slice obj 0 size.toNat))) hpure
  rwa [List.append_nil, hres] at h

theorem toInt_eq_toNat_of_le {size : Word} (h : size.toNat ≤ maxRawSize) :
    size.toInt = size.toNat := by
  rw [BitVec.toInt_eq_toNat_of_lt]
  simp only [maxRawSize] at h
  omega

/-! The switch on the tag, case by case. -/

theorem transformVal_int (v : Val) : transformVal ⟨intType, v⟩ =
    (transferVal 0 4 4 v >>= fun v => pure ⟨intType, v⟩) := rfl

theorem transformVal_uint (v : Val) : transformVal ⟨uintType, v⟩ =
    (transferVal 0 4 4 v >>= fun v => pure ⟨uintType, v⟩) := rfl

theorem transformVal_raw (v : Val) : transformVal ⟨byteType, v⟩ =
    (transferVal 0 4 4 v >>= fun v => transferVal 4 maxRawSize v.rawSize v >>= fun v =>
      pure ⟨byteType, v⟩) := rfl

theorem transformVal_stat (v : Val) : transformVal ⟨statType, v⟩ =
    (transferVal 0 2 2 v >>= fun v => transferVal 4 4 4 v >>= fun v =>
      transferVal 8 4 4 v >>= fun v => transferVal 12 2 2 v >>= fun v =>
      transferVal 16 4 4 v >>= fun v => pure ⟨statType, v⟩) := rfl

theorem value_int (v : Val) : Arg.value ⟨intType, v⟩ = .int v.num := rfl

theorem value_uint (v : Val) : Arg.value ⟨uintType, v⟩ = .uint v.unum := rfl

theorem value_raw (v : Val) :
    Arg.value ⟨byteType, v⟩ = .raw (slice v 4 v.rawSize.toNat) := rfl

theorem value_stat (v : Val) : Arg.value ⟨statType, v⟩ =
    .stat ⟨v.stType, v.stDev, v.stIno, v.stNlink, v.stSize⟩ := rfl

/-- A value names the tag it was read under. -/
theorem tag_value (arg : Arg) : arg.value.tag = arg.type := by
  unfold Arg.value
  split_ifs with h1 h2 h3 h4
  · exact h1.symm
  · exact h2.symm
  · exact h3.symm
  · exact h4.symm
  · rfl

/-- The four tags of a well-formed argument. -/
theorem wellFormed_cases {arg : Arg} (h : arg.value.WellFormed) :
    arg.type = intType ∨ arg.type = uintType ∨
      (arg.type = byteType ∧ arg.val.rawSize.toNat ≤ maxRawSize) ∨ arg.type = statType := by
  unfold Arg.value at h
  split_ifs at h with h1 h2 h3 h4
  · exact Or.inl h1
  · exact Or.inr (Or.inl h2)
  · refine Or.inr (Or.inr (Or.inl ⟨h3, ?_⟩))
    simpa [FieldValue.WellFormed] using h
  · exact Or.inr (Or.inr (Or.inr h4))
  · exact h.elim

theorem encode_eq_tag_cons (v : FieldValue) : v.encode = v.tag :: v.encode.tail := by
  cases v <;> rfl

/-- The bytes of an argument begin with its tag. -/
theorem encode_value_eq (arg : Arg) :
    arg.value.encode = arg.type :: arg.value.encode.tail := by
  rw [← tag_value arg]
  exact encode_eq_tag_cons arg.value

theorem emits_transformVal (arg : Arg) (h : arg.value.WellFormed) :
    Emits (transformVal arg) arg.value.encode.tail arg := by
  obtain ⟨t, v⟩ := arg
  have hmove := fun off cap size => emits_transferVal off cap size v
  have hbytes : ∀ off, toBytes (field 32 off v) = slice v off 4 := fun off =>
    toBytes_field (by decide) off v
  rcases wellFormed_cases h with rfl | rfl | ⟨rfl, hle⟩ | rfl
  · rw [transformVal_int, value_int, FieldValue.encode, List.tail_cons, Val.num, hbytes,
      ← List.append_nil (slice _ _ _)]
    exact (hmove 0 4 4 (by decide) (by decide)).bind (Emits.pure _)
  · rw [transformVal_uint, value_uint, FieldValue.encode, List.tail_cons, Val.unum, hbytes,
      ← List.append_nil (slice _ _ _)]
    exact (hmove 0 4 4 (by decide) (by decide)).bind (Emits.pure _)
  · rw [transformVal_raw, value_raw, FieldValue.encode, List.tail_cons, length_slice,
      BitVec.ofNat_toNat, BitVec.setWidth_eq, ← List.append_nil (slice v 4 _)]
    rw [show toBytes v.rawSize = slice v 0 4 from hbytes 0]
    exact (hmove 0 4 4 (by decide) (by decide)).bind
      ((hmove 4 maxRawSize _ hle (toInt_eq_toNat_of_le hle)).bind (Emits.pure _))
  · rw [transformVal_stat, value_stat, FieldValue.encode, List.tail_cons]
    simp only [Val.stType, Val.stDev, Val.stIno, Val.stNlink, Val.stSize, hbytes,
      toBytes_field (show 8 * (16 / 8) = 16 by decide)]
    rw [← List.append_nil (slice v 16 4)]
    exact (hmove 0 2 2 (by decide) (by decide)).bind
      ((hmove 4 4 4 (by decide) (by decide)).bind
        ((hmove 8 4 4 (by decide) (by decide)).bind
          ((hmove 12 2 2 (by decide) (by decide)).bind
            ((hmove 16 4 4 (by decide) (by decide)).bind (Emits.pure _)))))

/-- A well-formed argument does not carry the null tag. -/
theorem type_ne_noneType {arg : Arg} (h : arg.value.WellFormed) : arg.type ≠ noneType := by
  rcases wellFormed_cases h with ht | ht | ⟨ht, -⟩ | ht <;> rw [ht] <;> decide

theorem emits_transformArg (arg : Arg) (h : arg.value.WellFormed) :
    Emits (transformArg arg) arg.value.encode (true, arg) := by
  have hnone := type_ne_noneType h
  rw [encode_value_eq arg, ← List.append_nil arg.value.encode.tail]
  unfold transformArg
  apply Emits.get_bind
  · intro c _
    exact if_neg (fun hc => hnone hc.2)
  refine (emits_transferByte arg.type).bind ?_
  apply Emits.get_bind
  · intro c _
    exact if_neg (fun hc => hnone hc.2)
  exact (emits_transformVal arg h).bind (Emits.pure _)

theorem emits_transformArgs (behind : ℕ → Arg) (scr : SCR) (remaining i : ℕ)
    (hlen : i + remaining ≤ maxArgc)
    (hwf : ∀ j : Fin maxArgc, (j : ℕ) < i + remaining → (scr.args j).value.WellFormed) :
    Emits (transformArgs behind remaining i scr)
      ((scr.valuesFrom remaining i).flatMap FieldValue.encode) (1, scr) := by
  induction remaining generalizing i with
  | zero => exact Emits.pure _
  | succ remaining ih =>
    have hi : i < maxArgc := by omega
    have hself : { scr with args := Function.update scr.args ⟨i, hi⟩ (scr.args ⟨i, hi⟩) }
        = scr := by
      rw [Function.update_eq_self]
    have hrest := ih (i + 1) (by omega) (fun j hj => hwf j (by omega))
    rw [SCR.valuesFrom, dif_pos hi, List.flatMap_cons, transformArgs, dif_pos hi]
    refine (emits_transformArg _ (hwf ⟨i, hi⟩ (by simp))).bind ?_
    simp only [if_true, hself]
    exact hrest

/-- The argument count of a record is the number of values of its entry. -/
theorem ofNat_length_values {scr : SCR} (h : scr.argc.toNat ≤ maxArgc) :
    BitVec.ofNat 8 scr.entry.values.length = scr.argc := by
  rw [SCR.entry, length_valuesFrom _ _ _ (by omega), BitVec.ofNat_toNat, BitVec.setWidth_eq]

/-- **One record, record mode**: the encoder appends exactly its entry's bytes. -/
theorem emits_transformSCR (behind : ℕ → Arg) (scr : SCR) (h : scr.WellFormed) :
    Emits (transformSCR behind scr) scr.entry.encode (1, scr) := by
  have hne := h.syscall_ne
  have hle := h.argc_le
  have hargs := emits_transformArgs behind scr scr.argc.toNat 0 (by omega)
    (fun j hj => h.args_wf j (by omega))
  rw [Entry.encode, ofNat_length_values hle]
  unfold transformSCR
  apply Emits.get_bind
  · intro c _
    exact if_neg (fun hc => hne hc.2)
  refine (emits_transferByte scr.syscall).bind ?_
  apply Emits.get_bind
  · intro c _
    exact if_neg (fun hc => hne hc.2)
  exact (emits_transferByte scr.argc).bind hargs

/-! ## Replay mode: consuming bytes -/

/-- The state with the cursor `n` bytes further on. -/
def Core.advance (c : Core) (n : ℕ) : Core :=
  { c with session := { c.session with
      bufferPos := c.session.bufferPos + n
      bufferSeen := if n = 0 then c.session.bufferSeen
        else max c.session.bufferSeen (c.session.bufferPos.toNat + n) } }

/-- Replay mode. -/
structure Replaying (c : Core) : Prop where
  replay : c.session.replaySyscalls = 1
  record : c.session.recordSyscalls ≠ 1
  pos_nonneg : 0 ≤ c.session.bufferPos

@[simp] theorem advance_zero (c : Core) : c.advance 0 = c := by
  simp [Core.advance]

/-- The cursor after a move from the start of the buffer. -/
theorem bufferPos_advance_start {c : Core} (hpos : c.session.bufferPos = 0) (n : ℕ) :
    (c.advance n).session.bufferPos = n := by
  simp only [Core.advance, hpos, Int.zero_add]

theorem advance_advance (c : Core) (n m : ℕ) (h : 0 ≤ c.session.bufferPos) :
    (c.advance n).advance m = c.advance (n + m) := by
  have hpos : (c.session.bufferPos + n).toNat = c.session.bufferPos.toNat + n := by omega
  rcases Nat.eq_zero_or_pos n with rfl | hn
  · rw [advance_zero, Nat.zero_add]
  rcases Nat.eq_zero_or_pos m with rfl | hm
  · rw [advance_zero, Nat.add_zero]
  have hseen : max (max c.session.bufferSeen (c.session.bufferPos.toNat + n))
      (c.session.bufferPos.toNat + n + m)
      = max c.session.bufferSeen (c.session.bufferPos.toNat + (n + m)) := by omega
  simp only [Core.advance, hpos, if_neg (show n ≠ 0 by omega), if_neg (show m ≠ 0 by omega),
    if_neg (show n + m ≠ 0 by omega), Nat.cast_add, Int.add_assoc, hseen]

theorem Replaying.advance {c : Core} (h : Replaying c) (n : ℕ) : Replaying (c.advance n) where
  replay := h.replay
  record := h.record
  pos_nonneg := by
    have := h.pos_nonneg
    simp only [Core.advance]
    omega

/-- In replay mode, with `l` at the cursor, `x` loads exactly `l` and returns `a`. -/
def Consumes {α : Type} (x : RecM α) (l : List Byte) (a : α) : Prop :=
  ∀ c, Replaying c → c.session.bufferPos + l.length ≤ maxFileSize →
    slice c.session.buffer c.session.bufferPos.toNat l.length = l →
    x.run c = .ok a (c.advance l.length)

theorem Consumes.pure {α : Type} (a : α) : Consumes (Pure.pure a : RecM α) [] a := by
  intro c _ _ _
  rw [List.length_nil, advance_zero, EStateM.run_pure]

theorem Consumes.bind {α β : Type} {x : RecM α} {f : α → RecM β} {l₁ l₂ : List Byte}
    {a : α} {b : β} (hx : Consumes x l₁ a) (hf : Consumes (f a) l₂ b) :
    Consumes (x >>= f) (l₁ ++ l₂) b := by
  intro c hc hfit hat
  rw [List.length_append] at hfit hat ⊢
  rw [slice_add] at hat
  obtain ⟨hat1, hat2⟩ := List.append_inj hat (length_slice _ _ _)
  have hpos : (c.advance l₁.length).session.bufferPos.toNat
      = c.session.bufferPos.toNat + l₁.length := by
    have := hc.pos_nonneg
    simp only [Core.advance]
    omega
  have h1 := hx c hc (by omega) hat1
  have h2 := hf (c.advance l₁.length) (hc.advance _)
    (by simp only [Core.advance]; omega) (by rw [hpos]; exact hat2)
  rw [run_bind_of_ok h1, h2, advance_advance c _ _ hc.pos_nonneg]

/-- Reading the state before a program that consumes. -/
theorem Consumes.get_bind {α : Type} {f : Core → RecM α} {l : List Byte} {a : α}
    {y : RecM α} (hf : ∀ c, Replaying c → f c = y) (hy : Consumes y l a) :
    Consumes (get >>= f) l a := by
  intro c hc hfit hat
  have hrun : (get >>= f).run c = y.run c := by
    rw [EStateM.run_bind, EStateM.run_get]
    simp only [hf c hc]
  rw [hrun]
  exact hy c hc hfit hat

/-- A move in replay mode that stays in the buffer and in its object. -/
theorem memmove_replaying {c : Core} (hc : Replaying c) (obj : Memory) {cap : ℕ} {size : Word}
    (hint : size.toInt = size.toNat) (hok : 0 < size.toNat →
      c.session.bufferPos + size.toNat ≤ maxFileSize ∧ size.toNat ≤ cap) :
    (memmoveAndIncrement obj cap size).run c =
      .ok (overlay obj 0 (slice c.session.buffer c.session.bufferPos.toNat size.toNat))
        (c.advance size.toNat) := by
  have hrec := hc.record
  have hrep := hc.replay
  have hpos := hc.pos_nonneg
  have hseen : (if 0 < size.toNat then
        max c.session.bufferSeen (c.session.bufferPos.toNat + size.toNat)
      else c.session.bufferSeen)
      = if size.toNat = 0 then c.session.bufferSeen
        else max c.session.bufferSeen (c.session.bufferPos.toNat + size.toNat) := by
    split_ifs <;> first | rfl | omega
  simp only [EStateM.run, memmoveAndIncrement, hrec, hrep, or_false, true_and, if_false,
    if_true, Core.advance, hint, hseen]
  rw [if_neg fun h => h.2 ⟨hpos, hok h.1⟩]

/-- **One move, replay mode.** -/
theorem consumes_memmove (obj : Memory) (cap : ℕ) (size : Word) (l : List Byte)
    (hcap : size.toNat ≤ cap) (hint : size.toInt = size.toNat) (hl : l.length = size.toNat) :
    Consumes (memmoveAndIncrement obj cap size) l (overlay obj 0 l) := by
  intro c hc hfit hat
  rw [hl] at hfit hat ⊢
  rw [memmove_replaying hc obj hint fun _ => ⟨hfit, hcap⟩, hat]

theorem consumes_transferByte (b b' : Byte) : Consumes (transferByte b) [b'] b' := by
  have h := consumes_memmove (fun _ => b) 1 1 [b'] (by decide) (by decide) rfl
  exact h.bind (f := fun obj => pure (obj 0)) (Consumes.pure _)

theorem consumes_transferVal (off cap : ℕ) (size : Word) (v : Val) (l : List Byte)
    (hcap : size.toNat ≤ cap) (hint : size.toInt = size.toNat) (hl : l.length = size.toNat) :
    Consumes (transferVal off cap size v) l (overlay v off l) := by
  have hmove := consumes_memmove (fun k => v (off + k)) cap size l hcap hint hl
  have hpure := Consumes.pure (overlay v off l)
  have hres : slice (overlay (fun k => v (off + k)) 0 l) 0 size.toNat = l := by
    rw [← hl, slice_overlay_same]
  rw [show overlay v off l
    = overlay v off (slice (overlay (fun k => v (off + k)) 0 l) 0 size.toNat) by rw [hres]] at hpure
  have h := hmove.bind (f := fun obj => pure (overlay v off (slice obj 0 size.toNat))) hpure
  rwa [List.append_nil, hres] at h

/-- A size written as four bytes and read back. -/
theorem toNat_ofNat_length {l : List Byte} (h : l.length ≤ maxRawSize) :
    (BitVec.ofNat 32 l.length).toNat = l.length := by
  rw [BitVec.toNat_ofNat]
  simp only [maxRawSize] at h
  exact Nat.mod_eq_of_lt (by omega)

/-- The union after a raw value has been decoded into it. -/
theorem value_overlay_raw (v : Val) (bytes : List Byte) (h : bytes.length ≤ maxRawSize) :
    Arg.value ⟨byteType,
      overlay (overlay v 0 (toBytes (BitVec.ofNat 32 bytes.length))) 4 bytes⟩ = .raw bytes := by
  have hsize : Val.rawSize (overlay (overlay v 0 (toBytes (BitVec.ofNat 32 bytes.length))) 4 bytes)
      = BitVec.ofNat 32 bytes.length := by
    rw [Val.rawSize, field_overlay_disjoint _ _ _ _ _ (by omega)]
    exact field_putField_same (by decide) 0 _ v
  rw [value_raw, hsize, toNat_ofNat_length h, slice_overlay_same]

/-- The union after a stat value has been decoded into it. -/
theorem value_overlay_stat (v : Val) (st : Stat) :
    Arg.value ⟨statType, overlay (overlay (overlay (overlay (overlay v 0 (toBytes st.type)) 4
      (toBytes st.dev)) 8 (toBytes st.ino)) 12 (toBytes st.nlink)) 16 (toBytes st.size)⟩
      = .stat st := by
  have h16 : 8 * (16 / 8) = 16 := by decide
  have h32 : 8 * (32 / 8) = 32 := by decide
  rw [value_stat]
  simp only [FieldValue.stat.injEq, Stat.ext_iff, Val.stType, Val.stDev, Val.stIno, Val.stNlink,
    Val.stSize]
  refine ⟨?_, ?_, ?_, ?_, ?_⟩
  · rw [field_overlay_disjoint _ _ _ _ _ (by simp), field_overlay_disjoint _ _ _ _ _ (by simp),
      field_overlay_disjoint _ _ _ _ _ (by simp), field_overlay_disjoint _ _ _ _ _ (by simp),
      field_overlay_same _ _ _ _ (by simp), fromBytes_toBytes h16]
  · rw [field_overlay_disjoint _ _ _ _ _ (by simp), field_overlay_disjoint _ _ _ _ _ (by simp),
      field_overlay_disjoint _ _ _ _ _ (by simp), field_overlay_same _ _ _ _ (by simp),
      fromBytes_toBytes h32]
  · rw [field_overlay_disjoint _ _ _ _ _ (by simp), field_overlay_disjoint _ _ _ _ _ (by simp),
      field_overlay_same _ _ _ _ (by simp), fromBytes_toBytes h32]
  · rw [field_overlay_disjoint _ _ _ _ _ (by simp), field_overlay_same _ _ _ _ (by simp),
      fromBytes_toBytes h16]
  · rw [field_overlay_same _ _ _ _ (by simp), fromBytes_toBytes h32]

theorem consumes_transformVal (v : FieldValue) (hv : v.WellFormed) (old : Val) :
    ∃ arg', Consumes (transformVal ⟨v.tag, old⟩) v.encode.tail arg' ∧ arg'.value = v := by
  have hmove := consumes_transferVal
  cases v with
  | int x =>
    refine ⟨⟨intType, overlay old 0 (toBytes x)⟩, ?_, ?_⟩
    · rw [FieldValue.tag, transformVal_int, ← List.append_nil (FieldValue.encode _).tail]
      exact (hmove 0 4 4 old (toBytes x) (by decide) (by decide) (by simp)).bind
        (Consumes.pure _)
    · exact congrArg FieldValue.int (field_putField_same (by decide) 0 x old)
  | uint x =>
    refine ⟨⟨uintType, overlay old 0 (toBytes x)⟩, ?_, ?_⟩
    · rw [FieldValue.tag, transformVal_uint, ← List.append_nil (FieldValue.encode _).tail]
      exact (hmove 0 4 4 old (toBytes x) (by decide) (by decide) (by simp)).bind
        (Consumes.pure _)
    · exact congrArg FieldValue.uint (field_putField_same (by decide) 0 x old)
  | raw bytes =>
    have hlen := toNat_ofNat_length hv
    have hsize : Val.rawSize (overlay old 0 (toBytes (BitVec.ofNat 32 bytes.length)))
        = BitVec.ofNat 32 bytes.length := field_putField_same (by decide) 0 _ old
    -- the second move runs with the size the first one has just decoded
    have hsecond := hmove 4 maxRawSize (BitVec.ofNat 32 bytes.length)
      (overlay old 0 (toBytes (BitVec.ofNat 32 bytes.length))) bytes (by rw [hlen]; exact hv)
      (toInt_eq_toNat_of_le (by rw [hlen]; exact hv)) hlen.symm
    have htail := hsecond.bind (f := fun u => pure (Arg.mk byteType u)) (Consumes.pure _)
    rw [List.append_nil] at htail
    refine ⟨_, ?_, value_overlay_raw old bytes hv⟩
    rw [FieldValue.tag, transformVal_raw, FieldValue.encode, List.tail_cons]
    refine (hmove 0 4 4 old _ (by decide) (by decide) (by simp)).bind ?_
    rw [hsize]
    exact htail
  | stat st =>
    refine ⟨_, ?_, value_overlay_stat old st⟩
    rw [FieldValue.tag, transformVal_stat, FieldValue.encode, List.tail_cons,
      ← List.append_nil (toBytes st.size)]
    refine (hmove 0 2 2 old _ (by decide) (by decide) (by simp)).bind ?_
    refine (hmove 4 4 4 _ _ (by decide) (by decide) (by simp)).bind ?_
    refine (hmove 8 4 4 _ _ (by decide) (by decide) (by simp)).bind ?_
    refine (hmove 12 2 2 _ _ (by decide) (by decide) (by simp)).bind ?_
    refine (hmove 16 4 4 _ _ (by decide) (by decide) (by simp)).bind ?_
    rw [List.append_nil]
    exact Consumes.pure _
  | other tag => exact hv.elim

theorem tag_ne_noneType {v : FieldValue} (hv : v.WellFormed) : v.tag ≠ noneType := by
  cases v with
  | int | uint | raw | stat => rw [FieldValue.tag]; decide
  | other tag => exact hv.elim

theorem consumes_transformArg (v : FieldValue) (hv : v.WellFormed) (arg : Arg) :
    ∃ arg', Consumes (transformArg arg) v.encode (true, arg') ∧ arg'.value = v := by
  obtain ⟨arg', hc, hval⟩ := consumes_transformVal v hv arg.val
  refine ⟨arg', ?_, hval⟩
  have hnone := tag_ne_noneType hv
  rw [encode_eq_tag_cons, ← List.append_nil v.encode.tail]
  unfold transformArg
  apply Consumes.get_bind
  · intro c hc
    exact if_neg (fun h => hc.record h.1)
  refine (consumes_transferByte arg.type v.tag).bind ?_
  apply Consumes.get_bind
  · intro c _
    exact if_neg (fun h => hnone h.2)
  exact hc.bind (f := fun a => pure (true, a)) (Consumes.pure _)

theorem consumes_transformArgs (behind : ℕ → Arg) (vs : List FieldValue)
    (hwf : ∀ v ∈ vs, v.WellFormed) (i : ℕ) (scr : SCR) (hlen : i + vs.length ≤ maxArgc) :
    ∃ scr', Consumes (transformArgs behind vs.length i scr) (vs.flatMap FieldValue.encode) (1, scr') ∧
      scr'.syscall = scr.syscall ∧ scr'.argc = scr.argc ∧
      (∀ j : Fin maxArgc, (j : ℕ) < i → scr'.args j = scr.args j) ∧
      scr'.valuesFrom vs.length i = vs := by
  induction vs generalizing i scr with
  | nil => exact ⟨scr, Consumes.pure _, rfl, rfl, fun _ _ => rfl, rfl⟩
  | cons v vs ih =>
    rw [List.length_cons] at hlen
    have hi : i < maxArgc := by omega
    obtain ⟨arg', harg, hval⟩ :=
      consumes_transformArg v (hwf v List.mem_cons_self) (scr.args ⟨i, hi⟩)
    obtain ⟨scr', hrest, hsys, hargc, hkeep, hvals⟩ :=
      ih (fun u hu => hwf u (List.mem_cons_of_mem _ hu)) (i + 1)
        { scr with args := Function.update scr.args ⟨i, hi⟩ arg' } (by omega)
    have hhead : (scr'.args ⟨i, hi⟩).value = v := by
      rw [hkeep ⟨i, hi⟩ (by simp)]
      simp only [Function.update_self, hval]
    refine ⟨scr', ?_, hsys, hargc, ?_, ?_⟩
    · rw [List.length_cons, transformArgs, dif_pos hi, List.flatMap_cons]
      refine harg.bind ?_
      simp only [if_true]
      exact hrest
    · intro j hj
      rw [hkeep j (by omega)]
      exact Function.update_of_ne (fun h => by rw [h] at hj; simp at hj) _ _
    · rw [List.length_cons, SCR.valuesFrom, dif_pos hi, hhead, hvals]

/-- A record that holds an entry on every meaningful field. -/
structure SCR.Holds (scr : SCR) (e : Entry) : Prop where
  argc_eq : scr.argc = BitVec.ofNat 8 e.values.length
  entry_eq : scr.entry = e

theorem Entry.WellFormed.toNat_argc {e : Entry} (h : e.WellFormed) :
    (BitVec.ofNat 8 e.values.length).toNat = e.values.length := by
  have hlen := h.length_le
  simp only [maxArgc] at hlen
  rw [BitVec.toNat_ofNat]
  exact Nat.mod_eq_of_lt (by omega)

theorem SCR.WellFormed.holds {scr : SCR} (h : scr.WellFormed) : scr.Holds scr.entry :=
  ⟨(ofNat_length_values h.argc_le).symm, rfl⟩

/-- A record that holds a well-formed entry is well-formed. -/
theorem SCR.Holds.wellFormed {scr : SCR} {e : Entry} (h : scr.Holds e) (he : e.WellFormed) :
    scr.WellFormed := by
  have hsys : scr.syscall = e.syscall := congrArg Entry.syscall h.entry_eq
  have hvals : scr.valuesFrom scr.argc.toNat 0 = e.values := congrArg Entry.values h.entry_eq
  have hargc : scr.argc.toNat = e.values.length := by rw [h.argc_eq, he.toNat_argc]
  refine ⟨by rw [hsys]; exact he.syscall_ne, by rw [hargc]; exact he.length_le, ?_⟩
  intro i hi
  apply he.values_wf
  rw [← hvals]
  exact value_mem_valuesFrom scr _ 0 i (Nat.zero_le _) (by omega)

/-- **One record, replay mode**: the decoder restores the entry whose bytes it reads. -/
theorem consumes_transformSCR (behind : ℕ → Arg) (e : Entry) (he : e.WellFormed) (scr : SCR) :
    ∃ scr', Consumes (transformSCR behind scr) e.encode (1, scr') ∧ scr'.Holds e := by
  obtain ⟨scr', hargs, hsys, hargc, -, hvals⟩ := consumes_transformArgs behind e.values
    he.values_wf 0
    { scr with syscall := e.syscall, argc := BitVec.ofNat 8 e.values.length }
    (by have := he.length_le; omega)
  refine ⟨scr', ?_, hargc, ?_⟩
  · rw [Entry.encode]
    unfold transformSCR
    apply Consumes.get_bind
    · intro c hc
      exact if_neg (fun h => hc.record h.1)
    refine (consumes_transferByte scr.syscall e.syscall).bind ?_
    apply Consumes.get_bind
    · intro c _
      exact if_neg (fun h => he.syscall_ne h.2)
    refine (consumes_transferByte scr.argc _).bind ?_
    rw [he.toNat_argc]
    exact hargs
  · rw [SCR.entry, hargc, hsys, he.toNat_argc, hvals]

end V3
