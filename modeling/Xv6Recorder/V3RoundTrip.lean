/-
# The session codec is a round trip

The loops of `sys_record_stop` and `sys_replay_start` over a whole log, in each
direction.  Encoding a well-formed log leaves `encodeLog` of its entries in the
buffer, and stores outside the buffer exactly when that does not fit; decoding a
buffer that begins with `encodeLog es` installs `es`.  The shape of a session file
is also given as a grammar on bytes alone, `FileShape`, from which the converse
direction starts.
-/
import Xv6Recorder.V3Format

open Bytes StateError Xv6

namespace V3

/-! ## The record loop -/

/-- The entries of `n` records of a log from index `i` on. -/
def logEntries (f : ℤ → SCR) : (n i : ℕ) → List Entry
  | 0, _ => []
  | n + 1, i => (f i).entry :: logEntries f n (i + 1)

@[simp] theorem length_logEntries (f : ℤ → SCR) (n i : ℕ) : (logEntries f n i).length = n := by
  induction n generalizing i with
  | zero => rfl
  | succ n ih => rw [logEntries, List.length_cons, ih]

theorem bidirectionalTransform_record (c : Core) (hc : Recording c) (i : ℕ) (fileSize : ℤ)
    (hi : i < maxScrs) (hwf : (c.session.recordedScrs i).WellFormed) :
    let l := (c.session.recordedScrs i).entry.encode
    (c.session.bufferPos + l.length ≤ maxFileSize →
      (bidirectionalTransform i fileSize).run c = .ok 1 (c.write l)) ∧
    (maxFileSize < c.session.bufferPos + l.length →
      ∃ c', (bidirectionalTransform i fileSize).run c = .error .outOfBounds c') := by
  intro l
  obtain ⟨hok, herr⟩ := emits_transformSCR (c.session.behindArgs i) _ hwf c hc
  have hpos := hc.pos_le
  have hstart : (bidirectionalTransform i fileSize).run c =
      (transformSCR (c.session.behindArgs i) (c.session.recordedScrs i) >>= fun r => do
        modify fun c => { c with session := { c.session with
          recordedScrs := Function.update c.session.recordedScrs i r.2 } }
        pure r.1).run c := by
    unfold bidirectionalTransform
    rw [EStateM.run_bind, EStateM.run_get]
    simp only
    rw [if_neg (by omega), if_neg (fun h => hc.replay h.1), if_pos hi]
  rw [hstart]
  constructor
  · intro h
    rw [run_bind_of_ok (hok h)]
    -- the record is stored back as it was
    simp only [EStateM.run_bind, EStateM.run_modify, EStateM.run_pure, Core.write,
      Function.update_eq_self]
    rfl
  · intro h
    obtain ⟨c', hc'⟩ := herr h
    exact ⟨c', run_bind_of_error hc'⟩

/-- **The record loop**: it appends the bytes of every record, or stores outside
the buffer. -/
theorem transformLoop_record (n i : ℕ) (c : Core) (hc : Recording c) (fileSize : ℤ)
    (hn : i + n ≤ maxScrs) (hwf : ∀ k < n, (c.session.recordedScrs (i + k : ℕ)).WellFormed) :
    let l := (logEntries c.session.recordedScrs n i).flatMap Entry.encode
    (c.session.bufferPos + l.length ≤ maxFileSize →
      (transformLoop fileSize n i).run c = .ok true (c.write l)) ∧
    (maxFileSize < c.session.bufferPos + l.length →
      ∃ c', (transformLoop fileSize n i).run c = .error .outOfBounds c') := by
  induction n generalizing i c with
  | zero =>
    have hpos := hc.pos_le
    simp only [logEntries, List.flatMap_nil, write_nil, List.length_nil, Nat.cast_zero,
      Int.add_zero, transformLoop, EStateM.run_pure, implies_true, true_and]
    intro h
    omega
  | succ n ih =>
    obtain ⟨hok, herr⟩ := bidirectionalTransform_record c hc i fileSize (by omega)
      (hwf 0 (Nat.succ_pos n))
    simp only [logEntries, List.flatMap_cons, List.length_append, Nat.cast_add, transformLoop]
    by_cases h1 : c.session.bufferPos + (c.session.recordedScrs i).entry.encode.length
        ≤ maxFileSize
    · rw [run_bind_of_ok (hok h1), if_neg (by decide), if_neg (by decide)]
      obtain ⟨hok', herr'⟩ := ih (i + 1) (c.write (c.session.recordedScrs i).entry.encode)
        (hc.write _ h1) (by omega)
        (fun k hk => by
          have := hwf (k + 1) (by omega)
          rwa [show i + (k + 1) = i + 1 + k by omega] at this)
      have hpos : (c.write (c.session.recordedScrs i).entry.encode).session.bufferPos
          = c.session.bufferPos + (c.session.recordedScrs i).entry.encode.length := rfl
      have hlog : (c.write (c.session.recordedScrs i).entry.encode).session.recordedScrs
          = c.session.recordedScrs := rfl
      rw [hpos, hlog] at hok' herr'
      constructor
      · intro h
        rw [hok' (by omega), write_write c _ _ hc.pos_nonneg]
      · intro h
        exact herr' (by omega)
    · obtain ⟨c', hc'⟩ := herr (by omega)
      exact ⟨fun h => by omega, fun _ => ⟨c', run_bind_of_error hc'⟩⟩

theorem transferIdx_record (c : Core) (hc : Recording c)
    (hfit : c.session.bufferPos + 4 ≤ maxFileSize) :
    transferIdx.run c = .ok () (c.write (toBytes (BitVec.ofInt 32 c.session.scrsIdx))) := by
  have hslice : slice (putField 0 (BitVec.ofInt 32 c.session.scrsIdx) (fun _ => 0)) 0
      (4 : Word).toNat = toBytes (BitVec.ofInt 32 c.session.scrsIdx) := by
    have h := slice_overlay_same (fun _ => 0) 0 (toBytes (BitVec.ofInt 32 c.session.scrsIdx))
    rwa [length_toBytes] at h
  have hmove := (emits_memmove (putField 0 (BitVec.ofInt 32 c.session.scrsIdx) (fun _ => 0)) 4 4
    (by decide) (by decide) c hc).1
  rw [hslice] at hmove
  have hrep := hc.replay
  unfold transferIdx
  rw [EStateM.run_bind, EStateM.run_get]
  simp only
  rw [run_bind_of_ok (hmove (by simpa using hfit)), EStateM.run_modify]
  simp only [Core.write, hrep, if_false]

/-- The count is stored as the four bytes of its number. -/
theorem ofInt_scrsIdx (n : ℕ) : BitVec.ofInt 32 (n : ℤ) = BitVec.ofNat 32 n := by
  simp

theorem length_encodeLog (es : List Entry) :
    (encodeLog es).length = 4 + (es.flatMap Entry.encode).length := by
  rw [encodeLog, List.length_append, length_toBytes]

/-- **Encoding a log** leaves its bytes at the start of the buffer, and stores
outside the buffer exactly when they do not fit. -/
theorem packScrs_record (c : Core) (hrec : c.session.recordSyscalls = 1)
    (hrep : c.session.replaySyscalls ≠ 1) (n : ℕ) (hidx : c.session.scrsIdx = n)
    (hn : n ≤ maxScrs) (hwf : ∀ k < n, (c.session.recordedScrs (k : ℕ)).WellFormed) :
    let l := encodeLog (logEntries c.session.recordedScrs n 0)
    (l.length ≤ maxFileSize → packScrs.run c = .ok true (c.rewind.write l)) ∧
    (maxFileSize < l.length → ∃ c', packScrs.run c = .error .outOfBounds c') := by
  intro l
  have hc : Recording c.rewind := ⟨hrec, hrep, le_rfl, Int.natCast_nonneg _⟩
  have hcount := transferIdx_record c.rewind hc (by simp [Core.rewind, maxFileSize])
  rw [show c.rewind.session.scrsIdx = (n : ℤ) from hidx, ofInt_scrsIdx] at hcount
  -- the state in which the loop starts
  have hc' : Recording (c.rewind.write (toBytes (BitVec.ofNat 32 n))) :=
    hc.write _ (by simp [Core.rewind, maxFileSize])
  have hloop := transformLoop_record n 0 _ hc' (-1) (by omega)
    (fun k hk => by rw [Nat.zero_add]; exact hwf k hk)
  have hpos : (c.rewind.write (toBytes (BitVec.ofNat 32 n))).session.bufferPos = 4 := rfl
  have hlog : (c.rewind.write (toBytes (BitVec.ofNat 32 n))).session.recordedScrs
      = c.session.recordedScrs := rfl
  rw [hpos, hlog] at hloop
  have hlen : l.length = 4 + _ := length_encodeLog (logEntries c.session.recordedScrs n 0)
  have hrun : packScrs.run c =
      (transformLoop (-1) n 0).run (c.rewind.write (toBytes (BitVec.ofNat 32 n))) := by
    have hrewind : (modify Core.rewind : RecM Unit).run c = .ok () c.rewind := rfl
    unfold packScrs
    rw [run_bind_of_ok hrewind, run_bind_of_ok hcount, EStateM.run_bind, EStateM.run_get]
    simp only [Core.write, Core.rewind, hidx, Int.toNat_natCast]
  rw [hrun]
  constructor
  · intro h
    rw [hloop.1 (by omega), write_write _ _ _ hc.pos_nonneg]
    simp only [l, encodeLog, length_logEntries]
  · intro h
    exact hloop.2 (by omega)

/-! ## The replay loop -/

/-- The state with another log. -/
def Core.withLog (c : Core) (f : ℤ → SCR) : Core :=
  { c with session := { c.session with recordedScrs := f } }

theorem bidirectionalTransform_replay (c : Core) (hc : Replaying c) (i : ℕ) (fileSize : ℤ)
    (hi : i < maxScrs) (e : Entry) (he : e.WellFormed)
    (hfit : c.session.bufferPos + e.encode.length ≤ maxFileSize)
    (hfile : c.session.bufferPos + e.encode.length ≤ fileSize)
    (hat : slice c.session.buffer c.session.bufferPos.toNat e.encode.length = e.encode) :
    ∃ scr', scr'.Holds e ∧ (bidirectionalTransform i fileSize).run c =
      .ok 1 ((c.advance e.encode.length).withLog
        (Function.update c.session.recordedScrs i scr')) := by
  obtain ⟨scr', hscr, hholds⟩ := consumes_transformSCR (c.session.behindArgs i) e he
    (c.session.recordedScrs i)
  refine ⟨scr', hholds, ?_⟩
  unfold bidirectionalTransform
  rw [EStateM.run_bind, EStateM.run_get]
  simp only
  rw [if_neg (by omega), if_neg (by omega), if_pos hi, run_bind_of_ok (hscr c hc hfit hat)]
  simp only [EStateM.run_bind, EStateM.run_modify, EStateM.run_pure]
  rfl

/-- **The replay loop** installs the entries whose bytes it finds at the cursor. -/
theorem transformLoop_replay (es : List Entry) (hes : ∀ e ∈ es, e.WellFormed) (i : ℕ)
    (c : Core) (hc : Replaying c) (fileSize : ℤ) (hi : i + es.length ≤ maxScrs)
    (hfit : c.session.bufferPos + (es.flatMap Entry.encode).length ≤ maxFileSize)
    (hfile : c.session.bufferPos + (es.flatMap Entry.encode).length ≤ fileSize)
    (hat : slice c.session.buffer c.session.bufferPos.toNat (es.flatMap Entry.encode).length
      = es.flatMap Entry.encode) :
    ∃ f : ℤ → SCR, (transformLoop fileSize es.length i).run c =
        .ok true ((c.advance (es.flatMap Entry.encode).length).withLog f) ∧
      (∀ k (hk : k < es.length), (f (i + k : ℕ)).Holds es[k]) ∧
      (∀ j : ℤ, j < i ∨ i + es.length ≤ j → f j = c.session.recordedScrs j) := by
  induction es generalizing i c with
  | nil =>
    refine ⟨c.session.recordedScrs, ?_, fun k hk => absurd hk (by simp), fun _ _ => rfl⟩
    simp only [List.length_nil, transformLoop, EStateM.run_pure, List.flatMap_nil, advance_zero]
    rfl
  | cons e es ih =>
    rw [List.flatMap_cons, List.length_append] at hfit hfile hat
    rw [slice_add] at hat
    obtain ⟨hat1, hat2⟩ := List.append_inj hat (length_slice _ _ _)
    rw [List.length_cons] at hi
    have hpos := hc.pos_nonneg
    obtain ⟨scr', hholds, hrun⟩ := bidirectionalTransform_replay c hc i fileSize (by omega) e
      (hes e List.mem_cons_self) (by omega) (by omega) hat1
    have hpos' : (c.session.bufferPos + e.encode.length).toNat
        = c.session.bufferPos.toNat + e.encode.length := by omega
    -- one record further on
    obtain ⟨f, hloop, hnew, hold⟩ := ih (fun e' he' => hes e' (List.mem_cons_of_mem _ he'))
      (i + 1) ((c.advance e.encode.length).withLog
        (Function.update c.session.recordedScrs i scr'))
      ⟨hc.replay, hc.record, (hc.advance _).pos_nonneg⟩ (by omega)
      (by simp only [Core.withLog, Core.advance]; omega)
      (by simp only [Core.withLog, Core.advance]; omega)
      (by simp only [Core.withLog, Core.advance]; rw [hpos']; exact hat2)
    refine ⟨f, ?_, ?_, ?_⟩
    · rw [List.length_cons, transformLoop, run_bind_of_ok hrun, if_neg (by decide),
        if_neg (by decide), hloop, List.flatMap_cons, List.length_append,
        ← advance_advance c _ _ hpos]
      rfl
    · intro k hk
      cases k with
      | zero =>
        rw [Nat.add_zero, hold i (Or.inl (by omega)), List.getElem_cons_zero]
        simp only [Core.withLog, Function.update_self]
        exact hholds
      | succ k =>
        rw [List.length_cons] at hk
        rw [show i + (k + 1) = i + 1 + k by omega, List.getElem_cons_succ]
        exact hnew k (by omega)
    · intro j hj
      rw [List.length_cons] at hj
      rw [hold j (by omega)]
      exact Function.update_of_ne (by omega) _ _

/-- The state with another record count. -/
def Core.withIdx (c : Core) (n : ℤ) : Core :=
  { c with session := { c.session with scrsIdx := n } }

theorem transferIdx_replay (c : Core) (hc : Replaying c) (x : Word)
    (hfit : c.session.bufferPos + 4 ≤ maxFileSize)
    (hat : slice c.session.buffer c.session.bufferPos.toNat 4 = toBytes x) :
    transferIdx.run c = .ok () ((c.advance 4).withIdx x.toInt) := by
  have hmove := consumes_memmove (putField 0 (BitVec.ofInt 32 c.session.scrsIdx) (fun _ => 0)) 4 4
    (toBytes x) (by decide) (by decide) (by simp) c hc (by simpa using hfit)
    (by simpa using hat)
  have hval : field 32 0 (overlay
      (putField 0 (BitVec.ofInt 32 c.session.scrsIdx) (fun _ => 0)) 0 (toBytes x)) = x :=
    field_putField_same (by decide) 0 x _
  have hrep := hc.replay
  unfold transferIdx
  rw [EStateM.run_bind, EStateM.run_get]
  simp only
  rw [run_bind_of_ok hmove, EStateM.run_modify]
  simp only [Core.advance, Core.withIdx, hval, hrep, if_true, length_toBytes]

/-- **Decoding a session file** that begins with the bytes of `es` installs `es`
and consumes exactly those bytes. -/
theorem unpackScrs_replay (es : List Entry) (hes : ∀ e ∈ es, e.WellFormed)
    (hlen : es.length ≤ maxScrs) (c : Core) (hc : Replaying c) (hpos : c.session.bufferPos = 0)
    (fileSize : ℤ) (hfit : (encodeLog es).length ≤ maxFileSize)
    (hfile : (encodeLog es).length ≤ fileSize)
    (hat : slice c.session.buffer 0 (encodeLog es).length = encodeLog es) :
    ∃ f : ℤ → SCR, (unpackScrs fileSize).run c =
        .ok true (((c.advance (encodeLog es).length).withLog f).withIdx 0) ∧
      (∀ k (hk : k < es.length), (f k).Holds es[k]) ∧
      (∀ j : ℤ, j < 0 ∨ es.length ≤ j → f j = c.session.recordedScrs j) := by
  have hsum := length_encodeLog es
  rw [hsum, slice_add, encodeLog] at hat
  obtain ⟨hat1, hat2⟩ := List.append_inj hat (by simp)
  have hcount := transferIdx_replay c hc (BitVec.ofNat 32 es.length)
    (by rw [hpos]; simp [maxFileSize]) (by rw [hpos]; exact hat1)
  rw [toInt_ofNat_of_lt (lt_of_le_of_lt hlen (by decide))] at hcount
  -- the state in which the loop starts
  have hcur : ((c.advance 4).withIdx es.length).session.bufferPos = 4 :=
    bufferPos_advance_start hpos 4
  obtain ⟨f, hloop, hnew, hold⟩ := transformLoop_replay es hes 0
    ((c.advance 4).withIdx es.length) ⟨hc.replay, hc.record, by rw [hcur]; decide⟩ fileSize
    (by omega) (by rw [hcur]; omega) (by rw [hcur]; omega) (by rw [hcur]; exact hat2)
  refine ⟨f, ?_, fun k hk => by have := hnew k hk; rwa [Nat.zero_add] at this, ?_⟩
  · unfold unpackScrs
    rw [run_bind_of_ok hcount, EStateM.run_bind, EStateM.run_get]
    simp only
    rw [show ((c.advance 4).withIdx es.length).session.scrsIdx = (es.length : ℤ) from rfl,
      Int.toNat_natCast, run_bind_of_ok hloop, if_pos rfl, EStateM.run_bind, EStateM.run_modify]
    simp only [EStateM.run_pure]
    rw [hsum, ← advance_advance c _ _ hc.pos_nonneg]
    rfl
  · intro j hj
    rw [hold j (by omega)]
    rfl

/-! ## Session files as byte strings -/

/-- The bytes of one argument: a tag, and after it the bytes that the tag calls for. -/
inductive ValueShape : List Byte → Prop
  | int (x : List Byte) (hx : x.length = 4) : ValueShape (intType :: x)
  | uint (x : List Byte) (hx : x.length = 4) : ValueShape (uintType :: x)
  | raw (size data : List Byte) (hsize : size.length = 4) (hdata : leValue size = data.length)
      (hle : data.length ≤ maxRawSize) : ValueShape (byteType :: (size ++ data))
  | stat (x : List Byte) (hx : x.length = 16) : ValueShape (statType :: x)

/-- The bytes of one record: a syscall number, an argument count, the arguments. -/
inductive RecordShape : List Byte → Prop
  | mk (syscall argc : Byte) (args : List (List Byte)) (hsyscall : syscall ≠ unitializedScr)
      (hargc : argc.toNat = args.length) (hle : args.length ≤ maxArgc)
      (hargs : ∀ l ∈ args, ValueShape l) : RecordShape (syscall :: argc :: args.flatten)

/-- A session file: the number of records in four bytes, the records, and
whatever an earlier and longer session left behind them. -/
inductive FileShape : List Byte → Prop
  | mk (count : List Byte) (records : List (List Byte)) (rest : List Byte)
      (hcount : count.length = 4) (hnum : leValue count = records.length)
      (hle : records.length ≤ maxScrs) (hrecords : ∀ l ∈ records, RecordShape l)
      (hfit : (count ++ records.flatten).length ≤ maxFileSize) :
      FileShape (count ++ records.flatten ++ rest)

/-- Four bytes are the bytes of the word they spell. -/
theorem exists_toBytes_eq {w : ℕ} (hw : 8 * (w / 8) = w) (l : List Byte)
    (hl : l.length = w / 8) : ∃ x : BitVec w, toBytes x = l :=
  ⟨fromBytes w l, toBytes_fromBytes hw l hl⟩

theorem toBytes_ofNat_leValue (l : List Byte) (hl : l.length = 4) :
    toBytes (BitVec.ofNat 32 (leValue l)) = l :=
  toBytes_fromBytes (w := 32) (by decide) l hl

theorem ValueShape.exists_value {l : List Byte} (h : ValueShape l) :
    ∃ v : FieldValue, v.WellFormed ∧ v.encode = l := by
  have h32 : 8 * (32 / 8) = 32 := by decide
  have h16 : 8 * (16 / 8) = 16 := by decide
  cases h with
  | int x hx =>
    obtain ⟨y, rfl⟩ := exists_toBytes_eq h32 x hx
    exact ⟨.int y, trivial, rfl⟩
  | uint x hx =>
    obtain ⟨y, rfl⟩ := exists_toBytes_eq h32 x hx
    exact ⟨.uint y, trivial, rfl⟩
  | raw size data hsize hdata hle =>
    refine ⟨.raw data, hle, ?_⟩
    rw [FieldValue.encode, ← hdata, toBytes_ofNat_leValue size hsize]
  | stat x hx =>
    -- cut the sixteen bytes into the five fields
    obtain ⟨a, b, rfl, ha, hb⟩ : ∃ a b, x = a ++ b ∧ a.length = 2 ∧ b.length = 14 :=
      ⟨x.take 2, x.drop 2, (List.take_append_drop 2 x).symm, by simp [hx], by simp [hx]⟩
    obtain ⟨c, d, rfl, hc, hd⟩ : ∃ c d, b = c ++ d ∧ c.length = 4 ∧ d.length = 10 :=
      ⟨b.take 4, b.drop 4, (List.take_append_drop 4 b).symm, by simp [hb], by simp [hb]⟩
    obtain ⟨e, g, rfl, he, hg⟩ : ∃ e g, d = e ++ g ∧ e.length = 4 ∧ g.length = 6 :=
      ⟨d.take 4, d.drop 4, (List.take_append_drop 4 d).symm, by simp [hd], by simp [hd]⟩
    obtain ⟨p, q, rfl, hp, hq⟩ : ∃ p q, g = p ++ q ∧ p.length = 2 ∧ q.length = 4 :=
      ⟨g.take 2, g.drop 2, (List.take_append_drop 2 g).symm, by simp [hg], by simp [hg]⟩
    obtain ⟨ty, rfl⟩ := exists_toBytes_eq h16 a ha
    obtain ⟨dev, rfl⟩ := exists_toBytes_eq h32 c hc
    obtain ⟨ino, rfl⟩ := exists_toBytes_eq h32 e he
    obtain ⟨nlink, rfl⟩ := exists_toBytes_eq h16 p hp
    obtain ⟨size, rfl⟩ := exists_toBytes_eq h32 q hq
    exact ⟨.stat ⟨ty, dev, ino, nlink, size⟩, trivial, rfl⟩

/-- Pieces that each encode something make up the encoding of a list. -/
theorem exists_flatMap_eq_flatten {α : Type} {P : α → Prop} {enc : α → List Byte}
    (ls : List (List Byte)) (h : ∀ l ∈ ls, ∃ a, P a ∧ enc a = l) :
    ∃ as : List α, as.length = ls.length ∧ (∀ a ∈ as, P a) ∧ as.flatMap enc = ls.flatten := by
  induction ls with
  | nil => exact ⟨[], rfl, fun a ha => absurd ha (by simp), rfl⟩
  | cons l ls ih =>
    obtain ⟨a, ha, rfl⟩ := h l List.mem_cons_self
    obtain ⟨as, hlen, hP, heq⟩ := ih (fun l' hl' => h l' (List.mem_cons_of_mem _ hl'))
    refine ⟨a :: as, by simp [hlen], ?_, by rw [List.flatMap_cons, List.flatten_cons, heq]⟩
    intro b hb
    rcases List.mem_cons.mp hb with rfl | hb
    · exact ha
    · exact hP b hb

theorem RecordShape.exists_entry {l : List Byte} (h : RecordShape l) :
    ∃ e : Entry, e.WellFormed ∧ e.encode = l := by
  obtain ⟨syscall, argc, args, hsyscall, hargc, hle, hargs⟩ := h
  obtain ⟨vs, hlen, hwf, heq⟩ :=
    exists_flatMap_eq_flatten args (fun l hl => (hargs l hl).exists_value)
  refine ⟨⟨syscall, vs⟩, ⟨hsyscall, by rw [hlen]; exact hle, hwf⟩, ?_⟩
  simp only [Entry.encode, heq, hlen, ← hargc, BitVec.ofNat_toNat, BitVec.setWidth_eq]

/-- A session file is the encoding of a log, followed by anything. -/
theorem FileShape.exists_log {file : List Byte} (h : FileShape file) :
    ∃ (es : List Entry) (rest : List Byte), es.length ≤ maxScrs ∧ (∀ e ∈ es, e.WellFormed) ∧
      (encodeLog es).length ≤ maxFileSize ∧ file = encodeLog es ++ rest := by
  obtain ⟨count, records, rest, hcount, hnum, hle, hrecords, hfit⟩ := h
  obtain ⟨es, hlen, hwf, heq⟩ :=
    exists_flatMap_eq_flatten records (fun l hl => (hrecords l hl).exists_entry)
  have hlog : encodeLog es = count ++ records.flatten := by
    rw [encodeLog, hlen, ← hnum, toBytes_ofNat_leValue count hcount, heq]
  exact ⟨es, rest, by rw [hlen]; exact hle, hwf, by rw [hlog]; exact hfit, by rw [hlog]⟩

/-! ## The round trip -/

/-- Two records that are equal on every meaningful field: the syscall number, the
argument count, and type and content of each counted argument. -/
structure SCR.Agrees (scr scr' : SCR) : Prop where
  syscall_eq : scr.syscall = scr'.syscall
  argc_eq : scr.argc = scr'.argc
  type_eq : ∀ i : Fin maxArgc, (i : ℕ) < scr.argc.toNat → (scr.args i).type = (scr'.args i).type
  value_eq : ∀ i : Fin maxArgc, (i : ℕ) < scr.argc.toNat →
    (scr.args i).value = (scr'.args i).value

/-- Records that hold the same entry agree. -/
theorem SCR.Holds.agrees {scr scr' : SCR} {e : Entry} (h : scr.Holds e) (h' : scr'.Holds e) :
    scr.Agrees scr' := by
  have hargc : scr.argc = scr'.argc := by rw [h.argc_eq, h'.argc_eq]
  have hentry : scr.entry = scr'.entry := by rw [h.entry_eq, h'.entry_eq]
  have hvals : scr.valuesFrom scr.argc.toNat 0 = scr'.valuesFrom scr.argc.toNat 0 := by
    have := congrArg Entry.values hentry
    rwa [SCR.entry, SCR.entry, ← hargc] at this
  have hvalue : ∀ i : Fin maxArgc, (i : ℕ) < scr.argc.toNat →
      (scr.args i).value = (scr'.args i).value := fun i hi =>
    value_eq_of_valuesFrom_eq hvals i (Nat.zero_le _) (by omega)
  refine ⟨congrArg Entry.syscall hentry, hargc, fun i hi => ?_, hvalue⟩
  rw [← tag_value, ← tag_value, hvalue i hi]

/-- A state that `sys_record_stop` encodes: record mode and `n` well-formed records. -/
structure EncoderInput (c : Core) (n : ℕ) : Prop where
  record : c.session.recordSyscalls = 1
  replay : c.session.replaySyscalls ≠ 1
  idx : c.session.scrsIdx = n
  le : n ≤ maxScrs
  wf : ∀ k < n, (c.session.recordedScrs (k : ℕ)).WellFormed

/-- A state in which `sys_replay_start` decodes: replay mode, the cursor at `0`,
and every record freshly reset. -/
structure DecoderInput (c : Core) : Prop where
  replay : c.session.replaySyscalls = 1
  record : c.session.recordSyscalls ≠ 1
  pos : c.session.bufferPos = 0
  fresh : ∀ k : ℕ, k < maxScrs → c.session.recordedScrs k = createSCR unitializedScr

theorem DecoderInput.replaying {c : Core} (h : DecoderInput c) : Replaying c :=
  ⟨h.replay, h.record, h.pos.ge⟩

/-- What `n` decoded records leave in the log: the entries `es` and, behind them,
records that are still reset. -/
structure Decoded (c : Core) (es : List Entry) : Prop where
  holds : ∀ k (hk : k < es.length), (c.session.recordedScrs (k : ℕ)).Holds es[k]
  fresh : ∀ k : ℕ, es.length ≤ k → k < maxScrs →
    c.session.recordedScrs k = createSCR unitializedScr

/-- Decoding from freshly reset records. -/
theorem DecoderInput.decode {c : Core} (h : DecoderInput c) (es : List Entry)
    (hes : ∀ e ∈ es, e.WellFormed) (hlen : es.length ≤ maxScrs) (fileSize : ℤ)
    (hfit : (encodeLog es).length ≤ maxFileSize) (hfile : (encodeLog es).length ≤ fileSize)
    (hat : slice c.session.buffer 0 (encodeLog es).length = encodeLog es) :
    ∃ c', (unpackScrs fileSize).run c = .ok true c' ∧
      c'.session.bufferPos = (encodeLog es).length ∧ Decoded c' es := by
  obtain ⟨f, hrun, hnew, hold⟩ :=
    unpackScrs_replay es hes hlen c h.replaying h.pos fileSize hfit hfile hat
  refine ⟨_, hrun, ?_, hnew, ?_⟩
  · simp only [Core.withIdx, Core.withLog, Core.advance, h.pos, Int.zero_add]
  · intro k hlo hhi
    rw [← h.fresh k hhi]
    exact hold k (Or.inr (by omega))

theorem getElem_logEntries (f : ℤ → SCR) (n i k : ℕ) (hk : k < (logEntries f n i).length) :
    (logEntries f n i)[k] = (f (i + k : ℕ)).entry := by
  induction n generalizing i k with
  | zero => simp [logEntries] at hk
  | succ n ih =>
    cases k with
    | zero => simp only [logEntries, List.getElem_cons_zero, Nat.add_zero]
    | succ k =>
      simp only [logEntries, List.getElem_cons_succ]
      rw [length_logEntries] at hk
      rw [ih (i + 1) k (by rw [length_logEntries]; omega), show i + 1 + k = i + (k + 1) by omega]

theorem logEntries_wf (f : ℤ → SCR) (n : ℕ) (hwf : ∀ k < n, (f (k : ℕ)).WellFormed) :
    ∀ e ∈ logEntries f n 0, e.WellFormed := by
  intro e he
  obtain ⟨k, hk, rfl⟩ := List.getElem_of_mem he
  rw [getElem_logEntries, Nat.zero_add]
  rw [length_logEntries] at hk
  exact (hwf k hk).entry_wf

/-- A log that holds `es` has the entries `es`. -/
theorem logEntries_eq (f : ℤ → SCR) (es : List Entry)
    (h : ∀ k (hk : k < es.length), (f (k : ℕ)).Holds es[k]) : logEntries f es.length 0 = es := by
  apply List.ext_getElem (by simp)
  intro k h1 h2
  rw [getElem_logEntries, Nat.zero_add, (h k h2).entry_eq]

theorem EncoderInput.encode {c : Core} {n : ℕ} (h : EncoderInput c n)
    (hfit : (encodeLog (logEntries c.session.recordedScrs n 0)).length ≤ maxFileSize) :
    ∃ c', packScrs.run c = .ok true c' ∧
      c'.session.bufferPos = (encodeLog (logEntries c.session.recordedScrs n 0)).length ∧
      slice c'.session.buffer 0 (encodeLog (logEntries c.session.recordedScrs n 0)).length
        = encodeLog (logEntries c.session.recordedScrs n 0) := by
  refine ⟨_, (packScrs_record c h.record h.replay n h.idx h.le h.wf).1 hfit, ?_, ?_⟩
  · simp only [Core.write, Core.rewind, Int.zero_add]
  · exact slice_overlay_same _ _ _

/-- The count of a file that begins with a log. -/
theorem leValue_take_encodeLog {es : List Entry} (hlen : es.length ≤ maxScrs) (rest : List Byte) :
    leValue ((encodeLog es ++ rest).take 4) = es.length := by
  rw [encodeLog, List.append_assoc, List.take_left' (by simp), toBytes, leValue_leDigits,
    BitVec.toNat_ofNat]
  simp only [maxScrs] at hlen
  omega

/-- **The session codec is a round trip.**  Decoding what was encoded restores the
log on every meaningful field and consumes exactly the bytes produced; encoding what
was decoded from a well-formed session file reproduces the bytes consumed. -/
theorem session_codec_round_trip :
    (∀ (enc : Core) (n : ℕ), EncoderInput enc n →
      (encodeLog (logEntries enc.session.recordedScrs n 0)).length ≤ maxFileSize →
      ∃ enc', packScrs.run enc = .ok true enc' ∧
        ∀ (dec : Core) (fileSize : ℤ), DecoderInput dec → enc'.session.bufferPos ≤ fileSize →
          (∀ k : ℕ, (k : ℤ) < enc'.session.bufferPos →
            dec.session.buffer k = enc'.session.buffer k) →
          ∃ dec', (unpackScrs fileSize).run dec = .ok true dec' ∧
            dec'.session.bufferPos = enc'.session.bufferPos ∧
            (∀ k : ℕ, k < n →
              (dec'.session.recordedScrs k).Agrees (enc.session.recordedScrs k)) ∧
            (∀ k : ℕ, n ≤ k → k < maxScrs →
              dec'.session.recordedScrs k = createSCR unitializedScr)) ∧
    (∀ (file : List Byte) (dec : Core), FileShape file → DecoderInput dec →
      slice dec.session.buffer 0 (file.take maxFileSize).length = file.take maxFileSize →
      ∃ dec', (unpackScrs (file.take maxFileSize).length).run dec = .ok true dec' ∧
        ∀ enc : Core, enc.session.recordSyscalls = 1 → enc.session.replaySyscalls ≠ 1 →
          enc.session.scrsIdx = leValue (file.take 4) →
          enc.session.recordedScrs = dec'.session.recordedScrs →
          ∃ enc', packScrs.run enc = .ok true enc' ∧
            enc'.session.bufferPos = dec'.session.bufferPos ∧
            slice enc'.session.buffer 0 dec'.session.bufferPos.toNat
              = file.take dec'.session.bufferPos.toNat) := by
  constructor
  · intro enc n henc hfit
    obtain ⟨enc', hpack, hpos, hbytes⟩ := henc.encode hfit
    refine ⟨enc', hpack, ?_⟩
    intro dec fileSize hdec hfile hbuf
    have hat : slice dec.session.buffer 0
        (encodeLog (logEntries enc.session.recordedScrs n 0)).length
        = encodeLog (logEntries enc.session.recordedScrs n 0) := by
      rw [← hbytes, length_slice]
      exact slice_congr _ _ (fun k hk => hbuf _ (by rw [hpos]; omega))
    obtain ⟨dec', hunpack, hpos', hdecoded⟩ := hdec.decode _
      (logEntries_wf enc.session.recordedScrs n henc.wf) (by rw [length_logEntries]; exact henc.le)
      fileSize hfit (by omega) hat
    refine ⟨dec', hunpack, by rw [hpos, hpos'], ?_, ?_⟩
    · intro k hk
      have hholds := hdecoded.holds k (by rw [length_logEntries]; exact hk)
      rw [getElem_logEntries, Nat.zero_add] at hholds
      exact hholds.agrees (henc.wf k hk).holds
    · intro k hlo hhi
      exact hdecoded.fresh k (by rw [length_logEntries]; exact hlo) hhi
  · intro file dec hshape hdec hbuf
    obtain ⟨es, rest, hlen, hwf, hfit, rfl⟩ := hshape.exists_log
    have htake : (encodeLog es ++ rest).take maxFileSize
        = encodeLog es ++ rest.take (maxFileSize - (encodeLog es).length) := by
      rw [List.take_append, List.take_of_length_le hfit]
    rw [htake, List.length_append, slice_add] at hbuf
    obtain ⟨dec', hunpack, hpos, hdecoded⟩ := hdec.decode es hwf hlen
      ((encodeLog es ++ rest).take maxFileSize).length hfit
      (by rw [htake, List.length_append]; omega) (List.append_inj hbuf (length_slice _ _ _)).1
    refine ⟨dec', hunpack, ?_⟩
    intro enc hrec hrep hidx hlog
    have hes : logEntries enc.session.recordedScrs es.length 0 = es := by
      rw [hlog]
      exact logEntries_eq _ es hdecoded.holds
    have henc : EncoderInput enc es.length := by
      refine ⟨hrec, hrep, by rw [hidx, leValue_take_encodeLog hlen], hlen, fun k hk => ?_⟩
      rw [hlog]
      exact (hdecoded.holds k hk).wellFormed (hwf _ (List.getElem_mem hk))
    obtain ⟨enc', hpack, hpos', hbytes⟩ := henc.encode (by rw [hes]; exact hfit)
    rw [hes] at hpos' hbytes
    refine ⟨enc', hpack, by rw [hpos, hpos'], ?_⟩
    rw [hpos, Int.toNat_natCast, hbytes, List.take_left]

/-- A record with the given arguments. -/
def recordOf (syscall : Byte) (args : List Arg) : SCR :=
  { createSCR syscall with
    argc := BitVec.ofNat 8 args.length
    args := fun i => args.getD i { type := noneType, val := fun _ => 0 } }

/-- An argument with a number. -/
def intArg (x : Word) : Arg := { type := intType, val := putField 0 x (fun _ => 0) }

/-- A `getpid` that returned `7`, a `read` of the two bytes `hi` and an `fstat`, as the handlers
record them. -/
def fewRecords : ℤ → SCR
  | 0 => recordOf SYS.getpid [intArg 7]
  | 1 => recordOf SYS.read [intArg 3, intArg 2, intArg 2,
      { type := byteType, val := overlay (putField 0 (2 : Word) (fun _ => 0)) 4 [104, 105] }]
  | 2 => recordOf SYS.fstat [intArg 3, intArg 0,
      { type := statType, val := statVal ⟨2, 1, 7, 1, 5⟩ }]
  | _ => createSCR unitializedScr

/-- A recording session with these records. -/
def fewSession : Session :=
  { Session.boot with recordSyscalls := 1, recordedScrs := fewRecords, scrsIdx := 3 }

/-- The bytes of these records. -/
def fewBytes : List (List Byte) :=
  [[11, 1, 1, 7, 0, 0, 0],
    [5, 4, 1, 3, 0, 0, 0, 1, 2, 0, 0, 0, 1, 2, 0, 0, 0, 3, 2, 0, 0, 0, 104, 105],
    [8, 3, 1, 3, 0, 0, 0, 1, 0, 0, 0, 0, 5, 2, 0, 1, 0, 0, 0, 7, 0, 0, 0, 1, 0, 5, 0, 0, 0]]

theorem fewRecords_wf (k : ℕ) (hk : k < 3) : (fewRecords k).WellFormed := by
  match k, hk with
  | 0, _ => exact ⟨by decide, by decide, by decide⟩
  | 1, _ => exact ⟨by decide, by decide, by decide⟩
  | 2, _ => exact ⟨by decide, by decide, by decide⟩

theorem fewBytes_shape : FileShape ([3, 0, 0, 0] ++ fewBytes.flatten ++ []) := by
  have hint : ∀ a b c d, ValueShape [1, a, b, c, d] := fun a b c d => .int [a, b, c, d] rfl
  refine .mk [3, 0, 0, 0] fewBytes [] rfl (by decide) (by decide) ?_ (by decide)
  intro l hl
  simp only [fewBytes, List.mem_cons, List.not_mem_nil, or_false] at hl
  rcases hl with rfl | rfl | rfl
  · refine .mk 11 1 [[1, 7, 0, 0, 0]] (by decide) (by decide) (by decide) ?_
    exact List.forall_mem_singleton.mpr (hint ..)
  · refine .mk 5 4 [[1, 3, 0, 0, 0], [1, 2, 0, 0, 0], [1, 2, 0, 0, 0], [3, 2, 0, 0, 0, 104, 105]]
      (by decide) (by decide) (by decide) ?_
    simp only [List.forall_mem_cons, List.not_mem_nil, false_imp_iff, implies_true, and_true]
    exact ⟨hint .., hint .., hint .., .raw [2, 0, 0, 0] [104, 105] rfl (by decide) (by decide)⟩
  · refine .mk 8 3 [[1, 3, 0, 0, 0], [1, 0, 0, 0, 0],
      [5, 2, 0, 1, 0, 0, 0, 7, 0, 0, 0, 1, 0, 5, 0, 0, 0]] (by decide) (by decide) (by decide) ?_
    simp only [List.forall_mem_cons, List.not_mem_nil, false_imp_iff, implies_true, and_true]
    exact ⟨hint .., hint .., .stat [2, 0, 1, 0, 0, 0, 7, 0, 0, 0, 1, 0, 5, 0, 0, 0] rfl⟩

theorem session_codec_round_trip_three_records :
    (∃ enc' dec', packScrs.run ⟨fewSession, false⟩ = .ok true enc' ∧
      (unpackScrs enc'.session.bufferPos).run
        ⟨{ Session.boot with replaySyscalls := 1, buffer := enc'.session.buffer }, false⟩
          = .ok true dec' ∧
      dec'.session.bufferPos = enc'.session.bufferPos ∧
      ∀ k : ℕ, k < 3 → (dec'.session.recordedScrs k).Agrees (fewRecords k)) ∧
    (∃ dec', (unpackScrs 64).run
        ⟨{ Session.boot with
          replaySyscalls := 1
          buffer := overlay (fun _ => 0) 0 ([3, 0, 0, 0] ++ fewBytes.flatten) }, false⟩
          = .ok true dec' ∧
      ∃ enc', packScrs.run ⟨{ fewSession with
          recordedScrs := dec'.session.recordedScrs }, false⟩ = .ok true enc' ∧
        slice enc'.session.buffer 0 dec'.session.bufferPos.toNat
          = ([3, 0, 0, 0] ++ fewBytes.flatten).take dec'.session.bufferPos.toNat) := by
  have hidle : (0 : Word) ≠ 1 := by decide
  constructor
  · have henc : EncoderInput ⟨fewSession, false⟩ 3 :=
      ⟨rfl, by decide, rfl, by decide, fewRecords_wf⟩
    obtain ⟨enc', hpack, hdecode⟩ :=
      session_codec_round_trip.1 ⟨fewSession, false⟩ 3 henc (by decide)
    obtain ⟨dec', hunpack, hpos, hagree, -⟩ := hdecode
      ⟨{ Session.boot with replaySyscalls := 1, buffer := enc'.session.buffer }, false⟩
      enc'.session.bufferPos ⟨rfl, hidle, rfl, fun _ _ => rfl⟩ le_rfl (fun _ _ => rfl)
    exact ⟨enc', dec', hpack, hunpack, hpos, hagree⟩
  · have hfile := fewBytes_shape
    rw [List.append_nil] at hfile
    obtain ⟨dec', hunpack, hencode⟩ := session_codec_round_trip.2 _
      ⟨{ Session.boot with
        replaySyscalls := 1
        buffer := overlay (fun _ => 0) 0 ([3, 0, 0, 0] ++ fewBytes.flatten) }, false⟩
      hfile ⟨rfl, by decide, rfl, fun _ _ => rfl⟩ (by decide)
    obtain ⟨enc', hpack, -, hbytes⟩ := hencode
      ⟨{ fewSession with recordedScrs := dec'.session.recordedScrs }, false⟩
      rfl hidle rfl rfl
    exact ⟨dec', hunpack, enc', hpack, hbytes⟩

end V3
