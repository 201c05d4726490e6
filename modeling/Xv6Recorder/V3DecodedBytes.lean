/-
# What a decoder that returned has read

The converse of `Readable.decodes`.  When the decoder returns, in replay mode, the bytes
that it took were readable, and they can be read off the records that it left: a value
stands for its bytes, and where the decoder stopped, a null or unknown type or an
unused record shows it.  So two runs that leave the same log have read the same bytes.
-/
import Xv6Recorder.V3Decoder

open Bytes StateError Xv6

namespace V3

/-! ## Moves -/

/-- The bytes `l` are at the cursor. -/
def Core.At (c : Core) (l : List Byte) : Prop :=
  slice c.session.buffer c.session.bufferPos.toNat l.length = l

theorem Core.At.append {c : Core} {l₁ l₂ : List Byte} (hpos : 0 ≤ c.session.bufferPos)
    (h₁ : c.At l₁) (h₂ : (c.advance l₁.length).At l₂) : c.At (l₁ ++ l₂) := by
  have hcur : (c.advance l₁.length).session.bufferPos.toNat
      = c.session.bufferPos.toNat + l₁.length := by
    simp only [Core.advance]
    omega
  rw [Core.At, hcur] at h₂
  rw [Core.At, List.length_append, slice_add]
  exact congrArg₂ (· ++ ·) h₁ h₂

/-- Whenever `x` returns in replay mode, it has taken bytes that its result is related
to. -/
def Yields {α : Type} (x : RecM α) (R : α → List Byte → Prop) : Prop :=
  ∀ c a c', Replaying c → x.run c = .ok a c' → ∃ l, R a l ∧ c.At l ∧ c' = c.advance l.length

section

variable {α β : Type}

theorem Yields.pure (a : α) : Yields (Pure.pure a : RecM α) fun b l => b = a ∧ l = [] := by
  intro c b c' _ hrun
  injection hrun with hb hc'
  exact ⟨[], ⟨hb.symm, rfl⟩, rfl, by rw [List.length_nil, advance_zero, hc']⟩

theorem Yields.bind {x : RecM α} {f : α → RecM β} {R : α → List Byte → Prop}
    {S : α → β → List Byte → Prop} (hx : Yields x R) (hf : ∀ a, Yields (f a) (S a)) :
    Yields (x >>= f) fun b l => ∃ a l₁ l₂, R a l₁ ∧ S a b l₂ ∧ l = l₁ ++ l₂ := by
  intro c b c'' hc hrun
  obtain ⟨a, c', hrun, hrest⟩ := run_bind_eq_ok.mp hrun
  obtain ⟨l₁, hR, hat₁, rfl⟩ := hx c a c' hc hrun
  obtain ⟨l₂, hS, hat₂, rfl⟩ := hf a _ b c'' (hc.advance _) hrest
  refine ⟨l₁ ++ l₂, ⟨a, l₁, l₂, hR, hS, rfl⟩, hat₁.append hc.pos_nonneg hat₂, ?_⟩
  rw [advance_advance c _ _ hc.pos_nonneg, List.length_append]

theorem Yields.imp {x : RecM α} {R S : α → List Byte → Prop} (h : Yields x R)
    (hRS : ∀ a l, R a l → S a l) : Yields x S := by
  intro c a c' hc hrun
  obtain ⟨l, hR, hrest⟩ := h c a c' hc hrun
  exact ⟨l, hRS a l hR, hrest⟩

end

theorem yields_memmove (obj : Memory) {cap : ℕ} (hcap : cap < 2 ^ 31) (size : Word) :
    Yields (memmoveAndIncrement obj cap size) fun obj' l =>
      l.length = size.toNat ∧ size.toNat ≤ cap ∧ obj' = overlay obj 0 l := by
  intro c obj' c' hc hrun
  have hok : 0 < size.toNat → c.session.bufferPos + size.toNat ≤ maxFileSize ∧
      size.toNat ≤ cap := by
    intro hlt
    by_contra hout
    rw [EStateM.run, memmoveAndIncrement] at hrun
    simp only [hc.replay, true_or, true_and] at hrun
    rw [if_pos ⟨hlt, fun h => hout h.2⟩] at hrun
    cases hrun
  have hint : size.toInt = size.toNat := BitVec.toInt_eq_toNat_of_lt (by omega)
  rw [memmove_replaying hc obj hint hok] at hrun
  injection hrun with hobj hc'
  refine ⟨slice c.session.buffer c.session.bufferPos.toNat size.toNat,
    ⟨length_slice _ _ _, by omega, hobj.symm⟩, ?_, ?_⟩
  · rw [Core.At, length_slice]
  · rw [length_slice, hc']

theorem yields_transferByte (b : Byte) : Yields (transferByte b) fun t l => l = [t] := by
  refine ((yields_memmove (fun _ => b) (by decide) 1).bind fun obj => .pure (obj 0)).imp ?_
  rintro t l ⟨obj, l₁, l₂, ⟨hlen, -, rfl⟩, ⟨rfl, rfl⟩, rfl⟩
  obtain ⟨t, rfl⟩ := List.length_eq_one_iff.mp hlen
  rfl

theorem yields_transferVal (off cap : ℕ) (hcap : cap < 2 ^ 31) (size : Word) (v : Val) :
    Yields (transferVal off cap size v) fun v' l =>
      l.length = size.toNat ∧ size.toNat ≤ cap ∧ v' = overlay v off l := by
  refine ((yields_memmove _ hcap size).bind fun obj => .pure _).imp ?_
  rintro v' l ⟨obj, l₁, l₂, ⟨hlen, hle, rfl⟩, ⟨rfl, rfl⟩, rfl⟩
  rw [List.append_nil]
  refine ⟨hlen, hle, ?_⟩
  rw [← hlen, slice_overlay_same]

/-- The value that an argument of a known type is decoded to stands for the bytes that
were taken. -/
theorem yields_transformVal {t : Byte} (ht : t ∈ [intType, uintType, byteType, statType])
    (old : Val) : Yields (transformVal ⟨t, old⟩) fun arg l =>
      arg.value.WellFormed ∧ arg.value.encode = t :: l := by
  have h16 : 8 * (16 / 8) = 16 := by decide
  have h32 : 8 * (32 / 8) = 32 := by decide
  have hmove := yields_transferVal
  simp only [List.mem_cons, List.not_mem_nil, or_false] at ht
  rcases ht with rfl | rfl | rfl | rfl
  · rw [transformVal_int]
    refine ((hmove 0 4 (by decide) 4 old).bind fun v => .pure _).imp ?_
    rintro arg l ⟨v, l₁, l₂, ⟨hlen, -, rfl⟩, ⟨rfl, rfl⟩, rfl⟩
    obtain ⟨x, rfl⟩ := exists_toBytes_eq h32 l₁ hlen
    have hvalue : Arg.value ⟨intType, overlay old 0 (toBytes x)⟩ = .int x :=
      congrArg FieldValue.int (field_putField_same h32 0 x old)
    rw [hvalue, List.append_nil]
    exact ⟨trivial, rfl⟩
  · rw [transformVal_uint]
    refine ((hmove 0 4 (by decide) 4 old).bind fun v => .pure _).imp ?_
    rintro arg l ⟨v, l₁, l₂, ⟨hlen, -, rfl⟩, ⟨rfl, rfl⟩, rfl⟩
    obtain ⟨x, rfl⟩ := exists_toBytes_eq h32 l₁ hlen
    have hvalue : Arg.value ⟨uintType, overlay old 0 (toBytes x)⟩ = .uint x :=
      congrArg FieldValue.uint (field_putField_same h32 0 x old)
    rw [hvalue, List.append_nil]
    exact ⟨trivial, rfl⟩
  · rw [transformVal_raw]
    refine ((hmove 0 4 (by decide) 4 old).bind fun v =>
      (hmove 4 maxRawSize (by decide) v.rawSize v).bind fun u => .pure _).imp ?_
    rintro arg l ⟨v, l₁, l', ⟨hlen, -, rfl⟩, ⟨u, l₂, l₃, ⟨hlen₂, hle, rfl⟩, ⟨rfl, rfl⟩, rfl⟩, rfl⟩
    obtain ⟨x, rfl⟩ := exists_toBytes_eq h32 l₁ hlen
    -- the second move ran with the size that the first one had decoded
    have hsize : Val.rawSize (overlay old 0 (toBytes x)) = x := field_putField_same h32 0 x old
    rw [hsize] at hlen₂ hle
    have hx : x = BitVec.ofNat 32 l₂.length := by
      rw [hlen₂, BitVec.ofNat_toNat, BitVec.setWidth_eq]
    have hl₂ : l₂.length ≤ maxRawSize := by omega
    rw [hx, value_overlay_raw old l₂ hl₂, List.append_nil]
    exact ⟨hl₂, rfl⟩
  · rw [transformVal_stat]
    refine ((hmove 0 2 (by decide) 2 old).bind fun v₁ => (hmove 4 4 (by decide) 4 v₁).bind fun v₂ =>
      (hmove 8 4 (by decide) 4 v₂).bind fun v₃ => (hmove 12 2 (by decide) 2 v₃).bind fun v₄ =>
      (hmove 16 4 (by decide) 4 v₄).bind fun v₅ => .pure _).imp ?_
    rintro arg l ⟨v₁, l₁, _, ⟨h₁, -, rfl⟩, ⟨v₂, l₂, _, ⟨h₂, -, rfl⟩, ⟨v₃, l₃, _, ⟨h₃, -, rfl⟩,
      ⟨v₄, l₄, _, ⟨h₄, -, rfl⟩, ⟨v₅, l₅, _, ⟨h₅, -, rfl⟩, ⟨rfl, rfl⟩, rfl⟩, rfl⟩, rfl⟩, rfl⟩, rfl⟩
    obtain ⟨type, rfl⟩ := exists_toBytes_eq h16 l₁ h₁
    obtain ⟨dev, rfl⟩ := exists_toBytes_eq h32 l₂ h₂
    obtain ⟨ino, rfl⟩ := exists_toBytes_eq h32 l₃ h₃
    obtain ⟨nlink, rfl⟩ := exists_toBytes_eq h16 l₄ h₄
    obtain ⟨size, rfl⟩ := exists_toBytes_eq h32 l₅ h₅
    rw [value_overlay_stat old ⟨type, dev, ino, nlink, size⟩, List.append_nil]
    exact ⟨trivial, rfl⟩

theorem value_other {tag : Byte} (htag : tag ∉ [intType, uintType, byteType, statType])
    (v : Val) : Arg.value ⟨tag, v⟩ = .other tag := by
  simp only [List.mem_cons, List.not_mem_nil, or_false, not_or] at htag
  obtain ⟨hint, huint, hbyte, hstat⟩ := htag
  simp only [Arg.value, if_neg hint, if_neg huint, if_neg hbyte, if_neg hstat]

variable {c c' : Core} {scr : SCR}

/-- **One argument** that was decoded: its value stands for the bytes that were taken,
and it is well-formed, or has the null type, or an unknown one. -/
theorem transformArg_inv (hc : Replaying c) {arg : Arg} {r : Bool × Arg}
    (hrun : (transformArg arg).run c = .ok r c') :
    c.At r.2.value.encode ∧
      ((r.1 = true ∧ r.2.value.WellFormed ∧
          Outcome.next.Leaves c r.2.value.encode.length c') ∨
        (r.1 = false ∧ r.2.value = .other noneType ∧ Outcome.reject.Leaves c 1 c') ∨
        (r.1 = true ∧ (∃ tag, tag ∉ [noneType, intType, uintType, byteType, statType] ∧
          r.2.value = .other tag) ∧ Outcome.unknown.Leaves c 1 c')) := by
  rw [transformArg, EStateM.run_bind, EStateM.run_get] at hrun
  simp only at hrun
  rw [if_neg fun h => hc.record h.1] at hrun
  obtain ⟨t, c₁, hbyte, hrun⟩ := run_bind_eq_ok.mp hrun
  obtain ⟨_, rfl, hat, rfl⟩ := yields_transferByte _ c t c₁ hc hbyte
  rw [EStateM.run_bind, EStateM.run_get] at hrun
  simp only at hrun
  by_cases hnull : t = noneType
  · subst hnull
    rw [if_pos ⟨hc.replay, rfl⟩] at hrun
    injection hrun with hr hc'
    rw [← hr]
    exact ⟨hat, .inr (.inl ⟨rfl, rfl, hc'.symm⟩)⟩
  rw [if_neg fun h => hnull h.2] at hrun
  obtain ⟨arg', c₂, hval, hpure⟩ := run_bind_eq_ok.mp hrun
  injection hpure with hr hc'
  subst hr hc'
  by_cases hknown : t ∈ [intType, uintType, byteType, statType]
  · obtain ⟨l, ⟨hwf, henc⟩, hat₂, rfl⟩ := yields_transformVal hknown _ _ _ _ (hc.advance _) hval
    rw [henc, ← List.singleton_append]
    refine ⟨hat.append hc.pos_nonneg hat₂, .inl ⟨rfl, hwf, ?_⟩⟩
    rw [List.length_append]
    exact advance_advance c _ _ hc.pos_nonneg
  · have htag : t ∉ [noneType, intType, uintType, byteType, statType] := by
      rw [List.mem_cons, not_or]
      exact ⟨hnull, hknown⟩
    rw [transformVal_unknown htag] at hval
    injection hval with harg hc₂
    rw [← harg, value_other hknown, ← hc₂]
    exact ⟨hat, .inr (.inr ⟨rfl, ⟨t, htag, rfl⟩, _, rfl⟩)⟩

/-- The bytes that the decoder took for `remaining` arguments, read off the record that
it left, and whether it went on after them. -/
def SCR.argsImage (scr : SCR) : (remaining i : ℕ) → List Byte × Bool
  | 0, _ => ([], true)
  | remaining + 1, i =>
    if h : i < maxArgc then
      match (scr.args ⟨i, h⟩).value with
      | .other tag => ([tag], false)
      | v => (v.encode ++ (scr.argsImage remaining (i + 1)).1, (scr.argsImage remaining (i + 1)).2)
    else ([], false)

/-- The bytes that the decoder took for a record. -/
def SCR.image (scr : SCR) : List Byte × Bool :=
  if scr.syscall = unitializedScr then ([unitializedScr], false)
  else (scr.syscall :: scr.argc :: (scr.argsImage scr.argc.toNat 0).1,
    (scr.argsImage scr.argc.toNat 0).2)

theorem argsImage_of_wellFormed {i : ℕ} (hi : i < maxArgc) (remaining : ℕ)
    (hwf : (scr.args ⟨i, hi⟩).value.WellFormed) : scr.argsImage (remaining + 1) i
      = ((scr.args ⟨i, hi⟩).value.encode ++ (scr.argsImage remaining (i + 1)).1,
        (scr.argsImage remaining (i + 1)).2) := by
  rw [SCR.argsImage, dif_pos hi]
  split
  · rename_i tag hother
    rw [hother] at hwf
    exact hwf.elim
  · rfl

theorem argsImage_of_other {i : ℕ} (hi : i < maxArgc) (remaining : ℕ) {tag : Byte}
    (hother : (scr.args ⟨i, hi⟩).value = .other tag) :
    scr.argsImage (remaining + 1) i = ([tag], false) := by
  rw [SCR.argsImage, dif_pos hi, hother]

/-- **The argument loop**, when it returned. -/
theorem transformArgs_inv (behind : ℕ → Arg) {remaining i : ℕ} {r : ℤ × SCR} (hc : Replaying c)
    (hrun : (transformArgs behind remaining i scr).run c = .ok r c') :
    (r.2.syscall = scr.syscall ∧ r.2.argc = scr.argc ∧
      ∀ j : Fin maxArgc, (j : ℕ) < i → r.2.args j = scr.args j) ∧
    ∃ l o, ArgsShape remaining i l o ∧ c.At l ∧ r.1 = o.status ∧ o.Leaves c l.length c' ∧
      r.2.argsImage remaining i = (l, decide (o = .next)) := by
  induction remaining generalizing i scr c with
  | zero =>
    injection hrun with hr hc'
    rw [← hr]
    refine ⟨⟨rfl, rfl, fun _ _ => rfl⟩, [], .next, .done, rfl, rfl, ?_, rfl⟩
    rw [List.length_nil, ← hc']
    exact (advance_zero c).symm
  | succ remaining ih =>
    rw [transformArgs] at hrun
    by_cases hi : i < maxArgc
    case neg =>
      -- a store beyond the array
      rw [dif_neg hi, EStateM.run_bind, EStateM.run_get] at hrun
      simp only [hc.replay, if_true] at hrun
      cases hrun
    rw [dif_pos hi] at hrun
    -- the arguments before `i` are not touched
    have hbefore : ∀ (v : Arg) (j : Fin maxArgc), (j : ℕ) < i →
        Function.update scr.args ⟨i, hi⟩ v j = scr.args j := by
      intro v j hj
      apply Function.update_of_ne
      rintro rfl
      exact lt_irrefl i hj
    obtain ⟨a, c₁, harg, hrun⟩ := run_bind_eq_ok.mp hrun
    obtain ⟨hat, hwf | hnull | hunknown⟩ := transformArg_inv hc harg
    · obtain ⟨htrue, hwf, rfl⟩ := hwf
      rw [htrue, if_pos rfl] at hrun
      obtain ⟨⟨hsys, hargc, hkeep⟩, l, o, hshape, hat₂, hstatus, hleaves, himage⟩ :=
        ih (hc.advance _) hrun
      have hhere : r.2.args ⟨i, hi⟩ = a.2 := by
        rw [hkeep ⟨i, hi⟩ (by simp)]
        exact Function.update_self _ _ _
      refine ⟨⟨hsys, hargc, fun j hj => ?_⟩, a.2.value.encode ++ l, o, .value hwf hi hshape,
        hat.append hc.pos_nonneg hat₂, hstatus, ?_, ?_⟩
      · rw [hkeep j (by omega)]
        exact hbefore _ j hj
      · rw [List.length_append]
        exact hleaves.advance hc.pos_nonneg
      · rw [argsImage_of_wellFormed hi remaining (by rw [hhere]; exact hwf), hhere, himage]
    · obtain ⟨hfalse, hvalue, hleaves⟩ := hnull
      rw [hfalse] at hrun
      injection hrun with hr hc'
      rw [← hr, ← hc']
      refine ⟨⟨rfl, rfl, fun j hj => ?_⟩, [noneType], .reject, .null hi, ?_, rfl, hleaves, ?_⟩
      · exact hbefore _ j hj
      · rwa [hvalue] at hat
      · exact argsImage_of_other hi remaining (by simp only [Function.update_self, hvalue])
    · obtain ⟨htrue, ⟨tag, htag, hvalue⟩, p, rfl⟩ := hunknown
      rw [htrue, if_pos rfl] at hrun
      -- the rest of the loop idles
      have hidle := idlesBy_transformArgs behind remaining (i + 1)
        { scr with args := Function.update scr.args ⟨i, hi⟩ a.2 } _
        ((poisoned_recRepErr (c.advance 1)).withPos p)
      rw [hidle] at hrun
      injection hrun with hr hc'
      rw [← hr, ← hc']
      refine ⟨⟨rfl, rfl, fun j hj => ?_⟩, [tag], .unknown, .unknown htag hi, ?_, rfl, ⟨_, rfl⟩, ?_⟩
      · exact hbefore _ j hj
      · rwa [hvalue] at hat
      · exact argsImage_of_other hi remaining (by simp only [Function.update_self, hvalue])

/-- **One record**, when its decoding returned. -/
theorem transformSCR_inv (behind : ℕ → Arg) {r : ℤ × SCR} (hc : Replaying c)
    (hrun : (transformSCR behind scr).run c = .ok r c') :
    ∃ l o, TakesRecord l o ∧ c.At l ∧ r.1 = o.status ∧ o.Leaves c l.length c' ∧
      r.2.image = (l, decide (o = .next)) := by
  rw [transformSCR, EStateM.run_bind, EStateM.run_get] at hrun
  simp only at hrun
  rw [if_neg fun h => hc.record h.1] at hrun
  obtain ⟨n, c₁, hbyte, hrun⟩ := run_bind_eq_ok.mp hrun
  obtain ⟨_, rfl, hat, rfl⟩ := yields_transferByte _ c n c₁ hc hbyte
  rw [EStateM.run_bind, EStateM.run_get] at hrun
  simp only at hrun
  by_cases hunused : n = unitializedScr
  · subst hunused
    rw [if_pos ⟨hc.replay, rfl⟩] at hrun
    injection hrun with hr hc'
    rw [← hr]
    exact ⟨[unitializedScr], .stop, .unused, hat, rfl, hc'.symm, rfl⟩
  rw [if_neg fun h => hunused h.2] at hrun
  obtain ⟨argc, c₂, hbyte₂, hrun⟩ := run_bind_eq_ok.mp hrun
  have hc₁ := hc.advance [n].length
  obtain ⟨_, rfl, hat₂, rfl⟩ := yields_transferByte _ _ argc c₂ hc₁ hbyte₂
  obtain ⟨⟨hsys, hargc, -⟩, l, o, hshape, hat₃, hstatus, hleaves, himage⟩ :=
    transformArgs_inv behind (hc₁.advance _) hrun
  refine ⟨[n] ++ ([argc] ++ l), o, .used hunused hshape,
    hat.append hc.pos_nonneg (hat₂.append hc₁.pos_nonneg hat₃), hstatus, ?_, ?_⟩
  · rw [List.length_append, List.length_append]
    exact (hleaves.advance hc₁.pos_nonneg).advance hc.pos_nonneg
  · rw [SCR.image, hsys, if_neg hunused, hargc, himage]
    rfl

/-- One pass of the record loop, when it returned: the cursor was past the file, or the
record at `i` was decoded. -/
theorem bidirectionalTransform_inv (hc : Replaying c) {i : ℕ} {fileSize status : ℤ}
    (hrun : (bidirectionalTransform i fileSize).run c = .ok status c') :
    (((maxFileSize : ℤ) < c.session.bufferPos ∨ fileSize < c.session.bufferPos) ∧
      status = -1 ∧ c' = c) ∨
    (c.session.bufferPos ≤ maxFileSize ∧ c.session.bufferPos ≤ fileSize ∧ i < maxScrs ∧
      ∃ l o scr' c₁, TakesRecord l o ∧ c.At l ∧ status = o.status ∧ o.Leaves c l.length c₁ ∧
        scr'.image = (l, decide (o = .next)) ∧
        c' = c₁.withLog (Function.update c.session.recordedScrs i scr')) := by
  rw [bidirectionalTransform, EStateM.run_bind, EStateM.run_get] at hrun
  simp only [hc.replay, true_and, if_true] at hrun
  split_ifs at hrun with hmax hfile hi
  · injection hrun with hstatus hc'
    exact .inl ⟨.inl hmax, hstatus.symm, hc'.symm⟩
  · injection hrun with hstatus hc'
    exact .inl ⟨.inr hfile, hstatus.symm, hc'.symm⟩
  · obtain ⟨r, c₁, hscr, hrun⟩ := run_bind_eq_ok.mp hrun
    injection hrun with hstatus hc'
    obtain ⟨l, o, htakes, hat, hr, hleaves, himage⟩ := transformSCR_inv _ hc hscr
    refine .inr ⟨by omega, by omega, hi, l, o, r.2, c₁, htakes, hat, by rw [← hstatus, hr],
      hleaves, himage, ?_⟩
    rw [← hc', ← hleaves.recordedScrs]
    rfl
  · cases hrun

/-- The bytes that the decoder took for `remaining` records of a log from index `i` and
position `pos` on, in a file of `n` bytes. -/
def logImage (n : ℕ) (f : ℤ → SCR) : (remaining i pos : ℕ) → List Byte
  | 0, _, _ => []
  | remaining + 1, i, pos =>
    if maxFileSize < pos ∨ n < pos then []
    else (f i).image.1 ++
      if (f i).image.2 then logImage n f remaining (i + 1) (pos + (f i).image.1.length) else []

/-- When the decoder has looked just as far as the cursor, it still has. -/
theorem advance_bufferSeen {c : Core}
    (hseen : c.session.bufferSeen = c.session.bufferPos.toNat) (n : ℕ) :
    (c.advance n).session.bufferSeen = c.session.bufferPos.toNat + n := by
  simp only [Core.advance]
  split <;> omega

/-- A pass that ends the loop: what the loop leaves. -/
theorem transformLoop_last {c c₁ c' : Core} {n remaining k : ℕ} {ok : Bool} {l : List Byte}
    {o : Outcome} {scr' : SCR} (ho : o ≠ .next) (hleaves : o.Leaves c l.length c₁)
    (hpass : (bidirectionalTransform k n).run c
      = .ok o.status (c₁.withLog (Function.update c.session.recordedScrs k scr')))
    (hrun : (transformLoop n (remaining + 1) k).run c = .ok ok c') :
    c'.session.recordedScrs = Function.update c.session.recordedScrs k scr' ∧
      c'.session.bufferSeen = (c.advance l.length).session.bufferSeen := by
  rw [transformLoop, run_bind_of_ok hpass] at hrun
  rw [← hleaves.bufferSeen]
  cases o with
  | next => exact absurd rfl ho
  | stop =>
    injection hrun with _ hc'
    rw [← hc']
    exact ⟨rfl, rfl⟩
  | reject =>
    injection hrun with _ hc'
    rw [← hc']
    exact ⟨rfl, rfl⟩
  | unknown =>
    obtain ⟨p, rfl⟩ := hleaves
    have hoff : Poisoned (((recRepErr (c.advance l.length)).withPos p).withLog
        (Function.update c.session.recordedScrs k scr')) := ⟨rfl, rfl, rfl⟩
    obtain ⟨ok', q, hloop, -⟩ := transformLoop_idle hoff n remaining (k + 1)
    rw [if_neg (by decide), if_neg (by decide), hloop] at hrun
    injection hrun with _ hc'
    rw [← hc']
    exact ⟨rfl, rfl⟩

/-- **The record loop**, when it returned: the bytes that it took can be read off the log
that it left, and they are readable when they do not go past the file. -/
theorem transformLoop_inv {n remaining k : ℕ} (hn : n ≤ maxFileSize) {ok : Bool} (hc : Replaying c)
    (hseen : c.session.bufferSeen = c.session.bufferPos.toNat)
    (hrun : (transformLoop n remaining k).run c = .ok ok c') :
    let pos := c.session.bufferPos.toNat
    let l := logImage n c'.session.recordedScrs remaining k pos
    (∀ j : ℤ, j < k → c'.session.recordedScrs j = c.session.recordedScrs j) ∧ c.At l ∧
      c'.session.bufferSeen = pos + l.length ∧
      (pos + l.length ≤ n →
        Readable (k + remaining) k (slice c.session.buffer pos (n - pos))) := by
  induction remaining generalizing k c with
  | zero =>
    injection hrun with _ hc'
    subst hc'
    exact ⟨fun _ _ => rfl, rfl, hseen, fun _ => .done le_rfl⟩
  | succ remaining ih =>
    intro pos l
    have hnonneg := hc.pos_nonneg
    have hpos : c.session.bufferPos = pos := (Int.toNat_of_nonneg hnonneg).symm
    obtain ⟨status, c₂, hpass, hrest⟩ := run_bind_eq_ok.mp hrun
    rcases bidirectionalTransform_inv hc hpass with
      ⟨hpast, rfl, rfl⟩ | ⟨hmax, hfile, hk, l₁, o, scr', c₁, htakes, hat, rfl, hleaves, himage, rfl⟩
    · -- the cursor is past the file
      rw [if_pos rfl] at hrest
      injection hrest with _ hc'
      subst hc'
      have hl : l = [] := if_pos (by omega)
      rw [hl]
      exact ⟨fun _ _ => rfl, rfl, hseen, fun hle => by simp only [List.length_nil] at hle; omega⟩
    · have hcursor : ¬ (maxFileSize < pos ∨ n < pos) := by omega
      have hsplit : pos + l₁.length ≤ n → slice c.session.buffer pos (n - pos)
          = l₁ ++ slice c.session.buffer (pos + l₁.length) (n - (pos + l₁.length)) := by
        intro hle
        rw [show n - pos = l₁.length + (n - (pos + l₁.length)) by omega, slice_add]
        exact congrArg (· ++ _) hat
      by_cases ho : o = .next
      · subst ho
        obtain rfl : c₁ = c.advance l₁.length := hleaves
        have hpos' : ((c.advance l₁.length).withLog
            (Function.update c.session.recordedScrs k scr')).session.bufferPos.toNat
            = pos + l₁.length := by
          simp only [Core.withLog, Core.advance]
          omega
        rw [if_neg (by decide), if_neg (by decide)] at hrest
        obtain ⟨hframe, hat₂, hseen₂, hread⟩ := ih
          ((hc.advance l₁.length).withLog (Function.update c.session.recordedScrs k scr'))
          ((advance_bufferSeen hseen _).trans hpos'.symm) hrest
        rw [hpos'] at hat₂ hseen₂ hread
        -- the record at `k` is not touched again
        have hhere : c'.session.recordedScrs k = scr' := by
          rw [hframe k (by omega)]
          exact Function.update_self _ _ _
        have hl : l = l₁ ++ logImage n c'.session.recordedScrs remaining (k + 1)
            (pos + l₁.length) := by
          simp only [l, logImage, if_neg hcursor, hhere, himage, decide_true, if_true]
        rw [hl, List.length_append, ← Nat.add_assoc]
        refine ⟨fun j hj => ?_, hat.append hnonneg hat₂, hseen₂, fun hle => ?_⟩
        · rw [hframe j (by omega)]
          exact Function.update_of_ne (by omega) _ _
        · rw [hsplit (by omega), show k + (remaining + 1) = k + 1 + remaining by omega]
          exact .next (by omega) hk htakes (hread hle)
      · obtain ⟨hlog, hseen'⟩ := transformLoop_last ho hleaves hpass hrun
        have hl : l = l₁ := by
          simp only [l, logImage, if_neg hcursor, hlog, Function.update_self, himage, ho,
            decide_false, Bool.false_eq_true, if_false, List.append_nil]
        rw [hl, hlog]
        refine ⟨fun j hj => Function.update_of_ne (by omega) _ _, hat, ?_, fun hle => ?_⟩
        · rw [hseen', advance_bufferSeen hseen]
        · rw [hsplit hle]
          exact .last (by omega) hk htakes ho

end V3
