/-
# The comparator of the second recorder

`compareSyscalls` compares all five fields of the call that is being replayed with those of
the logged one.  The handlers put the recorded outputs into the replayed call, so that those
fields agree, and the comparison comes down to the inputs: a logged call with the field types
of its number is accepted exactly when its inputs are those at hand (`replay_run`).
-/
import Xv6Recorder.V2Replaying
import Xv6Recorder.V3Replaying

open Bytes StateError Xv6
open V3 (Kind readArgs withMem)

namespace V2

/-! ## Fields -/

section Fields

variable {a b : Field}

theorem compareField_none (ha : a.type = noneType) (hb : b.type = a.type) :
    compareField a b = pure () := by
  rw [compareField, if_neg (by rw [hb]; exact fun h => h rfl), if_pos ha]

theorem compareField_num (ha : a.type = intType ∨ a.type = uintType) (hb : b.type = a.type) :
    compareField a b = if a.data.num = b.data.num then pure () else replayExit := by
  have hnone : a.type ≠ noneType := by
    rcases ha with ha | ha <;> rw [ha] <;> decide
  rw [compareField, if_neg (by rw [hb]; exact fun h => h rfl), if_neg hnone, if_pos ha, ite_not]

theorem compareField_pstat (ha : a.type = pstatType) (hb : b.type = a.type) :
    compareField a b = pure () := by
  rw [compareField, hb, ha]
  rfl

/-- The content loop compares as many bytes as the size says. -/
theorem compareContent_eq {d d' : Data} {n : ℕ} (hn : d.size.toInt.toNat = n)
    (hle : n ≤ maxByteSize) :
    compareContent d d' = if slice d.content 0 n = slice d'.content 0 n then pure ()
      else replayExit := by
  have hall : ((List.range n).all fun i => d.content i == d'.content i) = true ↔
      slice d.content 0 n = slice d'.content 0 n := by
    rw [List.all_eq_true]
    constructor
    · intro h
      refine slice_congr 0 n fun k hk => ?_
      rw [Nat.zero_add]
      exact eq_of_beq (h k (List.mem_range.mpr hk))
    · intro h k hk
      have hk := List.mem_range.mp hk
      exact beq_iff_eq.mpr (eq_of_slice_eq h (Nat.zero_le k) (by omega))
  simp only [compareContent, hn, min_eq_left hle, hall, hle, if_true]

theorem compareField_byte (ha : a.type = byteType) (hb : b.type = a.type) :
    compareField a b = if a.data.size = b.data.size then compareContent a.data b.data
      else replayExit := by
  rw [compareField, if_neg (by rw [hb]; exact fun h => h rfl), if_neg (by rw [ha]; decide),
    if_neg (by rw [ha]; decide), if_pos ha, ite_not]

end Fields

/-- The recorded field holds the input. -/
def Arg.Agrees (arg : Arg) (f : Field) : Prop :=
  match arg with
  | .int num => f.data.num = num
  | .str text => f.data.size.toNat = text.length ∧ slice f.data.content 0 text.length = text

theorem num_putField (num : Word) : Data.num (putField 0 num fun _ => 0) = num :=
  field_putField_same (by decide) 0 num _

/-- **The comparison of an input.** -/
theorem compareField_arg {arg : Arg} {f : Field} (harg : arg.WellFormed)
    (htag : f.type = arg.value.tag) :
    (arg.Agrees f → compareField arg.value.field f = pure ()) ∧
      (¬ arg.Agrees f → compareField arg.value.field f = replayExit) := by
  cases arg with
  | int num =>
    have hnum : (Arg.int num).value.field.data.num = num := num_putField num
    rw [compareField_num (.inl rfl) htag, hnum]
    exact ⟨fun h => if_pos h.symm, fun h => if_neg fun h' => h h'.symm⟩
  | str text =>
    have hlen : text.length ≤ maxByteSize := harg
    have hsize : (byteStruct text).size.toNat = text.length := size_byteStruct hlen
    have hint : (byteStruct text).size.toInt.toNat = text.length := by
      simp only [maxByteSize] at hlen
      rw [BitVec.toInt_eq_toNat_cond, if_pos (by omega)]
      omega
    have hcontent : slice (byteStruct text).content 0 text.length = text := by
      rw [show (byteStruct text).content = fun k => byteStruct text (4 + k) from rfl, slice_shift]
      exact slice_overlay_same _ 4 text
    have hdata : (Arg.str text).value.field.data = byteStruct text := rfl
    rw [compareField_byte rfl htag, hdata, compareContent_eq hint hlen, hcontent]
    constructor
    · rintro ⟨hsz, hct⟩
      rw [if_pos (BitVec.eq_of_toNat_eq (hsize.trans hsz.symm)), if_pos hct.symm]
    · intro hne
      by_cases hsz : (byteStruct text).size = f.data.size
      · rw [if_pos hsz, if_neg fun hct => hne ⟨by rw [← hsz]; exact hsize, hct.symm⟩]
      · rw [if_neg hsz]

/-! ## Calls -/

section Calls

variable {replayed recorded : Call}

variable {l : List (Fin maxFieldSize)}

theorem compareFields_pure
    (h : ∀ i ∈ l, compareField (replayed.fields i) (recorded.fields i) = pure ()) :
    compareFields replayed recorded l = pure () := by
  induction l with
  | nil => rfl
  | cons i l ih =>
    rw [compareFields, h i List.mem_cons_self, pure_bind,
      ih fun j hj => h j (List.mem_cons_of_mem _ hj)]

/-- One field that differs is enough. -/
theorem compareFields_exit
    (h : ∀ i ∈ l, compareField (replayed.fields i) (recorded.fields i) = pure () ∨
      compareField (replayed.fields i) (recorded.fields i) = replayExit)
    (hbad : ∃ i ∈ l, compareField (replayed.fields i) (recorded.fields i) = replayExit) :
    compareFields replayed recorded l = replayExit := by
  induction l with
  | nil =>
    obtain ⟨i, hi, -⟩ := hbad
    cases hi
  | cons i l ih =>
    have hexit : compareField (replayed.fields i) (recorded.fields i) = replayExit →
        compareFields replayed recorded (i :: l) = replayExit := by
      intro hi
      rw [compareFields, hi]
      rfl
    obtain ⟨j, hj, hjbad⟩ := hbad
    rcases List.mem_cons.mp hj with rfl | hj
    · exact hexit hjbad
    · rcases h i List.mem_cons_self with hi | hi
      · rw [compareFields, hi, pure_bind]
        exact ih (fun k hk => h k (List.mem_cons_of_mem _ hk)) ⟨j, hj, hjbad⟩
      · exact hexit hi

/-- The recorded call has the inputs. -/
def HasInputs (recorded : Call) (ins : List Arg) : Prop :=
  ∀ (i : Fin maxFieldSize) arg, ins[i.val]? = some arg → arg.Agrees (recorded.fields i)

/-- **The comparison of two calls** that can differ in the inputs only. -/
theorem compareSyscalls_eq {ins : List Arg}
    (hin : ∀ (i : Fin maxFieldSize) arg, ins[i.val]? = some arg → arg.WellFormed ∧
      replayed.fields i = arg.value.field ∧ (recorded.fields i).type = arg.value.tag)
    (hout : ∀ i : Fin maxFieldSize, ins.length ≤ i.val →
      compareField (replayed.fields i) (recorded.fields i) = pure ()) :
    (HasInputs recorded ins → compareSyscalls replayed recorded = pure ()) ∧
      (¬ HasInputs recorded ins → compareSyscalls replayed recorded = replayExit) := by
  have hinput : ∀ (i : Fin maxFieldSize) arg, ins[i.val]? = some arg →
      (arg.Agrees (recorded.fields i) →
        compareField (replayed.fields i) (recorded.fields i) = pure ()) ∧
      (¬ arg.Agrees (recorded.fields i) →
        compareField (replayed.fields i) (recorded.fields i) = replayExit) := by
    intro i arg harg
    obtain ⟨hwf, hfield, htag⟩ := hin i arg harg
    rw [hfield]
    exact compareField_arg hwf htag
  constructor
  · intro hsame
    refine compareFields_pure fun i _ => ?_
    cases harg : ins[i.val]? with
    | none => exact hout i (List.getElem?_eq_none_iff.mp harg)
    | some arg => exact (hinput i arg harg).1 (hsame i arg harg)
  · intro hdiff
    simp only [HasInputs, not_forall] at hdiff
    obtain ⟨i, arg, harg, hne⟩ := hdiff
    refine compareFields_exit (fun j _ => ?_) ⟨i, List.mem_finRange i, (hinput i arg harg).2 hne⟩
    cases harg' : ins[j.val]? with
    | none => exact .inl (hout j (List.getElem?_eq_none_iff.mp harg'))
    | some arg' =>
      by_cases heq : arg'.Agrees (recorded.fields j)
      · exact .inl ((hinput j arg' harg').1 heq)
      · exact .inr ((hinput j arg' harg').2 heq)

end Calls

/-! ## The types of a logged call -/

/-- The types of the output fields of a call. -/
def outputTags : Kind → List Byte
  | .uptime => [uintType]
  | .read => [intType, byteType]
  | .fstat => [intType, pstatType]
  | _ => [intType]

/-- The types of the fields that the record branch of a handler sets. -/
def fieldTypes (k : Kind) : List Byte := k.inputs.map inputTag ++ outputTags k

/-- The call has the field types of its syscall number, and no content beyond its array. -/
structure WellTyped (k : Kind) (call : Call) : Prop where
  syscall : call.syscall = number k
  types : ∀ i : Fin maxFieldSize, (call.fields i).type = (fieldTypes k)[i.val]?.getD noneType
  size_le : ∀ i : Fin maxFieldSize, (call.fields i).type = byteType →
    (call.fields i).data.size.toInt ≤ maxByteSize

/-- The five stores of a replayed `fstat` leave the five fields. -/
theorem loadStat_storePackedStat (addr : ℕ) (st : Stat) (mem : Memory) :
    loadStat (storePackedStat addr st mem) addr = st := by
  have h16 : 8 * (16 / 8) = 16 := by decide
  have h32 : 8 * (32 / 8) = 32 := by decide
  rw [loadStat, storePackedStat, Stat.ext_iff]
  dsimp only
  refine ⟨?_, ?_, ?_, ?_, field_putField_same h32 _ _ _⟩
  · rw [field_putField_disjoint, field_putField_disjoint, field_putField_disjoint,
      field_putField_disjoint]
    · exact field_putField_same h16 _ _ _
    all_goals omega
  · rw [field_putField_disjoint, field_putField_disjoint, field_putField_disjoint]
    · exact field_putField_same h32 _ _ _
    all_goals omega
  · rw [field_putField_disjoint, field_putField_disjoint]
    · exact field_putField_same h32 _ _ _
    all_goals omega
  · rw [field_putField_disjoint]
    · exact field_putField_same h16 _ _ _
    all_goals omega

section

variable {σ ι π : Type} {k : Kind} {recorded : Call} {ins : List Arg}

variable {m : Machine σ ι π} {i : Fin maxFieldSize} {recorded : Call}

variable {ins : List Arg} {arg : Arg}

/-- The types of the input fields are those of the inputs. -/
theorem WellTyped.input_type (h : WellTyped k recorded) {p : Proc ι} (hfetch : Fetches k p ins)
    (harg : ins[i.val]? = some arg) : (recorded.fields i).type = arg.value.tag := by
  have htags := argsOf_tags hfetch.inputs
  rw [h.types i, fieldTypes, ← htags, List.getElem?_append_left, List.getElem?_map, harg]
  · rfl
  · rw [List.length_map]
    exact (List.getElem?_eq_some_iff.mp harg).1

theorem WellTyped.output_type (h : WellTyped k recorded) (hi : k.inputs.length ≤ i.val) :
    (recorded.fields i).type = (outputTags k)[i.val - k.inputs.length]?.getD noneType := by
  rw [h.types i, fieldTypes, List.getElem?_append_right (by rw [List.length_map]; exact hi),
    List.length_map]

/-- The inputs of the call that a handler builds, whatever it sets behind them. -/
theorem fields_inputs {number : Byte} (values : List Value) (harg : ins[i.val]? = some arg) :
    (Entry.call ⟨number, ins.map Arg.value ++ values⟩).fields i = arg.value.field := by
  obtain ⟨hi, hget⟩ := List.getElem?_eq_some_iff.mp harg
  have hlt : i.val < (ins.map Arg.value).length := by rw [List.length_map]; exact hi
  rw [fields_of_lt (by rw [List.length_append]; omega), List.getElem_append_left hlt,
    List.getElem_map, hget]

/-! ## Replay -/

/-- What the caller of a replayed call finds: the recorded return value, for `read` the
recorded bytes in its buffer, for `fstat` the recorded fields in its `struct stat`. -/
structure Answers (k : Kind) (p : Proc ι) (recorded : Call) (mem : Memory) (ret : Word) : Prop where
  ret_eq : ret = (getFieldData recorded (outputPos k)).num
  read : k = .read → ∀ addr n, readArgs p = some (addr, n) →
    slice mem addr.toNat n.toNat = slice (getFieldData recorded 3).content 0 n.toNat
  fstat : k = .fstat → ∀ addr, argptr p 1 statSize = some addr →
    loadStat mem addr.toNat = (getFieldData recorded 2).pstat

/-- What the replay code of a handler does with a logged call: it answers from a call with
the same inputs, and exits on another. -/
def Replays (replay : SysM σ ι π Word) (k : Kind) (recorded : Call) (ins : List Arg)
    (m : Machine σ ι π) : Prop :=
  (HasInputs recorded ins → ∃ mem ret, replay.run m = .ok ret ⟨m.core, withMem m.kern mem⟩ ∧
    Answers k m.kern.proc recorded mem ret) ∧
  (¬ HasInputs recorded ins → replay.run m = .error .exited ⟨m.core.endReplay, m.kern⟩)

section

variable {m : Machine σ ι π} (hfetch : Fetches k m.kern.proc ins) (htyped : WellTyped k recorded)
include hfetch htyped

/-- A comparison of the built call with the recorded one, when the outputs agree. -/
theorem compare_built (replayed : Call)
    (hins : ∀ (i : Fin maxFieldSize) arg, ins[i.val]? = some arg →
      replayed.fields i = arg.value.field)
    (hout : ∀ i : Fin maxFieldSize, ins.length ≤ i.val →
      compareField (replayed.fields i) (recorded.fields i) = pure ()) :
    (HasInputs recorded ins → compareSyscalls replayed recorded = pure ()) ∧
      (¬ HasInputs recorded ins → compareSyscalls replayed recorded = replayExit) :=
  compareSyscalls_eq (fun i arg harg => ⟨hfetch.wf arg (List.mem_of_getElem? harg),
    hins i arg harg, htyped.input_type hfetch harg⟩) hout

/-- The calls whose only output is a number. -/
theorem replayOutput_replays (fail : {α : Type} → RecM α) (setOutput : Call → Word → RecM Call)
    (output : Word → Value)
    (hset : ∀ values c num, values.length < maxFieldSize →
      (setOutput (Entry.call ⟨number k, values⟩) num).run c
        = .ok (Entry.call ⟨number k, values ++ [output num]⟩) c)
    (hdata : ∀ num, (output num).data = putField 0 num fun _ => 0)
    (htag : ∀ num, (output num).tag = intType ∨ (output num).tag = uintType)
    (htags : ∀ num, outputTags k = [(output num).tag])
    (hplain : k ≠ .read ∧ k ≠ .fstat) (hpos : (outputPos k).val = k.inputs.length) :
    Replays (replayOutput fail (number k) k.inputs setOutput (outputPos k) recorded) k recorded
      ins m := by
  have hlen := hfetch.length_eq
  have hroom := (outputPos k).isLt
  set out := (getFieldData recorded (outputPos k)).num with hout
  set replayed := Entry.call ⟨number k, ins.map Arg.value ++ [output out]⟩ with hreplayed
  have hbefore : (replayOutput fail (number k) k.inputs setOutput (outputPos k) recorded).run m
      = (onCore (do
          compareSyscalls replayed recorded
          pure out) : SysM σ ι π Word).run m := by
    rw [replayOutput, run_bind_of_ok (fetchInputs_run _ hfetch.inputs)]
    simp only [onCore, run_zoom]
    rw [run_bind_of_ok (setInputs_run (number k) hfetch.wf (by omega) m.core),
      run_bind_of_ok (hset _ m.core out (by rw [List.length_map]; omega))]
  have hcompare := compare_built hfetch htyped replayed
    (fun i arg harg => fields_inputs _ harg) (fun i hi => by
      rcases Nat.eq_or_lt_of_le hi with heq | hlt
      · -- the output, which is the recorded one
        have htype : (recorded.fields i).type = (output out).tag := by
          rw [htyped.output_type (by omega), htags out, show i.val - k.inputs.length = 0 by omega]
          rfl
        have hfield : replayed.fields i = (output out).field := by
          rw [hreplayed, fields_of_lt (by simp; omega)]
          simp [← heq]
        have hi : i = outputPos k := Fin.ext (by omega)
        rw [hfield, compareField_num (htag out) htype, if_pos]
        rw [Value.field, hdata, num_putField, hout, hi]
        rfl
      · have htype : (recorded.fields i).type = noneType := by
          rw [htyped.output_type (by omega), htags out, List.getElem?_eq_none (by simp; omega)]
          rfl
        rw [hreplayed, fields_of_le (by simp; omega)]
        exact compareField_none rfl htype)
  constructor
  · intro hsame
    refine ⟨m.kern.proc.mem, out, ?_, rfl, fun h => absurd h hplain.1, fun h => absurd h hplain.2⟩
    rw [hbefore, hcompare.1 hsame]
    rfl
  · intro hdiff
    rw [hbefore, hcompare.2 hdiff]
    rfl

end

/-- The call a replayed `read` builds: the fourth field is the recorded one as it is. -/
def builtRead (fd n : Word) (recorded : Call) : Call :=
  ⟨V3.SYS.read, 4, Function.update
    (Entry.call ⟨V3.SYS.read, [.int fd, .int n, .int (getFieldData recorded 2).num]⟩).fields 3
    ⟨byteType, getFieldData recorded 3⟩⟩

theorem fields_builtRead (fd n : Word) (recorded : Call)
    (harg : [Arg.int fd, .int n][i.val]? = some arg) :
    (builtRead fd n recorded).fields i = arg.value.field := by
  have hi : i.val < 2 := (List.getElem?_eq_some_iff.mp harg).1
  have hne : i ≠ 3 := fun h => by subst h; exact absurd hi (by decide)
  rw [builtRead]
  simp only
  rw [Function.update_of_ne hne]
  exact fields_inputs [.int (getFieldData recorded 2).num] harg

/-- A replayed `read` compares the call it builds, and copies the recorded bytes. -/
theorem replayRead_eq (recorded : Call) {fd n p : Word} (hfd : argint m.kern.proc 0 = some fd)
    (hn : argint m.kern.proc 2 = some n) (hp : argptr m.kern.proc 1 n = some p) :
    (replayRead recorded).run m = (do
      onCore (compareSyscalls (builtRead fd n recorded) recorded)
      if maxByteSize < n.toNat then throw .outOfBounds
      else do
        onKern (copyout p (getFieldData recorded 3).content n.toNat)
        pure (getFieldData recorded 2).num : SysM σ ι π Word).run m := by
  set out := (getFieldData recorded 2).num
  set data := getFieldData recorded 3
  rw [replayRead, run_bind_of_ok (fetchInt_run hfd), run_bind_of_ok (fetchInt_run hn),
    run_bind_of_ok (fetchPtr_run hp)]
  have hset : (do
      let replayed ← setInt (createSyscall V3.SYS.read) fd
      let replayed ← setInt replayed n
      let replayed ← setInt replayed out
      let replayed ← setByte replayed data
      compareSyscalls replayed recorded).run m.core
      = (compareSyscalls (builtRead fd n recorded) recorded).run m.core := by
    refine (run_bind_of_ok (setInt_run V3.SYS.read [] (by decide) _ fd)).trans ?_
    refine (run_bind_of_ok (setInt_run V3.SYS.read [.int fd]
      (show 1 < maxFieldSize by decide) _ n)).trans ?_
    refine (run_bind_of_ok (setInt_run V3.SYS.read [.int fd, .int n]
      (show 2 < maxFieldSize by decide) _ out)).trans ?_
    exact run_bind_of_ok (setField_update _ ⟨V3.SYS.read, [.int fd, .int n, .int out]⟩
      ⟨byteType, data⟩ (show 3 < maxFieldSize by decide) _)
  rw [EStateM.run_bind, EStateM.run_bind]
  simp only [onCore, run_zoom]
  rw [← hset]

/-- The fields behind the inputs are copies, and compare equal. -/
theorem compareField_builtRead (htyped : WellTyped .read recorded) (fd n : Word)
    (i : Fin maxFieldSize) (hi : 2 ≤ i.val) :
    compareField ((builtRead fd n recorded).fields i) (recorded.fields i) = pure () := by
  set data := getFieldData recorded 3 with hdata
  have hcases : i = 2 ∨ i = 3 ∨ i = 4 := by
    have hlt : i.val < 5 := i.isLt
    rcases (by omega : i.val = 2 ∨ i.val = 3 ∨ i.val = 4) with h | h | h
    · exact .inl (Fin.ext h)
    · exact .inr (.inl (Fin.ext h))
    · exact .inr (.inr (Fin.ext h))
  rcases hcases with rfl | rfl | rfl
  · have hfield : (builtRead fd n recorded).fields 2
        = (Value.int (getFieldData recorded 2).num).field := rfl
    rw [hfield, compareField_num (.inl rfl) (htyped.types 2), if_pos]
    exact num_putField _
  · have hfield : (builtRead fd n recorded).fields 3 = ⟨byteType, data⟩ := rfl
    have hle : data.size.toInt ≤ maxByteSize := htyped.size_le 3 (htyped.types 3)
    have hsame : (recorded.fields 3).data = data := rfl
    have hself : compareContent data data = pure () := by
      rw [compareContent_eq rfl (Int.toNat_le.mpr hle), if_pos rfl]
    rw [hfield, compareField_byte rfl (htyped.types 3), hsame, if_pos rfl]
    exact hself
  · exact compareField_none (a := noneField) rfl (htyped.types 4)

/-- A replayed `read`. -/
theorem replayRead_replays (hfetch : Fetches .read m.kern.proc ins)
    (htyped : WellTyped .read recorded) : Replays (replayRead recorded) .read recorded ins m := by
  obtain ⟨⟨p, n⟩, hargs⟩ := Option.isSome_iff_exists.mp (hfetch.read rfl)
  obtain ⟨hn, hp⟩ := V3.readArgs_eq_some hargs
  have hsize := hfetch.size_toNat_le rfl hn
  obtain ⟨arg, rest, rfl, harg, hrest⟩ := argsOf_cons hfetch.inputs
  obtain ⟨arg', rest', rfl, harg', hrest'⟩ := argsOf_cons hrest
  obtain ⟨fd, hfd, rfl⟩ := Option.map_eq_some_iff.mp harg
  obtain ⟨n', hn', rfl⟩ := Option.map_eq_some_iff.mp harg'
  obtain rfl := Option.some.inj hrest'
  obtain rfl : n = n' := Option.some.inj (hn.symm.trans hn')
  set out := (getFieldData recorded 2).num
  set data := getFieldData recorded 3
  have hbefore := replayRead_eq recorded hfd hn hp
  have hcompare := compare_built hfetch htyped (builtRead fd n recorded)
    (fun i arg harg => fields_builtRead fd n recorded harg)
    (compareField_builtRead htyped fd n)
  constructor
  · intro hsame
    have hfit := argptr_le_pgroundup hp (hsize.trans (by decide))
    refine ⟨overlay m.kern.proc.mem p.toNat (slice data.content 0 n.toNat), out, ?_, rfl, ?_,
      fun h => by cases h⟩
    · have hcopy : (copyout p data.content n.toNat : KM σ ι π Unit).run m.kern = .ok ()
          (withMem m.kern (overlay m.kern.proc.mem p.toNat (slice data.content 0 n.toNat))) :=
        if_pos hfit
      have hgo : (onCore (pure ()) : SysM σ ι π Unit).run m = .ok () m := rfl
      rw [hbefore, hcompare.1 hsame, run_bind_of_ok hgo,
        if_neg (Nat.not_lt.mpr hsize), run_bind_of_ok (run_onKern_of_ok hcopy)]
      rfl
    · rintro - p' n' hargs'
      obtain ⟨rfl, rfl⟩ := Prod.mk.inj (Option.some.inj (hargs.symm.trans hargs'))
      have hslice := slice_overlay_same m.kern.proc.mem p.toNat (slice data.content 0 n.toNat)
      rwa [length_slice] at hslice
  · intro hdiff
    rw [hbefore, hcompare.2 hdiff]
    rfl

/-- The call a replayed `fstat` builds. -/
def builtFstat (fd : Word) (recorded : Call) : Call :=
  Entry.call ⟨V3.SYS.fstat,
    [.int fd, .int (getFieldData recorded 1).num, .pstat (getFieldData recorded 2).pstat]⟩

/-- A replayed `fstat` compares the call it builds, and stores the recorded status. -/
theorem replayFstat_eq (recorded : Call) {fd p : Word} (hfd : argint m.kern.proc 0 = some fd)
    (hp : argptr m.kern.proc 1 statSize = some p) :
    (replayFstat recorded).run m = (do
      onCore (compareSyscalls (builtFstat fd recorded) recorded)
      onKern (storeUser (storePackedStat p.toNat (getFieldData recorded 2).pstat))
      pure (getFieldData recorded 1).num : SysM σ ι π Word).run m := by
  set out := (getFieldData recorded 1).num
  set st := (getFieldData recorded 2).pstat
  rw [replayFstat, run_bind_of_ok (fetchInt_run hfd), run_bind_of_ok (fetchPtr_run hp)]
  have hset : (do
      let replayed ← setInt (createSyscall V3.SYS.fstat) fd
      let replayed ← setInt replayed out
      let replayed ← setPackedStat replayed st
      compareSyscalls replayed recorded).run m.core
      = (compareSyscalls (builtFstat fd recorded) recorded).run m.core := by
    refine (run_bind_of_ok (setInt_run V3.SYS.fstat [] (by decide) _ fd)).trans ?_
    refine (run_bind_of_ok (setInt_run V3.SYS.fstat [.int fd]
      (show 1 < maxFieldSize by decide) _ out)).trans ?_
    exact run_bind_of_ok (setPackedStat_run V3.SYS.fstat [.int fd, .int out]
      (show 2 < maxFieldSize by decide) _ st)
  rw [EStateM.run_bind, EStateM.run_bind]
  simp only [onCore, run_zoom]
  rw [← hset]

/-- The return value and the status are copies, and compare equal. -/
theorem compareField_builtFstat (htyped : WellTyped .fstat recorded) (fd : Word)
    (i : Fin maxFieldSize) (hi : 1 ≤ i.val) :
    compareField ((builtFstat fd recorded).fields i) (recorded.fields i) = pure () := by
  have hcases : i = 1 ∨ i = 2 ∨ 3 ≤ i.val := by
    rcases (by omega : i.val = 1 ∨ i.val = 2 ∨ 3 ≤ i.val) with h | h | h
    · exact .inl (Fin.ext h)
    · exact .inr (.inl (Fin.ext h))
    · exact .inr (.inr h)
  rcases hcases with rfl | rfl | hlo
  · have hfield : (builtFstat fd recorded).fields 1
        = (Value.int (getFieldData recorded 1).num).field := rfl
    rw [hfield, compareField_num (.inl rfl) (htyped.types 1), if_pos]
    exact num_putField _
  · exact compareField_pstat rfl (htyped.types 2)
  · have htype : (recorded.fields i).type = noneType := by
      rw [htyped.types i, List.getElem?_eq_none (show 3 ≤ i.val from hlo)]
      rfl
    rw [show (builtFstat fd recorded).fields i = noneField from fields_of_le hlo]
    exact compareField_none rfl htype

/-- A replayed `fstat`. -/
theorem replayFstat_replays (hfetch : Fetches .fstat m.kern.proc ins)
    (htyped : WellTyped .fstat recorded) :
    Replays (replayFstat recorded) .fstat recorded ins m := by
  obtain ⟨p, hp⟩ := Option.isSome_iff_exists.mp (hfetch.fstat rfl)
  obtain ⟨arg, rest, rfl, harg, hrest⟩ := argsOf_cons hfetch.inputs
  obtain ⟨fd, hfd, rfl⟩ := Option.map_eq_some_iff.mp harg
  obtain rfl := Option.some.inj hrest
  set out := (getFieldData recorded 1).num
  set st := (getFieldData recorded 2).pstat
  have hbefore := replayFstat_eq recorded hfd hp
  have hcompare := compare_built hfetch htyped (builtFstat fd recorded)
    (fun i arg harg => fields_inputs [.int out, .pstat st] harg)
    (compareField_builtFstat htyped fd)
  constructor
  · intro hsame
    refine ⟨storePackedStat p.toNat st m.kern.proc.mem, out, ?_, rfl, (fun h => by cases h), ?_⟩
    · rw [hbefore, hcompare.1 hsame]
      rfl
    · rintro - p' hp'
      obtain rfl := Option.some.inj (hp.symm.trans hp')
      exact loadStat_storePackedStat p.toNat st m.kern.proc.mem
  · intro hdiff
    rw [hbefore, hcompare.2 hdiff]
    rfl

/-- **Replay answers from a call with the same inputs**, and exits on another. -/
theorem handler_replays (ops : FsOps σ ι π) {k : Kind} (hfetch : Fetches k m.kern.proc ins)
    (htyped : WellTyped k recorded) :
    Replays ((handler ops k).replay recorded) k recorded ins m := by
  have hint := replayOutput_replays hfetch htyped
  cases k with
  | read => exact replayRead_replays hfetch htyped
  | fstat => exact replayFstat_replays hfetch htyped
  | uptime =>
    exact hint replayExit setUint .uint (fun values c num h => setUint_run _ values h c num)
      (fun _ => rfl) (fun _ => .inr rfl) (fun _ => rfl) ⟨by decide, by decide⟩ rfl
  | _ =>
    exact hint _ setInt .int (fun values c num h => setInt_run _ values h c num)
      (fun _ => rfl) (fun _ => .inl rfl) (fun _ => rfl) ⟨by decide, by decide⟩ rfl

end

end V2
