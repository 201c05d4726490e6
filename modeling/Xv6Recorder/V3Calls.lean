/-
# Calls, and the entries they leave in the log

The abstract side of the eleven handlers.  A call has a kind, inputs that it
fetches from its caller, and outputs: its return value and what it leaves in the
caller's memory.  `Kind.inputs`, `Kind.number` and `Kind.outputs` state these
without reference to the code, and the lemmas here connect them to it: the record
that a handler builds holds the inputs, the recorded copy of a handler computes
what the original computes and adds the outputs.
-/
import Xv6Recorder.V3Format
import Xv6Recorder.V3Session

open Bytes StateError Xv6

namespace V3

/-! ## Building a record -/

variable {scr : SCR} {e : Entry}

theorem SCR.Holds.syscall_eq (h : scr.Holds e) : scr.syscall = e.syscall :=
  congrArg Entry.syscall h.entry_eq

/-- The arguments read back as values. -/
theorem SCR.Holds.values_eq (h : scr.Holds e) : scr.valuesFrom scr.argc.toNat 0 = e.values :=
  congrArg Entry.values h.entry_eq

/-- A record has room for what it holds. -/
theorem SCR.Holds.length_le (h : scr.Holds e) : e.values.length ≤ maxArgc := by
  have hle := length_valuesFrom_le scr scr.argc.toNat 0 (Nat.zero_le _)
  rw [h.values_eq] at hle
  omega

theorem SCR.Holds.argc_toNat (h : scr.Holds e) : scr.argc.toNat = e.values.length := by
  have hle := h.length_le
  simp only [maxArgc] at hle
  rw [h.argc_eq, BitVec.toNat_ofNat]
  exact Nat.mod_eq_of_lt (by omega)

/-- The arguments of a record that holds an entry, one by one. -/
theorem SCR.Holds.value_at (h : scr.Holds e) (i : Fin maxArgc) (hi : (i : ℕ) < e.values.length) :
    (scr.args i).value = e.values[i] := by
  have hget : ∀ remaining j : ℕ, j ≤ i → (hi : (i : ℕ) - j < (scr.valuesFrom remaining j).length) →
      (scr.valuesFrom remaining j)[(i : ℕ) - j] = (scr.args i).value := by
    intro remaining
    induction remaining with
    | zero => intro j _ hi; simp [SCR.valuesFrom] at hi
    | succ remaining ih =>
      intro j hji hi
      have hj : j < maxArgc := by omega
      simp only [SCR.valuesFrom, dif_pos hj, List.length_cons] at hi ⊢
      rcases Nat.eq_or_lt_of_le hji with heq | hlt
      · simp only [heq, Nat.sub_self, List.getElem_cons_zero]
      · have hsub : (i : ℕ) - j = (i - (j + 1)) + 1 := by omega
        simp only [hsub, List.getElem_cons_succ]
        exact ih (j + 1) hlt (by omega)
  have hat := hget scr.argc.toNat 0 (Nat.zero_le _) (by rw [h.values_eq]; simpa using hi)
  simp only [h.values_eq, Nat.sub_zero] at hat
  exact hat.symm

/-- A new record holds no values. -/
theorem createSCR_holds (number : Byte) : (createSCR number).Holds ⟨number, []⟩ :=
  ⟨rfl, rfl⟩

/-- Pushing an argument appends its value to the entry. -/
theorem pushArg_run (h : scr.Holds e) (hlen : e.values.length < maxArgc) (arg : Arg) (c : Core) :
    ∃ scr', (pushArg scr arg).run c = .ok scr' c ∧
      scr'.Holds ⟨e.syscall, e.values ++ [arg.value]⟩ := by
  have hargc := h.argc_toNat
  have hlt : scr.argc.toNat < maxArgc := by omega
  have hsucc : (scr.argc + 1).toNat = scr.argc.toNat + 1 := by
    simp only [maxArgc] at hlt
    rw [BitVec.toNat_add]
    exact Nat.mod_eq_of_lt (by simp only [BitVec.ofNat_eq_ofNat, BitVec.toNat_ofNat]; omega)
  refine ⟨_, by rw [EStateM.run, pushArg, dif_pos hlt], ?_, ?_⟩
  · apply BitVec.eq_of_toNat_eq
    simp only [maxArgc] at hlt
    simp only [hsucc, List.length_append, List.length_singleton, BitVec.toNat_ofNat]
    omega
  · have hvalues : SCR.valuesFrom { scr with
          args := Function.update scr.args ⟨scr.argc.toNat, hlt⟩ arg
          argc := scr.argc + 1 } scr.argc.toNat 0 = e.values := by
      rw [← h.values_eq]
      apply valuesFrom_congr
      intro j _ hj
      exact Function.update_of_ne (fun heq => by rw [heq] at hj; simp at hj) _ _
    rw [SCR.entry, hsucc, valuesFrom_succ _ _ _ (by omega), hvalues]
    simp only [Nat.zero_add, Function.update_self, h.syscall_eq]

/-- What is stored in the union is read back from it, for each of the four types. -/
theorem value_putField_int (x : Word) :
    Arg.value ⟨intType, putField 0 x (fun _ => 0)⟩ = .int x :=
  congrArg FieldValue.int (field_putField_same (by decide) 0 x _)

theorem value_putField_uint (x : Word) :
    Arg.value ⟨uintType, putField 0 x (fun _ => 0)⟩ = .uint x :=
  congrArg FieldValue.uint (field_putField_same (by decide) 0 x _)

theorem value_rawVal (bytes : List Byte) (h : bytes.length ≤ maxRawSize) :
    Arg.value ⟨byteType, rawVal bytes⟩ = .raw bytes :=
  value_overlay_raw _ bytes h

theorem value_statVal (st : Stat) : Arg.value ⟨statType, statVal st⟩ = .stat st := by
  have h16 : 8 * (16 / 8) = 16 := by decide
  have h32 : 8 * (32 / 8) = 32 := by decide
  rw [value_stat]
  simp only [FieldValue.stat.injEq, Stat.ext_iff, Val.stType, Val.stDev, Val.stIno, Val.stNlink,
    Val.stSize, statVal]
  refine ⟨field_putField_same h16 _ _ _, ?_, ?_, ?_, ?_⟩
  all_goals simp only [putField]
  · rw [field_overlay_disjoint _ _ _ _ _ (by simp)]
    exact field_putField_same h32 _ _ _
  · rw [field_overlay_disjoint _ _ _ _ _ (by simp), field_overlay_disjoint _ _ _ _ _ (by simp),
      field_overlay_disjoint _ _ _ _ _ (by simp)]
    exact field_putField_same h32 _ _ _
  · rw [field_overlay_disjoint _ _ _ _ _ (by simp), field_overlay_disjoint _ _ _ _ _ (by simp),
      field_overlay_disjoint _ _ _ _ _ (by simp), field_overlay_disjoint _ _ _ _ _ (by simp)]
    exact field_putField_same h16 _ _ _
  · rw [field_overlay_disjoint _ _ _ _ _ (by simp), field_overlay_disjoint _ _ _ _ _ (by simp)]
    exact field_putField_same h32 _ _ _

section

variable {scr : SCR} {e : Entry} (h : scr.Holds e) (hlen : e.values.length < maxArgc) (c : Core)
include h hlen

/-- The `add` functions append one value each, as long as there is room. -/
theorem addInt_run (x : Word) : ∃ scr', (addInt scr x).run c = .ok scr' c ∧
    scr'.Holds ⟨e.syscall, e.values ++ [.int x]⟩ := by
  rw [← value_putField_int x]
  exact pushArg_run h hlen _ c

theorem addUInt_run (x : Word) : ∃ scr', (addUInt scr x).run c = .ok scr' c ∧
    scr'.Holds ⟨e.syscall, e.values ++ [.uint x]⟩ := by
  rw [← value_putField_uint x]
  exact pushArg_run h hlen _ c

/-- The text is recorded without its terminator. -/
theorem addStr_run (s : List Byte) (hs : s.length ≤ maxRawSize) :
    ∃ scr', (addStr scr s).run c = .ok scr' c ∧
      scr'.Holds ⟨e.syscall, e.values ++ [.raw s]⟩ := by
  obtain ⟨scr', hrun, hholds⟩ := pushArg_run h hlen ⟨byteType, rawVal s⟩ c
  rw [value_rawVal s hs] at hholds
  refine ⟨scr', ?_, hholds⟩
  rw [EStateM.run, addStr, if_neg (by omega), hrun]

/-- The bytes are the ones behind the pointer. -/
theorem addRaw_run (src : Memory) (size : Word) (hsize : size.toNat ≤ maxRawSize) :
    ∃ scr', (addRaw scr src size).run c = .ok scr' c ∧
      scr'.Holds ⟨e.syscall, e.values ++ [.raw (slice src 0 size.toNat)]⟩ := by
  obtain ⟨scr', hrun, hholds⟩ := pushArg_run h hlen ⟨byteType, rawVal (slice src 0 size.toNat)⟩ c
  rw [value_rawVal _ (by rw [length_slice]; exact hsize)] at hholds
  refine ⟨scr', ?_, hholds⟩
  have hint := toInt_eq_toNat_of_le hsize
  rw [EStateM.run, addRaw, if_neg (by omega), if_neg (by omega), hrun]

theorem addStat_run (st : Stat) : ∃ scr', (addStat scr st).run c = .ok scr' c ∧
    scr'.Holds ⟨e.syscall, e.values ++ [.stat st]⟩ := by
  rw [← value_statVal st]
  exact pushArg_run h hlen _ c

end

/-! ## Inputs -/

section

variable {σ ι π : Type}

/-- The value of one input, when its fetch succeeds. -/
def Input.fetch (p : Proc ι) : Input → Option FieldValue
  | .int pos => (argint p pos).map .int
  | .str pos => (argstr p pos).map .raw

/-- The values of several inputs, when all fetches succeed. -/
def fetchInputs (p : Proc ι) : List Input → Option (List FieldValue)
  | [] => some []
  | input :: inputs =>
    match input.fetch p, fetchInputs p inputs with
    | some v, some vs => some (v :: vs)
    | _, _ => none

/-- The tag of the values an input is fetched as. -/
def Input.tag : Input → Byte
  | .int _ => intType
  | .str _ => byteType

/-- Every kind of call, with the arguments that are its inputs. -/
def Kind.inputs : Kind → List Input
  | .getpid | .uptime => []
  | .read => [.int 0, .int 2]
  | .close | .fstat => [.int 0]
  | .link => [.str 0, .str 1]
  | .unlink | .mkdir | .chdir => [.str 0]
  | .open => [.str 0, .int 1]
  | .mknod => [.str 0, .int 1, .int 2]

/-- The syscall number under which a call is logged.  For `chdir` this is the number
of `mkdir`. -/
def Kind.number : Kind → Byte
  | .getpid => SYS.getpid
  | .uptime => SYS.uptime
  | .read => SYS.read
  | .close => SYS.close
  | .fstat => SYS.fstat
  | .link => SYS.link
  | .unlink => SYS.unlink
  | .open => SYS.open
  | .mkdir => SYS.mkdir
  | .mknod => SYS.mknod
  | .chdir => SYS.mkdir

@[simp] theorem handler_inputs (ops : FsOps σ ι π) (k : Kind) :
    (handler ops k).inputs = k.inputs := by
  cases k <;> rfl

@[simp] theorem handler_number (ops : FsOps σ ι π) (k : Kind) :
    (handler ops k).number = k.number := by
  cases k <;> rfl

/-- The first output follows the inputs. -/
theorem get1stOutputPos_number (k : Kind) : get1stOutputPos k.number = k.inputs.length := by
  cases k <;> rfl

/-- No call has the number of an unused record. -/
theorem number_ne_unitializedScr (k : Kind) : k.number ≠ unitializedScr := by
  cases k <;> decide

/-- Only `mkdir` and `chdir` share a number. -/
theorem number_eq_iff (k k' : Kind) : k.number = k'.number ↔
    k = k' ∨ (k = .mkdir ∧ k' = .chdir) ∨ (k = .chdir ∧ k' = .mkdir) := by
  cases k <;> cases k' <;> decide

/-- The number of a call fixes its inputs. -/
theorem inputs_eq_of_number_eq {k k' : Kind} (h : k.number = k'.number) :
    k.inputs = k'.inputs := by
  rcases (number_eq_iff k k').mp h with rfl | ⟨rfl, rfl⟩ | ⟨rfl, rfl⟩ <;> rfl

variable {vs : List FieldValue} {p : Proc ι} {inputs : List Input} {scr : SCR}

variable {ins outs : List FieldValue} {input : Input} {e : Entry}

/-- What is fetched has the type that is declared. -/
theorem Input.fetch_tag {v : FieldValue} (h : input.fetch p = some v) : v.tag = input.tag := by
  cases input with
  | int pos =>
    obtain ⟨x, -, rfl⟩ := Option.map_eq_some_iff.mp h
    rfl
  | str pos =>
    obtain ⟨x, -, rfl⟩ := Option.map_eq_some_iff.mp h
    rfl

theorem fetchInputs_cons (h : fetchInputs p (input :: inputs) = some vs) :
    ∃ v vs', vs = v :: vs' ∧ input.fetch p = some v ∧ fetchInputs p inputs = some vs' := by
  rw [fetchInputs] at h
  split at h
  · rename_i v vs' hv hvs'
    exact ⟨v, vs', (Option.some.inj h).symm, hv, hvs'⟩
  · simp at h

/-- Nothing but the kind of a call decides the types of its inputs. -/
theorem fetchInputs_tags (h : fetchInputs p inputs = some vs) :
    vs.map FieldValue.tag = inputs.map Input.tag := by
  induction inputs generalizing vs with
  | nil =>
    rw [fetchInputs] at h
    rw [← Option.some.inj h]
    rfl
  | cons input inputs ih =>
    obtain ⟨v, vs', rfl, hv, hvs'⟩ := fetchInputs_cons h
    rw [List.map_cons, List.map_cons, ih hvs', Input.fetch_tag hv]

theorem fetchInputs_length (h : fetchInputs p inputs = some vs) : vs.length = inputs.length := by
  have := congrArg List.length (fetchInputs_tags h)
  simpa using this

/-- Adding one input appends the value that was fetched. -/
theorem Input.add_run (h : scr.Holds e) (hlen : e.values.length < maxArgc) (m : Machine σ ι π)
    {v : FieldValue} (hv : input.fetch m.kern.proc = some v) (hwf : v.WellFormed) :
    ∃ scr', (input.add scr : SysM σ ι π SCR).run m = .ok scr' m ∧
      scr'.Holds ⟨e.syscall, e.values ++ [v]⟩ := by
  cases input with
  | int pos =>
    obtain ⟨x, hx, rfl⟩ := Option.map_eq_some_iff.mp hv
    have harg : (myargint pos : SysM σ ι π Word).run m = .ok x m := by
      rw [myargint, EStateM.run_bind, EStateM.run_get]
      simp only [hx, EStateM.run_pure]
    obtain ⟨scr', hrun, hholds⟩ := addInt_run h hlen m.core x
    refine ⟨scr', ?_, hholds⟩
    rw [Input.add, run_bind_of_ok harg]
    exact run_onCore_of_ok hrun
  | str pos =>
    obtain ⟨s, hs, rfl⟩ := Option.map_eq_some_iff.mp hv
    have harg : (myargstr pos : SysM σ ι π (List Byte)).run m = .ok s m := by
      rw [myargstr, EStateM.run_bind, EStateM.run_get]
      simp only [hs, EStateM.run_pure]
    obtain ⟨scr', hrun, hholds⟩ := addStr_run h hlen m.core s hwf
    refine ⟨scr', ?_, hholds⟩
    rw [Input.add, run_bind_of_ok harg]
    exact run_onCore_of_ok hrun

/-- **The record of a call holds its inputs.** -/
theorem addInputs_run (inputs : List Input) (h : scr.Holds e)
    (hlen : e.values.length + inputs.length ≤ maxArgc) (m : Machine σ ι π)
    (hvs : fetchInputs m.kern.proc inputs = some vs) (hwf : ∀ v ∈ vs, v.WellFormed) :
    ∃ scr', (addInputs inputs scr : SysM σ ι π SCR).run m = .ok scr' m ∧
      scr'.Holds ⟨e.syscall, e.values ++ vs⟩ := by
  induction inputs generalizing scr e vs with
  | nil =>
    rw [fetchInputs] at hvs
    obtain rfl := Option.some.inj hvs
    exact ⟨scr, rfl, by rw [List.append_nil]; exact h⟩
  | cons input inputs ih =>
    obtain ⟨v, vs', rfl, hv, hvs'⟩ := fetchInputs_cons hvs
    rw [List.length_cons] at hlen
    obtain ⟨scr₁, hadd, hholds₁⟩ := Input.add_run h (by omega) m hv (hwf v List.mem_cons_self)
    obtain ⟨scr₂, hrest, hholds₂⟩ := ih hholds₁
      (by simp only [List.length_append, List.length_singleton]; omega) hvs'
      (fun u hu => hwf u (List.mem_cons_of_mem _ hu))
    refine ⟨scr₂, ?_, ?_⟩
    · rw [addInputs, run_bind_of_ok hadd, hrest]
    · simpa using hholds₂

/-! ## Outputs -/

/-- The buffer of a `read`: its address and size, when their fetches succeed. -/
def readArgs (p : Proc ι) : Option (Word × Word) :=
  (argint p 2).bind fun n => (argptr p 1 n).map fun addr => (addr, n)

/-- The outputs of a call made by `p` that returned `ret` and left `mem`: the
return value, for `read` the whole buffer, for `fstat` the five fields. -/
def Kind.outputs (k : Kind) (p : Proc ι) (mem : Memory) (ret : Word) : List FieldValue :=
  match k with
  | .uptime => [.uint ret]
  | .read => .int ret ::
      ((readArgs p).map fun a => FieldValue.raw (slice mem a.1.toNat a.2.toNat)).toList
  | .fstat => .int ret ::
      ((argptr p 1 statSize).map fun st => FieldValue.stat (loadStat mem st.toNat)).toList
  | _ => [.int ret]

/-- The argument fetches of a call succeed, with inputs `ins`, and its paths have at
most `MAX_RAW_SIZE` bytes. -/
structure Kind.Fetches (k : Kind) (p : Proc ι) (ins : List FieldValue) : Prop where
  inputs : fetchInputs p k.inputs = some ins
  wf : ∀ v ∈ ins, v.WellFormed
  read : k = .read → (readArgs p).isSome
  fstat : k = .fstat → (argptr p 1 statSize).isSome

/-- The limits within which calls are recorded: besides the fetches, an open
descriptor for `read` and `fstat` and a size that fits for `read`. -/
structure Kind.InLimits (k : Kind) (p : Proc ι) (ins : List FieldValue) : Prop
    extends k.Fetches p ins where
  fd_open : k = .read ∨ k = .fstat → (argfd p 0).isSome
  size_le : k = .read → ∀ n, argint p 2 = some n → 0 ≤ n.toInt ∧ n.toInt ≤ maxRawSize

/-- A call other than `read` and `fstat` is within the limits when its inputs are. -/
theorem Kind.inLimits_of_plain {k : Kind} {ins : List FieldValue} (hread : k ≠ .read)
    (hfstat : k ≠ .fstat) (hins : fetchInputs p k.inputs = some ins) (hwf : ∀ v ∈ ins, v.WellFormed) :
    k.InLimits p ins where
  inputs := hins
  wf := hwf
  read h := absurd h hread
  fstat h := absurd h hfstat
  fd_open h := h.elim (absurd · hread) (absurd · hfstat)
  size_le h := absurd h hread

/-- `read` fetches its size first, and checks the buffer against it. -/
theorem readArgs_eq_some {addr n : Word} (h : readArgs p = some (addr, n)) :
    argint p 2 = some n ∧ argptr p 1 n = some addr := by
  obtain ⟨n', hn, hmap⟩ := Option.bind_eq_some_iff.mp h
  obtain ⟨addr', haddr, heq⟩ := Option.map_eq_some_iff.mp hmap
  obtain ⟨rfl, rfl⟩ := Prod.mk.inj heq
  exact ⟨hn, haddr⟩

/-- Inside the limits a `read` asks for no more than a record can take. -/
theorem Kind.InLimits.size_toNat_le {k : Kind} {ins : List FieldValue} (h : k.InLimits p ins)
    (hk : k = .read) {addr n : Word} (hargs : readArgs p = some (addr, n)) :
    n.toNat ≤ maxRawSize := by
  obtain ⟨hlo, hhi⟩ := h.size_le hk n (readArgs_eq_some hargs).1
  rw [BitVec.toInt_eq_toNat_cond] at hlo hhi
  split at hhi <;> omega

/-- A word that is the value of an argument is what its union holds. -/
theorem num_eq_of_value {arg : Arg} {x : Word} (h : arg.value = .int x ∨ arg.value = .uint x) :
    arg.val.num = x := by
  unfold Arg.value at h
  split_ifs at h <;> simp at h
  · exact h
  · exact h

/-- **A record has room for every call**: inputs and outputs together are at most `MAX_ARGC`. -/
theorem outputs_length_le (k : Kind) (p : Proc ι) (mem : Memory) (ret : Word) :
    k.inputs.length + (k.outputs p mem ret).length ≤ maxArgc := by
  have hopt : ∀ o : Option FieldValue, o.toList.length ≤ 1 := fun o => by cases o <;> simp
  cases k with
  | read =>
    show 2 + (_ + 1) ≤ 4
    have := hopt ((readArgs p).map fun a => FieldValue.raw (slice mem a.1.toNat a.2.toNat))
    omega
  | fstat =>
    show 1 + (_ + 1) ≤ 4
    have := hopt ((argptr p 1 statSize).map fun st => FieldValue.stat (loadStat mem st.toNat))
    omega
  | _ => simp [Kind.inputs, Kind.outputs, maxArgc]

/-- The first output of every call is its return value. -/
theorem outputs_head (k : Kind) (p : Proc ι) (mem : Memory) (ret : Word) :
    ∃ rest, k.outputs p mem ret = .int ret :: rest ∨ k.outputs p mem ret = .uint ret :: rest := by
  cases k <;> simp [Kind.outputs]

/-- Inside the array an argument is what is stored there. -/
theorem SCR.argAt_ofNat (scr : SCR) (frame : Frame) (i : Fin maxArgc) :
    scr.argAt frame (i : ℕ) = scr.args i := by
  have h : 0 ≤ ((i : ℕ) : ℤ) ∧ ((i : ℕ) : ℤ) < maxArgc := ⟨by omega, by omega⟩
  rw [SCR.argAt, dif_pos h]
  rfl

/-- The value at a position of a logged call. -/
theorem SCR.Holds.argAt_value (h : scr.Holds e) (frame : Frame) (i : ℕ) (hi : i < e.values.length) :
    (scr.argAt frame i).value = e.values[i] := by
  have hidx : i < maxArgc := lt_of_lt_of_le hi h.length_le
  exact (congrArg Arg.value (scr.argAt_ofNat frame ⟨i, hidx⟩)).trans (h.value_at ⟨i, hidx⟩ hi)

/-- The value at an output position of a logged call. -/
theorem SCR.Holds.value_argAt {number : Byte} (h : scr.Holds ⟨number, ins ++ outs⟩) (frame : Frame)
    (i : ℕ) (hi : i < outs.length) : (scr.argAt frame (ins.length + i : ℕ)).value = outs[i] := by
  rw [h.argAt_value frame (ins.length + i) (by simpa using hi)]
  simp

/-- The word returned from the record of a call is the recorded return value. -/
theorem firstOutput_eq {k : Kind} {ret : Word} (h : scr.Holds ⟨k.number, ins ++ outs⟩)
    (hlen : ins.length = k.inputs.length)
    (hout : ∃ rest, outs = .int ret :: rest ∨ outs = .uint ret :: rest) (frame : Frame) :
    scr.firstOutput frame = ret := by
  have hpos : get1stOutputPos scr.syscall = (ins.length + 0 : ℕ) := by
    rw [h.syscall_eq, get1stOutputPos_number, hlen, Nat.add_zero]
  rw [SCR.firstOutput, hpos]
  apply num_eq_of_value
  obtain ⟨rest, rfl | rfl⟩ := hout
  · exact Or.inl (h.value_argAt frame 0 (by simp))
  · exact Or.inr (h.value_argAt frame 0 (by simp))

/-! ## The recorded copies -/

section Copies

variable (ops : FsOps σ ι π)

/-! The kernel code stands in each handler twice, once with its `goto`s and once with
breaks and inlined clean-up; the copies are the same program. -/

theorem closeRecorded_eq : closeRecorded ops = closeOriginal ops := rfl

theorem linkRecorded_eq : linkRecorded ops = linkOriginal ops := rfl

theorem unlinkRecorded_eq : unlinkRecorded ops = unlinkOriginal ops := rfl

theorem openRecorded_eq : openRecorded ops = openOriginal ops := rfl

theorem mkdirRecorded_eq : mkdirRecorded ops = mkdirOriginal ops := rfl

theorem mknodRecorded_eq : mknodRecorded ops = mknodOriginal ops := rfl

theorem chdirRecorded_eq : chdirRecorded ops = chdirOriginal ops := rfl

/-- What recording a call means, against the original code: the same kernel state,
the same panic, and outputs appended to the record. -/
def RecordsAs (record : SCR → SysM σ ι π SCR) (original : KM σ ι π Word) (k : Kind)
    (m : Machine σ ι π) (ins : List FieldValue) : Prop :=
  ∀ scr : SCR, scr.Holds ⟨k.number, ins⟩ →
    (∀ ret kern', original.run m.kern = .ok ret kern' →
      ∃ scr', (record scr).run m = .ok scr' { m with kern := kern' } ∧
        scr'.Holds ⟨k.number, ins ++ k.outputs m.kern.proc kern'.proc.mem ret⟩) ∧
    (∀ msg kern', original.run m.kern = .error msg kern' →
      (record scr).run m = .error (.panic msg) { m with kern := kern' })

variable {ins : List FieldValue}

/-- A call whose only output is its return value is recorded as it runs. -/
theorem recordOutput_recordsAs {k : Kind} {body : KM σ ι π Word} (m : Machine σ ι π)
    (hlen : ins.length < maxArgc) (hout : ∀ mem ret, k.outputs m.kern.proc mem ret = [.int ret]) :
    RecordsAs (recordOutput body) body k m ins := by
  intro scr hscr
  constructor
  · intro ret kern' hrun
    obtain ⟨scr', hadd, hholds⟩ := addInt_run hscr hlen m.core ret
    refine ⟨scr', ?_, by rw [hout]; exact hholds⟩
    rw [recordOutput, run_bind_of_ok (run_onKern_of_ok hrun)]
    exact run_onCore_of_ok hadd
  · intro msg kern' hrun
    rw [recordOutput, run_bind_of_error (run_onKern_of_error hrun)]

/-- `read` records the buffer in the size that was asked for, whatever it got. -/
theorem read_recordsAs (m : Machine σ ι π) (hlim : Kind.read.InLimits m.kern.proc ins) :
    RecordsAs (sysRead ops).record (sysRead ops).original .read m ins := by
  obtain ⟨⟨fd, f⟩, hfd⟩ := Option.isSome_iff_exists.mp (hlim.fd_open (Or.inl rfl))
  obtain ⟨⟨p, n⟩, hargs⟩ := Option.isSome_iff_exists.mp (hlim.read rfl)
  obtain ⟨hn, hp⟩ := readArgs_eq_some hargs
  have hsize := hlim.size_toNat_le rfl hargs
  have hlen : ins.length = 2 := fetchInputs_length hlim.inputs
  have horig : (readOriginal ops).run m.kern = (do
      let r ← fileread ops f n
      storeUser fun mem => overlay mem p.toNat r.2
      pure r.1 : KM σ ι π Word).run m.kern := by
    rw [readOriginal, EStateM.run_bind, EStateM.run_get]
    simp only [hfd, hn, hp]
  have hrec : (readRecorded ops).run m.kern = (do
      let r ← fileread ops f n
      storeUser fun mem => overlay mem p.toNat r.2
      pure (r.1, some (p, n)) : KM σ ι π (Word × Option (Word × Word))).run m.kern := by
    rw [readRecorded, EStateM.run_bind, EStateM.run_get]
    simp only [hfd, hn, hp]
  intro scr hscr
  simp only [sysRead]
  rw [horig]
  cases hread : (fileread ops f n).run m.kern with
  | error msg kern₁ =>
    rw [run_bind_of_error hread] at hrec ⊢
    refine ⟨fun _ _ h => by simp at h, fun msg' kern' h => ?_⟩
    injection h with h1 h2
    subst h1 h2
    rw [run_bind_of_error (run_onKern_of_error hrec)]
  | ok r kern₁ =>
    rw [run_bind_of_ok hread, run_bind_of_ok (storeUser_run _ _), EStateM.run_pure] at hrec ⊢
    refine ⟨fun ret kern' h => ?_, fun _ _ h => by simp at h⟩
    injection h with h1 h2
    subst h1
    rw [h2] at hrec
    obtain ⟨scr₁, hadd₁, hholds₁⟩ := addInt_run hscr (by simp [hlen, maxArgc]) m.core r.1
    obtain ⟨scr₂, hadd₂, hholds₂⟩ := addRaw_run hholds₁ (by simp [hlen, maxArgc]) m.core
      (fun j => kern'.proc.mem (p.toNat + j)) n hsize
    refine ⟨scr₂, ?_, ?_⟩
    · rw [run_bind_of_ok (run_onKern_of_ok hrec)]
      simp only
      rw [run_bind_of_ok (run_onCore_of_ok (m := { m with kern := kern' }) hadd₁), EStateM.run_bind,
        EStateM.run_get]
      exact run_onCore_of_ok hadd₂
    · rw [slice_shift] at hholds₂
      simpa [Kind.outputs, hargs] using hholds₂

/-- `fstat` records the five fields it has stored. -/
theorem fstat_recordsAs (m : Machine σ ι π) (hlim : Kind.fstat.InLimits m.kern.proc ins) :
    RecordsAs (sysFstat ops).record (sysFstat ops).original .fstat m ins := by
  obtain ⟨⟨fd, f⟩, hfd⟩ := Option.isSome_iff_exists.mp (hlim.fd_open (Or.inr rfl))
  obtain ⟨st, hst⟩ := Option.isSome_iff_exists.mp (hlim.fstat rfl)
  have hlen : ins.length = 1 := fetchInputs_length hlim.inputs
  have horig : (fstatOriginal ops).run m.kern = (filestatUser ops f st).run m.kern := by
    rw [fstatOriginal, EStateM.run_bind, EStateM.run_get]
    simp only [hfd, hst]
  have hrec : (fstatRecorded ops).run m.kern = (do
      let r ← filestatUser ops f st
      pure (r, some st) : KM σ ι π (Word × Option Word)).run m.kern := by
    rw [fstatRecorded, EStateM.run_bind, EStateM.run_get]
    simp only [hfd, hst]
  intro scr hscr
  simp only [sysFstat]
  rw [horig]
  cases hstat : (filestatUser ops f st).run m.kern with
  | error msg kern₁ =>
    rw [run_bind_of_error hstat] at hrec
    refine ⟨fun _ _ h => by simp at h, fun msg' kern' h => ?_⟩
    injection h with h1 h2
    subst h1 h2
    rw [run_bind_of_error (run_onKern_of_error hrec)]
  | ok r kern₁ =>
    rw [run_bind_of_ok hstat, EStateM.run_pure] at hrec
    refine ⟨fun ret kern' h => ?_, fun _ _ h => by simp at h⟩
    injection h with h1 h2
    subst h1 h2
    obtain ⟨scr₁, hadd₁, hholds₁⟩ := addInt_run hscr (by simp [hlen, maxArgc]) m.core r
    obtain ⟨scr₂, hadd₂, hholds₂⟩ := addStat_run hholds₁ (by simp [hlen, maxArgc]) m.core
      (loadStat kern₁.proc.mem st.toNat)
    refine ⟨scr₂, ?_, ?_⟩
    · rw [run_bind_of_ok (run_onKern_of_ok hrec)]
      simp only
      rw [run_bind_of_ok (run_onCore_of_ok (m := { m with kern := kern₁ }) hadd₁), EStateM.run_bind,
        EStateM.run_get]
      exact run_onCore_of_ok hadd₂
    · simpa [Kind.outputs, hst] using hholds₂

/-- `uptime` records the ticks that it returns. -/
theorem uptime_recordsAs (m : Machine σ ι π) (hlen : ins.length < maxArgc) :
    RecordsAs sysUptime.record sysUptime.original .uptime m ins := by
  have horig : (sysUptime : Handler σ ι π).original.run m.kern = .ok m.kern.ticks m.kern := rfl
  intro scr hscr
  rw [horig]
  refine ⟨fun ret kern' h => ?_, fun _ _ h => by simp at h⟩
  injection h with h1 h2
  subst h1 h2
  obtain ⟨scr', hadd, hholds⟩ := addUInt_run hscr hlen m.core m.kern.ticks
  refine ⟨scr', ?_, hholds⟩
  simp only [sysUptime]
  rw [EStateM.run_bind, EStateM.run_get]
  exact run_onCore_of_ok hadd

/-- **Recording runs the original code** and appends the outputs, for every kind. -/
theorem handler_recordsAs (k : Kind) (m : Machine σ ι π) (hlim : k.InLimits m.kern.proc ins) :
    RecordsAs (handler ops k).record (handler ops k).original k m ins := by
  have hlen : ins.length < maxArgc := by
    rw [fetchInputs_length hlim.inputs]
    cases k <;> decide
  cases k with
  | getpid => exact recordOutput_recordsAs m hlen (fun _ _ => rfl)
  | uptime => exact uptime_recordsAs m hlen
  | read => exact read_recordsAs ops m hlim
  | close =>
    simp only [handler, sysClose, closeRecorded_eq]
    exact recordOutput_recordsAs m hlen (fun _ _ => rfl)
  | fstat => exact fstat_recordsAs ops m hlim
  | link =>
    simp only [handler, sysLink, linkRecorded_eq]
    exact recordOutput_recordsAs m hlen (fun _ _ => rfl)
  | unlink =>
    simp only [handler, sysUnlink, unlinkRecorded_eq]
    exact recordOutput_recordsAs m hlen (fun _ _ => rfl)
  | «open» =>
    simp only [handler, sysOpen, openRecorded_eq]
    exact recordOutput_recordsAs m hlen (fun _ _ => rfl)
  | mkdir =>
    simp only [handler, sysMkdir, mkdirRecorded_eq]
    exact recordOutput_recordsAs m hlen (fun _ _ => rfl)
  | mknod =>
    simp only [handler, sysMknod, mknodRecorded_eq]
    exact recordOutput_recordsAs m hlen (fun _ _ => rfl)
  | chdir =>
    simp only [handler, sysChdir, chdirRecorded_eq]
    exact recordOutput_recordsAs m hlen (fun _ _ => rfl)

end Copies

end

end V3
