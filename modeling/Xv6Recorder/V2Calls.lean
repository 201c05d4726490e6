/-
# Calls, and the entries they leave in the log of the second recorder

The abstract side of the eleven handlers: the number, the inputs and the outputs of each
kind of call, and the entry under which a call is logged.  The lemmas here connect them to
the code: the record branch of a handler computes what its original code computes and
appends the entry of the call (`handler_recordsAs`), except for an `unlink` whose parent
directory is not found, which the pasted code leaves by `return`.
-/
import Xv6Recorder.V2Format
import Xv6Recorder.V2Session
import Xv6Recorder.V3Calls

open Bytes StateError Xv6
open V3 (Kind Input readArgs)

namespace V2

/-! ## Inputs -/

section

variable {σ ι π : Type}

/-- The field value of an input. -/
def Arg.value : Arg → Value
  | .int num => .int num
  | .str text => .bytes text

/-- Texts have at most `MAX_BYTE_SIZE` bytes. -/
def Arg.WellFormed (arg : Arg) : Prop := arg.value.WellFormed

instance (arg : Arg) : Decidable arg.WellFormed := inferInstanceAs (Decidable arg.value.WellFormed)

/-- One input, when its fetch succeeds. -/
def argOf (p : Proc ι) : Input → Option Arg
  | .int pos => (argint p pos).map .int
  | .str pos => (argstr p pos).map .str

/-- Several inputs, when all fetches succeed. -/
def argsOf (p : Proc ι) : List Input → Option (List Arg)
  | [] => some []
  | input :: inputs =>
    match argOf p input, argsOf p inputs with
    | some arg, some args => some (arg :: args)
    | _, _ => none

/-- The tag of the field for an input. -/
def inputTag : Input → Byte
  | .int _ => intType
  | .str _ => byteType

variable {p : Proc ι} {args : List Arg} {ins : List Arg} {inputs : List Input}

theorem argsOf_cons {input : Input} (h : argsOf p (input :: inputs) = some args) :
    ∃ arg args', args = arg :: args' ∧ argOf p input = some arg ∧ argsOf p inputs = some args' := by
  rw [argsOf] at h
  split at h
  · rename_i arg args' harg hargs'
    exact ⟨arg, args', (Option.some.inj h).symm, harg, hargs'⟩
  · cases h

theorem argOf_tag {input : Input} {arg : Arg} (h : argOf p input = some arg) :
    arg.value.tag = inputTag input := by
  cases input with
  | int pos =>
    obtain ⟨num, -, rfl⟩ := Option.map_eq_some_iff.mp h
    rfl
  | str pos =>
    obtain ⟨text, -, rfl⟩ := Option.map_eq_some_iff.mp h
    rfl

theorem argsOf_tags (h : argsOf p inputs = some args) :
    args.map (fun arg => arg.value.tag) = inputs.map inputTag := by
  induction inputs generalizing args with
  | nil =>
    obtain rfl := Option.some.inj h
    rfl
  | cons input inputs ih =>
    obtain ⟨arg, args', rfl, harg, hargs'⟩ := argsOf_cons h
    rw [List.map_cons, List.map_cons, ih hargs', argOf_tag harg]

theorem argsOf_length (h : argsOf p inputs = some args) : args.length = inputs.length := by
  simpa using congrArg List.length (argsOf_tags h)

section Fetching

variable {m : Machine σ ι π}

theorem fetchInt_run {fail : RecM Word} {pos : ℕ} {num : Word}
    (h : argint m.kern.proc pos = some num) :
    (fetchInt fail pos : SysM σ ι π Word).run m = .ok num m := by
  rw [fetchInt, EStateM.run_bind, EStateM.run_get]
  simp only [h, EStateM.run_pure]

theorem fetchStr_run {fail : RecM (List Byte)} {pos : ℕ} {text : List Byte}
    (h : argstr m.kern.proc pos = some text) :
    (fetchStr fail pos : SysM σ ι π (List Byte)).run m = .ok text m := by
  rw [fetchStr, EStateM.run_bind, EStateM.run_get]
  simp only [h, EStateM.run_pure]

theorem fetchPtr_run {fail : RecM Word} {pos : ℕ} {size addr : Word}
    (h : argptr m.kern.proc pos size = some addr) :
    (fetchPtr fail pos size : SysM σ ι π Word).run m = .ok addr m := by
  rw [fetchPtr, EStateM.run_bind, EStateM.run_get]
  simp only [h, EStateM.run_pure]

theorem fetchInput_run (fail : {α : Type} → RecM α) {input : Input} {arg : Arg}
    (h : argOf m.kern.proc input = some arg) :
    (fetchInput fail input : SysM σ ι π Arg).run m = .ok arg m := by
  cases input with
  | int pos =>
    obtain ⟨num, hnum, rfl⟩ := Option.map_eq_some_iff.mp h
    rw [fetchInput, run_bind_of_ok (fetchInt_run hnum), EStateM.run_pure]
  | str pos =>
    obtain ⟨text, htext, rfl⟩ := Option.map_eq_some_iff.mp h
    rw [fetchInput, run_bind_of_ok (fetchStr_run htext), EStateM.run_pure]

theorem fetchInputs_run (fail : {α : Type} → RecM α) {inputs : List Input} {args : List Arg}
    (h : argsOf m.kern.proc inputs = some args) :
    (fetchInputs fail inputs : SysM σ ι π (List Arg)).run m = .ok args m := by
  induction inputs generalizing args with
  | nil =>
    obtain rfl := Option.some.inj h
    rfl
  | cons input inputs ih =>
    obtain ⟨arg, args', rfl, harg, hargs'⟩ := argsOf_cons h
    rw [fetchInputs, run_bind_of_ok (fetchInput_run fail harg), run_bind_of_ok (ih hargs'),
      EStateM.run_pure]

end Fetching

/-! A fetch moves the machine only where it fails. -/

section FetchRules

variable {R E : Machine σ ι π → Machine σ ι π → Prop} [IsPreorder (Machine σ ι π) R] [Trans R E E]

theorem moves_fetchInt {fail : RecM Word} (hfail : Moves R E (onCore fail : SysM σ ι π Word))
    (pos : ℕ) : Moves R E (fetchInt fail pos : SysM σ ι π Word) := by
  refine Moves.get.bind fun m => ?_
  split
  · exact Moves.pure _
  · exact hfail

theorem moves_fetchStr {fail : RecM (List Byte)}
    (hfail : Moves R E (onCore fail : SysM σ ι π (List Byte))) (pos : ℕ) :
    Moves R E (fetchStr fail pos : SysM σ ι π (List Byte)) := by
  refine Moves.get.bind fun m => ?_
  split
  · exact Moves.pure _
  · exact hfail

theorem moves_fetchPtr {fail : RecM Word} (hfail : Moves R E (onCore fail : SysM σ ι π Word))
    (pos : ℕ) (size : Word) : Moves R E (fetchPtr fail pos size : SysM σ ι π Word) := by
  refine Moves.get.bind fun m => ?_
  split
  · exact Moves.pure _
  · exact hfail

theorem moves_fetchInputs {fail : {α : Type} → RecM α}
    (hfail : ∀ {α : Type}, Moves R E (onCore fail : SysM σ ι π α)) (inputs : List Input) :
    Moves R E (fetchInputs fail inputs : SysM σ ι π (List Arg)) := by
  induction inputs with
  | nil => exact Moves.pure _
  | cons input inputs ih =>
    refine Moves.bind ?_ fun arg => ih.bind fun args => Moves.pure _
    cases input with
    | int pos => exact (moves_fetchInt hfail pos).bind fun _ => Moves.pure _
    | str pos => exact (moves_fetchStr hfail pos).bind fun _ => Moves.pure _

end FetchRules

/-- Setting an input appends its value. -/
theorem setInput_run {number : Byte} {values : List Value} {arg : Arg} (harg : arg.WellFormed)
    (hroom : values.length < maxFieldSize) (c : Core) :
    (setInput (Entry.call ⟨number, values⟩) arg).run c
      = .ok (Entry.call ⟨number, values ++ [arg.value]⟩) c := by
  cases arg with
  | int num => exact setInt_run number values hroom c num
  | str text =>
    have htransform : (transformNULLTerminatedStrToByte text).run c
        = .ok (byteStruct text) c := by
      rw [transformNULLTerminatedStrToByte, if_neg (Nat.not_lt.mpr harg), EStateM.run_pure]
    rw [setInput, run_bind_of_ok htransform]
    exact setByte_run number values hroom c text

/-- The inputs, behind values that are already set. -/
theorem setInputs_append (number : Byte) (values : List Value)
    (hargs : ∀ arg ∈ args, arg.WellFormed) (hroom : values.length + args.length ≤ maxFieldSize)
    (c : Core) : (setInputs (Entry.call ⟨number, values⟩) args).run c
      = .ok (Entry.call ⟨number, values ++ args.map Arg.value⟩) c := by
  induction args generalizing values with
  | nil =>
    rw [List.map_nil, List.append_nil]
    rfl
  | cons arg args ih =>
    rw [List.length_cons] at hroom
    rw [setInputs, run_bind_of_ok (setInput_run (hargs arg List.mem_cons_self) (by omega) c),
      ih _ (fun a ha => hargs a (List.mem_cons_of_mem _ ha))
        (by simp only [List.length_append, List.length_singleton]; omega),
      List.append_assoc, List.singleton_append, List.map_cons]

/-- **The call that a handler builds holds its inputs.** -/
theorem setInputs_run (number : Byte) (hargs : ∀ arg ∈ args, arg.WellFormed)
    (hroom : args.length ≤ maxFieldSize) (c : Core) :
    (setInputs (createSyscall number) args).run c
      = .ok (Entry.call ⟨number, args.map Arg.value⟩) c := by
  have h := setInputs_append number [] hargs (by rw [List.length_nil]; omega) c
  rwa [List.nil_append] at h

/-! ## Kinds -/

/-- The syscall number under which a call is logged. -/
def number : Kind → Byte
  | .getpid => V3.SYS.getpid
  | .uptime => V3.SYS.uptime
  | .read => V3.SYS.read
  | .close => V3.SYS.close
  | .fstat => V3.SYS.fstat
  | .link => V3.SYS.link
  | .unlink => V3.SYS.unlink
  | .open => V3.SYS.open
  | .mkdir => V3.SYS.mkdir
  | .mknod => V3.SYS.mknod
  | .chdir => V3.SYS.chdir

theorem handler_number (ops : FsOps σ ι π) (k : Kind) : (handler ops k).number = number k := by
  cases k <;> rfl

/-- No two kinds share a number. -/
theorem number_inj {k k' : Kind} (h : number k = number k') : k = k' := by
  revert h
  cases k <;> cases k' <;> decide

theorem number_ne_uninitialized (k : Kind) : number k ≠ uninitialized := by
  cases k <;> decide

theorem number_le (k : Kind) : (number k).toNat ≤ 27 := by
  cases k <;> decide

/-- The outputs of a call made by `p` that returned `ret` and left `mem`: the return value,
for `read` the whole buffer, for `fstat` the five fields. -/
def outputs (k : Kind) (p : Proc ι) (mem : Memory) (ret : Word) : List Value :=
  match k with
  | .uptime => [.uint ret]
  | .read => .int ret ::
      ((readArgs p).map fun a => Value.bytes (slice mem a.1.toNat a.2.toNat)).toList
  | .fstat => .int ret ::
      ((argptr p 1 statSize).map fun st => Value.pstat (loadStat mem st.toNat)).toList
  | _ => [.int ret]

/-- The argument fetches of a call succeed, with inputs `ins`, and its paths have at most
`MAX_BYTE_SIZE` bytes. -/
structure Fetches (k : Kind) (p : Proc ι) (ins : List Arg) : Prop where
  inputs : argsOf p k.inputs = some ins
  wf : ∀ arg ∈ ins, arg.WellFormed
  read : k = .read → (readArgs p).isSome
  fstat : k = .fstat → (argptr p 1 statSize).isSome
  size_le : k = .read → ∀ n, argint p 2 = some n → 0 ≤ n.toInt ∧ n.toInt ≤ maxByteSize

/-- The limits within which calls are recorded: besides the fetches, an open descriptor for
`read` and `fstat`. -/
structure InLimits (k : Kind) (p : Proc ι) (ins : List Arg) : Prop extends Fetches k p ins where
  fd_open : k = .read ∨ k = .fstat → (argfd p 0).isSome

theorem fetches_of_plain {k : Kind} (hread : k ≠ .read) (hfstat : k ≠ .fstat)
    (hins : argsOf p k.inputs = some ins) (hwf : ∀ arg ∈ ins, arg.WellFormed) :
    Fetches k p ins where
  inputs := hins
  wf := hwf
  read h := absurd h hread
  fstat h := absurd h hfstat
  size_le h := absurd h hread

theorem inLimits_of_plain {k : Kind} (hread : k ≠ .read) (hfstat : k ≠ .fstat)
    (hins : argsOf p k.inputs = some ins) (hwf : ∀ arg ∈ ins, arg.WellFormed) :
    InLimits k p ins where
  toFetches := fetches_of_plain hread hfstat hins hwf
  fd_open h := h.elim (absurd · hread) (absurd · hfstat)

theorem Fetches.size_toNat_le {k : Kind} (h : Fetches k p ins) (hk : k = .read) {n : Word}
    (hn : argint p 2 = some n) : n.toNat ≤ maxByteSize := by
  obtain ⟨hlo, hhi⟩ := h.size_le hk n hn
  rw [BitVec.toInt_eq_toNat_cond] at hlo hhi
  split at hhi <;> omega

theorem Fetches.length_eq {k : Kind} (h : Fetches k p ins) :
    ins.length = k.inputs.length := argsOf_length h.inputs

/-! ## The recorded copies -/

section Copies

variable (ops : FsOps σ ι π)

/-- The lookup of the parent directory of an `unlink` fails. -/
def ParentMissing (k : Kern σ ι π) : Prop :=
  ∃ path s₁ s₂, argstr k.proc 0 = some path ∧ ops.beginOp.run k.fs = .ok () s₁ ∧
    (ops.nameiparent k.proc.cwd path).run s₁ = .ok none s₂

instance (k : Kern σ ι π) : Decidable (ParentMissing ops k) :=
  match hpath : argstr k.proc 0 with
  | none => isFalse fun ⟨_, _, _, h, _⟩ => by
      rw [hpath] at h
      cases h
  | some path =>
    match hbegin : ops.beginOp.run k.fs with
    | .error _ _ => isFalse fun ⟨_, _, _, _, h, _⟩ => by
        rw [hbegin] at h
        cases h
    | .ok _ s₁ =>
      decidable_of_iff ((match (ops.nameiparent k.proc.cwd path).run s₁ with
        | .ok none _ => true
        | _ => false) = true) (by
          constructor
          · intro h
            split at h
            case h_1 s₂ hfind => exact ⟨path, s₁, s₂, hpath, hbegin, hfind⟩
            case h_2 => cases h
          · rintro ⟨path', s, s₂, hpath', hbegin', hfind⟩
            obtain rfl := Option.some.inj (hpath.symm.trans hpath')
            injection hbegin.symm.trans hbegin' with _ hs
            subst hs
            rw [hfind])

/-- The call is an `unlink` that the record branch leaves by `return`. -/
def Dropped (k : Kind) (kern : Kern σ ι π) : Prop := k = .unlink ∧ ParentMissing ops kern

instance (k : Kind) (kern : Kern σ ι π) : Decidable (Dropped ops k kern) :=
  inferInstanceAs (Decidable (_ ∧ _))

/-- The recorder's state with one more call in the log. -/
def Core.append (c : Core) (call : Call) : Core :=
  { c with session := { c.session with
      calls := Function.update c.session.calls c.session.syscallIdx call
      syscallIdx := c.session.syscallIdx + 1 } }

theorem addSyscall_run {c : Core} (h : c.session.syscallIdx < maxSysCalls) (call : Call) :
    (addSyscall call).run c = .ok () (c.append call) := by
  rw [addSyscall, EStateM.run_bind, EStateM.run_get]
  simp only [Nat.not_le.mpr h, if_false]
  rfl

/-- What recording a call means, against the original code: the same kernel state and the
same value, with the entry of the call appended to the log; or the same panic. -/
def RecordsAs (record : SysM σ ι π Word) (original : KM σ ι π Word) (k : Kind) (ins : List Arg)
    (m : Machine σ ι π) : Prop :=
  (∀ ret kern', original.run m.kern = .ok ret kern' →
    record.run m = .ok ret ⟨m.core.append (Entry.call ⟨number k, ins.map Arg.value ++
      outputs k m.kern.proc kern'.proc.mem ret⟩), kern'⟩) ∧
  (∀ msg kern', original.run m.kern = .error msg kern' →
    record.run m = .error (.panic msg) ⟨m.core, kern'⟩)

variable {m : Machine σ ι π} {k : Kind} {ins : List Arg}
  (hidx : m.core.session.syscallIdx < maxSysCalls)
include hidx

/-- A call whose only output is its return value. -/
theorem recordOutput_recordsAs {body : KM σ ι π Word} (hfetch : Fetches k m.kern.proc ins)
    (hroom : k.inputs.length < maxFieldSize)
    (hout : ∀ mem ret, outputs k m.kern.proc mem ret = [.int ret]) :
    RecordsAs (recordOutput (number k) k.inputs body) body k ins m := by
  have hlen := hfetch.length_eq
  have hset := setInputs_run (number k) hfetch.wf (by omega) m.core
  have hbefore : (recordOutput (number k) k.inputs body).run m = (do
      let status ← onKern body
      let recorded ← onCore (setInt (Entry.call ⟨number k, ins.map Arg.value⟩) status)
      onCore (addSyscall recorded)
      pure status : SysM σ ι π Word).run m := by
    rw [recordOutput, run_bind_of_ok (fetchInputs_run _ hfetch.inputs),
      run_bind_of_ok (run_onCore_of_ok hset)]
  constructor
  · intro ret kern' hrun
    have hint := setInt_run (number k) (ins.map Arg.value) (by rw [List.length_map]; omega)
      m.core ret
    rw [hbefore, run_bind_of_ok (run_onKern_of_ok hrun),
      run_bind_of_ok (run_onCore_of_ok (m := ⟨m.core, kern'⟩) hint),
      run_bind_of_ok (run_onCore_of_ok (m := ⟨m.core, kern'⟩) (addSyscall_run hidx _)),
      EStateM.run_pure, hout]
  · intro msg kern' hrun
    rw [hbefore, run_bind_of_error (run_onKern_of_error hrun)]

theorem uptime_recordsAs : RecordsAs sysUptime.record sysUptime.original .uptime [] m := by
  have horig : (uptimeOriginal : KM σ ι π Word).run m.kern = .ok m.kern.ticks m.kern := rfl
  have hset : (setUint (createSyscall V3.SYS.uptime) m.kern.ticks).run m.core
      = .ok (Entry.call ⟨V3.SYS.uptime, [.uint m.kern.ticks]⟩) m.core :=
    setUint_run V3.SYS.uptime [] (by decide) m.core m.kern.ticks
  simp only [RecordsAs, sysUptime]
  rw [horig]
  refine ⟨fun ret kern' h => ?_, fun _ _ h => by cases h⟩
  injection h with hret hkern
  subst hret hkern
  rw [run_bind_of_ok (run_onKern_of_ok horig), run_bind_of_ok (run_onCore_of_ok hset),
    run_bind_of_ok (run_onCore_of_ok (addSyscall_run hidx _))]
  rfl

theorem close_recordsAs (hfetch : Fetches .close m.kern.proc ins) :
    RecordsAs (recordClose ops) (V3.closeOriginal ops) .close ins m := by
  obtain ⟨arg, args, rfl, harg, hargs⟩ := argsOf_cons hfetch.inputs
  obtain ⟨fd, hfd, rfl⟩ := Option.map_eq_some_iff.mp harg
  obtain rfl := Option.some.inj hargs
  constructor
  · intro ret kern' hrun
    have hset : (do
        let recorded ← setInt (createSyscall V3.SYS.close) fd
        let recorded ← setInt recorded ret
        addSyscall recorded).run m.core
        = .ok () (m.core.append (Entry.call ⟨V3.SYS.close, [.int fd, .int ret]⟩)) := by
      refine (run_bind_of_ok (setInt_run V3.SYS.close [] (by decide) _ fd)).trans ?_
      refine (run_bind_of_ok (setInt_run V3.SYS.close [.int fd] ?_ _ ret)).trans ?_
      · show 1 < maxFieldSize
        decide
      · exact addSyscall_run hidx _
    rw [recordClose, run_bind_of_ok (fetchInt_run hfd), V3.closeRecorded_eq,
      run_bind_of_ok (run_onKern_of_ok hrun),
      run_bind_of_ok (run_onCore_of_ok (m := ⟨m.core, kern'⟩) hset)]
    rfl
  · intro msg kern' hrun
    rw [recordClose, run_bind_of_ok (fetchInt_run hfd), V3.closeRecorded_eq,
      run_bind_of_error (run_onKern_of_error hrun)]

omit hidx in
/-- The record branch of `read`, up to the pasted code. -/
theorem recordRead_eq {fd n : Word} (hfd : argint m.kern.proc 0 = some fd)
    (hn : argint m.kern.proc 2 = some n) :
    (recordRead ops).run m = (do
      let r ← onKern (V3.readRecorded ops)
      let m ← get
      onCore do
        let recorded ← setInt (Entry.call ⟨V3.SYS.read, [.int fd, .int n]⟩) r.1
        let bytes ← transformCharPointerToByte
          (r.2.map fun a j => m.kern.proc.mem (a.1.toNat + j)) n
        let recorded ← setByte recorded bytes
        addSyscall recorded
      pure r.1 : SysM σ ι π Word).run m := by
  rw [recordRead, run_bind_of_ok (fetchInt_run hfd), run_bind_of_ok (fetchInt_run hn)]
  have hset₁ : (setInt (createSyscall V3.SYS.read) fd).run m.core
      = .ok (Entry.call ⟨V3.SYS.read, [.int fd]⟩) m.core :=
    setInt_run V3.SYS.read [] (by decide) _ fd
  have hset₂ : (setInt (Entry.call ⟨V3.SYS.read, [.int fd]⟩) n).run m.core
      = .ok (Entry.call ⟨V3.SYS.read, [.int fd, .int n]⟩) m.core :=
    setInt_run V3.SYS.read [.int fd] (show 1 < maxFieldSize by decide) _ n
  rw [run_bind_of_ok (run_onCore_of_ok hset₁), run_bind_of_ok (run_onCore_of_ok hset₂)]

/-- What the record branch of `read` logs. -/
theorem logRead_run (fd : Word) {n : Word} (hint : n.toInt ≤ maxByteSize)
    (hsize : n.toNat ≤ maxByteSize) (ret : Word) (mem : Memory) (addr : ℕ) :
    (do
      let recorded ← setInt (Entry.call ⟨V3.SYS.read, [.int fd, .int n]⟩) ret
      let bytes ← transformCharPointerToByte (some fun j => mem (addr + j)) n
      let recorded ← setByte recorded bytes
      addSyscall recorded).run m.core = .ok () (m.core.append (Entry.call ⟨V3.SYS.read,
        [.int fd, .int n, .int ret, .bytes (slice mem addr n.toNat)]⟩)) := by
  have hbytes : (transformCharPointerToByte (some fun j => mem (addr + j)) n).run m.core
      = .ok (byteStruct (slice mem addr n.toNat)) m.core := by
    rw [transformCharPointerToByte, if_neg (Int.not_lt.mpr hint), if_neg (Nat.not_lt.mpr hsize),
      EStateM.run_pure, slice_shift]
  refine (run_bind_of_ok (setInt_run V3.SYS.read [.int fd, .int n]
    (show 2 < maxFieldSize by decide) _ ret)).trans ?_
  refine (run_bind_of_ok hbytes).trans ?_
  refine (run_bind_of_ok (setByte_run V3.SYS.read [.int fd, .int n, .int ret]
    (show 3 < maxFieldSize by decide) _ _)).trans ?_
  exact addSyscall_run hidx _

theorem read_recordsAs (hlim : InLimits .read m.kern.proc ins) :
    RecordsAs (recordRead ops) (V3.readOriginal ops) .read ins m := by
  obtain ⟨⟨_, f⟩, hf⟩ := Option.isSome_iff_exists.mp (hlim.fd_open (.inl rfl))
  obtain ⟨⟨p, n⟩, hargs⟩ := Option.isSome_iff_exists.mp (hlim.read rfl)
  obtain ⟨hn, hp⟩ := V3.readArgs_eq_some hargs
  obtain ⟨arg, rest, rfl, harg, hrest⟩ := argsOf_cons hlim.inputs
  obtain ⟨arg', rest', rfl, harg', hrest'⟩ := argsOf_cons hrest
  obtain ⟨fd, hfd, rfl⟩ := Option.map_eq_some_iff.mp harg
  obtain ⟨n', hn', rfl⟩ := Option.map_eq_some_iff.mp harg'
  obtain rfl := Option.some.inj hrest'
  obtain rfl : n = n' := Option.some.inj (hn.symm.trans hn')
  -- both copies are the same `fileread` with its store
  have horig : (V3.readOriginal ops).run m.kern = (do
      let r ← fileread ops f n
      storeUser fun mem => overlay mem p.toNat r.2
      pure r.1 : KM σ ι π Word).run m.kern := by
    rw [V3.readOriginal, EStateM.run_bind, EStateM.run_get]
    simp only [hf, hn, hp]
  have hrec : (V3.readRecorded ops).run m.kern = (do
      let r ← fileread ops f n
      storeUser fun mem => overlay mem p.toNat r.2
      pure (r.1, some (p, n)) : KM σ ι π (Word × Option (Word × Word))).run m.kern := by
    rw [V3.readRecorded, EStateM.run_bind, EStateM.run_get]
    simp only [hf, hn, hp]
  have hbefore := recordRead_eq ops hfd hn
  rw [RecordsAs, horig]
  cases hread : (fileread ops f n).run m.kern with
  | error msg kern₁ =>
    rw [run_bind_of_error hread] at hrec ⊢
    refine ⟨(fun _ _ h => by cases h), fun msg' kern' h => ?_⟩
    injection h with hmsg hkern
    subst hmsg hkern
    rw [hbefore, run_bind_of_error (run_onKern_of_error hrec)]
  | ok r kern₁ =>
    rw [run_bind_of_ok hread, run_bind_of_ok (storeUser_run _ _), EStateM.run_pure] at hrec ⊢
    refine ⟨fun ret kern' h => ?_, fun _ _ h => by cases h⟩
    injection h with hret hkern
    subst hret
    rw [hkern] at hrec
    have hset := logRead_run hidx fd (hlim.size_le rfl n hn).2
      (hlim.size_toNat_le rfl hn) r.1 kern'.proc.mem p.toNat
    rw [hbefore, run_bind_of_ok (run_onKern_of_ok hrec), EStateM.run_bind, EStateM.run_get]
    simp only [Option.map_some]
    rw [run_bind_of_ok (run_onCore_of_ok (m := ⟨m.core, kern'⟩) hset), EStateM.run_pure]
    simp only [outputs, hargs, Option.map_some, Option.toList_some]
    rfl

theorem fstat_recordsAs (hlim : InLimits .fstat m.kern.proc ins) :
    RecordsAs (recordFstat ops) (V3.fstatOriginal ops) .fstat ins m := by
  obtain ⟨⟨_, f⟩, hf⟩ := Option.isSome_iff_exists.mp (hlim.fd_open (.inr rfl))
  obtain ⟨st, hst⟩ := Option.isSome_iff_exists.mp (hlim.fstat rfl)
  obtain ⟨arg, rest, rfl, harg, hrest⟩ := argsOf_cons hlim.inputs
  obtain ⟨fd, hfd, rfl⟩ := Option.map_eq_some_iff.mp harg
  obtain rfl := Option.some.inj hrest
  have horig : (V3.fstatOriginal ops).run m.kern = (V3.filestatUser ops f st).run m.kern := by
    rw [V3.fstatOriginal, EStateM.run_bind, EStateM.run_get]
    simp only [hf, hst]
  have hrec : (V3.fstatRecorded ops).run m.kern = (do
      let r ← V3.filestatUser ops f st
      pure (r, some st) : KM σ ι π (Word × Option Word)).run m.kern := by
    rw [V3.fstatRecorded, EStateM.run_bind, EStateM.run_get]
    simp only [hf, hst]
  have hset : (setInt (createSyscall V3.SYS.fstat) fd).run m.core
      = .ok (Entry.call ⟨V3.SYS.fstat, [.int fd]⟩) m.core :=
    setInt_run V3.SYS.fstat [] (by decide) _ fd
  rw [RecordsAs, horig]
  cases hstat : (V3.filestatUser ops f st).run m.kern with
  | error msg kern₁ =>
    rw [run_bind_of_error hstat] at hrec
    refine ⟨(fun _ _ h => by cases h), fun msg' kern' h => ?_⟩
    injection h with hmsg hkern
    subst hmsg hkern
    rw [recordFstat, run_bind_of_ok (fetchInt_run hfd), run_bind_of_ok (run_onCore_of_ok hset),
      run_bind_of_error (run_onKern_of_error hrec)]
  | ok r kern₁ =>
    rw [run_bind_of_ok hstat, EStateM.run_pure] at hrec
    refine ⟨fun ret kern' h => ?_, fun _ _ h => by cases h⟩
    injection h with hret hkern
    subst hret hkern
    have hset₁ : (setInt (Entry.call ⟨V3.SYS.fstat, [.int fd]⟩) r).run m.core
        = .ok (Entry.call ⟨V3.SYS.fstat, [.int fd, .int r]⟩) m.core :=
      setInt_run V3.SYS.fstat [.int fd] (show 1 < maxFieldSize by decide) _ r
    have hset₂ : (setPackedStat (Entry.call ⟨V3.SYS.fstat, [.int fd, .int r]⟩)
        (loadStat kern₁.proc.mem st.toNat)).run m.core = .ok (Entry.call ⟨V3.SYS.fstat,
          [.int fd, .int r, .pstat (loadStat kern₁.proc.mem st.toNat)]⟩) m.core :=
      setPackedStat_run V3.SYS.fstat [.int fd, .int r] (show 2 < maxFieldSize by decide) _ _
    rw [recordFstat, run_bind_of_ok (fetchInt_run hfd), run_bind_of_ok (run_onCore_of_ok hset),
      run_bind_of_ok (run_onKern_of_ok hrec), EStateM.run_bind, EStateM.run_get]
    simp only
    rw [run_bind_of_ok (run_onCore_of_ok (m := ⟨m.core, kern₁⟩) hset₁)]
    simp only
    rw [run_bind_of_ok (run_onCore_of_ok (m := ⟨m.core, kern₁⟩) hset₂),
      run_bind_of_ok (run_onCore_of_ok (m := ⟨m.core, kern₁⟩) (addSyscall_run hidx _)),
      EStateM.run_pure]
    simp only [outputs, hst, Option.map_some, Option.toList_some]
    rfl

variable {kern : Kern σ ι π} {path : List Byte}

omit hidx in
theorem unlinkOriginal_eq (hpath : argstr kern.proc 0 = some path) :
    (V3.unlinkOriginal ops).run kern = (do
      onFs ops.beginOp
      match ← onFs (ops.nameiparent kern.proc.cwd path) with
      | none => do
        onFs ops.endOp
        pure (-1)
      | some (dp, name) => V3.unlinkFound ops dp name : KM σ ι π Word).run kern := by
  rw [V3.unlinkOriginal, EStateM.run_bind, EStateM.run_get]
  simp only [hpath]
  rfl

omit hidx in
theorem unlinkRecorded_eq (hpath : argstr kern.proc 0 = some path) :
    (unlinkRecorded ops).run kern = (do
      onFs ops.beginOp
      match ← onFs (ops.nameiparent kern.proc.cwd path) with
      | none => do
        onFs ops.endOp
        pure none
      | some (dp, name) => do
        let status ← V3.unlinkFound ops dp name
        pure (some status) : KM σ ι π (Option Word)).run kern := by
  rw [unlinkRecorded, EStateM.run_bind, EStateM.run_get]
  dsimp only
  rewrite [hpath]
  rfl

omit hidx in
theorem parentMissing_iff {s₁ s₂ : σ} {found : Option (ι × List Byte)}
    (hpath : argstr kern.proc 0 = some path) (hbegin : ops.beginOp.run kern.fs = .ok () s₁)
    (hparent : (ops.nameiparent kern.proc.cwd path).run s₁ = .ok found s₂) :
    ParentMissing ops kern ↔ found = none := by
  constructor
  · rintro ⟨path', s₁', s₂', hpath', hbegin', hparent'⟩
    obtain rfl := Option.some.inj (hpath.symm.trans hpath')
    obtain rfl : s₁ = s₁' := by rw [hbegin] at hbegin'; injection hbegin'
    rw [hparent] at hparent'
    injection hparent'
  · rintro rfl
    exact ⟨path, s₁, s₂, hpath, hbegin, hparent⟩

omit hidx in
/-- The pasted code of `sys_unlink` against the original: the same run, whose result is lost
when the parent directory is missing. -/
theorem unlinkRecorded_run (hpath : argstr kern.proc 0 = some path) :
    match (V3.unlinkOriginal ops).run kern with
    | .ok ret kern' =>
      (ParentMissing ops kern → ret = -1 ∧ (unlinkRecorded ops).run kern = .ok none kern') ∧
      (¬ ParentMissing ops kern → (unlinkRecorded ops).run kern = .ok (some ret) kern')
    | .error msg kern' => (unlinkRecorded ops).run kern = .error msg kern' := by
  rw [unlinkOriginal_eq ops hpath, unlinkRecorded_eq ops hpath]
  cases hbegin : ops.beginOp.run kern.fs with
  | error msg s₁ =>
    have hstop : (onFs ops.beginOp : KM σ ι π Unit).run kern = .error msg { kern with fs := s₁ } :=
      run_zoom_of_error hbegin
    rw [run_bind_of_error hstop, run_bind_of_error hstop]
  | ok u s₁ =>
    have hgo : (onFs ops.beginOp : KM σ ι π Unit).run kern = .ok u { kern with fs := s₁ } :=
      run_zoom_of_ok hbegin
    rw [run_bind_of_ok hgo, run_bind_of_ok hgo]
    cases hparent : (ops.nameiparent kern.proc.cwd path).run s₁ with
    | error msg s₂ =>
      have hstop : (onFs (ops.nameiparent kern.proc.cwd path) :
          KM σ ι π (Option (ι × List Byte))).run { kern with fs := s₁ }
          = .error msg { kern with fs := s₂ } := run_zoom_of_error hparent
      rw [run_bind_of_error hstop, run_bind_of_error hstop]
    | ok found s₂ =>
      have hfound : (onFs (ops.nameiparent kern.proc.cwd path) :
          KM σ ι π (Option (ι × List Byte))).run { kern with fs := s₁ }
          = .ok found { kern with fs := s₂ } := run_zoom_of_ok hparent
      rw [run_bind_of_ok hfound, run_bind_of_ok hfound,
        parentMissing_iff ops hpath hbegin hparent]
      cases found with
      | none =>
        cases hend : (onFs ops.endOp : KM σ ι π Unit).run { kern with fs := s₂ } with
        | error msg kern₃ => rw [run_bind_of_error hend, run_bind_of_error hend]
        | ok u kern₃ =>
          rw [run_bind_of_ok hend, run_bind_of_ok hend]
          exact ⟨fun _ => ⟨rfl, rfl⟩, fun h => absurd rfl h⟩
      | some found =>
        obtain ⟨dp, name⟩ := found
        simp only
        cases hbody : (V3.unlinkFound ops dp name).run { kern with fs := s₂ } with
        | error msg kern₃ => exact run_bind_of_error hbody
        | ok status kern₃ =>
          refine ⟨(fun h => by cases h), fun _ => ?_⟩
          rw [run_bind_of_ok hbody, EStateM.run_pure]

omit hidx in
/-- The record branch of `unlink`, up to the pasted code. -/
theorem recordUnlink_run (hfetch : Fetches .unlink m.kern.proc ins) :
    ∃ path, ins = [.str path] ∧ argstr m.kern.proc 0 = some path ∧
      (recordUnlink ops).run m = (do
        match ← onKern (unlinkRecorded ops) with
        | none => pure (-1)
        | some status => do
          let recorded ← onCore (setInt (Entry.call ⟨V3.SYS.unlink, [.bytes path]⟩) status)
          onCore (addSyscall recorded)
          pure status : SysM σ ι π Word).run m := by
  obtain ⟨arg, args, rfl, harg, hargs⟩ := argsOf_cons hfetch.inputs
  obtain ⟨path, hpath, rfl⟩ := Option.map_eq_some_iff.mp harg
  obtain rfl := Option.some.inj hargs
  have hfetched : argsOf m.kern.proc [.str 0] = some [.str path] := hfetch.inputs
  have hset := setInputs_run V3.SYS.unlink hfetch.wf (show 1 ≤ maxFieldSize by decide) m.core
  refine ⟨path, rfl, hpath, ?_⟩
  rw [recordUnlink, run_bind_of_ok (fetchInputs_run _ hfetched),
    run_bind_of_ok (run_onCore_of_ok hset)]
  rfl

/-- A recorded `unlink`, unless its parent directory is missing. -/
theorem unlink_recordsAs (hfetch : Fetches .unlink m.kern.proc ins)
    (hparent : ¬ ParentMissing ops m.kern) :
    RecordsAs (recordUnlink ops) (V3.unlinkOriginal ops) .unlink ins m := by
  obtain ⟨path, rfl, hpath, hbefore⟩ := recordUnlink_run ops hfetch
  have hbody := unlinkRecorded_run ops hpath
  constructor
  · intro ret kern' hrun
    rw [hrun] at hbody
    have hint : (setInt (Entry.call ⟨V3.SYS.unlink, [.bytes path]⟩) ret).run m.core
        = .ok (Entry.call ⟨V3.SYS.unlink, [.bytes path, .int ret]⟩) m.core :=
      setInt_run V3.SYS.unlink [.bytes path] (show 1 < maxFieldSize by decide) _ ret
    rw [hbefore, run_bind_of_ok (run_onKern_of_ok (hbody.2 hparent))]
    simp only
    rw [run_bind_of_ok (run_onCore_of_ok (m := ⟨m.core, kern'⟩) hint),
      run_bind_of_ok (run_onCore_of_ok (m := ⟨m.core, kern'⟩) (addSyscall_run hidx _))]
    rfl
  · intro msg kern' hrun
    rw [hrun] at hbody
    rw [hbefore, run_bind_of_error (run_onKern_of_error hbody)]

omit hidx in
/-- A recorded `unlink` whose parent directory is missing returns and leaves no call in the
log. -/
theorem unlink_dropped (hfetch : Fetches .unlink m.kern.proc ins)
    (hparent : ParentMissing ops m.kern) {ret : Word} {kern' : Kern σ ι π}
    (hrun : (V3.unlinkOriginal ops).run m.kern = .ok ret kern') :
    (recordUnlink ops).run m = .ok ret ⟨m.core, kern'⟩ := by
  obtain ⟨path, rfl, hpath, hbefore⟩ := recordUnlink_run ops hfetch
  have hbody := unlinkRecorded_run ops hpath
  rw [hrun] at hbody
  obtain ⟨hret, hbody⟩ := hbody.1 hparent
  rw [hbefore, run_bind_of_ok (run_onKern_of_ok hbody), hret]
  rfl

/-- **Recording runs the original code** and appends the entry of the call, for every kind,
unless the call is dropped. -/
theorem handler_recordsAs (hlim : InLimits k m.kern.proc ins) (hkept : ¬ Dropped ops k m.kern) :
    RecordsAs (handler ops k).record (handler ops k).original k ins m := by
  cases k with
  | getpid => exact recordOutput_recordsAs hidx hlim.toFetches (by decide) (fun _ _ => rfl)
  | uptime =>
    obtain rfl := Option.some.inj hlim.inputs
    exact uptime_recordsAs hidx
  | read => exact read_recordsAs ops hidx hlim
  | close => exact close_recordsAs ops hidx hlim.toFetches
  | fstat => exact fstat_recordsAs ops hidx hlim
  | link => exact recordOutput_recordsAs hidx hlim.toFetches (by decide) (fun _ _ => rfl)
  | unlink => exact unlink_recordsAs ops hidx hlim.toFetches fun h => hkept ⟨rfl, h⟩
  | «open» => exact recordOutput_recordsAs hidx hlim.toFetches (by decide) (fun _ _ => rfl)
  | mkdir => exact recordOutput_recordsAs hidx hlim.toFetches (by decide) (fun _ _ => rfl)
  | mknod => exact recordOutput_recordsAs hidx hlim.toFetches (by decide) (fun _ _ => rfl)
  | chdir => exact recordOutput_recordsAs hidx hlim.toFetches (by decide) (fun _ _ => rfl)

end Copies

end

end V2
