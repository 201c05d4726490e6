/-
# Divergence of a replay from its recording

A replaying process may make other calls than the recording had.  The comparator
looks at the syscall number and at the inputs, and marks the process killed when they
differ; the handler then still runs its tail, and only on the way back to user mode
does `trap` exit the process.

Two things get past this.  A `chdir` is logged under the number of `mkdir`, so that
one is taken for the other when the paths agree.  And the tail of a rejected `read`
copies as many bytes as the argument before the first output of the logged call says,
whatever that argument is, which may be more than the caller has mapped.  A third is the
opposite: a replay that starts while another process records has an empty log, and is
exited at its first call even if that is the recorded one.
-/
import Xv6Recorder.Lockstep
import Xv6Recorder.V3Fidelity
import Xv6Recorder.V3System

open Bytes StateError Xv6

namespace V3

section

variable {σ ι π : Type}

/-! ## Calls that are made and their fate -/

/-- A recorded-kind call that a process makes in the kernel `kern`, with the inputs
`ins`. -/
structure Issue (σ ι π : Type) where
  kind : Kind
  frame : Frame
  ins : List FieldValue
  kern : Kern σ ι π

/-- Process `pid` makes the call, and its argument fetches succeed. -/
def Issue.MadeBy (pid : Word) (issue : Issue σ ι π) : Prop :=
  issue.kern.proc.pid = pid ∧ issue.kind.Fetches issue.kern.proc issue.ins

variable (ops : FsOps σ ι π)

/-- Make the calls one after the other: the recorder's state after the last, when the
result of each is delivered to user mode. -/
def deliver (c : Core) : List (Issue σ ι π) → Option Core
  | [] => some c
  | issue :: issues =>
    match (trap ops issue.frame (.call issue.kind)).run ⟨c, issue.kern⟩ with
    | .ok (some _) m => deliver m.core issues
    | _ => none

/-- The call marks its process killed, and `trap` exits the process instead of
returning to user mode. -/
def Issue.Exits (issue : Issue σ ι π) (c : Core) : Prop :=
  ∃ v m, (syscall ops issue.frame (.call issue.kind)).run ⟨c, issue.kern⟩ = .ok (some v) m ∧
    m.core.killed = true ∧
    (trap ops issue.frame (.call issue.kind)).run ⟨c, issue.kern⟩
      = (onKern (exit ops) >>= fun _ => pure none).run m

/-- The call at a position is the one that was recorded there. -/
def Matches (calls : List (Call σ ι π)) (issues : List (Issue σ ι π)) (i : ℕ) : Prop :=
  ∃ call issue, calls[i]? = some call ∧ issues[i]? = some issue ∧ call.kind = issue.kind ∧
    call.ins = issue.ins

/-- The replay is as far as `i` calls, all of which are those recorded, and then makes
another one. -/
structure FirstMismatch (calls : List (Call σ ι π)) (issues : List (Issue σ ι π)) (i : ℕ)
    (issue : Issue σ ι π) : Prop where
  at_pos : issues[i]? = some issue
  before : ∀ j < i, Matches calls issues j
  here : ¬ Matches calls issues i

/-- **What divergence detection means**, from the state `c` after `sys_replay_start`:
the result of a call is delivered exactly when it and all calls before it are the
recorded ones, and at the first that is not the process is marked killed and exits. -/
structure Detects (c : Core) (calls : List (Call σ ι π)) (issues : List (Issue σ ι π)) :
    Prop where
  delivered_iff : ∀ i < issues.length,
    (deliver ops c (issues.take (i + 1))).isSome ↔ ∀ j ≤ i, Matches calls issues j
  exits : ∀ i issue, FirstMismatch calls issues i issue →
    ∃ c', deliver ops c (issues.take i) = some c' ∧ issue.Exits ops c'

/-! ## The two gaps -/

/-- The word at the start of an input: a number, or the length of a path. -/
def FieldValue.word : FieldValue → Word
  | .int x => x
  | .raw bytes => BitVec.ofNat 32 bytes.length
  -- no input has another type
  | _ => 0

/-- The size that the tail of a `read` finds when the call at hand in the log is
`logged`: its last input, or what lies below the arguments when it has none, or two
below when the log is at its end. -/
def copySize (frame : Frame) (logged : Option (Call σ ι π)) : Word :=
  match logged with
  | none => (frame.around (-2)).val.num
  | some call =>
    match call.ins.getLast? with
    | none => (frame.around (-1)).val.num
    | some v => v.word

/-- The copy that a `read` makes from the logged call stays in the mapped pages. -/
def Issue.CopyFits (issue : Issue σ ι π) (logged : Option (Call σ ι π)) : Prop :=
  ∀ addr n, readArgs issue.kern.proc = some (addr, n) →
    addr.toNat + (copySize issue.frame logged).toNat ≤ pgroundup issue.kern.proc.sz

/-- A `mkdir` and a `chdir` with the same path. -/
def Confused (call : Call σ ι π) (issue : Issue σ ι π) : Prop :=
  (call.kind = .mkdir ∧ issue.kind = .chdir ∨ call.kind = .chdir ∧ issue.kind = .mkdir) ∧
    call.ins = issue.ins

/-- The condition under which a divergence is handled: the first call that is not the
recorded one is not a `chdir` for a `mkdir` of the same path or the other way round,
and if it is a `read`, its copy from the logged call stays in the mapped pages. -/
def ToldApart (calls : List (Call σ ι π)) (issues : List (Issue σ ι π)) : Prop :=
  ∀ i issue, FirstMismatch calls issues i issue →
    (∀ call, calls[i]? = some call → ¬ Confused call issue) ∧
    (issue.kind = .read → issue.CopyFits calls[i]?)

/-- The condition when the replay was given no log: the first call is not the recorded
one either, and if it is a `read`, its copy stays in the mapped pages. -/
def RejectedAtOnce (calls : List (Call σ ι π)) (issues : List (Issue σ ι π)) : Prop :=
  ∀ issue, issues[0]? = some issue →
    ¬ Matches calls issues 0 ∧ (issue.kind = .read → issue.CopyFits none)

/-! ## Sequences of delivered calls -/

variable {ops} {c c' : Core}

variable (ops) in
/-- Make one call: the recorder's state afterwards, when its result is delivered. -/
def deliverOne (c : Core) (issue : Issue σ ι π) : Option Core :=
  match (trap ops issue.frame (.call issue.kind)).run ⟨c, issue.kern⟩ with
  | .ok (some _) m => some m.core
  | _ => none

theorem deliver_eq_foldlM (issues : List (Issue σ ι π)) :
    deliver ops c issues = issues.foldlM (deliverOne ops) c := by
  induction issues generalizing c with
  | nil => rfl
  | cons issue issues ih =>
    rw [deliver, List.foldlM_cons, deliverOne]
    split
    · exact ih
    · rfl

/-- The call is taken for the one recorded at position `i`. -/
def Accepted (calls : List (Call σ ι π)) (i : ℕ) (issue : Issue σ ι π) : Prop :=
  ∃ call, calls[i]? = some call ∧ call.kind.number = issue.kind.number ∧ call.ins = issue.ins

variable {calls : List (Call σ ι π)} {issues : List (Issue σ ι π)}

/-- Taken for the recorded one are that call itself, and the one confused with it. -/
theorem accepted_iff {i : ℕ} {issue : Issue σ ι π} (hat : issues[i]? = some issue) :
    Accepted calls i issue ↔
      Matches calls issues i ∨ ∃ call, calls[i]? = some call ∧ Confused call issue := by
  constructor
  · rintro ⟨call, hcall, hnum, hins⟩
    rcases (number_eq_iff _ _).mp hnum with hkind | hkinds
    · exact .inl ⟨call, issue, hcall, hat, hkind, hins⟩
    · exact .inr ⟨call, hcall, hkinds, hins⟩
  · rintro (⟨call, issue', hcall, hissue', hkind, hins⟩ | ⟨call, hcall, hkinds, hins⟩)
    · obtain rfl := Option.some.inj (hat.symm.trans hissue')
      exact ⟨call, hcall, by rw [hkind], hins⟩
    · exact ⟨call, hcall, (number_eq_iff _ _).mpr (.inr hkinds), hins⟩

theorem Matches.expectedAt {i : ℕ} (h : Matches calls issues i) :
    Lockstep.ExpectedAt (Accepted calls) issues i := by
  obtain ⟨call, issue, hcall, hissue, hkind, hins⟩ := h
  exact ⟨issue, hissue, call, hcall, by rw [hkind], hins⟩

/-! ## One replayed call -/

section

variable {pid : Word} {calls : List (Call σ ι π)} {i : ℕ} {issue : Issue σ ι π}

/-- When the tail of a replayed call returns: always, except for a `read` whose copy
leaves the mapped pages. -/
theorem replay_tail_ok_iff (ops : FsOps σ ι π) (k : Kind) (frame : Frame) (recorded : SCR)
    (m : Machine σ ι π) {ins : List FieldValue} (hfetch : k.Fetches m.kern.proc ins) :
    (∃ v m', ((handler ops k).replay frame recorded).run m = .ok v m') ↔
      (k = .read → ∀ addr n, readArgs m.kern.proc = some (addr, n) → addr.toNat +
        (recorded.argAt frame (get1stOutputPos recorded.syscall - 1)).val.num.toNat
          ≤ pgroundup m.kern.proc.sz) := by
  cases k with
  | read =>
    obtain ⟨⟨addr, n⟩, hargs⟩ := Option.isSome_iff_exists.mp (hfetch.read rfl)
    simp only [handler, sysRead]
    rw [replayRead_at frame recorded m (argptr_readSize frame hargs) rfl]
    constructor
    · rintro ⟨v, m', h⟩ - addr' n' hargs'
      obtain ⟨rfl, rfl⟩ := Prod.mk.inj (Option.some.inj (hargs.symm.trans hargs'))
      by_contra hfit
      rw [if_neg hfit] at h
      cases h
    · intro hfit
      rw [if_pos (hfit trivial addr n hargs)]
      exact ⟨_, _, rfl⟩
  | fstat =>
    obtain ⟨addr, haddr⟩ := Option.isSome_iff_exists.mp (hfetch.fstat rfl)
    simp only [handler, sysFstat]
    rw [replayFstat_run frame recorded m haddr rfl]
    exact iff_of_true ⟨_, _, rfl⟩ (fun h => by cases h)
  | _ => exact iff_of_true ⟨_, _, rfl⟩ (fun h => by cases h)

/-- The word at the start of an argument whose value is an input. -/
theorem num_eq_word {arg : Arg} {v : FieldValue} (h : arg.value = v)
    (htag : v.tag = intType ∨ v.tag = byteType) : arg.val.num = v.word := by
  subst h
  obtain ⟨t, val⟩ := arg
  rw [tag_value] at htag
  rcases htag with rfl | rfl
  · rw [value_int]
    rfl
  · rw [value_raw, FieldValue.word, length_slice, BitVec.ofNat_toNat, BitVec.setWidth_eq]
    rfl

/-- The size that the tail of a `read` finds. -/
theorem ReplayingAt.num_argAt (h : ReplayingAt c pid (calls.map Call.entry) i)
    (hlen : calls.length ≤ maxScrs) (hlim : ∀ call ∈ calls, call.InLimits) (frame : Frame) :
    (c.next.argAt frame (get1stOutputPos c.next.syscall - 1)).val.num
      = copySize frame calls[i]? := by
  by_cases hi : i < calls.length
  · have hnext := h.next_entry hlen hi
    have hcall := hlim _ (List.getElem_mem hi)
    have hpos : get1stOutputPos c.next.syscall = calls[i].ins.length := by
      rw [hnext.syscall_eq, fetchInputs_length hcall.inputs]
      exact get1stOutputPos_number _
    rw [hpos, List.getElem?_eq_getElem hi, copySize]
    rcases List.eq_nil_or_concat calls[i].ins with hnil | ⟨front, v, hins⟩
    · simp only [hnil, List.length_nil, List.getLast?_nil]
      rfl
    · -- the last input stands right before the first output
      rw [List.concat_eq_append] at hins
      have hvalue : (c.next.argAt frame front.length).value = v := by
        rw [hnext.argAt_value frame front.length (by simp [Call.entry, hins])]
        simp [Call.entry, hins]
      have htag : v.tag = intType ∨ v.tag = byteType := by
        have htags := fetchInputs_tags hcall.inputs
        rw [hins, List.map_append, List.map_singleton] at htags
        have hmem : v.tag ∈ calls[i].kind.inputs.map Input.tag := by
          rw [← htags]
          exact List.mem_append_right _ (List.mem_singleton_self _)
        obtain ⟨input, -, htag⟩ := List.mem_map.mp hmem
        rw [← htag]
        cases input with
        | int pos => exact .inl rfl
        | str pos => exact .inr rfl
      simp only [hins, List.length_append, List.length_singleton, List.getLast?_concat,
        Nat.cast_add, Nat.cast_one, add_sub_cancel_right]
      exact num_eq_word hvalue htag
  · rw [List.getElem?_eq_none (by omega), h.next_unused (by rw [List.length_map]; omega)]
    rfl

/-- A handler that returns, as a system call. -/
theorem syscall_call_iff {frame : Frame} {k : Kind} {m m' : Machine σ ι π} {r : Option Word} :
    (syscall ops frame (.call k)).run m = .ok r m' ↔
      ∃ v, ((handler ops k).run frame).run m = .ok v m' ∧ r = some v := by
  simp only [eq_comm (a := r)]
  exact run_bind_pure_eq_ok

/-- A call that kills its process ends in `exit`. -/
theorem trap_of_killed {frame : Frame} {sc : Syscall} {v : Word} {m m' : Machine σ ι π}
    (halive : m.core.killed = false) (hcall : (syscall ops frame sc).run m = .ok (some v) m')
    (hkilled : m'.core.killed = true) : (trap ops frame sc).run m
      = (onKern (exit ops) >>= fun _ => pure none).run m' := by
  rw [trap, EStateM.run_bind, EStateM.run_get]
  simp only [halive, Bool.false_eq_true, if_false]
  rw [run_bind_of_ok hcall]
  simp only [EStateM.run_bind, EStateM.run_get, hkilled, if_true]

variable (h : ReplayingAt c pid (calls.map Call.entry) i) (hlen : calls.length ≤ maxScrs)
  (hlim : ∀ call ∈ calls, call.InLimits) (halive : c.killed = false) (hmade : issue.MadeBy pid)
include h hlen hlim halive hmade

/-- **An accepted call** is delivered. -/
theorem ReplayingAt.deliver_accepted (haccepted : Accepted calls i issue) :
    deliverOne ops c issue = some c.step := by
  obtain ⟨call, hcall, hnum, hins⟩ := haccepted
  obtain ⟨hpid, hfetch⟩ := hmade
  have hrun : ∃ v kern', ((handler ops issue.kind).run issue.frame).run ⟨c, issue.kern⟩
      = .ok v ⟨c.step, kern'⟩ := by
    by_cases hkind : call.kind = issue.kind
    · rw [← hkind, ← hins] at hfetch
      have hreissued : call.ReissuedBy pid (issue.frame, issue.kern) := ⟨hpid, hfetch⟩
      obtain ⟨kern', hrun, -⟩ := h.call hlen hlim hcall hreissued
      exact ⟨_, kern', by rw [← hkind]; exact hrun⟩
    · -- then the two are a `mkdir` and a `chdir`, whose tails cannot fail
      have hread : issue.kind ≠ .read := by
        rintro hread
        rcases (number_eq_iff _ _).mp hnum with heq | ⟨-, hchdir⟩ | ⟨-, hmkdir⟩
        · exact hkind heq
        · rw [hread] at hchdir
          cases hchdir
        · rw [hread] at hmkdir
          cases hmkdir
      obtain ⟨scr, hscr, hrun⟩ := run_replaying_call ops issue.kind issue.frame ⟨c, issue.kern⟩
        (h.isReplaying hpid) hfetch
      have haccepts : Accepts c scr :=
        (h.accepts_iff hlen hlim hfetch.inputs hscr).mpr ⟨call, hcall, hnum, hins⟩
      obtain ⟨v, m', htail⟩ := (replay_tail_ok_iff ops issue.kind issue.frame c.next
        ⟨c.compared scr, issue.kern⟩ hfetch).mpr fun heq => absurd heq hread
      obtain ⟨mem, hend, -⟩ := replay_tail_frame ops issue.kind issue.frame c.next
        ⟨c.compared scr, issue.kern⟩ hfetch
      rw [htail, endState_ok] at hend
      refine ⟨v, withMem issue.kern mem, ?_⟩
      rw [hrun, htail, hend, Core.compared, if_pos haccepts]
  obtain ⟨v, kern', hrun⟩ := hrun
  rw [deliverOne, trap_of_alive halive (syscall_call_iff.mpr ⟨v, hrun, rfl⟩) halive]

/-- **A rejected call** is not delivered, and exits its process unless its tail
panics. -/
theorem ReplayingAt.deliver_rejected (hno : ¬ Accepted calls i issue) :
    deliverOne ops c issue = none ∧
      (issue.Exits ops c ↔ (issue.kind = .read → issue.CopyFits calls[i]?)) := by
  obtain ⟨hpid, hfetch⟩ := hmade
  obtain ⟨scr, -, hrun⟩ := run_replaying_call ops issue.kind issue.frame ⟨c, issue.kern⟩
    (h.isReplaying hpid) hfetch
  have hkilled : ∀ v m, ((handler ops issue.kind).run issue.frame).run ⟨c, issue.kern⟩ = .ok v m →
      m.core.killed = true :=
    fun v m hok => h.killed_of_rejected hlen hlim hpid hfetch hno hok
  have hsyscall : ∀ r m, (syscall ops issue.frame (.call issue.kind)).run ⟨c, issue.kern⟩
      = .ok r m → m.core.killed = true := by
    intro r m hok
    obtain ⟨v, hok, -⟩ := syscall_call_iff.mp hok
    exact hkilled v m hok
  constructor
  · rw [deliverOne]
    split
    case h_1 v m htrap =>
      rcases trap_eq_ok htrap with ⟨hdead, -⟩ | ⟨-, r, m₁, hcall, -, heax⟩
      · rw [halive] at hdead
        cases hdead
      · rw [hsyscall r m₁ hcall] at heax
        cases heax
    case h_2 => rfl
  · have htail := replay_tail_ok_iff ops issue.kind issue.frame c.next
      ⟨c.compared scr, issue.kern⟩ hfetch
    rw [h.num_argAt hlen hlim] at htail
    rw [Issue.CopyFits]
    constructor
    · rintro ⟨v, m, hok, -⟩
      obtain ⟨v, hok, -⟩ := syscall_call_iff.mp hok
      exact htail.mp ⟨v, m, by rw [← hok, hrun]⟩
    · intro hfits
      obtain ⟨v, m, hok⟩ := htail.mpr hfits
      rw [← hrun] at hok
      have hcall := syscall_call_iff.mpr ⟨v, hok, rfl⟩
      exact ⟨v, m, hcall, hkilled v m hok, trap_of_killed halive hcall (hkilled v m hok)⟩

end

/-! ## A whole replay -/

/-- Replaying steps along the log: the calls that are delivered are those accepted. -/
theorem follows_log (ops : FsOps σ ι π) (pid : Word) (hlen : calls.length ≤ maxScrs)
    (hlim : ∀ call ∈ calls, call.InLimits) :
    Lockstep.Follows (deliverOne ops) (Issue.MadeBy pid)
      (fun i c => ReplayingAt c pid (calls.map Call.entry) i ∧ c.killed = false)
      (Accepted calls) where
  go := by
    rintro i c issue ⟨h, halive⟩ hmade ⟨call, hcall, hsame⟩
    have hi : i < calls.length := (List.getElem?_eq_some_iff.mp hcall).1
    exact ⟨c.step, h.deliver_accepted hlen hlim halive hmade ⟨call, hcall, hsame⟩,
      h.step (by omega), halive⟩
  stop := by
    rintro i c issue ⟨h, halive⟩ hmade hno
    exact (h.deliver_rejected hlen hlim halive hmade hno).1

section

variable (ops) {pid : Word} {calls : List (Call σ ι π)} {issues : List (Issue σ ι π)}
  (h : ReplayingAt c pid (calls.map Call.entry) 0) (hlen : calls.length ≤ maxScrs)
  (hlim : ∀ call ∈ calls, call.InLimits) (halive : c.killed = false)
  (hmade : ∀ issue ∈ issues, issue.MadeBy pid)
include h hlen hlim halive hmade

/-- A call is delivered exactly when it and all before it are accepted. -/
theorem ReplayingAt.delivered_iff {i : ℕ} (hi : i < issues.length) :
    (deliver ops c (issues.take (i + 1))).isSome ↔
      ∀ j ≤ i, Lockstep.ExpectedAt (Accepted calls) issues j := by
  rw [deliver_eq_foldlM]
  exact (follows_log ops pid hlen hlim).isSome_iff hmade ⟨h, halive⟩ hi

/-- The first call that is not the recorded one: unless it is accepted, it exits its
process, provided its tail does not panic. -/
theorem ReplayingAt.first_mismatch {i : ℕ} {issue : Issue σ ι π}
    (hfirst : FirstMismatch calls issues i issue) :
    ∃ c', deliver ops c (issues.take i) = some c' ∧ (¬ Accepted calls i issue →
      (issue.Exits ops c' ↔ (issue.kind = .read → issue.CopyFits calls[i]?))) := by
  obtain ⟨c', hpast, hat, halive'⟩ := (follows_log ops pid hlen hlim).runs hmade ⟨h, halive⟩
    fun j hj => (hfirst.before j hj).expectedAt
  rw [← deliver_eq_foldlM] at hpast
  exact ⟨c', hpast, fun hno => (hat.deliver_rejected hlen hlim halive'
    (hmade issue (List.mem_of_getElem? hfirst.at_pos)) hno).2⟩

omit h halive hlen hlim hmade in
variable {ops} in
/-- When the first other call is told apart, accepted calls are the recorded ones. -/
theorem ToldApart.matches_of_expected (hapart : ToldApart calls issues) {i : ℕ}
    (hexp : ∀ j ≤ i, Lockstep.ExpectedAt (Accepted calls) issues j) :
    ∀ j ≤ i, Matches calls issues j := by
  intro j
  -- the first that is not would be a mismatch that is accepted, so a confused one
  induction j using Nat.strong_induction_on with
  | _ j ih =>
    intro hj
    by_contra hhere
    obtain ⟨issue, hissue, haccepted⟩ := hexp j hj
    have hfirst : FirstMismatch calls issues j issue :=
      ⟨hissue, fun j' hj' => ih j' hj' (by omega), hhere⟩
    rcases (accepted_iff hissue).mp haccepted with hmatch | ⟨call, hcall, hconfused⟩
    · exact hhere hmatch
    · exact (hapart j issue hfirst).1 call hcall hconfused

/-- **Detection is complete** exactly when the first other call is told apart. -/
theorem ReplayingAt.detects_iff : Detects ops c calls issues ↔ ToldApart calls issues := by
  constructor
  · rintro ⟨hiff, hexits⟩ i issue hfirst
    obtain ⟨c', hpast, hrejected⟩ := h.first_mismatch ops hlen hlim halive hmade hfirst
    have hi : i < issues.length := (List.getElem?_eq_some_iff.mp hfirst.at_pos).1
    have hno : ¬ Accepted calls i issue := by
      intro haccepted
      refine hfirst.here ((hiff i hi).mp ?_ i le_rfl)
      refine (h.delivered_iff ops hlen hlim halive hmade hi).mpr fun j hj => ?_
      rcases Nat.lt_or_eq_of_le hj with hlt | rfl
      · exact (hfirst.before j hlt).expectedAt
      · exact ⟨issue, hfirst.at_pos, haccepted⟩
    obtain ⟨c'', hpast', hexit⟩ := hexits i issue hfirst
    rw [hpast] at hpast'
    obtain rfl := Option.some.inj hpast'
    exact ⟨fun call hcall hconfused => hno ((accepted_iff hfirst.at_pos).mpr
      (.inr ⟨call, hcall, hconfused⟩)), (hrejected hno).mp hexit⟩
  · intro hapart
    refine ⟨fun i hi => ?_, fun i issue hfirst => ?_⟩
    · rw [h.delivered_iff ops hlen hlim halive hmade hi]
      exact ⟨hapart.matches_of_expected, fun hmatch j hj => (hmatch j hj).expectedAt⟩
    · obtain ⟨hnot, hread⟩ := hapart i issue hfirst
      obtain ⟨c', hpast, hrejected⟩ := h.first_mismatch ops hlen hlim halive hmade hfirst
      refine ⟨c', hpast, (hrejected fun haccepted => ?_).mpr hread⟩
      rcases (accepted_iff hfirst.at_pos).mp haccepted with hmatch | ⟨call, hcall, hconfused⟩
      · exact hfirst.here hmatch
      · exact hnot call hcall hconfused

end

/-- **Detection over an empty log** is complete exactly when the first call is not the
recorded one. -/
theorem ReplayingAt.detects_iff_of_nil {pid : Word} (h : ReplayingAt c pid [] 0)
    (halive : c.killed = false) (hmade : ∀ issue ∈ issues, issue.MadeBy pid) :
    Detects ops c calls issues ↔ RejectedAtOnce calls issues := by
  have hempty : ReplayingAt c pid (([] : List (Call σ ι π)).map Call.entry) 0 := h
  -- the first call finds an unused record
  have hreject : ∀ issue, issues[0]? = some issue → deliverOne ops c issue = none ∧
      (issue.Exits ops c ↔ (issue.kind = .read → issue.CopyFits none)) := fun issue hissue =>
    hempty.deliver_rejected (Nat.zero_le _) (by simp) halive
      (hmade issue (List.mem_of_getElem? hissue)) (by simp [Accepted])
  have hnone : ∀ i < issues.length, deliver ops c (issues.take (i + 1)) = none := by
    intro i hi
    cases issues with
    | nil => exact absurd hi (Nat.not_lt_zero _)
    | cons issue issues =>
      rw [deliver_eq_foldlM, List.take_succ_cons, List.foldlM_cons, (hreject issue rfl).1]
      rfl
  constructor
  · rintro ⟨hiff, hexits⟩ issue hissue
    have hpos : 0 < issues.length := (List.getElem?_eq_some_iff.mp hissue).1
    have hother : ¬ Matches calls issues 0 := by
      intro hmatch
      have := (hiff 0 hpos).mpr fun j hj => by rwa [Nat.le_zero.mp hj]
      rw [hnone 0 hpos] at this
      cases this
    obtain ⟨c', hpast, hexit⟩ := hexits 0 issue
      ⟨hissue, fun j hj => absurd hj (Nat.not_lt_zero _), hother⟩
    obtain rfl := Option.some.inj hpast
    exact ⟨hother, (hreject issue hissue).2.mp hexit⟩
  · intro hother
    refine ⟨fun i hi => ?_, fun i issue hfirst => ?_⟩
    · rw [hnone i hi]
      refine iff_of_false (by simp) fun hmatch => ?_
      obtain ⟨issue, hissue⟩ : ∃ issue, issues[0]? = some issue :=
        ⟨_, List.getElem?_eq_getElem (by omega)⟩
      exact (hother issue hissue).1 (hmatch 0 (Nat.zero_le _))
    · cases i with
      | zero => exact ⟨c, rfl, (hreject issue hfirst.at_pos).2.mpr (hother issue hfirst.at_pos).2⟩
      | succ i =>
        obtain ⟨call, issue₀, hcall, hissue, hsame⟩ := hfirst.before 0 (Nat.succ_pos i)
        exact absurd ⟨call, issue₀, hcall, hissue, hsame⟩ (hother issue₀ hissue).1

/-- **Divergence detection.**  A process records `calls` within the limits, and another
starts to replay the file, unchanged.  The calls that it then makes, with any inputs that
can be fetched, are answered as long as they are the recorded ones, and exit the process at
the first that is not, exactly when one of two conditions holds.  If nobody records at the
start of the replay, the first other call has to be told apart: it is not a `chdir` for a
recorded `mkdir` of the same path or the other way round, and if it is a `read`, the size
that the logged call has in the place of the recorded size keeps the copy in the mapped
pages.  If somebody records, already the first call has to be another one, with the same
condition on a `read`. -/
theorem divergence_detection_iff {store : FileStore ops} {path filename : List Byte}
    {m₂ m₃ m₄ : Machine σ ι π} {calls : List (Call σ ι π)}
    (hrecorded : Recorded store path calls m₂)
    (hreload : Recording.ReloadedBy store path m₂ m₃ filename m₄)
    (halive : m₃.core.killed = false) :
    ∃ c', (sysReplayStart ops).run m₃ = .ok 1 { m₄ with core := c' } ∧
      ∀ issues : List (Issue σ ι π), (∀ issue ∈ issues, issue.MadeBy m₃.kern.proc.pid) →
        (Detects ops c' calls issues ↔
          if m₃.core.session.recordSyscalls = 1 then RejectedAtOnce calls issues
          else ToldApart calls issues) := by
  obtain ⟨c', hreplay, hready, hkilled⟩ := hrecorded.replayReady hreload
  refine ⟨c', hreplay, fun issues hmade => ?_⟩
  rw [Machine.installs] at hready
  split <;> rename_i hrec
  · rw [if_pos hrec] at hready
    exact hready.replayingAt.detects_iff_of_nil (hkilled.trans halive) hmade
  · rw [if_neg hrec] at hready
    exact hready.replayingAt.detects_iff ops hrecorded.length_le hrecorded.inLimits
      (hkilled.trans halive) hmade

end

/-- A call of process `7` without inputs. -/
def plainIssue (kind : Kind) : Issue (List Byte) Unit Unit :=
  ⟨kind, Frame.zero, [], callerKern 7 pidFile⟩

/-- A replay of one `getpid` that goes on with `uptime` is stopped there. -/
theorem divergence_detection_iff_uptime : ∃ m,
    (sysReplayStart OneFile.ops).run (caller 7 pidFile) = .ok 1 m ∧
    Detects OneFile.ops m.core [pidCall] [plainIssue .getpid, plainIssue .uptime] := by
  obtain ⟨m₂, hrecorded, hfs, -⟩ := recorded_pidCall
  obtain ⟨m₄, hload⟩ := load_pidFile
  obtain ⟨m, hreload⟩ := reloaded_oneFile ⟨Session.boot, false⟩ hfs hload
  obtain ⟨c', hreplay, hiff⟩ := divergence_detection_iff hrecorded hreload rfl
  have hkind : ∀ issue ∈ [plainIssue .getpid, plainIssue .uptime],
      issue = plainIssue .getpid ∨ issue = plainIssue .uptime := by simp
  refine ⟨_, hreplay, (hiff _ fun issue hmem => ?_).mpr ?_⟩
  · rcases hkind issue hmem with rfl | rfl
    all_goals
      exact ⟨rfl, (Kind.inLimits_of_plain (by decide) (by decide) rfl (by decide)).toFetches⟩
  · -- nobody records at the start of the replay
    rw [if_neg (by decide)]
    intro i issue hfirst
    rcases hkind issue (List.mem_of_getElem? hfirst.at_pos) with rfl | rfl
    all_goals
      refine ⟨fun call _ hconfused => ?_, fun h => by cases h⟩
      rcases hconfused.1 with ⟨-, h⟩ | ⟨-, h⟩ <;> cases h

/-- A process in a call with the path `"/a"`. -/
def pathKern (pid : Word) (file : List Byte) : Kern (List Byte) Unit Unit :=
  OneFile.kern pid [64] [47, 97, 0] file

/-- A `mkdir` of process `5`, which fails. -/
def mkdirCall : Call (List Byte) Unit Unit :=
  ⟨.mkdir, Frame.zero, [.raw [47, 97]], pathKern 5 [], -1, pathKern 5 []⟩

/-- The session file of that call. -/
def mkdirFile : List Byte :=
  [1, 0, 0, 0, 20, 2, 3, 2, 0, 0, 0, 47, 97, 1, 255, 255, 255, 255]

/-- A `chdir` of process `7` with the same path. -/
def chdirIssue : Issue (List Byte) Unit Unit :=
  ⟨.chdir, Frame.zero, [.raw [47, 97]], pathKern 7 mkdirFile⟩

/-- **A divergence that goes unnoticed.**  Process `5` records `mkdir("/a")`; process `7`
replays the file, calls `chdir("/a")`, and is given the result of the `mkdir`. -/
theorem chdir_replays_mkdir : ∃ m₂ m, Recorded OneFile.store [47, 102] [mkdirCall] m₂ ∧
    m₂.kern.fs = mkdirFile ∧ (sysReplayStart OneFile.ops).run (caller 7 mkdirFile) = .ok 1 m ∧
    chdirIssue.MadeBy 7 ∧ (deliver OneFile.ops m.core [chdirIssue]).isSome ∧
    ¬ Detects OneFile.ops m.core [mkdirCall] [chdirIssue] := by
  have hlim : mkdirCall.InLimits :=
    Kind.inLimits_of_plain (by decide) (by decide) (by decide) (by decide)
  have hclose : ∃ k, (myClose OneFile.ops 0).run (writtenKern mkdirFile) = .ok 0 k ∧
      k.fs = mkdirFile := ⟨_, rfl, rfl⟩
  obtain ⟨k, hclose, hfs⟩ := hclose
  have hwrite : (myWrite OneFile.ops 0 mkdirFile).run openKern
      = .ok 18 (writtenKern mkdirFile) := rfl
  obtain ⟨m₂, hrecorded, hfile, -⟩ := recorded_oneFile [mkdirCall] (by decide)
    (by simpa using hlim) (by simp [mkdirCall, pathKern, OneFile.kern, OneFile.proc])
    (by simp only [List.mem_singleton, forall_eq]; rfl) (by decide) (by decide) hwrite
    (by decide) hclose hfs
  have hload : ∃ m₄, (loadSession OneFile.ops).run ((caller 7 mkdirFile).startReplay [47, 102])
      = .ok (some 18) m₄ := ⟨_, rfl⟩
  obtain ⟨m₄, hload⟩ := hload
  obtain ⟨m, hreload⟩ := reloaded_oneFile ⟨Session.boot, false⟩ hfile hload
  obtain ⟨c', hreplay, hready, hkilled⟩ := hrecorded.replayReady hreload
  -- nobody records, so the log is the recorded one
  have hat : ReplayingAt c' 7 ([mkdirCall].map Call.entry) 0 := hready.replayingAt
  have hmade : chdirIssue.MadeBy 7 :=
    ⟨rfl, (Kind.inLimits_of_plain (by decide) (by decide) (by decide) (by decide)).toFetches⟩
  have hdelivered : deliver OneFile.ops c' [chdirIssue] = some c'.step := by
    rw [deliver_eq_foldlM, List.foldlM_cons, hat.deliver_accepted
      hrecorded.length_le hrecorded.inLimits hkilled hmade ⟨mkdirCall, rfl, rfl, rfl⟩]
    rfl
  refine ⟨m₂, _, hrecorded, hfile, hreplay, hmade, by rw [hdelivered]; rfl, fun hdetects => ?_⟩
  -- delivered, but not the recorded call
  have hmatch := (hdetects.delivered_iff 0 (by decide)).mp (by
    show (deliver OneFile.ops c' [chdirIssue]).isSome = true
    rw [hdelivered]
    rfl) 0 le_rfl
  obtain ⟨call, issue, hcall, hissue, hkind, -⟩ := hmatch
  obtain rfl := Option.some.inj hcall
  obtain rfl := Option.some.inj hissue
  cases hkind

end V3
