/-
# What passes through a pipe

Whatever readers and writers do, the bytes that were read are the first of those that were
written, a write that returns `n` has written all its bytes in order, and a reader is told
of the end of the file only when nothing is left and nothing will come.  As long as no
process is killed, nobody sleeps without a reason.
-/
import Xv6Recorder.Pipe

open Bytes

namespace Xv6.Pipe

/-! ## One critical section -/

theorem pipeSize_lt : pipeSize < 2 ^ 32 := by decide

theorem pipeSize_dvd : pipeSize ∣ 2 ^ 32 := by decide

/-- How a writer gives back the lock. -/
inductive WriteEnds (killed : Bool) (n : Word) (rest : List Byte) (r : Section) : Prop
  | finished (hout : r.outcome = .returned n) (hwoken : r.woken = [.nread]) (hall : r.bytes = rest)
  | failed (hout : r.outcome = .returned (-1)) (hwoken : r.woken = [])
      (hwhy : r.state.readopen = false ∨ killed)
  | sleeps (hout : r.outcome = .sleeps) (hwoken : r.woken = [.nread])
      (hfull : r.state.buf.Full pipeSize) (hopen : r.state.readopen)

section

variable {killed : Bool} {n : Word} {p : State} {taken added : List Byte}

/-- A writer on a full pipe changes nothing. -/
theorem writeLoop_of_full (hfull : p.buf.Full pipeSize) (rest : List Byte) :
    (writeLoop killed n rest p).state = p ∧ (writeLoop killed n rest p).bytes = [] := by
  cases rest with
  | nil => exact ⟨rfl, rfl⟩
  | cons x rest =>
    unfold writeLoop
    rw [if_pos hfull]
    split
    · exact ⟨rfl, rfl⟩
    · exact ⟨rfl, rfl⟩

/-- **`pipewrite`** adds bytes in their order until it has written all or has to stop. -/
theorem writeLoop_spec (rest : List Byte) (h : p.buf.Holds pipeSize taken added) :
    let r := writeLoop killed n rest p
    r.state.buf.Holds pipeSize taken (added ++ r.bytes) ∧
      r.state.readopen = p.readopen ∧ r.state.writeopen = p.writeopen ∧
      r.bytes <+: rest ∧ WriteEnds killed n rest r := by
  induction rest generalizing p added with
  | nil =>
    refine ⟨?_, rfl, rfl, List.prefix_rfl, .finished rfl rfl rfl⟩
    rw [writeLoop, List.append_nil]
    exact h
  | cons x rest ih =>
    unfold writeLoop
    by_cases hfull : p.buf.Full pipeSize
    · rw [if_pos hfull]
      by_cases hstop : p.readopen = false ∨ killed
      · rw [if_pos hstop]
        refine ⟨?_, rfl, rfl, List.nil_prefix, .failed rfl rfl hstop⟩
        rw [List.append_nil]
        exact h
      · rw [if_neg hstop]
        refine ⟨?_, rfl, rfl, List.nil_prefix, .sleeps rfl rfl hfull ?_⟩
        · rw [List.append_nil]
          exact h
        · exact Bool.of_not_eq_false (not_or.mp hstop).1
    · rw [if_neg hfull]
      have hroom : added.length < taken.length + pipeSize :=
        lt_of_le_of_ne h.room fun heq => hfull ((h.full_iff pipeSize_lt).mpr heq)
      obtain ⟨hholds, hread, hwrite, hpre, hends⟩ :=
        ih (p := { p with buf := p.buf.put pipeSize x }) (h.put pipeSize_dvd hroom x)
      refine ⟨?_, hread, hwrite, ?_, ?_⟩
      · rwa [List.append_assoc] at hholds
      · exact List.cons_prefix_cons.mpr ⟨rfl, hpre⟩
      · cases hends with
        | finished hout hwoken hall => exact .finished hout hwoken (congrArg (x :: ·) hall)
        | failed hout hwoken hwhy => exact .failed hout hwoken hwhy
        | sleeps hout hwoken hfull' hopen => exact .sleeps hout hwoken hfull' hopen

/-- **The loop of `piperead`** takes the first bytes that are left. -/
theorem readLoop_spec (count : ℕ) (h : p.buf.Holds pipeSize taken added) :
    let r := readLoop count p
    r.1.buf.Holds pipeSize (taken ++ r.2) added ∧
      r.1.readopen = p.readopen ∧ r.1.writeopen = p.writeopen ∧
      (r.2 = [] → count = 0 ∨ taken = added) := by
  induction count generalizing p taken with
  | zero =>
    refine ⟨?_, rfl, rfl, fun _ => .inl rfl⟩
    rw [readLoop, List.append_nil]
    exact h
  | succ count ih =>
    unfold readLoop
    by_cases hempty : p.buf.Empty
    · rw [if_pos hempty]
      refine ⟨?_, rfl, rfl, fun _ => .inr ((h.empty_iff pipeSize_lt).mp hempty)⟩
      rw [List.append_nil]
      exact h
    · rw [if_neg hempty]
      have hsome : taken.length < added.length :=
        lt_of_le_of_ne h.order.length_le fun heq =>
          hempty ((h.empty_iff pipeSize_lt).mpr (h.order.eq_of_length heq))
      obtain ⟨hholds, hread, hwrite, -⟩ := ih (p := { p with buf := p.buf.drop })
        (h.drop pipeSize_dvd hsome)
      refine ⟨?_, hread, hwrite, fun hnil => absurd hnil (List.cons_ne_nil _ _)⟩
      rwa [List.append_assoc] at hholds

/-- How a reader gives back the lock. -/
inductive ReadEnds (killed : Bool) (n : Word) (p : State) (r : Section) : Prop
  | finished (hready : ¬ (p.buf.Empty ∧ p.writeopen)) (hwoken : r.woken = [.nwrite])
      (hout : r.outcome = .returned (BitVec.ofNat 32 r.bytes.length))
      (hnone : r.bytes = [] → n.toInt.toNat = 0 ∨ p.buf.Empty)
  | failed (hout : r.outcome = .returned (-1)) (hwoken : r.woken = []) (hsame : r.state = p)
      (hwhy : killed) (hnone : r.bytes = [])
  | sleeps (hout : r.outcome = .sleeps) (hwoken : r.woken = []) (hsame : r.state = p)
      (hempty : p.buf.Empty) (hopen : p.writeopen) (hnone : r.bytes = [])

/-- **`piperead`** takes the first bytes that are left. -/
theorem piperead_spec (killed : Bool) (n : Word) (h : p.buf.Holds pipeSize taken added) :
    let r := piperead killed n p
    r.state.buf.Holds pipeSize (taken ++ r.bytes) added ∧
      r.state.readopen = p.readopen ∧ r.state.writeopen = p.writeopen ∧
      ReadEnds killed n p r := by
  unfold piperead
  by_cases hwait : p.buf.Empty ∧ p.writeopen
  · rw [if_pos hwait]
    have hsame : p.buf.Holds pipeSize (taken ++ []) added := by rwa [List.append_nil]
    cases killed with
    | true => exact ⟨hsame, rfl, rfl, .failed rfl rfl rfl rfl rfl⟩
    | false => exact ⟨hsame, rfl, rfl, .sleeps rfl rfl rfl hwait.1 hwait.2 rfl⟩
  · rw [if_neg hwait]
    obtain ⟨hholds, hread, hwrite, hnone⟩ := readLoop_spec n.toInt.toNat h
    refine ⟨hholds, hread, hwrite, .finished hwait rfl rfl fun hnil => ?_⟩
    rcases hnone hnil with hzero | heq
    · exact .inl hzero
    · exact .inr ((h.empty_iff pipeSize_lt).mpr heq)

end

/-! ## Waking up -/

@[simp] theorem isWriting_wake (c : Chan) (phase : Phase) :
    (phase.wake c).isWriting = phase.isWriting := by
  cases c <;> cases phase <;> rfl

@[simp] theorem isReading_wake (c : Chan) (phase : Phase) :
    (phase.wake c).isReading = phase.isReading := by
  cases c <;> cases phase <;> rfl

theorem Phase.eq_idle_of_wake {c : Chan} {phase : Phase} (h : phase.wake c = .idle) :
    phase = .idle := by
  cases c with
  | nread =>
    cases phase with
    | idle => rfl
    | reading | writing | done => cases h
  | nwrite =>
    cases phase with
    | idle => rfl
    | reading | writing | done => cases h

@[simp] theorem wakeup_singleton (c : Chan) (calls : ℕ → Phase) (i : ℕ) :
    wakeup [c] calls i = (calls i).wake c := rfl

/-! ## What has happened -/

/-- The bytes that a step writes. -/
def Event.put : Event → List Byte
  | .wrote _ bytes _ => bytes
  | _ => []

/-- The bytes that a step reads. -/
def Event.taken : Event → List Byte
  | .got _ bytes _ => bytes
  | _ => []

/-- The bytes that a step writes for the call `i`. -/
def Event.putBy (i : ℕ) : Event → List Byte
  | .wrote j bytes _ => if j = i then bytes else []
  | _ => []

def put (es : List Event) : List Byte := es.flatMap Event.put

def got (es : List Event) : List Byte := es.flatMap Event.taken

def putBy (i : ℕ) (es : List Event) : List Byte := es.flatMap (Event.putBy i)

/-- How far the call that writes `src` has come, when it has written `bytes`. -/
def Phase.Wrote (n : Word) (src bytes : List Byte) : Phase → Prop
  | .writing _ m rest => m = n ∧ bytes ++ rest = src
  | .done ret => (ret = n ∧ bytes = src) ∨ (ret = -1 ∧ bytes <+: src)
  | _ => False

theorem Phase.wrote_wake (n : Word) (src bytes : List Byte) (c : Chan) (phase : Phase) :
    (phase.wake c).Wrote n src bytes ↔ phase.Wrote n src bytes := by
  cases c <;> cases phase <;> rfl

/-- Whether or not it has returned. -/
theorem Phase.Wrote.isPrefix {n : Word} {src bytes : List Byte} {phase : Phase}
    (h : phase.Wrote n src bytes) : bytes <+: src := by
  cases phase with
  | writing asleep m rest => exact ⟨rest, h.2⟩
  | done ret =>
    rcases h with ⟨-, rfl⟩ | ⟨-, hpre⟩
    · exact List.prefix_rfl
    · exact hpre
  | idle | reading => exact h.elim

/-- A call that uses an end of the pipe keeps it open, and a write has written the first
bytes of its buffer. -/
structure CallOk (es : List Event) (p : State) (i : ℕ) (phase : Phase) : Prop where
  reader : phase.isReading → p.readopen
  writer : phase.isWriting → p.writeopen
  begun : ∀ n src, .beginWrite i n src ∈ es → phase.Wrote n src (putBy i es)
  idle : phase = .idle → putBy i es = []

/-- What holds in every run. -/
structure Inv (es : List Event) (s : System) : Prop where
  ring : s.pipe.buf.Holds pipeSize (got es) (put es)
  calls : ∀ i, CallOk es s.pipe i (s.calls i)

theorem flatMap_concat (f : Event → List Byte) (es : List Event) (e : Event) :
    (es ++ [e]).flatMap f = es.flatMap f ++ f e := by
  rw [List.flatMap_append, List.flatMap_singleton]

theorem flatMap_concat_nil {f : Event → List Byte} {e : Event} (h : f e = []) (es : List Event) :
    (es ++ [e]).flatMap f = es.flatMap f := by
  rw [flatMap_concat, h, List.append_nil]

section

variable {es : List Event} {s s' : System} {i j : ℕ} {n : Word} {phase : Phase} {p p' : State}
  {e : Event}

theorem mem_of_mem_concat {src : List Byte} (hmem : .beginWrite j n src ∈ es ++ [e])
    (hne : ∀ n src, e ≠ .beginWrite j n src) : .beginWrite j n src ∈ es := by
  rcases List.mem_append.mp hmem with hmem | hmem
  · exact hmem
  · exact absurd (List.mem_singleton.mp hmem).symm (hne n src)

/-- A call that does not take part in a step. -/
theorem CallOk.other (h : CallOk es p j phase) (hputBy : e.putBy j = [])
    (hbegin : ∀ n src, e ≠ .beginWrite j n src)
    (hread : phase.isReading → p.readopen → p'.readopen)
    (hwrite : phase.isWriting → p.writeopen → p'.writeopen) :
    CallOk (es ++ [e]) p' j phase := by
  have hsame : putBy j (es ++ [e]) = putBy j es := flatMap_concat_nil hputBy es
  refine ⟨fun hr => hread hr (h.reader hr), fun hw => hwrite hw (h.writer hw),
    fun n src hmem => ?_, fun hidle => ?_⟩
  · rw [hsame]
    exact h.begun n src (mem_of_mem_concat hmem hbegin)
  · rw [hsame]
    exact h.idle hidle

/-- Waking a call does not move it. -/
theorem CallOk.wake (h : CallOk es p j phase) (c : Chan) : CallOk es p j (phase.wake c) := by
  refine ⟨?_, ?_, fun n src hmem => ?_, fun hidle => h.idle (Phase.eq_idle_of_wake hidle)⟩
  · rw [isReading_wake]
    exact h.reader
  · rw [isWriting_wake]
    exact h.writer
  · exact (Phase.wrote_wake n src _ c phase).mpr (h.begun n src hmem)

theorem CallOk.wakeup {calls : ℕ → Phase} (h : CallOk es p j (calls j)) (cs : List Chan) :
    CallOk es p j (Pipe.wakeup cs calls j) := by
  induction cs generalizing calls with
  | nil => exact h
  | cons c cs ih => exact ih (h.wake c)

/-- A call that has returned from a read, or goes back to sleep in it. -/
theorem CallOk.reading (h : CallOk es p i (.reading false n)) (hread : p'.readopen = p.readopen)
    (bytes : List Byte) (out : Outcome) :
    CallOk (es ++ [.got i bytes out]) p' i (out.reading n) := by
  have hnone : ∀ m src, .beginWrite i m src ∉ es ++ [.got i bytes out] := by
    intro m src hmem
    exact h.begun m src (mem_of_mem_concat hmem fun _ _ he => by cases he)
  cases out with
  | returned ret =>
    exact ⟨fun hr => (by cases hr), fun hw => (by cases hw), fun m src hmem =>
      absurd hmem (hnone m src), fun hidle => (by cases hidle)⟩
  | sleeps =>
    refine ⟨fun _ => ?_, fun hw => (by cases hw), fun m src hmem => absurd hmem (hnone m src),
      fun hidle => (by cases hidle)⟩
    rw [hread]
    exact h.reader rfl

/-- A call that has returned from a write, or goes back to sleep in it. -/
theorem CallOk.writing {rest : List Byte} {killed : Bool} {r : Section}
    (h : CallOk es p i (.writing false n rest)) (hwrite : r.state.writeopen = p.writeopen)
    (hpre : r.bytes <+: rest) (hends : WriteEnds killed n rest r) :
    CallOk (es ++ [.wrote i r.bytes r.outcome]) r.state i
      (r.outcome.writing n (rest.drop r.bytes.length)) := by
  have hmine : putBy i (es ++ [.wrote i r.bytes r.outcome]) = putBy i es ++ r.bytes := by
    refine (flatMap_concat _ es _).trans ?_
    rw [show Event.putBy i (.wrote i r.bytes r.outcome) = r.bytes from if_pos rfl]
    rfl
  have hopen : r.state.writeopen := by
    rw [hwrite]
    exact h.writer rfl
  refine ⟨fun hr => ?_, fun _ => hopen, fun m src hmem => ?_, fun hidle => ?_⟩
  · cases hout : r.outcome with
    | returned | sleeps =>
      rw [hout] at hr
      cases hr
  · obtain ⟨rfl, rfl⟩ := h.begun m src (mem_of_mem_concat hmem fun _ _ he => by cases he)
    rw [hmine]
    cases hends with
    | finished hout _ hall =>
      rw [hout, hall]
      exact .inl ⟨rfl, rfl⟩
    | failed hout _ _ =>
      rw [hout]
      exact .inr ⟨rfl, (List.prefix_append_right_inj _).mpr hpre⟩
    | sleeps hout _ _ _ =>
      rw [hout]
      refine ⟨rfl, ?_⟩
      obtain ⟨more, rfl⟩ := hpre
      rw [List.drop_left, List.append_assoc]
  · cases hout : r.outcome with
    | returned | sleeps =>
      rw [hout] at hidle
      cases hidle

/-- A step that copies nothing. -/
theorem Inv.quiet (h : Inv es s) (hput : e.put = []) (htaken : e.taken = [])
    (hbuf : s'.pipe.buf = s.pipe.buf) (hcalls : ∀ j, CallOk (es ++ [e]) s'.pipe j (s'.calls j)) :
    Inv (es ++ [e]) s' := by
  refine ⟨?_, hcalls⟩
  unfold got put
  rw [hbuf, flatMap_concat_nil hput, flatMap_concat_nil htaken]
  exact h.ring

/-- **Every step keeps the account of what was written and read.** -/
theorem Inv.step (h : Inv es s) (hstep : Step s e s') : Inv (es ++ [e]) s' := by
  cases hstep with
  | @beginWrite i n src hidle hopen hn =>
    have hcall := h.calls i
    rw [hidle] at hcall
    have hnone : putBy i (es ++ [.beginWrite i n src]) = [] :=
      (flatMap_concat_nil rfl es).trans (hcall.idle rfl)
    refine h.quiet rfl rfl rfl ((Function.forall_update_iff _ (CallOk _ _)).mpr ⟨?_, ?_⟩)
    · refine ⟨fun hr => (by cases hr), fun _ => hopen, fun m src' hmem => ?_, fun _ => hnone⟩
      rw [hnone]
      rcases List.mem_append.mp hmem with hmem | hmem
      · exact (hcall.begun m src' hmem).elim
      · cases List.mem_singleton.mp hmem
        exact ⟨rfl, List.nil_append src⟩
    · intro j hji
      exact (h.calls j).other rfl (fun _ _ he => hji (by cases he; rfl)) (fun _ ho => ho)
        fun _ ho => ho
  | @beginRead i n hidle hopen =>
    have hcall := h.calls i
    rw [hidle] at hcall
    refine h.quiet rfl rfl rfl ((Function.forall_update_iff _ (CallOk _ _)).mpr ⟨?_, ?_⟩)
    · refine ⟨fun _ => hopen, fun hw => (by cases hw), fun m src hmem => ?_, fun hbad =>
        (by cases hbad)⟩
      exact (hcall.begun m src (mem_of_mem_concat hmem fun _ _ he => by cases he)).elim
    · intro j _
      exact (h.calls j).other rfl (fun _ _ he => by cases he) (fun _ ho => ho) fun _ ho => ho
  | @write i n rest r hcall hr =>
    obtain ⟨hholds, hread, hwrite, hpre, hends⟩ :=
      @writeLoop_spec (s.killed i) n _ _ _ rest h.ring
    rw [hr] at hholds hread hwrite hpre hends
    have hmine := h.calls i
    rw [hcall] at hmine
    refine ⟨?_, (Function.forall_update_iff _ (CallOk _ _)).mpr
      ⟨hmine.writing hwrite hpre hends, fun j hji => ?_⟩⟩
    · have hgot : got (es ++ [.wrote i r.bytes r.outcome]) = got es := flatMap_concat_nil rfl es
      have hput : put (es ++ [.wrote i r.bytes r.outcome]) = put es ++ r.bytes :=
        flatMap_concat _ es _
      rw [hgot, hput]
      exact hholds
    · refine ((h.calls j).wakeup r.woken).other (if_neg hji.symm) (fun _ _ he => by cases he)
        (fun _ ho => ?_) fun _ ho => ?_
      · rwa [hread]
      · rwa [hwrite]
  | @read i n r hcall hr =>
    obtain ⟨hholds, hread, hwrite, hends⟩ := piperead_spec (s.killed i) n h.ring
    rw [hr] at hholds hread hwrite hends
    have hmine := h.calls i
    rw [hcall] at hmine
    refine ⟨?_, (Function.forall_update_iff _ (CallOk _ _)).mpr
      ⟨hmine.reading hread r.bytes r.outcome, fun j hji => ?_⟩⟩
    · have hgot : got (es ++ [.got i r.bytes r.outcome]) = got es ++ r.bytes :=
        flatMap_concat _ es _
      have hput : put (es ++ [.got i r.bytes r.outcome]) = put es := flatMap_concat_nil rfl es
      rw [hgot, hput]
      exact hholds
    · refine ((h.calls j).wakeup r.woken).other rfl (fun _ _ he => by cases he)
        (fun _ ho => ?_) fun _ ho => ?_
      · rwa [hread]
      · rwa [hwrite]
  | closeWrite hopen hnone =>
    refine h.quiet rfl rfl rfl fun j => ?_
    refine ((h.calls j).wakeup [.nread]).other rfl (fun _ _ he => by cases he) (fun _ ho => ho)
      fun hw _ => ?_
    rw [wakeup_singleton, isWriting_wake, hnone j] at hw
    cases hw
  | closeRead hopen hnone =>
    refine h.quiet rfl rfl rfl fun j => ?_
    refine ((h.calls j).wakeup [.nwrite]).other rfl (fun _ _ he => by cases he)
      (fun hr _ => ?_) fun _ ho => ho
    rw [wakeup_singleton, isReading_wake, hnone j] at hr
    cases hr
  | @kill i =>
    have hsame : ∀ {j phase}, CallOk es s.pipe j phase →
        CallOk (es ++ [.kill i]) s.pipe j phase := fun hj =>
      hj.other rfl (fun _ _ he => by cases he) (fun _ ho => ho) fun _ ho => ho
    refine h.quiet rfl rfl rfl ((Function.forall_update_iff _ (CallOk _ _)).mpr ⟨?_, ?_⟩)
    · exact hsame (((h.calls i).wake .nread).wake .nwrite)
    · exact fun j _ => hsame (h.calls j)

theorem Inv.start (page : ℕ → Byte) : Inv [] (initial page) :=
  ⟨.init page, fun _ => ⟨fun hr => (by cases hr), fun hw => (by cases hw), fun _ _ hmem =>
    absurd hmem List.not_mem_nil, fun _ => rfl⟩⟩

/-- **In every run** the account is right at every point. -/
theorem Inv.run {page : ℕ → Byte} {path : List (Event × System)}
    (hrun : Transitions.Path Step (initial page) path) {before after : List (Event × System)}
    (hsplit : path = before ++ after) :
    Inv (before.map Prod.fst) (Transitions.last (initial page) before) := by
  refine hrun.invariant (I := fun before s => Inv (before.map Prod.fst) s) (.start page) ?_
    before after hsplit
  intro before e s' after _ hstep hinv
  rw [List.map_append]
  exact hinv.step hstep

/-! ## Order -/

/-- A write of two bytes; the write end is closed; a read of at most five bytes, and another
one that is told of the end of the file. -/
theorem exists_run : ∃ before s, Transitions.Path Step (initial fun _ => 0)
      (before ++ [(.got 2 [] (.returned 0), s)]) ∧
    before.map Prod.fst = [.beginWrite 0 2 [1, 2], .wrote 0 [1, 2] (.returned 2), .close true,
      .beginRead 1 5, .got 1 [1, 2] (.returned 2), .beginRead 2 5] ∧
    (Transitions.last (initial fun _ => 0) before).calls 2 = .reading false 5 ∧
    s.calls 0 = .done 2 := by
  refine ⟨[_, _, _, _, _, _], _, .cons (@Step.beginWrite _ 0 2 [1, 2] rfl rfl rfl)
    (.cons (@Step.write _ 0 2 [1, 2] _ rfl rfl) (.cons (.closeWrite rfl ?_)
    (.cons (@Step.beginRead _ 1 5 rfl rfl) (.cons (@Step.read _ 1 5 _ rfl rfl)
    (.cons (@Step.beginRead _ 2 5 rfl rfl) (.cons (@Step.read _ 2 5 _ rfl rfl) .nil)))))), rfl, rfl,
    rfl⟩
  intro i
  cases i with
  | zero => rfl
  | succ i => rfl

/-- **A pipe is a queue.**  However calls are interleaved, the bytes that were read are the
first of those that were written, at most 512 are in between, a write has written the first
bytes of its buffer in order, and one that returned has written all of it, or has returned
`-1`. -/
theorem pipe_fifo {page : ℕ → Byte} {path : List (Event × System)}
    (hrun : Transitions.Path Step (initial page) path) :
    got (path.map Prod.fst) <+: put (path.map Prod.fst) ∧
      (put (path.map Prod.fst)).length ≤ (got (path.map Prod.fst)).length + pipeSize ∧
      (∀ i n src, .beginWrite i n src ∈ path.map Prod.fst →
        putBy i (path.map Prod.fst) <+: src) ∧
      ∀ i n src ret, .beginWrite i n src ∈ path.map Prod.fst →
        (Transitions.last (initial page) path).calls i = .done ret →
        (ret = n ∧ putBy i (path.map Prod.fst) = src) ∨
          (ret = -1 ∧ putBy i (path.map Prod.fst) <+: src) := by
  have hinv := Inv.run hrun (List.append_nil path).symm
  refine ⟨hinv.ring.order, hinv.ring.room,
    fun i n src hmem => ((hinv.calls i).begun n src hmem).isPrefix,
    fun i n src ret hmem hdone => ?_⟩
  have hwrote := (hinv.calls i).begun n src hmem
  rw [hdone] at hwrote
  exact hwrote

theorem pipe_fifo_of_run : ∃ path, Transitions.Path Step (initial fun _ => 0) path ∧
    (Transitions.last (initial fun _ => 0) path).calls 0 = .done 2 ∧
    got (path.map Prod.fst) <+: put (path.map Prod.fst) := by
  obtain ⟨before, s, hrun, -, -, hdone⟩ := exists_run
  refine ⟨_, hrun, ?_, (pipe_fifo hrun).1⟩
  rw [Transitions.last_concat]
  exact hdone

/-! ## The end of the file -/

/-- Once the write end is closed nothing is written. -/
theorem Step.put_of_closed (h : Inv es s) (hstep : Step s e s')
    (hclosed : s.pipe.writeopen = false) : e.put = [] ∧ s'.pipe.writeopen = false := by
  cases hstep with
  | beginWrite hidle hopen hn => exact ⟨rfl, hclosed⟩
  | beginRead hidle hopen => exact ⟨rfl, hclosed⟩
  | @write i n rest r hcall hr =>
    have hopen := (h.calls i).writer (by rw [hcall]; rfl)
    rw [hclosed] at hopen
    cases hopen
  | @read i n r hcall hr =>
    have hwrite := (piperead_spec (s.killed i) n h.ring).2.2.1
    rw [hr] at hwrite
    exact ⟨rfl, hwrite.trans hclosed⟩
  | closeWrite hopen hnone => exact ⟨rfl, rfl⟩
  | closeRead hopen hnone => exact ⟨rfl, hclosed⟩
  | kill => exact ⟨rfl, hclosed⟩

theorem put_of_closed {path : List (Event × System)} (hrun : Transitions.Path Step s path)
    (h : Inv es s) (hclosed : s.pipe.writeopen = false) : put (path.map Prod.fst) = [] := by
  induction hrun generalizing es with
  | nil => rfl
  | cons hstep _ ih =>
    obtain ⟨hput, hclosed'⟩ := hstep.put_of_closed h hclosed
    have hrest := ih (h.step hstep) hclosed'
    unfold put at hrest ⊢
    rw [List.map_cons, List.flatMap_cons, hput, hrest]
    rfl

/-- A step in which bytes are read. -/
theorem Step.got_inv {bytes : List Byte} {out : Outcome} (h : Step s (.got i bytes out) s') :
    ∃ n r, s.calls i = .reading false n ∧ piperead (s.killed i) n s.pipe = r ∧
      bytes = r.bytes ∧ out = r.outcome ∧ s'.pipe = r.state := by
  generalize he : Event.got i bytes out = e at h
  cases h with
  | read hcall hr =>
    cases he
    exact ⟨_, _, hcall, hr, rfl, rfl, rfl⟩
  | beginWrite | beginRead | write | closeWrite | closeRead | kill => cases he

/-- **The end of the file is final.**  When a read of at least one byte returns `0`, all that
was ever written has been read, nothing will be written later, and nothing will be read. -/
theorem eof_final {page : ℕ → Byte} {path before after : List (Event × System)}
    (hrun : Transitions.Path Step (initial page) path)
    (hsplit : path = before ++ (.got i [] (.returned 0), s) :: after)
    (hreading : (Transitions.last (initial page) before).calls i = .reading false n)
    (hpos : 0 < n.toInt) :
    put (path.map Prod.fst) = got (before.map Prod.fst) ∧ got (after.map Prod.fst) = [] := by
  have hinv := Inv.run hrun hsplit
  have hstep : Step (Transitions.last (initial page) before) (.got i [] (.returned 0)) s :=
    Transitions.Path.step (hsplit ▸ hrun)
  obtain ⟨m, r, hcall, hr, hbytes, hout, hstate⟩ := hstep.got_inv
  cases hreading.symm.trans hcall
  obtain ⟨-, -, hwrite, hends⟩ := piperead_spec
    ((Transitions.last (initial page) before).killed i) n hinv.ring
  rw [hr] at hwrite hends
  cases hends with
  | finished hready _ _ hnone =>
    have hempty : (Transitions.last (initial page) before).pipe.buf.Empty := by
      rcases hnone hbytes.symm with hzero | hempty
      · omega
      · exact hempty
    have hclosed : s.pipe.writeopen = false := by
      rw [hstate, hwrite]
      exact Bool.eq_false_iff.mpr fun hopen => hready ⟨hempty, hopen⟩
    -- nothing is written from here on
    have hrest : Transitions.Path Step s after := by
      have hpath := (hsplit ▸ hrun).of_append_right
      cases hpath with
      | cons _ hrest => exact hrest
    have hnone := put_of_closed hrest (hinv.step hstep) hclosed
    have hall := (hinv.ring.empty_iff pipeSize_lt).mp hempty
    have hput : put (path.map Prod.fst) = put (before.map Prod.fst) := by
      unfold put at hnone ⊢
      rw [hsplit, List.map_append, List.map_cons, List.flatMap_append, List.flatMap_cons, hnone]
      exact List.append_nil _
    have hgot : got (path.map Prod.fst) =
        got (before.map Prod.fst) ++ got (after.map Prod.fst) := by
      unfold got
      rw [hsplit, List.map_append, List.map_cons, List.flatMap_append, List.flatMap_cons]
      rfl
    -- more could not be read than was written
    have hle := (Inv.run hrun (List.append_nil path).symm).ring.order.length_le
    rw [hgot, hput, ← hall, List.length_append] at hle
    exact ⟨hput.trans hall.symm, List.length_eq_zero_iff.mp (by omega)⟩
  | failed hfailed =>
    rw [hfailed] at hout
    cases hout
  | sleeps hsleeps =>
    rw [hsleeps] at hout
    cases hout

theorem eof_final_of_run : ∃ path, Transitions.Path Step (initial fun _ => 0) path ∧
    put (path.map Prod.fst) = [1, 2] := by
  obtain ⟨before, s, hrun, hevents, hreading, -⟩ := exists_run
  refine ⟨_, hrun, ?_⟩
  rw [(eof_final hrun rfl hreading (by decide)).1, hevents]
  rfl

/-! ## Sleepers -/

/-- What a sleeper waits for has not happened. -/
def Reason (p : State) : Phase → Prop
  | .reading true _ => p.buf.Empty ∧ p.writeopen
  | .writing true _ _ => p.buf.Full pipeSize ∧ p.readopen
  | _ => True

theorem reason_wake_nread {q : State} (h : Reason p phase)
    (hfull : phase.isWriting → p.buf.Full pipeSize → p.readopen →
      q.buf.Full pipeSize ∧ q.readopen) : Reason q (phase.wake .nread) := by
  cases phase with
  | writing asleep =>
    cases asleep with
    | true => exact hfull rfl h.1 h.2
    | false => trivial
  | reading | idle | done => trivial

theorem reason_wake_nwrite {q : State} (h : Reason p phase)
    (hempty : phase.isReading → p.buf.Empty → p.writeopen → q.buf.Empty ∧ q.writeopen) :
    Reason q (phase.wake .nwrite) := by
  cases phase with
  | reading asleep =>
    cases asleep with
    | true => exact hempty rfl h.1 h.2
    | false => trivial
  | writing | idle | done => trivial

/-- **Nobody sleeps through what they wait for**, in a step of processes that are not
killed. -/
theorem Reason.step (hinv : Inv es s) (h : ∀ i, Reason s.pipe (s.calls i))
    (hkilled : ∀ i, s.killed i = false) (hstep : Step s e s') (hkill : ∀ i, e ≠ .kill i) :
    ∀ i, Reason s'.pipe (s'.calls i) := by
  cases hstep with
  | beginWrite hidle hopen hn =>
    exact (Function.forall_update_iff _ fun _ => Reason _).mpr ⟨trivial, fun j _ => h j⟩
  | beginRead hidle hopen =>
    exact (Function.forall_update_iff _ fun _ => Reason _).mpr ⟨trivial, fun j _ => h j⟩
  | @write i n rest r hcall hr =>
    obtain ⟨-, hread, -, -, hends⟩ :=
      @writeLoop_spec (s.killed i) n _ _ _ rest hinv.ring
    have hsame := @writeLoop_of_full (s.killed i) n s.pipe
    rw [hr] at hread hends
    -- writers that sleep are woken when there is room; the pipe is still full for them
    have hstill : ∀ j, (s.calls j).isWriting → s.pipe.buf.Full pipeSize → s.pipe.readopen →
        r.state.buf.Full pipeSize ∧ r.state.readopen := by
      intro j _ hfull hopen
      have hstate := (hsame hfull rest).1
      rw [hr] at hstate
      rw [hstate]
      exact ⟨hfull, hopen⟩
    refine (Function.forall_update_iff _ fun _ => Reason _).mpr ?_
    cases hends with
    | finished hout hwoken _ =>
      rw [hout, hwoken]
      exact ⟨trivial, fun j _ => reason_wake_nread (h j) (hstill j)⟩
    | sleeps hout hwoken hfull hopen =>
      rw [hout, hwoken]
      exact ⟨⟨hfull, hopen⟩, fun j _ => reason_wake_nread (h j) (hstill j)⟩
    | failed hout hwoken hwhy =>
      -- the read end is closed, so that no reader is there
      have hclosed : s.pipe.readopen = false := by
        rcases hwhy with hclosed | hbad
        · rw [← hread]
          exact hclosed
        · rw [hkilled i] at hbad
          cases hbad
      rw [hout, hwoken]
      refine ⟨trivial, fun j _ => ?_⟩
      have hj := h j
      have hopen := (hinv.calls j).reader
      show Reason r.state (s.calls j)
      cases hphase : s.calls j with
      | reading asleep =>
        rw [hphase] at hopen
        rw [hopen rfl] at hclosed
        cases hclosed
      | writing asleep =>
        cases asleep with
        | true =>
          rw [hphase] at hj
          exact hstill j (by rw [hphase]; rfl) hj.1 hj.2
        | false => trivial
      | idle | done => trivial
  | @read i n r hcall hr =>
    obtain ⟨-, hread, hwrite, hends⟩ := piperead_spec (s.killed i) n hinv.ring
    rw [hr] at hread hwrite hends
    refine (Function.forall_update_iff _ fun _ => Reason _).mpr ?_
    cases hends with
    | finished hready hwoken hout hnone =>
      rw [hout, hwoken]
      refine ⟨trivial, fun j _ => reason_wake_nwrite (h j) fun _ hempty hopen => ?_⟩
      exact absurd ⟨hempty, hopen⟩ hready
    | failed hout hwoken hstate hwhy hnone =>
      rw [hkilled i] at hwhy
      cases hwhy
    | sleeps hout hwoken hstate hempty hopen hnone =>
      rw [hout, hwoken, hstate]
      exact ⟨⟨hempty, hopen⟩, fun j _ => h j⟩
  | closeWrite hopen hnone =>
    intro j
    refine reason_wake_nread (h j) fun hw => ?_
    rw [hnone j] at hw
    cases hw
  | closeRead hopen hnone =>
    intro j
    refine reason_wake_nwrite (h j) fun hr => ?_
    rw [hnone j] at hr
    cases hr
  | @kill i => exact absurd rfl (hkill i)

theorem Step.killed_of_ne (hstep : Step s e s') (hkill : ∀ i, e ≠ .kill i) :
    s'.killed = s.killed := by
  cases hstep with
  | beginWrite | beginRead | write | read | closeWrite | closeRead => rfl
  | @kill i => exact absurd rfl (hkill i)

/-- **No wakeup is lost.**  In every run in which no process is killed, a reader that sleeps
has read all that was written and the write end is open, and a writer that sleeps has filled
the pipe and the read end is open.  So a reader and a writer never wait for each other.  (A
writer that is killed returns from a full pipe without waking the readers.) -/
theorem pipe_no_lost_wakeup {page : ℕ → Byte} {path : List (Event × System)}
    (hrun : Transitions.Path Step (initial page) path)
    (hkill : ∀ t ∈ path, ∀ i, t.1 ≠ .kill i) :
    let s := Transitions.last (initial page) path
    (∀ i n, s.calls i = .reading true n →
      got (path.map Prod.fst) = put (path.map Prod.fst) ∧ s.pipe.writeopen) ∧
    ∀ i n rest, s.calls i = .writing true n rest →
      (put (path.map Prod.fst)).length = (got (path.map Prod.fst)).length + pipeSize ∧
        s.pipe.readopen := by
  intro s
  have hinv : Inv (path.map Prod.fst) s := Inv.run hrun (List.append_nil path).symm
  have hreason : (∀ i, Reason s.pipe (s.calls i)) ∧ ∀ i, s.killed i = false := by
    refine hrun.invariant (I := fun _ (s : System) => (∀ i, Reason s.pipe (s.calls i)) ∧
      ∀ i, s.killed i = false) ⟨fun _ => trivial, fun _ => rfl⟩ ?_ path [] (List.append_nil path).symm
    intro before e s' after hsplit hstep hbefore
    have hnot : ∀ i, e ≠ .kill i := hkill (e, s') (by
      rw [hsplit]
      exact List.mem_append_right _ List.mem_cons_self)
    refine ⟨Reason.step (Inv.run hrun hsplit) hbefore.1 hbefore.2 hstep hnot, ?_⟩
    rw [hstep.killed_of_ne hnot]
    exact hbefore.2
  constructor
  · intro i n hphase
    have hwhy := hreason.1 i
    rw [hphase] at hwhy
    exact ⟨(hinv.ring.empty_iff pipeSize_lt).mp hwhy.1, hwhy.2⟩
  · intro i n rest hphase
    have hwhy := hreason.1 i
    rw [hphase] at hwhy
    exact ⟨(hinv.ring.full_iff pipeSize_lt).mp hwhy.1, hwhy.2⟩

/-- A reader of an empty pipe. -/
theorem pipe_no_lost_wakeup_of_reader : ∃ path, Transitions.Path Step (initial fun _ => 0) path ∧
    (Transitions.last (initial fun _ => 0) path).calls 0 = .reading true 5 ∧
    got (path.map Prod.fst) = put (path.map Prod.fst) := by
  obtain ⟨path, hrun, hkill, hasleep⟩ : ∃ path, Transitions.Path Step (initial fun _ => 0) path ∧
      (∀ t ∈ path, ∀ i, t.1 ≠ .kill i) ∧
      (Transitions.last (initial fun _ => 0) path).calls 0 = .reading true 5 := by
    refine ⟨[_, _], .cons (@Step.beginRead _ 0 5 rfl rfl) (.cons (@Step.read _ 0 5 _ rfl rfl) .nil),
      ?_, rfl⟩
    intro t ht i
    rcases List.mem_cons.mp ht with rfl | ht
    · exact Event.noConfusion
    · rw [List.mem_singleton.mp ht]
      exact Event.noConfusion
  exact ⟨path, hrun, hasleep, ((pipe_no_lost_wakeup hrun hkill).1 0 5 hasleep).1⟩

end

end Xv6.Pipe
