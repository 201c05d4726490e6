/-
# Pipes (`pipe.c`)

A pipe is a ring of 512 bytes with counters of 32 bits.  Readers and writers take its lock,
and give it back when they return or go to sleep: a writer on a full pipe, on the channel
`&p->nwrite`, a reader on an empty one, on `&p->nread`.  What runs between two changes of
the lock's owner is one step, `sleep` gives the lock back together with going to sleep, and
`wakeup` makes every sleeper on a channel take the lock again and go on where it was.

`kill` also wakes a sleeper.  File descriptors keep their end of the pipe open, so that an
end is closed only when no call uses it.
-/
import Xv6Recorder.Kernel
import Xv6Recorder.RingBuffer
import Xv6Recorder.Transitions

open Bytes

namespace Xv6.Pipe

/-- `PIPESIZE` -/
def pipeSize : ℕ := 512

/-- `struct pipe` -/
structure State where
  buf : RingBuffer Byte 32
  readopen : Bool
  writeopen : Bool

/-- What processes sleep on: `&p->nread` and `&p->nwrite`. -/
inductive Chan where
  | nread
  | nwrite
  deriving DecidableEq

/-- How a call gives back the lock. -/
inductive Outcome where
  | returned (ret : Word)
  | sleeps

/-- What happens while a call holds the lock: the channels it wakes, and the bytes it
copies. -/
structure Section where
  state : State
  woken : List Chan
  bytes : List Byte
  outcome : Outcome

/-- The pipe that `pipealloc` makes; the bytes are what was in the page. -/
def pipealloc (page : ℕ → Byte) : State := ⟨⟨page, 0, 0⟩, true, true⟩

/-- The loop of `pipewrite`, with the bytes that are left to write. -/
def writeLoop (killed : Bool) (n : Word) : List Byte → State → Section
  | [], p => ⟨p, [.nread], [], .returned n⟩
  | x :: rest, p =>
    if p.buf.Full pipeSize then
      if p.readopen = false ∨ killed then ⟨p, [], [], .returned (-1)⟩
      else ⟨p, [.nread], [], .sleeps⟩
    else
      let r := writeLoop killed n rest { p with buf := p.buf.put pipeSize x }
      { r with bytes := x :: r.bytes }

/-- The loop of `piperead`, for at most so many bytes. -/
def readLoop : ℕ → State → State × List Byte
  | 0, p => (p, [])
  | count + 1, p =>
    if p.buf.Empty then (p, [])
    else
      let r := readLoop count { p with buf := p.buf.drop }
      (r.1, p.buf.next pipeSize :: r.2)

/-- `piperead`, from where it takes the lock. -/
def piperead (killed : Bool) (n : Word) (p : State) : Section :=
  if p.buf.Empty ∧ p.writeopen then
    if killed then ⟨p, [], [], .returned (-1)⟩ else ⟨p, [], [], .sleeps⟩
  else
    let r := readLoop n.toInt.toNat p
    ⟨r.1, [.nwrite], r.2, .returned (BitVec.ofNat 32 r.2.length)⟩

/-- `pipeclose`; the pipe is freed when both ends are closed. -/
def pipeclose (writable : Bool) (p : State) : State × Chan :=
  if writable then ({ p with writeopen := false }, .nread)
  else ({ p with readopen := false }, .nwrite)

/-! ## Calls side by side -/

/-- Where a call is; one that is asleep waits for its channel. -/
inductive Phase where
  | idle
  | writing (asleep : Bool) (n : Word) (rest : List Byte)
  | reading (asleep : Bool) (n : Word)
  | done (ret : Word)

/-- A writer sleeps on `&p->nwrite` and a reader on `&p->nread`. -/
def Phase.wake : Chan → Phase → Phase
  | .nwrite, .writing _ n rest => .writing false n rest
  | .nread, .reading _ n => .reading false n
  | _, phase => phase

/-- A pipe, the calls that use it, and the ones whose process has been killed. -/
structure System where
  pipe : State
  calls : ℕ → Phase
  killed : ℕ → Bool

/-- `wakeup` -/
def wakeup (cs : List Chan) (calls : ℕ → Phase) : ℕ → Phase :=
  cs.foldl (fun calls c i => (calls i).wake c) calls

/-- What happens in a step. -/
inductive Event where
  | beginWrite (i : ℕ) (n : Word) (src : List Byte)
  | beginRead (i : ℕ) (n : Word)
  | wrote (i : ℕ) (bytes : List Byte) (outcome : Outcome)
  | got (i : ℕ) (bytes : List Byte) (outcome : Outcome)
  | close (writable : Bool)
  | kill (i : ℕ)

def Phase.isWriting : Phase → Bool
  | .writing .. => true
  | _ => false

def Phase.isReading : Phase → Bool
  | .reading .. => true
  | _ => false

/-- A writer after it gives back the lock. -/
def Outcome.writing (n : Word) (rest : List Byte) : Outcome → Phase
  | .returned ret => .done ret
  | .sleeps => .writing true n rest

/-- A reader after it gives back the lock. -/
def Outcome.reading (n : Word) : Outcome → Phase
  | .returned ret => .done ret
  | .sleeps => .reading true n

/-- One step.  The buffer of a write has `n` bytes, or none if `n` is negative. -/
inductive Step : System → Event → System → Prop
  | beginWrite {s : System} {i : ℕ} {n : Word} {src : List Byte} (hidle : s.calls i = .idle)
      (hopen : s.pipe.writeopen) (hn : src.length = n.toInt.toNat) :
      Step s (.beginWrite i n src)
        { s with calls := Function.update s.calls i (.writing false n src) }
  | beginRead {s : System} {i : ℕ} {n : Word} (hidle : s.calls i = .idle)
      (hopen : s.pipe.readopen) :
      Step s (.beginRead i n) { s with calls := Function.update s.calls i (.reading false n) }
  | write {s : System} {i : ℕ} {n : Word} {rest : List Byte} {r : Section}
      (hcall : s.calls i = .writing false n rest) (hr : writeLoop (s.killed i) n rest s.pipe = r) :
      Step s (.wrote i r.bytes r.outcome)
        { s with
          pipe := r.state
          calls := Function.update (wakeup r.woken s.calls) i
            (r.outcome.writing n (rest.drop r.bytes.length)) }
  | read {s : System} {i : ℕ} {n : Word} {r : Section}
      (hcall : s.calls i = .reading false n) (hr : piperead (s.killed i) n s.pipe = r) :
      Step s (.got i r.bytes r.outcome)
        { s with
          pipe := r.state
          calls := Function.update (wakeup r.woken s.calls) i (r.outcome.reading n) }
  | closeWrite {s : System} (hopen : s.pipe.writeopen) (hnone : ∀ i, (s.calls i).isWriting = false) :
      Step s (.close true)
        { s with
          pipe := (pipeclose true s.pipe).1
          calls := wakeup [(pipeclose true s.pipe).2] s.calls }
  | closeRead {s : System} (hopen : s.pipe.readopen) (hnone : ∀ i, (s.calls i).isReading = false) :
      Step s (.close false)
        { s with
          pipe := (pipeclose false s.pipe).1
          calls := wakeup [(pipeclose false s.pipe).2] s.calls }
  | kill {s : System} {i : ℕ} :
      Step s (.kill i)
        { s with
          killed := Function.update s.killed i true
          calls := Function.update s.calls i (((s.calls i).wake .nread).wake .nwrite) }

/-- A pipe that has just been made. -/
def initial (page : ℕ → Byte) : System := ⟨pipealloc page, fun _ => .idle, fun _ => false⟩

end Xv6.Pipe
