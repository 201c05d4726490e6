/-
# The process table (`proc.c`)

Processes are made by `fork`, become zombies in `exit`, and are reported to their parent and
freed by `wait`.  All this happens in the table `ptable`, under its lock: what a call does
between taking the lock and giving it back is one step, and a process that the scheduler
takes up holds the lock until it has left `sleep`.  `fork` works on the entry that
`allocproc` has given it without the lock; it may fail there for want of memory.

Of an entry the fields are kept that these functions look at.  The lock of a channel other
than that of `wait`, and the memory, files and kernel stacks of a process, are left out.
-/
import Xv6Recorder.Kernel
import Xv6Recorder.Transitions

namespace Xv6.Ptable

/-- `NPROC`: maximum number of processes. -/
def nproc : ℕ := 64

instance : NeZero nproc := ⟨by decide⟩

/-- `enum procstate` -/
inductive State where
  | unused
  | embryo
  | sleeping
  | runnable
  | running
  | zombie
  deriving DecidableEq

/-- What a process sleeps on: in `wait` its entry in the table, else some other address. -/
inductive Chan where
  | proc (i : Fin nproc)
  | addr (a : ℕ)
  deriving DecidableEq

/-- `struct proc` -/
@[ext]
structure Slot where
  state : State
  pid : Word
  parent : Option (Fin nproc)
  killed : Bool
  /-- If there, sleeping on it. -/
  chan : Option Chan

/-- `ptable.proc` -/
abbrev Table := Fin nproc → Slot

/-! ## The functions that hold the lock -/

/-- Wake up all processes sleeping on a channel. -/
def wakeup1 (chan : Option Chan) (t : Table) : Table := fun i =>
  if (t i).state = .sleeping ∧ (t i).chan = chan then { t i with state := .runnable } else t i

/-- Look for an `UNUSED` entry, and give it the next pid. -/
def allocproc (nextpid : Word) (t : Table) : Option (Fin nproc × Table) :=
  ((List.finRange nproc).find? fun i => (t i).state = .unused).map fun i =>
    (i, Function.update t i { t i with state := .embryo, pid := nextpid })

/-- `p->state = state` -/
def setState (i : Fin nproc) (state : State) (t : Table) : Table :=
  Function.update t i { t i with state := state }

/-- A round of the loop of `exit` that passes abandoned children to `init`. -/
def abandon (curproc initproc : Fin nproc) (t : Table) (i : Fin nproc) : Table :=
  if (t i).parent = some curproc then
    let t := Function.update t i { t i with parent := some initproc }
    if (t i).state = .zombie then wakeup1 (some (.proc initproc)) t else t
  else t

/-- `exit`, from where it takes the lock. -/
def exit (curproc initproc : Fin nproc) (t : Table) : Table :=
  let t := wakeup1 ((t curproc).parent.map .proc) t
  let t := (List.finRange nproc).foldl (abandon curproc initproc) t
  setState curproc .zombie t

/-- How a round of `wait` ends: with a child that has exited, with `-1`, or asleep. -/
inductive Waited where
  | found (child : Fin nproc) (pid : Word)
  | none
  | sleeps

/-- A round of the loop of `wait`. -/
def wait (curproc : Fin nproc) (t : Table) : Waited × Table :=
  match (List.finRange nproc).find? fun i =>
      (t i).parent = some curproc && (t i).state = .zombie with
  | some i =>
    (.found i (t i).pid, Function.update t i
      { t i with pid := 0, parent := .none, killed := false, state := .unused })
  | Option.none =>
    let havekids := (List.finRange nproc).any fun i => (t i).parent = some curproc
    if havekids = false ∨ (t curproc).killed = true then (.none, t)
    else (.sleeps, Function.update t curproc
      { t curproc with chan := some (.proc curproc), state := .sleeping })

/-- Kill the process with the given pid; the entry that is found. -/
def kill (pid : Word) (t : Table) : Option (Fin nproc × Table) :=
  ((List.finRange nproc).find? fun i => (t i).pid = pid).map fun i =>
    (i, Function.update t i { t i with
      killed := true
      state := if (t i).state = .sleeping then .runnable else (t i).state })

/-! ## Processes side by side -/

/-- Where a process is in the kernel: in `fork`, with the entry of the child, before and after
it has become its parent; asleep in `wait`, or on another channel. -/
inductive Pc where
  | idle
  | forking (child : Fin nproc)
  | linked (child : Fin nproc)
  | waiting
  | asleep

/-- The end of `sleep`, where the process goes on in `wait`. -/
def tidy (i : Fin nproc) (pc : Pc) (t : Table) : Table :=
  match pc with
  | .waiting => Function.update t i { t i with chan := none }
  | _ => t

structure System where
  table : Table
  initproc : Fin nproc
  nextpid : Word
  pc : Fin nproc → Pc

/-- What happens in a step. -/
inductive Event where
  | internal
  | alloc (pid : Word)
  | exited (pid : Word)
  /-- `wait` of a process returns the pid of a child. -/
  | reaped (i child : Fin nproc) (pid : Word)
  | killed (pid : Word) (i : Fin nproc)
  /-- A process marks itself. -/
  | marked (pid : Word) (i : Fin nproc)

/-- A step of a process that runs, or of the scheduler.  A process may lose the processor at
any time. -/
inductive Step : System → Event → System → Prop
  | schedule {s : System} {i : Fin nproc} (hstate : (s.table i).state = .runnable) :
      Step s .internal { s with table := setState i .running s.table }
  | yield {s : System} {i : Fin nproc} (hstate : (s.table i).state = .running) :
      Step s .internal { s with table := setState i .runnable s.table }
  | allocproc {s : System} {i child : Fin nproc} {t : Table}
      (hstate : (s.table i).state = .running) (hpc : s.pc i = .idle)
      (hrun : allocproc s.nextpid s.table = some (child, t)) :
      Step s (.alloc s.nextpid)
        { s with
          table := t, nextpid := s.nextpid + 1
          pc := Function.update s.pc i (.forking child) }
  /-- There is no memory for the stack or the copy of the parent's memory. -/
  | forkFails {s : System} {i child : Fin nproc} (hstate : (s.table i).state = .running)
      (hpc : s.pc i = .forking child) :
      Step s .internal
        { s with
          table := setState child .unused s.table
          pc := Function.update s.pc i .idle }
  | forkLinks {s : System} {i child : Fin nproc} (hstate : (s.table i).state = .running)
      (hpc : s.pc i = .forking child) :
      Step s .internal
        { s with
          table := Function.update s.table child { s.table child with parent := some i }
          pc := Function.update s.pc i (.linked child) }
  | forkReturns {s : System} {i child : Fin nproc} (hstate : (s.table i).state = .running)
      (hpc : s.pc i = .linked child) :
      Step s .internal
        { s with
          table := setState child .runnable s.table
          pc := Function.update s.pc i .idle }
  | exit {s : System} {i : Fin nproc} (hstate : (s.table i).state = .running)
      (hpc : s.pc i = .idle) (hinit : i ≠ s.initproc) :
      Step s (.exited (s.table i).pid) { s with table := exit i s.initproc s.table }
  | wait {s : System} {i child : Fin nproc} {pid : Word} {t : Table}
      (hstate : (s.table i).state = .running) (hpc : s.pc i = .idle ∨ s.pc i = .waiting)
      (hrun : wait i (tidy i (s.pc i) s.table) = (.found child pid, t)) :
      Step s (.reaped i child pid) { s with table := t, pc := Function.update s.pc i .idle }
  | waitFails {s : System} {i : Fin nproc} {t : Table} (hstate : (s.table i).state = .running)
      (hpc : s.pc i = .idle ∨ s.pc i = .waiting)
      (hrun : wait i (tidy i (s.pc i) s.table) = (.none, t)) :
      Step s .internal { s with table := t, pc := Function.update s.pc i .idle }
  | waitSleeps {s : System} {i : Fin nproc} {t : Table} (hstate : (s.table i).state = .running)
      (hpc : s.pc i = .idle ∨ s.pc i = .waiting)
      (hrun : wait i (tidy i (s.pc i) s.table) = (.sleeps, t)) :
      Step s .internal { s with table := t, pc := Function.update s.pc i .waiting }
  | sleep {s : System} {i : Fin nproc} {a : ℕ} (hstate : (s.table i).state = .running)
      (hpc : s.pc i = .idle) :
      Step s .internal
        { s with
          table := Function.update s.table i
            { s.table i with chan := some (.addr a), state := .sleeping }
          pc := Function.update s.pc i .asleep }
  | sleepReturns {s : System} {i : Fin nproc} (hstate : (s.table i).state = .running)
      (hpc : s.pc i = .asleep) :
      Step s .internal
        { s with
          table := Function.update s.table i { s.table i with chan := .none }
          pc := Function.update s.pc i .idle }
  | wakeup {s : System} {a : ℕ} :
      Step s .internal { s with table := wakeup1 (some (.addr a)) s.table }
  | kill {s : System} {pid : Word} {i : Fin nproc} {t : Table}
      (hrun : kill pid s.table = some (i, t)) :
      Step s (.killed pid i) { s with table := t }
  /-- `trap` finds that the process has misbehaved in user mode, or `RecRepErr` rejects its
  call: both set `killed` without the lock. -/
  | mark {s : System} {i : Fin nproc} (hstate : (s.table i).state = .running)
      (hpc : s.pc i = .idle) :
      Step s (.marked (s.table i).pid i)
        { s with table := Function.update s.table i { s.table i with killed := true } }

/-- The table after `userinit`: the first process has the first entry and the pid `1`. -/
def boot : System where
  table := Function.update (fun _ => ⟨.unused, 0, none, false, none⟩) 0
    ⟨.runnable, 1, none, false, none⟩
  initproc := 0
  nextpid := 2
  pc _ := .idle

end Xv6.Ptable
