/-
# What the codec keeps

Whatever bytes it meets, the codec changes the state in three ways only: it moves an object,
calls the error helper, or stores a record in the log.  A preorder that these three respect is
therefore kept by the whole record loop, and one that also admits a new record count is kept by
the two programs that drive it.  The proofs follow the program text, one rule per construct.
-/
import Xv6Recorder.V3Codec

open Bytes StateError Xv6

namespace V3

/-- The single steps of the record loop stay in `R`. -/
structure CodecSteps (R : Core → Core → Prop) : Prop where
  move : ∀ obj cap size, Keeps R (memmoveAndIncrement obj cap size)
  err : ∀ c, R c (recRepErr c)
  log : ∀ (c : Core) (f : ℤ → SCR), R c { c with session := { c.session with recordedScrs := f } }

namespace CodecSteps

variable {R : Core → Core → Prop} [IsPreorder Core R] (h : CodecSteps R)

include h

/-- One object is moved. -/
theorem transferByte (b : Byte) : Keeps R (transferByte b) :=
  (h.move _ _ _).bind fun _ => .pure _

theorem transferVal (off cap : ℕ) (size : Word) (v : Val) :
    Keeps R (transferVal off cap size v) :=
  (h.move _ _ _).bind fun _ => .pure _

/-- Each of the four types moves its parts one after the other; an unknown type goes to the error
helper. -/
theorem transformVal (arg : Arg) : Keeps R (transformVal arg) := by
  unfold V3.transformVal
  have hmove := h.transferVal
  refine .ite ?_ (.ite ?_ (.ite ?_ (.ite ?_ ?_)))
  · exact (hmove _ _ _ _).bind fun _ => .pure _
  · exact (hmove _ _ _ _).bind fun _ => .pure _
  · exact (hmove _ _ _ _).bind fun _ => (hmove _ _ _ _).bind fun _ => .pure _
  · exact (hmove _ _ _ _).bind fun _ => (hmove _ _ _ _).bind fun _ => (hmove _ _ _ _).bind
      fun _ => (hmove _ _ _ _).bind fun _ => (hmove _ _ _ _).bind fun _ => .pure _
  · exact (Keeps.modify h.err).bind fun _ => .pure _

/-- The type byte, then the value. -/
theorem transformArg (arg : Arg) : Keeps R (transformArg arg) := by
  refine Keeps.get.bind fun c => .ite (.pure _) ((h.transferByte _).bind fun t => ?_)
  exact Keeps.get.bind fun c => .ite (.pure _) ((h.transformVal _).bind fun _ => .pure _)

/-- By induction on the arguments that are left; behind the array, what lies there is read. -/
theorem transformArgs (behind : ℕ → Arg) (remaining i : ℕ) (scr : SCR) :
    Keeps R (transformArgs behind remaining i scr) := by
  induction remaining generalizing i scr with
  | zero => exact .pure _
  | succ remaining ih =>
    have hnext : ∀ (r : Bool × Arg) (scr' : SCR), Keeps R
        (if r.1 then V3.transformArgs behind remaining (i + 1) scr' else pure (-1, scr')) :=
      fun r scr' => .ite (ih _ _) (.pure _)
    rw [V3.transformArgs]
    split
    · exact (h.transformArg _).bind fun r => hnext r _
    · exact Keeps.get.bind fun c => .ite (.throw _) ((h.transformArg _).bind fun r => hnext r _)

/-- The number of the call and of its arguments, then the arguments. -/
theorem transformSCR (behind : ℕ → Arg) (scr : SCR) : Keeps R (transformSCR behind scr) := by
  refine Keeps.get.bind fun c => .ite (.pure _) ((h.transferByte _).bind fun n => ?_)
  refine Keeps.get.bind fun c => .ite (.pure _) ((h.transferByte _).bind fun argc => ?_)
  exact h.transformArgs _ _ _ _

/-- One turn of the loop: a record is read, and stored back if it lies inside the log. -/
theorem bidirectionalTransform (i : ℕ) (fileSize : ℤ) :
    Keeps R (bidirectionalTransform i fileSize) := by
  refine Keeps.get.bind fun c => .ite (.pure _) (.ite (.pure _) (.ite ?_ (.ite (.throw _) ?_)))
  · exact (h.transformSCR _ _).bind fun r => (Keeps.modify fun c => h.log c _).bind fun _ => .pure _
  · exact (h.transformSCR _ _).bind fun r => .pure _

/-- **The record loop.** -/
theorem transformLoop (fileSize : ℤ) (remaining i : ℕ) :
    Keeps R (transformLoop fileSize remaining i) := by
  induction remaining generalizing i with
  | zero => exact .pure _
  | succ remaining ih =>
    exact (h.bidirectionalTransform _ _).bind fun status =>
      .ite (.pure _) (.ite (.pure _) (ih _))

section

variable (hidx : ∀ (c : Core) (n : ℤ), R c { c with session := { c.session with scrsIdx := n } })

include hidx

/-- The record count is moved like any object, and then assigned. -/
theorem transferIdx : Keeps R transferIdx := by
  refine Keeps.get.bind fun c => (h.move _ _ _).bind fun obj => Keeps.modify fun c => ?_
  split
  · exact hidx c _
  · exact refl c

/-- **The encoder** also rewinds the buffer. -/
theorem packScrs (hrewind : ∀ c : Core, R c c.rewind) : Keeps R packScrs :=
  (Keeps.modify hrewind).bind fun _ => (h.transferIdx hidx).bind fun _ =>
    Keeps.get.bind fun _ => h.transformLoop _ _ _

/-- **The decoder** also resets the record count when the loop succeeds. -/
theorem unpackScrs (fileSize : ℤ) : Keeps R (unpackScrs fileSize) :=
  (h.transferIdx hidx).bind fun _ => Keeps.get.bind fun _ => (h.transformLoop _ _ _).bind
    fun _ => .ite ((Keeps.modify fun c => hidx c 0).bind fun _ => .pure _) (.pure _)

end

end CodecSteps

end V3
