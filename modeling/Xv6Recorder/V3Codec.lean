/-
# The bidirectional session codec (`v3/sysproc.c`, lines 362–438)

One function is both encoder and decoder: `memmove_and_increment` copies towards
`buffer` when `record_syscalls` is `1`, towards the record when `replay_syscalls`
is `1`, both ways when both are, and not at all when neither is; the cursor
`buffer_pos` advances in every case.  The loops of `sys_record_stop` (lines
478–490) and `sys_replay_start` (lines 585–597) drive it over the whole log.

An object that the source passes by address is a memory here, together with the
number of bytes it has; `memmoveAndIncrement` returns its new contents.
-/
import Xv6Recorder.StateError
import Xv6Recorder.V3Record

open Bytes Xv6

namespace V3

/-! ## Moving one object -/

/-- Move `size` bytes between the object `obj` of `cap` bytes and
`buffer[buffer_pos …]`.  `memmove` takes the size as an unsigned number. -/
def memmoveAndIncrement (obj : Memory) (cap : ℕ) (size : Word) : RecM Memory := fun c =>
  let s := c.session
  let n := size.toNat
  let pos := s.bufferPos.toNat
  let obj' := if s.replaySyscalls = 1 then overlay obj 0 (slice s.buffer pos n) else obj
  if (s.replaySyscalls = 1 ∨ s.recordSyscalls = 1) ∧ 0 < n ∧
      ¬ (0 ≤ s.bufferPos ∧ s.bufferPos + n ≤ maxFileSize ∧ n ≤ cap) then
    .error .outOfBounds c
  else
    .ok obj' { c with session := { s with
      buffer := if s.recordSyscalls = 1 then overlay s.buffer pos (slice obj' 0 n) else s.buffer
      bufferPos := s.bufferPos + size.toInt
      bufferSeen :=
        if s.replaySyscalls = 1 ∧ 0 < n then max s.bufferSeen (pos + n) else s.bufferSeen } }

/-- Move a single byte. -/
def transferByte (b : Byte) : RecM Byte := do
  let obj ← memmoveAndIncrement (fun _ => b) 1 1
  pure (obj 0)

/-- Move `size` bytes of the union member that has `cap` bytes from offset `off`. -/
def transferVal (off cap : ℕ) (size : Word) (v : Val) : RecM Val := do
  let obj ← memmoveAndIncrement (fun k => v (off + k)) cap size
  pure (overlay v off (slice obj 0 size.toNat))

/-- Move the record count `scrs_idx`. -/
def transferIdx : RecM Unit := do
  let c ← get
  let obj ← memmoveAndIncrement (putField 0 (BitVec.ofInt 32 c.session.scrsIdx) (fun _ => 0)) 4 4
  modify fun c =>
    if c.session.replaySyscalls = 1 then
      { c with session := { c.session with scrsIdx := (field 32 0 obj).toInt } }
    else c

/-! ## Moving one record -/

/-- The switch on the type of an argument. -/
def transformVal (arg : Arg) : RecM Arg :=
  if arg.type = intType then do
    let v ← transferVal 0 4 4 arg.val
    pure { arg with val := v }
  else if arg.type = uintType then do
    let v ← transferVal 0 4 4 arg.val
    pure { arg with val := v }
  else if arg.type = byteType then do
    let v ← transferVal 0 4 4 arg.val
    -- when decoding, the length of this copy has just been read
    let v ← transferVal 4 maxRawSize v.rawSize v
    pure { arg with val := v }
  else if arg.type = statType then do
    let v ← transferVal 0 2 2 arg.val
    let v ← transferVal 4 4 4 v
    let v ← transferVal 8 4 4 v
    let v ← transferVal 12 2 2 v
    let v ← transferVal 16 4 4 v
    pure { arg with val := v }
  else do
    modify recRepErr
    pure arg

/-- One pass of the argument loop; `false` is the `return -1` on a null type. -/
def transformArg (arg : Arg) : RecM (Bool × Arg) := do
  let c ← get
  if c.session.recordSyscalls = 1 ∧ arg.type = noneType then pure (false, arg)
  else do
    let t ← transferByte arg.type
    let c ← get
    if c.session.replaySyscalls = 1 ∧ t = noneType then pure (false, { arg with type := t })
    else do
      let arg' ← transformVal { arg with type := t }
      pure (true, arg')

/-- The argument loop: `remaining` arguments from index `i` on, with `behind` beyond the
array.  A store there stops the model; in other modes the loop runs on with what it
finds. -/
def transformArgs (behind : ℕ → Arg) : (remaining i : ℕ) → SCR → RecM (ℤ × SCR)
  | 0, _, scr => pure (1, scr)
  | remaining + 1, i, scr =>
    if h : i < maxArgc then do
      let r ← transformArg (scr.args ⟨i, h⟩)
      let scr' := { scr with args := Function.update scr.args ⟨i, h⟩ r.2 }
      if r.1 then transformArgs behind remaining (i + 1) scr' else pure (-1, scr')
    else do
      let c ← get
      if c.session.replaySyscalls = 1 then throw .outOfBounds
      else do
        let r ← transformArg (behind i)
        if r.1 then transformArgs behind remaining (i + 1) scr else pure (-1, scr)

/-- The body of `bidirectionalTransform` after the two cursor checks. -/
def transformSCR (behind : ℕ → Arg) (scr : SCR) : RecM (ℤ × SCR) := do
  let c ← get
  if c.session.recordSyscalls = 1 ∧ scr.syscall = unitializedScr then pure (0, scr)
  else do
    let n ← transferByte scr.syscall
    let c ← get
    if c.session.replaySyscalls = 1 ∧ n = unitializedScr then
      pure (0, { scr with syscall := n })
    else do
      let argc ← transferByte scr.argc
      transformArgs behind argc.toNat 0 { scr with syscall := n, argc := argc }

/-- `bidirectionalTransform(&recorded_scrs[i], fileSize)`.  The cursor checks do
not touch the record; everything after them does.  Beyond the log, too, only a store
stops the model. -/
def bidirectionalTransform (i : ℕ) (fileSize : ℤ) : RecM ℤ := do
  let c ← get
  if (maxFileSize : ℤ) < c.session.bufferPos then pure (-1)
  else if c.session.replaySyscalls = 1 ∧ fileSize < c.session.bufferPos then pure (-1)
  else if i < maxScrs then do
    let r ← transformSCR (c.session.behindArgs i) (c.session.recordedScrs i)
    modify fun c => { c with session := { c.session with
      recordedScrs := Function.update c.session.recordedScrs i r.2 } }
    pure r.1
  else if c.session.replaySyscalls = 1 then throw .outOfBounds
  else do
    let r ← transformSCR (c.session.behindArgs i) (c.session.recordedScrs i)
    pure r.1

/-! ## Moving the whole log -/

/-- The loop over the records; `false` is the exit on status `-1`. -/
def transformLoop (fileSize : ℤ) : (remaining i : ℕ) → RecM Bool
  | 0, _ => pure true
  | remaining + 1, i => do
    let status ← bidirectionalTransform i fileSize
    if status = -1 then pure false
    else if status = 0 then pure true
    else transformLoop fileSize remaining (i + 1)

/-- `buffer_pos = 0`. -/
def Core.rewind (c : Core) : Core :=
  { c with session := { c.session with bufferPos := 0 } }

/-- The codec part of `sys_record_stop`: the count, then every record. -/
def packScrs : RecM Bool := do
  modify Core.rewind
  transferIdx
  let c ← get
  transformLoop (-1) c.session.scrsIdx.toNat 0

/-- The codec part of `sys_replay_start`, run on a buffer whose first `fileSize`
bytes have just been read.  The count stays in `scrs_idx` when the loop fails. -/
def unpackScrs (fileSize : ℤ) : RecM Bool := do
  transferIdx
  let c ← get
  let ok ← transformLoop fileSize c.session.scrsIdx.toNat 0
  if ok then do
    modify fun c => { c with session := { c.session with scrsIdx := 0 } }
    pure true
  else pure false

end V3
