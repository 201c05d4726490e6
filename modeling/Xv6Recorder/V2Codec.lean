/-
# The session codec of the second recorder (`v2/sysproc.c`, lines 311–447)

Encoder and decoder are two functions, `compress` and `uncompress`, over a local buffer of
60000 bytes with a cursor.  The loops of `sys_record_stop` (lines 497–504) and
`sys_replay_start` (lines 578–585) drive them over the log.  The stream has no count and
no terminator: the decoder stops at the number of bytes that were read, at a syscall byte
that is zero or above 27, or when the table is full.
-/
import Xv6Recorder.Cursor
import Xv6Recorder.V2Record

open Bytes Xv6

namespace V2

/-- `sizeof(buffer)`, for the local buffers of the two session calls. -/
def bufferSize : ℕ := 60000

/-- Programs over the buffer and the cursor `bfileSize`, respectively `bfileRead`. -/
abbrev CodecM := EStateM Halt Cursor

/-- `memmove` to the cursor, which advances. -/
def store (bytes : List Byte) : CodecM Unit := Cursor.emit bufferSize Halt.outOfBounds bytes

/-- `memmove` from the cursor, which advances. -/
def load (n : ℕ) : CodecM (List Byte) := Cursor.grab bufferSize Halt.outOfBounds n

/-! ## The encoder -/

/-- The switch of `compress` on the type of a field. -/
def compressData (type : Byte) (data : Data) : CodecM Unit :=
  if type = intType ∨ type = uintType then store (slice data 0 4)
  else if type = pstatType then do
    store (slice data 0 2)
    store (slice data 2 4)
    store (slice data 6 4)
    store (slice data 10 2)
    store (slice data 12 4)
  else if type = byteType then do
    store (slice data 0 4)
    if maxByteSize < data.size.toNat then throw .outOfBounds
    else store (slice data 4 data.size.toNat)
  else pure ()

/-- The tag and the data of one field. -/
def compressField (field : Field) : CodecM Unit := do
  store [field.type]
  compressData field.type field.data

/-- The loop of `compress` over the fields from `i` on; it ends at a field without type. -/
def compressFields (call : Call) : (remaining i : ℕ) → CodecM Unit
  | 0, _ => pure ()
  | remaining + 1, i =>
    if h : i < maxFieldSize then
      if (call.fields ⟨i, h⟩).type = noneType then pure ()
      else do
        compressField (call.fields ⟨i, h⟩)
        compressFields call remaining (i + 1)
    else throw .outOfBounds

/-- `false` stands for the result `-1`. -/
def compress (call : Call) : CodecM Bool :=
  if call.syscall = uninitialized then pure false
  else do
    store [call.syscall]
    store [call.size]
    compressFields call call.size.toNat 0
    pure true

/-- The loop of `sys_record_stop`, from call `i` on. -/
def compressCalls (calls : ℕ → Call) : (remaining i : ℕ) → CodecM Unit
  | 0, _ => pure ()
  | remaining + 1, i => do
    let ok ← compress (calls i)
    if ok then compressCalls calls remaining (i + 1) else pure ()

/-! ## The decoder -/

/-- Load `n` bytes into the union at offset `off`. -/
def loadAt (off n : ℕ) (data : Data) : CodecM Data := do
  let bytes ← load n
  pure (overlay data off bytes)

/-- Load one byte. -/
def loadByte : CodecM Byte := do
  let bytes ← load 1
  pure (bytes.headD 0)

/-- The switch of `uncompress` on the type of a field. -/
def uncompressData (type : Byte) (data : Data) : CodecM Data :=
  if type = intType ∨ type = uintType then loadAt 0 4 data
  else if type = byteType then do
    let data ← loadAt 0 4 data
    if maxByteSize < data.size.toNat then throw .outOfBounds
    else loadAt 4 data.size.toNat data
  else if type = pstatType then do
    let data ← loadAt 0 2 data
    let data ← loadAt 2 4 data
    let data ← loadAt 6 4 data
    let data ← loadAt 10 2 data
    loadAt 12 4 data
  else pure data

/-- The loop of `uncompress` over the fields from `i` on. -/
def uncompressFields (call : Call) : (remaining i : ℕ) → CodecM Call
  | 0, _ => pure call
  | remaining + 1, i =>
    if h : i < maxFieldSize then do
      let type ← loadByte
      let data ← uncompressData type (call.fields ⟨i, h⟩).data
      uncompressFields { call with fields := Function.update call.fields ⟨i, h⟩ ⟨type, data⟩ }
        remaining (i + 1)
    else throw .outOfBounds

/-- Decode one call into a slot of the table; `false` stands for the result `-1`, which
leaves the syscall number and the size in the slot when they were loaded. -/
def uncompress (call : Call) (rStatus : ℤ) : CodecM (Bool × Call) := do
  let c ← get
  if rStatus ≤ c.pos then pure (false, call)
  else do
    let syscall ← loadByte
    let size ← loadByte
    let call := { call with syscall, size }
    if syscall = uninitialized ∨ 27 < syscall.toNat then pure (false, call)
    else do
      let call ← uncompressFields call size.toNat 0
      pure (true, call)

/-- The loop of `sys_replay_start`, from slot `i` on. -/
def uncompressCalls (rStatus : ℤ) : (remaining i : ℕ) → (ℕ → Call) → CodecM (ℕ → Call)
  | 0, _, calls => pure calls
  | remaining + 1, i, calls => do
    let r ← uncompress (calls i) rStatus
    let calls := Function.update calls i r.2
    if r.1 then uncompressCalls rStatus remaining (i + 1) calls else pure calls

end V2
