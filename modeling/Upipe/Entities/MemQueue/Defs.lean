import Upipe.Common.Python
import Upipe.Types.Entities

/-!
# The shared-memory queue

`MemQueue` is one process's handle on a shared buffer: 64 control bytes, then the circular data area.
The methods below are the bodies of `put` and `get` line by line. Both take the clock `now` (whole
milliseconds) that `update_dfps` reads. The two locks are taken as a working mutex here, so `putLocked`
and `getLocked` are the parts of the bodies that run under them.

The action log, the debug prints and the performance readings are left out: nothing that `put` or `get`
returns or stores depends on them.
-/

namespace Upipe

open Upipe.Common

/-- One process's `MemQueue` object: its attributes, the mapped buffer `self.mem.buf`, and the frame
counter, which is local to the object. -/
structure MemQueue where
  qid : String
  fromP : String
  toP : String
  host : Option String
  size : ℕ
  buf : Bytes
  frameCounter : ℕ
deriving DecidableEq, Repr

namespace MemQueue

/-! ## Layout -/

def frameHeaderSize : ℕ := 32
def frameStatusOffset : ℕ := 0
def frameTypeOffset : ℕ := 1
def frameSizeOffset : ℕ := 2
def frameWatermarkOffset : ℕ := 6
def frameCrc32Offset : ℕ := 14
def frameNumOffset : ℕ := 18
def qControlSize : ℕ := 64
def dataStartPoint : ℕ := qControlSize
def statusPointer : ℕ := 24
def directionPointer : ℕ := 25
def allocPointer : ℕ := 26
def exePointer : ℕ := 30
def allocCounterPointer : ℕ := 34
def exeCounterPointer : ℕ := 38
def dfpsCalcInterval : ℕ := 42
def lastDfpsCalcTimePointer : ℕ := 46
def dfpsLastAllocCounterPointer : ℕ := 54
def dfpsLastExeCounterPointer : ℕ := 58

/-- `WATER_MARK`, the text `d@tal0op`. -/
def waterMark : Bytes := [0x64, 0x40, 0x74, 0x61, 0x6C, 0x30, 0x6F, 0x70]

/-- `FRAME_STATUS.CREATED`. -/
def frameCreated : UInt8 := 1

/-- `LOCK_STATUS.OPEN`. -/
def lockOpen : ℕ := 1

/-- `Q_DIRECTION`: both members have the value one. -/
inductive QDirection where
  | wrap | normal
deriving DecidableEq, Repr

def QDirection.value : QDirection → ℕ
  | .wrap => 1
  | .normal => 1

/-! ## Access to the buffer -/

/-- `int.from_bytes(self.mem.buf[address:address + len], "little")`. -/
def getInt (q : MemQueue) (address len : ℕ) : ℕ := leValue (slice q.buf address (address + len))

/-- `self.mem.buf[lo:hi] = v`: a memory view never changes its length. -/
def store (lo hi : ℤ) (v : Bytes) : PyM MemQueue Unit := fun q =>
  if v.length = (pySlice q.buf lo hi).length then
    .ok () { q with buf := patch q.buf (sliceIndex lo q.buf.length) v }
  else
    .error ⟨.valueError, "memoryview assignment: lvalue and rvalue have different structures"⟩ q

/-- `self.mem.buf[address:address + len] = value.to_bytes(len, "little")`. -/
def setInt (address len : ℕ) (value : ℤ) : PyM MemQueue Unit := do
  let bytes ← ofExcept (toBytes value len)
  store address (address + len) bytes

def status (q : MemQueue) : ℕ := q.getInt statusPointer 1
def direction (q : MemQueue) : ℕ := q.getInt directionPointer 1
def allocIndex (q : MemQueue) : ℕ := q.getInt allocPointer 4
def exeIndex (q : MemQueue) : ℕ := q.getInt exePointer 4
def allocCounter (q : MemQueue) : ℕ := q.getInt allocCounterPointer 4
def exeCounter (q : MemQueue) : ℕ := q.getInt exeCounterPointer 4
def dfpsIntervalMs (q : MemQueue) : ℕ := q.getInt dfpsCalcInterval 4
def lastDfpsCalcTime (q : MemQueue) : ℕ := q.getInt lastDfpsCalcTimePointer 8
def dfpsLastAllocCounter (q : MemQueue) : ℕ := q.getInt dfpsLastAllocCounterPointer 4
def dfpsLastExeCounter (q : MemQueue) : ℕ := q.getInt dfpsLastExeCounterPointer 4

/-- `pending_counter`. -/
def pendingCounter (q : MemQueue) : ℤ := q.allocCounter - q.exeCounter

/-- `_data_size`. -/
def dataSize (q : MemQueue) : ℤ := q.size - qControlSize

/-- `free_space`, from the two indices alone. -/
def freeSpace (q : MemQueue) : ℤ :=
  if q.allocIndex < q.exeIndex then q.exeIndex - q.allocIndex
  else q.dataSize - (q.allocIndex - q.exeIndex)

/-- `capacity > MAX_CAPACITY` for `capacity = (size - Q_CONTROL_SIZE - free_space) / size`. The
quotient of two integers of this range compares with the constant `0.90` as the exact fractions do. -/
def overCapacity (q : MemQueue) : Prop := 10 * (q.size - qControlSize - q.freeSpace) > 9 * q.size

instance (q : MemQueue) : Decidable q.overCapacity := inferInstanceAs (Decidable (_ > _))

/-! ## Creation -/

/-- The constructor on a memory name that does not exist yet. -/
def create (q : APIQueue) : Except PyError MemQueue :=
  if q.size < qControlSize + frameHeaderSize + 1 then
    .error ⟨.memoryError, "Queue size must be at least 97"⟩
  else
    let fresh : MemQueue :=
      { qid := q.id, fromP := q.fromP, toP := q.toP, host := q.host, size := q.size.toNat,
        buf := List.replicate q.size.toNat 0, frameCounter := 0 }
    let init : PyM MemQueue Unit := do
      setInt statusPointer 1 lockOpen
      setInt directionPointer 1 QDirection.normal.value
      setInt allocPointer 4 dataStartPoint
      setInt exePointer 4 dataStartPoint
      setInt dfpsCalcInterval 4 1000
    match init fresh with
    | .ok _ s => .ok s
    | .error e _ => .error e

/-! ## Writing a frame -/

/-- `update_dfps` at clock `now`. -/
def updateDfps (now : UInt64) : PyM MemQueue Unit := do
  let q ← get
  if (now.toNat : ℤ) - q.lastDfpsCalcTime < q.dfpsIntervalMs then
    pure ()
  else do
    setInt dfpsLastExeCounterPointer 4 q.exeCounter
    let q ← get
    setInt dfpsLastAllocCounterPointer 4 q.allocCounter
    setInt lastDfpsCalcTimePointer 8 now.toNat

/-- The size of a frame on the queue: its body and the header. -/
def frameSize (body : Bytes) : ℕ := body.length + frameHeaderSize

/-- The 32 header bytes, from the encoded size, checksum and frame number. -/
def frameHeader (size crc num : Bytes) : Bytes :=
  let header := List.replicate frameHeaderSize 0
  let header := patch header frameStatusOffset [frameCreated]
  let header := patch header frameTypeOffset [13]
  let header := patch header frameSizeOffset size
  let header := patch header frameWatermarkOffset waterMark
  let header := patch header frameCrc32Offset crc
  patch header frameNumOffset num

/-- The write of a whole frame at `alloc_index`, split in two when it reaches the end of the buffer. -/
def writeFrame (frame : Bytes) : PyM MemQueue Unit := do
  let q ← get
  let frameSize : ℤ := frame.length
  let endOfBufferSpace : ℤ := q.size - q.allocIndex
  let frameAddress : ℤ := q.allocIndex
  if endOfBufferSpace ≤ frameSize then do
    store frameAddress (frameAddress + endOfBufferSpace) (pySlice frame 0 endOfBufferSpace)
    let sizeLeft := frameSize - endOfBufferSpace
    store dataStartPoint (dataStartPoint + sizeLeft) (pySlice frame endOfBufferSpace frame.length)
    setInt allocPointer 4 (dataStartPoint + sizeLeft)
    setInt directionPointer 1 QDirection.normal.value
  else do
    store frameAddress (frameAddress + frameSize) frame
    let q ← get
    setInt allocPointer 4 (q.allocIndex + frameSize)
    setInt directionPointer 1 QDirection.wrap.value

/-- The part of `put` under the write lock. -/
def putLocked (body : Bytes) (now : UInt64) : PyM MemQueue Bool := do
  let sizeBytes ← ofExcept (toBytes (frameSize body) 4)
  let crcBytes ← ofExcept (toBytes (crc32 body).toNat 4)
  let q ← get
  let numBytes ← ofExcept (toBytes q.frameCounter 4)
  modify fun q => { q with frameCounter := q.frameCounter + 1 }
  writeFrame (frameHeader sizeBytes crcBytes numBytes ++ body)
  updateDfps now
  let q ← get
  setInt allocCounterPointer 4 (q.allocCounter + 1)
  pure true

/-- The size test of `put`, on an encoded frame. -/
def fitsFree (q : MemQueue) (body : Bytes) : Prop := (frameSize body : ℤ) ≤ q.freeSpace

instance (q : MemQueue) (body : Bytes) : Decidable (q.fitsFree body) :=
  inferInstanceAs (Decidable (_ ≤ _))

/-- `put`. The argument is `df.to_byte_arr()`, which is evaluated after the capacity test. -/
def put (df : Except PyError Bytes) (now : UInt64) : PyM MemQueue Bool := do
  let q ← get
  if q.overCapacity then pure false
  else do
    let body ← ofExcept df
    if ¬ q.fitsFree body then pure false else putLocked body now

/-- The tests of `put`: `none` when it returns `False`, otherwise the encoded frame. -/
def putTest (q : MemQueue) (df : Except PyError Bytes) : Except PyError (Option Bytes) :=
  if q.overCapacity then .ok none
  else do
    let body ← df
    if ¬ q.fitsFree body then pure none else pure (some body)

/-- `space_available`. -/
def spaceAvailable (df : Except PyError Bytes) (q : MemQueue) : Except PyError Bool := do
  let body ← df
  if (frameSize body : ℤ) > q.freeSpace then pure false else pure true

/-! ## Reading a frame -/

/-- The header at `exe_index`, read in two parts when it reaches the end of the buffer. -/
def readFrameHeader (q : MemQueue) : Bytes :=
  if q.exeIndex + frameHeaderSize < q.size then
    pySlice q.buf q.exeIndex (q.exeIndex + frameHeaderSize)
  else
    let headerSpaceLeft : ℤ := q.size - q.exeIndex
    pySlice q.buf q.exeIndex q.buf.length ++
      pySlice q.buf dataStartPoint (dataStartPoint + frameHeaderSize - headerSpaceLeft)

/-- `frame_data_pointer`: the address behind the header at `exe_index`. -/
def frameDataPointer (q : MemQueue) : ℕ :=
  if q.exeIndex + frameHeaderSize ≥ q.size then
    dataStartPoint + (q.exeIndex + frameHeaderSize) % q.size
  else q.exeIndex + frameHeaderSize

/-- The `frameDataSize` bytes behind the header, read in two parts when they reach the end. -/
def readFrameData (q : MemQueue) (frameDataSize : ℤ) : Except PyError Bytes := do
  let _ ← byteArray frameDataSize
  let frameDataPointer : ℤ := q.frameDataPointer
  if frameDataPointer + frameDataSize < q.size then
    pure (pySlice q.buf frameDataPointer (frameDataPointer + frameDataSize))
  else
    let dataSpaceLeft := q.size - frameDataPointer
    pure (pySlice q.buf frameDataPointer q.buf.length ++
      pySlice q.buf dataStartPoint (dataStartPoint + frameDataSize - dataSpaceLeft))

/-- Zero the frame at `exe_index`. -/
def clearExecutedFrame (frameSize : ℕ) : PyM MemQueue Unit := do
  let q ← get
  if q.exeIndex + frameSize < q.size then
    store q.exeIndex (q.exeIndex + frameSize) (List.replicate frameSize 0)
  else do
    let frameSpaceLeft : ℤ := q.size - q.exeIndex
    let zeros ← ofExcept (byteArray frameSpaceLeft)
    store q.exeIndex q.buf.length zeros
    let zeros ← ofExcept (byteArray (frameSize - frameSpaceLeft))
    store dataStartPoint (dataStartPoint + frameSize - frameSpaceLeft) zeros

/-- Move `exe_index` behind the frame. -/
def updateExecutionIndex (frameSize : ℕ) : PyM MemQueue Unit := do
  let q ← get
  if q.exeIndex + frameSize < q.size then
    setInt exePointer 4 (q.exeIndex + frameSize : ℕ)
  else
    setInt exePointer 4 (dataStartPoint + (q.exeIndex + frameSize) % q.size : ℕ)

section Get

variable {α : Type} (fromByteArr : Bytes → Except PyError α)

/-- What `get` does with the bytes of a consumed frame: check the sum, decode, count. -/
def finishGet (expectedCrc32 frameData : Bytes) (startExeIndex : ℕ) (now : UInt64) :
    PyM MemQueue (Option α) := do
  let actualCrc32 ← ofExcept (toBytes (crc32 frameData).toNat 4)
  if expectedCrc32 ≠ actualCrc32 then do
    let q ← get
    let exeCount := q.exeCounter
    throw ⟨.brokenPipeError,
      s!"Frame CRC32 error at index:{startExeIndex}, exe count:{exeCount} "⟩
  else do
    let frame ← ofExcept (fromByteArr frameData)
    updateDfps now
    let q ← get
    setInt exeCounterPointer 4 (q.exeCounter + 1)
    pure (some frame)

/-- The part of `get` under the read lock. -/
def getLocked (now : UInt64) : PyM MemQueue (Option α) := do
  let q ← get
  let startExeIndex := q.exeIndex
  let frameHeader := q.readFrameHeader
  let frameStatus ← ofExcept (byteAt frameHeader frameStatusOffset)
  let watermark := slice frameHeader frameWatermarkOffset (frameWatermarkOffset + 8)
  let expectedCrc32 := slice frameHeader frameCrc32Offset (frameCrc32Offset + 4)
  if frameStatus ≠ frameCreated then pure none
  else if watermark ≠ waterMark then
    throw ⟨.brokenPipeError, s!"Missing watermark on index:{watermark} @ {startExeIndex}"⟩
  else do
    let frameSize := leValue (slice frameHeader frameSizeOffset (frameSizeOffset + 4))
    let frameDataSize : ℤ := frameSize - frameHeaderSize
    let frameData ← ofExcept (q.readFrameData frameDataSize)
    clearExecutedFrame frameSize
    updateExecutionIndex frameSize
    finishGet fromByteArr expectedCrc32 frameData startExeIndex now

/-- `get`. -/
def get (now : UInt64) : PyM MemQueue (Option α) := do
  let q ← MonadState.get
  if q.pendingCounter = 0 then pure none else getLocked fromByteArr now

end Get

end MemQueue

end Upipe
