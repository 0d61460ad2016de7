import BekOS.Lib.LittleEndian
import BekOS.Lib.Overlay
import BekOS.Lib.PartialRun
import BekOS.Library.KernelError

/-!
# `BufferedFile`

A file read and written through one buffer, which holds what has been read ahead and what is still
to be written.  The system calls under it may transfer less than they are asked to: the call that
is the `n`th to transfer anything transfers `limit n` bytes at most.
-/

namespace BekOS

open PartialRun

/-- `SeekLocation` -/
inductive SeekLocation
  | Start
  | Current
  | End
  deriving DecidableEq, Repr

/-- A file under its handle: what is in it, the offset, and what has been written so far. -/
structure OpenFile where
  content : List Byte
  offset : ℕ
  delivered : List Byte
  deriving DecidableEq, Repr

namespace OpenFile

/-- The bytes from the offset on. -/
def fetch (file : OpenFile) (len : ℕ) : List Byte := window file.content file.offset len

/-- The file with the offset moved on. -/
def skip (file : OpenFile) (n : ℕ) : OpenFile := { file with offset := file.offset + n }

/-- The file with bytes written at the offset. -/
def deliver (file : OpenFile) (bytes : List Byte) : OpenFile where
  content := overlay file.content file.offset bytes
  offset := file.offset + bytes.length
  delivered := file.delivered ++ bytes

/-- Where a seek starts from. -/
def startPoint (file : OpenFile) : SeekLocation → ℕ
  | .Start => 0
  | .Current => file.offset
  | .End => file.content.length

/-- `FileHandle::seek` refuses. -/
def Refuses (file : OpenFile) (location : SeekLocation) (offset : ℤ) : Prop :=
  (offset < 0 ∧ file.startPoint location < (-offset).toNat) ∨
    (0 < offset ∧ (0x8000000000000000 ≤ file.startPoint location + offset ∨
      file.content.length < file.startPoint location + offset))
deriving Decidable

/-- `FileHandle::seek` -/
def seek (file : OpenFile) (location : SeekLocation) (offset : ℤ) :
    OpenFile × Except ErrorCode ℕ :=
  if file.Refuses location offset then (file, .error .EINVAL)
  else
    ({ file with offset := (file.startPoint location + offset).toNat },
      .ok (file.startPoint location + offset).toNat)

@[simp] theorem deliver_nil (file : OpenFile) : file.deliver [] = file := by
  simp [deliver]

theorem deliver_append (file : OpenFile) (a b : List Byte) :
    (file.deliver a).deliver b = file.deliver (a ++ b) := by
  unfold deliver
  rw [overlay_append, List.length_append, Nat.add_assoc, List.append_assoc]

end OpenFile

namespace BufferedFile

/-- The kernel's side: the file, and how many system calls have transferred anything. -/
structure Kernel where
  file : OpenFile
  transfers : ℕ
  deriving DecidableEq, Repr

/-- `sys_read`, at the offset of the handle. -/
def Kernel.read (limit : ℕ → ℕ) (kernel : Kernel) (len : ℕ) : Kernel × List Byte :=
  let bytes := kernel.file.fetch (min len (limit kernel.transfers))
  (⟨kernel.file.skip bytes.length, kernel.transfers + 1⟩, bytes)

/-- `sys_write`, at the offset of the handle. -/
def Kernel.write (limit : ℕ → ℕ) (kernel : Kernel) (bytes : List Byte) : Kernel × ℕ :=
  let count := min bytes.length (limit kernel.transfers)
  (⟨kernel.file.deliver (bytes.take count), kernel.transfers + 1⟩, count)

/-- `BufferingMode` -/
inductive BufferingMode
  | NO_BUFFERING
  | LINE_BUFFERED
  | BLOCK_BUFFERED
  deriving DecidableEq, Repr

/-- `OpenFlags`, as far as they are tested. -/
structure OpenFlags where
  read : Bool
  write : Bool
  deriving DecidableEq, Repr

end BufferedFile

open BufferedFile in
/-- `BufferedFile`, with the kernel that its descriptor leads to. -/
structure BufferedFile where
  buffer : List Byte
  writeBase : ℕ
  writePos : ℕ
  writeEnd : ℕ
  readPos : ℕ
  readEnd : ℕ
  openFlags : OpenFlags
  bufferingMode : BufferingMode
  kernel : Kernel
  deriving DecidableEq, Repr

namespace BufferedFile

/-- `BUFFER_SIZE` -/
def bufferSize : ℕ := 1024

/-- The constructor, for a file that has just been opened. -/
def opened (content : List Byte) (flags : OpenFlags) (mode : BufferingMode) : BufferedFile where
  buffer := List.replicate (if mode = .NO_BUFFERING then 0 else bufferSize) 0
  writeBase := 0
  writePos := 0
  writeEnd := if mode = .NO_BUFFERING then 0 else bufferSize
  readPos := 0
  readEnd := 0
  openFlags := flags
  bufferingMode := mode
  kernel := ⟨⟨content, 0, []⟩, 0⟩

/-! ## The functions -/

/-- The bytes that are still to be written. -/
def pending (file : BufferedFile) : List Byte :=
  window file.buffer file.writeBase (file.writePos - file.writeBase)

/-- The bytes that have been read ahead. -/
def unread (file : BufferedFile) : List Byte :=
  window file.buffer file.readPos (file.readEnd - file.readPos)

/-- How much more can be put in the buffer to be written. -/
def room (file : BufferedFile) : ℕ := file.writeEnd - file.writePos

/-- The loop of `flush_writes`. -/
def flushRounds (limit : ℕ → ℕ) :
    ℕ → BufferedFile → Except Halt (BufferedFile × Except ErrorCode Unit)
  | 0, _ => .error .spin
  | fuel + 1, file =>
      if file.writePos - file.writeBase ≠ 0 then
        let sent := file.kernel.write limit file.pending
        let file := { file with kernel := sent.1, writeBase := file.writeBase + sent.2 }
        if sent.2 = 0 then .ok (file, .error ErrorCode.EIO) else flushRounds limit fuel file
      else .ok (file, .ok ())

/-- The write cursors after a flush. -/
def rearranged (file : BufferedFile) (preparingForRead : Bool) : BufferedFile :=
  if preparingForRead then { file with writeBase := 0, writePos := 0, writeEnd := 0 }
  else if 0 < file.readPos then
    { file with writeBase := 0, writePos := 0, writeEnd := file.readPos }
  else
    { file with
      writeBase := file.readEnd
      writePos := file.readEnd
      writeEnd := file.buffer.length }

/-- `flush_writes` -/
def flushWrites (limit : ℕ → ℕ) (file : BufferedFile) (preparingForRead : Bool) :
    Except Halt (BufferedFile × Except ErrorCode ℕ) := do
  let flushed ← flushRounds limit (file.writePos - file.writeBase + 1) file
  expectedTry flushed fun file _ => .ok (file.rearranged preparingForRead, .ok 0)

/-- `find_next_line_end`, as a count from the start. -/
def findNextLineEnd : List Byte → Option ℕ
  | [] => none
  | byte :: rest => if byte = 10 then some 1 else (findNextLineEnd rest).map (· + 1)

/-- The buffer with bytes put in to be written. -/
def fill (file : BufferedFile) (bytes : List Byte) : BufferedFile :=
  { file with
    buffer := overlay file.buffer file.writePos bytes
    writePos := file.writePos + bytes.length }

/-- The loop of `write` that goes past the buffer. -/
def directRounds (limit : ℕ → ℕ) :
    ℕ → BufferedFile → List Byte → ℕ → Except Halt (BufferedFile × Except ErrorCode ℕ)
  | 0, _, _, _ => .error .spin
  | fuel + 1, file, rest, written =>
      if rest.length ≠ 0 then
        let sent := file.kernel.write limit rest
        let file := { file with kernel := sent.1 }
        if sent.2 = 0 then .ok (file, .ok written)
        else directRounds limit fuel file (rest.drop sent.2) (written + sent.2)
      else .ok (file, .ok written)

/-- `write`, of what the first filling of the buffer has left. -/
def writeRest (limit : ℕ → ℕ) (file : BufferedFile) (rest : List Byte) (written : ℕ)
    (nextFlushPoint : Option ℕ) : Except Halt (BufferedFile × Except ErrorCode ℕ) :=
  if rest.length = 0 then .ok (file, .ok written)
  else if rest.length < file.room ∧ nextFlushPoint = none then
    .ok (file.fill rest, .ok (written + rest.length))
  else directRounds limit (rest.length + 1) file rest written

/-- The point at which a flush is mandatory. -/
def flushPoint (file : BufferedFile) (bytes : List Byte) : Option ℕ :=
  if file.bufferingMode = .LINE_BUFFERED then findNextLineEnd bytes else none

/-- `write` -/
def write (limit : ℕ → ℕ) (file : BufferedFile) (bytes : List Byte) :
    Except Halt (BufferedFile × Except ErrorCode ℕ) :=
  if file.openFlags.write = false then .ok (file, .error .EBADF)
  else
    let nextFlushPoint := file.flushPoint bytes
    let copied := min bytes.length file.room
    let filled := file.fill (bytes.take copied)
    let rest := bytes.drop copied
    let passed := nextFlushPoint.any (· ≤ copied)
    if filled.writeEnd = filled.writePos ∨ passed = true then do
      let flushed ← filled.flushWrites limit false
      expectedTry flushed fun file _ =>
        file.writeRest limit rest copied (if passed then findNextLineEnd rest else nextFlushPoint)
    else filled.writeRest limit rest copied nextFlushPoint

/-- `read_from_buffer` -/
def serve (file : BufferedFile) (len : ℕ) : BufferedFile × List Byte :=
  let toRead := min len (file.readEnd - file.readPos)
  ({ file with readPos := file.readPos + toRead }, window file.buffer file.readPos toRead)

/-- The loop of `read` that fills the buffer. -/
def fillRounds (limit : ℕ → ℕ) :
    ℕ → BufferedFile → ℕ → List Byte → Except Halt (BufferedFile × Except ErrorCode (List Byte))
  | 0, _, _, _ => .error .spin
  | fuel + 1, file, left, done =>
      if left ≠ 0 then
        let got := file.kernel.read limit file.buffer.length
        if got.2.length = 0 then .ok ({ file with kernel := got.1 }, .ok done)
        else
          let served := serve
            { file with
              buffer := overlay file.buffer 0 got.2
              readPos := 0
              readEnd := got.2.length
              kernel := got.1 } left
          fillRounds limit fuel served.1 (left - served.2.length) (done ++ served.2)
      else .ok (file, .ok done)

/-- The loop of `read` that goes past the buffer. -/
def largeRounds (limit : ℕ → ℕ) :
    ℕ → BufferedFile → ℕ → List Byte → Except Halt (BufferedFile × Except ErrorCode (List Byte))
  | 0, _, _, _ => .error .spin
  | fuel + 1, file, left, done =>
      if left ≠ 0 then
        let got := file.kernel.read limit left
        let file := { file with kernel := got.1 }
        if got.2.length = 0 then .ok (file, .ok done)
        else largeRounds limit fuel file (left - got.2.length) (done ++ got.2)
      else .ok (file, .ok done)

/-- `read`; the count that is returned is that of the bytes. -/
def read (limit : ℕ → ℕ) (file : BufferedFile) (len : ℕ) :
    Except Halt (BufferedFile × Except ErrorCode (List Byte)) :=
  if file.openFlags.read = false then .ok (file, .error .EBADF)
  else
    let served := file.serve len
    let left := len - served.2.length
    if left = 0 then .ok (served.1, .ok served.2)
    else if left < file.buffer.length then do
      let flushed ← served.1.flushWrites limit true
      expectedTry flushed fun file _ => fillRounds limit (left + 1) file left served.2
    else largeRounds limit (left + 1) served.1 left served.2

/-- `seek` -/
def seek (limit : ℕ → ℕ) (file : BufferedFile) (location : SeekLocation) (offset : ℤ) :
    Except Halt (BufferedFile × Except ErrorCode ℕ) := do
  let flushed ← flushWrites limit { file with readPos := 0, readEnd := 0 } false
  expectedTry flushed fun file _ =>
    let sought := file.kernel.file.seek location offset
    .ok ({ file with kernel := { file.kernel with file := sought.1 } }, sought.2)

/-- `flush` -/
def flush (limit : ℕ → ℕ) (file : BufferedFile) :
    Except Halt (BufferedFile × Except ErrorCode ℕ) := do
  let flushed ← file.flushWrites limit false
  expectedTry flushed fun file _ => .ok (file, .ok 0)

end BufferedFile

end BekOS
