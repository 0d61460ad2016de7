import BekOS.Lib.Bitmap
import BekOS.Library.KernelError

/-!
# Transactional buffers

`UserBuffer` and `TransactionalBufferSubset`.  The memory behind a user buffer may be
shared, so that others get to it between two accesses of the kernel: `others` is what
they do before each.  The bounds are compared in 64 bits.
-/

namespace BekOS

/-- What 64 bits hold of a number. -/
def u64 (n : ℕ) : ℕ := n % 0x10000000000000000

theorem u64_of_lt {n : ℕ} (h : n < 0x10000000000000000) : u64 n = n := Nat.mod_eq_of_lt h

theorem u64_lt (n : ℕ) : u64 n < 0x10000000000000000 := Nat.mod_lt n (by decide)

/-- `UserBuffer`, whose size is a 64-bit number. -/
structure UserBuffer where
  size : ℕ
  size_lt : size < 0x10000000000000000
  bytes : Memory Byte
  others : ℕ → Memory Byte → Memory Byte
  accesses : ℕ

namespace UserBuffer

/-- The buffer as the kernel gets to it. -/
def accessed (buffer : UserBuffer) : UserBuffer :=
  { buffer with
    bytes := buffer.others buffer.accesses buffer.bytes
    accesses := buffer.accesses + 1 }

/-- `read_to`: what it copies to is returned with the bytes in it. -/
def readTo (buffer : UserBuffer) (dst : Memory Byte) (dstOff length offset : ℕ) :
    UserBuffer × Except ErrorCode (Memory Byte) :=
  if u64 (length + offset) > buffer.size then (buffer, .error .EINVAL)
  else
    (buffer.accessed, .ok (copyRange dst dstOff buffer.accessed.bytes offset length))

/-- `write_from` -/
def writeFrom (buffer : UserBuffer) (src : Memory Byte) (srcOff length offset : ℕ) :
    UserBuffer × Except ErrorCode Unit :=
  if u64 (length + offset) > buffer.size then (buffer, .error .EINVAL)
  else
    ({ buffer.accessed with
      bytes := copyRange buffer.accessed.bytes offset src srcOff length }, .ok ())

/-- Nobody else writes to the buffer. -/
def Private (buffer : UserBuffer) : Prop := ∀ n bytes, buffer.others n bytes = bytes

@[simp] theorem accessed_size (buffer : UserBuffer) : buffer.accessed.size = buffer.size := rfl

theorem Private.accessed_bytes {buffer : UserBuffer} (h : buffer.Private) :
    buffer.accessed.bytes = buffer.bytes := h _ _

@[simp] theorem size_iterate_accessed (buffer : UserBuffer) (n : ℕ) :
    (accessed^[n] buffer).size = buffer.size := by
  induction n with
  | zero => rfl
  | succ n ih => rw [Function.iterate_succ_apply', accessed_size, ih]

theorem Private.iterate_accessed {buffer : UserBuffer} (h : buffer.Private) (n : ℕ) :
    (accessed^[n] buffer).Private ∧ (accessed^[n] buffer).bytes = buffer.bytes := by
  induction n with
  | zero => exact ⟨h, rfl⟩
  | succ n ih =>
      rw [Function.iterate_succ_apply']
      exact ⟨ih.1, ih.1.accessed_bytes.trans ih.2⟩

end UserBuffer

/-- `TransactionalBufferSubset` -/
structure BufferSubset where
  buffer : UserBuffer
  offset : ℕ
  length : ℕ

namespace BufferSubset

/-- The constructor. -/
def create (buffer : UserBuffer) (offset length : ℕ) : Except Halt BufferSubset :=
  if offset ≤ buffer.size ∧ u64 (offset + length) ≤ buffer.size then .ok ⟨buffer, offset, length⟩
  else .error (.fault .panic)

/-- `read_to` -/
def readTo (subset : BufferSubset) (dst : Memory Byte) (dstOff length offset : ℕ) :
    BufferSubset × Except ErrorCode (Memory Byte) :=
  let read := subset.buffer.readTo dst dstOff length (u64 (offset + subset.offset))
  ({ subset with buffer := read.1 }, read.2)

/-- `write_from` -/
def writeFrom (subset : BufferSubset) (src : Memory Byte) (srcOff length offset : ℕ) :
    BufferSubset × Except ErrorCode Unit :=
  let written := subset.buffer.writeFrom src srcOff length (u64 (offset + subset.offset))
  ({ subset with buffer := written.1 }, written.2)

end BufferSubset

end BekOS
