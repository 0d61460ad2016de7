import BekOS.Lib.LittleEndian
import BekOS.Library.VectorMemory
import Mathlib.Data.Nat.Bitwise

/-!
# `bek::string`

A string is a union of 16 bytes: a capacity, a length and a pointer, or a length and 15 characters.
The lowest bit of the first byte says which, so that the length of the short form and the capacity
of the long one are stored shifted.

The heap is memory with the buffers that have been allocated in it.  Only what lies in a buffer may
be read or written, and a buffer is freed by its pointer with a size between the one that was asked
for and the one that was granted.
-/

namespace BekOS.StringMemory

/-- What goes wrong in an operation of a string. -/
inductive StringFault where
  /-- A failed `VERIFY` or `ASSERT`. -/
  | panic
  /-- A place outside a buffer. -/
  | outside
  /-- A free of what is not allocated. -/
  | notAllocated
  /-- A free with a size that is not the buffer's. -/
  | wrongSize
  /-- A string where there is none. -/
  | noObject
  /-- A constructor over a string. -/
  | occupied
  deriving DecidableEq, Repr

/-- `VERIFY`, in an operation of a string. -/
def verify (condition : Prop) [Decidable condition] : Except StringFault Unit :=
  (BekOS.verify condition).mapError fun _ => .panic

theorem verify_of {condition : Prop} [Decidable condition] (h : condition) :
    verify condition = .ok () := by
  rw [verify, BekOS.verify_of h]
  rfl

theorem verify_of_not {condition : Prop} [Decidable condition] (h : ¬ condition) :
    verify condition = .error .panic := by
  rw [verify, BekOS.verify_of_not h]
  rfl

/-- `u32` -/
def u32 (n : ℕ) : ℕ := n % 2 ^ 32

/-! ## The heap -/

/-- `mem::AllocatedRegion` -/
structure AllocatedRegion where
  pointer : ℕ
  size : ℕ
  deriving DecidableEq, Repr

/-- A buffer, with the sizes that were asked for and granted. -/
structure Buffer where
  pointer : ℕ
  requested : ℕ
  granted : ℕ
  deriving DecidableEq, Repr

/-- The memory, the buffers in it, and all those that were ever allocated or freed with what
size. -/
structure StringHeap where
  memory : Memory Byte
  live : List Buffer := []
  allocated : List Buffer := []
  freed : List (Buffer × ℕ) := []

namespace StringHeap

/-- `mem::allocate`, which returned this region. -/
def allocate (heap : StringHeap) (size : ℕ) (region : AllocatedRegion) : StringHeap :=
  if region.pointer = 0 then heap
  else
    let buffer := ⟨region.pointer, size, region.size⟩
    { heap with live := buffer :: heap.live, allocated := buffer :: heap.allocated }

/-- `mem::free` -/
def free (heap : StringHeap) (pointer size : ℕ) : Except StringFault StringHeap :=
  if pointer = 0 then .ok heap
  else match heap.live.find? (·.pointer = pointer) with
    | none => .error .notAllocated
    | some buffer =>
        if buffer.requested ≤ size ∧ size ≤ buffer.granted then
          .ok { heap with live := heap.live.erase buffer, freed := (buffer, size) :: heap.freed }
        else .error .wrongSize

/-- So many bytes lie in a buffer. -/
def Inside (heap : StringHeap) (pointer count : ℕ) : Prop :=
  ∃ buffer ∈ heap.live, buffer.pointer ≤ pointer ∧ pointer + count ≤ buffer.pointer + buffer.granted
deriving Decidable

/-- Bytes are written to the heap. -/
def write (heap : StringHeap) (pointer : ℕ) (bytes : List Byte) : Except StringFault StringHeap :=
  if bytes = [] then .ok heap
  else if heap.Inside pointer bytes.length then
    .ok { heap with
      memory := copyRange heap.memory pointer (fun i => bytes.getD i 0) 0 bytes.length }
  else .error .outside

/-- Bytes are read from the heap. -/
def read (heap : StringHeap) (pointer count : ℕ) : Except StringFault (List Byte) :=
  if count = 0 then .ok []
  else if heap.Inside pointer count then .ok (slice heap.memory pointer count)
  else .error .outside

/-- `memcopy`, to the heap. -/
def memcopy (heap : StringHeap) (pointer : ℕ) (bytes : List Byte) :
    Except StringFault StringHeap := do
  verify (bytes.length ≤ maxMemcopy)
  heap.write pointer bytes

end StringHeap

/-! ## The union -/

/-- The bytes of a string object. -/
abbrev StringBytes := Memory Byte

namespace StringBytes

variable (bytes : StringBytes)

/-- `m_long{}` -/
def zero : StringBytes := fun _ => 0

def isLong : Bool := bytes 0 &&& 0x1 ≠ 0

/-- `set_short_length` -/
def setShortLength (len : ℕ) : Except StringFault StringBytes := do
  verify (len % 2 ^ 8 ≤ 14)
  return leWrite bytes 0 ((len % 2 ^ 8) <<< 1) 1

/-- `set_long_length` -/
def setLongLength (length : ℕ) : StringBytes := leWrite bytes 4 (u32 length) 4

/-- `set_long_capacity` -/
def setLongCapacity (capacity : ℕ) : Except StringFault StringBytes := do
  verify (u32 capacity < 2 ^ 31 - 1)
  return leWrite bytes 0 ((u32 capacity) <<< 1 ||| 0x1) 4

/-- `m_long.data = …` -/
def setLongData (pointer : ℕ) : StringBytes := leWrite bytes 8 pointer 8

/-- `get_long_capacity` -/
def getLongCapacity : ℕ := leRead bytes 0 4 >>> 1

/-- `get_short_length` -/
def getShortLength : ℕ := leRead bytes 0 1 >>> 1

/-- `m_long.length` -/
def longLength : ℕ := leRead bytes 4 4

/-- `m_long.data` -/
def longData : ℕ := leRead bytes 8 8

/-- `size` -/
def size : ℕ := if isLong bytes then longLength bytes else getShortLength bytes

/-- Characters are written to `m_short.in_data`. -/
def writeShort (i : ℕ) (chars : List Byte) : Except StringFault StringBytes :=
  if i + chars.length ≤ 15 then
    .ok (copyRange bytes (1 + i) (fun j => chars.getD j 0) 0 chars.length)
  else .error .outside

/-- The bytes from `data` on. -/
def dataBytes (memory : Memory Byte) (count : ℕ) : List Byte :=
  if isLong bytes then slice memory (longData bytes) count else slice bytes 1 count

end StringBytes

open StringBytes

/-! ## The constructors and the destructor -/

/-- `strlen`, of the memory from a character on. -/
def strlen : List Byte → Except StringFault ℕ
  | [] => .error .outside
  | c :: source => if c = 0 then .ok 0 else (strlen source).map (· + 1)

def shortMaxLength : ℕ := 14

variable (heap : StringHeap)

/-- `string(const char* source)` -/
def ofCString (region : AllocatedRegion) (source : List Byte) :
    Except StringFault (StringHeap × StringBytes) := do
  let len := u32 (← strlen source)
  if len > shortMaxLength then
    let heap := heap.allocate (u32 (len + 1)) region
    verify (region.pointer ≠ 0)
    let bytes ← setLongCapacity zero region.size
    let bytes := setLongLength bytes len
    let bytes := setLongData bytes region.pointer
    let heap ← heap.memcopy region.pointer (source.take (u32 (len + 1)))
    return (heap, bytes)
  else
    let bytes ← setShortLength zero len
    let bytes ← writeShort bytes 0 (source.take (u32 (len + 1)))
    return (heap, bytes)

/-- `string(bek::str_view str)` -/
def ofView (region : AllocatedRegion) (str : List Byte) :
    Except StringFault (StringHeap × StringBytes) := do
  let len := str.length
  if len > shortMaxLength then
    let bytes ← setLongCapacity zero (len + 1)
    let bytes := setLongLength bytes len
    let heap := heap.allocate (len + 1) region
    let bytes := setLongData bytes region.pointer
    let heap ← heap.memcopy region.pointer str
    let heap ← heap.write (region.pointer + len) [0]
    return (heap, bytes)
  else
    let bytes ← setShortLength zero len
    let bytes ← writeShort bytes 0 str
    let bytes ← writeShort bytes len [0]
    return (heap, bytes)

/-- `string(u32 length, char init)` -/
def ofRepeated (region : AllocatedRegion) (length : ℕ) (init : Byte) :
    Except StringFault (StringHeap × StringBytes) := do
  if length > shortMaxLength then
    let heap := heap.allocate (u32 (length + 1)) region
    verify (region.pointer ≠ 0)
    let bytes ← setLongCapacity zero region.size
    let bytes := setLongLength bytes length
    let bytes := setLongData bytes region.pointer
    let heap ← heap.write region.pointer (List.replicate length init)
    let heap ← heap.write (region.pointer + length) [0]
    return (heap, bytes)
  else
    let bytes ← setShortLength zero length
    let bytes ← writeShort bytes 0 (List.replicate length init)
    let bytes ← writeShort bytes length [0]
    return (heap, bytes)

/-- `string(const string& s)` -/
def ofCopy (region : AllocatedRegion) (s : StringBytes) :
    Except StringFault (StringHeap × StringBytes) := do
  if isLong s then
    let bytes := leWrite zero 0 (leRead s 0 4) 4
    let bytes := leWrite bytes 4 (longLength s) 4
    let heap := heap.allocate (getLongCapacity bytes) region
    let bytes := setLongData bytes region.pointer
    let source ← heap.read (longData s) (u32 (longLength bytes + 1))
    let heap ← heap.memcopy region.pointer source
    return (heap, bytes)
  else return (heap, s)

/-- `~string` -/
def destroy (bytes : StringBytes) : Except StringFault StringHeap :=
  if isLong bytes then heap.free (longData bytes) (getLongCapacity bytes) else .ok heap

end BekOS.StringMemory
