import BekOS.Lib.LittleEndian
import BekOS.Library.KernelError

/-!
# Listing a directory

`sys_get_directory_entries` puts as many children of a directory into a buffer as go in, each
behind a `FileListItem` that says how far it is to the next one; `DirectoryStream` follows these
and asks for more when it leaves the buffer.  An offset of zero is the end of the directory.
-/

namespace BekOS

/-- `FileKind` -/
inductive FileKind
  | File
  | Directory
  deriving DecidableEq, Repr

/-- The byte that stands for it. -/
def FileKind.toByte : FileKind → Byte
  | .File => 0
  | .Directory => 1

/-- A child of a directory. -/
structure Child where
  name : List Byte
  size : BitVec 64
  isDirectory : Bool
  deriving DecidableEq, Repr

/-- The kind that is told of a child. -/
def Child.kind (child : Child) : FileKind := if child.isDirectory then .Directory else .File

/-! ## `FileListItem` -/

namespace FileListItem

/-- `sizeof(FileListItem)` -/
def size : ℕ := 24

/-- `offset_of_name` -/
def offsetOfName : ℕ := 17

/-- `whole_size` -/
def wholeSize (nameLen : ℕ) : ℕ := size - 7 + nameLen + 1

/-- `whole_size` of a child's item, made a multiple of `alignof(FileListItem)`. -/
def alignedSize (nameLen : ℕ) : ℕ := (wholeSize nameLen + 7) / 8 * 8

/-- A `FileListItem` at an offset, with an empty name. -/
def put (bytes : Memory Byte) (at_ nextOffset : ℕ) (size : BitVec 64) (kind : FileKind) :
    Memory Byte :=
  let bytes := leWrite bytes at_ nextOffset 8
  let bytes := leWrite bytes (at_ + 8) size.toNat 8
  let bytes := Function.update bytes (at_ + 16) kind.toByte
  copyRange bytes (at_ + offsetOfName) (fun _ => 0) 0 7

/-- The name, copied behind the item. -/
def putName (bytes : Memory Byte) (at_ : ℕ) (name : List Byte) : Memory Byte :=
  copyRange bytes (at_ + offsetOfName) (fun i => name.getD i 0) 0 name.length

end FileListItem

open FileListItem

/-! ## `sys_get_directory_entries` -/

/-- The offset of the next item. -/
def offsetToNext (bufferSize current : ℕ) (child : Child) : List Child → ℕ
  | [] => 0
  | next :: _ =>
      if current + alignedSize child.name.length + wholeSize next.name.length > bufferSize then
        bufferSize - current
      else alignedSize child.name.length

/-- The loop of `sys_get_directory_entries`, from the child `offset` on. -/
def fillEntries (bufferSize : ℕ) :
    List Child → ℕ → ℕ → Memory Byte → Memory Byte × Except ErrorCode ℕ
  | [], offset, _, bytes => (bytes, .ok offset)
  | child :: rest, offset, current, bytes =>
      if current + wholeSize child.name.length > bufferSize then (bytes, .ok offset)
      -- `write_object` writes a whole `FileListItem`.
      else if current + FileListItem.size > bufferSize then (bytes, .error .EINVAL)
      else
        let next := offsetToNext bufferSize current child rest
        fillEntries bufferSize rest (offset + 1) (current + next)
          (putName (put bytes current next child.size child.kind) current child.name)

/-- `sys_get_directory_entries`; the buffer is cleared first. -/
def getDirectoryEntries (children : List Child) (bufferSize offset : ℕ) (bytes : Memory Byte) :
    Memory Byte × Except ErrorCode ℕ :=
  fillEntries bufferSize (children.drop offset) offset 0
    (fun i => if i < bufferSize then 0 else bytes i)

/-! ## `DirectoryStream` -/

/-- `strlen`, with a maximum. -/
def strlen (bytes : Memory Byte) (at_ : ℕ) : ℕ → ℕ
  | 0 => 0
  | maxLen + 1 => if bytes at_ = 0 then 0 else strlen bytes (at_ + 1) maxLen + 1

/-- `DirectoryEntry` -/
structure DirectoryEntry where
  name : List Byte
  kind : Byte
  size : BitVec 64
  deriving DecidableEq, Repr

/-- `next_offset` of the item at an offset. -/
def nextOffset (bytes : Memory Byte) (at_ : ℕ) : ℕ := leRead bytes at_ 8

/-- How far `name_view` looks. -/
def nameLimit (nextOffset : ℕ) : ℕ :=
  if nextOffset ≠ 0 then nextOffset - offsetOfName else 1024

/-- The constructor of `DirectoryEntry`, from the item at an offset. -/
def readEntry (bytes : Memory Byte) (at_ : ℕ) : DirectoryEntry where
  name := slice bytes (at_ + offsetOfName)
    (strlen bytes (at_ + offsetOfName) (nameLimit (nextOffset bytes at_)))
  kind := bytes (at_ + 16)
  size := BitVec.ofNat 64 (leRead bytes (at_ + 8) 8)

/-- `DirectoryStream` -/
structure DirectoryStream where
  buffer : Memory Byte
  bufferSize : ℕ
  offsetInBuffer : ℕ
  nextOsOffset : ℕ
  error : ErrorCode

namespace DirectoryStream

/-- `m_buffer.get_at<FileListItem>`; where the item is decides what is in it. -/
def getAt (stream : DirectoryStream) (at_ : ℕ) : Except Halt ℕ :=
  if at_ + FileListItem.size ≤ stream.bufferSize then .ok at_ else .error (.fault .panic)

/-- `create`, with a buffer of that size. -/
def create (children : List Child) (bufferSize : ℕ) (bytes : Memory Byte) :
    Except ErrorCode DirectoryStream :=
  match getDirectoryEntries children bufferSize 0 bytes with
  | (_, .error code) => .error code
  | (buffer, .ok newOffset) =>
      .ok
        { buffer
          bufferSize
          offsetInBuffer := 0
          nextOsOffset := newOffset
          error := .ESUCCESS }

/-- `advance`, of a stream over a directory with these children. -/
def advance (children : List Child) (stream : DirectoryStream) :
    Except Halt (DirectoryStream × Option DirectoryEntry) := do
  let item ← stream.getAt stream.offsetInBuffer
  let next := nextOffset stream.buffer item
  if next = 0 then return (stream, none)
  else if stream.offsetInBuffer + next ≥ stream.bufferSize then
    match getDirectoryEntries children stream.bufferSize stream.nextOsOffset stream.buffer with
    | (buffer, .ok offset) =>
        let stream := { stream with buffer, nextOsOffset := offset, offsetInBuffer := 0 }
        let item ← stream.getAt 0
        return (stream, some (readEntry buffer item))
    | (buffer, .error code) => return ({ stream with buffer, error := code }, none)
  else
    let stream := { stream with offsetInBuffer := stream.offsetInBuffer + next }
    let item ← stream.getAt stream.offsetInBuffer
    return (stream, some (readEntry stream.buffer item))

/-- `begin` -/
def first (stream : DirectoryStream) : Except Halt DirectoryEntry := do
  orHalt (verify (stream.offsetInBuffer = 0))
  let item ← stream.getAt 0
  return readEntry stream.buffer item

/-- The loop over the entries of a stream: the entry of the iterator, and those after it. -/
def entriesFrom (children : List Child) :
    ℕ → DirectoryStream → DirectoryEntry → Except Halt (List DirectoryEntry × ErrorCode)
  | 0, _, _ => .error .spin
  | fuel + 1, stream, entry => do
      let advanced ← stream.advance children
      match advanced.2 with
      | none => return ([entry], advanced.1.error)
      | some next =>
          let later ← entriesFrom children fuel advanced.1 next
          return (entry :: later.1, later.2)

/-- A program that lists a directory: what it gets, and how the stream ends. -/
def listDirectory (children : List Child) (bufferSize : ℕ) (bytes : Memory Byte) :
    Except Halt (Except ErrorCode (List DirectoryEntry × ErrorCode)) :=
  match create children bufferSize bytes with
  | .error code => .ok (.error code)
  | .ok stream => do
      let entry ← stream.first
      let all ← entriesFrom children (children.length + 1) stream entry
      return .ok all

end DirectoryStream

end BekOS
