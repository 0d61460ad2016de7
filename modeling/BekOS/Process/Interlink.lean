import BekOS.Lib.LittleEndian
import BekOS.Library.RingBuffer
import BekOS.Mm.SpaceManager
import BekOS.Process.InterlinkRecords

/-!
# Interlink messages

`Connection::write_to_queue` and `Connection::read_from_queue`.  The data of a message
goes through a byte ring, and a record of each of its items through a vector; where one
message ends is told by the records alone.

The sender's buffer is read twice, once to check the items and once to queue them.
-/

namespace BekOS

/-! ## The layout of a message -/

/-- `MessageHeader` -/
structure MessageHeader where
  totalSize : ℕ
  payloadItemCount : ℕ
  messageId : ℕ
  deriving DecidableEq

/-- `MessageHeader::PayloadItem`, by its kind. -/
inductive PayloadItem where
  | data (offset len : ℕ)
  | fd (fd : ℤ)
  | memory (ptr size : U64) (canRead canWrite : Bool)
  | unknown (kind : ℕ)
  deriving DecidableEq

/-- `sizeof(MessageHeader)` -/
def headerSize : ℕ := 16

/-- `sizeof(MessageHeader::PayloadItem)` -/
def payloadItemSize : ℕ := 32

/-- Where payload item `i` is. -/
def payloadItemOffset (i : ℕ) : ℕ := headerSize + i * payloadItemSize

/-- The header in the first bytes of a memory. -/
def MessageHeader.ofMemory (bytes : Memory Byte) : MessageHeader where
  totalSize := leRead bytes 0 8
  payloadItemCount := leRead bytes 8 4
  messageId := leRead bytes 12 4

/-- The bytes of a header. -/
def MessageHeader.toMemory (header : MessageHeader) : Memory Byte :=
  leWrite (leWrite (leWrite (fun _ => 0) 0 header.totalSize 8) 8 header.payloadItemCount 4) 12
    header.messageId 4

/-- The item in the first bytes of a memory. -/
def PayloadItem.ofMemory (bytes : Memory Byte) : PayloadItem :=
  match leRead bytes 0 4 with
  | 0 => .data (leRead bytes 8 8) (leRead bytes 16 8)
  | 1 => .fd (BitVec.ofNat 64 (leRead bytes 8 8)).toInt
  | 2 =>
      .memory (BitVec.ofNat 64 (leRead bytes 8 8)) (BitVec.ofNat 64 (leRead bytes 16 8))
        (bytes 24 ≠ 0) (bytes 25 ≠ 0)
  | kind => .unknown kind

/-- The bytes of an item; those that its kind has no use for are left zero. -/
def PayloadItem.toMemory : PayloadItem → Memory Byte
  | .data offset len => leWrite (leWrite (fun _ => 0) 8 offset 8) 16 len 8
  | .fd entity => leWrite (leWrite (fun _ => 0) 0 1 4) 8 (BitVec.ofInt 64 entity).toNat 8
  | .memory ptr size canRead canWrite =>
      leWrite (leWrite (leWrite (leWrite (leWrite (fun _ => 0) 0 2 4) 8 ptr.toNat 8) 16
        size.toNat 8) 24 canRead.toNat 1) 25 canWrite.toNat 1
  | .unknown kind => leWrite (fun _ => 0) 0 kind 4

namespace UserBuffer

/-- `read_object<MessageHeader>` -/
def readHeader (buffer : UserBuffer) : UserBuffer × Except ErrorCode MessageHeader :=
  let read := buffer.readTo (fun _ => 0) 0 headerSize 0
  (read.1, read.2.map MessageHeader.ofMemory)

/-- `read_object<MessageHeader::PayloadItem>`, of item `i`. -/
def readItem (buffer : UserBuffer) (i : ℕ) : UserBuffer × Except ErrorCode PayloadItem :=
  let read := buffer.readTo (fun _ => 0) 0 payloadItemSize (payloadItemOffset i)
  (read.1, read.2.map PayloadItem.ofMemory)

/-- `write_object`, of a header. -/
def writeHeader (buffer : UserBuffer) (header : MessageHeader) :
    UserBuffer × Except ErrorCode Unit :=
  buffer.writeFrom header.toMemory 0 headerSize 0

/-- `write_object`, of item `i`. -/
def writeItem (buffer : UserBuffer) (i : ℕ) (item : PayloadItem) :
    UserBuffer × Except ErrorCode Unit :=
  buffer.writeFrom item.toMemory 0 payloadItemSize (payloadItemOffset i)

end UserBuffer

/-! ## The processes -/

/-- `LocalEntityHandle` -/
structure LocalEntityHandle where
  handle : Option ℕ
  group : ℕ
  deriving DecidableEq

/-- `UserspaceState`: the handles and the address space of a process. -/
structure UserspaceState (σ : Type) where
  openEntities : List LocalEntityHandle
  addressSpaceManager : SpaceManager σ

/-- `get_open_entity` -/
def getOpenEntity (openEntities : List LocalEntityHandle) (entityId : ℤ) :
    Except ErrorCode ℕ :=
  if entityId < 0 then .error .EBADF
  else
    match openEntities[entityId.toNat]? with
    | some ⟨some handle, _⟩ => .ok handle
    | some ⟨none, _⟩ | none => .error .EBADF

/-- `allocate_entity_handle_slot` -/
def allocateEntityHandleSlot {σ : Type} (process : UserspaceState σ) (handle group : ℕ) :
    UserspaceState σ × ℕ :=
  ({ process with openEntities := process.openEntities ++ [⟨some handle, group⟩] },
    process.openEntities.length)

/-- One direction of a `Connection`: its ring and its queue of records. -/
structure MessageQueue where
  binaryQueue : RingBuffer
  messageQueue : MessageVector

/-- `INTERLINK_DEFAULT_RINGBUFFER_SIZE` -/
def interlinkDefaultRingbufferSize : ℕ := 1024

/-- A direction of a new connection. -/
def MessageQueue.new : MessageQueue where
  binaryQueue := .new interlinkDefaultRingbufferSize
  messageQueue := .empty

/-! ## `write_to_queue` -/

/-- The loop that checks the items, and adds up how much data they are. -/
def checkItems : ℕ → ℕ → ℕ → UserBuffer → UserBuffer × Except ErrorCode ℕ
  | 0, _, totalDataSize, buffer => (buffer, .ok totalDataSize)
  | remaining + 1, i, totalDataSize, buffer =>
      let read := buffer.readItem i
      match read.2 with
      | .error code => (read.1, .error code)
      | .ok (.data offset len) =>
          if offset ≥ buffer.size ∨ u64 (len + offset) > buffer.size then
            (read.1, .error .EINVAL)
          else checkItems remaining (i + 1) (u64 (totalDataSize + len)) read.1
      | .ok _ => checkItems remaining (i + 1) totalDataSize read.1

/-- What `write_to_queue` changes. -/
structure Sending where
  buffer : UserBuffer
  queue : MessageQueue

/-- Queue a record. -/
def Sending.push (sending : Sending) (message : QueuedMessage) :
    Except Halt (Sending × Except ErrorCode Unit) :=
  (sending.queue.messageQueue.pushBack message).map fun messages =>
    ({ sending with queue := { sending.queue with messageQueue := messages } }, .ok ())

/-- Queue data: write it to the ring, and a record of it. -/
def enqueueData (blocking isFinal : Bool) (messageId : ℕ) (sending : Sending)
    (offset len : ℕ) : Except Halt (Sending × Except ErrorCode Unit) := do
  let toWrite ← BufferSubset.create sending.buffer offset len
  let written ← sending.queue.binaryQueue.writeTo toWrite
  let sending : Sending :=
    { buffer := written.1.2.buffer, queue := { sending.queue with binaryQueue := written.1.1 } }
  match written.2 with
  | .error code =>
      -- To try again is to wait for a reader of the ring.
      if code = .EAGAIN ∧ blocking then .error .spin else return (sending, .error code)
  | .ok size => sending.push ⟨.data size, isFinal, messageId⟩

/-- The permissions that a memory item passes on. -/
def allowedOps (canRead canWrite : Bool) : MemoryOperation :=
  (if canRead then .read else .none) ||| (if canWrite then .write else .none)

/-- The memory that an item names, as its sender may pass it on. -/
def shareableMemory (regions : List UserspaceRegion) (ptr size : U64)
    (ops : MemoryOperation) : Except ErrorCode BackingRegion :=
  if checkRegion regions ptr size ops then getShareableRegion regions ⟨ptr, size⟩
  else .error .EPERM

section Send

variable {σ : Type} (sender : UserspaceState σ) (blocking : Bool)

/-- Queue an item. -/
def enqueueItem (isFinal : Bool) (messageId : ℕ) (sending : Sending) :
    PayloadItem → Except Halt (Sending × Except ErrorCode Unit)
  | .data offset len => enqueueData blocking isFinal messageId sending offset len
  | .fd fd =>
      match getOpenEntity sender.openEntities fd with
      | .error code => .ok (sending, .error code)
      | .ok entity => sending.push ⟨.entity entity, isFinal, messageId⟩
  | .memory ptr size canRead canWrite =>
      let ops := allowedOps canRead canWrite
      match shareableMemory sender.addressSpaceManager.regions ptr size ops with
      | .error code => .ok (sending, .error code)
      | .ok region => sending.push ⟨.memory region ops, isFinal, messageId⟩
  | .unknown _ => .ok (sending, .ok ())

/-- The loop that queues the items. -/
def enqueueItems (count messageId : ℕ) :
    ℕ → ℕ → Sending → Except Halt (Sending × Except ErrorCode Unit)
  | 0, _, sending => .ok (sending, .ok ())
  | remaining + 1, i, sending =>
      let read := sending.buffer.readItem i
      expectedTry ({ sending with buffer := read.1 }, read.2) fun sending item => do
        let queued ← enqueueItem sender blocking (i + 1 == count) messageId sending item
        expectedTry queued fun sending _ => enqueueItems count messageId remaining (i + 1) sending

/-- `write_to_queue` -/
def writeToQueue (sending : Sending) : Except Halt (Sending × Except ErrorCode ℕ) :=
  let read := sending.buffer.readHeader
  expectedTry ({ sending with buffer := read.1 }, read.2) fun sending header =>
    if header.totalSize > sending.buffer.size then .ok (sending, .error .EINVAL)
    else if header.payloadItemCount * payloadItemSize > sending.buffer.size then
      .ok (sending, .error .EINVAL)
    else
      let checked := checkItems header.payloadItemCount 0 0 sending.buffer
      expectedTry ({ sending with buffer := checked.1 }, checked.2) fun sending totalDataSize =>
        if sending.queue.binaryQueue.capacity < totalDataSize then
          .ok (sending, .error .EOVERFLOW)
        else if sending.queue.binaryQueue.freeBytes < totalDataSize ∧ blocking = false then
          .ok (sending, .error .EAGAIN)
        else do
          let queued ← enqueueItems sender blocking header.payloadItemCount header.messageId
            header.payloadItemCount 0 sending
          expectedTry queued fun sending _ => .ok (sending, .ok totalDataSize)

end Send

/-! ## `read_from_queue` -/

/-- The next message, as the loop over the queue finds it: how many items it has, how
much data, and its number. -/
structure NextMessage where
  payloadItems : ℕ
  totalDataSize : ℕ
  messageId : ℕ

/-- The loop that looks for the end of the next message. -/
def scanQueue : List QueuedMessage → NextMessage → NextMessage
  | [], found => found
  | item :: rest, found =>
      let found : NextMessage :=
        { payloadItems := (found.payloadItems + 1) % 0x100000000
          totalDataSize := u64 (found.totalDataSize + item.dataSize)
          messageId := item.messageId }
      if item.isFinal then found else scanQueue rest found

/-- The next message. -/
def nextMessage (items : List QueuedMessage) : NextMessage := scanQueue items ⟨0, 0, 0⟩

/-- What `read_from_queue` changes. -/
structure Receiving (σ : Type) where
  buffer : UserBuffer
  queue : MessageQueue
  receiver : UserspaceState σ
  currentDataOffset : ℕ

section Receive

variable {σ : Type} (source : TableSource σ)

/-- Deliver data: read it from the ring, whether it is all there or not. -/
def deliverData (receiving : Receiving σ) (i dataSize : ℕ) :
    Except Halt (Receiving σ × Except ErrorCode Unit) := do
  let target ← BufferSubset.create receiving.buffer receiving.currentDataOffset dataSize
  let read ← receiving.queue.binaryQueue.readTo target
  let written := read.1.2.buffer.writeItem i (.data receiving.currentDataOffset dataSize)
  expectedTry
    ({ receiving with
      buffer := written.1
      queue := { receiving.queue with binaryQueue := read.1.1 } }, written.2)
    fun receiving _ =>
      .ok ({ receiving with
        currentDataOffset := u64 (receiving.currentDataOffset + dataSize) }, .ok ())

/-- Deliver an entity. -/
def deliverEntity (receiving : Receiving σ) (i entityHandle : ℕ) :
    Receiving σ × Except ErrorCode Unit :=
  let allocated := allocateEntityHandleSlot receiving.receiver entityHandle 0
  let written := receiving.buffer.writeItem i (.fd allocated.2)
  ({ receiving with buffer := written.1, receiver := allocated.1 }, written.2)

/-- Place passed memory in the address space of the receiver. -/
def placeMemory (receiver : UserspaceState σ) (region : BackingRegion)
    (permissions : MemoryOperation) :
    Except Halt (UserspaceState σ × Except ErrorCode UserRegion) :=
  (orHalt (placeRegion source receiver.addressSpaceManager none permissions "interlinked"
      region)).map fun placed =>
    ({ receiver with addressSpaceManager := placed.1 }, placed.2)

/-- Deliver memory. -/
def deliverMemory (receiving : Receiving σ) (i : ℕ) (region : BackingRegion)
    (permissions : MemoryOperation) : Except Halt (Receiving σ × Except ErrorCode Unit) := do
  let placed ← placeMemory source receiving.receiver region permissions
  expectedTry ({ receiving with receiver := placed.1 }, placed.2) fun receiving newRegion =>
    .ok <|
      let written := receiving.buffer.writeItem i
        (.memory newRegion.start newRegion.size (permissions &&& .read ≠ .none)
          (permissions &&& .write ≠ .none))
      ({ receiving with buffer := written.1 }, written.2)

/-- Deliver what a record carries. -/
def deliverItem (receiving : Receiving σ) (i : ℕ) (item : QueuedMessage) :
    Except Halt (Receiving σ × Except ErrorCode Unit) :=
  match item.content with
  | .data dataSize => deliverData receiving i dataSize
  | .entity entityHandle => .ok (deliverEntity receiving i entityHandle)
  | .memory region permissions => deliverMemory source receiving i region permissions

/-- The loop that delivers the items.  The record of an item is destroyed at the end of
its round, also where that returns. -/
def deliverItems : ℕ → ℕ → Receiving σ → Except Halt (Receiving σ × Except ErrorCode Unit)
  | 0, _, receiving => .ok (receiving, .ok ())
  | remaining + 1, i, receiving => do
      let (item, messages) ← receiving.queue.messageQueue.pop 0
      let delivered ← deliverItem source
        { receiving with queue := { receiving.queue with messageQueue := messages } } i item
      item.destroy
      expectedTry delivered fun receiving _ => deliverItems remaining (i + 1) receiving

/-- `read_from_queue` -/
def readFromQueue (blocking : Bool) (buffer : UserBuffer) (queue : MessageQueue)
    (receiver : UserspaceState σ) : Except Halt (Receiving σ × Except ErrorCode ℕ) :=
  if queue.messageQueue.items = [] then
    if blocking then .error .spin else .ok (⟨buffer, queue, receiver, 0⟩, .error .EAGAIN)
  else
    let next := nextMessage queue.messageQueue.items
    let requiredSize :=
      u64 (headerSize + next.payloadItems * payloadItemSize + next.totalDataSize)
    if buffer.size < requiredSize then .ok (⟨buffer, queue, receiver, 0⟩, .error .EOVERFLOW)
    else
      let written := buffer.writeHeader
        { totalSize := requiredSize
          payloadItemCount := next.payloadItems
          messageId := next.messageId }
      expectedTry
        (⟨written.1, queue, receiver, payloadItemOffset next.payloadItems⟩, written.2)
        fun receiving _ => do
          let delivered ← deliverItems source next.payloadItems 0 receiving
          expectedTry delivered fun receiving _ =>
            .ok (receiving, .ok receiving.currentDataOffset)

end Receive

end BekOS
