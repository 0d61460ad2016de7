import BekOS.Library.Hashtable
import BekOS.Lib.IndexPath
import BekOS.Mm.PageAllocator

/-!
# The split virtqueue

`SplitVQ` and `MMIOTransport::queue_transfer` of `peripherals/virtio.cpp`.  A
descriptor's `next` field serves two lists: the chain of a request, followed
while the `NEXT` flag is set, and the free list, followed up to an index that is
no descriptor.  Handling a used entry joins the first onto the second.

`RunState` puts the queue together with the device's side: the requests in
flight, the used entries the device has published, and what the driver has made
of them.  Only the device writes the used ring.  Its 16-bit index and the
driver's 32-bit counter are kept apart, each with its own width.
-/

namespace BekOS

open IndexPath Function

universe u

abbrev U16 := BitVec 16

/-- One descriptor. -/
structure SplitVQDescriptor where
  address : U64
  length : ℕ
  flags : U16
  next : U16

namespace SplitVQDescriptor

/-- `Flags::NEXT` -/
def flagNEXT : U16 := 1

/-- `Flags::WRITE` -/
def flagWRITE : U16 := 2

/-- The test of the `NEXT` flag. -/
def hasNext (desc : SplitVQDescriptor) : Bool := desc.flags &&& flagNEXT != 0

end SplitVQDescriptor

/-- An entry of the used ring. -/
structure SplitVQUsedEntry where
  id : ℕ
  length : ℕ
  deriving DecidableEq

/-- `TransferElement::Direction` -/
inductive Direction where
  | OUT
  | IN
  deriving DecidableEq

/-- A buffer to transfer: where the device sees it, how long it is, and which way
it goes. -/
structure TransferElement where
  address : U64
  size : ℕ
  direction : Direction

/-- The queue.  An empty `Callback` is `none`. -/
structure SplitVQ (Callback : Type u) where
  num : ℕ
  descriptors : ℕ → SplitVQDescriptor
  availableIdx : ℕ
  availableEntries : ℕ → ℕ
  usedIdx : ℕ
  usedEntries : ℕ → SplitVQUsedEntry
  callbacks : Hashtable ℕ (Option Callback)
  nextFreeDesc : ℕ
  freeDescriptors : ℕ
  lastSeenUsedIdx : ℕ

/-- A used entry handled, with the callback invoked for it, if any. -/
structure Completion (Callback : Type u) where
  id : ℕ
  length : ℕ
  callback : Option Callback
  deriving DecidableEq

/-- How `queue_transfer` ends: `true`, `false` because the transfer cannot be
taken, `false` on the branch marked unreachable. -/
inductive TransferReply where
  | queued
  | rejected
  | unallocated
  deriving DecidableEq

namespace SplitVQ

variable {Callback : Type u}

/-! ## The functions -/

/-- The constructor, over whatever the rings' memory holds.  It does not clear the
used ring, whose index the device counts from 0. -/
def new (queueNum : ℕ) (memory : ℕ → SplitVQDescriptor) (available : ℕ → ℕ)
    (used : ℕ → SplitVQUsedEntry) : SplitVQ Callback where
  num := queueNum
  descriptors := fun i => { memory i with next := BitVec.ofNat 16 (i + 1) }
  availableIdx := 0
  availableEntries := available
  usedIdx := 0
  usedEntries := used
  callbacks := Hashtable.new 4
  nextFreeDesc := 0
  freeDescriptors := queueNum
  lastSeenUsedIdx := 0

/-- The queue with one descriptor changed. -/
def setDescriptor (vq : SplitVQ Callback) (i : ℕ) (desc : SplitVQDescriptor) :
    SplitVQ Callback :=
  { vq with descriptors := update vq.descriptors i desc }

/-- `allocate_descriptor` -/
def allocateDescriptor (vq : SplitVQ Callback) : Option (SplitVQ Callback × ℕ) :=
  if vq.nextFreeDesc < vq.num then
    let idx := vq.nextFreeDesc
    let desc := vq.descriptors idx
    let vq := vq.setDescriptor idx { desc with next := BitVec.ofNat 16 vq.num }
    some ({ vq with
      freeDescriptors := (vq.freeDescriptors + (2 ^ 32 - 1)) % 2 ^ 32
      nextFreeDesc := desc.next.toNat }, idx)
  else none

/-- `place_available` -/
def placeAvailable (vq : SplitVQ Callback) (index : ℕ) : SplitVQ Callback :=
  { vq with
    availableEntries := update vq.availableEntries (vq.availableIdx % vq.num) index
    availableIdx := (vq.availableIdx + 1) % 2 ^ 16 }

/-- Link the last descriptor of the request on to the new one. -/
def linkDescriptor (vq : SplitVQ Callback) (lastDesc idx : ℕ) : SplitVQ Callback :=
  vq.setDescriptor lastDesc { vq.descriptors lastDesc with
    next := BitVec.ofNat 16 idx
    flags := (vq.descriptors lastDesc).flags ||| SplitVQDescriptor.flagNEXT }

/-- Describe the element in its descriptor. -/
def fillDescriptor (vq : SplitVQ Callback) (idx : ℕ) (element : TransferElement) :
    SplitVQ Callback :=
  vq.setDescriptor idx { vq.descriptors idx with
    address := element.address
    length := element.size % 2 ^ 32
    flags := if element.direction = .OUT then 0 else SplitVQDescriptor.flagWRITE }

/-- The loop of `queue_transfer`, returning the index the request starts at. -/
def placeElements (vq : SplitVQ Callback) :
    List TransferElement → Option ℕ → ℕ → SplitVQ Callback × Option ℕ
  | [], _, startIdx => (vq, some startIdx)
  | element :: rest, lastDesc, startIdx =>
      match vq.allocateDescriptor with
      | none => (vq, none)
      | some (vq, idx) =>
          match lastDesc with
          | some last =>
              placeElements ((vq.linkDescriptor last idx).fillDescriptor idx element) rest
                (some idx) startIdx
          | none => placeElements (vq.fillDescriptor idx element) rest (some idx) (idx % 2 ^ 16)

section Callbacks

variable (hash : ℕ → ℕ)

/-- `queue_transfer`, with what the transport says of the queue: it is registered
and ready, or not.  `none` when a `VERIFY` fails. -/
def queueTransfer (vq : SplitVQ Callback) (ready : Bool) (elements : List TransferElement)
    (cb : Option Callback) : Option (SplitVQ Callback × TransferReply) :=
  if elements = [] then none
  else if ready = false then some (vq, .rejected)
  else if vq.freeDescriptors < elements.length then some (vq, .rejected)
  else
    match vq.placeElements elements none 0 with
    | (vq, none) => some (vq, .unallocated)
    | (vq, some startIdx) =>
        (vq.callbacks.insert hash (startIdx, cb)).bind fun res =>
          if res.2.2 then
            some ({ vq with callbacks := res.1 }.placeAvailable startIdx, .queued)
          else none

/-- The inner loop of `process_used`: the last descriptor of the chain and how
many it has.  `none` when an index is out of range, or when the chain is longer
than the queue, and so has no end. -/
def chainEnd (vq : SplitVQ Callback) : ℕ → ℕ → ℕ → Option (ℕ × ℕ)
  | 0, _, _ => none
  | fuel + 1, descIdx, descriptorsToFree =>
      if descIdx < vq.num then
        if (vq.descriptors descIdx).hasNext then
          chainEnd vq fuel (vq.descriptors descIdx).next.toNat (descriptorsToFree + 1)
        else some (descIdx, descriptorsToFree)
      else none

/-- The entry the loop of `process_used` turns to. -/
def usedEntry (vq : SplitVQ Callback) : SplitVQUsedEntry :=
  vq.usedEntries (vq.lastSeenUsedIdx % vq.num)

/-- The body of the loop of `process_used`. -/
def processEntry (vq : SplitVQ Callback) : Option (SplitVQ Callback × Completion Callback) :=
  let entry := vq.usedEntry
  (vq.callbacks.extract hash (entry.id % 2 ^ 16)).bind fun res =>
    (vq.chainEnd vq.num entry.id 1).map fun chain =>
      let vq := vq.setDescriptor chain.1
        { vq.descriptors chain.1 with next := BitVec.ofNat 16 vq.nextFreeDesc }
      ({ vq with
          callbacks := res.1
          nextFreeDesc := entry.id
          freeDescriptors := (vq.freeDescriptors + chain.2) % 2 ^ 32
          lastSeenUsedIdx := (vq.lastSeenUsedIdx + 1) % 2 ^ 32 },
        ⟨entry.id, entry.length, res.2.join⟩)

/-- `process_used`, with the entries it has handled; `none` when it does not end
within the fuel. -/
def processUsed (vq : SplitVQ Callback) :
    ℕ → Option (SplitVQ Callback × List (Completion Callback))
  | 0 => none
  | fuel + 1 =>
      if vq.lastSeenUsedIdx ≠ vq.usedIdx then
        (processEntry hash vq).bind fun done =>
          (processUsed done.1 fuel).map fun rest => (rest.1, done.2 :: rest.2)
      else some (vq, [])

end Callbacks

/-! ## The two lists -/

/-- The descriptor after `i` on the free list. -/
def freeNext (vq : SplitVQ Callback) (i : ℕ) : Option ℕ :=
  if (vq.descriptors i).next.toNat < vq.num then some (vq.descriptors i).next.toNat else none

/-- Where the free list starts. -/
def freeStart (vq : SplitVQ Callback) : Option ℕ :=
  if vq.nextFreeDesc < vq.num then some vq.nextFreeDesc else none

/-- The free chain; it is too long to be one where it has no end. -/
def freeChain (vq : SplitVQ Callback) : List ℕ :=
  follow vq.freeNext (vq.num + 1) vq.freeStart

/-- The descriptor after `i` in a request. -/
def requestNext (vq : SplitVQ Callback) (i : ℕ) : Option ℕ :=
  if (vq.descriptors i).hasNext then some (vq.descriptors i).next.toNat else none

/-- The chain of the request that starts at `head`. -/
def requestChain (vq : SplitVQ Callback) (head : ℕ) : List ℕ :=
  follow vq.requestNext (vq.num + 1) (some head)

/-! ## Runs -/

/-- A request the driver has queued and not seen completed. -/
structure Request (Callback : Type u) where
  head : ℕ
  callback : Option Callback

/-- The queue, the requests in flight, every used entry the device has published,
with the callback of its request, and every entry the driver has handled. -/
structure RunState (Callback : Type u) where
  queue : SplitVQ Callback
  inFlight : List (Request Callback)
  published : List (Completion Callback)
  handled : List (Completion Callback)

/-- What happens to a queue: a transfer is queued, the device publishes a used
entry, the driver goes once round the loop of `process_used` (its callbacks may
queue transfers in between), or through the whole of it. -/
inductive Op (Callback : Type u) where
  | transfer (ready : Bool) (elements : List TransferElement) (cb : Option Callback)
  | publish (id length : ℕ)
  | iterate
  | interrupt

namespace RunState

/-- A fresh queue. -/
def new (queueNum : ℕ) (memory : ℕ → SplitVQDescriptor) (available : ℕ → ℕ)
    (used : ℕ → SplitVQUsedEntry) : RunState Callback where
  queue := SplitVQ.new queueNum memory available used
  inFlight := []
  published := []
  handled := []

/-- The published entries the driver has not handled. -/
def pending (run : RunState Callback) : List (Completion Callback) :=
  run.published.drop run.handled.length

/-- The callback of the request in flight at `head`. -/
def callbackOf (run : RunState Callback) (head : ℕ) : Option (Option Callback) :=
  (run.inFlight.find? fun request => request.head == head).map Request.callback

/-- The driver has handled an entry. -/
def settle (run : RunState Callback) (done : Completion Callback) : RunState Callback :=
  { run with
    inFlight := run.inFlight.eraseP fun request => request.head == done.id
    handled := run.handled ++ [done] }

end RunState

/-- The device writes a used entry and advances its index. -/
def publish (vq : SplitVQ Callback) (id length : ℕ) : SplitVQ Callback :=
  { vq with
    usedEntries := update vq.usedEntries (vq.usedIdx % vq.num) ⟨id, length⟩
    usedIdx := (vq.usedIdx + 1) % 2 ^ 16 }

/-- One step, with the reply of a transfer; `none` when a `VERIFY` fails or
`process_used` does not end within the fuel. -/
def step (hash : ℕ → ℕ) (fuel : ℕ) (run : RunState Callback) :
    Op Callback → Option (RunState Callback × Option TransferReply)
  | .transfer ready elements cb =>
      (run.queue.queueTransfer hash ready elements cb).map fun done =>
        if done.2 = .queued then
          -- The device finds the request through the entry just made available.
          let head := done.1.availableEntries (run.queue.availableIdx % run.queue.num)
          ({ run with queue := done.1, inFlight := ⟨head, cb⟩ :: run.inFlight }, some done.2)
        else ({ run with queue := done.1 }, some done.2)
  | .publish id length =>
      some ({ run with
        queue := run.queue.publish id length
        published := run.published ++ [⟨id, length, (run.callbackOf id).join⟩] }, none)
  | .iterate =>
      if run.queue.lastSeenUsedIdx ≠ run.queue.usedIdx then
        (run.queue.processEntry hash).map fun done =>
          ({ run with queue := done.1 }.settle done.2, none)
      else some (run, none)
  | .interrupt =>
      (run.queue.processUsed hash fuel).map fun done =>
        (done.2.foldl RunState.settle { run with queue := done.1 }, none)

/-- The device conforms: it returns the head of a request in flight, and each one
once. -/
def Conforms (run : RunState Callback) : Op Callback → Prop
  | .publish id _ =>
      (∃ request ∈ run.inFlight, request.head = id) ∧ ∀ done ∈ run.pending, done.id ≠ id
  | .transfer _ _ _ | .iterate | .interrupt => True

instance (run : RunState Callback) : (op : Op Callback) → Decidable (Conforms run op)
  | .publish _ _ => inferInstanceAs (Decidable (_ ∧ _))
  | .transfer _ _ _ | .iterate | .interrupt => .isTrue trivial

end SplitVQ

end BekOS
