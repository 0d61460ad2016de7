import BekOS.Lib.Bitmap
import BekOS.Library.LruCacheMap

/-!
# Cached blocks of a device

A device as the file systems see it, and the two block caches of
`FileAllocationTable`.  A cache maps the number of a block to a `BlockCacheItem`,
which shared pointers refer to; the pointers the caller has are a parameter of
`fetch`, since a block that is referenced outside the cache is not purged.

What the device answers is a parameter: it may fail any transfer.  A transfer that
fails moves nothing.
-/

namespace BekOS

/-! ## The device -/

/-- `TransferResult` -/
inductive TransferResult where
  | Success
  | BadAlignment
  | OutOfBounds
  | Failure
  deriving DecidableEq

/-- A transfer that was made. -/
structure Transfer where
  write : Bool
  byteOffset : ℕ
  length : ℕ
  result : TransferResult
  deriving DecidableEq

/-- A device: its contents and its size, what it answers to its `n`-th transfer, and
the transfers so far, the last one first. -/
structure BlockDevice where
  bytes : Memory Byte
  capacity : ℕ
  answers : ℕ → Bool → TransferResult
  transfers : List Transfer

namespace BlockDevice

/-- The result of a transfer; one beyond the end of the partition is not tried. -/
def result (device : BlockDevice) (write : Bool) (byteOffset length : ℕ) : TransferResult :=
  if byteOffset + length > device.capacity then .OutOfBounds
  else device.answers device.transfers.length write

/-- The device, with a transfer recorded. -/
def record (device : BlockDevice) (write : Bool) (byteOffset length : ℕ) : BlockDevice :=
  { device with
    transfers := ⟨write, byteOffset, length, device.result write byteOffset length⟩ ::
      device.transfers }

/-- `blocking_read`: the buffer afterwards. -/
def blockingRead (device : BlockDevice) (byteOffset : ℕ) (buffer : Memory Byte) (length : ℕ) :
    BlockDevice × Memory Byte :=
  (device.record false byteOffset length,
    if device.result false byteOffset length = .Success then
      copyRange buffer 0 device.bytes byteOffset length
    else buffer)

/-- `blocking_write` of a part of a buffer. -/
def blockingWrite (device : BlockDevice) (byteOffset : ℕ) (buffer : Memory Byte)
    (start length : ℕ) : BlockDevice :=
  { device.record true byteOffset length with
    bytes :=
      if device.result true byteOffset length = .Success then
        copyRange device.bytes byteOffset buffer start length
      else device.bytes }

end BlockDevice

/-! ## Blocks -/

/-- `BlockCacheItem` -/
structure BlockCacheItem where
  data : Memory Byte
  size : ℕ
  dirtyStart : ℕ
  dirtyEnd : ℕ

namespace BlockCacheItem

/-- `create`, in memory that is as it was found. -/
def create (memory : Memory Byte) (size : ℕ) : BlockCacheItem where
  data := memory
  size := size
  dirtyStart := 0
  dirtyEnd := 0

/-- `is_dirty` -/
def IsDirty (item : BlockCacheItem) : Prop := item.dirtyEnd ≠ item.dirtyStart
deriving Decidable

/-- `add_dirty_region`; `none` when its assertion fails. -/
def addDirtyRegion (item : BlockCacheItem) (start stop : ℕ) : Option BlockCacheItem :=
  if start ≤ stop ∧ stop ≤ item.size then
    if item.IsDirty then
      some { item with
        dirtyStart := min start item.dirtyStart
        dirtyEnd := max stop item.dirtyEnd }
    else some { item with dirtyStart := start, dirtyEnd := stop }
  else none

/-- `clear_dirty` -/
def clearDirty (item : BlockCacheItem) : BlockCacheItem :=
  { item with dirtyStart := 0, dirtyEnd := 0 }

/-- `set_whole_dirty` -/
def setWholeDirty (item : BlockCacheItem) : BlockCacheItem :=
  { item with dirtyStart := 0, dirtyEnd := item.size }

/-- The block with other contents. -/
def withData (item : BlockCacheItem) (data : Memory Byte) : BlockCacheItem :=
  { item with data := data }

end BlockCacheItem

/-! ## Caches -/

/-- How the blocks of a cache move: their size, where a block is read from and where it
is written to (`none` when the computation of that fails an assertion), and whether
all of a dirty block is written. -/
structure BlockMoves where
  size : ℕ
  readAddr : ℕ → Option ℕ
  writeAddr : ℕ → Option ℕ
  whole : Bool

/-- A cache of blocks.  `items` maps the number of a block to an object; `scratch` is
what the memory of the object that is created next holds. -/
structure BlockCache where
  items : LruCache ℕ ℕ
  blocks : ℕ → BlockCacheItem
  created : ℕ
  scratch : ℕ → Memory Byte

namespace BlockMoves

/-- The part of a dirty block that is written back. -/
def dirtyRange (moves : BlockMoves) (item : BlockCacheItem) : ℕ × ℕ :=
  if moves.whole then (0, moves.size) else (item.dirtyStart, item.dirtyEnd)

/-- The contents of a block that is created for a number.  They are read if they are
needed; `none` when that fails. -/
def load (moves : BlockMoves) (device : BlockDevice) (memory : Memory Byte) (key : ℕ)
    (needsContent : Bool) : Option (BlockDevice × Memory Byte) :=
  if needsContent then
    (moves.readAddr key).bind fun addr =>
      if device.result false addr moves.size = .Success then
        some (device.blockingRead addr memory moves.size)
      else none
  else some (device, memory)

/-- `purge_cluster` and `purge_fat_sector`, which go on whatever the write returns. -/
def purge (moves : BlockMoves) (device : BlockDevice) (key : ℕ) (item : BlockCacheItem) :
    Option (BlockDevice × BlockCacheItem) :=
  if item.IsDirty then
    (moves.writeAddr key).map fun addr =>
      let range := moves.dirtyRange item
      (device.blockingWrite (addr + range.1) item.data range.1 (range.2 - range.1),
        item.clearDirty)
  else some (device, item)

end BlockMoves

namespace BlockCache

/-- An empty cache. -/
def new (maxItems : ℕ) (scratch : ℕ → Memory Byte) : BlockCache where
  items := .new maxItems
  blocks := fun _ => .create (fun _ => 0) 0
  created := 0
  scratch := scratch

/-- Change a block. -/
def modify (cache : BlockCache) (id : ℕ) (f : BlockCacheItem → BlockCacheItem) : BlockCache :=
  { cache with blocks := Function.update cache.blocks id (f (cache.blocks id)) }

/-- `ref_count` of a block: the cache's reference, the one of `fetch` to the block it
has just created, and those of the caller. -/
def refCount (fresh : ℕ) (pointers : List ℕ) (id : ℕ) : ℕ :=
  1 + (if id = fresh then 1 else 0) + pointers.count id

/-- What `purge_fn` does with the pair that `set` has taken out. -/
def writeBack (moves : BlockMoves) (cache : BlockCache) (device : BlockDevice) :
    Option (ℕ × ℕ) → Option (BlockCache × BlockDevice)
  | none => some (cache, device)
  | some (key, id) =>
      (moves.purge device key (cache.blocks id)).map fun purged =>
        (cache.modify id fun _ => purged.2, purged.1)

variable (hash : ℕ → ℕ)

/-- The end of `fetch`, once a block has been created: `set` it, which may purge
another.  The loop of the source would go round again where the cache has the block
neither before nor after `set`. -/
def store (moves : BlockMoves) (pointers : List ℕ) (cache : BlockCache) (device : BlockDevice)
    (key fresh : ℕ) : Option ((BlockCache × BlockDevice) × ℕ) :=
  (cache.items.set hash key fresh (refCount fresh pointers) (refCount fresh pointers)).bind
    fun stored =>
      (writeBack moves { cache with items := stored.1 } device stored.2.2).bind fun done =>
        if stored.2.1 then some (done, fresh)
        else
          (done.1.items.find hash key).bind fun again =>
            again.2.map fun id => (({ done.1 with items := again.1 }, done.2), id)

/-- `fetch_fat_sector` and `fetch_cluster`: the block of a number, which is created if
the cache has none, given the pointers the caller has. -/
def fetch (moves : BlockMoves) (pointers : List ℕ) (cache : BlockCache) (device : BlockDevice)
    (key : ℕ) (needsContent : Bool) : Option ((BlockCache × BlockDevice) × ℕ) :=
  (cache.items.find hash key).bind fun found =>
    match found.2 with
    | some id => some (({ cache with items := found.1 }, device), id)
    | none =>
        (moves.load device (cache.scratch cache.created) key needsContent).bind fun loaded =>
          store hash moves pointers
            { cache with
              items := found.1
              blocks := Function.update cache.blocks cache.created (.create loaded.2 moves.size)
              created := cache.created + 1 } loaded.1 key cache.created

end BlockCache

end BekOS
