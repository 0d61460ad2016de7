import BekOS.Lib.LittleEndian
import BekOS.Lib.Tiling
import BekOS.Library.KernelError
import BekOS.Mm.Addresses

/-!
# The allocator of user programs

`mem::allocate` cuts blocks off the slabs that it gets from the kernel, and keeps the blocks that
are free in a list that is sorted by address; what is a page or larger is a region of its own.
Every block begins with a header of sixteen bytes, which lies in the memory that the program writes
to as well.  No block is smaller than its header, so that only the size that is asked for can be
near the end of 64 bits.
-/

namespace BekOS

namespace Allocator

/-- `sizeof(BlockHeader)`, and of `HugeBlockHeader`. -/
def headerSize : ℕ := 16

/-- `MIN_BLOCK_SIZE` -/
def minBlockSize : ℕ := 8

/-- `SIZE_FOR_SEPARATE_LARGE_BLOCK` -/
def sizeForSeparateLargeBlock : U64 := pageSize

/-- `DEFAULT_LARGE_BLOCK_SIZE` -/
def defaultLargeBlockSize : ℕ := 4096 * 16

/-! ## Headers -/

section Headers

variable (memory : Memory Byte) (block : ℕ)

/-- `next` -/
def next : ℕ := leRead memory block 8

/-- `size` -/
def size : ℕ := leRead memory (block + 8) 8

/-- `data_size` -/
def dataSize : ℕ := size memory block - headerSize

/-- `end` -/
def blockEnd : ℕ := block + size memory block

def setNext (value : ℕ) : Memory Byte := leWrite memory block value 8

def setSize (value : ℕ) : Memory Byte := leWrite memory (block + 8) value 8

/-- `can_be_split` -/
def canBeSplit (targetSize : ℕ) : Bool :=
  size memory block ≥ headerSize * 2 + targetSize + minBlockSize

/-- `split_block`, of a block that can be split. -/
def splitBlock (targetSize : ℕ) : Memory Byte :=
  let secondSize := dataSize memory block - targetSize
  let memory := setSize memory block (headerSize + targetSize)
  let second := blockEnd memory block
  let memory := setSize (setNext memory second (next memory block)) second secondSize
  setNext memory block second

end Headers

/-! ## The lists -/

/-- The globals, with the memory. -/
structure Heap where
  memory : Memory Byte
  freeBlocks : ℕ
  hugeBlockHead : ℕ
  heapStart : ℕ
  heapEnd : ℕ

/-- No loop over a list of blocks has as many steps as there are addresses. -/
def loopBound : ℕ := 2 ^ 64

/-- `update_heap_range_tracker` -/
def Heap.updateRange (heap : Heap) (ptr : ℕ) : Heap :=
  { heap with
    heapStart := if heap.heapStart = 0 ∨ ptr < heap.heapStart then ptr else heap.heapStart
    heapEnd := if heap.heapEnd = 0 ∨ ptr > heap.heapEnd then ptr else heap.heapEnd }

/-- The pointer to what comes behind a block, or to the first block, is set. -/
def Heap.linkFree (heap : Heap) (previous target : ℕ) : Heap :=
  if previous = 0 then { heap with freeBlocks := target }
  else { heap with memory := setNext heap.memory previous target }

/-- As for the free blocks. -/
def Heap.linkHuge (heap : Heap) (previous target : ℕ) : Heap :=
  if previous = 0 then { heap with hugeBlockHead := target }
  else { heap with memory := setNext heap.memory previous target }

/-- The loop of `insert_block`: the blocks before and behind. -/
def findPlace (memory : Memory Byte) (block : ℕ) : ℕ → ℕ → ℕ → Option (ℕ × ℕ)
  | 0, _, _ => none
  | fuel + 1, last, current =>
      if current = 0 ∨ current > block then some (last, current)
      else findPlace memory block fuel current (next memory current)

/-- `insert_block`, with the block before. -/
def insertBlock (heap : Heap) (block : ℕ) : Option (Heap × ℕ) :=
  (findPlace heap.memory block loopBound 0 heap.freeBlocks).map fun place =>
    (Heap.linkFree { heap with memory := setNext heap.memory block place.2 } place.1 block,
      place.1)

/-- The loop of `allocate`: the best block so far and the one before it, and what is to come. -/
def findBest (memory : Memory Byte) (wanted : ℕ) : ℕ → ℕ × ℕ → ℕ → ℕ → Option (ℕ × ℕ)
  | 0, _, _, _ => none
  | fuel + 1, best, last, current =>
      if current = 0 then some best
      else if dataSize memory current ≥ wanted ∧
          (best.1 = 0 ∨ dataSize memory best.1 > dataSize memory current) then
        -- A block that cannot be split is as close as it gets.
        if canBeSplit memory current wanted then
          findBest memory wanted fuel (current, last) current (next memory current)
        else some (current, last)
      else findBest memory wanted fuel best current (next memory current)

/-- The loop of `try_free_huge`: the block before, and the block or null. -/
def findHuge (memory : Memory Byte) (ptr : ℕ) : ℕ → ℕ → ℕ → Option (ℕ × ℕ)
  | 0, _, _ => none
  | fuel + 1, previous, current =>
      if current = 0 then some (previous, 0)
      else if ptr = current + headerSize then some (previous, current)
      else findHuge memory ptr fuel current (next memory current)

/-! ## The functions -/

/-- What `allocate` returns: a pointer and a size, or null. -/
abbrev AllocatedRegion := Option (ℕ × ℕ)

/-- `allocate`, of a region of its own. -/
def allocateHuge (heap : Heap) (wanted : U64) (region : Option ℕ) : Heap × AllocatedRegion :=
  let hbSize := (alignUp (wanted + 16) pageSize).toNat
  match region with
  | none => (heap, none)
  | some block =>
      let memory := setSize (setNext heap.memory block heap.hugeBlockHead) block hbSize
      (Heap.updateRange { heap with memory, hugeBlockHead := block } (block + headerSize),
        some (block + headerSize, hbSize - headerSize))

/-- The part of `allocate` that takes a block out of the list, and leaves what is not wanted. -/
def takeBlock (heap : Heap) (block previous wanted : ℕ) : Heap × AllocatedRegion :=
  let memory := if canBeSplit heap.memory block wanted then splitBlock heap.memory block wanted
    else heap.memory
  let following := next memory block
  let heap := Heap.linkFree { heap with memory := setNext memory block 0 } previous following
  (heap.updateRange (block + headerSize),
    some (block + headerSize, dataSize heap.memory block))

/-- `allocate`, of a block. -/
def allocateSmall (heap : Heap) (wanted : ℕ) (region : Option ℕ) :
    Option (Heap × AllocatedRegion) := do
  let best ← findBest heap.memory wanted loopBound (0, 0) 0 heap.freeBlocks
  if best.1 ≠ 0 then return takeBlock heap best.1 best.2 wanted
  else
    match region with
    | none => return (heap, none)
    | some slab =>
        let memory := setSize (setNext heap.memory slab 0) slab defaultLargeBlockSize
        let inserted ← insertBlock { heap with memory } slab
        return takeBlock inserted.1 slab inserted.2 wanted

/-- `mem::allocate`; the region is what the kernel gives if it is asked for one.  `none` when the
check fails. -/
def allocate (heap : Heap) (size align : U64) (region : Option ℕ) :
    Option (Heap × AllocatedRegion) :=
  if size = 0 then some (heap, none)
  else if align > pageSize then none
  else
    let size := alignUp size 8
    if size ≥ sizeForSeparateLargeBlock then some (allocateHuge heap size region)
    else allocateSmall heap size.toNat region

/-- Two neighbours in the list are made one, if the one ends where the other begins. -/
def coalesce (memory : Memory Byte) (block following : ℕ) : Memory Byte :=
  if following = blockEnd memory block then
    let memory := setSize memory block (size memory block + size memory following)
    setNext memory block (next memory following)
  else memory

/-- The check that `free_small` and `get_size_of_allocation` make. -/
def sizeSane (memory : Memory Byte) (block : ℕ) : Bool :=
  8 ≤ dataSize memory block ∧ dataSize memory block < sizeForSeparateLargeBlock.toNat

/-- `free_small`; `none` when the check fails. -/
def freeSmall (heap : Heap) (ptr : ℕ) : Option Heap :=
  let header := ptr - headerSize
  if sizeSane heap.memory header then do
    let inserted ← insertBlock heap header
    let memory := inserted.1.memory
    let memory := coalesce memory header (next memory header)
    let memory := if inserted.2 ≠ 0 then coalesce memory inserted.2 header else memory
    return { inserted.1 with memory }
  else none

/-- The checks on a pointer. -/
def Heap.inRange (heap : Heap) (ptr : ℕ) : Bool := heap.heapStart ≤ ptr ∧ ptr ≤ heap.heapEnd

/-- `free`; `none` when a check fails. -/
def free (heap : Heap) (ptr : ℕ) : Option Heap :=
  if ptr = 0 then some heap
  else if heap.inRange ptr then do
    let found ← findHuge heap.memory ptr loopBound 0 heap.hugeBlockHead
    if found.2 ≠ 0 then return heap.linkHuge found.1 (next heap.memory found.2)
    else freeSmall heap ptr
  else none

/-- `get_size_of_allocation`; `none` when a check fails. -/
def getSizeOfAllocation (heap : Heap) (ptr : ℕ) : Option ℕ :=
  if ptr = 0 then some 0
  else if heap.inRange ptr then do
    let found ← findHuge heap.memory ptr loopBound 0 heap.hugeBlockHead
    if found.2 ≠ 0 then return dataSize heap.memory found.2
    else if sizeSane heap.memory (ptr - headerSize) then
      return dataSize heap.memory (ptr - headerSize)
    else none
  else none

/-- The pointer of a region, or null. -/
def pointer (region : AllocatedRegion) : ℕ := (region.map Prod.fst).getD 0

/-- `bek::memcopy`; `none` when the check fails. -/
def memcopy (memory : Memory Byte) (target source n : ℕ) : Option (Memory Byte) :=
  if n ≤ maxMemcopy then some (copyRange memory target memory source n) else none

/-- The copy that `realloc` makes, if there is a new region. -/
def copyOver (heap : Heap) (ptr dataSize : ℕ) : AllocatedRegion → Option Heap
  | none => some heap
  | some (target, _) =>
      (memcopy heap.memory target ptr dataSize).map fun memory => { heap with memory }

/-- `realloc`; `none` when a check fails. -/
def realloc (heap : Heap) (ptr : ℕ) (size : U64) (region : Option ℕ) : Option (Heap × ℕ) :=
  if ptr = 0 then (allocate heap size 8 region).map fun done => (done.1, pointer done.2)
  else do
    let dataSize ← getSizeOfAllocation heap ptr
    if size.toNat > dataSize then
      let allocated ← allocate heap size 8 region
      let copied ← copyOver allocated.1 ptr dataSize allocated.2
      let freed ← free copied ptr
      return (freed, pointer allocated.2)
    else return (heap, ptr)

end Allocator

end BekOS
