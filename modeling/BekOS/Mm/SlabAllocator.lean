import BekOS.Library.IntrusiveList
import BekOS.Lib.PartialRun
import BekOS.Mm.Addresses
import Mathlib.Data.List.Perm.Basic

/-!
# `SlabAllocator`

The allocator of `kmalloc` for small objects, all of one size.  Each block begins with a
`SlabBlock`; its free objects are linked through their first words.  The headers, the links and
the nodes of the two lists are kept by address; that no object overlaps a header or another
object is part of what is shown.
-/

namespace BekOS

open PartialRun Function

/-- `SlabBlock`, but for its node. -/
structure SlabBlock where
  objectSize : U64
  freelistHead : ℕ
  allocatedObjects : ℤ
  totalObjects : ℤ

namespace SlabBlock

/-- `sizeof(SlabBlock)` -/
def size : U64 := 48

/-- How many objects the constructor counts. -/
def countObjects (objSize blockSize : U64) : ℤ := ((blockSize - size) / objSize).setWidth 32 |>.toInt

/-- How far behind the block its objects begin. -/
def dataOffset (objectSize : U64) : ℕ := (ceilDiv size objectSize * objectSize).toNat

/-- `data_begin` -/
def dataBegin (this : ℕ) (block : SlabBlock) : ℕ := this + dataOffset block.objectSize

/-- `data_end` -/
def dataEnd (this : ℕ) (block : SlabBlock) : ℕ :=
  block.dataBegin this + (BitVec.ofInt 64 block.totalObjects * block.objectSize).toNat

/-- The first rounds of the constructor's loop: the links, and the last object linked. -/
def linkObjects (dataBegin : ℕ) (objSize : U64) (next : ℕ → ℕ) : ℕ → (ℕ → ℕ) × ℕ
  | 0 => (next, 0)
  | i + 1 =>
      let linked := linkObjects dataBegin objSize next i
      let element := dataBegin + i * objSize.toNat
      (update linked.1 element linked.2, element)

/-- The constructor, with the links that it writes. -/
def new (this : ℕ) (objSize blockSize : U64) (next : ℕ → ℕ) : SlabBlock × (ℕ → ℕ) :=
  let total := countObjects objSize blockSize
  let linked := linkObjects (this + dataOffset objSize) objSize next total.toNat
  ({ objectSize := objSize, freelistHead := linked.2, allocatedObjects := 0, totalObjects := total },
    linked.1)

/-- `allocate`; the null pointer is zero. -/
def allocate (block : SlabBlock) (next : ℕ → ℕ) : SlabBlock × ℕ :=
  if block.freelistHead = 0 then (block, 0)
  else
    ({ block with
        allocatedObjects := block.allocatedObjects + 1
        freelistHead := next block.freelistHead },
      block.freelistHead)

/-- `deallocate`; `none` when a check fails. -/
def deallocate (this : ℕ) (block : SlabBlock) (next : ℕ → ℕ) (ptr : ℕ) :
    Option (SlabBlock × (ℕ → ℕ)) :=
  if (ptr ≥ block.dataBegin this ∧ ptr < block.dataEnd this) ∧ ptr % block.objectSize.toNat = 0 then
    some
      ({ block with allocatedObjects := block.allocatedObjects - 1, freelistHead := ptr },
        update next ptr block.freelistHead)
  else none

end SlabBlock

/-- `m_free_blocks` and `m_full_blocks` -/
inductive SlabList
  | freeBlocks
  | fullBlocks
  deriving DecidableEq

/-- The allocator, with the blocks and the links of their objects, by address. -/
structure SlabAllocator where
  objSize : U64
  blkSize : U64
  lists : IntrusiveLists SlabList ℕ
  headers : ℕ → SlabBlock
  next : ℕ → ℕ

namespace SlabAllocator

/-! ## The functions -/

/-- `default_block_size` -/
def defaultBlockSize (objSize : U64) : U64 :=
  if objSize ≤ 256 then 4096 else objSize / 256 * 4096

/-- The constructor; `none` when its check fails.  No block is there yet. -/
def new (objectSize : U64) : Option SlabAllocator :=
  if objectSize ≥ 32 then
    some
      { objSize := objectSize
        blkSize := defaultBlockSize objectSize
        lists := ⟨fun _ => ⟨none, none⟩, fun _ => IntrusiveLists.unlinked⟩
        headers := fun _ => ⟨0, 0, 0, 0⟩
        next := fun _ => 0 }
  else none

/-- The part of `allocate` that gets a block, of a region that it is given. -/
def addBlock (slab : SlabAllocator) (region : ℕ) : Option SlabAllocator :=
  let made := SlabBlock.new region slab.objSize slab.blkSize slab.next
  let lists := { slab.lists with
    nodes := update slab.lists.nodes region IntrusiveLists.unlinked }
  (lists.append .freeBlocks region).map fun lists =>
    { slab with
      lists := lists
      headers := update slab.headers region made.1
      next := made.2 }

/-- The part of `allocate` that takes an object of the first block with free ones. -/
def takeObject (slab : SlabAllocator) : Option (SlabAllocator × ℕ) :=
  match (slab.lists.heads .freeBlocks).first with
  | none => none
  | some this =>
      let taken := (slab.headers this).allocate slab.next
      let slab := { slab with headers := update slab.headers this taken.1 }
      if taken.1.allocatedObjects = taken.1.totalObjects then
        (slab.lists.remove .freeBlocks this).bind fun lists =>
          (lists.append .fullBlocks this).map fun lists => ({ slab with lists := lists }, taken.2)
      else some (slab, taken.2)

/-- `allocate`; `region` is what the backing allocation returns, should there be one. -/
def allocate (slab : SlabAllocator) (region : ℕ) : Option (SlabAllocator × ℕ) :=
  if slab.lists.empty .freeBlocks then (slab.addBlock region).bind takeObject
  else slab.takeObject

/-- The block that `free` looks for the object in. -/
def blockOf (slab : SlabAllocator) (ptr : ℕ) : ℕ := ptr / slab.blkSize.toNat * slab.blkSize.toNat

/-- `free`; `none` when a check fails. -/
def free (slab : SlabAllocator) (ptr : ℕ) : Option SlabAllocator :=
  let this := slab.blockOf ptr
  let block := slab.headers this
  (if block.allocatedObjects = block.totalObjects then
      (slab.lists.remove .fullBlocks this).bind fun lists => lists.append .freeBlocks this
    else some slab.lists).bind fun lists =>
  (block.deallocate this slab.next ptr).map fun done =>
    { slab with
      lists := lists
      headers := update slab.headers this done.1
      next := done.2 }

/-! ## Runs -/

/-- An allocator with the blocks that it has got and the objects that are live. -/
structure Owned where
  slab : SlabAllocator
  blocks : List ℕ
  live : List ℕ

/-- What happens to an allocator: the two calls, and the stores of its callers into their
objects. -/
inductive Op
  | allocate (region : ℕ)
  | free (ptr : ℕ)
  | store (ptr value : ℕ)

/-- One of them; `none` when a check fails. -/
def step (owned : Owned) : Op → Option (Owned × Option ℕ)
  | .allocate region =>
      (owned.slab.allocate region).map fun done =>
        ({ slab := done.1
           blocks := if owned.slab.lists.empty .freeBlocks then region :: owned.blocks
             else owned.blocks
           live := done.2 :: owned.live }, some done.2)
  | .free ptr =>
      (owned.slab.free ptr).map fun slab =>
        ({ owned with slab := slab, live := owned.live.erase ptr }, none)
  | .store ptr value =>
      some ({ owned with
        slab := { owned.slab with next := update owned.slab.next ptr value } }, none)

/-- A backing allocation, when there is one, gets a new block that is aligned to the block size,
only live objects are freed, and the words stored to lie in live objects. -/
def Legal (owned : Owned) : Op → Prop
  | .allocate region => owned.slab.lists.empty .freeBlocks = true →
      region ≠ 0 ∧ region % owned.slab.blkSize.toNat = 0 ∧
        region + owned.slab.blkSize.toNat < 2 ^ 64 ∧ region ∉ owned.blocks
  | .free ptr => ptr ∈ owned.live
  | .store ptr _ => ∃ object ∈ owned.live,
      object ≤ ptr ∧ ptr + 8 ≤ object + owned.slab.objSize.toNat

instance (owned : Owned) : (op : Op) → Decidable (Legal owned op)
  | .allocate _ => inferInstanceAs (Decidable (_ → _))
  | .free ptr => inferInstanceAs (Decidable (ptr ∈ owned.live))
  | .store ptr _ => inferInstanceAs (Decidable (∃ object ∈ owned.live,
      object ≤ ptr ∧ ptr + 8 ≤ object + owned.slab.objSize.toNat))

/-- The objects of a block. -/
def objects (objSize blkSize : U64) (block : ℕ) : List ℕ :=
  (List.range (SlabBlock.countObjects objSize blkSize).toNat).map fun i =>
    block + SlabBlock.dataOffset objSize + i * objSize.toNat

/-- The object lies in the block. -/
def Within (blkSize : U64) (block ptr : ℕ) : Prop := block ≤ ptr ∧ ptr < block + blkSize.toNat
deriving Decidable

/-- **What the callers and the allocator itself rely on.** -/
structure Sound (objSize blkSize : U64) (owned : Owned) : Prop where
  distinct : owned.live.Nodup
  placed : ∀ ptr ∈ owned.live, ptr % objSize.toNat = 0 ∧
    ∃ block ∈ owned.blocks, block + SlabBlock.size.toNat ≤ ptr ∧
      ptr + objSize.toNat ≤ block + blkSize.toNat
  counted : ∀ block ∈ owned.blocks, (owned.slab.headers block).allocatedObjects =
    (owned.live.filter (Within blkSize block ·)).length
  listed : owned.blocks.Nodup ∧ ∃ items, owned.slab.lists.Represents items ∧
    (items .freeBlocks ++ items .fullBlocks).Perm owned.blocks ∧
    ∀ block ∈ owned.blocks,
      block ∈ items .fullBlocks ↔ ∀ ptr ∈ objects objSize blkSize block, ptr ∈ owned.live

/-! ## The layout of a block -/

/-- The header and the objects that the constructor counts fit in a block. -/
structure Layout (objSize blkSize : U64) : Prop where
  header_le : 48 ≤ SlabBlock.dataOffset objSize
  count_pos : 0 < SlabBlock.countObjects objSize blkSize
  objects_le : SlabBlock.dataOffset objSize +
    (SlabBlock.countObjects objSize blkSize).toNat * objSize.toNat ≤ blkSize.toNat
  end_eq : (BitVec.ofInt 64 (SlabBlock.countObjects objSize blkSize) * objSize).toNat =
    (SlabBlock.countObjects objSize blkSize).toNat * objSize.toNat
  size_pos : 8 ≤ objSize.toNat
  offset_mod : SlabBlock.dataOffset objSize % objSize.toNat = 0
  block_mod : blkSize.toNat % objSize.toNat = 0

instance (objSize blkSize : U64) : Decidable (Layout objSize blkSize) :=
  decidable_of_iff
    (48 ≤ SlabBlock.dataOffset objSize ∧ 0 < SlabBlock.countObjects objSize blkSize ∧
      SlabBlock.dataOffset objSize +
        (SlabBlock.countObjects objSize blkSize).toNat * objSize.toNat ≤ blkSize.toNat ∧
      (BitVec.ofInt 64 (SlabBlock.countObjects objSize blkSize) * objSize).toNat =
        (SlabBlock.countObjects objSize blkSize).toNat * objSize.toNat ∧
      8 ≤ objSize.toNat ∧ SlabBlock.dataOffset objSize % objSize.toNat = 0 ∧
      blkSize.toNat % objSize.toNat = 0)
    ⟨fun h => ⟨h.1, h.2.1, h.2.2.1, h.2.2.2.1, h.2.2.2.2.1, h.2.2.2.2.2.1, h.2.2.2.2.2.2⟩,
      fun h => ⟨h.1, h.2, h.3, h.4, h.5, h.6, h.7⟩⟩

theorem layout_default : ∀ k ∈ List.range' 5 55,
    Layout (BitVec.ofNat 64 (2 ^ k)) (defaultBlockSize (BitVec.ofNat 64 (2 ^ k))) := by
  decide +kernel

theorem defaultBlockSize_wraps : ∀ k ∈ List.range' 60 4,
    defaultBlockSize (BitVec.ofNat 64 (2 ^ k)) = 0 := by
  decide +kernel

end SlabAllocator

end BekOS
