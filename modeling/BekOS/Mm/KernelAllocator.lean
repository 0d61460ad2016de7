import BekOS.Mm.BitmapAllocator
import BekOS.Mm.RegionPageAllocator
import BekOS.Mm.SlabRuns
import Mathlib.Data.Fin.VecNotation

/-!
# `KernelAllocator`

`kmalloc` itself: large requests go to the page allocator, small ones to the first slab allocator
whose objects are large enough, and the rest to the bitmap allocator, which the blocks of the slab
allocators come from as well.  `free` finds the way again from the size that it is given.
-/

namespace BekOS

open PartialRun Function

/-! ## The page allocator -/

/-- `contains` -/
def VirtualRegion.contains (region : VirtualRegion) (ptr : ℕ) : Bool :=
  region.start ≤ ptr && ptr < region.start + region.size.toNat

namespace PageAllocator

/-- `MAX_PHYSICAL_REGIONS` -/
def maxPhysicalRegions : ℕ := 4

/-- `allocate_region`, of the regions that are registered. -/
def allocateRegion : List RegionPageAllocator → ℕ → List RegionPageAllocator × Option ℕ
  | [], _ => ([], none)
  | region :: rest, pageNumber =>
      match region.allocatePages pageNumber with
      | (region, some ptr) => (region :: rest, some ptr)
      | (region, none) =>
          let allocated := allocateRegion rest pageNumber
          (region :: allocated.1, allocated.2)

/-- The loop of `free_region`; `none` when it panics. -/
def freeRegionFrom : ℕ → List RegionPageAllocator → ℕ → Option (List RegionPageAllocator)
  | 0, _, _ => none
  | _ + 1, [], _ => some []
  | left + 1, region :: rest, start =>
      if region.region.contains start then (region.freeRegion start).map (· :: rest)
      else (freeRegionFrom left rest start).map (region :: ·)

/-- `free_region` -/
def freeRegion (regions : List RegionPageAllocator) (start : ℕ) :
    Option (List RegionPageAllocator) :=
  freeRegionFrom maxPhysicalRegions regions start

end PageAllocator

/-! ## The functions -/

/-- The allocator, with the page allocator that it works with. -/
structure KernelAllocator where
  bitmapAllocator : BitmapAllocator
  slabAllocators : Fin 6 → SlabAllocator
  pageAllocator : List RegionPageAllocator

namespace KernelAllocator

/-- The sizes of `m_slab_allocators`. -/
def objectSizes : Fin 6 → U64 := ![32, 64, 128, 256, 512, 1024]

/-- From here on pages are allocated: 64 KiB. -/
def largeSize : U64 := 0x10000

/-- The slab allocator that the loops of `allocate` and `free` stop at. -/
def slabFor (kernel : KernelAllocator) (size align : U64) : Option (Fin 6) :=
  (List.finRange 6).find? fun i =>
    size ≤ (kernel.slabAllocators i).objSize && align ≤ (kernel.slabAllocators i).objSize

/-- `allocate`, of what no slab allocator is for; with the size that is reported. -/
def allocateLarge (kernel : KernelAllocator) (size align : U64) :
    Option (KernelAllocator × Option ℕ × U64) :=
  if size ≥ largeSize then
    if align ≤ 4096 then
      let pages := ceilDiv size 4096
      match PageAllocator.allocateRegion kernel.pageAllocator pages.toNat with
      | (regions, some ptr) =>
          some ({ kernel with pageAllocator := regions }, some ptr, pages * 4096)
      | (regions, none) => some ({ kernel with pageAllocator := regions }, none, 0)
    else none
  else
    (kernel.bitmapAllocator.allocate size align).map fun done =>
      ({ kernel with bitmapAllocator := done.1 }, done.2, size)

/-- The block that a slab allocator without free objects asks `mem::allocate` for; with free
objects it does not look at one. -/
def newBlock (kernel : KernelAllocator) (i : Fin 6) : Option (KernelAllocator × Option ℕ) :=
  if (kernel.slabAllocators i).lists.empty .freeBlocks then
    (kernel.allocateLarge (kernel.slabAllocators i).blkSize (kernel.slabAllocators i).blkSize).map
      fun done => (done.1, done.2.1)
  else some (kernel, some 0)

/-- `allocate`, of what the slab allocator is for.  Without a block for it the null pointer is
written to, and the kernel comes to its end. -/
def allocateSmall (kernel : KernelAllocator) (i : Fin 6) :
    Option (KernelAllocator × Option ℕ × U64) :=
  (kernel.newBlock i).bind fun made =>
    match made.2 with
    | none => none
    | some region =>
        ((made.1.slabAllocators i).allocate region).map fun done =>
          ({ made.1 with slabAllocators := update made.1.slabAllocators i done.1 },
            some done.2, (kernel.slabAllocators i).objSize)

/-- `allocate`; `none` when a check fails. -/
def allocate (kernel : KernelAllocator) (size align : U64) :
    Option (KernelAllocator × Option ℕ × U64) :=
  if size ≥ largeSize then kernel.allocateLarge size align
  else
    match kernel.slabFor size align with
    | some i => kernel.allocateSmall i
    | none => kernel.allocateLarge size align

/-- The part of `free` that frees pages; it does not return from there. -/
def freePages (kernel : KernelAllocator) (ptr : ℕ) (size align : U64) : Option KernelAllocator :=
  if size ≥ largeSize then
    if align ≤ 4096 ∧ ptr % 4096 = 0 then
      (PageAllocator.freeRegion kernel.pageAllocator ptr).map fun regions =>
        { kernel with pageAllocator := regions }
    else none
  else some kernel

/-- `free`; `none` when a check fails. -/
def free (kernel : KernelAllocator) (ptr : ℕ) (size align : U64) : Option KernelAllocator :=
  (kernel.freePages ptr size align).bind fun kernel =>
    match kernel.slabFor size align with
    | some i =>
        ((kernel.slabAllocators i).free ptr).map fun slab =>
          { kernel with slabAllocators := update kernel.slabAllocators i slab }
    | none =>
        (kernel.bitmapAllocator.free ptr size).map fun bitmap =>
          { kernel with bitmapAllocator := bitmap }

/-! ## Runs -/

/-- Where an allocation comes from. -/
inductive Origin
  | pages
  | slab (i : Fin 6)
  | bitmap
  deriving DecidableEq

/-- An allocation that has not been freed: what was asked for, and what was reported. -/
structure Allocation where
  ptr : ℕ
  size : U64
  align : U64
  reported : U64
  origin : Origin
  deriving DecidableEq

/-- The sub-allocator that `allocate` asks. -/
def originOf (kernel : KernelAllocator) (size align : U64) : Origin :=
  if size ≥ largeSize then .pages
  else
    match kernel.slabFor size align with
    | some i => .slab i
    | none => .bitmap

/-- An allocator with the blocks of its slab allocators and the live allocations. -/
structure Owned where
  kernel : KernelAllocator
  slabBlocks : Fin 6 → List ℕ
  live : List Allocation

/-- What happens to the allocator: the two calls, and the stores of its callers. -/
inductive Op
  | allocate (size align : U64)
  | free (ptr : ℕ) (size align : U64)
  | storeByte (ptr : ℕ) (value : Byte)
  | storeObject (i : Fin 6) (ptr value : ℕ)

/-- `free(ptr, size, align)` may be called on the allocation. -/
def Allocation.Named (ptr : ℕ) (size align : U64) (allocation : Allocation) : Prop :=
  allocation.ptr = ptr ∧ allocation.align = align ∧ allocation.size ≤ size ∧
    size ≤ allocation.reported
deriving Decidable

/-- The blocks of the slab allocators after an allocation. -/
def blocksAfter (owned : Owned) (size align : U64) : Fin 6 → List ℕ :=
  match owned.kernel.originOf size align with
  | .slab i =>
      if (owned.kernel.slabAllocators i).lists.empty .freeBlocks then
        update owned.slabBlocks i
          (((owned.kernel.newBlock i).bind (·.2)).toList ++ owned.slabBlocks i)
      else owned.slabBlocks
  | _ => owned.slabBlocks

/-- One of them; `none` when a check fails. -/
def step (owned : Owned) : Op → Option (Owned × Option ℕ)
  | .allocate size align =>
      (owned.kernel.allocate size align).map fun done =>
        match done.2.1 with
        | some ptr =>
            ({ kernel := done.1
               slabBlocks := blocksAfter owned size align
               live := ⟨ptr, size, align, done.2.2, owned.kernel.originOf size align⟩ ::
                owned.live }, some ptr)
        | none => ({ owned with kernel := done.1 }, none)
  | .free ptr size align =>
      (owned.kernel.free ptr size align).map fun kernel =>
        ({ owned with
            kernel := kernel
            live := owned.live.eraseP fun allocation => decide (allocation.Named ptr size align) },
          none)
  | .storeByte ptr value =>
      some ({ owned with
        kernel := { owned.kernel with
          bitmapAllocator := { owned.kernel.bitmapAllocator with
            memory := update owned.kernel.bitmapAllocator.memory
              (ptr - owned.kernel.bitmapAllocator.data) value } } }, none)
  | .storeObject i ptr value =>
      some ({ owned with
        kernel := { owned.kernel with
          slabAllocators := update owned.kernel.slabAllocators i
            { owned.kernel.slabAllocators i with
              next := update (owned.kernel.slabAllocators i).next ptr value } } }, none)

/-- An allocation of the bitmap allocator, as a block of it. -/
def Allocation.block? (allocation : Allocation) : Option BitmapAllocator.Block :=
  if allocation.origin = .bitmap then some ⟨allocation.ptr, allocation.size, allocation.align⟩
  else none

/-- The objects of a slab allocator that are live. -/
def objectsOf (live : List Allocation) (i : Fin 6) : List ℕ :=
  (live.filter fun allocation => decide (allocation.origin = .slab i)).map Allocation.ptr

/-- The blocks of the slab allocators, as blocks of the bitmap allocator. -/
def backingBlocks (slabBlocks : Fin 6 → List ℕ) : List BitmapAllocator.Block :=
  (List.finRange 6).flatMap fun i => (slabBlocks i).map fun ptr =>
    ⟨ptr, SlabAllocator.defaultBlockSize (objectSizes i),
      SlabAllocator.defaultBlockSize (objectSizes i)⟩

/-- The bitmap allocator with all of its blocks that are in use. -/
def Owned.bitmapOwned (owned : Owned) : BitmapAllocator.Owned where
  alloc := owned.kernel.bitmapAllocator
  live := owned.live.filterMap Allocation.block? ++ backingBlocks owned.slabBlocks

/-- A slab allocator with its blocks and objects. -/
def Owned.slabOwned (owned : Owned) (i : Fin 6) : SlabAllocator.Owned where
  slab := owned.kernel.slabAllocators i
  blocks := owned.slabBlocks i
  live := objectsOf owned.live i

/-- Alignments are powers of two, and those of pages at most a page; live allocations are freed,
with a size between the one asked for and the one reported; and stores go into live ones. -/
def Legal (owned : Owned) : Op → Prop
  | .allocate size align =>
      (∃ k ∈ List.range 64, align.toNat = 2 ^ k) ∧ (size ≥ largeSize → align ≤ 4096)
  | .free ptr size align => ∃ allocation ∈ owned.live, allocation.Named ptr size align
  | .storeByte ptr value => BitmapAllocator.Legal owned.bitmapOwned (.store ptr value)
  | .storeObject i ptr value => SlabAllocator.Legal (owned.slabOwned i) (.store ptr value)

/-- What the bitmap allocator is asked for does not come to its defects. -/
def ExactAllocate (owned : Owned) (size align : U64) : Origin → Prop
  | .pages => True
  | .slab i => (owned.kernel.slabAllocators i).lists.empty .freeBlocks = true →
      BitmapAllocator.Exact owned.bitmapOwned
        (.allocate (owned.kernel.slabAllocators i).blkSize (owned.kernel.slabAllocators i).blkSize)
  | .bitmap => BitmapAllocator.Exact owned.bitmapOwned (.allocate size align)

/-- The call does not come to the defects of the bitmap allocator. -/
def Exact (owned : Owned) : Op → Prop
  | .allocate size align => ExactAllocate owned size align (owned.kernel.originOf size align)
  | .free ptr size align =>
      owned.kernel.originOf size align = .bitmap →
        BitmapAllocator.Exact owned.bitmapOwned (.free ptr size)
  | _ => True

instance (owned : Owned) : (op : Op) → Decidable (Legal owned op)
  | .allocate size align => inferInstanceAs (Decidable
      ((∃ k ∈ List.range 64, align.toNat = 2 ^ k) ∧ (size ≥ largeSize → align ≤ 4096)))
  | .free ptr size align => inferInstanceAs (Decidable
      (∃ allocation ∈ owned.live, allocation.Named ptr size align))
  | .storeByte ptr value =>
      inferInstanceAs (Decidable (BitmapAllocator.Legal owned.bitmapOwned (.store ptr value)))
  | .storeObject i ptr value =>
      inferInstanceAs (Decidable (SlabAllocator.Legal (owned.slabOwned i) (.store ptr value)))

instance (owned : Owned) (size align : U64) :
    (origin : Origin) → Decidable (ExactAllocate owned size align origin)
  | .pages => .isTrue trivial
  | .slab _ => inferInstanceAs (Decidable (_ → _))
  | .bitmap =>
      inferInstanceAs (Decidable (BitmapAllocator.Exact owned.bitmapOwned (.allocate size align)))

instance (owned : Owned) : (op : Op) → Decidable (Exact owned op)
  | .allocate size align => inferInstanceAs (Decidable (ExactAllocate owned size align _))
  | .free _ _ _ => inferInstanceAs (Decidable (_ → _))
  | .storeByte _ _ => .isTrue trivial
  | .storeObject _ _ _ => .isTrue trivial

/-- The allocation goes back to where it came from, and nothing else changes. -/
def GivenBack (kernel kernel' : KernelAllocator) (allocation : Allocation) (size : U64) : Prop :=
  match allocation.origin with
  | .pages => ∃ regions, PageAllocator.freeRegion kernel.pageAllocator allocation.ptr = some regions ∧
      kernel' = { kernel with pageAllocator := regions }
  | .slab i => ∃ slab, (kernel.slabAllocators i).free allocation.ptr = some slab ∧
      kernel' = { kernel with slabAllocators := update kernel.slabAllocators i slab }
  | .bitmap => ∃ bitmap, kernel.bitmapAllocator.free allocation.ptr size = some bitmap ∧
      kernel' = { kernel with bitmapAllocator := bitmap }

/-- A `free` with that size passes its checks and gives the allocation back. -/
def FreesWell (kernel : KernelAllocator) (allocation : Allocation) (size : U64) : Prop :=
  ∃ kernel', kernel.free allocation.ptr size allocation.align = some kernel' ∧
    GivenBack kernel kernel' allocation size

/-- The allocator as it starts: the area of the bitmap allocator is no null pointer, and the
regions of the page allocator, which are memory that is not reserved, lie elsewhere. -/
structure Start (data : ℕ) (size : U64) (memory : Memory Byte) (kernel : KernelAllocator) :
    Prop where
  bitmap : BitmapAllocator.new data size memory = some kernel.bitmapAllocator
  slabs : ∀ i, SlabAllocator.new (objectSizes i) = some (kernel.slabAllocators i)
  data_pos : 0 < data
  fits : data + size.toNat < 2 ^ 64
  apart : ∀ region ∈ kernel.pageAllocator,
    region.region.start + region.region.size.toNat ≤ data ∨
      data + size.toNat ≤ region.region.start

end KernelAllocator

end BekOS
