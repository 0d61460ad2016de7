import BekOS.Peripherals.RegionMapping

/-!
# `MappedDmaPool`

A device has its own addresses for the memory: each of its mappings gives a range of them.  A buffer
from `kmalloc` gets the address that it has under the first mapping in which it seems to start.
-/

namespace BekOS

open DeviceTree (Range)

/-- `dma_buffer` -/
structure DmaBuffer where
  data : ℕ
  size : ℕ
  dmaPtr : ℕ
deriving DecidableEq, Repr

/-- The test in `MappedDmaPool::allocate`: the buffer starts in the region, or where it ends. -/
def startsIn (rawPtr : ℕ) (mapping : Range) : Bool :=
  decide (mapping.parentAddress ≤ rawPtr ∧
    rawPtr ≤ (mapping.parentAddress + mapping.size) % 2 ^ 64)

/-- The mapping that `MappedDmaPool::allocate` stops at. -/
def mappingFor (mappings : List Range) (rawPtr : ℕ) : Option Range :=
  mappings.find? (startsIn rawPtr)

/-- `MappedDmaPool::allocate`, with what `kmalloc` returns, and the physical addresses that the
memory management unit gives. -/
def allocateDma (mappings : List Range) (kmalloc : ℕ → ℕ → Option ℕ)
    (kernelVirtToPhys : ℕ → Option ℕ) (size align : ℕ) : Except Fault DmaBuffer :=
  match kmalloc size align with
  | none => .error .panic
  | some allocation =>
      match kernelVirtToPhys allocation with
      | none => .error .panic
      | some rawPtr =>
          match mappingFor mappings rawPtr with
          | none => .error .panic
          | some mapping =>
              .ok
                { data := allocation
                  size := size
                  dmaPtr := (mapping.childAddress + (rawPtr - mapping.parentAddress)) % 2 ^ 64 }

/-- The bytes are in the physical region of a mapping. -/
def DeviceTree.Range.HoldsBuffer (mapping : Range) (phys size : ℕ) : Prop :=
  mapping.parentAddress ≤ phys ∧ phys + size ≤ mapping.parentAddress + mapping.size
deriving Decidable

/-- Under a mapping, a device gets to a physical address by one of its own. -/
def DeviceTree.Range.Corresponds (mapping : Range) (dma phys : ℕ) : Prop :=
  ∃ i < mapping.size, dma % 2 ^ 64 = (mapping.childAddress + i) % 2 ^ 64 ∧
    phys = mapping.parentAddress + i

/-- A mapping in which the physical address seems to be gives it this address. -/
def DeviceTree.Range.translates (phys dma : ℕ) (mapping : Range) : Bool :=
  startsIn phys mapping &&
    decide (dma = (mapping.childAddress + (phys - mapping.parentAddress)) % 2 ^ 64)

/-- A buffer that is at a physical address is in one mapping, and so is all that the device gets to
by it; the mapping through which its address was translated, the first that gives it, has all
of it. -/
structure BufferRight (mappings : List Range) (phys : ℕ) (buffer : DmaBuffer) : Prop where
  inside : ∃ mapping ∈ mappings, mapping.HoldsBuffer phys buffer.size ∧
    ∀ k < buffer.size, mapping.Corresponds (buffer.dmaPtr + k) (phys + k)
  through : ∀ mapping, mappings.find? (Range.translates phys buffer.dmaPtr) = some mapping →
    mapping.HoldsBuffer phys buffer.size

section Dma

variable {mappings : List Range} {kmalloc : ℕ → ℕ → Option ℕ}
  {kernelVirtToPhys : ℕ → Option ℕ} {size align allocation phys : ℕ}

theorem DeviceTree.Range.HoldsBuffer.corresponds {mapping : Range}
    (holds : mapping.HoldsBuffer phys size) {k : ℕ} (hk : k < size) :
    mapping.Corresponds ((mapping.childAddress + (phys - mapping.parentAddress)) % 2 ^ 64 + k)
      (phys + k) := by
  obtain ⟨hstart, hend⟩ := holds
  refine ⟨phys - mapping.parentAddress + k, by omega, ?_, by omega⟩
  rw [Nat.mod_add_mod, Nat.add_assoc]

/-- The mapping that `allocate` stops at is the first that gives the address it returns. -/
theorem find?_translates {mapping : Range} (h : mappingFor mappings phys = some mapping) :
    mappings.find? (Range.translates phys
      ((mapping.childAddress + (phys - mapping.parentAddress)) % 2 ^ 64)) = some mapping := by
  obtain ⟨hstarts, before, after, rfl, hbefore⟩ := List.find?_eq_some_iff_append.mp h
  refine List.find?_eq_some_iff_append.mpr ⟨?_, before, after, rfl, fun other hother => ?_⟩
  · rw [Range.translates, hstarts, Bool.true_and, decide_eq_true_eq]
  · have hnot : startsIn phys other = false := by simpa using hbefore other hother
    rw [Range.translates, hnot, Bool.false_and]
    rfl

/-- **Each buffer** that is returned is right if the first mapping in which it seems to start, by an
end that is counted in and without its size, has all of it. -/
theorem allocateDma_right_iff (hkmalloc : kmalloc size align = some allocation)
    (hphys : kernelVirtToPhys allocation = some phys) :
    (∀ buffer, allocateDma mappings kmalloc kernelVirtToPhys size align = .ok buffer →
      BufferRight mappings phys buffer) ↔
    ∀ mapping, mappingFor mappings phys = some mapping → mapping.HoldsBuffer phys size := by
  unfold allocateDma
  rw [hkmalloc]
  dsimp only
  rw [hphys]
  dsimp only
  constructor
  · intro right mapping hmapping
    rw [hmapping] at right
    exact (right _ rfl).through mapping (find?_translates hmapping)
  · intro through buffer hbuffer
    cases hmapping : mappingFor mappings phys with
    | none =>
        rw [hmapping] at hbuffer
        cases hbuffer
    | some mapping =>
        rw [hmapping] at hbuffer
        cases hbuffer
        have holds := through mapping hmapping
        refine ⟨⟨mapping, List.mem_of_find?_eq_some hmapping, holds, fun k => holds.corresponds⟩,
          fun other hother => ?_⟩
        obtain rfl := Option.some_inj.mp ((find?_translates hmapping).symm.trans hother)
        exact holds

/-- A board with the memory of 256 MiB at 0x40000000, which devices have at 0xC0000000. -/
def boardMappings : List Range := [⟨0xC0000000, 0x40000000, 0x10000000⟩]

theorem allocateDma_right_board : ∃ buffer,
    allocateDma boardMappings (fun _ _ => some 0xFFFF000040080000)
        (fun virt => some (virt - 0xFFFF000000000000)) 0x1000 0x40 = .ok buffer ∧
      BufferRight boardMappings 0x40080000 buffer := by
  refine ⟨⟨0xFFFF000040080000, 0x1000, 0xC0080000⟩, by decide +kernel, ?_⟩
  refine (@allocateDma_right_iff boardMappings (fun _ _ => some 0xFFFF000040080000)
    (fun virt => some (virt - 0xFFFF000000000000)) 0x1000 0x40 _ _ rfl (by decide)).mpr
      (fun mapping hmapping => ?_) _ (by decide +kernel)
  cases hmapping
  decide

/-- The memory in two pieces; a buffer at the start of the second gets an address of the first. -/
theorem allocateDma_right_fails :
    (allocateDma [⟨0xC0000000, 0x40000000, 0x10000000⟩, ⟨0x10000000, 0x50000000, 0x10000000⟩]
        (fun _ _ => some 0xFFFF000050000000)
        (fun virt => some (virt - 0xFFFF000000000000)) 0x1000 0x40 =
      .ok ⟨0xFFFF000050000000, 0x1000, 0xD0000000⟩) ∧
    ¬ BufferRight
        [⟨0xC0000000, 0x40000000, 0x10000000⟩, ⟨0x10000000, 0x50000000, 0x10000000⟩]
        0x50000000 ⟨0xFFFF000050000000, 0x1000, 0xD0000000⟩ := by
  refine ⟨by decide +kernel, fun right => ?_⟩
  exact absurd (right.through _ rfl) (by decide)

end Dma

end BekOS
