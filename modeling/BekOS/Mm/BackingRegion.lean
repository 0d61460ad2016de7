import BekOS.Arch.TranslationTables
import BekOS.Library.KernelError
import BekOS.Mm.Addresses

/-!
# Backing regions

A `BackingRegion` is physically contiguous memory that user regions are mapped
onto: an allocation of the page allocator, or the memory of a device.  The two
classes map and unmap alike; they differ in the memory type of the mapping.

Backing regions are compared by identity (`shared_ptr` compares pointers), so each
has the address of its object.  That it lies in physical memory is a field.
-/

namespace BekOS

/-! ## Permissions and attributes -/

/-- `MemoryOperation`, a set of flags -/
abbrev MemoryOperation := BitVec 3

namespace MemoryOperation

def none : MemoryOperation := 0
def read : MemoryOperation := 1
def write : MemoryOperation := 2
def execute : MemoryOperation := 4

end MemoryOperation

/-- `PageAttributes::UnprivilegedExecuteNever` -/
def unprivilegedExecuteNever : U64 := 1 <<< 54

/-- `PageAttributes::PrivilegedExecuteNever` -/
def privilegedExecuteNever : U64 := 1 <<< 53

/-- `PageAttributes::AF` -/
def accessFlag : U64 := 1 <<< 10

/-- `PageAttributes::ReadOnly` -/
def readOnly : U64 := 1 <<< 7

/-- `PageAttributes::EL0Access` -/
def el0Access : U64 := 1 <<< 6

/-- `attributes_for_user` -/
def attributesForUser (readable writeable executable : Bool) : U64 :=
  let attrs := accessFlag ||| privilegedExecuteNever
  let attrs := if readable || writeable then attrs ||| el0Access else attrs
  let attrs := if !writeable then attrs ||| readOnly else attrs
  if !executable then attrs ||| unprivilegedExecuteNever else attrs

/-- `MemAttributeIndex` -/
inductive MemAttributeIndex where
  | NormalRAM
  | mmio
  deriving DecidableEq, Repr

/-- The index of a memory type in the `MAIR` register. -/
def MemAttributeIndex.toU64 : MemAttributeIndex → U64
  | NormalRAM => 1
  | mmio => 0

/-! ## Backing regions -/

/-- The classes of backing region. -/
inductive BackingKind where
  | userOwnedAllocation
  | deviceBackedRegion
  deriving DecidableEq, Repr

/-- `mem::BackingRegion`: the object's address, its class, and its memory. -/
structure BackingRegion where
  object : ℕ
  kind : BackingKind
  physicalPtr : U64
  size : U64
  inMemory : physicalPtr.toNat + size.toNat ≤ 2 ^ 48
  deriving DecidableEq

section Mapping

variable {σ : Type} (source : TableSource σ)

/-- `map_into_table` of a class with the given memory type. -/
def mapWith (attrIdx : MemAttributeIndex) (backing : BackingRegion) (root : Page)
    (state : TableState σ) (userRegion : UserRegion) (offset : U64)
    (readable writable executable : Bool) : Except Fault (TableState σ × ErrorCode) := do
  verify (userRegion.pageAligned ∧ offset % pageSize = 0 ∧
    userRegion.size + offset ≤ backing.size)
  match mapRegion source root state userRegion.start backing.physicalPtr userRegion.size
      (attributesForUser readable writable executable) attrIdx.toU64 with
  | some (state, done) => .ok (state, if done then .ESUCCESS else .EFAIL)
  | none => .error .panic

/-- `UserOwnedAllocation::map_into_table` -/
def userOwnedMapIntoTable := mapWith source .NormalRAM

/-- `DeviceBackedRegion::map_into_table` -/
def deviceBackedMapIntoTable := mapWith source .mmio

/-- `map_into_table`, by class -/
def mapIntoTable (backing : BackingRegion) :
    Page → TableState σ → UserRegion → U64 → Bool → Bool → Bool →
      Except Fault (TableState σ × ErrorCode) :=
  match backing.kind with
  | .userOwnedAllocation => userOwnedMapIntoTable source backing
  | .deviceBackedRegion => deviceBackedMapIntoTable source backing

/-- `unmap_from_table`, the same in both classes -/
def unmapFromTable (backing : BackingRegion) (root : Page) (state : TableState σ)
    (userRegion : UserRegion) (offset : U64) : Except Fault (TableState σ × ErrorCode) := do
  verify (userRegion.pageAligned ∧ offset % pageSize = 0 ∧
    userRegion.size + offset ≤ backing.size)
  match unmapRegion source root state userRegion.start userRegion.size with
  | (state, true) => .ok (state, .ESUCCESS)
  | (state, false) => .ok (state, .EFAIL)

end Mapping

/-- The memory type of a class. -/
def BackingKind.attrIdx : BackingKind → MemAttributeIndex
  | userOwnedAllocation => .NormalRAM
  | deviceBackedRegion => .mmio

theorem mapIntoTable_eq {σ : Type} (source : TableSource σ) (backing : BackingRegion) :
    mapIntoTable source backing = mapWith source backing.kind.attrIdx backing := by
  unfold mapIntoTable BackingKind.attrIdx
  cases backing.kind <;> rfl

/-! ## Allocation -/

/-- The physical address of a page. -/
def Page.address (page : Page) : U64 := page.setWidth 64 <<< 12

theorem Page.toNat_address (page : Page) : page.address.toNat = page.toNat * 4096 := by
  have := page.isLt
  rw [Page.address, BitVec.toNat_shiftLeft, BitVec.toNat_setWidth, Nat.shiftLeft_eq]
  omega

theorem allocation_inMemory {page : Page} {pages : U64}
    (h : 0 < pages.toNat ∧ page.toNat + pages.toNat ≤ 2 ^ 36) :
    page.address.toNat + (pages * pageSize).toNat ≤ 2 ^ 48 := by
  rw [Page.toNat_address, BitVec.toNat_mul, toNat_pageSize]
  omega

/-- `UserOwnedAllocation::create_contiguous`; `object` is where the new object goes. -/
def createContiguous {σ : Type} (source : TableSource σ) (state : TableState σ) (pages : U64)
    (object : ℕ) : TableState σ × Except ErrorCode BackingRegion :=
  match h : source.allocateRegion state.pageAllocator pages.toNat with
  | none => (state, .error .ENOMEM)
  | some (page, pageAllocator) =>
      ({ state with pageAllocator := pageAllocator },
        .ok
          { object
            kind := .userOwnedAllocation
            physicalPtr := page.address
            size := pages * pageSize
            inMemory := allocation_inMemory (source.allocate_bounds h) })

end BekOS
