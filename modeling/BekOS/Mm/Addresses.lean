import BekOS.Mm.PageAllocator

/-!
# User addresses and regions

`UserRegion` has a start and a size in 64-bit words, and its `end` is their sum in
64-bit words as well: it wraps around.  The comparisons of the source compare such
ends.  The lemmas say when they are the comparisons of the intervals of integers
`[start, start + size)` that they stand for.
-/

namespace BekOS

/-! ## Arithmetic -/

/-- `PAGE_SIZE` -/
def pageSize : U64 := 4096

/-- `USER_ADDR_MAX` -/
def userAddrMax : U64 := 0x0000FFFFFFFFFFFF

/-- `bek::ceil_div` -/
def ceilDiv (a b : U64) : U64 := (a + b - 1) / b

/-- `bek::align_up` -/
def alignUp (a alignment : U64) : U64 := ceilDiv a alignment * alignment

@[simp] theorem toNat_pageSize : pageSize.toNat = 4096 := rfl

@[simp] theorem toNat_userAddrMax : userAddrMax.toNat = 2 ^ 48 - 1 := rfl

theorem toNat_ceilDiv_pageSize {a : U64} (h : a.toNat + 4095 < 2 ^ 64) :
    (ceilDiv a pageSize).toNat = (a.toNat + 4095) / 4096 := by
  have hsum : (a + pageSize - 1).toNat = a.toNat + 4095 := by
    unfold pageSize
    bv_omega
  rw [ceilDiv, BitVec.toNat_udiv, hsum, toNat_pageSize]

/-! ## Regions -/

/-- `mem::UserRegion` -/
structure UserRegion where
  start : U64
  size : U64
  deriving DecidableEq, Repr

namespace UserRegion

/-- `end` -/
def endPtr (region : UserRegion) : U64 := region.start + region.size

/-- `overlaps` -/
def overlaps (region other : UserRegion) : Bool :=
  other.start < region.endPtr && other.endPtr > region.start

/-- `contains` -/
def contains (region other : UserRegion) : Bool :=
  other.start ≥ region.start && other.endPtr ≤ region.endPtr

/-- `page_aligned` -/
def pageAligned (region : UserRegion) : Bool :=
  region.start % pageSize == 0 && region.size % pageSize == 0

/-- The end as an integer. -/
def limit (region : UserRegion) : ℕ := region.start.toNat + region.size.toNat

/-- The address is one of the region's, as integers. -/
def Covers (region : UserRegion) (address : ℕ) : Prop :=
  region.start.toNat ≤ address ∧ address < region.limit
deriving Decidable

/-- The region does not wrap around the address space. -/
def Fits (region : UserRegion) : Prop := region.limit < 2 ^ 64
deriving Decidable

variable {region other : UserRegion}

theorem toNat_endPtr (region : UserRegion) : region.endPtr.toNat = region.limit % 2 ^ 64 :=
  BitVec.toNat_add _ _

theorem Fits.toNat_endPtr (fits : region.Fits) : region.endPtr.toNat = region.limit := by
  rw [UserRegion.toNat_endPtr, Nat.mod_eq_of_lt fits]

theorem toNat_endPtr_of_not_fits (h : ¬ region.Fits) :
    region.endPtr.toNat = region.limit - 2 ^ 64 := by
  have hlimit : region.limit < 2 ^ 64 + 2 ^ 64 := Nat.add_lt_add region.start.isLt region.size.isLt
  unfold Fits at h
  rw [UserRegion.toNat_endPtr]
  omega

theorem contains_iff (region other : UserRegion) :
    region.contains other = true ↔
      region.start.toNat ≤ other.start.toNat ∧ other.endPtr.toNat ≤ region.endPtr.toNat := by
  rw [contains, Bool.and_eq_true, decide_eq_true_iff, decide_eq_true_iff]
  rfl

theorem overlaps_iff (fits : region.Fits) (fits' : other.Fits) :
    region.overlaps other = true ↔
      other.start.toNat < region.limit ∧ region.start.toNat < other.limit := by
  rw [overlaps, Bool.and_eq_true, decide_eq_true_iff, decide_eq_true_iff, gt_iff_lt,
    BitVec.lt_def, BitVec.lt_def, fits.toNat_endPtr, fits'.toNat_endPtr]

theorem pageAligned_iff (region : UserRegion) :
    region.pageAligned = true ↔
      region.start.toNat % 4096 = 0 ∧ region.size.toNat % 4096 = 0 := by
  have hmod : ∀ a : U64, (a % pageSize == 0) = true ↔ a.toNat % 4096 = 0 := fun a => by
    rw [beq_iff_eq, ← BitVec.toNat_inj, BitVec.toNat_umod, toNat_pageSize]
    rfl
  rw [pageAligned, Bool.and_eq_true, hmod, hmod]

end UserRegion

end BekOS
