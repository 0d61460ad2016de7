import BekOS.Mm.ForkedMemory
import BekOS.Mm.PlaceHints

/-!
# Hints to `sys_allocate`

`sys_allocate` tests one bit of the address it is given, and leaves the rest to `place_region`.
What it is to do with an address follows from what `place_region` does with the allocation; in
every address space that its calls make, it does it for exactly the addresses that the bit tells
apart.
-/

namespace BekOS

open PartialRun

/-! ## What a call is to do -/

section Calls

variable {σ : Type} (source : TableSource σ) (space : SpaceManager σ)

/-- The hint that `sys_allocate` gives. -/
def allocateHint (address : U64) : Option U64 :=
  if address ≠ invalidAddressVal then some address else none

/-- There is memory for an allocation: of whole pages, no more than the limit, and the page
allocator has them. -/
def HasMemory (size : U64) : Prop :=
  size ≤ maximumAllocationSize ∧ size % pageSize = 0 ∧
    source.allocateRegion space.tables.pageAllocator (size / pageSize).toNat ≠ none

/-- There is no page for a table once `sys_allocate` has its allocation. -/
def AllocationOutOfTables (address size : U64) (object : ℕ) : Prop :=
  ∃ tables allocation,
    createContiguous source space.tables (size / pageSize) object = (tables, .ok allocation) ∧
      OutOfTables source { space with tables }
        (desiredRegion space.regions (allocateHint address) size) (.read ||| .write) allocation

/-- What a call of `sys_allocate` is to do. -/
structure AllocatesRight (address size : U64) (object : ℕ) : Prop where
  /-- No assertion fails, unless there is no page for a table. -/
  verified : sysAllocate source space address size object = .error .panic →
    AllocationOutOfTables source space address size object
  /-- A misaligned hint is refused. -/
  refused : address ≠ invalidAddressVal → address.toNat % 4096 ≠ 0 → ∃ after code,
    sysAllocate source space address size object = .ok (after, .error code)
  /-- A page-aligned hint that fits and is free is accepted where there is memory, unless there
  is no page for a table. -/
  accepted : address ≠ invalidAddressVal → address.toNat % 4096 = 0 →
    HasMemory source space size → (⟨address, size⟩ : UserRegion).InUserSpace →
    (⟨address, size⟩ : UserRegion).Free space.regions →
    (∃ after, sysAllocate source space address size object = .ok (after, .ok address)) ∨
      sysAllocate source space address size object = .error .panic

/-- What `sys_allocate` has to be given: a misaligned hint only where it shows in the bit that is
tested, or where no place is found for it; an aligned one with that bit clear, in a range that
does not end where user space does and does not come before the regions. -/
structure AllocatesWell (address size : U64) (object : ℕ) : Prop where
  refused : address ≠ invalidAddressVal → address.toNat % 4096 ≠ 0 →
    HasMemory source space size → address &&& pageSize = 0 →
    ¬ FindsPlace space.regions (some address) size
  inside : address ≠ invalidAddressVal → address.toNat % 4096 = 0 →
    HasMemory source space size → (⟨address, size⟩ : UserRegion).InUserSpace →
    (⟨address, size⟩ : UserRegion).Free space.regions →
    address &&& pageSize = 0 ∧ (⟨address, size⟩ : UserRegion).limit ≤ userAddrMax.toNat ∧
      ((⟨address, size⟩ : UserRegion).GoesFirst space.regions →
        AllocationOutOfTables source space address size object)

end Calls

/-! ## How `sys_allocate` ends -/

section Allocate

variable {σ : Type} {source : TableSource σ} {space : SpaceManager σ} {address size : U64}
  {object : ℕ}

/-- The bit of the address that `sys_allocate` tests is set. -/
def TestedBit (address : U64) : Prop := address ≠ invalidAddressVal ∧ address &&& pageSize ≠ 0

theorem allocateHint_eq_some {hint : U64} :
    allocateHint address = some hint ↔ address ≠ invalidAddressVal ∧ hint = address := by
  unfold allocateHint
  split_ifs with h
  · rw [Option.some_inj]
    exact ⟨fun heq => ⟨h, heq.symm⟩, fun heq => heq.2.symm⟩
  · exact iff_of_false nofun fun heq => h heq.1

theorem desiredRegion_of_whole (regions : List UserspaceRegion) (location : Option U64)
    (hle : size.toNat ≤ 2 ^ 48) (h : size.toNat % 4096 = 0) :
    desiredRegion regions location size = ⟨placeLocation regions location, size⟩ := by
  have hsize : ceilDiv size pageSize * pageSize = size := by
    rw [← BitVec.toNat_inj, BitVec.toNat_mul, toNat_ceilDiv_pageSize (by omega), toNat_pageSize]
    omega
  rw [desiredRegion, hsize]

/-- What `sys_allocate` does with an allocation that has been placed, or has not. -/
def keepOrFree (source : TableSource σ) (allocation : BackingRegion)
    (placed : SpaceManager σ × Except ErrorCode UserRegion) :
    Except Fault (SpaceManager σ × Except ErrorCode U64) :=
  match placed.2 with
  | .error code =>
      .ok ({ placed.1 with tables := freeAllocation source placed.1.tables allocation },
        .error code)
  | .ok region => .ok (placed.1, .ok region.start)

theorem sysAllocate_of_checked (hlimit : size ≤ maximumAllocationSize)
    (hpages : size % pageSize = 0) (hbit : ¬ TestedBit address) :
    sysAllocate source space address size object =
      match createContiguous source space.tables (size / pageSize) object with
      | (tables, .error code) => .ok ({ space with tables }, .error code)
      | (tables, .ok allocation) =>
          placeRegion source { space with tables } (allocateHint address) (.read ||| .write)
              "Allocate" allocation >>= keepOrFree source allocation := by
  have hclear : ¬ (address ≠ invalidAddressVal ∧ address &&& pageSize ≠ 0) := hbit
  rw [sysAllocate, if_neg (BitVec.not_lt.mpr hlimit), if_neg (not_not.mpr hpages),
    if_neg hclear]
  rfl

theorem sysAllocate_refused (object : ℕ)
    (h : ¬ HasMemory source space size ∨ TestedBit address) :
    ∃ code, sysAllocate source space address size object = .ok (space, .error code) := by
  by_cases hlimit : size > maximumAllocationSize
  · exact ⟨_, if_pos hlimit⟩
  by_cases hpages : size % pageSize ≠ 0
  · exact ⟨_, (if_neg hlimit).trans (if_pos hpages)⟩
  by_cases hbit : TestedBit address
  · exact ⟨_, (if_neg hlimit).trans ((if_neg hpages).trans (if_pos hbit))⟩
  rw [not_not] at hpages
  have hnone : source.allocateRegion space.tables.pageAllocator (size / pageSize).toNat =
      none := by
    rcases h with hnot | htested
    · by_contra hsome
      exact hnot ⟨BitVec.not_lt.mp hlimit, hpages, hsome⟩
    · exact absurd htested hbit
  rcases createContiguous_cases source space.tables (size / pageSize) object with
    ⟨-, hcreate⟩ | ⟨page, pageAllocator, allocation, hsome, -⟩
  · rw [sysAllocate_of_checked (BitVec.not_lt.mp hlimit) hpages hbit, hcreate]
    exact ⟨_, rfl⟩
  · rw [hnone] at hsome
    cases hsome

/-- **What `sys_allocate` does when it returns**: it refuses, and nothing has happened, or it
places an allocation of that size; one that was not placed is freed. -/
theorem sysAllocate_cases {after : SpaceManager σ} {result : Except ErrorCode U64}
    (h : sysAllocate source space address size object = .ok (after, result)) :
    after = space ∨ ∃ page pageAllocator allocation placed answer,
      source.allocateRegion space.tables.pageAllocator (size / pageSize).toNat =
        some (page, pageAllocator) ∧
      allocation.physicalPtr = page.address ∧
      allocation.size = size ∧ size.toNat = (size / pageSize).toNat * 4096 ∧
      allocation.object = object ∧
      placeRegion source { space with tables := { space.tables with pageAllocator } }
        (allocateHint address) (.read ||| .write) "Allocate" allocation = .ok (placed, answer) ∧
      ((∃ code, answer = .error code ∧
          after = { placed with tables := freeAllocation source placed.tables allocation }) ∨
        (∃ region, answer = .ok region) ∧ after = placed) := by
  by_cases hrefused : ¬ HasMemory source space size ∨ TestedBit address
  · obtain ⟨code, heq⟩ := sysAllocate_refused object hrefused
    rw [heq] at h
    cases h
    exact Or.inl rfl
  obtain ⟨granted, hbit⟩ := not_or.mp hrefused
  obtain ⟨hlimit, hpages, -⟩ := not_not.mp granted
  rw [sysAllocate_of_checked hlimit hpages hbit] at h
  have hwhole : size.toNat = (size / pageSize).toNat * 4096 := by
    have hmod := congrArg BitVec.toNat hpages
    rw [BitVec.toNat_umod, toNat_pageSize] at hmod
    rw [BitVec.toNat_udiv, toNat_pageSize]
    have hzero : (0 : U64).toNat = 0 := rfl
    omega
  rcases createContiguous_cases source space.tables (size / pageSize) object with
    ⟨-, hnone⟩ | ⟨page, pageAllocator, allocation, halloc, hcreate, -, hphys, hsize, hobject⟩
  · rw [hnone] at h
    cases h
    exact Or.inl rfl
  · rw [hcreate] at h
    obtain ⟨⟨placed, answer⟩, hplace, hkeep⟩ := bind_eq_ok.mp h
    have hsize' : allocation.size = size := by
      rw [hsize, ← BitVec.toNat_inj, toNat_pages_mul, hwhole.symm]
    refine Or.inr ⟨page, pageAllocator, allocation, placed, answer, halloc, hphys, hsize', hwhole,
      hobject, hplace, ?_⟩
    cases answer with
    | error code =>
        cases hkeep
        exact Or.inl ⟨code, rfl, rfl⟩
    | ok region =>
        cases hkeep
        exact Or.inr ⟨⟨region, rfl⟩, rfl⟩

/-- The call has an allocation, and goes on to place it. -/
structure Allocating (source : TableSource σ) (space : SpaceManager σ) (address size : U64)
    (object : ℕ) (tables : TableState σ) (allocation : BackingRegion) : Prop where
  created : createContiguous source space.tables (size / pageSize) object =
    (tables, .ok allocation)
  whole : size.toNat % 4096 = 0
  size_eq : allocation.size = size
  page : allocation.physicalPtr.toNat % 4096 = 0
  ok : SpaceOk source { space with tables }
  handedOut : ∃ page pageAllocator,
    source.allocateRegion space.tables.pageAllocator (size / pageSize).toNat =
      some (page, pageAllocator) ∧ tables = { space.tables with pageAllocator } ∧
      allocation.physicalPtr = page.address
  goesOn : sysAllocate source space address size object =
    (placeRegion source { space with tables } (allocateHint address) (.read ||| .write)
      "Allocate" allocation >>= keepOrFree source allocation)

theorem sysAllocate_allocating (ok : SpaceOk source space) (object : ℕ)
    (granted : HasMemory source space size) (hbit : ¬ TestedBit address) :
    ∃ tables allocation, Allocating source space address size object tables allocation := by
  obtain ⟨hlimit, hpages, hsome⟩ := granted
  have hwhole : size.toNat % 4096 = 0 := by
    have hmod := congrArg BitVec.toNat hpages
    rwa [BitVec.toNat_umod, toNat_pageSize] at hmod
  rcases createContiguous_cases source space.tables (size / pageSize) object with
    ⟨hnone, -⟩ | ⟨page, pageAllocator, allocation, halloc, hcreate, -, hphys, hsize, -⟩
  · exact absurd hnone hsome
  · refine ⟨_, allocation, hcreate, hwhole, ?_, ?_, ok.undisturbed
      (undisturbed_allocateRegion ok.tree halloc), ⟨page, pageAllocator, halloc, rfl, hphys⟩, ?_⟩
    · rw [hsize, ← BitVec.toNat_inj, toNat_pages_mul, BitVec.toNat_udiv, toNat_pageSize]
      omega
    · rw [hphys, Page.toNat_address, Nat.mul_mod_left]
    · rw [sysAllocate_of_checked hlimit hpages hbit, hcreate]

section Placing

variable {tables : TableState σ} {allocation : BackingRegion}

theorem Allocating.panics_iff
    (allocating : Allocating source space address size object tables allocation) :
    sysAllocate source space address size object = .error .panic ↔
      placeRegion source { space with tables } (allocateHint address) (.read ||| .write)
        "Allocate" allocation = .error .panic := by
  rw [allocating.goesOn, bind_eq_error]
  refine or_iff_left ?_
  rintro ⟨⟨placed, result⟩, -, hkeep⟩
  cases result with
  | error code => cases hkeep
  | ok region => cases hkeep

theorem Allocating.refuses_iff
    (allocating : Allocating source space address size object tables allocation) :
    (∃ after code, sysAllocate source space address size object = .ok (after, .error code)) ↔
      ∃ after code, placeRegion source { space with tables } (allocateHint address)
        (.read ||| .write) "Allocate" allocation = .ok (after, .error code) := by
  rw [allocating.goesOn]
  constructor
  · rintro ⟨after, code, h⟩
    obtain ⟨⟨placed, result⟩, hplace, hkeep⟩ := bind_eq_ok.mp h
    cases result with
    | error refusal => exact ⟨placed, refusal, hplace⟩
    | ok region => cases hkeep
  · rintro ⟨after, code, h⟩
    rw [h]
    exact ⟨_, code, rfl⟩

theorem Allocating.desiredRegion_eq
    (allocating : Allocating source space address size object tables allocation)
    (location : Option U64) : desiredRegion space.regions location size =
      ⟨placeLocation space.regions location, size⟩ := by
  have hframes := allocation.inMemory
  rw [allocating.size_eq] at hframes
  exact desiredRegion_of_whole _ _ (by omega) allocating.whole

theorem Allocating.accepts_iff
    (allocating : Allocating source space address size object tables allocation)
    (hvalid : address ≠ invalidAddressVal) :
    (∃ after, sysAllocate source space address size object = .ok (after, .ok address)) ↔
      ∃ after, placeRegion source { space with tables } (allocateHint address)
        (.read ||| .write) "Allocate" allocation =
          .ok (after, .ok (desiredRegion space.regions (allocateHint address) size)) := by
  have hhint : allocateHint address = some address := allocateHint_eq_some.mpr ⟨hvalid, rfl⟩
  have hsame : (desiredRegion space.regions (allocateHint address) size).start = address := by
    rw [hhint]
    rfl
  rw [allocating.goesOn]
  constructor
  · rintro ⟨after, h⟩
    obtain ⟨⟨placed, result⟩, hplace, hkeep⟩ := bind_eq_ok.mp h
    rcases placeRegion_cases hplace with ⟨code, _, -, rfl, -⟩ | ⟨_, _, -, -, -, rfl⟩
    · cases hkeep
    · refine ⟨placed, hplace.trans ?_⟩
      rw [allocating.size_eq]
  · rintro ⟨after, h⟩
    rw [h]
    exact ⟨after, congrArg (fun start => Except.ok (after, Except.ok start)) hsame⟩

theorem Allocating.outOfTables_iff
    (allocating : Allocating source space address size object tables allocation) :
    AllocationOutOfTables source space address size object ↔
      OutOfTables source { space with tables }
        (desiredRegion space.regions (allocateHint address) allocation.size) (.read ||| .write)
        allocation := by
  rw [allocating.size_eq]
  constructor
  · rintro ⟨tables', allocation', hcreate, hout⟩
    rw [allocating.created] at hcreate
    cases hcreate
    exact hout
  · exact fun hout => ⟨tables, allocation, allocating.created, hout⟩

theorem Allocating.range_eq
    (allocating : Allocating source space address size object tables allocation)
    (hvalid : address ≠ invalidAddressVal) :
    desiredRegion space.regions (allocateHint address) allocation.size = ⟨address, size⟩ := by
  rw [allocating.size_eq, allocating.desiredRegion_eq,
    allocateHint_eq_some.mpr ⟨hvalid, rfl⟩]
  rfl

theorem Allocating.right_iff
    (allocating : Allocating source space address size object tables allocation)
    (granted : HasMemory source space size) :
    AllocatesRight source space address size object ↔
      PlacesRight source { space with tables } (allocateHint address) (.read ||| .write)
        "Allocate" allocation := by
  constructor
  · intro right
    refine ⟨fun hpanic => ?_, fun hint hhint hmisaligned => ?_,
      fun hint hhint haligned inside free => ?_⟩
    · exact allocating.outOfTables_iff.mp (right.verified (allocating.panics_iff.mpr hpanic))
    · obtain ⟨hvalid, rfl⟩ := allocateHint_eq_some.mp hhint
      exact allocating.refuses_iff.mp (right.refused hvalid hmisaligned)
    · obtain ⟨hvalid, rfl⟩ := allocateHint_eq_some.mp hhint
      have hrange := allocating.range_eq hvalid
      rw [← allocating.panics_iff]
      refine (right.accepted hvalid haligned granted (hrange ▸ inside) (hrange ▸ free)).imp_left
        fun haccepted => ?_
      have hplaced := (allocating.accepts_iff hvalid).mp haccepted
      rwa [← allocating.size_eq] at hplaced
  · intro right
    refine ⟨fun hpanic => ?_, fun hvalid hmisaligned => ?_,
      fun hvalid haligned _ inside free => ?_⟩
    · exact allocating.outOfTables_iff.mpr (right.verified (allocating.panics_iff.mp hpanic))
    · exact allocating.refuses_iff.mpr
        (right.refused address (allocateHint_eq_some.mpr ⟨hvalid, rfl⟩) hmisaligned)
    · have hrange := allocating.range_eq hvalid
      rw [allocating.accepts_iff hvalid, allocating.panics_iff, ← allocating.size_eq]
      exact right.accepted address (allocateHint_eq_some.mpr ⟨hvalid, rfl⟩) haligned
        (hrange ▸ inside) (hrange ▸ free)

theorem Allocating.well_iff
    (allocating : Allocating source space address size object tables allocation)
    (granted : HasMemory source space size) (hbit : ¬ TestedBit address) :
    AllocatesWell source space address size object ↔
      PlacesWell source { space with tables } (allocateHint address) (.read ||| .write)
        allocation := by
  have hclear : address ≠ invalidAddressVal → address &&& pageSize = 0 := fun hvalid => by
    by_contra hset
    exact hbit ⟨hvalid, hset⟩
  constructor
  · intro well
    refine ⟨fun finds => ⟨fun hint hhint => ?_, ?_⟩, fun hint hhint haligned inside free => ?_⟩
    · obtain ⟨hvalid, rfl⟩ := allocateHint_eq_some.mp hhint
      by_contra hmisaligned
      rw [hhint, allocating.size_eq] at finds
      exact well.refused hvalid hmisaligned granted (hclear hvalid) finds
    · rw [allocating.size_eq]
      exact allocating.whole
    · obtain ⟨hvalid, rfl⟩ := allocateHint_eq_some.mp hhint
      have hrange := allocating.range_eq hvalid
      obtain ⟨-, hlimit, hfirst⟩ :=
        well.inside hvalid haligned granted (hrange ▸ inside) (hrange ▸ free)
      refine ⟨hrange ▸ hlimit, allocating.page, fun first => ?_⟩
      exact allocating.outOfTables_iff.mp (hfirst (hrange ▸ first))
  · intro well
    refine ⟨fun hvalid hmisaligned _ _ finds => ?_, fun hvalid haligned _ inside free => ?_⟩
    · have hhint : allocateHint address = some address := allocateHint_eq_some.mpr ⟨hvalid, rfl⟩
      refine hmisaligned ((well.whole ?_).1 address hhint)
      rw [hhint, allocating.size_eq]
      exact finds
    · have hrange := allocating.range_eq hvalid
      obtain ⟨hlimit, -, hfirst⟩ := well.inside address (allocateHint_eq_some.mpr ⟨hvalid, rfl⟩)
        haligned (hrange ▸ inside) (hrange ▸ free)
      refine ⟨hclear hvalid, hrange ▸ hlimit, fun first => ?_⟩
      exact allocating.outOfTables_iff.mpr (hfirst (hrange ▸ first))

end Placing

/-- **`sys_allocate` does what it is to do** exactly when it is given what it has to be. -/
theorem allocatesRight_iff (ok : SpaceOk source space) :
    AllocatesRight source space address size object ↔
      AllocatesWell source space address size object := by
  by_cases granted : HasMemory source space size
  · by_cases hbit : TestedBit address
    · -- An error is returned, for an aligned hint as well.
      obtain ⟨code, heq⟩ := sysAllocate_refused object (Or.inr hbit)
      constructor
      · intro right
        refine ⟨fun _ _ _ hclear => absurd hclear hbit.2,
          fun hvalid haligned _ inside free => ?_⟩
        rcases right.accepted hvalid haligned granted inside free with ⟨_, haccepted⟩ | hpanic
        · rw [heq] at haccepted
          cases haccepted
        · rw [heq] at hpanic
          cases hpanic
      · intro well
        refine ⟨fun hpanic => ?_, fun _ _ => ⟨space, code, heq⟩,
          fun hvalid haligned _ inside free => ?_⟩
        · rw [heq] at hpanic
          cases hpanic
        · exact absurd (well.inside hvalid haligned granted inside free).1 hbit.2
    · obtain ⟨tables, allocation, allocating⟩ := sysAllocate_allocating ok object granted hbit
      rw [allocating.right_iff granted, allocating.well_iff granted hbit]
      exact placesRight_iff allocating.ok
  · obtain ⟨code, heq⟩ := sysAllocate_refused object (Or.inl granted)
    refine iff_of_true ⟨fun hpanic => ?_, fun _ _ => ⟨space, code, heq⟩,
      fun _ _ h => absurd h granted⟩
      ⟨fun _ _ h => absurd h granted, fun _ _ h => absurd h granted⟩
    rw [heq] at hpanic
    cases hpanic

theorem sysAllocate_spaceOk {after : SpaceManager σ} {result : Except ErrorCode U64}
    (ok : SpaceOk source space) (noWrap : NoWrap (allocateHint address) size)
    (h : sysAllocate source space address size object = .ok (after, result)) :
    SpaceOk source after := by
  rcases sysAllocate_cases h with rfl |
    ⟨page, pageAllocator, allocation, placed, answer, halloc, hphys, hsize, -, -, hplace, hout⟩
  · exact ok
  obtain ⟨okPlaced, okFreed⟩ := ok.placeAllocated halloc hphys hplace (hsize ▸ noWrap)
  rcases hout with ⟨code, hanswer, rfl⟩ | ⟨-, rfl⟩
  · exact okFreed code hanswer
  · exact okPlaced

end Allocate

/-! ## Runs -/

section Runs

variable {σ : Type} {source : TableSource σ} {space space' : SpaceManager σ}

theorem SpaceOk.backingForFork (ok : SpaceOk source space) {region : UserspaceRegion}
    {object : ℕ} {tables : TableState σ} {result : Except ErrorCode BackingRegion}
    (h : BekOS.backingForFork source space.tables region object = (tables, result)) :
    SpaceOk source { space with tables } := by
  unfold BekOS.backingForFork at h
  split at h
  · split_ifs at h with hwrite
    · cases h
      exact ok
    · rcases createContiguous_cases source space.tables (region.backing.size / pageSize) object
        with ⟨-, hnone⟩ | ⟨page, pageAllocator, copy, halloc, hcreate, -⟩
      · rw [hnone] at h
        cases h
        exact ok
      · rw [hcreate] at h
        cases h
        exact ok.undisturbed (undisturbed_allocateRegion ok.tree halloc)
  · cases h
    exact ok

theorem cloneRegions_spaceOk (rest : List UserspaceRegion) :
    ∀ {clone out : SpaceManager σ} {object : ℕ}, SpaceOk source clone →
      RegionsOrdered (clone.regions ++ rest) →
      cloneRegions source rest clone object = .ok (out, .ESUCCESS) → SpaceOk source out := by
  induction rest with
  | nil =>
      intro clone out object ok _ h
      cases h
      exact ok
  | cons old rest ih =>
      intro clone out object ok ordered h
      rw [cloneRegions] at h
      cases hback : backingForFork source clone.tables old object with
      | mk tables result =>
        rw [hback] at h
        cases result with
        | error code =>
            obtain rfl := backingForFork_error hback
            cases h
        | ok backing =>
            obtain ⟨⟨tables', mapCode⟩, hmap, h⟩ := bind_eq_ok.mp h
            have okTables := ok.backingForFork hback
            have hordered : RegionsOrdered
                ((clone.regions ++ [{ old with backing }]) ++ rest) := by
              apply ordered.congr
              simp
            obtain ⟨-, happended⟩ := @SpaceOk.append _ _ _ _ _ okTables { old with backing }
              (hordered.sublist (List.sublist_append_left _ _)) hmap
            dsimp only at h
            split_ifs at h with hcode
            · exact absurd (congrArg Prod.snd (Except.ok.inj h)) hcode
            · exact ih (happended (not_not.mp hcode)) hordered h

/-- A call of a process, or a step of the rest of the kernel; a process that forks goes on as
its child. -/
inductive PlacingOp (σ : Type) where
  | allocate (address size : U64) (object : ℕ)
  | fork (object : ℕ)
  | call (op : SpaceOp σ)

/-- One call. -/
def placingStep (source : TableSource σ) (space : SpaceManager σ) :
    PlacingOp σ → Option (SpaceManager σ × Unit)
  | .allocate address size object =>
      (sysAllocate source space address size object).toOption.map fun out => (out.1, ())
  | .fork object =>
      (cloneForFork source space object).toOption.bind fun out =>
        if out.2 = .ESUCCESS then some (out.1, ()) else none
  | .call op => (spaceStep source space op).map fun out => (out.1, ())

/-- What keeps the tables as the list of regions describes them. -/
def PlacingOp.Safe (source : TableSource σ) (space : SpaceManager σ) : PlacingOp σ → Prop
  | .allocate address size _ => NoWrap (allocateHint address) size
  | .fork _ => BlankRoot source space.tables
  | .call op => op.Safe source space

theorem placingStep_spaceOk {op : PlacingOp σ} (ok : SpaceOk source space)
    (safe : op.Safe source space) (h : placingStep source space op = some (space', ())) :
    SpaceOk source space' := by
  cases op with
  | allocate address size object =>
      obtain ⟨⟨after, result⟩, hcall, heq⟩ := Option.map_eq_some_iff.mp h
      cases heq
      exact sysAllocate_spaceOk ok safe (toOption_eq_some.mp hcall)
  | fork object =>
      obtain ⟨⟨out, code⟩, hcall, hout⟩ := Option.bind_eq_some_iff.mp h
      dsimp only at hout
      split_ifs at hout with hcode
      cases hout
      subst hcode
      obtain ⟨clone, hcreate, hclone⟩ := bind_eq_ok.mp (toOption_eq_some.mp hcall)
      unfold SpaceManager.create at hcreate
      split at hcreate
      · cases hcreate
      · rename_i root pageAllocator halloc
        cases hcreate
        have okEmpty := SpaceOk.create ok.tree.embedded halloc (safe root pageAllocator halloc)
        exact cloneRegions_spaceOk space.regions okEmpty ok.ordered hclone
  | call op =>
      obtain ⟨⟨after, reply⟩, hcall, heq⟩ := Option.map_eq_some_iff.mp h
      cases heq
      exact spaceStep_spaceOk ok safe hcall

/-- **In every state that a run of safe calls reaches**, from tables that translate no user
address, `sys_allocate` and `place_region` do what they are to do exactly when they are given what
they have to be. -/
theorem run_placesRight (source : TableSource σ) (empty : space.regions = [])
    (tree : TreeOk source space.tables 3 space.root)
    (unmapped : ∀ virt, walk space.tables.mem .lower space.root virt = none)
    {ops : List (PlacingOp σ)}
    (safe : StepsMeet (placingStep source) (fun space op => op.Safe source space) space ops)
    {final : SpaceManager σ × List Unit}
    (hrun : runSteps (placingStep source) space ops = some final) :
    (∀ address size object, AllocatesRight source final.1 address size object ↔
        AllocatesWell source final.1 address size object) ∧
      ∀ location allowedOperations name backing,
        PlacesRight source final.1 location allowedOperations name backing ↔
          PlacesWell source final.1 location allowedOperations backing := by
  have hok : SpaceOk source final.1 := @runSteps_invariant _ _ _ _ _ (SpaceOk source)
    (fun _ _ _ ok hsafe hstep => placingStep_spaceOk ok hsafe hstep) _ _ _
    (SpaceOk.of_empty empty tree unmapped) safe hrun
  exact ⟨fun _ _ _ => allocatesRight_iff hok, fun _ _ _ _ => placesRight_iff hok⟩

end Runs

/-! ## Examples -/

/-- A page is allocated; then one goes behind it, and a device's page behind that. -/
theorem run_placesRight_pages : ∃ final,
    runSteps (placingStep TableSource.pool) ⟨[], 1, .empty samplePool⟩
      [.allocate 0x500000 0x1000 0] = some final ∧
    AllocatesRight TableSource.pool final.1 0x504000 0x1000 1 ∧
    PlacesRight TableSource.pool final.1 none (.read ||| .write) "framebuffer"
      ⟨1, .deviceBackedRegion, 0x8000, 0x1000, by decide⟩ := by
  have hruns : (runSteps (placingStep TableSource.pool) ⟨[], 1, .empty samplePool⟩
      [.allocate 0x500000 0x1000 0]).map (fun final => final.1.regions.map (·.userRegion)) =
      some [⟨0x500000, 0x1000⟩] := by decide +kernel
  obtain ⟨final, hrun, hregions⟩ := Option.map_eq_some_iff.mp hruns
  have hlisted : ∃ region ∈ final.1.regions, region.userRegion = ⟨0x500000, 0x1000⟩ := by
    rw [← List.mem_map, hregions]
    exact List.mem_singleton_self _
  have safe : StepsMeet (placingStep TableSource.pool)
      (fun space op => op.Safe TableSource.pool space) ⟨[], 1, .empty samplePool⟩
      [.allocate 0x500000 0x1000 0] :=
    ⟨show NoWrap (allocateHint 0x500000) 0x1000 by decide, fun _ _ => trivial⟩
  obtain ⟨hallocates, hplaces⟩ := run_placesRight TableSource.pool rfl TreeOk.samplePool
    (walk_empty _ _ _) safe hrun
  refine ⟨final, hrun, (hallocates _ _ _).mpr ⟨fun _ hmisaligned => ?_, fun _ _ _ _ _ => ?_⟩,
    (hplaces _ _ _ _).mpr ⟨fun _ => ⟨nofun, by decide⟩, nofun⟩⟩
  · exact absurd (by decide) hmisaligned
  · refine ⟨by decide, by decide, fun first => ?_⟩
    obtain ⟨region, hregion, hrange⟩ := hlisted
    have hbefore := first.2 region hregion
    rw [hrange] at hbefore
    exact absurd hbefore (by decide)

/-- In an empty address space: a hint one byte behind a page panics, one page further on it is
refused, and so does half a page of a device, at no hint at all. -/
theorem run_placesRight_fails :
    sysAllocate TableSource.pool ⟨[], 1, .empty samplePool⟩ 0x500001 0x1000 0 = .error .panic ∧
      ¬ AllocatesRight TableSource.pool ⟨[], 1, .empty samplePool⟩ 0x500001 0x1000 0 ∧
      ¬ AllocatesRight TableSource.pool ⟨[], 1, .empty samplePool⟩ 0x501000 0x1000 0 ∧
      ¬ PlacesRight TableSource.pool ⟨[], 1, .empty samplePool⟩ none (.read ||| .write)
        "framebuffer" ⟨1, .deviceBackedRegion, 0x8000, 0x800, by decide⟩ := by
  have hpanic : sysAllocate TableSource.pool ⟨[], 1, .empty samplePool⟩ 0x500001 0x1000 0 =
      .error .panic := by
    have hvalue : (sysAllocate TableSource.pool ⟨[], 1, .empty samplePool⟩ 0x500001 0x1000
        0).map (fun out => out.2.toOption) = .error .panic := by decide +kernel
    exact map_eq_error.mp hvalue
  refine ⟨hpanic, fun right => ?_, fun right => ?_, fun right => ?_⟩
  · obtain ⟨_, _, hrefused⟩ := right.refused (by decide) (by decide)
    rw [hpanic] at hrefused
    cases hrefused
  · have hvalue : (sysAllocate TableSource.pool ⟨[], 1, .empty samplePool⟩ 0x501000 0x1000
        0).map (fun out => out.2.toOption) = .ok none := by decide +kernel
    rcases right.accepted (by decide) (by decide) ⟨by decide, by decide, by decide⟩
      (by decide) nofun with ⟨_, haccepted⟩ | hpanics
    · rw [haccepted] at hvalue
      cases hvalue
    · rw [hpanics] at hvalue
      cases hvalue
  · have hpanics : placeRegion TableSource.pool ⟨[], 1, .empty samplePool⟩ none
        (.read ||| .write) "framebuffer" ⟨1, .deviceBackedRegion, 0x8000, 0x800, by decide⟩ =
          .error .panic := by
      have hvalue : (placeRegion TableSource.pool ⟨[], 1, .empty samplePool⟩ none
          (.read ||| .write) "framebuffer"
          ⟨1, .deviceBackedRegion, 0x8000, 0x800, by decide⟩).map
            (fun out => out.2.toOption) = .error .panic := by decide +kernel
      exact map_eq_error.mp hvalue
    exact absurd (right.verified hpanics).1.2 (by decide)

end BekOS
