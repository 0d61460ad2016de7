import BekOS.Mm.BackingRegion

/-!
# `SpaceManager`

The address space of a process: the list of its regions and its translation
tables.  The list is a `bek::vector`, whose `insert` cannot put an item first: its
loop counts an unsigned index down to the position it inserts at, and below zero
it does not stop.
-/

namespace BekOS

/-- `bek::vector::insert`.  The loop `for (uSize idx = size() - 1; i <= idx; idx--)`
moves the items from position `i` on up by one; for `i = 0` its condition always
holds, and it runs out of the array. -/
def vectorInsert {α : Type} (vector : List α) (i : ℕ) (item : α) : Except Fault (List α) := do
  verify (i < vector.length)
  if i = 0 then .error .outOfBounds else .ok (vector.insertIdx i item)

/-- `UserspaceRegion` -/
structure UserspaceRegion where
  userRegion : UserRegion
  backing : BackingRegion
  name : String
  permissions : MemoryOperation
  deriving DecidableEq

/-- `SpaceManager`: its regions, the root of its tables, and the memory they are in. -/
structure SpaceManager (σ : Type) where
  regions : List UserspaceRegion
  root : Page
  tables : TableState σ

/-- `virt_addr_start` -/
def virtAddrStart : U64 := 0x0000000000500000

/-- `check_region`: the first region that contains the range decides. -/
def checkRegion (regions : List UserspaceRegion) (location size : U64)
    (operation : MemoryOperation) : Bool :=
  match regions.find? fun region => region.userRegion.contains { start := location, size } with
  | some region => region.permissions &&& operation == operation
  | none => false

/-- `get_shareable_region`: the first region that contains the range must be the range. -/
def getShareableRegion (regions : List UserspaceRegion) (userRegion : UserRegion) :
    Except ErrorCode BackingRegion :=
  match regions.find? fun region => region.userRegion.contains userRegion with
  | some region =>
      if region.userRegion.start ≠ userRegion.start ∨ region.userRegion.size ≠ userRegion.size then
        .error .EINVAL
      else .ok region.backing
  | none => .error .EINVAL

/-- The loop of `place_region`: where the region goes, unless one overlaps it. -/
def insertPosition (desired : UserRegion) : List UserspaceRegion → Option ℕ
  | [] => some 0
  | region :: rest =>
      if region.userRegion.overlaps desired then none
      else if region.userRegion.start ≥ desired.endPtr then some 0
      else (insertPosition desired rest).map (· + 1)

/-- Where `place_region` puts a region: at the hint, or after the last region. -/
def placeLocation (regions : List UserspaceRegion) : Option U64 → U64
  | some location => location
  | none =>
      match regions.getLast? with
      | some last => alignUp last.userRegion.endPtr pageSize
      | none => virtAddrStart

/-- The range `place_region` asks for: as many pages as the backing region needs. -/
def desiredRegion (regions : List UserspaceRegion) (location : Option U64) (size : U64) :
    UserRegion where
  start := placeLocation regions location
  size := ceilDiv size pageSize * pageSize

/-- How `place_region` adds a region: `push_back` at the end, `insert` elsewhere. -/
def addRegion (regions : List UserspaceRegion) (i : ℕ) (region : UserspaceRegion) :
    Except Fault (List UserspaceRegion) :=
  if i = regions.length then .ok (regions ++ [region]) else vectorInsert regions i region

section Operations

variable {σ : Type} (source : TableSource σ)

/-- `place_region` -/
def placeRegion (space : SpaceManager σ) (location : Option U64)
    (allowedOperations : MemoryOperation) (name : String) (backing : BackingRegion) :
    Except Fault (SpaceManager σ × Except ErrorCode UserRegion) :=
  let desired := desiredRegion space.regions location backing.size
  if desired.start + backing.size > userAddrMax then .ok (space, .error .EINVAL)
  else
    match insertPosition desired space.regions with
    | none => .ok (space, .error .EADDRINUSE)
    | some i => do
        let (tables, code) ← mapIntoTable source backing space.root space.tables desired 0
          (allowedOperations &&& .read != .none) (allowedOperations &&& .write != .none)
          (allowedOperations &&& .execute != .none)
        if code ≠ .ESUCCESS then .ok ({ space with tables }, .error code)
        else
          let region : UserspaceRegion :=
            { userRegion := desired, backing, name, permissions := allowedOperations }
          let regions ← addRegion space.regions i region
          .ok ({ space with regions, tables }, .ok desired)

/-- `~UserOwnedAllocation` -/
def freeAllocation (state : TableState σ) (backing : BackingRegion) : TableState σ :=
  { state with
    pageAllocator :=
      source.freeRegion state.pageAllocator ((backing.physicalPtr >>> 12).setWidth 36) }

/-- `allocate_placed_region`; the allocation is freed again where placing it fails. -/
def allocatePlacedRegion (space : SpaceManager σ) (region : UserRegion)
    (allowedOperations : MemoryOperation) (name : String) (object : ℕ) :
    Except Fault (SpaceManager σ × Except ErrorCode BackingRegion) := do
  verify region.pageAligned
  match createContiguous source space.tables (region.size / pageSize) object with
  | (tables, .error code) => .ok ({ space with tables }, .error code)
  | (tables, .ok allocation) =>
      let (placed, result) ← placeRegion source { space with tables } region.start
        allowedOperations name allocation
      match result with
      | .error code =>
          .ok ({ placed with tables := freeAllocation source placed.tables allocation },
            .error code)
      | .ok _ => .ok (placed, .ok allocation)

/-- The region is the one at that location with that size. -/
def UserspaceRegion.isAt (location size : U64) (region : UserspaceRegion) : Bool :=
  region.userRegion.start == location && region.userRegion.size == size

/-- `deallocate_userspace_region`, by location: the first region that matches. -/
def deallocateUserspaceRegion (space : SpaceManager σ) (location size : U64) :
    Except Fault (SpaceManager σ × ErrorCode) :=
  match space.regions.find? (·.isAt location size) with
  | none => .ok (space, .EINVAL)
  | some region => do
      let (tables, code) ← unmapFromTable source region.backing space.root space.tables
        region.userRegion 0
      if code ≠ .ESUCCESS then .ok ({ space with tables }, code)
      else
        .ok ({ space with regions := space.regions.eraseP (·.isAt location size), tables },
          .ESUCCESS)

/-- `deallocate_userspace_region`, by backing region: it extracts one region with the
backing at a time until there is none. -/
def deallocateBacking (space : SpaceManager σ) (backing : BackingRegion) :
    SpaceManager σ × ErrorCode :=
  ({ space with regions := space.regions.filter (·.backing.object != backing.object) },
    .ESUCCESS)

/-- `SpaceManager::create`, by `TableManager::create_user_manager`: the root of its tables
is a page that holds what it held before. -/
def SpaceManager.create (tables : TableState σ) : Except Fault (SpaceManager σ) :=
  match source.allocateRegion tables.pageAllocator 1 with
  | none => .error .panic
  | some (root, pageAllocator) =>
      .ok { regions := [], root, tables := { tables with pageAllocator } }

/-- `BackingRegion::clone_for_fork`, by class: an allocation that may be written is copied,
anything else is shared. -/
def backingForFork (tables : TableState σ) (region : UserspaceRegion) (object : ℕ) :
    TableState σ × Except ErrorCode BackingRegion :=
  match region.backing.kind with
  | .userOwnedAllocation =>
      if region.permissions &&& .write = .none then (tables, .ok region.backing)
      else createContiguous source tables (region.backing.size / pageSize) object
  | .deviceBackedRegion => (tables, .ok region.backing)

/-- The loop of `clone_for_fork`; a copy of an allocation is numbered from `object` on. -/
def cloneRegions : List UserspaceRegion → SpaceManager σ → ℕ →
    Except Fault (SpaceManager σ × ErrorCode)
  | [], clone, _ => .ok (clone, .ESUCCESS)
  | old :: rest, clone, object =>
      match backingForFork source clone.tables old object with
      | (tables, .error code) => .ok ({ clone with tables }, code)
      | (tables, .ok backing) => do
          let regions := clone.regions ++ [{ old with backing }]
          let (tables, code) ← mapIntoTable source backing clone.root tables old.userRegion 0
            (old.permissions &&& .read != .none) (old.permissions &&& .write != .none)
            (old.permissions &&& .execute != .none)
          if code ≠ .ESUCCESS then .ok ({ clone with regions, tables }, code)
          else cloneRegions rest { clone with regions, tables } (object + 1)

/-- `clone_for_fork` -/
def cloneForFork (space : SpaceManager σ) (object : ℕ) :
    Except Fault (SpaceManager σ × ErrorCode) := do
  let clone ← SpaceManager.create source space.tables
  cloneRegions source space.regions clone object

/-! ## Runs -/

/-- A call of the address space; or a step of the rest of the kernel, which
allocates and frees pages (those of backing regions that nobody refers to any more
among them) and writes to memory. -/
inductive SpaceOp (σ : Type) where
  | placeRegion (location : Option U64) (allowedOperations : MemoryOperation) (name : String)
      (backing : BackingRegion)
  | allocatePlacedRegion (region : UserRegion) (allowedOperations : MemoryOperation)
      (name : String) (object : ℕ)
  | deallocateUserspaceRegion (location size : U64)
  | deallocateBacking (backing : BackingRegion)
  | others (tables : TableState σ)

/-- What a call answers. -/
inductive SpaceReply where
  | placed (result : Except ErrorCode UserRegion)
  | allocated (result : Except ErrorCode BackingRegion)
  | deallocated (code : ErrorCode)
  | none

/-- One call. -/
def spaceCall (space : SpaceManager σ) :
    SpaceOp σ → Except Fault (SpaceManager σ × SpaceReply)
  | .placeRegion location allowedOperations name backing =>
      (placeRegion source space location allowedOperations name backing).map fun out =>
        (out.1, .placed out.2)
  | .allocatePlacedRegion region allowedOperations name object =>
      (allocatePlacedRegion source space region allowedOperations name object).map fun out =>
        (out.1, .allocated out.2)
  | .deallocateUserspaceRegion location size =>
      (deallocateUserspaceRegion source space location size).map fun out =>
        (out.1, .deallocated out.2)
  | .deallocateBacking backing =>
      let out := deallocateBacking space backing
      .ok (out.1, .deallocated out.2)
  | .others tables => .ok ({ space with tables }, .none)

/-- One call, for runs: they stop at a fault. -/
def spaceStep (space : SpaceManager σ) (op : SpaceOp σ) :
    Option (SpaceManager σ × SpaceReply) :=
  (spaceCall source space op).toOption

end Operations

/-! ## What the calls do -/

section Cases

variable {σ : Type} {source : TableSource σ}

theorem mapIntoTable_cases {backing : BackingRegion} {root : Page} {state : TableState σ}
    {region : UserRegion} {readable writable executable : Bool}
    {out : TableState σ × ErrorCode}
    (h : mapIntoTable source backing root state region 0 readable writable executable = .ok out) :
    region.pageAligned = true ∧ region.size ≤ backing.size ∧
      ∃ done, mapRegion source root state region.start backing.physicalPtr region.size
          (attributesForUser readable writable executable) backing.kind.attrIdx.toU64 =
            some (out.1, done) ∧
        out.2 = if done then .ESUCCESS else .EFAIL := by
  rw [mapIntoTable_eq, mapWith, bind_eq_ok] at h
  obtain ⟨_, hverify, hmap⟩ := h
  obtain ⟨haligned, -, hsize⟩ := verify_eq_ok.mp hverify
  have hfits : region.size ≤ backing.size := by simpa using hsize
  refine ⟨haligned, hfits, ?_⟩
  split at hmap
  · rename_i state' done hregion
    cases hmap
    exact ⟨done, hregion, rfl⟩
  · cases hmap

theorem mapIntoTable_ne_outOfBounds {backing : BackingRegion} {root : Page}
    {state : TableState σ} {region : UserRegion} {readable writable executable : Bool} :
    mapIntoTable source backing root state region 0 readable writable executable ≠
      .error .outOfBounds := by
  rw [mapIntoTable_eq, mapWith, ne_eq, bind_eq_error, not_or]
  refine ⟨verify_ne_outOfBounds, ?_⟩
  rintro ⟨-, -, hmap⟩
  split at hmap
  · cases hmap
  · cases hmap

theorem addRegion_eq_ok {regions regions' : List UserspaceRegion} {i : ℕ}
    {region : UserspaceRegion} (h : addRegion regions i region = .ok regions') :
    (0 < i ∨ regions = []) ∧ regions' = regions.insertIdx i region := by
  unfold addRegion at h
  split_ifs at h with hlast
  · cases h
    refine ⟨?_, by rw [hlast, List.insertIdx_length_self]⟩
    rcases Nat.eq_zero_or_pos i with rfl | hpos
    · exact Or.inr (List.length_eq_zero_iff.mp hlast.symm)
    · exact Or.inl hpos
  · obtain ⟨-, -, hinsert⟩ := bind_eq_ok.mp h
    split_ifs at hinsert with hzero
    cases hinsert
    exact ⟨Or.inl (Nat.pos_of_ne_zero hzero), rfl⟩

theorem addRegion_outOfBounds {regions : List UserspaceRegion} {i : ℕ}
    {region : UserspaceRegion} (h : addRegion regions i region = .error .outOfBounds) :
    i = 0 ∧ regions ≠ [] := by
  unfold addRegion at h
  split_ifs at h with hlast
  rcases bind_eq_error.mp h with hverify | ⟨-, -, hinsert⟩
  · exact absurd hverify verify_ne_outOfBounds
  · split_ifs at hinsert with hzero
    subst hzero
    refine ⟨rfl, ?_⟩
    rintro rfl
    exact hlast rfl

/-- The region `place_region` adds. -/
def placedRegion (regions : List UserspaceRegion) (location : Option U64)
    (allowedOperations : MemoryOperation) (name : String) (backing : BackingRegion) :
    UserspaceRegion where
  userRegion := desiredRegion regions location backing.size
  backing := backing
  name := name
  permissions := allowedOperations

/-- The mapping `place_region` asks for. -/
def placedMapping (source : TableSource σ) (space : SpaceManager σ) (location : Option U64)
    (allowedOperations : MemoryOperation) (backing : BackingRegion) :
    Except Fault (TableState σ × ErrorCode) :=
  mapIntoTable source backing space.root space.tables
    (desiredRegion space.regions location backing.size) 0
    (allowedOperations &&& .read != .none) (allowedOperations &&& .write != .none)
    (allowedOperations &&& .execute != .none)

/-- `place_region` passed its check of the end, found a place, and tried to map. -/
structure Places (source : TableSource σ) (space : SpaceManager σ) (location : Option U64)
    (allowedOperations : MemoryOperation) (backing : BackingRegion) (i : ℕ)
    (tables : TableState σ) (code : ErrorCode) : Prop where
  end_le : placeLocation space.regions location + backing.size ≤ userAddrMax
  position : insertPosition (desiredRegion space.regions location backing.size) space.regions = some i
  mapped : placedMapping source space location allowedOperations backing = .ok (tables, code)

variable {space space' : SpaceManager σ} {location : Option U64}
  {allowedOperations : MemoryOperation} {name : String} {backing : BackingRegion}

/-- **What `place_region` does when it returns**: it refuses, with the tables as they
were or as a mapping that failed left them, or it inserts the region it mapped. -/
theorem placeRegion_cases {result : Except ErrorCode UserRegion}
    (h : placeRegion source space location allowedOperations name backing =
      .ok (space', result)) :
    (∃ code tables, space' = { space with tables } ∧ result = .error code ∧
        (tables = space.tables ∨ ∃ i failed, failed ≠ .ESUCCESS ∧
          Places source space location allowedOperations backing i tables failed)) ∨
      ∃ i tables, Places source space location allowedOperations backing i tables .ESUCCESS ∧
        (0 < i ∨ space.regions = []) ∧
        space' = { space with
          regions := space.regions.insertIdx i
            (placedRegion space.regions location allowedOperations name backing)
          tables } ∧
        result = .ok (desiredRegion space.regions location backing.size) := by
  unfold placeRegion at h
  dsimp only at h
  split_ifs at h with hend
  · cases h
    exact Or.inl ⟨_, _, rfl, rfl, Or.inl rfl⟩
  cases hposition : insertPosition (desiredRegion space.regions location backing.size)
      space.regions with
  | none =>
      rw [hposition] at h
      cases h
      exact Or.inl ⟨_, _, rfl, rfl, Or.inl rfl⟩
  | some i =>
      rw [hposition] at h
      obtain ⟨⟨tables, code⟩, hmapped, hrest⟩ := bind_eq_ok.mp h
      dsimp only at hrest
      split_ifs at hrest with hcode
      · cases hrest
        exact Or.inl ⟨_, _, rfl, rfl,
          Or.inr ⟨i, code, hcode, BitVec.not_lt.mp hend, hposition, hmapped⟩⟩
      · rw [ne_eq, not_not] at hcode
        subst hcode
        obtain ⟨regions, hadd, heq⟩ := bind_eq_ok.mp hrest
        cases heq
        obtain ⟨hpos, rfl⟩ := addRegion_eq_ok hadd
        exact Or.inr ⟨i, tables, ⟨BitVec.not_lt.mp hend, hposition, hmapped⟩, hpos, rfl, rfl⟩

theorem createContiguous_cases (source : TableSource σ) (state : TableState σ) (pages : U64)
    (object : ℕ) :
    (source.allocateRegion state.pageAllocator pages.toNat = none ∧
        createContiguous source state pages object = (state, .error .ENOMEM)) ∨
      ∃ page pageAllocator backing,
        source.allocateRegion state.pageAllocator pages.toNat = some (page, pageAllocator) ∧
        createContiguous source state pages object =
          ({ state with pageAllocator }, .ok backing) ∧
        backing.kind = .userOwnedAllocation ∧ backing.physicalPtr = page.address ∧
        backing.size = pages * pageSize ∧ backing.object = object := by
  unfold createContiguous
  split
  · rename_i h
    exact Or.inl ⟨h, rfl⟩
  · rename_i page pageAllocator h
    exact Or.inr ⟨page, pageAllocator, _, h, rfl, rfl, rfl, rfl, rfl⟩

theorem UserRegion.div_mul_pageSize {region : UserRegion} (h : region.pageAligned = true) :
    region.size / pageSize * pageSize = region.size := by
  have hsize := (region.pageAligned_iff.mp h).2
  have := region.size.isLt
  rw [← BitVec.toNat_inj, BitVec.toNat_mul, BitVec.toNat_udiv, toNat_pageSize]
  omega

/-- **What `allocate_placed_region` does when it returns**: there was no memory, or it
placed an allocation of the region's size; one that was not placed is freed. -/
theorem allocatePlacedRegion_cases {region : UserRegion} {object : ℕ}
    {result : Except ErrorCode BackingRegion}
    (h : allocatePlacedRegion source space region allowedOperations name object =
      .ok (space', result)) :
    (space' = space ∧ result = .error .ENOMEM) ∨
      ∃ page pageAllocator allocation placed answer,
        source.allocateRegion space.tables.pageAllocator (region.size / pageSize).toNat =
          some (page, pageAllocator) ∧
        allocation.physicalPtr = page.address ∧ allocation.size = region.size ∧
        allocation.object = object ∧
        placeRegion source { space with tables := { space.tables with pageAllocator } }
          (some region.start) allowedOperations name allocation = .ok (placed, answer) ∧
        ((∃ code, answer = .error code ∧ result = .error code ∧
            space' = { placed with tables := freeAllocation source placed.tables allocation }) ∨
          ∃ placedAt, answer = .ok placedAt ∧ result = .ok allocation ∧ space' = placed) := by
  unfold allocatePlacedRegion at h
  obtain ⟨_, hverify, h⟩ := bind_eq_ok.mp h
  have haligned := verify_eq_ok.mp hverify
  rcases createContiguous_cases source space.tables (region.size / pageSize) object with
    ⟨-, hnone⟩ | ⟨page, pageAllocator, allocation, halloc, hcreate, -, hphys, hsize, hobject⟩
  · rw [hnone] at h
    cases h
    exact Or.inl ⟨rfl, rfl⟩
  · rw [hcreate] at h
    obtain ⟨⟨placed, answer⟩, hplace, h⟩ := bind_eq_ok.mp h
    refine Or.inr ⟨page, pageAllocator, allocation, placed, answer, halloc, hphys,
      hsize.trans (UserRegion.div_mul_pageSize haligned), hobject, hplace, ?_⟩
    cases answer with
    | error code =>
        cases h
        exact Or.inl ⟨code, rfl, rfl, rfl⟩
    | ok placedAt =>
        cases h
        exact Or.inr ⟨placedAt, rfl, rfl, rfl⟩

/-- **What `deallocate_userspace_region` does when it returns**: there is no such
region, or its unmapping failed, or it is unmapped and extracted. -/
theorem deallocateUserspaceRegion_cases {start size : U64} {code : ErrorCode}
    (h : deallocateUserspaceRegion source space start size = .ok (space', code)) :
    (space' = space ∧ code = .EINVAL) ∨
      ∃ region tables done, space.regions.find? (·.isAt start size) = some region ∧
        unmapRegion source space.root space.tables region.userRegion.start
          region.userRegion.size = (tables, done) ∧
        if done then
          space' = { space with regions := space.regions.eraseP (·.isAt start size), tables } ∧
            code = .ESUCCESS
        else space' = { space with tables } ∧ code = .EFAIL := by
  unfold deallocateUserspaceRegion at h
  split at h
  · cases h
    exact Or.inl ⟨rfl, rfl⟩
  · rename_i region hfind
    obtain ⟨⟨tables, failed⟩, hunmap, h⟩ := bind_eq_ok.mp h
    obtain ⟨_, -, hunmap⟩ := bind_eq_ok.mp hunmap
    cases hregion : unmapRegion source space.root space.tables region.userRegion.start
        region.userRegion.size with
    | mk tables' done =>
        refine Or.inr ⟨region, tables', done, hfind, hregion, ?_⟩
        rw [hregion] at hunmap
        cases done with
        | true =>
            cases hunmap
            cases h
            exact ⟨rfl, rfl⟩
        | false =>
            cases hunmap
            cases h
            exact ⟨rfl, rfl⟩

theorem placeRegion_outOfBounds
    (h : placeRegion source space location allowedOperations name backing =
      .error .outOfBounds) :
    insertPosition (desiredRegion space.regions location backing.size) space.regions = some 0 ∧
      space.regions ≠ [] := by
  unfold placeRegion at h
  dsimp only at h
  split_ifs at h with hend
  cases hposition : insertPosition (desiredRegion space.regions location backing.size)
      space.regions with
  | none =>
      rw [hposition] at h
      cases h
  | some i =>
      rw [hposition] at h
      rcases bind_eq_error.mp h with hfault | ⟨⟨tables, code⟩, -, hrest⟩
      · exact absurd hfault mapIntoTable_ne_outOfBounds
      dsimp only at hrest
      split_ifs at hrest with hcode
      rcases bind_eq_error.mp hrest with hadd | ⟨_, _, hok⟩
      · obtain ⟨rfl, hne⟩ := addRegion_outOfBounds hadd
        exact ⟨rfl, hne⟩
      · cases hok

theorem allocatePlacedRegion_outOfBounds {region : UserRegion} {object : ℕ}
    (h : allocatePlacedRegion source space region allowedOperations name object =
      .error .outOfBounds) :
    insertPosition (desiredRegion space.regions (some region.start) region.size)
        space.regions = some 0 ∧ space.regions ≠ [] := by
  unfold allocatePlacedRegion at h
  rcases bind_eq_error.mp h with hverify | ⟨_, hverify, h⟩
  · exact absurd hverify verify_ne_outOfBounds
  have haligned := verify_eq_ok.mp hverify
  rcases createContiguous_cases source space.tables (region.size / pageSize) object with
    ⟨-, hnone⟩ | ⟨page, pageAllocator, allocation, -, hcreate, -, -, hsize, -⟩
  · rw [hnone] at h
    cases h
  · rw [hcreate] at h
    rcases bind_eq_error.mp h with hplace | ⟨⟨placed, answer⟩, -, h⟩
    · have hfirst := placeRegion_outOfBounds hplace
      rwa [hsize, UserRegion.div_mul_pageSize haligned] at hfirst
    · cases answer with
      | error code => cases h
      | ok placedAt => cases h

theorem deallocateUserspaceRegion_ne_outOfBounds {start size : U64} :
    deallocateUserspaceRegion source space start size ≠ .error .outOfBounds := by
  intro h
  unfold deallocateUserspaceRegion at h
  split at h
  · cases h
  · rcases bind_eq_error.mp h with hunmap | ⟨⟨tables, failed⟩, -, h⟩
    · rcases bind_eq_error.mp hunmap with hverify | ⟨_, -, hunmap⟩
      · exact absurd hverify verify_ne_outOfBounds
      · split at hunmap
        · cases hunmap
        · cases hunmap
    · dsimp only at h
      split_ifs at h

end Cases

end BekOS
