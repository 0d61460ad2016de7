import BekOS.Arch.UnmapRegion
import BekOS.Mm.RegionList

/-!
# The tables translate what the list of regions describes

`Describes` relates the two levels of an address space: the list of regions says
which user addresses exist and where their memory is, and the tables are what the
hardware walks.  `SpaceOk` adds what makes the relation last: the list is in order,
the tables form a tree, and each region is mapped by pages and by blocks inside it,
so that it can be unmapped on its own.

Three things break the relation.  `deallocate_userspace_region` by backing extracts
regions that stay mapped; by location, it runs into the defect of `unmap_upper` when
a block maps part of the region; and a region cannot be inserted first.  `Safe` asks
a call to avoid them, and `run_describes` says that a run of such calls keeps the
relation.
-/

namespace BekOS

open PartialRun Function

/-! ## What the list describes -/

/-- Where the region's memory is for an address, and with which attributes. -/
def UserspaceRegion.translation (region : UserspaceRegion) (virt : U64) : Translation where
  address := region.backing.physicalPtr.toNat +
    (virt.toNat - region.userRegion.start.toNat)
  attributes :=
    (attributesForUser (region.permissions &&& .read != .none)
        (region.permissions &&& .write != .none) (region.permissions &&& .execute != .none) |||
      region.backing.kind.attrIdx.toU64 <<< 2) &&& attributeMask

/-- **The relation between the two levels.**  An address of a listed region translates
to its offset into the backing region, with the region's permissions; an address of
no region does not translate. -/
structure Describes (regions : List UserspaceRegion) (mem : TableMemory) (root : Page) :
    Prop where
  inside : ∀ region ∈ regions, ∀ virt, region.userRegion.Covers virt.toNat →
    walk mem .lower root virt = some (region.translation virt)
  outside : ∀ virt, (∀ region ∈ regions, ¬ region.userRegion.Covers virt.toNat) →
    walk mem .lower root virt = none

/-- The region is mapped by pages and by blocks inside it. -/
def MappedRegion (mem : TableMemory) (root : Page) (region : UserRegion) : Prop :=
  MappedInside mem .lower root region.start region.size

/-- What every address space satisfies. -/
structure SpaceOk {σ : Type} (source : TableSource σ) (space : SpaceManager σ) : Prop where
  ordered : RegionsOrdered space.regions
  tree : TreeOk source space.tables 3 space.root
  describes : Describes space.regions space.tables.mem space.root
  mapped : ∀ region ∈ space.regions,
    MappedRegion space.tables.mem space.root region.userRegion

section

variable {σ : Type} {source : TableSource σ}

/-! ## Steps that leave the tables alone -/

/-- The tables of the tree keep their contents and stay in use. -/
structure Undisturbed (source : TableSource σ) (root : Page) (before after : TableState σ) :
    Prop where
  mem : ∀ page, InTree before.mem 3 root page → ∀ i, after.mem page i = before.mem page i
  used : ∀ page, InTree before.mem 3 root page → InUse source after page
  embedded : EmbeddedOk source after

theorem SpaceOk.undisturbed {space : SpaceManager σ} {tables : TableState σ}
    (ok : SpaceOk source space) (same : Undisturbed source space.root space.tables tables) :
    SpaceOk source { space with tables } := by
  have hwalkFrom : ∀ virt, walkFrom tables.mem 3 space.root virt =
      walkFrom space.tables.mem 3 space.root virt := fun _ => walkFrom_congr same.mem
  have hwalk : ∀ virt, walk tables.mem .lower space.root virt =
      walk space.tables.mem .lower space.root virt :=
    fun virt => walk_congr fun _ => hwalkFrom virt
  refine ⟨ok.ordered, ⟨wellFormedTree_congr same.mem ok.tree.wf, fun page hpage => ?_,
    same.embedded⟩, ⟨fun region hmem virt hcovers => ?_, fun virt hnot => ?_⟩,
    fun region hmem virt hin => ?_⟩
  · exact same.used page ((inTree_congr same.mem page).mp hpage)
  · exact (hwalk virt).trans (ok.describes.inside region hmem virt hcovers)
  · exact (hwalk virt).trans (ok.describes.outside virt hnot)
  · obtain ⟨leaf, hleaf, hinside⟩ := ok.mapped region hmem virt hin
    exact ⟨leaf, (hwalkFrom virt).trans hleaf, hinside⟩

theorem undisturbed_allocateRegion {root page : Page} {tables : TableState σ} {count : ℕ}
    {pageAllocator : σ} (tree : TreeOk source tables 3 root)
    (h : source.allocateRegion tables.pageAllocator count = some (page, pageAllocator)) :
    Undisturbed source root tables { tables with pageAllocator } where
  mem _ _ _ := rfl
  used other hother := (tree.used other hother).imp_left fun hheld => source.allocate_held h hheld
  embedded := tree.embedded

theorem undisturbed_freeRegion {root page : Page} {tables : TableState σ} {count : ℕ}
    (tree : TreeOk source tables 3 root)
    (hallocated : source.allocated tables.pageAllocator page = some count)
    (hnot : ¬ InTree tables.mem 3 root page) :
    Undisturbed source root tables
      { tables with pageAllocator := source.freeRegion tables.pageAllocator page } where
  mem _ _ _ := rfl
  used other hother := by
    refine (tree.used other hother).imp_left fun hheld => ?_
    have hfree := source.free_held hallocated
    dsimp only
    rw [hfree]
    refine ⟨hheld, ?_⟩
    rintro rfl
    exact hnot hother
  embedded := tree.embedded

theorem not_inTree_of_allocateRegion {root page : Page} {tables : TableState σ} {count : ℕ}
    {pageAllocator : σ} (tree : TreeOk source tables 3 root)
    (h : source.allocateRegion tables.pageAllocator count = some (page, pageAllocator)) :
    ¬ InTree tables.mem 3 root page := by
  intro hin
  have hallocated : source.allocated pageAllocator page = some count := by
    rw [source.allocate_allocated h, update_self]
  rcases tree.used page hin with hheld | ⟨hlow, hhigh, -⟩
  · have hnew := source.allocate_new h
    rw [PageSource.held, Set.mem_ofPred_eq, hnew] at hheld
    cases hheld
  · exact source.allocated_outside hallocated ⟨hlow, hhigh⟩

/-! ## Placing a region -/

theorem insideHalf_of_bounded {region : UserRegion} (h : region.limit ≤ userAddrMax.toNat) :
    InsideHalf .lower region.start region.size := by
  rw [toNat_userAddrMax] at h
  unfold UserRegion.limit at h
  constructor
  · change region.start.toNat / 2 ^ 48 = 0
    omega
  · omega

/-- **A region that has been mapped** is added to both levels. -/
theorem SpaceOk.insert {space : SpaceManager σ} {tables : TableState σ}
    (ok : SpaceOk source space) {before after : List UserspaceRegion}
    (hregions : space.regions = before ++ after) {region : UserspaceRegion}
    (aligned : region.userRegion.pageAligned = true)
    (bounded : region.userRegion.limit ≤ userAddrMax.toNat)
    (hbefore : ∀ other ∈ before, other.userRegion.limit ≤ region.userRegion.start.toNat)
    (hafter : ∀ other ∈ after, region.userRegion.limit ≤ other.userRegion.start.toNat)
    (mapped : RegionMapped source .lower space.root region.userRegion.start
      region.backing.physicalPtr region.userRegion.size
      (attributesForUser (region.permissions &&& .read != .none)
          (region.permissions &&& .write != .none) (region.permissions &&& .execute != .none) |||
        region.backing.kind.attrIdx.toU64 <<< 2) space.tables tables true) :
    SpaceOk source { space with regions := before ++ region :: after, tables } := by
  have hmem : ∀ other, other ∈ before ++ region :: after ↔
      other = region ∨ other ∈ space.regions := fun other => by
    rw [hregions, List.mem_append, List.mem_cons, List.mem_append]
    tauto
  -- No listed region has an address of the new one.
  have hapart : ∀ {address}, region.userRegion.Covers address →
      ∀ other ∈ space.regions, ¬ other.userRegion.Covers address := by
    intro address hcovers other hother hcovers'
    rw [hregions] at hother
    unfold UserRegion.Covers at hcovers hcovers'
    rcases List.mem_append.mp hother with hother | hother
    · have := hbefore other hother
      omega
    · have := hafter other hother
      omega
  refine ⟨RegionsOrdered.insert (hregions ▸ ok.ordered) aligned bounded hbefore hafter,
    mapped.within.ok, ⟨fun other hother virt hcovers => ?_, fun virt hnot => ?_⟩,
    fun other hother => ?_⟩
  · rcases (hmem other).mp hother with rfl | hother
    · exact mapped.mapped rfl virt hcovers
    · rw [← ok.describes.inside other hother virt hcovers]
      exact walk_congr fun hvirt => mapped.outside virt hvirt fun hin =>
        hapart hin other hother hcovers
  · rw [← ok.describes.outside virt fun other hother => hnot other ((hmem other).mpr (Or.inr hother))]
    exact walk_congr fun hvirt => mapped.outside virt hvirt
      (hnot region ((hmem region).mpr (Or.inl rfl)))
  · rcases (hmem other).mp hother with rfl | hother
    · exact mapped.inside rfl
    · intro virt hin
      obtain ⟨leaf, hleaf, hinside⟩ := ok.mapped other hother virt hin
      have hvirt := hin.contains (insideHalf_of_bounded (ok.ordered.bounded other hother))
      refine ⟨leaf, (mapped.outside virt hvirt fun hnew => ?_).trans hleaf, hinside⟩
      exact hapart hnew other hother hin

variable {space space' : SpaceManager σ} {location : Option U64}
  {allowedOperations : MemoryOperation} {name : String} {backing : BackingRegion} {i : ℕ}
  {tables : TableState σ} {code : ErrorCode}

theorem Places.regionMapped (ok : SpaceOk source space) (noWrap : NoWrap location backing.size)
    (places : Places source space location allowedOperations backing i tables code) :
    ∃ done : Bool, code = (if done then .ESUCCESS else .EFAIL) ∧
      RegionMapped source .lower space.root
        (desiredRegion space.regions location backing.size).start backing.physicalPtr
        (desiredRegion space.regions location backing.size).size
        (attributesForUser (allowedOperations &&& .read != .none)
            (allowedOperations &&& .write != .none) (allowedOperations &&& .execute != .none) |||
          backing.kind.attrIdx.toU64 <<< 2) space.tables tables done := by
  obtain ⟨-, hbounded⟩ := places.bounded ok.ordered noWrap
  obtain ⟨-, hsize, done, hmap, hcode⟩ := mapIntoTable_cases places.mapped
  have hframes := backing.inMemory
  have hle : (desiredRegion space.regions location backing.size).size.toNat ≤
      backing.size.toNat := hsize
  exact ⟨done, hcode, mapRegion_spec ok.tree (insideHalf_of_bounded hbounded) (by omega) hmap⟩

theorem Places.split (ok : SpaceOk source space) (noWrap : NoWrap location backing.size)
    (places : Places source space location allowedOperations backing i tables code) :
    ∃ before after, space.regions = before ++ after ∧ i = before.length ∧
      (∀ region ∈ before, region.userRegion.limit ≤
        (desiredRegion space.regions location backing.size).start.toNat) ∧
      ∀ region ∈ after, (desiredRegion space.regions location backing.size).limit ≤
        region.userRegion.start.toNat := by
  obtain ⟨-, hbounded⟩ := places.bounded ok.ordered noWrap
  exact insertPosition_spec (lt_of_le_of_lt hbounded (by decide)) ok.ordered places.position

theorem Places.apart (ok : SpaceOk source space) (noWrap : NoWrap location backing.size)
    (places : Places source space location allowedOperations backing i tables code)
    {address : ℕ}
    (hcovers : (desiredRegion space.regions location backing.size).Covers address) :
    ∀ region ∈ space.regions, ¬ region.userRegion.Covers address := by
  obtain ⟨before, after, hregions, -, hbefore, hafter⟩ := places.split ok noWrap
  intro region hmem hother
  rw [hregions] at hmem
  unfold UserRegion.Covers at hcovers hother
  rcases List.mem_append.mp hmem with hmem | hmem
  · have := hbefore region hmem
    omega
  · have := hafter region hmem
    omega

theorem Places.refused (ok : SpaceOk source space) (noWrap : NoWrap location backing.size)
    (places : Places source space location allowedOperations backing i tables code)
    (hcode : code ≠ .ESUCCESS) : tables = space.tables := by
  obtain ⟨done, rfl, mapped⟩ := places.regionMapped ok noWrap
  cases done with
  | true => exact absurd rfl hcode
  | false =>
      exact mapped.refused rfl fun virt hin =>
        ok.describes.outside virt (places.apart ok noWrap hin)

/-- **A mapping that succeeded** makes room for the region in both levels. -/
theorem Places.accepted (ok : SpaceOk source space) (noWrap : NoWrap location backing.size)
    (places : Places source space location allowedOperations backing i tables .ESUCCESS) :
    SpaceOk source { space with
      regions := space.regions.insertIdx i
        (placedRegion space.regions location allowedOperations name backing)
      tables } := by
  obtain ⟨haligned, hbounded⟩ := places.bounded ok.ordered noWrap
  obtain ⟨done, hcode, mapped⟩ := places.regionMapped ok noWrap
  obtain rfl : done = true := by
    cases done with
    | true => rfl
    | false => cases hcode
  obtain ⟨before, after, hregions, rfl, hbefore, hafter⟩ := places.split ok noWrap
  have hinsert : space.regions.insertIdx before.length
      (placedRegion space.regions location allowedOperations name backing) =
      before ++ placedRegion space.regions location allowedOperations name backing :: after := by
    rw [hregions, insertIdx_length_append]
  rw [hinsert]
  exact ok.insert hregions haligned hbounded hbefore hafter mapped

theorem placeRegion_spaceOk {result : Except ErrorCode UserRegion}
    (h : placeRegion source space location allowedOperations name backing =
      .ok (space', result))
    (ok : SpaceOk source space) (noWrap : NoWrap location backing.size) :
    SpaceOk source space' ∧ ∀ code, result = .error code → space' = space := by
  rcases placeRegion_cases h with ⟨_, tables, rfl, rfl, htables⟩ | ⟨i, tables, places, -, rfl, rfl⟩
  · have hsame : tables = space.tables := by
      rcases htables with hsame | ⟨i, failed, hfailed, places⟩
      · exact hsame
      · exact places.refused ok noWrap hfailed
    subst hsame
    exact ⟨ok, fun _ _ => rfl⟩
  · exact ⟨places.accepted ok noWrap, nofun⟩

/-! ## The other calls -/

theorem SpaceOk.create {tables : TableState σ} (embedded : EmbeddedOk source tables)
    {page : Page} {pageAllocator : σ}
    (h : source.allocateRegion tables.pageAllocator 1 = some (page, pageAllocator))
    (blank : Blank tables.mem page) :
    SpaceOk source ⟨[], page, { tables with pageAllocator }⟩ := by
  have hroot : ∀ other, InTree tables.mem 3 page other ↔ other = page := inTree_of_blank blank 3
  have hallocated : source.allocated pageAllocator page = some 1 := by
    rw [source.allocate_allocated h, update_self]
  refine ⟨⟨.nil, List.forall_mem_nil _, List.forall_mem_nil _⟩,
    ⟨wellFormedTree_of_blank blank 3, fun other hother => ?_, embedded⟩,
    ⟨List.forall_mem_nil _, fun virt _ => ?_⟩, List.forall_mem_nil _⟩
  · rw [(hroot other).mp hother]
    exact Or.inl hallocated
  · show walk tables.mem .lower page virt = none
    rw [walk, translateFrom, walkFrom_of_blank blank, Option.map_none, ite_self]

theorem SpaceOk.append (ok : SpaceOk source space) {region : UserspaceRegion}
    (ordered : RegionsOrdered (space.regions ++ [region]))
    (h : mapIntoTable source region.backing space.root space.tables region.userRegion 0
      (region.permissions &&& .read != .none) (region.permissions &&& .write != .none)
      (region.permissions &&& .execute != .none) = .ok (tables, code)) :
    (code ≠ .ESUCCESS → tables = space.tables) ∧ (code = .ESUCCESS →
      SpaceOk source { space with regions := space.regions ++ [region], tables }) := by
  have hlast : region ∈ space.regions ++ [region] :=
    List.mem_append_right _ (List.mem_singleton_self _)
  have hbounded := ordered.bounded region hlast
  obtain ⟨-, -, hcross⟩ := List.pairwise_append.mp ordered.ordered
  have hbefore : ∀ other ∈ space.regions, other.userRegion.limit ≤ region.userRegion.start.toNat :=
    fun other hother => hcross other hother region (List.mem_singleton_self _)
  obtain ⟨-, hsize, done, hmap, hcode⟩ := mapIntoTable_cases h
  have hle : region.userRegion.size.toNat ≤ region.backing.size.toNat := hsize
  have hframes := region.backing.inMemory
  have mapped := mapRegion_spec ok.tree (insideHalf_of_bounded hbounded) (by omega) hmap
  cases done with
  | false =>
      obtain rfl : code = .EFAIL := hcode
      refine ⟨fun _ => mapped.refused rfl fun virt hin => ?_, nofun⟩
      refine ok.describes.outside virt fun other hother hcovers => ?_
      have := hbefore other hother
      unfold UserRegion.Covers at hcovers
      have hstart : region.userRegion.start.toNat ≤ virt.toNat := hin.1
      omega
  | true =>
      obtain rfl : code = .ESUCCESS := hcode
      exact ⟨fun hne => absurd rfl hne, fun _ =>
        ok.insert (List.append_nil space.regions).symm (ordered.aligned region hlast) hbounded
          hbefore (List.forall_mem_nil _) mapped⟩

theorem page_of_address (page : Page) : (page.address >>> 12).setWidth 36 = page := by
  rw [← BitVec.toNat_inj, BitVec.toNat_setWidth, BitVec.toNat_ushiftRight, Page.toNat_address,
    Nat.shiftRight_eq_div_pow, Nat.mul_div_cancel _ (by decide),
    Nat.mod_eq_of_lt page.isLt]

/-- **An allocation that is placed**, or freed again, leaves the relation as it is. -/
theorem SpaceOk.placeAllocated (ok : SpaceOk source space) {count : ℕ} {page : Page}
    {pageAllocator : σ}
    (halloc : source.allocateRegion space.tables.pageAllocator count = some (page, pageAllocator))
    {allocation : BackingRegion} (hphys : allocation.physicalPtr = page.address)
    {placed : SpaceManager σ} {answer : Except ErrorCode UserRegion}
    (hplace : placeRegion source { space with tables := { space.tables with pageAllocator } }
      location allowedOperations name allocation = .ok (placed, answer))
    (noWrap : NoWrap location allocation.size) :
    SpaceOk source placed ∧ ∀ code, answer = .error code → SpaceOk source
      { placed with tables := freeAllocation source placed.tables allocation } := by
  have ok' := ok.undisturbed (undisturbed_allocateRegion ok.tree halloc)
  obtain ⟨okPlaced, hrefused⟩ := placeRegion_spaceOk hplace ok' noWrap
  refine ⟨okPlaced, fun code hanswer => ?_⟩
  -- The tables have none of its pages.
  obtain rfl := hrefused code hanswer
  refine okPlaced.undisturbed ?_
  unfold freeAllocation
  rw [hphys, page_of_address]
  have hnot := not_inTree_of_allocateRegion ok.tree halloc
  have hallocated : source.allocated pageAllocator page = some count := by
    rw [source.allocate_allocated halloc, update_self]
  exact undisturbed_freeRegion okPlaced.tree hallocated hnot

theorem allocatePlacedRegion_spaceOk {region : UserRegion} {object : ℕ}
    {result : Except ErrorCode BackingRegion}
    (h : allocatePlacedRegion source space region allowedOperations name object =
      .ok (space', result))
    (ok : SpaceOk source space) (noWrap : NoWrap (some region.start) region.size) :
    SpaceOk source space' := by
  rcases allocatePlacedRegion_cases h with ⟨rfl, -⟩ |
    ⟨page, pageAllocator, allocation, placed, answer, halloc, hphys, hsize, -, hplace, hout⟩
  · exact ok
  · obtain ⟨okPlaced, okFreed⟩ := ok.placeAllocated halloc hphys hplace (by rwa [hsize])
    rcases hout with ⟨code, hanswer, -, rfl⟩ | ⟨_, -, -, rfl⟩
    · exact okFreed code hanswer
    · exact okPlaced

theorem exists_split_of_find? {regions : List UserspaceRegion} {start size : U64}
    {region : UserspaceRegion} (h : regions.find? (·.isAt start size) = some region) :
    ∃ before after, regions = before ++ region :: after ∧
      regions.eraseP (·.isAt start size) = before ++ after := by
  obtain ⟨hat, before, after, rfl, hbefore⟩ := List.find?_eq_some_iff_append.mp h
  refine ⟨before, after, rfl, ?_⟩
  rw [List.eraseP_append_right _ fun other hother => by simpa using hbefore other hother,
    List.eraseP_cons_of_pos hat]

/-- `deallocate_userspace_region` by location keeps the relation, if it meets no block
wholly inside the region. -/
theorem deallocateUserspaceRegion_spaceOk {start size : U64}
    (h : deallocateUserspaceRegion source space start size = .ok (space', code))
    (ok : SpaceOk source space)
    (free : ¬ MeetsWholeBlock space.tables.mem space.root start size) :
    SpaceOk source space' := by
  rcases deallocateUserspaceRegion_cases h with ⟨rfl, -⟩ | ⟨region, tables, done, hfind, hunmap, hout⟩
  · exact ok
  have hmem := List.mem_of_find?_eq_some hfind
  have hat := List.find?_some hfind
  obtain ⟨rfl, rfl⟩ : region.userRegion.start = start ∧ region.userRegion.size = size := by
    simpa only [UserspaceRegion.isAt, Bool.and_eq_true, beq_iff_eq] using hat
  have hhalf := insideHalf_of_bounded (ok.ordered.bounded region hmem)
  have unmaps := unmapRegion_spec ok.tree hhalf free hunmap
  obtain ⟨hstart, hsize⟩ := region.userRegion.pageAligned_iff.mp (ok.ordered.aligned region hmem)
  obtain rfl := unmaps.succeeds hstart hsize (ok.mapped region hmem)
  rw [if_pos rfl] at hout
  obtain ⟨rfl, -⟩ := hout
  obtain ⟨before, after, hregions, herase⟩ := exists_split_of_find? hfind
  have hsub : (before ++ after).Sublist space.regions := by
    rw [hregions]
    exact List.Sublist.append_left (List.sublist_cons_self _ _) before
  -- The other regions have no address of the one extracted.
  have hapart : ∀ other ∈ before ++ after, ∀ address, other.userRegion.Covers address →
      ¬ region.userRegion.Covers address := by
    have hordered := ok.ordered.ordered
    rw [hregions] at hordered
    obtain ⟨-, hright, hcross⟩ := List.pairwise_append.mp hordered
    intro other hother address hcovers hregion
    unfold UserRegion.Covers at hcovers hregion
    rcases List.mem_append.mp hother with hother | hother
    · have := hcross other hother region List.mem_cons_self
      omega
    · have := (List.pairwise_cons.mp hright).1 other hother
      omega
  rw [herase]
  refine ⟨ok.ordered.sublist hsub, unmaps.within.ok, ⟨fun other hother virt hcovers => ?_,
    fun virt hnot => ?_⟩, fun other hother virt hin => ?_⟩
  · rw [← ok.describes.inside other (hsub.subset hother) virt hcovers]
    exact walk_congr fun hvirt => unmaps.outside virt hvirt fun hin =>
      hapart other hother _ hcovers hin
  · by_cases hin : region.userRegion.Covers virt.toNat
    · exact unmaps.unmapped rfl virt hin
    · rw [← ok.describes.outside virt fun other hother => ?_]
      · exact walk_congr fun hvirt => unmaps.outside virt hvirt hin
      · rw [hregions] at hother
        rcases List.mem_append.mp hother with hother | hother
        · exact hnot other (List.mem_append_left _ hother)
        · rcases List.mem_cons.mp hother with rfl | hother
          · exact hin
          · exact hnot other (List.mem_append_right _ hother)
  · obtain ⟨leaf, hleaf, hinside⟩ := ok.mapped other (hsub.subset hother) virt hin
    have hvirt := hin.contains
      (insideHalf_of_bounded (ok.ordered.bounded other (hsub.subset hother)))
    exact ⟨leaf, (unmaps.outside virt hvirt (hapart other hother _ hin)).trans hleaf, hinside⟩

/-! ## Runs -/

/-- What keeps the two levels together: regions placed in order; no block met wholly
inside a region to be unmapped; no listed region dropped by its backing; and tables
that others leave alone. -/
def SpaceOp.Safe (source : TableSource σ) (space : SpaceManager σ) : SpaceOp σ → Prop
  | placeRegion location _ _ backing => BekOS.InOrder space.regions location backing.size
  | allocatePlacedRegion region _ _ _ =>
      BekOS.InOrder space.regions (some region.start) region.size
  | deallocateUserspaceRegion start size =>
      ¬ MeetsWholeBlock space.tables.mem space.root start size
  | deallocateBacking backing =>
      ∀ region ∈ space.regions, region.backing.object ≠ backing.object
  | others tables => Undisturbed source space.root space.tables tables

theorem SpaceOp.Safe.inOrder {op : SpaceOp σ} (safe : op.Safe source space) :
    op.InOrder space.regions := by
  cases op with
  | placeRegion location allowedOperations name backing => exact safe
  | allocatePlacedRegion region allowedOperations name object => exact safe
  | deallocateUserspaceRegion start size => trivial
  | deallocateBacking backing => trivial
  | others tables => trivial

theorem spaceStep_spaceOk {op : SpaceOp σ} {reply : SpaceReply} (ok : SpaceOk source space)
    (safe : op.Safe source space) (h : spaceStep source space op = some (space', reply)) :
    SpaceOk source space' := by
  have hcall := toOption_eq_some.mp h
  cases op with
  | placeRegion location allowedOperations name backing =>
      obtain ⟨⟨placed, result⟩, hplace, heq⟩ := map_eq_ok.mp hcall
      cases heq
      exact (placeRegion_spaceOk hplace ok safe.noWrap).1
  | allocatePlacedRegion region allowedOperations name object =>
      obtain ⟨⟨placed, result⟩, hallocate, heq⟩ := map_eq_ok.mp hcall
      cases heq
      exact allocatePlacedRegion_spaceOk hallocate ok safe.noWrap
  | deallocateUserspaceRegion start size =>
      obtain ⟨⟨rest, code⟩, hdeallocate, heq⟩ := map_eq_ok.mp hcall
      cases heq
      exact deallocateUserspaceRegion_spaceOk hdeallocate ok safe
  | deallocateBacking backing =>
      cases hcall
      -- The filter keeps every region.
      have hkeep : space.regions.filter (·.backing.object != backing.object) = space.regions :=
        List.filter_eq_self.mpr fun region hmem => bne_iff_ne.mpr (safe region hmem)
      unfold deallocateBacking
      rw [hkeep]
      exact ok
  | others tables =>
      cases hcall
      exact ok.undisturbed safe

end

theorem SpaceOk.of_empty {σ : Type} {source : TableSource σ} {space : SpaceManager σ}
    (empty : space.regions = []) (tree : TreeOk source space.tables 3 space.root)
    (unmapped : ∀ virt, walk space.tables.mem .lower space.root virt = none) :
    SpaceOk source space := by
  refine ⟨?_, tree, ⟨?_, fun virt _ => unmapped virt⟩, ?_⟩
  all_goals rw [empty]
  · exact ⟨List.Pairwise.nil, nofun, nofun⟩
  · exact nofun
  · exact nofun

/-- **The two levels over a run.**  From tables that translate no user address, in every
state that a run of safe calls reaches the tables translate exactly what the list of
regions describes, and the next call does not run out of the list. -/
theorem run_describes {σ : Type} (source : TableSource σ) {space : SpaceManager σ}
    (empty : space.regions = []) (tree : TreeOk source space.tables 3 space.root)
    (unmapped : ∀ virt, walk space.tables.mem .lower space.root virt = none)
    {ops : List (SpaceOp σ)}
    (safe : StepsMeet (spaceStep source) (fun space op => op.Safe source space) space ops)
    (n : ℕ) {final : SpaceManager σ × List SpaceReply}
    (hrun : runSteps (spaceStep source) space (ops.take n) = some final) :
    Describes final.1.regions final.1.tables.mem final.1.root ∧
      ∀ op, ops[n]? = some op → spaceCall source final.1 op ≠ .error .outOfBounds := by
  have hstart := SpaceOk.of_empty empty tree unmapped
  have hok := @runSteps_invariant _ _ _ _ _ (SpaceOk source)
    (fun _ _ _ ok hsafe hstep => spaceStep_spaceOk ok hsafe hstep) _ _ _ hstart (safe.take n) hrun
  exact ⟨hok.describes, fun op hop => spaceCall_ne_outOfBounds (safe.at hrun hop).inOrder⟩

theorem run_describes_two_pages :
    ∃ final, runSteps (spaceStep TableSource.pool) ⟨[], 1, .empty samplePool⟩ twoPages =
        some final ∧ final.1.regions.map (·.userRegion) = [⟨0x502000, 0x1000⟩] ∧
      Describes final.1.regions final.1.tables.mem final.1.root := by
  have inOrder : StepsMeet (spaceStep TableSource.pool)
      (fun space op => op.InOrder space.regions) ⟨[], 1, .empty samplePool⟩ twoPages := by
    decide +kernel
  obtain ⟨final, hrun, hregions⟩ := run_twoPages
  have safe : StepsMeet (spaceStep TableSource.pool)
      (fun space op => op.Safe TableSource.pool space) ⟨[], 1, .empty samplePool⟩ twoPages :=
    ⟨inOrder.1, fun moved hmoved => ⟨(inOrder.2 moved hmoved).1, fun _ _ =>
      ⟨not_meetsWholeBlock_of_lt (by decide), fun _ _ => trivial⟩⟩⟩
  exact ⟨final, hrun, hregions, (run_describes TableSource.pool rfl TreeOk.samplePool
    (walk_empty _ _ _) safe 3 hrun).1⟩

/-- A device's page is placed and dropped by its backing region: no region is listed,
and the page is still mapped. -/
theorem run_describes_fails :
    ∃ final, runSteps (spaceStep TableSource.pool) ⟨[], 1, .empty samplePool⟩
        [.placeRegion none (.read ||| .write) "framebuffer"
            ⟨0, .deviceBackedRegion, 0x8000, 0x1000, by decide⟩,
          .deallocateBacking ⟨0, .deviceBackedRegion, 0x8000, 0x1000, by decide⟩] = some final ∧
      ¬ Describes final.1.regions final.1.tables.mem final.1.root := by
  have hruns : (runSteps (spaceStep TableSource.pool) ⟨[], 1, .empty samplePool⟩
      [.placeRegion none (.read ||| .write) "framebuffer"
          ⟨0, .deviceBackedRegion, 0x8000, 0x1000, by decide⟩,
        .deallocateBacking ⟨0, .deviceBackedRegion, 0x8000, 0x1000, by decide⟩]).map
          (fun final => (final.1.regions,
            (walk final.1.tables.mem .lower final.1.root 0x500000).map Translation.address)) =
      some ([], some 0x8000) := by decide +kernel
  obtain ⟨final, hrun, heq⟩ := Option.map_eq_some_iff.mp hruns
  obtain ⟨hregions, hwalk⟩ := Prod.mk.inj heq
  refine ⟨final, hrun, fun describes => ?_⟩
  rw [describes.outside 0x500000 (by rw [hregions]; exact nofun)] at hwalk
  cases hwalk

end BekOS
