import BekOS.Mm.AddressSpaces

/-!
# Building address spaces

`allocate_placed_region` makes an allocation and places it, and `clone_for_fork` maps the
regions of one address space into another, with copies of the allocations that may be
written.  `Builds` is what both do to the memory of all address spaces, wherever they end:
the allocations that are new are those of the regions of the address space they work on.
-/

namespace BekOS

open Function

variable {σ : Type} {source : TableSource σ} {ι : Type} {tables tables' : TableState σ}
  {spaces : ι → Option AddressSpace} {live : Set BackingRegion}

/-! ## Making allocations for an address space -/

theorem insertPosition_le {desired : UserRegion} {regions : List UserspaceRegion} {idx : ℕ}
    (h : insertPosition desired regions = some idx) : idx ≤ regions.length := by
  induction regions generalizing idx with
  | nil =>
      cases h
      exact le_rfl
  | cons region rest ih =>
      rw [insertPosition] at h
      split_ifs at h
      · cases h
        exact Nat.zero_le _
      · obtain ⟨j, hj, rfl⟩ := Option.map_eq_some_iff.mp h
        exact Nat.succ_le_succ (ih hj)

theorem placeRegion_inserts {space placed : SpaceManager σ} {location : Option U64}
    {allowedOperations : MemoryOperation} {name : String} {backing : BackingRegion}
    {result : Except ErrorCode UserRegion}
    (h : placeRegion source space location allowedOperations name backing =
      .ok (placed, result)) :
    placed.root = space.root ∧
      ((∃ code, result = .error code) ∧ placed.regions = space.regions ∨
        ∃ idx ≤ space.regions.length, placed.regions = space.regions.insertIdx idx
          (placedRegion space.regions location allowedOperations name backing)) := by
  rcases placeRegion_cases h with ⟨code, tables', rfl, hresult, -⟩ |
    ⟨idx, tables', places, -, rfl, -⟩
  · exact ⟨rfl, Or.inl ⟨⟨code, hresult⟩, rfl⟩⟩
  · exact ⟨rfl, Or.inr ⟨idx, insertPosition_le places.position, rfl⟩⟩

/-- Some allocations have been made, numbered from `object` on, all of them for these
regions. -/
structure Makes (live live' : Set BackingRegion) (object : ℕ) (regions : List UserspaceRegion) :
    Prop where
  subset : live ⊆ live'
  made : ∀ backing ∈ live', backing ∈ live ∨
    object ≤ backing.object ∧ ∃ region ∈ regions, region.backing = backing

theorem Makes.refl (live : Set BackingRegion) (object : ℕ) (regions : List UserspaceRegion) :
    Makes live live object regions :=
  ⟨subset_rfl, fun _ => Or.inl⟩

theorem Makes.trans {live live' live'' : Set BackingRegion} {object later : ℕ}
    {regions regions' : List UserspaceRegion} (first : Makes live live' object regions)
    (second : Makes live' live'' later regions') (hobject : object ≤ later)
    (hregions : regions ⊆ regions') : Makes live live'' object regions' := by
  refine ⟨first.subset.trans second.subset, fun backing hbacking => ?_⟩
  rcases second.made backing hbacking with hlive | ⟨hlater, hmade⟩
  · refine (first.made backing hlive).imp_right ?_
    rintro ⟨hle, region, hregion, rfl⟩
    exact ⟨hle, region, hregions hregion, rfl⟩
  · exact Or.inr ⟨hobject.trans hlater, hmade⟩

/-- From `live` and the number `object`, a call has made allocations for the address space
`i`, and left it with the tables and the regions `after`; of these, the regions `listed` are
mapped. -/
def Builds {ι : Type} [DecidableEq ι] (source : TableSource σ) (spaces : ι → Option AddressSpace)
    (i : ι) (live : Set BackingRegion) (object later : ℕ) (after : SpaceManager σ)
    (listed : List UserspaceRegion) : Prop :=
  ∃ live', Makes live live' object after.regions ∧
    (∀ region ∈ after.regions, region.backing ∈ live') ∧
    MemoryOk source after.tables (update spaces i (some ⟨listed, after.root⟩)) live' later

section Building

variable [DecidableEq ι] {i : ι} {space out : SpaceManager σ} {object : ℕ}

theorem Makes.builds {live' : Set BackingRegion} {later : ℕ}
    (makes : Makes live live' object space.regions)
    (ok : MemoryOk source space.tables
      (update spaces i (some ⟨space.regions, space.root⟩)) live' later) :
    Builds source spaces i live object later space space.regions :=
  ⟨live', makes, fun region hregion =>
    (ok.backed i _ (update_self _ _ _) region hregion).1, ok⟩

/-- **An allocation is made and placed**, or freed again. -/
theorem MemoryOk.placeAllocated
    (ok : MemoryOk source space.tables
      (update spaces i (some ⟨space.regions, space.root⟩)) live object)
    {count : ℕ} {page : Page} {pageAllocator : σ}
    (halloc : source.allocateRegion space.tables.pageAllocator count = some (page, pageAllocator))
    {allocation : BackingRegion} (hphys : allocation.physicalPtr = page.address)
    (hsize : allocation.size.toNat = count * 4096) (hobject : allocation.object = object)
    {location : Option U64} {allowedOperations : MemoryOperation} {name : String}
    {placed : SpaceManager σ} {answer : Except ErrorCode UserRegion}
    (hplace : placeRegion source { space with tables := { space.tables with pageAllocator } }
      location allowedOperations name allocation = .ok (placed, answer))
    (noWrap : NoWrap location allocation.size) :
    (∀ code, answer = .error code → placed.regions = space.regions ∧
        Builds source spaces i live object (object + 1)
          { placed with tables := freeAllocation source placed.tables allocation }
          placed.regions) ∧
      ∀ placedAt, answer = .ok placedAt → space.regions ⊆ placed.regions ∧
        Builds source spaces i live object (object + 1) placed placed.regions := by
  have hnotLive : allocation ∉ live := fun hlive =>
    (ok.numbered allocation hlive).ne hobject
  have okAllocated := ok.allocate halloc hphys hsize hobject.ge (hobject.trans_lt object.lt_succ_self)
  have hself : update spaces i (some ⟨space.regions, space.root⟩) i =
      some ⟨space.regions, space.root⟩ := update_self _ _ _
  obtain ⟨⟨hroot, okPlaced⟩, hrefused⟩ :=
    okAllocated.place hself hplace noWrap (Set.mem_insert _ _)
  rw [update_idem] at okPlaced
  constructor
  · intro code hanswer
    obtain rfl := hrefused code hanswer
    refine ⟨rfl, (Makes.refl _ _ _).builds ?_⟩
    have hfreed := okPlaced.free (Set.mem_insert _ _) fun j other hother region hregion hsame => ?_
    · rwa [Set.insert_sdiff_self_of_notMem hnotLive] at hfreed
    · exact hnotLive (hsame ▸ (ok.backed j other hother region hregion).1)
  · intro placedAt hanswer
    subst hanswer
    rcases (placeRegion_inserts hplace).2 with ⟨⟨_, hcode⟩, -⟩ | ⟨idx, hidx, hregions⟩
    · cases hcode
    have hmem : ∀ region, region ∈ placed.regions ↔
        region = placedRegion space.regions location allowedOperations name allocation ∨
          region ∈ space.regions := fun region => by
      rw [hregions]
      exact List.mem_insertIdx hidx
    have hmakes : Makes live (insert allocation live) object placed.regions := by
      refine ⟨Set.subset_insert _ _, ?_⟩
      rintro backing (rfl | hlive)
      · exact Or.inr ⟨hobject.ge, _, (hmem _).mpr (Or.inl rfl), rfl⟩
      · exact Or.inl hlive
    exact ⟨fun region hregion => (hmem region).mpr (Or.inr hregion), hmakes.builds (hroot ▸ okPlaced)⟩

theorem toNat_pages_mul (size : U64) :
    (size / pageSize * pageSize).toNat = (size / pageSize).toNat * 4096 := by
  have := size.isLt
  rw [BitVec.toNat_mul, BitVec.toNat_udiv, toNat_pageSize]
  omega

/-- **`allocate_placed_region`** makes one allocation for the address space, if any. -/
theorem allocatePlacedRegion_builds
    (ok : MemoryOk source space.tables
      (update spaces i (some ⟨space.regions, space.root⟩)) live object)
    {region : UserRegion} {allowedOperations : MemoryOperation} {name : String}
    {result : Except ErrorCode BackingRegion}
    (h : allocatePlacedRegion source space region allowedOperations name object =
      .ok (out, result))
    (noWrap : NoWrap (some region.start) region.size) :
    space.regions ⊆ out.regions ∧
      Builds source spaces i live object (object + 1) out out.regions := by
  rcases allocatePlacedRegion_cases h with ⟨rfl, -⟩ |
    ⟨page, pageAllocator, allocation, placed, answer, halloc, hphys, hsize, hobject, hplace, hout⟩
  · exact ⟨List.Subset.refl _, (Makes.refl _ _ _).builds (ok.mono (Nat.le_succ _))⟩
  · have haligned : region.pageAligned = true := by
      unfold allocatePlacedRegion at h
      obtain ⟨_, hverify, -⟩ := bind_eq_ok.mp h
      exact verify_eq_ok.mp hverify
    have hpages : allocation.size.toNat = (region.size / pageSize).toNat * 4096 := by
      rw [← toNat_pages_mul, UserRegion.div_mul_pageSize haligned, hsize]
    obtain ⟨hrefused, hplaced⟩ :=
      ok.placeAllocated halloc hphys hpages hobject hplace (by rwa [hsize])
    rcases hout with ⟨code, hanswer, -, rfl⟩ | ⟨placedAt, hanswer, -, rfl⟩
    · obtain ⟨hregions, builds⟩ := hrefused code hanswer
      exact ⟨by rw [hregions]; exact List.Subset.refl _, builds⟩
    · exact hplaced placedAt hanswer

/-! ## Cloning an address space -/

theorem RegionsOrdered.congr {regions regions' : List UserspaceRegion}
    (ordered : RegionsOrdered regions)
    (h : regions'.map UserspaceRegion.userRegion = regions.map UserspaceRegion.userRegion) :
    RegionsOrdered regions' := by
  have hmem : ∀ region ∈ regions', ∃ other ∈ regions, other.userRegion = region.userRegion := by
    intro region hregion
    rw [← List.mem_map, ← h]
    exact List.mem_map_of_mem hregion
  constructor
  · have hordered : (regions.map UserspaceRegion.userRegion).Pairwise
        fun a b => a.limit ≤ b.start.toNat := List.pairwise_map.mpr ordered.ordered
    rw [← h] at hordered
    exact List.pairwise_map.mp hordered
  · intro region hregion
    obtain ⟨other, hother, hsame⟩ := hmem region hregion
    rw [← hsame]
    exact ordered.aligned other hother
  · intro region hregion
    obtain ⟨other, hother, hsame⟩ := hmem region hregion
    rw [← hsame]
    exact ordered.bounded other hother

/-- **A region is mapped behind the others**, or nothing changes. -/
theorem MemoryOk.append
    (ok : MemoryOk source space.tables
      (update spaces i (some ⟨space.regions, space.root⟩)) live object)
    {region : UserspaceRegion} (hbacking : region.backing ∈ live)
    (ordered : RegionsOrdered (space.regions ++ [region])) {code : ErrorCode}
    (h : mapIntoTable source region.backing space.root space.tables region.userRegion 0
      (region.permissions &&& .read != .none) (region.permissions &&& .write != .none)
      (region.permissions &&& .execute != .none) = .ok (tables', code)) :
    (code ≠ .ESUCCESS → tables' = space.tables) ∧
      (code = .ESUCCESS → MemoryOk source tables'
        (update spaces i (some ⟨space.regions ++ [region], space.root⟩)) live object) := by
  have hself : update spaces i (some ⟨space.regions, space.root⟩) i =
      some ⟨space.regions, space.root⟩ := update_self _ _ _
  have spaceOk : SpaceOk source space := ok.spaceOk i _ hself
  obtain ⟨hrefused, happended⟩ := spaceOk.append ordered h
  refine ⟨hrefused, fun hcode => ?_⟩
  obtain ⟨-, hsize, done, hmap, hdone⟩ := mapIntoTable_cases h
  obtain rfl : done = true := by
    cases done with
    | true => rfl
    | false => exact absurd (hdone.symm.trans hcode) nofun
  have hlast : region ∈ space.regions ++ [region] :=
    List.mem_append_right _ (List.mem_singleton_self _)
  have hbounded := ordered.bounded region hlast
  have hframes := region.backing.inMemory
  have hle : region.userRegion.size.toNat ≤ region.backing.size.toNat := hsize
  have mapped := mapRegion_spec spaceOk.tree (insideHalf_of_bounded hbounded) (by omega) hmap
  have acted := ok.act hself mapped.within (mapRegion_grows hmap) (happended hcode)
    fun other hother => ?_
  · rwa [update_idem] at acted
  · rcases List.mem_append.mp hother with hother | hother
    · exact ok.backed i _ hself other hother
    · rw [List.mem_singleton.mp hother]
      exact ⟨hbacking, hle⟩

omit [DecidableEq ι] in
/-- **The backing of a clone's region** is that of the region, or a new allocation. -/
theorem MemoryOk.backingForFork (ok : MemoryOk source tables spaces live object)
    {region : UserspaceRegion} (hbacking : region.backing ∈ live)
    {result : Except ErrorCode BackingRegion}
    (h : BekOS.backingForFork source tables region object = (tables', result)) :
    (∀ code, result = .error code → tables' = tables) ∧
      ∀ backing, result = .ok backing → ∃ live', live ⊆ live' ∧ backing ∈ live' ∧
        (∀ other ∈ live', other ∈ live ∨ object ≤ other.object ∧ backing = other) ∧
        MemoryOk source tables' spaces live' (object + 1) := by
  have hshared : (tables, Except.ok region.backing) = (tables', result) →
      (∀ code, result = .error code → tables' = tables) ∧
        ∀ backing, result = .ok backing → ∃ live', live ⊆ live' ∧ backing ∈ live' ∧
          (∀ other ∈ live', other ∈ live ∨ object ≤ other.object ∧ backing = other) ∧
          MemoryOk source tables' spaces live' (object + 1) := by
    intro heq
    cases heq
    refine ⟨nofun, fun backing heq => ?_⟩
    cases heq
    exact ⟨live, subset_rfl, hbacking, fun _ => Or.inl, ok.mono (Nat.le_succ _)⟩
  unfold BekOS.backingForFork at h
  split at h
  · split_ifs at h with hwrite
    · exact hshared h
    · rcases createContiguous_cases source tables (region.backing.size / pageSize) object with
        ⟨-, hnone⟩ | ⟨page, pageAllocator, copy, halloc, hcreate, -, hphys, hsize, hobject⟩
      · rw [hnone] at h
        cases h
        exact ⟨fun _ _ => rfl, nofun⟩
      · rw [hcreate] at h
        cases h
        refine ⟨nofun, fun backing heq => ?_⟩
        cases heq
        have hpages : copy.size.toNat = (region.backing.size / pageSize).toNat * 4096 := by
          rw [hsize, toNat_pages_mul]
        refine ⟨insert copy live, Set.subset_insert _ _, Set.mem_insert _ _, ?_,
          ok.allocate halloc hphys hpages hobject.ge (hobject.trans_lt object.lt_succ_self)⟩
        rintro other (rfl | hother)
        · exact Or.inr ⟨hobject.ge, rfl⟩
        · exact Or.inl hother
  · exact hshared h

/-- **The loop of `clone_for_fork`** maps the regions one behind the other. -/
theorem cloneRegions_builds (rest : List UserspaceRegion) :
    ∀ {clone out : SpaceManager σ} {object : ℕ} {live : Set BackingRegion} {code : ErrorCode},
      MemoryOk source clone.tables
        (update spaces i (some ⟨clone.regions, clone.root⟩)) live object →
      RegionsOrdered (clone.regions ++ rest) → (∀ region ∈ rest, region.backing ∈ live) →
      cloneRegions source rest clone object = .ok (out, code) →
      clone.regions ⊆ out.regions ∧ ∃ listed, (code = .ESUCCESS → listed = out.regions) ∧
        Builds source spaces i live object (object + rest.length) out listed := by
  induction rest with
  | nil =>
      intro clone out object live code ok _ _ h
      cases h
      exact ⟨List.Subset.refl _, clone.regions, fun _ => rfl, (Makes.refl _ _ _).builds ok⟩
  | cons old rest ih =>
      intro clone out object live code ok ordered hlive h
      obtain ⟨hold, hrest⟩ := List.forall_mem_cons.mp hlive
      rw [cloneRegions] at h
      cases hback : BekOS.backingForFork source clone.tables old object with
      | mk tables' result =>
        obtain ⟨hrefused, hbacked⟩ := ok.backingForFork hold hback
        rw [hback] at h
        cases result with
        | error failed =>
            cases h
            obtain rfl := hrefused _ rfl
            exact ⟨List.Subset.refl _, clone.regions, fun _ => rfl,
              (Makes.refl _ _ _).builds (ok.mono (Nat.le_add_right _ _))⟩
        | ok backing =>
            obtain ⟨live', hsubset, hmem, hnew, ok'⟩ := hbacked backing rfl
            obtain ⟨⟨tables'', mapCode⟩, hmap, h⟩ := bind_eq_ok.mp h
            have hordered : RegionsOrdered
                ((clone.regions ++ [{ old with backing }]) ++ rest) := by
              apply ordered.congr
              simp
            have hmakes : Makes live live' object (clone.regions ++ [{ old with backing }]) := by
              refine ⟨hsubset, fun other hother => (hnew other hother).imp_right ?_⟩
              rintro ⟨hle, rfl⟩
              exact ⟨hle, _, List.mem_append_right _ (List.mem_singleton_self _), rfl⟩
            have happend : clone.regions ⊆ clone.regions ++ [{ old with backing }] :=
              List.subset_append_left _ _
            obtain ⟨hunmapped, hmapped⟩ := @MemoryOk.append σ source ι tables'' spaces live' _ i
              { clone with tables := tables' } _ ok' { old with backing } hmem
              (hordered.sublist (List.sublist_append_left _ _)) mapCode hmap
            dsimp only at h
            split_ifs at h with hcode
            · cases h
              obtain rfl := hunmapped hcode
              refine ⟨happend, clone.regions, fun hok => absurd hok hcode, live', hmakes,
                fun region hregion => ?_, ok'.mono (by rw [List.length_cons]; omega)⟩
              rcases List.mem_append.mp hregion with hbefore | hlast
              · exact (ok'.backed i _ (update_self _ _ _) region hbefore).1
              · exact List.mem_singleton.mp hlast ▸ hmem
            · rw [ne_eq, not_not] at hcode
              obtain ⟨hregions, listed, hlisted, later, hlater, hbacked, okLater⟩ := ih (hmapped hcode)
                hordered (fun region hregion => hsubset (hrest region hregion)) h
              refine ⟨fun region hregion => hregions (happend hregion), listed, hlisted, later,
                hmakes.trans hlater (Nat.le_succ _) hregions, hbacked, ?_⟩
              rwa [List.length_cons, ← Nat.add_assoc, Nat.add_right_comm]

end Building

end BekOS
