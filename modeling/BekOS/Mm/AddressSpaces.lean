import BekOS.Mm.SpaceRefinement

/-!
# Address spaces side by side

The address spaces of all processes have their tables in one memory and take their pages
from one page allocator.  `MemoryOk` is what holds of them together: each is as
`SpaceOk` has it, no two share a table, and the allocations that they map are handed out
by the page allocator, apart from one another and from all tables.

What the kernel does to an address space comes down to a few moves: hand out or free an
allocation, start an empty space, and add a region to one.  Each keeps `MemoryOk`.
-/

namespace BekOS

open Function

variable {σ : Type} {source : TableSource σ}

/-! ## What mapping asks of the page allocator -/

/-- Everything handed out stays so, and no embedded table comes in. -/
structure Grows (source : TableSource σ) (before after : TableState σ) : Prop where
  allocated : ∀ page count, source.allocated before.pageAllocator page = some count →
    source.allocated after.pageAllocator page = some count
  embedded : before.embeddedTablesCurrent = none → after.embeddedTablesCurrent = none

theorem Grows.refl (state : TableState σ) : Grows source state state :=
  ⟨fun _ _ h => h, id⟩

theorem Grows.trans {before middle after : TableState σ} (first : Grows source before middle)
    (second : Grows source middle after) : Grows source before after :=
  ⟨fun page count h => second.allocated page count (first.allocated page count h),
    fun h => second.embedded (first.embedded h)⟩

theorem Grows.allocateRegion {state : TableState σ} {count : ℕ} {page : Page}
    {pageAllocator : σ} (mem : TableMemory)
    (h : source.allocateRegion state.pageAllocator count = some (page, pageAllocator)) :
    Grows source state { state with mem, pageAllocator } := by
  refine ⟨fun other otherCount hother => ?_, id⟩
  have hne : other ≠ page := by
    rintro rfl
    cases hother.symm.trans (source.allocate_new h)
  rw [source.allocate_allocated h, update_of_ne hne]
  exact hother

theorem allocateTable_grows {state state' : TableState σ} {table : Page}
    (h : allocateTable source state = some (table, state')) : Grows source state state' := by
  have hallocator : allocateTable.fromAllocator source state = some (table, state') →
      Grows source state state' := by
    intro h
    obtain ⟨⟨page, pageAllocator⟩, halloc, heq⟩ := Option.map_eq_some_iff.mp h
    cases heq
    exact .allocateRegion _ halloc
  unfold allocateTable at h
  split at h
  · rename_i current hcurrent
    split_ifs at h with hroom
    · cases h
      refine ⟨fun _ _ hother => hother, fun hnone => ?_⟩
      cases hcurrent.symm.trans hnone
    · exact hallocator h
  · exact hallocator h

section Mapping

variable {height : ℕ} {flags : U64}
  {next : Page → TableState σ → MapCursor → Option (TableState σ × MapCursor × Bool)}

theorem mapUpperEntry_grows {table : Page} {idx : ℕ} {state : TableState σ} {cursor : MapCursor}
    {out : TableState σ × MapCursor × Bool}
    (below : ∀ table state cursor out, next table state cursor = some out →
      Grows source state out.1)
    (h : mapUpperEntry source height flags next table idx state cursor = some out) :
    Grows source state out.1 := by
  unfold mapUpperEntry at h
  dsimp only at h
  split_ifs at h with hinvalid hblock htable
  · cases h
    exact ⟨fun _ _ hother => hother, id⟩
  · obtain ⟨⟨allocated, state'⟩, hallocate, hnext⟩ := Option.bind_eq_some_iff.mp h
    have hlinked : Grows source state' (state'.write table idx (createTableEntry allocated)) :=
      ⟨fun _ _ hother => hother, id⟩
    exact ((allocateTable_grows hallocate).trans hlinked).trans (below _ _ _ _ hnext)
  · exact below _ _ _ _ h
  · cases h
    exact .refl _

theorem mapUpperLoop_grows {table : Page}
    (below : ∀ table state cursor out, next table state cursor = some out →
      Grows source state out.1) (remaining : ℕ) :
    ∀ {state : TableState σ} {cursor : MapCursor} {out : TableState σ × MapCursor × Bool},
      mapUpperLoop source height flags next table remaining state cursor = some out →
        Grows source state out.1 := by
  induction remaining with
  | zero =>
      intro state cursor out h
      cases h
      exact .refl _
  | succ remaining ih =>
      intro state cursor out h
      rw [mapUpperLoop] at h
      split_ifs at h with hsize
      · cases h
        exact .refl _
      · obtain ⟨moved, hentry, hrest⟩ := Option.bind_eq_some_iff.mp h
        have hmoved := mapUpperEntry_grows below hentry
        split_ifs at hrest with hdone
        · exact hmoved.trans (ih hrest)
        · cases hrest
          exact hmoved

theorem mapUpper_grows (height : ℕ) :
    ∀ {table : Page} {state : TableState σ} {cursor : MapCursor}
      {out : TableState σ × MapCursor × Bool},
      mapUpper source flags height table state cursor = some out → Grows source state out.1 := by
  induction height with
  | zero =>
      intro table state cursor out h
      cases h
      exact ⟨fun _ _ hother => hother, id⟩
  | succ height ih =>
      intro table state cursor out h
      exact mapUpperLoop_grows (fun _ _ _ _ hbelow => ih hbelow) _ h

/-- **Mapping** gives nothing back. -/
theorem mapRegion_grows {root : Page} {state : TableState σ}
    {virtStart physStart size attrs attrIdx : U64} {out : TableState σ × Bool}
    (h : mapRegion source root state virtStart physStart size attrs attrIdx = some out) :
    Grows source state out.1 := by
  unfold mapRegion at h
  split_ifs at h
  · cases h
    exact .refl _
  · obtain ⟨moved, hmap, rfl⟩ := Option.map_eq_some_iff.mp h
    exact mapUpper_grows 3 hmap

end Mapping

/-! ## The memory of all address spaces -/

/-- The regions of an address space and the root of its tables. -/
structure AddressSpace where
  regions : List UserspaceRegion
  root : Page

/-- The address space, with the memory that its tables are in. -/
def AddressSpace.manager (space : AddressSpace) (tables : TableState σ) : SpaceManager σ where
  regions := space.regions
  root := space.root
  tables := tables

/-- The first page of the memory. -/
def BackingRegion.page (backing : BackingRegion) : Page :=
  (backing.physicalPtr >>> 12).setWidth 36

/-- How many pages the memory is. -/
def BackingRegion.pages (backing : BackingRegion) : ℕ := backing.size.toNat / 4096

/-- The page allocator has handed out the memory. -/
structure BackingRegion.HandedOut (source : TableSource σ) (pageAllocator : σ)
    (backing : BackingRegion) : Prop where
  physicalPtr_eq : backing.physicalPtr = backing.page.address
  size_eq : backing.size.toNat = backing.pages * 4096
  pages_pos : 0 < backing.pages
  allocated : source.allocated pageAllocator backing.page = some backing.pages

/-- The page that the next address space gets for its root table holds no valid entry. -/
def BlankRoot (source : TableSource σ) (tables : TableState σ) : Prop :=
  ∀ page pageAllocator, source.allocateRegion tables.pageAllocator 1 = some (page, pageAllocator) →
    Blank tables.mem page

/-- What all address spaces satisfy together: `live` are the allocations that have not
been destroyed, and objects are numbered below `objectCount`. -/
structure MemoryOk {ι : Type} (source : TableSource σ) (tables : TableState σ)
    (spaces : ι → Option AddressSpace) (live : Set BackingRegion) (objectCount : ℕ) : Prop where
  embedded : tables.embeddedTablesCurrent = none
  spaceOk : ∀ i space, spaces i = some space → SpaceOk source (space.manager tables)
  separate : ∀ i j space space', i ≠ j → spaces i = some space → spaces j = some space' →
    ∀ page, InTree tables.mem 3 space.root page → ¬ InTree tables.mem 3 space'.root page
  handedOut : ∀ backing ∈ live, backing.HandedOut source tables.pageAllocator
  distinct : ∀ backing ∈ live, ∀ other ∈ live, backing ≠ other →
    backing.object ≠ other.object ∧ Apart backing.page backing.pages other.page other.pages
  numbered : ∀ backing ∈ live, backing.object < objectCount
  outside : ∀ backing ∈ live, ∀ i space, spaces i = some space →
    ¬ InTree tables.mem 3 space.root backing.page
  backed : ∀ i space, spaces i = some space → ∀ region ∈ space.regions,
    region.backing ∈ live ∧ region.userRegion.size.toNat ≤ region.backing.size.toNat

section Moves

variable {ι : Type} {tables tables' : TableState σ} {spaces : ι → Option AddressSpace}
  {live : Set BackingRegion} {objectCount : ℕ}

theorem Undisturbed.inTree_iff {root : Page} (same : Undisturbed source root tables tables')
    (page : Page) : InTree tables'.mem 3 root page ↔ InTree tables.mem 3 root page :=
  inTree_congr same.mem page

theorem embeddedOk_of_none (h : tables.embeddedTablesCurrent = none) :
    EmbeddedOk source tables := by
  intro current hcurrent
  rw [h] at hcurrent
  cases hcurrent

theorem inUse_iff_of_allocated {page : Page} {count : ℕ}
    (h : source.allocated tables.pageAllocator page = some count) :
    InUse source tables page ↔ count = 1 := by
  refine ⟨fun hused => ?_, fun hone => Or.inl (h.trans (congrArg some hone))⟩
  rcases hused with hheld | ⟨hlow, hhigh, -⟩
  · exact Option.some.inj (h.symm.trans hheld)
  · exact absurd ⟨hlow, hhigh⟩ (source.allocated_outside h)

theorem Grows.not_inTree {root page : Page} {count : ℕ}
    (grows : Grows source tables tables') (within : Within source tables tables' 3 root)
    (h : source.allocated tables.pageAllocator page = some count)
    (hnot : ¬ InTree tables.mem 3 root page) : ¬ InTree tables'.mem 3 root page := by
  intro hin
  have hone := (inUse_iff_of_allocated (grows.allocated page count h)).mp (within.ok.used page hin)
  rcases within.grown page hin with hbefore | hfree
  · exact hnot hbefore
  · exact hfree ((inUse_iff_of_allocated h).mpr hone)

namespace MemoryOk

theorem mono (ok : MemoryOk source tables spaces live objectCount) {later : ℕ}
    (h : objectCount ≤ later) : MemoryOk source tables spaces live later :=
  { ok with numbered := fun backing hbacking => (ok.numbered backing hbacking).trans_le h }

theorem reindex {κ : Type} (ok : MemoryOk source tables spaces live objectCount)
    (name : κ → Option ι) (injective : ∀ k k' i, name k = some i → name k' = some i → k = k') :
    MemoryOk source tables (fun k => (name k).bind spaces) live objectCount where
  embedded := ok.embedded
  spaceOk k space hspace := by
    obtain ⟨i, -, hi⟩ := Option.bind_eq_some_iff.mp hspace
    exact ok.spaceOk i space hi
  separate k k' space space' hne hspace hspace' := by
    obtain ⟨i, hname, hi⟩ := Option.bind_eq_some_iff.mp hspace
    obtain ⟨j, hname', hj⟩ := Option.bind_eq_some_iff.mp hspace'
    refine ok.separate i j space space' ?_ hi hj
    rintro rfl
    exact hne (injective k k' i hname hname')
  handedOut := ok.handedOut
  distinct := ok.distinct
  numbered := ok.numbered
  outside backing hbacking k space hspace := by
    obtain ⟨i, -, hi⟩ := Option.bind_eq_some_iff.mp hspace
    exact ok.outside backing hbacking i space hi
  backed k space hspace := by
    obtain ⟨i, -, hi⟩ := Option.bind_eq_some_iff.mp hspace
    exact ok.backed i space hi

/-- **A step that disturbs no address space** keeps what holds of the spaces. -/
theorem undisturbed (ok : MemoryOk source tables spaces live objectCount)
    (tables' : TableState σ) (embedded : tables'.embeddedTablesCurrent = none)
    (same : ∀ i space, spaces i = some space → Undisturbed source space.root tables tables')
    (handedOut : ∀ backing ∈ live, backing.HandedOut source tables'.pageAllocator) :
    MemoryOk source tables' spaces live objectCount where
  embedded := embedded
  spaceOk i space hspace := (ok.spaceOk i space hspace).undisturbed (same i space hspace)
  separate i j space space' hne hspace hspace' page hin hin' :=
    ok.separate i j space space' hne hspace hspace' page
      (((same i space hspace).inTree_iff page).mp hin)
      (((same j space' hspace').inTree_iff page).mp hin')
  handedOut := handedOut
  distinct := ok.distinct
  numbered := ok.numbered
  outside backing hbacking i space hspace hin :=
    ok.outside backing hbacking i space hspace
      (((same i space hspace).inTree_iff backing.page).mp hin)
  backed := ok.backed

theorem handedOut_grows (ok : MemoryOk source tables spaces live objectCount)
    (grows : Grows source tables tables') :
    ∀ backing ∈ live, backing.HandedOut source tables'.pageAllocator := by
  intro backing hbacking
  have handedOut := ok.handedOut backing hbacking
  exact { handedOut with allocated := grows.allocated _ _ handedOut.allocated }

/-- **An allocation is handed out.** -/
theorem allocate (ok : MemoryOk source tables spaces live objectCount) {count : ℕ} {page : Page}
    {pageAllocator : σ}
    (h : source.allocateRegion tables.pageAllocator count = some (page, pageAllocator))
    {backing : BackingRegion} (hphys : backing.physicalPtr = page.address)
    (hsize : backing.size.toNat = count * 4096) (hobject : objectCount ≤ backing.object)
    {later : ℕ} (hlater : backing.object < later) :
    MemoryOk source { tables with pageAllocator } spaces (insert backing live) later := by
  have hpage : backing.page = page := by rw [BackingRegion.page, hphys, page_of_address]
  have hpages : backing.pages = count := by
    rw [BackingRegion.pages, hsize, Nat.mul_div_cancel _ (by decide)]
  have hgrows : Grows source tables { tables with pageAllocator } := .allocateRegion _ h
  have okSpaces := ok.undisturbed { tables with pageAllocator } ok.embedded
    (fun i space hspace => undisturbed_allocateRegion (ok.spaceOk i space hspace).tree h)
    (ok.handedOut_grows hgrows)
  have hnew : ∀ other ∈ live, backing.object ≠ other.object ∧
      Apart backing.page backing.pages other.page other.pages := by
    intro other hother
    refine ⟨(hobject.trans_lt' (ok.numbered other hother)).ne', ?_⟩
    rw [hpage, hpages]
    exact source.allocate_apart h _ _ (ok.handedOut other hother).allocated
  refine { okSpaces with
    handedOut := ?_, distinct := ?_, numbered := ?_, outside := ?_, backed := ?_ }
  · rintro other (rfl | hother)
    · refine ⟨by rw [hpage, hphys], by rw [hpages, hsize], ?_, ?_⟩
      · rw [hpages]
        exact (source.allocate_bounds h).1
      · rw [hpage, hpages, source.allocate_allocated h, update_self]
    · exact okSpaces.handedOut other hother
  · rintro first (rfl | hfirst) second (rfl | hsecond) hne
    · exact absurd rfl hne
    · exact hnew second hsecond
    · obtain ⟨hobjects, hapart⟩ := hnew first hfirst
      exact ⟨hobjects.symm, hapart.symm⟩
    · exact ok.distinct first hfirst second hsecond hne
  · rintro other (rfl | hother)
    · exact hlater
    · exact ((ok.numbered other hother).trans_le hobject).trans hlater
  · rintro other (rfl | hother) i space hspace
    · have hnot : ¬ InTree tables.mem 3 space.root page :=
        not_inTree_of_allocateRegion (ok.spaceOk i space hspace).tree h
      rwa [← hpage] at hnot
    · exact okSpaces.outside other hother i space hspace
  · intro i space hspace region hregion
    exact (ok.backed i space hspace region hregion).imp_left (Set.mem_insert_of_mem _)

theorem drop (ok : MemoryOk source tables spaces live objectCount) {backing : BackingRegion}
    (unmapped : ∀ i space, spaces i = some space → ∀ region ∈ space.regions,
      region.backing ≠ backing) :
    MemoryOk source tables spaces (live \ {backing}) objectCount :=
  { ok with
    handedOut := fun other hother => ok.handedOut other hother.1
    distinct := fun first hfirst second hsecond =>
      ok.distinct first hfirst.1 second hsecond.1
    numbered := fun other hother => ok.numbered other hother.1
    outside := fun other hother => ok.outside other hother.1
    backed := fun i space hspace region hregion =>
      (ok.backed i space hspace region hregion).imp_left fun hlive =>
        ⟨hlive, unmapped i space hspace region hregion⟩ }

theorem page_ne (ok : MemoryOk source tables spaces live objectCount)
    {backing other : BackingRegion} (hbacking : backing ∈ live) (hother : other ∈ live)
    (hne : backing ≠ other) : backing.page ≠ other.page := by
  intro hpage
  have hapart := (ok.distinct backing hbacking other hother hne).2
  have hpos := (ok.handedOut backing hbacking).pages_pos
  have hpos' := (ok.handedOut other hother).pages_pos
  rw [Apart, hpage] at hapart
  omega

/-- **An allocation that no address space maps is freed.** -/
theorem free (ok : MemoryOk source tables spaces live objectCount) {backing : BackingRegion}
    (hbacking : backing ∈ live)
    (unmapped : ∀ i space, spaces i = some space → ∀ region ∈ space.regions,
      region.backing ≠ backing) :
    MemoryOk source (freeAllocation source tables backing) spaces (live \ {backing})
      objectCount := by
  have handedOut := ok.handedOut backing hbacking
  apply (ok.drop unmapped).undisturbed (freeAllocation source tables backing) ok.embedded
  · intro i space hspace
    exact undisturbed_freeRegion (ok.spaceOk i space hspace).tree handedOut.allocated
      (ok.outside backing hbacking i space hspace)
  · rintro other ⟨hother, hne⟩
    have hfree : source.allocated (source.freeRegion tables.pageAllocator backing.page) =
        update (source.allocated tables.pageAllocator) backing.page none :=
      source.free_allocated handedOut.allocated
    refine { ok.handedOut other hother with allocated := ?_ }
    show source.allocated (source.freeRegion tables.pageAllocator backing.page) other.page = _
    rw [hfree, update_of_ne (ok.page_ne hother hbacking hne)]
    exact (ok.handedOut other hother).allocated

variable [DecidableEq ι] {i : ι}

theorem remove (ok : MemoryOk source tables spaces live objectCount) (i : ι) :
    MemoryOk source tables (update spaces i none) live objectCount := by
  have hname : (fun j => (if j = i then none else some j).bind spaces) =
      update spaces i none := by
    funext j
    rw [update_apply]
    split_ifs
    · rfl
    · rfl
  rw [← hname]
  refine ok.reindex _ fun k k' j hk hk' => ?_
  split_ifs at hk hk'
  cases hk
  cases hk'
  rfl

theorem put (ok : MemoryOk source tables spaces live objectCount) {space : AddressSpace}
    (spaceOk : SpaceOk source (space.manager tables))
    (separate : ∀ j other, j ≠ i → spaces j = some other →
      ∀ page, InTree tables.mem 3 space.root page → ¬ InTree tables.mem 3 other.root page)
    (outside : ∀ backing ∈ live, ¬ InTree tables.mem 3 space.root backing.page)
    (backed : ∀ region ∈ space.regions,
      region.backing ∈ live ∧ region.userRegion.size.toNat ≤ region.backing.size.toNat) :
    MemoryOk source tables (update spaces i (some space)) live objectCount := by
  have hcases : ∀ {j other}, update spaces i (some space) j = some other →
      j = i ∧ other = space ∨ j ≠ i ∧ spaces j = some other := by
    intro j other h
    rw [update_apply] at h
    split_ifs at h with hj
    · exact Or.inl ⟨hj, (Option.some.inj h).symm⟩
    · exact Or.inr ⟨hj, h⟩
  refine { ok with spaceOk := ?_, separate := ?_, outside := ?_, backed := ?_ }
  · intro j other h
    rcases hcases h with ⟨-, rfl⟩ | ⟨-, h⟩
    · exact spaceOk
    · exact ok.spaceOk j other h
  · intro j k other other' hne h h' page hin hin'
    rcases hcases h with ⟨rfl, rfl⟩ | ⟨hj, hother⟩
    · rcases hcases h' with ⟨rfl, -⟩ | ⟨hk, hother'⟩
      · exact hne rfl
      · exact separate k other' hk hother' page hin hin'
    · rcases hcases h' with ⟨rfl, rfl⟩ | ⟨-, hother'⟩
      · exact separate j other hj hother page hin' hin
      · exact ok.separate j k other other' hne hother hother' page hin hin'
  · intro backing hbacking j other h
    rcases hcases h with ⟨-, rfl⟩ | ⟨-, h⟩
    · exact outside backing hbacking
    · exact ok.outside backing hbacking j other h
  · intro j other h
    rcases hcases h with ⟨-, rfl⟩ | ⟨-, h⟩
    · exact backed
    · exact ok.backed j other h

/-- **An empty address space** gets a page for its root table, which holds no valid entry. -/
theorem create (ok : MemoryOk source tables spaces live objectCount) {page : Page}
    {pageAllocator : σ}
    (h : source.allocateRegion tables.pageAllocator 1 = some (page, pageAllocator))
    (blank : Blank tables.mem page) :
    MemoryOk source { tables with pageAllocator }
      (update spaces i (some ⟨[], page⟩)) live objectCount := by
  have hgrows : Grows source tables { tables with pageAllocator } := .allocateRegion _ h
  obtain ⟨hfresh, hheld⟩ := source.allocate_fresh h
  have hallocated : source.allocated pageAllocator page = some 1 := by
    rw [source.allocate_allocated h, update_self]
  have hunused : ∀ {other}, InUse source tables other → other ≠ page := by
    rintro other (hin | ⟨hlow, hhigh, -⟩) rfl
    · exact hfresh hin
    · exact source.allocated_outside hallocated ⟨hlow, hhigh⟩
  have hroot : ∀ other, InTree tables.mem 3 page other ↔ other = page := inTree_of_blank blank 3
  have hsame : ∀ j space, spaces j = some space → Undisturbed source space.root tables
      { tables with pageAllocator } := by
    intro j space hspace
    have tree := (ok.spaceOk j space hspace).tree
    refine ⟨fun _ _ _ => rfl, fun other hother => ?_, embeddedOk_of_none ok.embedded⟩
    exact (tree.used other hother).imp_left fun hheld => source.allocate_held h hheld
  have okSpaces := ok.undisturbed { tables with pageAllocator } ok.embedded hsame
    (ok.handedOut_grows hgrows)
  apply okSpaces.put
  · exact SpaceOk.create (embeddedOk_of_none ok.embedded) h blank
  · intro j other _ hspace root hin hin'
    rw [hroot] at hin
    subst hin
    exact hunused ((ok.spaceOk j other hspace).tree.used root hin') rfl
  · intro backing hbacking hin
    rw [hroot] at hin
    have hnew := source.allocate_new h
    rw [← hin, (ok.handedOut backing hbacking).allocated] at hnew
    cases hnew
  · exact List.forall_mem_nil _

/-- **Work below the root of an address space** leaves the others alone. -/
theorem act (ok : MemoryOk source tables spaces live objectCount) {space : AddressSpace}
    (hspace : spaces i = some space) (within : Within source tables tables' 3 space.root)
    (grows : Grows source tables tables') {regions : List UserspaceRegion}
    (spaceOk : SpaceOk source ⟨regions, space.root, tables'⟩)
    (backed : ∀ region ∈ regions,
      region.backing ∈ live ∧ region.userRegion.size.toNat ≤ region.backing.size.toNat) :
    MemoryOk source tables' (update spaces i (some ⟨regions, space.root⟩)) live
      objectCount := by
  have hothers : ∀ {j other}, update spaces i none j = some other →
      j ≠ i ∧ spaces j = some other := by
    intro j other h
    rw [update_apply] at h
    split_ifs at h with hj
    exact ⟨hj, h⟩
  have embedded := grows.embedded ok.embedded
  have hsame : ∀ j other, update spaces i none j = some other →
      Undisturbed source other.root tables tables' := by
    intro j other h
    obtain ⟨hj, h⟩ := hothers h
    have tree := (ok.spaceOk j other h).tree
    have hnot : ∀ page, InTree tables.mem 3 other.root page →
        ¬ InTree tables.mem 3 space.root page := ok.separate j i other space hj h hspace
    exact ⟨fun page hin => within.frame page (tree.used page hin) (hnot page hin),
      fun page hin => within.keeps page (tree.used page hin) (hnot page hin),
      embeddedOk_of_none embedded⟩
  have okOthers := (ok.remove i).undisturbed tables' embedded hsame (ok.handedOut_grows grows)
  have hidem : update (update spaces i none) i (some ⟨regions, space.root⟩) =
      update spaces i (some ⟨regions, space.root⟩) := update_idem _ _ _
  rw [← hidem]
  apply okOthers.put
  · exact spaceOk
  · intro j other _ h page hin hin'
    obtain ⟨hj, h'⟩ := hothers h
    have hin'' := ((hsame j other h).inTree_iff page).mp hin'
    rcases within.grown page hin with hbefore | hfree
    · exact ok.separate i j space other (Ne.symm hj) hspace h' page hbefore hin''
    · exact hfree ((ok.spaceOk j other h').tree.used page hin'')
  · intro backing hbacking
    exact grows.not_inTree within (ok.handedOut backing hbacking).allocated
      (ok.outside backing hbacking i space hspace)
  · exact backed

end MemoryOk

theorem Places.grows {space : SpaceManager σ} {location : Option U64}
    {allowedOperations : MemoryOperation} {backing : BackingRegion} {idx : ℕ} {code : ErrorCode}
    (places : Places source space location allowedOperations backing idx tables' code) :
    Grows source space.tables tables' := by
  obtain ⟨-, -, done, hmap, -⟩ := mapIntoTable_cases places.mapped
  exact mapRegion_grows hmap

namespace MemoryOk

variable [DecidableEq ι] {i : ι} {space : AddressSpace} {backing : BackingRegion}

/-- **`place_region`** puts an allocation into an address space, or leaves it alone. -/
theorem place (ok : MemoryOk source tables spaces live objectCount)
    (hspace : spaces i = some space) {location : Option U64}
    {allowedOperations : MemoryOperation} {name : String} {placed : SpaceManager σ}
    {result : Except ErrorCode UserRegion}
    (h : placeRegion source (space.manager tables) location allowedOperations name backing =
      .ok (placed, result))
    (noWrap : NoWrap location backing.size) (hbacking : backing ∈ live) :
    (placed.root = space.root ∧ MemoryOk source placed.tables
        (update spaces i (some ⟨placed.regions, space.root⟩)) live objectCount) ∧
      ∀ code, result = .error code → placed = space.manager tables := by
  have spaceOk := ok.spaceOk i space hspace
  obtain ⟨spaceOk', hrefused⟩ := placeRegion_spaceOk h spaceOk noWrap
  refine ⟨?_, hrefused⟩
  rcases placeRegion_cases h with ⟨code, tables', -, rfl, -⟩ |
    ⟨idx, tables', places, -, rfl, rfl⟩
  · obtain rfl := hrefused code rfl
    refine ⟨rfl, ?_⟩
    have hsame : update spaces i (some ⟨space.regions, space.root⟩) = spaces :=
      update_eq_self_iff.mpr hspace.symm
    show MemoryOk source tables (update spaces i (some ⟨space.regions, space.root⟩)) _ _
    rwa [hsame]
  · obtain ⟨done, -, mapped⟩ := places.regionMapped spaceOk noWrap
    obtain ⟨-, hsize, -⟩ := mapIntoTable_cases places.mapped
    refine ⟨rfl, ok.act hspace mapped.within places.grows spaceOk' fun region hregion => ?_⟩
    rcases List.eq_or_mem_of_mem_insertIdx hregion with rfl | hregion
    · exact ⟨hbacking, hsize⟩
    · exact ok.backed i space hspace region hregion

end MemoryOk

end Moves

end BekOS
