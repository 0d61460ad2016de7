import BekOS.Mm.KernelAllocator

/-!
# Runs of the `KernelAllocator`

The blocks of the slab allocators are blocks of the bitmap allocator that nobody frees, so the
invariants of the sub-allocators hold side by side.  What `free` is given leads to the
sub-allocator that `allocate` asked; only for pages it does not end there.
-/

namespace BekOS

open PartialRun Function

namespace KernelAllocator

variable {data count : ℕ} {owned : Owned} {size size' align : U64}

/-! ## Finding the way -/

theorem find?_of_imp {α : Type*} {p p' : α → Bool} {l : List α} {a : α}
    (h : l.find? p = some a) (ha : p' a = true) (himp : ∀ b, p' b = true → p b = true) :
    l.find? p' = some a := by
  induction l with
  | nil => cases h
  | cons b rest ih =>
      rw [List.find?_cons] at h ⊢
      cases hb : p b with
      | true =>
          rw [hb] at h
          cases h
          rw [ha]
      | false =>
          rw [hb] at h
          have hb' : p' b = false := Bool.eq_false_iff.mpr fun htrue => by
            rw [himp b htrue] at hb
            cases hb
          rw [hb']
          exact ih h

/-- The slab allocator for a request, by the sizes of the objects. -/
def slabIndex (size align : U64) : Option (Fin 6) :=
  (List.finRange 6).find? fun i => size ≤ objectSizes i && align ≤ objectSizes i

theorem objectSizes_lt (i : Fin 6) : objectSizes i < largeSize := by
  revert i
  decide

theorem slabIndex_block (i : Fin 6) :
    slabIndex (SlabAllocator.defaultBlockSize (objectSizes i))
        (SlabAllocator.defaultBlockSize (objectSizes i)) = none ∧
      SlabAllocator.defaultBlockSize (objectSizes i) < largeSize := by
  revert i
  decide

theorem blockSize_power (i : Fin 6) : ∃ k ∈ List.range 64,
    (SlabAllocator.defaultBlockSize (objectSizes i)).toNat = 2 ^ k := by
  revert i
  decide

theorem layout_objectSizes (i : Fin 6) : SlabAllocator.Layout (objectSizes i)
    (SlabAllocator.defaultBlockSize (objectSizes i)) := by
  revert i
  decide +kernel

variable {i : Fin 6} {live : List Allocation} {allocation : Allocation}

theorem le_of_slabIndex (h : slabIndex size align = some i) :
    size ≤ objectSizes i ∧ align ≤ objectSizes i := by
  have hfound := List.find?_some h
  rwa [Bool.and_eq_true, decide_eq_true_iff, decide_eq_true_iff] at hfound

theorem slabIndex_of_le (h : slabIndex size align = some i) (hle : size ≤ size')
    (hfits : size' ≤ objectSizes i) : slabIndex size' align = some i := by
  obtain ⟨-, halign⟩ := le_of_slabIndex h
  refine find?_of_imp h ?_ fun j hj => ?_
  · rw [Bool.and_eq_true, decide_eq_true_iff, decide_eq_true_iff]
    exact ⟨hfits, halign⟩
  · rw [Bool.and_eq_true, decide_eq_true_iff, decide_eq_true_iff] at hj ⊢
    exact ⟨BitVec.le_trans hle hj.1, hj.2⟩

theorem slabIndex_large (h : size ≥ largeSize) (align : U64) : slabIndex size align = none := by
  refine List.find?_eq_none.mpr fun i _ => ?_
  have hlt := objectSizes_lt i
  rw [Bool.and_eq_true, decide_eq_true_iff, decide_eq_true_iff]
  rintro ⟨hle, -⟩
  bv_omega

/-! ## The invariant -/

/-- What is known of an allocation. -/
def AllocationOk (data count : ℕ) (allocation : Allocation) : Prop :=
  match allocation.origin with
  | .pages => allocation.size ≥ largeSize ∧
      ¬ (data ≤ allocation.ptr ∧ allocation.ptr < data + BitmapAllocator.chunkSize * count)
  | .slab i => slabIndex allocation.size allocation.align = some i ∧
      allocation.reported = objectSizes i
  | .bitmap => allocation.size < largeSize ∧
      slabIndex allocation.size allocation.align = none ∧ allocation.reported = allocation.size

/-- The block ends before the last chunk. -/
def Strict (data count : ℕ) (block : BitmapAllocator.Block) : Prop :=
  ∃ index, block.ptr = data + index * BitmapAllocator.chunkSize ∧
    index + BitmapAllocator.chunksFor block.size < count

/-- The region of pages lies outside the area of the bitmap allocator. -/
def OutsideArea (data count : ℕ) (region : VirtualRegion) : Prop :=
  region.start + region.size.toNat ≤ data ∨
    data + BitmapAllocator.chunkSize * count ≤ region.start

/-- The invariant. -/
structure Ok (data count : ℕ) (owned : Owned) : Prop where
  data_pos : 0 < data
  fits : data + BitmapAllocator.chunkSize * count < 2 ^ 64
  bitmap : BitmapAllocator.Ok data count owned.bitmapOwned
  strict : ∀ block ∈ owned.bitmapOwned.live, Strict data count block
  slabs : ∀ i, SlabAllocator.Ok (objectSizes i) (SlabAllocator.defaultBlockSize (objectSizes i))
    (owned.slabOwned i)
  regions : ∀ region ∈ owned.kernel.pageAllocator, OutsideArea data count region.region
  allocations : ∀ allocation ∈ owned.live, AllocationOk data count allocation

theorem Ok.slabFor_eq (ok : Ok data count owned) (size align : U64) :
    owned.kernel.slabFor size align = slabIndex size align := by
  have hsizes : ∀ i, (owned.kernel.slabAllocators i).objSize = objectSizes i :=
    fun i => (ok.slabs i).objSize_eq
  simp only [slabFor, slabIndex, hsizes]

theorem Ok.originOf_eq (ok : Ok data count owned) {allocation : Allocation}
    (hmem : allocation ∈ owned.live) (hlow : allocation.size ≤ size)
    (hhigh : size ≤ allocation.reported) :
    owned.kernel.originOf size allocation.align = allocation.origin := by
  have hok := ok.allocations allocation hmem
  unfold AllocationOk at hok
  rw [originOf, ok.slabFor_eq]
  cases horigin : allocation.origin with
  | pages =>
      rw [horigin] at hok
      exact if_pos (BitVec.le_trans hok.1 hlow)
  | slab i =>
      rw [horigin] at hok
      obtain ⟨hindex, hreported⟩ := hok
      rw [hreported] at hhigh
      have hlt := objectSizes_lt i
      rw [if_neg (by bv_omega), slabIndex_of_le hindex hlow hhigh]
  | bitmap =>
      rw [horigin] at hok
      obtain ⟨hlt, hindex, hreported⟩ := hok
      rw [hreported] at hhigh
      have heq : size = allocation.size := BitVec.le_antisymm hhigh hlow
      rw [heq, if_neg (by bv_omega), hindex]

theorem mem_objectsOf (hmem : allocation ∈ live) (horigin : allocation.origin = .slab i) :
    allocation.ptr ∈ objectsOf live i :=
  List.mem_map_of_mem (List.mem_filter.mpr ⟨hmem, decide_eq_true horigin⟩)

theorem mem_bitmapOwned (hmem : allocation ∈ owned.live) (horigin : allocation.origin = .bitmap) :
    ⟨allocation.ptr, allocation.size, allocation.align⟩ ∈ owned.bitmapOwned.live :=
  List.mem_append_left _ (List.mem_filterMap.mpr ⟨allocation, hmem, if_pos horigin⟩)

/-! ## What `free` does -/

theorem freePages_small {kernel : KernelAllocator} {ptr : ℕ} (h : ¬ size ≥ largeSize) :
    kernel.freePages ptr size align = some kernel := if_neg h

/-- **An allocation that is no pages** is given back by `free`. -/
theorem Ok.free_small (ok : Ok data count owned) {allocation : Allocation}
    (hmem : allocation ∈ owned.live) (hlow : allocation.size ≤ size)
    (hhigh : size ≤ allocation.reported) (horigin : allocation.origin ≠ .pages) :
    FreesWell owned.kernel allocation size := by
  have hok := ok.allocations allocation hmem
  have horiginOf := ok.originOf_eq hmem hlow hhigh
  have hsmall : ¬ size ≥ largeSize := fun hlarge => by
    rw [originOf, if_pos hlarge] at horiginOf
    exact horigin horiginOf.symm
  unfold AllocationOk at hok
  unfold FreesWell GivenBack KernelAllocator.free
  rw [freePages_small hsmall, Option.bind_some, ok.slabFor_eq]
  cases hcase : allocation.origin with
  | pages => exact absurd hcase horigin
  | slab i =>
      rw [hcase] at hok
      obtain ⟨hindex, hreported⟩ := hok
      rw [hreported] at hhigh
      obtain ⟨slab, hfree, -⟩ := (ok.slabs i).free (layout_objectSizes i) (mem_objectsOf hmem hcase)
      have hfree' : (owned.kernel.slabAllocators i).free allocation.ptr = some slab := hfree
      rw [slabIndex_of_le hindex hlow hhigh]
      dsimp only
      rw [hfree']
      exact ⟨_, rfl, slab, rfl, rfl⟩
  | bitmap =>
      rw [hcase] at hok
      obtain ⟨-, hindex, hreported⟩ := hok
      rw [hreported] at hhigh
      have heq : size = allocation.size := BitVec.le_antisymm hhigh hlow
      subst heq
      obtain ⟨index, hptr, hstrict⟩ := ok.strict _ (mem_bitmapOwned hmem hcase)
      have hdata : owned.kernel.bitmapAllocator.data = data := ok.bitmap.data_eq
      have hcount : owned.kernel.bitmapAllocator.chunkCount = count := ok.bitmap.count_eq
      have hptr' : allocation.ptr =
          owned.kernel.bitmapAllocator.data + index * BitmapAllocator.chunkSize := by
        rw [hdata]
        exact hptr
      obtain ⟨bitmap, hfree⟩ := BitmapAllocator.free_some hptr' (by rw [hcount]; exact hstrict)
      rw [hindex]
      dsimp only
      rw [hfree]
      exact ⟨_, rfl, bitmap, rfl, rfl⟩

/-- **Pages** are not: behind the page allocator the bitmap allocator is asked as well. -/
theorem Ok.free_large (ok : Ok data count owned) {allocation : Allocation}
    (hmem : allocation ∈ owned.live) (hlow : allocation.size ≤ size)
    (horigin : allocation.origin = .pages) :
    owned.kernel.free allocation.ptr size allocation.align = none := by
  have hok := ok.allocations allocation hmem
  unfold AllocationOk at hok
  rw [horigin] at hok
  obtain ⟨hlarge, houtside⟩ := hok
  have hlarge' : size ≥ largeSize := BitVec.le_trans hlarge hlow
  rw [KernelAllocator.free, Option.bind_eq_none_iff]
  intro kernel hpages
  rw [freePages, if_pos hlarge'] at hpages
  split_ifs at hpages
  obtain ⟨regions, -, rfl⟩ := Option.map_eq_some_iff.mp hpages
  have hslab : slabFor { owned.kernel with pageAllocator := regions } size allocation.align =
      slabIndex size allocation.align := ok.slabFor_eq size allocation.align
  have hdata : owned.kernel.bitmapAllocator.data = data := ok.bitmap.data_eq
  have hcount : owned.kernel.bitmapAllocator.chunkCount = count := ok.bitmap.count_eq
  rw [hslab, slabIndex_large hlarge']
  dsimp only
  rw [BitmapAllocator.free, hdata, hcount, if_neg houtside]
  rfl

theorem Ok.freesWell_iff (ok : Ok data count owned) {allocation : Allocation}
    (hmem : allocation ∈ owned.live) (hlow : allocation.size ≤ size)
    (hhigh : size ≤ allocation.reported) :
    FreesWell owned.kernel allocation size ↔ allocation.size < largeSize := by
  have hok := ok.allocations allocation hmem
  unfold AllocationOk at hok
  cases horigin : allocation.origin with
  | pages =>
      rw [horigin] at hok
      refine iff_of_false ?_ (by have := hok.1; bv_omega)
      rintro ⟨kernel, hfree, -⟩
      rw [ok.free_large hmem hlow horigin] at hfree
      cases hfree
  | slab i =>
      rw [horigin] at hok
      have hle := (le_of_slabIndex hok.1).1
      have hlt := objectSizes_lt i
      exact iff_of_true (ok.free_small hmem hlow hhigh (by rw [horigin]; intro h; cases h)) (by bv_omega)
  | bitmap =>
      rw [horigin] at hok
      exact iff_of_true (ok.free_small hmem hlow hhigh (by rw [horigin]; intro h; cases h)) hok.1

/-! ## Pages -/

theorem searchFrom_pos {mem : Memory Byte} {nPages : ℕ} :
    ∀ {remaining index regionBegin regionSize found : ℕ},
      RegionPageAllocator.searchFrom mem nPages remaining index regionBegin regionSize =
        some found → 1 ≤ nPages := by
  intro remaining
  induction remaining with
  | zero =>
      intro _ _ _ _ h
      cases h
  | succ remaining ih =>
      intro _ _ _ _ h
      unfold RegionPageAllocator.searchFrom at h
      split_ifs at h with _ hfound
      · exact ih h
      · omega
      · exact ih h

theorem allocateRegion_spec {regions regions' : List RegionPageAllocator} {n : ℕ}
    {found : Option ℕ} (h : PageAllocator.allocateRegion regions n = (regions', found)) :
    regions'.map RegionPageAllocator.region = regions.map RegionPageAllocator.region ∧
      ∀ ptr, found = some ptr → ∃ region ∈ regions, region.region.contains ptr = true := by
  induction regions generalizing regions' found with
  | nil =>
      cases h
      exact ⟨rfl, fun _ heq => absurd heq.symm (Option.some_ne_none _)⟩
  | cons region rest ih =>
      rw [PageAllocator.allocateRegion, RegionPageAllocator.allocatePages] at h
      cases hsearch : region.searchForFree n with
      | some index =>
          rw [hsearch] at h
          cases h
          refine ⟨rfl, fun ptr heq => ⟨region, List.mem_cons_self, ?_⟩⟩
          cases heq
          have hpos := searchFrom_pos hsearch
          obtain ⟨hinside, -⟩ := RegionPageAllocator.searchForFree_spec rfl hsearch
          have hpages : region.region.pageNumber.toNat = region.region.size.toNat / 4096 := rfl
          rw [VirtualRegion.contains, Bool.and_eq_true, decide_eq_true_iff, decide_eq_true_iff]
          unfold VirtualRegion.pageBytes
          omega
      | none =>
          rw [hsearch] at h
          cases h
          obtain ⟨hregions, hfound⟩ := ih rfl
          refine ⟨by rw [List.map_cons, List.map_cons, hregions], fun ptr heq => ?_⟩
          obtain ⟨other, hother, hcontains⟩ := hfound ptr heq
          exact ⟨other, List.mem_cons_of_mem _ hother, hcontains⟩

theorem outside_of_regions {regions regions' : List RegionPageAllocator}
    (hsame : regions'.map RegionPageAllocator.region = regions.map RegionPageAllocator.region)
    (houtside : ∀ region ∈ regions, OutsideArea data count region.region) :
    ∀ region ∈ regions', OutsideArea data count region.region := by
  intro region hregion
  have hmem : region.region ∈ regions.map RegionPageAllocator.region :=
    hsame ▸ List.mem_map_of_mem hregion
  obtain ⟨other, hother, heq⟩ := List.mem_map.mp hmem
  exact heq ▸ houtside other hother

/-! ## What a step keeps -/

theorem bitmap_allocate {alloc alloc' : BitmapAllocator} {live : List BitmapAllocator.Block}
    {found : Option ℕ} (ok : BitmapAllocator.Ok data count ⟨alloc, live⟩)
    (legal : BitmapAllocator.Legal ⟨alloc, live⟩ (.allocate size align))
    (exact_ : BitmapAllocator.Exact ⟨alloc, live⟩ (.allocate size align))
    (h : alloc.allocate size align = some (alloc', found)) :
    match found with
    | some ptr => BitmapAllocator.Ok data count ⟨alloc', ⟨ptr, size, align⟩ :: live⟩ ∧
        Strict data count ⟨ptr, size, align⟩
    | none => BitmapAllocator.Ok data count ⟨alloc', live⟩ := by
  have hok := BitmapAllocator.allocate_ok ok legal exact_
    (show BitmapAllocator.step ⟨alloc, live⟩ (.allocate size align) = some _ by
      rw [BitmapAllocator.step, h]
      rfl)
  cases found with
  | none => exact hok
  | some ptr =>
      obtain ⟨index, hptr, hlt⟩ := BitmapAllocator.allocate_strict h
      have hdata : alloc.data = data := ok.data_eq
      have hcount : alloc.chunkCount = count := ok.count_eq
      exact ⟨hok, index, hdata ▸ hptr, hcount ▸ hlt⟩

theorem backingBlocks_cons (slabBlocks : Fin 6 → List ℕ) (i : Fin 6) (region : ℕ) :
    (backingBlocks (update slabBlocks i (region :: slabBlocks i))).Perm
      (⟨region, SlabAllocator.defaultBlockSize (objectSizes i),
        SlabAllocator.defaultBlockSize (objectSizes i)⟩ :: backingBlocks slabBlocks) := by
  obtain ⟨before, after, hsplit⟩ := List.append_of_mem (List.mem_finRange i)
  have hnodup := List.nodup_finRange 6
  rw [hsplit] at hnodup
  have hbefore : ∀ j ∈ before, j ≠ i := fun j hj heq =>
    (List.nodup_append.mp hnodup).2.2 j hj i List.mem_cons_self heq
  have hafter : ∀ j ∈ after, j ≠ i := fun j hj heq =>
    (List.nodup_cons.mp (List.nodup_append.mp hnodup).2.1).1 (heq ▸ hj)
  have hothers : ∀ l : List (Fin 6), (∀ j ∈ l, j ≠ i) →
      (l.flatMap fun j => (update slabBlocks i (region :: slabBlocks i) j).map fun ptr =>
        (⟨ptr, SlabAllocator.defaultBlockSize (objectSizes j),
          SlabAllocator.defaultBlockSize (objectSizes j)⟩ : BitmapAllocator.Block)) =
      l.flatMap fun j => (slabBlocks j).map fun ptr =>
        ⟨ptr, SlabAllocator.defaultBlockSize (objectSizes j),
          SlabAllocator.defaultBlockSize (objectSizes j)⟩ := fun l hl =>
    List.flatMap_congr fun j hj => by rw [update_of_ne (hl j hj)]
  unfold backingBlocks
  rw [hsplit, List.flatMap_append, List.flatMap_append, List.flatMap_cons, List.flatMap_cons,
    hothers before hbefore, hothers after hafter, update_self, List.map_cons]
  exact List.perm_middle

theorem objectsOf_cons_of_ne (h : allocation.origin ≠ .slab i) :
    objectsOf (allocation :: live) i = objectsOf live i := by
  rw [objectsOf, List.filter_cons, if_neg (by rwa [decide_eq_true_iff]), objectsOf]

theorem objectsOf_cons (h : allocation.origin = .slab i) :
    objectsOf (allocation :: live) i = allocation.ptr :: objectsOf live i := by
  rw [objectsOf, List.filter_cons, if_pos (decide_eq_true h), List.map_cons, objectsOf]

theorem filterMap_block_cons_of_ne (h : allocation.origin ≠ .bitmap) :
    (allocation :: live).filterMap Allocation.block? = live.filterMap Allocation.block? :=
  List.filterMap_cons_none (if_neg h)

/-- **Pages** are allocated. -/
theorem Ok.allocatePages (ok : Ok data count owned) (hlarge : size ≥ largeSize)
    {moved : Owned × Option ℕ} (hstep : step owned (.allocate size align) = some moved) :
    Ok data count moved.1 := by
  obtain ⟨done, hdone, rfl⟩ := Option.map_eq_some_iff.mp hstep
  rw [KernelAllocator.allocate, if_pos hlarge, allocateLarge, if_pos hlarge] at hdone
  split_ifs at hdone
  have horigin : owned.kernel.originOf size align = .pages := if_pos hlarge
  dsimp only at hdone
  cases hallocated : PageAllocator.allocateRegion owned.kernel.pageAllocator
      (ceilDiv size 4096).toNat with
  | mk regions found =>
      rw [hallocated] at hdone
      obtain ⟨hregions, hfound⟩ := allocateRegion_spec hallocated
      have houtside := outside_of_regions hregions ok.regions
      cases found with
      | none =>
          cases hdone
          exact ⟨ok.data_pos, ok.fits, ok.bitmap, ok.strict, ok.slabs, houtside, ok.allocations⟩
      | some ptr =>
          cases hdone
          obtain ⟨region, hregion, hcontains⟩ := hfound ptr rfl
          rw [VirtualRegion.contains, Bool.and_eq_true, decide_eq_true_iff, decide_eq_true_iff]
            at hcontains
          have hapart := ok.regions region hregion
          unfold OutsideArea at hapart
          have hblocks : blocksAfter owned size align = owned.slabBlocks := by
            rw [blocksAfter, horigin]
          dsimp only
          rw [hblocks, horigin]
          refine ⟨ok.data_pos, ok.fits, ?_, ?_, fun i => ?_, houtside,
            List.forall_mem_cons.mpr ⟨⟨hlarge, by dsimp only; omega⟩, ok.allocations⟩⟩
          · rw [Owned.bitmapOwned, filterMap_block_cons_of_ne (by intro h; cases h)]
            exact ok.bitmap
          · rw [Owned.bitmapOwned, filterMap_block_cons_of_ne (by intro h; cases h)]
            exact ok.strict
          · rw [Owned.slabOwned, objectsOf_cons_of_ne (by intro h; cases h)]
            exact ok.slabs i

/-- **A block of the bitmap allocator** is allocated. -/
theorem Ok.allocateBlock (ok : Ok data count owned) (hsmall : ¬ size ≥ largeSize)
    (hindex : slabIndex size align = none) (legal : Legal owned (.allocate size align))
    (exact_ : Exact owned (.allocate size align))
    {moved : Owned × Option ℕ} (hstep : step owned (.allocate size align) = some moved) :
    Ok data count moved.1 := by
  have horigin : owned.kernel.originOf size align = .bitmap := by
    rw [originOf, if_neg hsmall, ok.slabFor_eq, hindex]
  have hexact : BitmapAllocator.Exact owned.bitmapOwned (.allocate size align) := by
    simpa only [Exact, ExactAllocate, horigin] using exact_
  obtain ⟨done, hdone, rfl⟩ := Option.map_eq_some_iff.mp hstep
  rw [KernelAllocator.allocate, if_neg hsmall, ok.slabFor_eq, hindex] at hdone
  dsimp only at hdone
  rw [allocateLarge, if_neg hsmall] at hdone
  obtain ⟨⟨alloc, found⟩, hallocate, rfl⟩ := Option.map_eq_some_iff.mp hdone
  have hok := bitmap_allocate ok.bitmap legal.1 hexact hallocate
  dsimp only
  cases found with
  | none => exact ⟨ok.data_pos, ok.fits, hok, ok.strict, ok.slabs, ok.regions, ok.allocations⟩
  | some ptr =>
      have hblocks : blocksAfter owned size align = owned.slabBlocks := by
        rw [blocksAfter, horigin]
      dsimp only
      rw [hblocks, horigin]
      refine ⟨ok.data_pos, ok.fits, hok.1, List.forall_mem_cons.mpr ⟨hok.2, ok.strict⟩,
        fun i => ?_, ok.regions, List.forall_mem_cons.mpr
          ⟨⟨by dsimp only; bv_omega, hindex, rfl⟩, ok.allocations⟩⟩
      rw [Owned.slabOwned, objectsOf_cons_of_ne (by intro h; cases h)]
      exact ok.slabs i

theorem Ok.placeObject (ok : Ok data count owned) {i : Fin 6} {alloc : BitmapAllocator}
    {slab : SlabAllocator} {blocks : Fin 6 → List ℕ} {ptr : ℕ} {reported : U64}
    (hindex : slabIndex size align = some i) (hreported : reported = objectSizes i)
    (hbitmap : BitmapAllocator.Ok data count
      ⟨alloc, owned.live.filterMap Allocation.block? ++ backingBlocks blocks⟩)
    (hstrict : ∀ block ∈ owned.live.filterMap Allocation.block? ++ backingBlocks blocks,
      Strict data count block)
    (hslab : SlabAllocator.Ok (objectSizes i) (SlabAllocator.defaultBlockSize (objectSizes i))
      ⟨slab, blocks i, ptr :: objectsOf owned.live i⟩)
    (hothers : ∀ j, j ≠ i → blocks j = owned.slabBlocks j) :
    Ok data count
      { kernel := { owned.kernel with
          bitmapAllocator := alloc
          slabAllocators := update owned.kernel.slabAllocators i slab }
        slabBlocks := blocks
        live := ⟨ptr, size, align, reported, .slab i⟩ :: owned.live } := by
  refine ⟨ok.data_pos, ok.fits, ?_, ?_, fun j => ?_, ok.regions,
    List.forall_mem_cons.mpr ⟨⟨hindex, hreported⟩, ok.allocations⟩⟩
  · rw [Owned.bitmapOwned, filterMap_block_cons_of_ne (by intro h; cases h)]
    exact hbitmap
  · rw [Owned.bitmapOwned, filterMap_block_cons_of_ne (by intro h; cases h)]
    exact hstrict
  · by_cases hj : j = i
    · subst hj
      rw [Owned.slabOwned, objectsOf_cons rfl]
      dsimp only
      rw [update_self]
      exact hslab
    · rw [Owned.slabOwned, objectsOf_cons_of_ne (by intro h; cases h; exact hj rfl)]
      dsimp only
      rw [update_of_ne hj, hothers j hj]
      exact ok.slabs j

theorem Ok.slab_allocate (ok : Ok data count owned) {i : Fin 6} {region ptr : ℕ}
    {slab : SlabAllocator}
    (legal : SlabAllocator.Legal (owned.slabOwned i) (.allocate region))
    (h : (owned.kernel.slabAllocators i).allocate region = some (slab, ptr)) :
    SlabAllocator.Ok (objectSizes i) (SlabAllocator.defaultBlockSize (objectSizes i))
      ⟨slab, if (owned.kernel.slabAllocators i).lists.empty .freeBlocks then
          region :: owned.slabBlocks i else owned.slabBlocks i,
        ptr :: objectsOf owned.live i⟩ := by
  obtain ⟨moved, hmoved, ok', -⟩ := (ok.slabs i).step (layout_objectSizes i) (.allocate region) legal
  rw [SlabAllocator.step, Owned.slabOwned, h, Option.map_some] at hmoved
  cases hmoved
  exact ok'

theorem Ok.region_legal (ok : Ok data count owned) {i : Fin 6} {region : ℕ}
    {alloc : BitmapAllocator}
    (hbitmap : BitmapAllocator.Ok data count ⟨alloc,
      ⟨region, SlabAllocator.defaultBlockSize (objectSizes i),
        SlabAllocator.defaultBlockSize (objectSizes i)⟩ :: owned.bitmapOwned.live⟩) :
    SlabAllocator.Legal (owned.slabOwned i) (.allocate region) := by
  intro _
  have hblk : (owned.kernel.slabAllocators i).blkSize =
      SlabAllocator.defaultBlockSize (objectSizes i) := (ok.slabs i).blkSize_eq
  have hpos := ok.data_pos
  have hfits := ok.fits
  obtain ⟨index, hptr, hsize, hinside, haligned⟩ := hbitmap.blocks _ List.mem_cons_self
  dsimp only at hptr hsize hinside haligned
  show region ≠ 0 ∧ region % (owned.kernel.slabAllocators i).blkSize.toNat = 0 ∧
    region + (owned.kernel.slabAllocators i).blkSize.toNat < 2 ^ 64 ∧ region ∉ owned.slabBlocks i
  rw [hblk]
  unfold BitmapAllocator.chunkSize at *
  refine ⟨by omega, haligned, by omega, fun hmem => ?_⟩
  -- The first chunk of the region would be of two blocks.
  have hblock : (⟨region, SlabAllocator.defaultBlockSize (objectSizes i),
      SlabAllocator.defaultBlockSize (objectSizes i)⟩ : BitmapAllocator.Block) ∈
        owned.bitmapOwned.live :=
    List.mem_append_right _ (List.mem_flatMap.mpr
      ⟨i, List.mem_finRange i, List.mem_map_of_mem hmem⟩)
  have hlayout := layout_objectSizes i
  have hheader := hlayout.header_le
  have hobjects := hlayout.objects_le
  have hchunk : index ∈ BitmapAllocator.Block.chunks data
      ⟨region, SlabAllocator.defaultBlockSize (objectSizes i),
        SlabAllocator.defaultBlockSize (objectSizes i)⟩ :=
    (BitmapAllocator.Block.mem_chunks hptr).mpr ⟨Nat.le_refl _, by dsimp only; omega⟩
  have hnodup := hbitmap.nodup
  rw [BitmapAllocator.ownedChunks, List.flatMap_cons] at hnodup
  exact (List.nodup_append.mp hnodup).2.2 index hchunk index
    (List.mem_flatMap.mpr ⟨_, hblock, hchunk⟩) rfl

/-- **An object of a slab allocator** is allocated, in a new block if need be. -/
theorem Ok.allocateObject (ok : Ok data count owned) {i : Fin 6} (hsmall : ¬ size ≥ largeSize)
    (hindex : slabIndex size align = some i) (exact_ : Exact owned (.allocate size align))
    {moved : Owned × Option ℕ} (hstep : step owned (.allocate size align) = some moved) :
    Ok data count moved.1 := by
  have horigin : owned.kernel.originOf size align = .slab i := by
    rw [originOf, if_neg hsmall, ok.slabFor_eq, hindex]
  have hexact : (owned.kernel.slabAllocators i).lists.empty .freeBlocks = true →
      BitmapAllocator.Exact owned.bitmapOwned
        (.allocate (owned.kernel.slabAllocators i).blkSize
          (owned.kernel.slabAllocators i).blkSize) := by
    simpa only [Exact, ExactAllocate, horigin] using exact_
  have hblk : (owned.kernel.slabAllocators i).blkSize =
      SlabAllocator.defaultBlockSize (objectSizes i) := (ok.slabs i).blkSize_eq
  have hobj : (owned.kernel.slabAllocators i).objSize = objectSizes i := (ok.slabs i).objSize_eq
  obtain ⟨done, hdone, rfl⟩ := Option.map_eq_some_iff.mp hstep
  rw [KernelAllocator.allocate, if_neg hsmall, ok.slabFor_eq, hindex] at hdone
  dsimp only at hdone
  obtain ⟨made, hmade, hdone⟩ := Option.bind_eq_some_iff.mp hdone
  have hmade' := hmade
  cases hempty : (owned.kernel.slabAllocators i).lists.empty .freeBlocks with
  | false =>
      have hempty' := Bool.eq_false_iff.mp hempty
      have hblocks : blocksAfter owned size align = owned.slabBlocks := by
        rw [blocksAfter, horigin]
        dsimp only
        rw [if_neg hempty']
      rw [newBlock, if_neg hempty'] at hmade
      cases hmade
      obtain ⟨⟨slab, ptr⟩, hallocate, rfl⟩ := Option.map_eq_some_iff.mp hdone
      have hslab := ok.slab_allocate (fun h => absurd h hempty') hallocate
      rw [if_neg hempty'] at hslab
      dsimp only
      rw [hblocks, horigin]
      exact ok.placeObject hindex hobj ok.bitmap ok.strict hslab fun _ _ => rfl
  | true =>
      obtain ⟨-, hblkSmall⟩ := slabIndex_block i
      rw [newBlock, if_pos hempty] at hmade
      obtain ⟨large, hlarge, rfl⟩ := Option.map_eq_some_iff.mp hmade
      rw [allocateLarge, if_neg (by rw [hblk]; bv_omega), hblk] at hlarge
      obtain ⟨⟨alloc, found⟩, hallocate, rfl⟩ := Option.map_eq_some_iff.mp hlarge
      cases found with
      | none => cases hdone
      | some region =>
          obtain ⟨⟨slab, ptr⟩, htake, rfl⟩ := Option.map_eq_some_iff.mp hdone
          have hexact' := hexact hempty
          rw [hblk] at hexact'
          obtain ⟨hbitmap, hstrict⟩ :=
            bitmap_allocate ok.bitmap (blockSize_power i) hexact' hallocate
          have hblocks : blocksAfter owned size align =
              update owned.slabBlocks i (region :: owned.slabBlocks i) := by
            rw [blocksAfter, horigin]
            dsimp only
            rw [if_pos hempty, hmade']
            rfl
          have hslab := ok.slab_allocate (ok.region_legal hbitmap) htake
          rw [if_pos hempty] at hslab
          have hperm := (backingBlocks_cons owned.slabBlocks i region).append_left
            (owned.live.filterMap Allocation.block?)
          have hperm' := hperm.trans List.perm_middle
          dsimp only
          rw [hblocks, horigin]
          refine ok.placeObject hindex hobj (hbitmap.perm hperm'.symm) (fun block hblock => ?_) ?_
            fun j hj => update_of_ne hj _ _
          · rcases List.mem_cons.mp (hperm'.mem_iff.mp hblock) with rfl | hblock
            · exact hstrict
            · exact ok.strict block hblock
          · rw [update_self]
            exact hslab

theorem objectsOf_erase {before after : List Allocation} (horigin : allocation.origin = .slab i)
    (hnodup : (objectsOf (before ++ allocation :: after) i).Nodup) :
    objectsOf (before ++ after) i =
      (objectsOf (before ++ allocation :: after) i).erase allocation.ptr := by
  have happend : ∀ l l' : List Allocation, objectsOf (l ++ l') i = objectsOf l i ++ objectsOf l' i :=
    fun l l' => by rw [objectsOf, List.filter_append, List.map_append, objectsOf, objectsOf]
  rw [happend, objectsOf_cons horigin] at hnodup
  have hnot : allocation.ptr ∉ objectsOf before i := fun hmem =>
    (List.nodup_append.mp hnodup).2.2 _ hmem _ List.mem_cons_self rfl
  rw [happend, happend, objectsOf_cons horigin, List.erase_append_right _ hnot,
    List.erase_cons_head]

/-- **`free`** of a live allocation. -/
theorem Ok.freeStep (ok : Ok data count owned) {ptr : ℕ} (legal : Legal owned (.free ptr size align))
    (exact_ : Exact owned (.free ptr size align)) {moved : Owned × Option ℕ}
    (hstep : step owned (.free ptr size align) = some moved) : Ok data count moved.1 := by
  obtain ⟨kernel, hfree, rfl⟩ := Option.map_eq_some_iff.mp hstep
  obtain ⟨named, hnamedMem, hnamed⟩ := legal
  have hdecided : decide (named.Named ptr size align) = true := decide_eq_true hnamed
  obtain ⟨freed, before, after, -, hfreed, hlive, herase⟩ :=
    @List.exists_of_eraseP Allocation
      (fun allocation => decide (allocation.Named ptr size align)) owned.live named hnamedMem
      hdecided
  obtain ⟨rfl, rfl, hlow, hhigh⟩ := of_decide_eq_true hfreed
  have hmem : freed ∈ owned.live := by
    rw [hlive]
    exact List.mem_append_right _ List.mem_cons_self
  have hok := ok.allocations freed hmem
  have horigin := ok.originOf_eq hmem hlow hhigh
  have hrest : ∀ allocation ∈ before ++ after, AllocationOk data count allocation := by
    intro allocation hallocation
    refine ok.allocations allocation ?_
    rw [hlive]
    rcases List.mem_append.mp hallocation with h | h
    · exact List.mem_append_left _ h
    · exact List.mem_append_right _ (List.mem_cons_of_mem _ h)
  have hpages : freed.origin ≠ .pages := fun h => by
    rw [ok.free_large hmem hlow h] at hfree
    cases hfree
  obtain ⟨kernel', hfree', hback⟩ := ok.free_small hmem hlow hhigh hpages
  rw [hfree] at hfree'
  cases hfree'
  dsimp only
  rw [herase]
  unfold GivenBack at hback
  unfold AllocationOk at hok
  cases hcase : freed.origin with
  | pages => exact absurd hcase hpages
  | slab i =>
      rw [hcase] at hback
      obtain ⟨slab, hslab, rfl⟩ := hback
      have hblocks : (before ++ after).filterMap Allocation.block? =
          owned.live.filterMap Allocation.block? := by
        rw [hlive, List.filterMap_append, List.filterMap_append, filterMap_block_cons_of_ne
          (by rw [hcase]; intro h; cases h)]
      obtain ⟨slab', hslab', ok'⟩ :=
        (ok.slabs i).free (layout_objectSizes i) (mem_objectsOf hmem hcase)
      have hsame : slab' = slab := Option.some_inj.mp (hslab'.symm.trans hslab)
      subst hsame
      refine ⟨ok.data_pos, ok.fits, ?_, ?_, fun j => ?_, ok.regions, hrest⟩
      · rw [Owned.bitmapOwned, hblocks]
        exact ok.bitmap
      · rw [Owned.bitmapOwned, hblocks]
        exact ok.strict
      · by_cases hj : j = i
        · subst hj
          have hnodup : (objectsOf owned.live j).Nodup := (ok.slabs j).live_nodup
          rw [hlive] at hnodup
          rw [Owned.slabOwned]
          dsimp only
          rw [update_self, objectsOf_erase hcase hnodup, ← hlive]
          exact ok'
        · have hothers : objectsOf (before ++ after) j = objectsOf owned.live j := by
            rw [hlive, objectsOf, objectsOf, List.filter_append, List.filter_append,
              List.filter_cons, if_neg]
            rw [decide_eq_true_iff, hcase]
            intro h
            cases h
            exact hj rfl
          rw [Owned.slabOwned]
          dsimp only
          rw [update_of_ne hj, hothers]
          exact ok.slabs j
  | bitmap =>
      rw [hcase] at hback hok
      obtain ⟨alloc, halloc, rfl⟩ := hback
      obtain ⟨-, -, hreported⟩ := hok
      rw [hreported] at hhigh
      have heq : size = freed.size := BitVec.le_antisymm hhigh hlow
      subst heq
      have hexact := exact_ (by rw [horigin, hcase])
      have hperm : owned.bitmapOwned.live.Perm
          (⟨freed.ptr, freed.size, freed.align⟩ ::
            ((before ++ after).filterMap Allocation.block? ++ backingBlocks owned.slabBlocks)) := by
        have hblock : freed.block? = some ⟨freed.ptr, freed.size, freed.align⟩ := if_pos hcase
        rw [Owned.bitmapOwned, hlive, List.filterMap_append, List.filterMap_append,
          List.filterMap_cons_some hblock, List.append_assoc, List.append_assoc]
        exact List.perm_middle
      have hok' := BitmapAllocator.free_ok (ok.bitmap.perm hperm)
        ⟨_, List.mem_cons_self, by simp [BitmapAllocator.Block.named]⟩ (hexact.perm hperm)
        (show BitmapAllocator.step ⟨owned.kernel.bitmapAllocator, _⟩
            (.free freed.ptr freed.size) = some _ by
          rw [BitmapAllocator.step, halloc]
          rfl)
      dsimp only at hok'
      rw [List.eraseP_cons_of_pos (by simp [BitmapAllocator.Block.named])] at hok'
      refine ⟨ok.data_pos, ok.fits, hok', fun block hblock => ok.strict block ?_, fun j => ?_,
        ok.regions, hrest⟩
      · exact hperm.mem_iff.mpr (List.mem_cons_of_mem _ hblock)
      · have hothers : objectsOf (before ++ after) j = objectsOf owned.live j := by
          rw [hlive, objectsOf, objectsOf, List.filter_append, List.filter_append,
            List.filter_cons, if_neg]
          rw [decide_eq_true_iff, hcase]
          intro h
          cases h
        rw [Owned.slabOwned]
        dsimp only
        rw [hothers]
        exact ok.slabs j

/-- **One step** keeps the invariant. -/
theorem Ok.step (ok : Ok data count owned) (op : Op) (legal : Legal owned op)
    (exact_ : Exact owned op) {moved : Owned × Option ℕ}
    (hstep : KernelAllocator.step owned op = some moved) : Ok data count moved.1 := by
  cases op with
  | allocate size align =>
      by_cases hlarge : size ≥ largeSize
      · exact ok.allocatePages hlarge hstep
      · cases hindex : slabIndex size align with
        | some i => exact ok.allocateObject hlarge hindex exact_ hstep
        | none => exact ok.allocateBlock hlarge hindex legal exact_ hstep
  | free ptr size align => exact ok.freeStep legal exact_ hstep
  | storeByte ptr value =>
      cases hstep
      have hstored := BitmapAllocator.step_ok ok.bitmap (.store ptr value) legal trivial rfl
      exact ⟨ok.data_pos, ok.fits, hstored, ok.strict, ok.slabs, ok.regions, ok.allocations⟩
  | storeObject i ptr value =>
      cases hstep
      obtain ⟨moved, hmoved, hstored, -⟩ :=
        (ok.slabs i).step (layout_objectSizes i) (.store ptr value) legal
      cases hmoved
      refine ⟨ok.data_pos, ok.fits, ok.bitmap, ok.strict, fun j => ?_, ok.regions, ok.allocations⟩
      rw [Owned.slabOwned]
      dsimp only
      by_cases hj : j = i
      · subst hj
        rw [update_self]
        exact hstored
      · rw [update_of_ne hj]
        exact ok.slabs j

/-! ## Runs -/

theorem chunks_le (size : U64) :
    BitmapAllocator.chunkSize * (BitmapAllocator.calculateChunkCount size).toNat ≤ size.toNat := by
  have hcount : (BitmapAllocator.calculateChunkCount size).toNat =
      size.toNat * 8 % 2 ^ 64 / 1025 := rfl
  have hle := Nat.mod_le (size.toNat * 8) (2 ^ 64)
  have hdiv := Nat.div_mul_le_self (size.toNat * 8 % 2 ^ 64) 1025
  rw [← hcount] at hdiv
  unfold BitmapAllocator.chunkSize
  omega

theorem Start.ok {memory : Memory Byte} {kernel : KernelAllocator}
    (start : Start data size memory kernel) :
    Ok data (BitmapAllocator.calculateChunkCount size).toNat ⟨kernel, fun _ => [], []⟩ := by
  obtain ⟨hbitmap, hslabs, hdata, hfits, hapart⟩ := start
  unfold BitmapAllocator.new at hbitmap
  dsimp only at hbitmap
  split_ifs at hbitmap with hroom
  have heq := Option.some_inj.mp hbitmap
  have hbacking : backingBlocks (fun _ => []) = [] := rfl
  -- The chunks are a part of the area.
  have harea := chunks_le size
  refine ⟨hdata, by omega, ?_, ?_, fun i => SlabAllocator.ok_new (hslabs i), fun region hregion => ?_,
    List.forall_mem_nil _⟩
  · rw [Owned.bitmapOwned, ← heq]
    exact ⟨rfl, rfl, List.forall_mem_nil _, List.nodup_nil, List.forall_mem_nil _, rfl⟩
  · exact List.forall_mem_nil _
  · have h := hapart region hregion
    unfold OutsideArea
    omega

/-- **What `free` does in any run** whose calls do not come to the defects of the bitmap
allocator: exactly the allocations of less than 64 KiB are given back to where they came from. -/
theorem frees_iff {memory : Memory Byte} {kernel : KernelAllocator}
    (start : Start data size memory kernel) {ops : List Op}
    (meets : StepsMeet step (fun owned op => Legal owned op ∧ Exact owned op)
      ⟨kernel, fun _ => [], []⟩ ops) {final : Owned × List (Option ℕ)}
    (hrun : runSteps step ⟨kernel, fun _ => [], []⟩ ops = some final) {allocation : Allocation}
    (hlive : allocation ∈ final.1.live) (hlow : allocation.size ≤ size')
    (hhigh : size' ≤ allocation.reported) :
    FreesWell final.1.kernel allocation size' ↔ allocation.size < largeSize := by
  have keeps : ∀ owned op moved,
      Ok data (BitmapAllocator.calculateChunkCount size).toNat owned →
      (Legal owned op ∧ Exact owned op) → step owned op = some moved →
      Ok data (BitmapAllocator.calculateChunkCount size).toNat moved.1 :=
    fun _ op _ ok meet hstep => ok.step op meet.1 meet.2 hstep
  have ok := runSteps_invariant keeps start.ok meets hrun
  exact ok.freesWell_iff hlive hlow hhigh

/-- An allocator with an area of eighty chunks and a region of 32 pages. -/
private def smallKernel : KernelAllocator where
  bitmapAllocator := ⟨0x10000, 80, 0, fun _ => 0⟩
  slabAllocators i :=
    { objSize := objectSizes i
      blkSize := SlabAllocator.defaultBlockSize (objectSizes i)
      lists := ⟨fun _ => ⟨none, none⟩, fun _ => IntrusiveLists.unlinked⟩
      headers := fun _ => ⟨0, 0, 0, 0⟩
      next := fun _ => 0 }
  pageAllocator := [RegionPageAllocator.new ⟨0x100000, 0x20000⟩ fun _ => 0]

private theorem smallKernel_start : Start 0x10000 10250 (fun _ => 0) smallKernel where
  bitmap := rfl
  slabs := by
    intro i
    have hsize : objectSizes i ≥ 32 := by
      revert i
      decide
    rw [SlabAllocator.new, if_pos hsize]
    rfl
  data_pos := by decide
  fits := by decide
  apart := by
    intro region hregion
    rw [List.mem_singleton.mp hregion]
    decide

/-- A string of 24 bytes, freed with the 32 that were reported, next to a block of 300. -/
theorem frees_iff_string :
    ∃ final, runSteps step ⟨smallKernel, fun _ => [], []⟩
        [.allocate 24 8, .allocate 300 2048, .storeByte 0x11000 7, .allocate 32 16,
          .free 0x11000 300 2048] = some final ∧
      ∃ allocation ∈ final.1.live, allocation.size = 24 ∧
        (FreesWell final.1.kernel allocation 32 ↔ allocation.size < largeSize) := by
  have hcompletes : (runSteps step ⟨smallKernel, fun _ => [], []⟩
      [.allocate 24 8, .allocate 300 2048, .storeByte 0x11000 7, .allocate 32 16,
        .free 0x11000 300 2048]).map (fun final => final.1.live) =
      some [⟨0x10FC0, 32, 16, 32, .slab 0⟩, ⟨0x10FE0, 24, 8, 32, .slab 0⟩] := by
    decide +kernel
  obtain ⟨final, hrun, hfinal⟩ := Option.map_eq_some_iff.mp hcompletes
  refine ⟨final, hrun, ⟨0x10FE0, 24, 8, 32, .slab 0⟩, by rw [hfinal]; simp, rfl, ?_⟩
  exact frees_iff smallKernel_start (by decide +kernel) hrun (by rw [hfinal]; simp) (by decide)
    (by decide)

/-- **Sixteen pages cannot be freed**: behind the page allocator, `free` goes on to the bitmap
allocator, whose check on the address fails. -/
theorem frees_iff_fails : ∃ kernel, Start 0x10000 10250 (fun _ => 0) kernel ∧
    StepsMeet step Legal ⟨kernel, fun _ => [], []⟩ [.allocate 0x10000 8] ∧
    ∃ final, runSteps step ⟨kernel, fun _ => [], []⟩ [.allocate 0x10000 8] = some final ∧
      ∃ allocation ∈ final.1.live,
        ¬ FreesWell final.1.kernel allocation allocation.size := by
  refine ⟨smallKernel, smallKernel_start, by decide +kernel, ?_⟩
  have hcompletes : (runSteps step ⟨smallKernel, fun _ => [], []⟩ [.allocate 0x10000 8]).map
      (fun final => (final.1.live, (final.1.kernel.free 0x101000 0x10000 8).isNone)) =
      some ([⟨0x101000, 0x10000, 8, 0x10000, .pages⟩], true) := by
    decide +kernel
  obtain ⟨final, hrun, hfinal⟩ := Option.map_eq_some_iff.mp hcompletes
  obtain ⟨hlive, hfree⟩ := Prod.mk.inj hfinal
  refine ⟨final, hrun, ⟨0x101000, 0x10000, 8, 0x10000, .pages⟩, by rw [hlive]; simp, ?_⟩
  rintro ⟨kernel, hsome, -⟩
  rw [Option.isNone_iff_eq_none] at hfree
  rw [hfree] at hsome
  cases hsome

end KernelAllocator

end BekOS
