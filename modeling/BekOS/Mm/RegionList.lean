import BekOS.Arch.TableTree
import BekOS.Lib.PartialRun
import BekOS.Library.BekVector
import BekOS.Process.AllocateSyscalls

/-!
# The list of regions

`place_region` looks for the place of a region by comparing wrapped ends, and
checks its location plus size, wrapped as well, against the end of user space.
`RegionsOk` is what the list is meant to be; `RegionsOrdered` is the invariant that
carries it: each region ends where the next one starts, or before.  Both hold along
every run in which no hint wraps around and no region goes before the first one.
-/

namespace BekOS

open PartialRun

/-! ## What the list is meant to be -/

/-- Sorted by start, pairwise disjoint as intervals of integers, page-aligned, and
in user space. -/
structure RegionsOk (regions : List UserspaceRegion) : Prop where
  sorted : regions.Pairwise fun a b => a.userRegion.start.toNat ≤ b.userRegion.start.toNat
  disjoint : regions.Pairwise fun a b =>
    ∀ address, ¬ (a.userRegion.Covers address ∧ b.userRegion.Covers address)
  aligned : ∀ region ∈ regions, region.userRegion.pageAligned = true
  inUserSpace : ∀ region ∈ regions, ∀ address, region.userRegion.Covers address →
    address ≤ userAddrMax.toNat

/-- Each region ends where the next one starts, or before; each is page-aligned and
ends in user space. -/
structure RegionsOrdered (regions : List UserspaceRegion) : Prop where
  ordered : regions.Pairwise fun a b => a.userRegion.limit ≤ b.userRegion.start.toNat
  aligned : ∀ region ∈ regions, region.userRegion.pageAligned = true
  bounded : ∀ region ∈ regions, region.userRegion.limit ≤ userAddrMax.toNat

/-- The regions of the address space are in order. -/
def SpaceManager.Ordered {σ : Type} (space : SpaceManager σ) : Prop :=
  RegionsOrdered space.regions

theorem UserRegion.start_le_limit (region : UserRegion) : region.start.toNat ≤ region.limit :=
  Nat.le_add_right _ _

theorem RegionsOrdered.regionsOk {regions : List UserspaceRegion}
    (h : RegionsOrdered regions) : RegionsOk regions where
  sorted := h.ordered.imp fun {a _} hab => a.userRegion.start_le_limit.trans hab
  disjoint := h.ordered.imp fun hab _ hcovers =>
    absurd (lt_of_lt_of_le hcovers.1.2 hab) (Nat.not_lt.mpr hcovers.2.1)
  aligned := h.aligned
  inUserSpace region hmem _ hcovers := (Nat.le_of_lt hcovers.2).trans (h.bounded region hmem)

theorem RegionsOrdered.fits {regions : List UserspaceRegion} (h : RegionsOrdered regions)
    {region : UserspaceRegion} (hmem : region ∈ regions) : region.userRegion.Fits :=
  lt_of_le_of_lt (h.bounded region hmem) (by decide)

theorem RegionsOrdered.sublist {regions rest : List UserspaceRegion}
    (h : RegionsOrdered regions) (hsub : rest.Sublist regions) : RegionsOrdered rest where
  ordered := h.ordered.sublist hsub
  aligned region hmem := h.aligned region (hsub.subset hmem)
  bounded region hmem := h.bounded region (hsub.subset hmem)

/-! ## The place of a new region -/

/-- **The loop of `place_region`** cuts the list where the region goes: what is before
ends before it, what is after starts after it. -/
theorem insertPosition_spec {desired : UserRegion} (fits : desired.Fits) :
    ∀ {regions : List UserspaceRegion} {i : ℕ}, RegionsOrdered regions →
      insertPosition desired regions = some i →
      ∃ before after, regions = before ++ after ∧ i = before.length ∧
        (∀ region ∈ before, region.userRegion.limit ≤ desired.start.toNat) ∧
        ∀ region ∈ after, desired.limit ≤ region.userRegion.start.toNat := by
  intro regions
  induction regions with
  | nil =>
      intro i _ h
      cases h
      exact ⟨[], [], rfl, rfl, nofun, nofun⟩
  | cons region rest ih =>
      intro i ordered h
      have hfits := ordered.fits List.mem_cons_self
      simp only [insertPosition, UserRegion.overlaps_iff hfits fits, ge_iff_le,
        BitVec.le_def, fits.toNat_endPtr] at h
      split_ifs at h with hoverlap hafter
      · cases h
        refine ⟨[], region :: rest, rfl, rfl, nofun, fun other hmem => ?_⟩
        rcases List.mem_cons.mp hmem with rfl | hrest
        · exact hafter
        · have hnext := (List.pairwise_cons.mp ordered.ordered).1 other hrest
          exact (hafter.trans region.userRegion.start_le_limit).trans hnext
      · obtain ⟨j, hj, rfl⟩ := Option.map_eq_some_iff.mp h
        obtain ⟨before, after, rfl, rfl, hbefore, hlater⟩ :=
          ih (ordered.sublist (List.sublist_cons_self _ _)) hj
        refine ⟨region :: before, after, rfl, rfl, fun other hmem => ?_, hlater⟩
        rcases List.mem_cons.mp hmem with rfl | hrest
        · -- It starts before the region's end and does not overlap it.
          rw [not_and, Nat.not_lt] at hoverlap
          by_contra hnot
          exact hafter (hoverlap (Nat.lt_of_not_le hnot))
        · exact hbefore other hrest

theorem RegionsOrdered.insert {before after : List UserspaceRegion}
    (h : RegionsOrdered (before ++ after)) {region : UserspaceRegion}
    (aligned : region.userRegion.pageAligned = true)
    (bounded : region.userRegion.limit ≤ userAddrMax.toNat)
    (hbefore : ∀ other ∈ before,
      other.userRegion.limit ≤ region.userRegion.start.toNat)
    (hafter : ∀ other ∈ after, region.userRegion.limit ≤ other.userRegion.start.toNat) :
    RegionsOrdered (before ++ region :: after) where
  ordered := by
    obtain ⟨hleft, hright, hcross⟩ := List.pairwise_append.mp h.ordered
    refine List.pairwise_append.mpr
      ⟨hleft, List.pairwise_cons.mpr ⟨hafter, hright⟩, fun a ha b hb => ?_⟩
    rcases List.mem_cons.mp hb with rfl | hb
    · exact hbefore a ha
    · exact hcross a ha b hb
  aligned other hmem := by
    rcases List.mem_append.mp hmem with hmem | hmem
    · exact h.aligned other (List.mem_append_left _ hmem)
    · rcases List.mem_cons.mp hmem with rfl | hmem
      · exact aligned
      · exact h.aligned other (List.mem_append_right _ hmem)
  bounded other hmem := by
    rcases List.mem_append.mp hmem with hmem | hmem
    · exact h.bounded other (List.mem_append_left _ hmem)
    · rcases List.mem_cons.mp hmem with rfl | hmem
      · exact bounded
      · exact h.bounded other (List.mem_append_right _ hmem)

/-! ## One call -/

/-- The hint, where there is one, plus the size does not wrap around. -/
def NoWrap : Option U64 → U64 → Prop
  | some hint, size => hint.toNat + size.toNat < 2 ^ 64
  | none, _ => True

instance : (location : Option U64) → (size : U64) → Decidable (NoWrap location size)
  | some _, _ => inferInstanceAs (Decidable (_ < _))
  | none, _ => inferInstanceAs (Decidable True)

/-- The hint plus the size does not wrap around, and the region does not go before
the first one. -/
structure InOrder (regions : List UserspaceRegion) (location : Option U64) (size : U64) :
    Prop where
  noWrap : NoWrap location size
  notFirst : insertPosition (desiredRegion regions location size) regions = some 0 →
    regions = []

instance (regions : List UserspaceRegion) (location : Option U64) (size : U64) :
    Decidable (InOrder regions location size) :=
  decidable_of_iff (NoWrap location size ∧
      (insertPosition (desiredRegion regions location size) regions = some 0 → regions = []))
    ⟨fun h => ⟨h.1, h.2⟩, fun h => ⟨h.noWrap, h.notFirst⟩⟩

/-- What the calls are asked to respect. -/
def SpaceOp.InOrder {σ : Type} (regions : List UserspaceRegion) : SpaceOp σ → Prop
  | placeRegion location _ _ backing => BekOS.InOrder regions location backing.size
  | allocatePlacedRegion region _ _ _ => BekOS.InOrder regions (some region.start) region.size
  | deallocateUserspaceRegion _ _ => True
  | deallocateBacking _ => True
  | others _ => True

instance {σ : Type} (regions : List UserspaceRegion) :
    (op : SpaceOp σ) → Decidable (op.InOrder regions)
  | .placeRegion _ _ _ _ => inferInstanceAs (Decidable (InOrder _ _ _))
  | .allocatePlacedRegion _ _ _ _ => inferInstanceAs (Decidable (InOrder _ _ _))
  | .deallocateUserspaceRegion _ _ => inferInstanceAs (Decidable True)
  | .deallocateBacking _ => inferInstanceAs (Decidable True)
  | .others _ => inferInstanceAs (Decidable True)

section Steps

variable {σ : Type} {source : TableSource σ} {space space' : SpaceManager σ}
  {location : Option U64} {allowedOperations : MemoryOperation} {name : String}
  {backing : BackingRegion}

theorem placeLocation_add_lt (ordered : RegionsOrdered space.regions)
    (noWrap : NoWrap location backing.size) :
    (placeLocation space.regions location).toNat + backing.size.toNat < 2 ^ 64 := by
  have hsize := backing.inMemory
  unfold placeLocation
  split
  · exact noWrap
  · split
    · rename_i last hlast
      have hlimit := ordered.bounded last (List.mem_of_getLast? hlast)
      have hend := (ordered.fits (List.mem_of_getLast? hlast)).toNat_endPtr
      rw [toNat_userAddrMax] at hlimit
      rw [alignUp, BitVec.toNat_mul, toNat_ceilDiv_pageSize (by omega), hend, toNat_pageSize]
      omega
    · have : virtAddrStart.toNat = 0x500000 := rfl
      omega

theorem Places.bounded {i : ℕ} {tables : TableState σ} (ordered : RegionsOrdered space.regions)
    (noWrap : NoWrap location backing.size)
    {code : ErrorCode}
    (places : Places source space location allowedOperations backing i tables code) :
    (desiredRegion space.regions location backing.size).pageAligned = true ∧
      (desiredRegion space.regions location backing.size).limit ≤ userAddrMax.toNat := by
  obtain ⟨haligned, hsize, -⟩ := mapIntoTable_cases places.mapped
  have hsum := placeLocation_add_lt ordered noWrap
  have hend : (placeLocation space.regions location + backing.size).toNat ≤
      userAddrMax.toNat := places.end_le
  rw [BitVec.toNat_add, Nat.mod_eq_of_lt hsum] at hend
  exact ⟨haligned, (Nat.add_le_add_left hsize _).trans hend⟩

theorem placeRegion_ordered {result : Except ErrorCode UserRegion}
    (h : placeRegion source space location allowedOperations name backing =
      .ok (space', result))
    (ordered : RegionsOrdered space.regions)
    (noWrap : NoWrap location backing.size) :
    RegionsOrdered space'.regions := by
  rcases placeRegion_cases h with ⟨_, _, rfl, -⟩ | ⟨i, tables, places, -, rfl, -⟩
  · exact ordered
  · obtain ⟨haligned, hbounded⟩ := places.bounded ordered noWrap
    have hfits : (desiredRegion space.regions location backing.size).Fits :=
      lt_of_le_of_lt hbounded (by decide)
    obtain ⟨before, after, hregions, rfl, hbefore, hafter⟩ :=
      insertPosition_spec hfits ordered places.position
    dsimp only
    rw [hregions, insertIdx_length_append]
    refine RegionsOrdered.insert (hregions ▸ ordered) ?_ ?_ ?_ ?_
    · rw [← hregions]
      exact haligned
    · rw [← hregions]
      exact hbounded
    · rw [← hregions]
      exact hbefore
    · rw [← hregions]
      exact hafter

/-- Every call that respects the order keeps the list in order. -/
theorem spaceStep_ordered {op : SpaceOp σ} {reply : SpaceReply}
    (ordered : RegionsOrdered space.regions) (inOrder : op.InOrder space.regions)
    (h : spaceStep source space op = some (space', reply)) : RegionsOrdered space'.regions := by
  have hcall := toOption_eq_some.mp h
  cases op with
  | placeRegion location allowedOperations name backing =>
      obtain ⟨⟨placed, result⟩, hplace, heq⟩ := map_eq_ok.mp hcall
      cases heq
      exact placeRegion_ordered hplace ordered inOrder.noWrap
  | allocatePlacedRegion region allowedOperations name object =>
      obtain ⟨⟨placed, result⟩, hallocate, heq⟩ := map_eq_ok.mp hcall
      cases heq
      rcases allocatePlacedRegion_cases hallocate with
        ⟨rfl, -⟩ | ⟨_, pageAllocator, allocation, placed', answer, -, -, hsize, -, hplace, hout⟩
      · exact ordered
      · have hordered : RegionsOrdered placed'.regions := by
          refine placeRegion_ordered hplace ordered ?_
          rw [hsize]
          exact inOrder.noWrap
        rcases hout with ⟨_, -, -, rfl⟩ | ⟨_, -, -, rfl⟩
        · exact hordered
        · exact hordered
  | deallocateUserspaceRegion start size =>
      obtain ⟨⟨rest, code⟩, hdeallocate, heq⟩ := map_eq_ok.mp hcall
      cases heq
      rcases deallocateUserspaceRegion_cases hdeallocate with
        ⟨rfl, -⟩ | ⟨region, tables, done, -, -, hout⟩
      · exact ordered
      · split_ifs at hout
        · obtain ⟨rfl, -⟩ := hout
          exact ordered.sublist List.eraseP_sublist
        · obtain ⟨rfl, -⟩ := hout
          exact ordered
  | deallocateBacking backing =>
      cases hcall
      exact ordered.sublist List.filter_sublist
  | others tables =>
      cases hcall
      exact ordered

theorem spaceCall_ne_outOfBounds {op : SpaceOp σ} (inOrder : op.InOrder space.regions) :
    spaceCall source space op ≠ .error .outOfBounds := by
  intro h
  cases op with
  | placeRegion location allowedOperations name backing =>
      obtain ⟨hfirst, hne⟩ := placeRegion_outOfBounds (map_eq_error.mp h)
      exact hne (inOrder.notFirst hfirst)
  | allocatePlacedRegion region allowedOperations name object =>
      obtain ⟨hfirst, hne⟩ := allocatePlacedRegion_outOfBounds (map_eq_error.mp h)
      exact hne (inOrder.notFirst hfirst)
  | deallocateUserspaceRegion start size =>
      exact deallocateUserspaceRegion_ne_outOfBounds (map_eq_error.mp h)
  | deallocateBacking backing => cases h
  | others tables => cases h

end Steps

/-! ## Runs -/

/-- **The list of regions over a run.**  If no hint of the run wraps around and no
region is to go before the first one, then in every state the run reaches the regions
are sorted, disjoint, page-aligned and in user space, and the next call does not run
out of the list. -/
theorem run_regionsOk {σ : Type} (source : TableSource σ) {space : SpaceManager σ}
    (empty : space.regions = []) {ops : List (SpaceOp σ)}
    (inOrder : StepsMeet (spaceStep source) (fun space op => op.InOrder space.regions) space ops)
    (n : ℕ) {final : SpaceManager σ × List SpaceReply}
    (hrun : runSteps (spaceStep source) space (ops.take n) = some final) :
    RegionsOk final.1.regions ∧
      ∀ op, ops[n]? = some op → spaceCall source final.1 op ≠ .error .outOfBounds := by
  have hstart : space.Ordered := by
    rw [SpaceManager.Ordered, empty]
    exact ⟨List.Pairwise.nil, nofun, nofun⟩
  have hordered := @runSteps_invariant _ _ _ _ _ SpaceManager.Ordered
    (fun _ _ _ ordered hinOrder hstep => spaceStep_ordered ordered hinOrder hstep)
    _ _ _ hstart (inOrder.take n) hrun
  exact ⟨hordered.regionsOk, fun op hop => spaceCall_ne_outOfBounds (inOrder.at hrun hop)⟩

/-- Two pages are placed with a page between them, and the first is given back. -/
def twoPages {σ : Type} : List (SpaceOp σ) :=
  [.allocatePlacedRegion ⟨0x500000, 0x1000⟩ (.read ||| .write) "data" 0,
    .allocatePlacedRegion ⟨0x502000, 0x1000⟩ .read "text" 1,
    .deallocateUserspaceRegion 0x500000 0x1000]

theorem run_twoPages :
    ∃ final, runSteps (spaceStep TableSource.pool) ⟨[], 1, .empty samplePool⟩ twoPages =
        some final ∧ final.1.regions.map (·.userRegion) = [⟨0x502000, 0x1000⟩] :=
  Option.map_eq_some_iff.mp (by decide +kernel)

theorem run_regionsOk_two_pages :
    ∃ final, runSteps (spaceStep TableSource.pool) ⟨[], 1, .empty samplePool⟩ twoPages =
        some final ∧ final.1.regions.map (·.userRegion) = [⟨0x502000, 0x1000⟩] ∧
      RegionsOk final.1.regions := by
  obtain ⟨final, hrun, hregions⟩ := run_twoPages
  have inOrder : StepsMeet (spaceStep TableSource.pool)
      (fun space op => op.InOrder space.regions) ⟨[], 1, .empty samplePool⟩ twoPages := by
    decide +kernel
  exact ⟨final, hrun, hregions, (run_regionsOk TableSource.pool rfl inOrder 3 hrun).1⟩

/-- Four pages at `0xFFFFFFFFFFFFE000`: the sum with the size wraps around to `0x2000`,
and the region is accepted. -/
theorem run_regionsOk_fails :
    (∃ final, runSteps (spaceStep TableSource.pool) ⟨[], 1, .empty samplePool⟩
        [.placeRegion (some 0xFFFFFFFFFFFFE000) (.read ||| .write) "Allocate"
          ⟨0, .userOwnedAllocation, 0x8000, 0x4000, by decide⟩] = some final ∧
      ¬ RegionsOk final.1.regions) ∧
    ∃ space, sysAllocate TableSource.pool
        ⟨[], 1, .empty ((8, 4) :: samplePool.1, samplePool.2)⟩ 0xFFFFFFFFFFFFE000 0x4000 0 =
          .ok (space, .ok 0xFFFFFFFFFFFFE000) ∧
      ¬ RegionsOk space.regions := by
  have hoff : ∀ {regions : List UserspaceRegion},
      regions.map (·.userRegion) = [⟨0xFFFFFFFFFFFFE000, 0x4000⟩] → ¬ RegionsOk regions := by
    intro regions hregions ok
    obtain ⟨region, hmem, heq⟩ : ∃ region ∈ regions,
        region.userRegion = ⟨0xFFFFFFFFFFFFE000, 0x4000⟩ := by
      rw [← List.mem_map, hregions]
      exact List.mem_singleton_self _
    have hcovers : region.userRegion.Covers 0xFFFFFFFFFFFFE000 := by
      rw [heq]
      decide
    exact absurd (ok.inUserSpace region hmem _ hcovers) (by decide)
  constructor
  · have hruns : (runSteps (spaceStep TableSource.pool) ⟨[], 1, .empty samplePool⟩
        [.placeRegion (some 0xFFFFFFFFFFFFE000) (.read ||| .write) "Allocate"
          ⟨0, .userOwnedAllocation, 0x8000, 0x4000, by decide⟩]).map
            (fun final => final.1.regions.map (·.userRegion)) =
        some [⟨0xFFFFFFFFFFFFE000, 0x4000⟩] := by decide +kernel
    obtain ⟨final, hrun, hregions⟩ := Option.map_eq_some_iff.mp hruns
    exact ⟨final, hrun, hoff hregions⟩
  · have hcalls : (sysAllocate TableSource.pool
        ⟨[], 1, .empty ((8, 4) :: samplePool.1, samplePool.2)⟩ 0xFFFFFFFFFFFFE000 0x4000 0).map
          (fun out => (out.2.toOption, out.1.regions.map (·.userRegion))) =
        .ok (some 0xFFFFFFFFFFFFE000, [⟨0xFFFFFFFFFFFFE000, 0x4000⟩]) := by decide +kernel
    obtain ⟨⟨space, result⟩, hcall, heq⟩ := map_eq_ok.mp hcalls
    obtain ⟨hresult, hregions⟩ := Prod.mk.inj heq
    rw [toOption_eq_some] at hresult
    dsimp only at hresult
    subst hresult
    exact ⟨space, hcall, hoff hregions⟩

end BekOS
