import BekOS.Mm.KernelAllocator
import BekOS.Mm.ReservedPages

/-!
# Reserved ranges over all regions

`PageAllocator::mark_as_reserved` passes a range on to every region that it overlaps, and each of
them takes it for a range of its own.  That is right where the region contains the range and goes on
behind it.
-/

namespace BekOS

open PartialRun RegionPageAllocator

/-- `overlaps` -/
def VirtualRegion.overlaps (region other : VirtualRegion) : Bool :=
  other.start < region.start + region.size.toNat && region.start < other.start + other.size.toNat

namespace PageAllocator

/-! ## The functions -/

/-- `register_new_region`; `none` when a check fails. -/
def registerNewRegion (regions : List RegionPageAllocator) (region : VirtualRegion)
    (memory : Memory Byte) : Option (List RegionPageAllocator) :=
  if regions.any (·.region.overlaps region) || regions.length ≥ maxPhysicalRegions then none
  else some (regions ++ [new region memory])

/-- The loop of `mark_as_reserved`. -/
def markRegions (range : VirtualRegion) :
    List RegionPageAllocator → Option (List RegionPageAllocator)
  | [] => some []
  | region :: rest =>
      (if region.region.overlaps range then region.markRangeAsReserved range else some region).bind
        fun region => (markRegions range rest).map (region :: ·)

/-- `mark_as_reserved`; `none` when a check fails. -/
def markAsReserved (regions : List RegionPageAllocator) (range : VirtualRegion) :
    Option (List RegionPageAllocator) :=
  if range.PageAligned then markRegions range regions else none

/-- A store, to the region that the pointer lies in. -/
def storeAt (ptr : ℕ) (value : Byte) : List RegionPageAllocator → List RegionPageAllocator
  | [] => []
  | region :: rest =>
      if region.region.contains ptr then
        { region with
          memory := Function.update region.memory (ptr - region.region.start) value } :: rest
      else region :: storeAt ptr value rest

/-- The calls, and the stores of the callers into the pages they hold. -/
inductive Call where
  | registerNewRegion (region : VirtualRegion) (memory : Memory Byte)
  | markAsReserved (range : VirtualRegion)
  | allocateRegion (pageNumber : ℕ)
  | freeRegion (start : ℕ)
  | store (ptr : ℕ) (value : Byte)

/-- One of them. -/
def step (regions : List RegionPageAllocator) :
    Call → Option (List RegionPageAllocator × Option ℕ)
  | .registerNewRegion region memory => (registerNewRegion regions region memory).map (·, none)
  | .markAsReserved range => (markAsReserved regions range).map (·, none)
  | .allocateRegion pageNumber => some (allocateRegion regions pageNumber)
  | .freeRegion start => (freeRegion regions start).map (·, none)
  | .store ptr value => some (storeAt ptr value regions, none)

/-! ## The regions with what is held of them -/

/-- The calls are passed on to the regions, each of which keeps its own account. -/
def markEach (range : VirtualRegion) : List Managed → Option (List Managed)
  | [] => some []
  | region :: rest =>
      (if region.owned.alloc.region.overlaps range then
        (region.call (.markAsReserved range)).map Prod.fst else some region).bind
        fun region => (markEach range rest).map (region :: ·)

/-- The first region that has that many pages. -/
def allocateFirst (pageNumber : ℕ) : List Managed → Option (List Managed × Option ℕ)
  | [] => some ([], none)
  | region :: rest =>
      (region.call (.op (.allocatePages pageNumber))).bind fun moved =>
        match moved.2 with
        | some ptr => some (moved.1 :: rest, some ptr)
        | none => (allocateFirst pageNumber rest).map fun done => (moved.1 :: done.1, done.2)

/-- The first region that the pointer lies in, of so many; `none` when it is looked for in more. -/
def callAt (ptr : ℕ) (op : Op) : ℕ → List Managed → Option (List Managed)
  | 0, _ => none
  | _ + 1, [] => some []
  | left + 1, region :: rest =>
      if region.owned.alloc.region.contains ptr then
        (region.call (.op op)).map (·.1 :: rest)
      else (callAt ptr op left rest).map (region :: ·)

/-- A call, with the accounts kept. -/
def call (regions : List Managed) : Call → Option (List Managed × Option ℕ)
  | .registerNewRegion region memory =>
      (registerNewRegion (regions.map (·.owned.alloc)) region memory).map fun _ =>
        (regions ++ [⟨⟨new region memory, []⟩, []⟩], none)
  | .markAsReserved range =>
      if range.PageAligned then (markEach range regions).map (·, none) else none
  | .allocateRegion pageNumber => allocateFirst pageNumber regions
  | .freeRegion start => (callAt start (.freeRegion start) maxPhysicalRegions regions).map (·, none)
  | .store ptr value => (callAt ptr (.store ptr value) (regions.length + 1) regions).map (·, none)

theorem markEach_allocs (range : VirtualRegion) (regions : List Managed) :
    (markEach range regions).map (List.map (·.owned.alloc)) =
      markRegions range (regions.map (·.owned.alloc)) := by
  induction regions with
  | nil => rfl
  | cons region rest ih =>
      rw [markEach, List.map_cons, markRegions, ← ih]
      by_cases hover : region.owned.alloc.region.overlaps range = true
      · rw [if_pos hover, if_pos hover, Managed.call]
        cases region.owned.alloc.markRangeAsReserved range with
        | none => rfl
        | some alloc =>
            cases markEach range rest with
            | none => rfl
            | some rest' => rfl
      · rw [if_neg hover, if_neg hover]
        cases markEach range rest with
        | none => rfl
        | some rest' => rfl

theorem allocateFirst_allocs (pageNumber : ℕ) (regions : List Managed) :
    (allocateFirst pageNumber regions).map
        (fun done => (done.1.map (·.owned.alloc), done.2)) =
      some (allocateRegion (regions.map (·.owned.alloc)) pageNumber) := by
  induction regions with
  | nil => rfl
  | cons region rest ih =>
      rw [allocateFirst, List.map_cons, allocateRegion, Managed.call, RegionPageAllocator.step]
      obtain ⟨alloc, ptr⟩ := region.owned.alloc.allocatePages pageNumber
      cases ptr with
      | some ptr => rfl
      | none =>
          obtain ⟨done, hall, heq⟩ := Option.map_eq_some_iff.mp ih
          dsimp only [Option.map_some, Option.bind_some]
          rw [hall, ← heq]
          rfl

theorem callAt_free (start left : ℕ) (regions : List Managed) :
    (callAt start (.freeRegion start) left regions).map (List.map (·.owned.alloc)) =
      freeRegionFrom left (regions.map (·.owned.alloc)) start := by
  induction left generalizing regions with
  | zero => rfl
  | succ left ih =>
      cases regions with
      | nil => rfl
      | cons region rest =>
          rw [callAt, List.map_cons, freeRegionFrom, ← ih]
          by_cases hin : region.owned.alloc.region.contains start = true
          · rw [if_pos hin, if_pos hin, Managed.call, RegionPageAllocator.step]
            cases region.owned.alloc.freeRegion start with
            | none => rfl
            | some alloc => rfl
          · rw [if_neg hin, if_neg hin]
            cases callAt start (.freeRegion start) left rest with
            | none => rfl
            | some rest' => rfl

variable {regions regions' : List Managed} {region : Managed}

theorem callAt_store (ptr : ℕ) (value : Byte) {left : ℕ} (h : regions.length < left) :
    (callAt ptr (.store ptr value) left regions).map (List.map (·.owned.alloc)) =
      some (storeAt ptr value (regions.map (·.owned.alloc))) := by
  induction left generalizing regions with
  | zero => exact absurd h (Nat.not_lt_zero _)
  | succ left ih =>
      cases regions with
      | nil => rfl
      | cons region rest =>
          rw [callAt, List.map_cons, storeAt]
          by_cases hin : region.owned.alloc.region.contains ptr = true
          · rw [if_pos hin, if_pos hin]
            rfl
          · rw [if_neg hin, if_neg hin]
            obtain ⟨rest', hrest, heq⟩ :=
              Option.map_eq_some_iff.mp (ih (Nat.lt_of_succ_lt_succ h))
            rw [hrest, ← heq]
            rfl

theorem call_step (regions : List Managed) (c : Call) :
    (call regions c).map (fun moved => (moved.1.map (·.owned.alloc), moved.2)) =
      step (regions.map (·.owned.alloc)) c := by
  cases c with
  | registerNewRegion region memory =>
      rw [call, step, registerNewRegion]
      split_ifs
      · rfl
      · rw [Option.map_some, Option.map_some, Option.map_some, List.map_append]
        rfl
  | markAsReserved range =>
      rw [call, step, markAsReserved]
      split_ifs
      · rw [← markEach_allocs, Option.map_map, Option.map_map]
        rfl
      · rfl
  | allocateRegion pageNumber => exact allocateFirst_allocs pageNumber regions
  | freeRegion start =>
      rw [call, step, freeRegion, ← callAt_free, Option.map_map, Option.map_map]
      rfl
  | store ptr value =>
      have hstore := callAt_store ptr value (Nat.lt_succ_self regions.length)
      obtain ⟨regions', hcall, heq⟩ := Option.map_eq_some_iff.mp hstore
      rw [call, step, hcall, ← heq]
      rfl

/-! ## What is reserved stays reserved -/

/-- The ranges that may be reserved: each region that overlaps one contains its start, and goes on
behind its end. -/
def Fits (regions : List Managed) (range : VirtualRegion) : Prop :=
  range.PageAligned ∧ ∀ region ∈ regions, region.owned.alloc.region.overlaps range = true →
    region.owned.alloc.region.start ≤ range.start ∧
      range.start + range.size.toNat <
        region.owned.alloc.region.start + region.owned.alloc.region.size.toNat
deriving Decidable

/-- Regions are page-aligned, ranges fit, and callers free and store what the region that it lies in
permits. -/
def Permitted (regions : List Managed) : Call → Prop
  | .registerNewRegion region _ => region.PageAligned ∧ region.InAddressSpace
  | .markAsReserved range => Fits regions range
  | .allocateRegion _ => True
  | .freeRegion start => ∀ region ∈ regions, region.owned.alloc.region.contains start = true →
      Managed.Permitted region.owned.alloc.region region (.op (.freeRegion start))
  | .store ptr value => ∀ region ∈ regions, region.owned.alloc.region.contains ptr = true →
      Managed.Permitted region.owned.alloc.region region (.op (.store ptr value))

instance (regions : List Managed) : (c : Call) → Decidable (Permitted regions c)
  | .registerNewRegion region _ =>
      inferInstanceAs (Decidable (region.PageAligned ∧ region.InAddressSpace))
  | .markAsReserved range => inferInstanceAs (Decidable (Fits regions range))
  | .allocateRegion _ => inferInstanceAs (Decidable True)
  | .freeRegion start => inferInstanceAs (Decidable (∀ region ∈ regions,
      region.owned.alloc.region.contains start = true →
        Managed.Permitted region.owned.alloc.region region (.op (.freeRegion start))))
  | .store ptr value => inferInstanceAs (Decidable (∀ region ∈ regions,
      region.owned.alloc.region.contains ptr = true →
        Managed.Permitted region.owned.alloc.region region (.op (.store ptr value))))

/-- A region whose bits are accounted for. -/
def Accounted (region : Managed) : Prop :=
  region.owned.alloc.region.PageAligned ∧ region.owned.alloc.region.InAddressSpace ∧
    ∃ initial, Managed.Ok region.owned.alloc.region initial region

/-- What a call makes of a region: it stays where it is, what was reserved stays so, and its bits are
accounted for. -/
structure Evolves (region region' : Managed) : Prop where
  same : region'.owned.alloc.region = region.owned.alloc.region
  kept : ∀ range ∈ region.kept, range ∈ region'.kept
  accounted : Accounted region'

theorem Evolves.refl {region : Managed} (h : Accounted region) : Evolves region region :=
  ⟨rfl, fun _ hrange => hrange, h⟩

theorem forall₂_evolves (h : ∀ region ∈ regions, Accounted region) :
    List.Forall₂ Evolves regions regions := by
  induction regions with
  | nil => exact List.Forall₂.nil
  | cons region rest ih =>
      exact List.Forall₂.cons (Evolves.refl (h region List.mem_cons_self))
        (ih fun other hother => h other (List.mem_cons_of_mem _ hother))

theorem evolves_call (h : Accounted region) {c : RegionPageAllocator.Call}
    (permitted : Managed.Permitted region.owned.alloc.region region c)
    {moved : Managed × Option ℕ} (hcall : region.call c = some moved) :
    Evolves region moved.1 := by
  obtain ⟨haligned, hspace, initial, ok⟩ := h
  have ok' := Managed.call_ok haligned hspace ok permitted hcall
  refine ⟨ok'.same, fun range hrange => ?_, ?_⟩
  · cases c with
    | op op =>
        obtain ⟨stepped, -, rfl⟩ := Option.map_eq_some_iff.mp hcall
        exact hrange
    | markAsReserved range' =>
        obtain ⟨alloc, -, rfl⟩ := Option.map_eq_some_iff.mp hcall
        exact List.mem_cons_of_mem _ hrange
  · unfold Accounted
    rw [ok'.same]
    exact ⟨haligned, hspace, initial, ok'⟩

theorem mark_spec (h : Accounted region) {range : VirtualRegion} (hrange : range.PageAligned)
    (hlow : region.owned.alloc.region.start ≤ range.start)
    (hhigh : range.start + range.size.toNat <
      region.owned.alloc.region.start + region.owned.alloc.region.size.toNat) :
    ∃ region', region.call (.markAsReserved range) = some (region', none) ∧
      Evolves region region' ∧ (range.start, range.pageNumber.toNat) ∈ region'.kept ∧
        ∀ page < region.owned.alloc.region.pageNumber.toNat,
          ¬ InAllocation region.owned.alloc.region (range.start, range.pageNumber.toNat) page →
            reserved region'.owned.alloc.memory page = reserved region.owned.alloc.memory page := by
  obtain ⟨haligned, hspace, initial, ok⟩ := id h
  have hinside : region.owned.alloc.region.Contains range := ⟨hlow, hhigh.le⟩
  have hpasses := (markRange_passes haligned hspace hrange hinside).mpr hhigh
  obtain ⟨after, hafter⟩ : ∃ after, region.owned.alloc.markRangeAsReserved range = some after :=
    ⟨_, if_pos hpasses⟩
  have hcall : region.call (.markAsReserved range) = some
      (⟨⟨after, region.owned.live⟩, (range.start, range.pageNumber.toNat) :: region.kept⟩,
        none) := by
    rw [Managed.call, hafter, Option.map_some]
  refine ⟨_, hcall, evolves_call (c := .markAsReserved range) h ⟨hrange, hinside⟩ hcall, List.mem_cons_self,
    fun page hpage hout => ?_⟩
  obtain ⟨index, hstart, hend, rfl⟩ := markRange_spec haligned hspace hrange hinside rfl hafter
  obtain ⟨hpages, -, -⟩ := bitmap_sizes region.owned.alloc.region
  have hmark := (markAsReserved_spec region.owned.alloc.region range.pageNumber.toNat index
    region.owned.alloc.memory (by omega) page (by omega)).1
  refine hmark.trans ?_
  rw [inAllocation_iff hstart] at hout
  rw [decide_eq_false hout, Bool.false_or]

/-- What `mark_as_reserved` does to each region. -/
structure Marks (range : VirtualRegion) (region region' : Managed) : Prop where
  evolves : Evolves region region'
  inside : region.owned.alloc.region.overlaps range = true →
    (range.start, range.pageNumber.toNat) ∈ region'.kept
  outside : ∀ page < region.owned.alloc.region.pageNumber.toNat,
    ¬ InAllocation region.owned.alloc.region (range.start, range.pageNumber.toNat) page →
      reserved region'.owned.alloc.memory page = reserved region.owned.alloc.memory page

/-- **`mark_as_reserved`** of a range that fits. -/
theorem markEach_spec {range : VirtualRegion} (h : ∀ region ∈ regions, Accounted region)
    (fits : Fits regions range) :
    ∃ regions', markEach range regions = some regions' ∧
      List.Forall₂ (Marks range) regions regions' := by
  obtain ⟨hrange, hfits⟩ := fits
  induction regions with
  | nil => exact ⟨[], rfl, List.Forall₂.nil⟩
  | cons region rest ih =>
      obtain ⟨rest', hrest, hmarks⟩ := ih (fun other hother => h other (List.mem_cons_of_mem _ hother))
        fun other hother => hfits other (List.mem_cons_of_mem _ hother)
      have hregion := h region List.mem_cons_self
      rw [markEach]
      by_cases hover : region.owned.alloc.region.overlaps range = true
      · obtain ⟨hlow, hhigh⟩ := hfits region List.mem_cons_self hover
        obtain ⟨region', hcall, hevolves, hkept, hout⟩ := mark_spec hregion hrange hlow hhigh
        refine ⟨region' :: rest', ?_, List.Forall₂.cons ⟨hevolves, fun _ => hkept, hout⟩ hmarks⟩
        rw [if_pos hover, hcall, Option.map_some, Option.bind_some, hrest, Option.map_some]
      · refine ⟨region :: rest', ?_, List.Forall₂.cons
          ⟨Evolves.refl hregion, fun hover' => absurd hover' hover, fun _ _ _ => rfl⟩ hmarks⟩
        rw [if_neg hover, Option.bind_some, hrest, Option.map_some]

/-- **`allocate_region`** hands out pages that were not reserved, of one of the regions. -/
theorem allocateFirst_spec {pageNumber : ℕ} (h : ∀ region ∈ regions, Accounted region)
    {done : List Managed × Option ℕ} (hdone : allocateFirst pageNumber regions = some done) :
    List.Forall₂ Evolves regions done.1 ∧ ∀ ptr, done.2 = some ptr → ∃ region ∈ regions, ∃ index,
      ptr = region.owned.alloc.region.start + index * VirtualRegion.pageBytes ∧
        index + pageNumber ≤ region.owned.alloc.region.pageNumber.toNat ∧
          ∀ page, index ≤ page → page < index + pageNumber →
            ¬ Managed.Kept region.owned.alloc.region region page := by
  induction regions generalizing done with
  | nil =>
      cases hdone
      exact ⟨List.Forall₂.nil, fun _ heq => absurd heq.symm (Option.some_ne_none _)⟩
  | cons region rest ih =>
      obtain ⟨moved, hcall, hdone⟩ := Option.bind_eq_some_iff.mp hdone
      have hrest : ∀ other ∈ rest, Accounted other :=
        fun other hother => h other (List.mem_cons_of_mem _ hother)
      have hregion := h region List.mem_cons_self
      have hevolves := evolves_call (c := .op (.allocatePages pageNumber)) hregion trivial hcall
      cases hout : moved.2 with
      | some ptr =>
          rw [hout] at hdone
          cases hdone
          refine ⟨List.Forall₂.cons hevolves (forall₂_evolves hrest), fun ptr' heq => ?_⟩
          cases heq
          refine ⟨region, List.mem_cons_self, ?_⟩
          obtain ⟨-, -, initial, ok⟩ := hregion
          obtain ⟨stepped, hstep, rfl⟩ := Option.map_eq_some_iff.mp hcall
          cases hsearch : region.owned.alloc.searchForFree pageNumber with
          | none =>
              simp only [RegionPageAllocator.step, allocatePages, hsearch, Option.some.injEq] at hstep
              subst hstep
              cases hout
          | some index =>
              obtain ⟨hinside, hfree⟩ := searchForFree_spec rfl hsearch
              simp only [RegionPageAllocator.step, allocatePages, hsearch, Option.some.injEq] at hstep
              subst hstep
              cases hout
              refine ⟨index, rfl, hinside, fun page hlow hhigh hkept => ?_⟩
              have hset := (ok.bits page (by omega)).mpr (Or.inr (Or.inr (Or.inl hkept)))
              rw [hfree page hlow hhigh] at hset
              cases hset
      | none =>
          rw [hout] at hdone
          obtain ⟨done', hdone', rfl⟩ := Option.map_eq_some_iff.mp hdone
          obtain ⟨hforall, hfound⟩ := ih hrest hdone'
          refine ⟨List.Forall₂.cons hevolves hforall, fun ptr heq => ?_⟩
          obtain ⟨other, hother, hplace⟩ := hfound ptr heq
          exact ⟨other, List.mem_cons_of_mem _ hother, hplace⟩

theorem callAt_spec {ptr : ℕ} {op : Op} {left : ℕ} (h : ∀ region ∈ regions, Accounted region)
    (permitted : ∀ region ∈ regions, region.owned.alloc.region.contains ptr = true →
      Managed.Permitted region.owned.alloc.region region (.op op))
    (hcall : callAt ptr op left regions = some regions') :
    List.Forall₂ Evolves regions regions' := by
  induction left generalizing regions regions' with
  | zero => cases hcall
  | succ left ih =>
      cases regions with
      | nil =>
          cases hcall
          exact List.Forall₂.nil
      | cons region rest =>
          have hrest : ∀ other ∈ rest, Accounted other :=
            fun other hother => h other (List.mem_cons_of_mem _ hother)
          rw [callAt] at hcall
          split_ifs at hcall with hin
          · obtain ⟨moved, hmoved, rfl⟩ := Option.map_eq_some_iff.mp hcall
            exact List.Forall₂.cons (evolves_call (h region List.mem_cons_self)
              (permitted region List.mem_cons_self hin) hmoved) (forall₂_evolves hrest)
          · obtain ⟨rest', hrest', rfl⟩ := Option.map_eq_some_iff.mp hcall
            exact List.Forall₂.cons (Evolves.refl (h region List.mem_cons_self))
              (ih hrest (fun other hother => permitted other (List.mem_cons_of_mem _ hother)) hrest')

theorem forall₂_exists_right {r : Managed → Managed → Prop} (h : List.Forall₂ r regions regions')
    (hregion : region ∈ regions) : ∃ region' ∈ regions', r region region' := by
  induction h with
  | nil => cases hregion
  | cons hr _ ih =>
      rcases List.mem_cons.mp hregion with rfl | hregion
      · exact ⟨_, List.mem_cons_self, hr⟩
      · obtain ⟨region', hregion', hr'⟩ := ih hregion
        exact ⟨region', List.mem_cons_of_mem _ hregion', hr'⟩

theorem forall₂_exists_left {r : Managed → Managed → Prop} (h : List.Forall₂ r regions regions')
    {region' : Managed} (hregion' : region' ∈ regions') : ∃ region ∈ regions, r region region' :=
  forall₂_exists_right h.flip hregion'

variable {c : Call} {moved : List Managed × Option ℕ}

theorem call_spec (h : ∀ region ∈ regions, Accounted region) (permitted : Permitted regions c)
    (hcall : call regions c = some moved) :
    List.Forall₂ Evolves regions moved.1 ∨
      ∃ added, moved.1 = regions ++ [added] ∧ Accounted added ∧ ∀ region ∈ regions,
        region.owned.alloc.region.overlaps added.owned.alloc.region = false := by
  cases c with
  | registerNewRegion region memory =>
      obtain ⟨_, hregister, rfl⟩ := Option.map_eq_some_iff.mp hcall
      rw [registerNewRegion] at hregister
      split_ifs at hregister with hbad
      rw [Bool.or_eq_true, not_or, List.any_map, List.any_eq_true] at hbad
      refine Or.inr ⟨_, rfl, ⟨permitted.1, permitted.2, memory, Managed.new_ok region memory⟩,
        fun other hother => ?_⟩
      exact Bool.eq_false_iff.mpr fun hover => hbad.1 ⟨other, hother, hover⟩
  | markAsReserved range =>
      rw [call, if_pos permitted.1] at hcall
      obtain ⟨regions', hmark, rfl⟩ := Option.map_eq_some_iff.mp hcall
      obtain ⟨regions'', hmark', hmarks⟩ := markEach_spec h permitted
      obtain rfl : regions'' = regions' := Option.some_inj.mp (hmark'.symm.trans hmark)
      exact Or.inl (hmarks.imp fun _ _ marks => marks.evolves)
  | allocateRegion pageNumber => exact Or.inl (allocateFirst_spec h hcall).1
  | freeRegion start =>
      obtain ⟨regions', hfree, rfl⟩ := Option.map_eq_some_iff.mp hcall
      exact Or.inl (callAt_spec h permitted hfree)
  | store ptr value =>
      obtain ⟨regions', hstore, rfl⟩ := Option.map_eq_some_iff.mp hcall
      exact Or.inl (callAt_spec h permitted hstore)

theorem call_accounted (h : ∀ region ∈ regions, Accounted region)
    (permitted : Permitted regions c) (hcall : call regions c = some moved) :
    ∀ region ∈ moved.1, Accounted region := by
  intro region hregion
  rcases call_spec h permitted hcall with hevolves | ⟨added, heq, hadded, -⟩
  · obtain ⟨_, _, hevolves⟩ := forall₂_exists_left hevolves hregion
    exact hevolves.accounted
  · rw [heq, List.mem_append, List.mem_singleton] at hregion
    rcases hregion with hregion | rfl
    · exact h region hregion
    · exact hadded

/-- The page at this address lies in a region, and is reserved wherever it does. -/
def Guarded (regions : List Managed) (addr : ℕ) : Prop :=
  (∃ region ∈ regions, region.owned.alloc.region.contains addr = true) ∧
    ∀ region ∈ regions, region.owned.alloc.region.contains addr = true →
      ∃ range ∈ region.kept, range.1 ≤ addr ∧ addr < range.1 + range.2 * VirtualRegion.pageBytes

theorem call_guarded (h : ∀ region ∈ regions, Accounted region) (permitted : Permitted regions c)
    (hcall : call regions c = some moved) {addr : ℕ} (guarded : Guarded regions addr) :
    Guarded moved.1 addr := by
  obtain ⟨⟨home, hhome, hin⟩, hkept⟩ := guarded
  rcases call_spec h permitted hcall with hevolves | ⟨added, heq, -, hapart⟩
  · constructor
    · obtain ⟨home', hhome', hevolves⟩ := forall₂_exists_right hevolves hhome
      exact ⟨home', hhome', by rwa [hevolves.same]⟩
    · intro region' hregion' hin'
      obtain ⟨region, hregion, hevolves⟩ := forall₂_exists_left hevolves hregion'
      rw [hevolves.same] at hin'
      obtain ⟨range, hrange, hplace⟩ := hkept region hregion hin'
      exact ⟨range, hevolves.kept range hrange, hplace⟩
  · rw [heq]
    refine ⟨⟨home, List.mem_append_left _ hhome, hin⟩, fun region hregion hin' => ?_⟩
    rw [List.mem_append, List.mem_singleton] at hregion
    rcases hregion with hregion | rfl
    · exact hkept region hregion hin'
    · -- The region that was added does not overlap the one that the page lies in.
      exfalso
      have hfalse := hapart home hhome
      rw [VirtualRegion.overlaps, Bool.and_eq_false_iff, decide_eq_false_iff_not,
        decide_eq_false_iff_not] at hfalse
      rw [VirtualRegion.contains, Bool.and_eq_true, decide_eq_true_iff, decide_eq_true_iff] at hin hin'
      omega

theorem guarded_not_allocated (h : ∀ region ∈ regions, Accounted region) {pageNumber : ℕ}
    {moved : List Managed} {ptr : ℕ}
    (hcall : call regions (.allocateRegion pageNumber) = some (moved, some ptr)) {addr : ℕ}
    (haddr : addr % VirtualRegion.pageBytes = 0) (guarded : Guarded regions addr) :
    ¬ (ptr ≤ addr ∧ addr < ptr + pageNumber * VirtualRegion.pageBytes) := by
  rintro ⟨hlow, hhigh⟩
  obtain ⟨region, hregion, index, rfl, hinside, hunkept⟩ := (allocateFirst_spec h hcall).2 ptr rfl
  obtain ⟨⟨hstart, -⟩, -⟩ := h region hregion
  have hbytes := pageNumber_bytes region.owned.alloc.region
  have hin : region.owned.alloc.region.contains addr = true := by
    rw [VirtualRegion.contains, Bool.and_eq_true, decide_eq_true_iff, decide_eq_true_iff]
    unfold VirtualRegion.pageBytes at *
    omega
  obtain ⟨range, hrange, hplace⟩ := guarded.2 region hregion hin
  obtain ⟨page, rfl⟩ : ∃ page, addr =
      region.owned.alloc.region.start + page * VirtualRegion.pageBytes :=
    ⟨(addr - region.owned.alloc.region.start) / 4096, by
      unfold VirtualRegion.pageBytes at *
      omega⟩
  unfold VirtualRegion.pageBytes at *
  exact hunkept page (by omega) (by omega) ⟨range, hrange, hplace⟩

/-- **What reserving a range promises.**  No check fails; no page outside the range becomes
reserved; and no page of the range that lies in a region is handed out by any later allocation. -/
def Honoured (regions : List Managed) (range : VirtualRegion) : Prop :=
  ∃ regions', call regions (.markAsReserved range) = some (regions', none) ∧
    List.Forall₂ (fun region region' => ∀ page < region.owned.alloc.region.pageNumber.toNat,
      ¬ InAllocation region.owned.alloc.region (range.start, range.pageNumber.toNat) page →
        reserved region'.owned.alloc.memory page = reserved region.owned.alloc.memory page)
      regions regions' ∧
    ∀ later last, StepsMeet call Permitted regions' later →
      runSteps call regions' later = some last → ∀ pageNumber moved ptr,
        call last.1 (.allocateRegion pageNumber) = some (moved, some ptr) →
          ∀ addr, addr % VirtualRegion.pageBytes = 0 → range.contains addr = true →
            (∃ region ∈ regions, region.owned.alloc.region.contains addr = true) →
              ¬ (ptr ≤ addr ∧ addr < ptr + pageNumber * VirtualRegion.pageBytes)

/-- **Reserved ranges.**  In every run in which the ranges that are reserved fit, a range that fits
is reserved as it is promised. -/
theorem run_honoured {calls : List Call} (permitted : StepsMeet call Permitted [] calls)
    {final : List Managed × List (Option ℕ)} (hrun : runSteps call [] calls = some final)
    {range : VirtualRegion} (fits : Fits final.1 range) : Honoured final.1 range := by
  have haccounted : ∀ region ∈ final.1, Accounted region :=
    @runSteps_invariant _ _ _ call Permitted (fun regions => ∀ region ∈ regions, Accounted region)
      (fun _ _ _ h permitted hcall => call_accounted h permitted hcall) _ _ _
      (fun _ hregion => absurd hregion List.not_mem_nil) permitted hrun
  obtain ⟨regions', hmark, hmarks⟩ := markEach_spec haccounted fits
  have hcall : call final.1 (.markAsReserved range) = some (regions', none) := by
    rw [call, if_pos fits.1, hmark, Option.map_some]
  refine ⟨regions', hcall, hmarks.imp fun _ _ marks => marks.outside, ?_⟩
  intro later last permitted' hrun' pageNumber moved ptr hallocate addr haddr hin hhome
  have hguarded : Guarded regions' addr := by
    obtain ⟨home, hmem, hhome⟩ := hhome
    constructor
    · obtain ⟨home', hmem', marks⟩ := forall₂_exists_right hmarks hmem
      exact ⟨home', hmem', by rwa [marks.evolves.same]⟩
    · intro region' hregion' hin'
      obtain ⟨region, hregion, marks⟩ := forall₂_exists_left hmarks hregion'
      rw [marks.evolves.same] at hin'
      rw [VirtualRegion.contains, Bool.and_eq_true, decide_eq_true_iff, decide_eq_true_iff] at hin hin'
      have hover : region.owned.alloc.region.overlaps range = true := by
        rw [VirtualRegion.overlaps, Bool.and_eq_true, decide_eq_true_iff, decide_eq_true_iff]
        omega
      refine ⟨_, marks.inside hover, hin.1, ?_⟩
      dsimp only
      obtain ⟨⟨-, hsize⟩, -⟩ := fits
      rw [VirtualRegion.pageNumber_toNat]
      unfold VirtualRegion.pageBytes at *
      omega
  have hlast : (∀ region ∈ last.1, Accounted region) ∧ Guarded last.1 addr :=
    @runSteps_invariant _ _ _ call Permitted
      (fun regions => (∀ region ∈ regions, Accounted region) ∧ Guarded regions addr)
      (fun _ _ _ h permitted hcall =>
        ⟨call_accounted h.1 permitted hcall, call_guarded h.1 permitted hcall h.2⟩) _ _ _
      ⟨call_accounted (c := .markAsReserved range) haccounted fits hcall, hguarded⟩ permitted' hrun'
  exact guarded_not_allocated hlast.1 hallocate haddr hlast.2

/-- A range that ends where its region does fails the assertion, and one that starts before its
region is reserved nothing of: the next allocation hands out a page of it. -/
theorem run_honoured_fails : ∃ final,
    runSteps call [] [.registerNewRegion ⟨0x40000000, 0x8000⟩ fun _ => 0] = some final ∧
      ¬ Honoured final.1 ⟨0x40007000, 0x1000⟩ ∧ ¬ Honoured final.1 ⟨0x3FFFF000, 0x3000⟩ := by
  have hlast : ((runSteps call [] [.registerNewRegion ⟨0x40000000, 0x8000⟩ fun _ => 0]).map
      fun final => ((call final.1 (.markAsReserved ⟨0x40007000, 0x1000⟩)).isNone,
        (call final.1 (.markAsReserved ⟨0x3FFFF000, 0x3000⟩)).map fun marked =>
          ((call marked.1 (.allocateRegion 1)).map Prod.snd,
            final.1.any (·.owned.alloc.region.contains 0x40001000)))) =
      some (true, some (some (some 0x40001000), true)) := by decide +kernel
  obtain ⟨final, hfinal, hpair⟩ := Option.map_eq_some_iff.mp hlast
  obtain ⟨hnone, hpair⟩ := Prod.ext_iff.mp hpair
  refine ⟨final, hfinal, ?_, ?_⟩
  · rintro ⟨regions', hcall, -⟩
    rw [hcall] at hnone
    cases hnone
  · rintro ⟨regions', hcall, -, hnever⟩
    rw [hcall, Option.map_some, Option.some_inj] at hpair
    obtain ⟨hallocate, hhome⟩ := Prod.ext_iff.mp hpair
    obtain ⟨⟨moved, out⟩, hmoved, rfl⟩ := Option.map_eq_some_iff.mp hallocate
    exact hnever [] (regions', []) trivial rfl 1 moved 0x40001000 hmoved 0x40001000 rfl (by decide)
      (List.any_eq_true.mp hhome) ⟨le_rfl, by decide⟩

/-- A range in the middle of the second of two regions. -/
theorem run_honoured_middle : ∃ final, runSteps call []
    [.registerNewRegion ⟨0x40000000, 0x8000⟩ fun _ => 0,
      .registerNewRegion ⟨0x40008000, 0x8000⟩ fun _ => 0xFF] = some final ∧
    Honoured final.1 ⟨0x4000A000, 0x2000⟩ := by
  have hfits : ((runSteps call []
      [.registerNewRegion ⟨0x40000000, 0x8000⟩ fun _ => 0,
        .registerNewRegion ⟨0x40008000, 0x8000⟩ fun _ => 0xFF]).map fun final =>
      decide (Fits final.1 ⟨0x4000A000, 0x2000⟩)) = some true := by decide +kernel
  obtain ⟨final, hrun, hfits⟩ := Option.map_eq_some_iff.mp hfits
  exact ⟨final, hrun, run_honoured (by decide +kernel) hrun (of_decide_eq_true hfits)⟩

end PageAllocator
end BekOS
