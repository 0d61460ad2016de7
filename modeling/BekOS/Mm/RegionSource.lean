import BekOS.Arch.TranslationTables
import BekOS.Mm.RegionPageAllocator

/-!
# The allocator of a region as a source of pages

The tables and the address spaces are built on a `PageSource`, of which they know two calls and
their laws.  The allocator of one region of physical memory is such a source in whatever state its
callers have brought it to: the laws are read off the invariant of its runs.
-/

namespace BekOS.RegionPageAllocator

open VirtualRegion Function

/-- Whole pages that have numbers of 36 bits. -/
structure InMemory (region : VirtualRegion) : Prop where
  aligned : region.PageAligned
  fits : region.start + region.size.toNat ≤ 2 ^ 48

/-- An allocator with what its callers hold, in a state that has its invariant. -/
abbrev Kept (region : VirtualRegion) : Type := { owned : Owned // Ok region owned }

/-- The address of a page. -/
def firstByte (page : Page) : ℕ := page.toNat * pageBytes

theorem firstByte_injective : Injective firstByte := fun page other h =>
  BitVec.eq_of_toNat_eq (Nat.eq_of_mul_eq_mul_right (by decide : 0 < pageBytes) h)

section Kept

variable {region : VirtualRegion} {owned moved : Owned} {held : ℕ × ℕ} {count ptr : ℕ} {page : Page}

theorem Ok.first_page (inMemory : InMemory region) (ok : Ok region owned)
    (hheld : held ∈ owned.live) :
    firstByte (BitVec.ofNat 36 (held.1 / pageBytes)) = held.1 ∧ 1 ≤ held.2 ∧
      region.start ≤ held.1 ∧ held.1 + held.2 * pageBytes ≤ region.start + region.size.toNat := by
  obtain ⟨index, hstart, hn, -, hinside, -⟩ := ok.runs held hheld
  obtain ⟨⟨haligned, -⟩, hfits⟩ := inMemory
  have hbytes := pageNumber_bytes region
  rw [firstByte, BitVec.toNat_ofNat]
  unfold pageBytes at *
  omega

theorem live_allocatePages (h : step owned (.allocatePages count) = some (moved, some ptr)) :
    moved.live = (ptr, count) :: owned.live := by
  rw [step] at h
  split at h
  · cases h
    rfl
  · cases h

theorem Ok.allocatePages (ok : Ok region owned) (hcount : 1 ≤ count) {out : Owned × Option ℕ}
    (h : step owned (.allocatePages count) = some out) : Ok region out.1 := by
  obtain ⟨moved, hstep, hmoved⟩ := allocatePages_ok ok hcount
  cases h.symm.trans hstep
  exact hmoved

/-- `allocate_region`; no pages are never found. -/
def Kept.allocateRegion (kept : Kept region) (count : ℕ) : Option (Page × Kept region) :=
  if hcount : 1 ≤ count then
    match hstep : step kept.1 (.allocatePages count) with
    | some (moved, some ptr) =>
        some (BitVec.ofNat 36 (ptr / pageBytes), ⟨moved, kept.2.allocatePages hcount hstep⟩)
    | _ => none
  else none

theorem Kept.allocateRegion_cases (inMemory : InMemory region) {kept moved : Kept region}
    (h : kept.allocateRegion count = some (page, moved)) :
    moved.1.live = (firstByte page, count) :: kept.1.live := by
  unfold Kept.allocateRegion at h
  split_ifs at h with hcount
  split at h
  next moved' ptr hstep =>
    cases h
    have hlive := live_allocatePages hstep
    have hmem : (ptr, count) ∈ moved'.live := hlive ▸ List.mem_cons_self
    rw [((kept.2.allocatePages hcount hstep).first_page inMemory hmem).1]
    exact hlive
  · cases h

/-- `free_region`, of what is held. -/
def Kept.freeRegion (haligned : region.PageAligned) (kept : Kept region) (page : Page) :
    Kept region :=
  if legal : ∃ held ∈ kept.1.live, held.1 = firstByte page then
    match hstep : step kept.1 (.freeRegion (firstByte page)) with
    | some moved => ⟨moved.1, by
        obtain ⟨moved', hstep', ok⟩ := freeRegion_ok haligned kept.2 legal
        cases hstep.symm.trans hstep'
        exact ok⟩
    | none => kept
  else kept

theorem Kept.freeRegion_live (haligned : region.PageAligned) {kept : Kept region}
    (legal : ∃ held ∈ kept.1.live, held.1 = firstByte page) :
    (kept.freeRegion haligned page).1.live =
      kept.1.live.filter fun held => held.1 ≠ firstByte page := by
  obtain ⟨moved, hstep, -⟩ := freeRegion_ok haligned kept.2 legal
  unfold Kept.freeRegion
  rw [dif_pos legal]
  split
  next moved' hstep' =>
    obtain ⟨after, -, rfl⟩ := Option.map_eq_some_iff.mp hstep'
    rfl
  next hnone => cases hnone.symm.trans hstep

end Kept

/-- The allocator of a region as a source of pages. -/
def source {region : VirtualRegion} (inMemory : InMemory region) : PageSource (Kept region) where
  allocateRegion := Kept.allocateRegion
  freeRegion := Kept.freeRegion inMemory.aligned
  allocated kept page := kept.1.live.lookup (firstByte page)
  allocate_bounds {_ count page moved} h := by
    have hmem : (firstByte page, count) ∈ moved.1.live :=
      Kept.allocateRegion_cases inMemory h ▸ List.mem_cons_self
    obtain ⟨-, hpos, -, hinside⟩ := moved.2.first_page inMemory hmem
    have hfits := inMemory.fits
    unfold firstByte pageBytes at hinside
    omega
  allocate_new {kept count page moved} h := by
    have hlive := Kept.allocateRegion_cases inMemory h
    have hmem : (firstByte page, count) ∈ moved.1.live := hlive ▸ List.mem_cons_self
    rw [List.lookup_eq_none_iff]
    intro other hother
    have hdisjoint := moved.2.disjoint
    rw [hlive] at hdisjoint
    have hapart := List.rel_of_pairwise_cons hdisjoint hother
    obtain ⟨-, hpos, -⟩ := moved.2.first_page inMemory hmem
    obtain ⟨-, hpos', -⟩ := kept.2.first_page inMemory hother
    refine bne_iff_ne.mpr fun heq => ?_
    unfold Disjoint pageBytes at hapart
    omega
  allocate_apart {kept count page moved} h other otherCount hother := by
    have hdisjoint := moved.2.disjoint
    rw [Kept.allocateRegion_cases inMemory h] at hdisjoint
    have hapart := List.rel_of_pairwise_cons hdisjoint (PageSource.mem_of_lookup hother)
    unfold Disjoint firstByte pageBytes at hapart
    unfold Apart
    omega
  allocate_allocated {kept count page moved} h := by
    funext other
    rw [Kept.allocateRegion_cases inMemory h, PageSource.lookup_cons_update]
    exact congrFun (update_comp_eq_of_injective _ firstByte_injective page _) other
  free_allocated {kept page count} h := by
    have hlegal : ∃ held ∈ kept.1.live, held.1 = firstByte page :=
      ⟨_, PageSource.mem_of_lookup h, rfl⟩
    funext other
    rw [Kept.freeRegion_live inMemory.aligned hlegal, PageSource.lookup_filter_update]
    exact congrFun (update_comp_eq_of_injective _ firstByte_injective page _) other

/-- Tables from a region that those of the kernel image do not lie in. -/
def tableSource {region : VirtualRegion} (inMemory : InMemory region) (first last : Page)
    (apart : firstByte last ≤ region.start ∨ region.start + region.size.toNat ≤ firstByte first) :
    TableSource (Kept region) where
  toPageSource := source inMemory
  initialPgtablesStart := first
  initialPgtablesEnd := last
  allocated_outside {kept page count} h hembedded := by
    have hlookup : kept.1.live.lookup (firstByte page) = some count := h
    have hmem := PageSource.mem_of_lookup hlookup
    obtain ⟨-, hpos, hlow, hhigh⟩ := kept.2.first_page inMemory hmem
    obtain ⟨hfirst, hlast⟩ := hembedded
    rw [BitVec.le_def] at hfirst
    rw [BitVec.lt_def] at hlast
    unfold firstByte pageBytes at *
    omega

/-- The allocator as its constructor leaves it, over any memory. -/
def Kept.new (region : VirtualRegion) (memory : Memory Byte) : Kept region :=
  ⟨⟨RegionPageAllocator.new region memory, []⟩, new_ok region memory⟩

example : ((Kept.new ⟨0x40000000, 0x8000⟩ fun _ => 0).allocateRegion 2).map Prod.fst =
    some 0x40001 := by decide +kernel

end BekOS.RegionPageAllocator
