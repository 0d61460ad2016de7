import Mathlib.Algebra.Group.Nat.Defs
import Mathlib.Data.Set.Insert

/-!
# What the memory manager asks of `mem::PageAllocator`

Everything above it uses two calls, `allocate_region` and `free_region`, and one
guarantee: pages handed out are nobody else's until they are freed.  `PageSource`
is that interface, with the guarantee as its laws.  `allocated` tells the regions
that went out and have not come back, by their first pages, and the laws say what
the two calls do to it; nothing is said about which region is chosen.

Kernel memory is identity mapped, so a page's kernel address and its physical
address determine each other and both are written as the physical page number.
-/

namespace BekOS

open Function

universe u

/-- A 64-bit machine word: the source's `u64`, `uPtr` and `uSize`. -/
abbrev U64 := BitVec 64

/-- A physical page number. -/
abbrev Page := BitVec 36

/-- Two regions of pages have no page in common. -/
def Apart (page : Page) (count : ℕ) (other : Page) (otherCount : ℕ) : Prop :=
  page.toNat + count ≤ other.toNat ∨ other.toNat + otherCount ≤ page.toNat
deriving Decidable

/-- The page allocator, with state `σ`. -/
structure PageSource (σ : Type u) where
  /-- `allocate_region`: the first of that many consecutive pages. -/
  allocateRegion : σ → ℕ → Option (Page × σ)
  /-- `free_region` -/
  freeRegion : σ → Page → σ
  /-- The number of pages handed out with this first page and not freed since. -/
  allocated : σ → Page → Option ℕ
  /-- What is handed out is not empty and lies in memory. -/
  allocate_bounds : ∀ {state count page state'},
    allocateRegion state count = some (page, state') → 0 < count ∧ page.toNat + count ≤ 2 ^ 36
  /-- What is handed out has a first page of its own. -/
  allocate_new : ∀ {state count page state'},
    allocateRegion state count = some (page, state') → allocated state page = none
  /-- What is handed out was nobody's. -/
  allocate_apart : ∀ {state count page state'},
    allocateRegion state count = some (page, state') →
      ∀ other otherCount, allocated state other = some otherCount →
        Apart page count other otherCount
  /-- What is handed out is remembered. -/
  allocate_allocated : ∀ {state count page state'},
    allocateRegion state count = some (page, state') →
      allocated state' = update (allocated state) page (some count)
  /-- Freeing a region leaves the others alone. -/
  free_allocated : ∀ {state page count}, allocated state page = some count →
    allocated (freeRegion state page) = update (allocated state) page none

namespace PageSource

variable {σ : Type u} (source : PageSource σ)

/-- The pages handed out one at a time and not freed since; the pages of translation
tables are such. -/
def held (state : σ) : Set Page := {page | source.allocated state page = some 1}

variable {source} {state state' : σ} {page : Page} {count : ℕ}

theorem allocate_fresh (h : source.allocateRegion state 1 = some (page, state')) :
    page ∉ source.held state ∧ source.held state' = insert page (source.held state) := by
  have hnew := source.allocate_new h
  refine ⟨fun hheld => ?_, ?_⟩
  · rw [held, Set.mem_ofPred_eq, hnew] at hheld
    cases hheld
  · ext other
    rw [held, Set.mem_ofPred_eq, source.allocate_allocated h, Set.mem_insert_iff,
      update_apply]
    split_ifs with heq
    · exact iff_of_true rfl (Or.inl heq)
    · exact (or_iff_right heq).symm

theorem allocate_held (h : source.allocateRegion state count = some (page, state')) :
    source.held state ⊆ source.held state' := by
  intro other hother
  have hne : other ≠ page := by
    rintro rfl
    rw [held, Set.mem_ofPred_eq, source.allocate_new h] at hother
    cases hother
  rw [held, Set.mem_ofPred_eq, source.allocate_allocated h, update_of_ne hne]
  exact hother

theorem free_held (h : source.allocated state page = some count) :
    source.held (source.freeRegion state page) = source.held state \ {page} := by
  ext other
  rw [held, Set.mem_ofPred_eq, source.free_allocated h, Set.mem_sdiff, Set.mem_singleton_iff,
    update_apply]
  split_ifs with heq
  · exact iff_of_false nofun fun hother => hother.2 heq
  · exact (and_iff_left heq).symm

section Lookup

variable {α : Type*} [DecidableEq α] {key : α}

theorem mem_of_lookup {regions : List (α × ℕ)} (h : regions.lookup key = some count) :
    (key, count) ∈ regions := by
  obtain ⟨before, after, rfl, -⟩ := List.lookup_eq_some_iff.mp h
  exact List.mem_append_right _ List.mem_cons_self

theorem lookup_cons_update (regions : List (α × ℕ)) (key : α) (count : ℕ) (other : α) :
    ((key, count) :: regions).lookup other =
      update (fun other => regions.lookup other) key (some count) other := by
  rw [List.lookup_cons, update_apply]
  split_ifs with heq
  · rw [beq_iff_eq.mpr heq]
  · rw [beq_eq_false_iff_ne.mpr heq]

theorem lookup_filter_update (regions : List (α × ℕ)) (key other : α) :
    (regions.filter (·.1 ≠ key)).lookup other =
      update (fun other => regions.lookup other) key none other := by
  rw [update_apply]
  induction regions with
  | nil => simp
  | cons region rest ih =>
      rw [List.filter_cons, List.lookup_cons]
      by_cases hregion : region.1 = key
      · rw [if_neg (by simpa using hregion), ih]
        split_ifs with heq
        · rfl
        · rw [beq_eq_false_iff_ne.mpr (hregion ▸ heq)]
      · rw [if_pos (by simpa using hregion), List.lookup_cons, ih]
        split_ifs with heq
        · rw [beq_eq_false_iff_ne.mpr (heq ▸ Ne.symm hregion)]
        · rfl

end Lookup

/-- A free region that may go out for `count` pages, next to the regions in use. -/
def Grantable (used : List (Page × ℕ)) (count : ℕ) (region : Page × ℕ) : Prop :=
  region.2 = count ∧ 0 < count ∧ region.1.toNat + count ≤ 2 ^ 36 ∧
    ∀ other ∈ used, region.1 ≠ other.1 ∧ Apart region.1 count other.1 other.2
deriving Decidable

/-- The allocation of `pool`. -/
def poolAllocate (state : List (Page × ℕ) × List (Page × ℕ)) (count : ℕ) :
    Option (Page × List (Page × ℕ) × List (Page × ℕ)) :=
  (state.1.find? (Grantable state.2 count ·)).map fun region =>
    (region.1, state.1.erase region, (region.1, count) :: state.2)

theorem poolAllocate_cases {state : List (Page × ℕ) × List (Page × ℕ)} {count : ℕ}
    {out : Page × List (Page × ℕ) × List (Page × ℕ)} (h : poolAllocate state count = some out) :
    ∃ region, Grantable state.2 count region ∧
      out = (region.1, state.1.erase region, (region.1, count) :: state.2) := by
  obtain ⟨region, hfind, heq⟩ := Option.map_eq_some_iff.mp h
  have hregion := List.find?_some hfind
  exact ⟨region, of_decide_eq_true hregion, heq.symm⟩

/-- A page source whose free regions are a list, of first pages and sizes; the second
list is the regions handed out. -/
def pool : PageSource (List (Page × ℕ) × List (Page × ℕ)) where
  allocateRegion := poolAllocate
  freeRegion state page :=
    (((state.2.lookup page).map (page, ·)).toList ++ state.1, state.2.filter (·.1 ≠ page))
  allocated state page := state.2.lookup page
  allocate_bounds h := by
    obtain ⟨region, hregion, heq⟩ := poolAllocate_cases h
    cases heq
    exact ⟨hregion.2.1, hregion.2.2.1⟩
  allocate_new h := by
    obtain ⟨region, hregion, heq⟩ := poolAllocate_cases h
    cases heq
    rw [List.lookup_eq_none_iff]
    exact fun other hother => bne_iff_ne.mpr (hregion.2.2.2 other hother).1
  allocate_apart h other otherCount hother := by
    obtain ⟨region, hregion, heq⟩ := poolAllocate_cases h
    cases heq
    exact (hregion.2.2.2 _ (mem_of_lookup hother)).2
  allocate_allocated h := by
    obtain ⟨region, -, heq⟩ := poolAllocate_cases h
    cases heq
    funext other
    exact lookup_cons_update _ _ _ _
  free_allocated _ := by
    funext other
    exact lookup_filter_update _ _ _

end PageSource

end BekOS
