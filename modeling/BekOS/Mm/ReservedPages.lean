import BekOS.Mm.RegionPageAllocator

/-!
# Reserved ranges of pages

`RegionPageAllocator::mark_as_reserved` takes a range of pages out of use.  Here the free bitmap is
accounted for bit by bit: a page's bit is set because it holds a bitmap, because it is allocated or
reserved, or because the memory had it set before the allocator was made.  What the search cannot
find is then what lies below the page freed last and what was set from the start.
-/

namespace BekOS

open PartialRun VirtualRegion Function

namespace VirtualRegion

/-- The region ends within the address space, and differences of its pointers are representable. -/
def InAddressSpace (region : VirtualRegion) : Prop :=
  region.start + region.size.toNat < 2 ^ 64 ∧ region.size.toNat < 2 ^ 63
deriving Decidable

/-- `contains`, of a region. -/
def Contains (region range : VirtualRegion) : Prop :=
  region.start ≤ range.start ∧ range.start + range.size.toNat ≤ region.start + region.size.toNat
deriving Decidable

theorem pageNumber_toNat (region : VirtualRegion) :
    region.pageNumber.toNat = region.size.toNat / 4096 := by
  unfold pageNumber
  rw [BitVec.toNat_udiv]
  rfl

end VirtualRegion

namespace RegionPageAllocator

/-! ## `mark_as_reserved` -/

/-- The index of the page that a range starts with.  The difference of two pointers is signed, and
so is its quotient by the page size. -/
def rangeIndex (region range : VirtualRegion) : U64 :=
  (BitVec.ofNat 64 (range.start - range.start % pageBytes) - BitVec.ofNat 64 region.start).sdiv 4096

/-- `mark_as_reserved`, of a range; `none` where its assertion fails.  The loop does not start where
the index is behind the end. -/
def markRangeAsReserved (alloc : RegionPageAllocator) (range : VirtualRegion) :
    Option RegionPageAllocator :=
  let index := rangeIndex alloc.region range
  let len := range.pageNumber
  if index + len < alloc.region.pageNumber then
    some { alloc with
      memory := markAsReserved alloc.region ((index + len).toNat - index.toNat) index.toNat
        alloc.memory }
  else none

section Index

variable {region range : VirtualRegion}

theorem rangeIndex_spec (haligned : region.PageAligned) (hspace : region.InAddressSpace)
    (hrange : range.PageAligned) (hlow : region.start ≤ range.start)
    (hhigh : range.start ≤ region.start + region.size.toNat) :
    range.start = region.start + (rangeIndex region range).toNat * pageBytes := by
  obtain ⟨hstart, -⟩ := haligned
  obtain ⟨hstart', -⟩ := hrange
  obtain ⟨hend, hhalf⟩ := hspace
  obtain ⟨k, hk⟩ : ∃ k, range.start = region.start + k * 4096 :=
    ⟨(range.start - region.start) / 4096, by
      unfold pageBytes at *
      omega⟩
  have hdiff : BitVec.ofNat 64 (range.start - range.start % pageBytes) -
      BitVec.ofNat 64 region.start = BitVec.ofNat 64 (k * 4096) := by
    rw [hstart', Nat.sub_zero]
    apply BitVec.eq_of_toNat_eq
    simp only [BitVec.toNat_sub, BitVec.toNat_ofNat]
    omega
  have hindex : rangeIndex region range = BitVec.ofNat 64 k := by
    unfold rangeIndex
    rw [hdiff, BitVec.sdiv_eq, BitVec.msb_eq_false_iff_two_mul_lt.mpr (by
      rw [BitVec.toNat_ofNat]
      omega)]
    rw [show BitVec.msb (4096 : U64) = false from rfl]
    dsimp only
    apply BitVec.eq_of_toNat_eq
    rw [BitVec.udiv_eq, BitVec.toNat_udiv, BitVec.toNat_ofNat, BitVec.toNat_ofNat]
    change k * 4096 % 2 ^ 64 / 4096 = k % 2 ^ 64
    omega
  rw [hindex, BitVec.toNat_ofNat, Nat.mod_eq_of_lt (by omega)]
  exact hk

theorem markRange_passes (haligned : region.PageAligned) (hspace : region.InAddressSpace)
    (hrange : range.PageAligned) (hinside : region.Contains range) :
    rangeIndex region range + range.pageNumber < region.pageNumber ↔
      range.start + range.size.toNat < region.start + region.size.toNat := by
  have hindex := rangeIndex_spec haligned hspace hrange hinside.1
    ((Nat.le_add_right _ _).trans hinside.2)
  obtain ⟨-, hsize⟩ := haligned
  obtain ⟨-, hsize'⟩ := hrange
  obtain ⟨hlow, hhigh⟩ := hinside
  obtain ⟨hend, -⟩ := hspace
  rw [BitVec.lt_def, BitVec.toNat_add, pageNumber_toNat, pageNumber_toNat]
  unfold pageBytes at *
  omega

theorem markRange_spec (haligned : region.PageAligned) (hspace : region.InAddressSpace)
    (hrange : range.PageAligned) (hinside : region.Contains range) {alloc : RegionPageAllocator}
    (hsame : alloc.region = region) {after : RegionPageAllocator}
    (h : alloc.markRangeAsReserved range = some after) :
    ∃ index, range.start = region.start + index * pageBytes ∧
      index + range.pageNumber.toNat < region.pageNumber.toNat ∧
      after = { alloc with memory := markAsReserved region range.pageNumber.toNat index alloc.memory } := by
  obtain ⟨own, mem, last⟩ := alloc
  have hown : region = own := hsame.symm
  subst hown
  have hindex := rangeIndex_spec haligned hspace hrange hinside.1
    ((Nat.le_add_right _ _).trans hinside.2)
  unfold markRangeAsReserved at h
  dsimp only at h
  split_ifs at h with hpasses
  have hend := (markRange_passes haligned hspace hrange hinside).mp hpasses
  obtain ⟨-, hsize⟩ := haligned
  obtain ⟨-, hsize'⟩ := hrange
  obtain ⟨hbound, -⟩ := hspace
  have hlen := pageNumber_toNat range
  have hpages := pageNumber_toNat region
  have hsum : (rangeIndex region range + range.pageNumber).toNat =
      (rangeIndex region range).toNat + range.pageNumber.toNat := by
    rw [BitVec.toNat_add, Nat.mod_eq_of_lt]
    unfold pageBytes at *
    omega
  refine ⟨(rangeIndex region range).toNat, hindex, ?_, ?_⟩
  · rw [← hsum]
    exact BitVec.lt_def.mp hpasses
  · rw [hsum, Nat.add_sub_cancel_left] at h
    exact (Option.some_inj.mp h).symm

end Index

/-! ## The search is complete -/

/-- **`search_for_free`** finds pages wherever there are any ahead of it. -/
theorem searchFrom_complete {mem : Memory Byte} {nPages : ℕ} :
    ∀ {remaining index regionBegin regionSize : ℕ},
      searchFrom mem nPages remaining index regionBegin regionSize = none →
      regionBegin + regionSize = index → regionSize < nPages →
      ∀ start, regionBegin ≤ start → start + nPages ≤ index + remaining →
        ∃ page, start ≤ page ∧ page < start + nPages ∧ reserved mem page = true := by
  intro remaining
  induction remaining with
  | zero =>
      intro index regionBegin regionSize _ hlength hsize start hstart hend
      omega
  | succ remaining ih =>
      intro index regionBegin regionSize h hlength hsize start hstart hend
      unfold searchFrom at h
      split_ifs at h with hbit hfound
      · by_cases hbehind : index < start
        · exact ih h rfl (by omega) start hbehind (by omega)
        · exact ⟨index, by omega, by omega, hbit⟩
      · exact ih h (by omega) (by omega) start hstart (by omega)

theorem searchFrom_begin {mem : Memory Byte} {nPages : ℕ} :
    ∀ {remaining index regionBegin regionSize found : ℕ},
      searchFrom mem nPages remaining index regionBegin regionSize = some found →
      regionBegin + regionSize = index → regionBegin ≤ found := by
  intro remaining
  induction remaining with
  | zero =>
      intro index regionBegin regionSize found h
      cases h
  | succ remaining ih =>
      intro index regionBegin regionSize found h hlength
      unfold searchFrom at h
      split_ifs at h with hbit hfound
      · have := ih h rfl
        omega
      · exact (Option.some_inj.mp h).le
      · exact ih h (by omega)

theorem searchFrom_zero {mem : Memory Byte} :
    ∀ {remaining index regionBegin regionSize : ℕ},
      searchFrom mem 0 remaining index regionBegin regionSize = none := by
  intro remaining
  induction remaining with
  | zero => exact fun {_ _ _} => rfl
  | succ remaining ih =>
      intro index regionBegin regionSize
      unfold searchFrom
      rw [if_neg (Nat.succ_ne_zero regionSize)]
      split_ifs
      · exact ih
      · exact ih

/-- `search_for_free` finds `nPages` pages if they are not none, and lie behind the page that was
freed last. -/
theorem searchForFree_isSome_iff {alloc : RegionPageAllocator} {nPages : ℕ} :
    (alloc.searchForFree nPages).isSome = true ↔ 1 ≤ nPages ∧ ∃ start, alloc.lastFreed ≤ start ∧
      start + nPages ≤ alloc.region.pageNumber.toNat ∧
        ∀ page, start ≤ page → page < start + nPages → reserved alloc.memory page = false := by
  constructor
  · intro h
    obtain ⟨found, hfound⟩ := Option.isSome_iff_exists.mp h
    rcases Nat.eq_zero_or_pos nPages with rfl | hn
    · rw [searchForFree, searchFrom_zero] at hfound
      cases hfound
    · obtain ⟨hinside, hfree⟩ := searchForFree_spec rfl hfound
      exact ⟨hn, found, searchFrom_begin hfound rfl, hinside, hfree⟩
  · rintro ⟨hn, start, hlow, hinside, hfree⟩
    rw [Option.isSome_iff_ne_none]
    intro hnone
    obtain ⟨page, hpage, hpage', hset⟩ := searchFrom_complete hnone rfl (by omega) start hlow
      (by omega)
    rw [hfree page hpage hpage'] at hset
    cases hset

/-! ## Runs with reservations -/

/-- An allocator with what its callers hold, and the ranges that were reserved. -/
structure Managed where
  owned : Owned
  kept : List (ℕ × ℕ)

/-- The calls: those of the owners, and `mark_as_reserved`. -/
inductive Call where
  | op (op : Op)
  | markAsReserved (range : VirtualRegion)

namespace Managed

/-- One call; `none` where the assertion of `mark_as_reserved` fails. -/
def call (managed : Managed) : Call → Option (Managed × Option ℕ)
  | .op op =>
      (step managed.owned op).map fun moved => ({ managed with owned := moved.1 }, moved.2)
  | .markAsReserved range =>
      (managed.owned.alloc.markRangeAsReserved range).map fun alloc =>
        ({ owned := { managed.owned with alloc := alloc }
           kept := (range.start, range.pageNumber.toNat) :: managed.kept }, none)

/-- The page is allocated. -/
def Held (region : VirtualRegion) (managed : Managed) (page : ℕ) : Prop :=
  ∃ held ∈ managed.owned.live, InAllocation region held page
deriving Decidable

/-- The page lies in a range that was reserved. -/
def Kept (region : VirtualRegion) (managed : Managed) (page : ℕ) : Prop :=
  ∃ range ∈ managed.kept, InAllocation region range page
deriving Decidable

/-- Callers free the starts of allocations they hold, none of whose pages was reserved, and store
into the pages they hold.  A range that is reserved is page-aligned and contained in the region. -/
def Permitted (region : VirtualRegion) (managed : Managed) : Call → Prop
  | .op (.allocatePages _) => True
  | .op (.freeRegion ptr) => ∃ held ∈ managed.owned.live, held.1 = ptr ∧
      ∀ page < region.pageNumber.toNat, InAllocation region held page → ¬ Kept region managed page
  | .op (.store ptr value) => Legal managed.owned (.store ptr value)
  | .markAsReserved range => range.PageAligned ∧ region.Contains range

instance (region : VirtualRegion) (managed : Managed) :
    (call : Call) → Decidable (Permitted region managed call)
  | .op (.allocatePages _) => inferInstanceAs (Decidable True)
  | .op (.freeRegion ptr) => inferInstanceAs (Decidable (∃ held ∈ managed.owned.live, held.1 = ptr ∧
      ∀ page < region.pageNumber.toNat, InAllocation region held page → ¬ Kept region managed page))
  | .op (.store ptr value) => inferInstanceAs (Decidable (Legal managed.owned (.store ptr value)))
  | .markAsReserved range => inferInstanceAs (Decidable (range.PageAligned ∧ region.Contains range))

/-- **The bits accounted for.**  Every allocation that nothing was reserved of is a run of reserved
pages, and the pages whose bit is set are those of the bitmaps, the allocated and the reserved ones,
and those whose bit `initial` had set. -/
structure Ok (region : VirtualRegion) (initial : Memory Byte) (managed : Managed) : Prop where
  same : managed.owned.alloc.region = region
  places : ∀ held ∈ managed.owned.live, ∃ index, held.1 = region.start + index * pageBytes ∧
    1 ≤ held.2 ∧ region.pagesNeeded.toNat ≤ index ∧ index + held.2 ≤ region.pageNumber.toNat ∧
      ((∀ page < region.pageNumber.toNat, InAllocation region held page →
          ¬ Kept region managed page) →
        IsRun region managed.owned.alloc.memory index held.2)
  disjoint : managed.owned.live.Pairwise Disjoint
  bits : ∀ page < region.pageNumber.toNat, reserved managed.owned.alloc.memory page = true ↔
    page < region.pagesNeeded.toNat ∨ Held region managed page ∨ Kept region managed page ∨
      reserved initial page = true
  fresh : ∀ page < region.pageNumber.toNat, Held region managed page →
    reserved initial page = false

variable {region : VirtualRegion} {initial : Memory Byte} {managed : Managed}

theorem Ok.held_unique (ok : Ok region initial managed) {held other : ℕ × ℕ}
    (hheld : held ∈ managed.owned.live) (hother : other ∈ managed.owned.live) {page : ℕ}
    (h : InAllocation region held page) (h' : InAllocation region other page) : held = other := by
  by_contra hne
  have hapart := ok.disjoint.forall hheld hother hne
  obtain ⟨hlow, hhigh⟩ := h
  obtain ⟨hlow', hhigh'⟩ := h'
  unfold Disjoint at hapart
  omega

theorem new_ok (region : VirtualRegion) (memory : Memory Byte) :
    Ok region memory ⟨⟨new region memory, []⟩, []⟩ where
  same := rfl
  places := nofun
  disjoint := List.Pairwise.nil
  bits := by
    intro page hpage
    obtain ⟨hpages, -, hneeded⟩ := bitmap_sizes region
    have hmark := (markAsReserved_spec region region.pagesNeeded.toNat 0 memory
      (by omega) page (by omega)).1
    refine (Eq.congr_left hmark).trans ?_
    rw [Bool.or_eq_true, decide_eq_true_iff]
    constructor
    · rintro (⟨-, hlt⟩ | hset)
      · exact Or.inl (by omega)
      · exact Or.inr (Or.inr (Or.inr hset))
    · rintro (hlt | ⟨held, hheld, -⟩ | ⟨range, hrange, -⟩ | hset)
      · exact Or.inl ⟨Nat.zero_le _, by omega⟩
      · cases hheld
      · cases hrange
      · exact Or.inr hset
  fresh := by
    rintro page - ⟨held, hheld, -⟩
    cases hheld

/-- Pages that are found are new to the owners. -/
theorem allocate_ok (ok : Ok region initial managed) {nPages found : ℕ} (hn : 1 ≤ nPages)
    (hsearch : managed.owned.alloc.searchForFree nPages = some found) :
    Ok region initial
      ⟨⟨{ managed.owned.alloc with
          memory := markAsReserved managed.owned.alloc.region nPages found
            managed.owned.alloc.memory },
        (managed.owned.alloc.region.start + found * pageBytes, nPages) :: managed.owned.live⟩,
        managed.kept⟩ := by
  obtain ⟨hinside, hfree⟩ := searchForFree_spec ok.same hsearch
  obtain ⟨hpages, -, -⟩ := bitmap_sizes region
  have hmark := markAsReserved_spec region nPages found managed.owned.alloc.memory (by omega)
  rw [ok.same]
  have hclear : ∀ page, found ≤ page → page < found + nPages →
      ¬ (page < region.pagesNeeded.toNat ∨ Held region managed page ∨ Kept region managed page ∨
        reserved initial page = true) := by
    intro page hlow hhigh htaken
    have hset := (ok.bits page (by omega)).mpr htaken
    rw [hfree page hlow hhigh] at hset
    cases hset
  have hnew : ∀ page, InAllocation region (region.start + found * pageBytes, nPages) page ↔
      found ≤ page ∧ page < found + nPages := fun page => inAllocation_iff rfl
  refine ⟨ok.same, fun held hheld => ?_, ?_, fun page hpage => ?_, fun page hpage hheld => ?_⟩
  · rcases List.mem_cons.mp hheld with rfl | hheld
    · refine ⟨found, rfl, hn, ?_, hinside, fun _ page hlow hhigh => ?_⟩
      · by_contra hheader
        exact hclear found le_rfl (by omega) (Or.inl (by omega))
      · obtain ⟨hreserved, hcontinues⟩ := hmark page (by omega)
        rw [hreserved, hcontinues, if_pos ⟨hlow, hhigh⟩, decide_eq_true ⟨hlow, hhigh⟩]
        exact ⟨rfl, rfl⟩
    · obtain ⟨index, hstart, hn', hbehind, hinside', hrun⟩ := ok.places held hheld
      refine ⟨index, hstart, hn', hbehind, hinside', fun hunkept =>
        (hrun hunkept).congr fun page hlow hhigh => ?_⟩
      obtain ⟨hreserved, hcontinues⟩ := hmark page (by omega)
      have hout : ¬ (found ≤ page ∧ page < found + nPages) := by
        rintro ⟨hlow', hhigh'⟩
        exact hclear page hlow' hhigh'
          (Or.inr (Or.inl ⟨held, hheld, (inAllocation_iff hstart).mpr ⟨hlow, hhigh⟩⟩))
      rw [hreserved, hcontinues, if_neg hout, decide_eq_false hout]
      exact ⟨rfl, rfl⟩
  · refine List.pairwise_cons.mpr ⟨fun held hheld => ?_, ok.disjoint⟩
    obtain ⟨index, hstart, hn', hbehind, hinside', -⟩ := ok.places held hheld
    rw [disjoint_iff rfl hstart]
    dsimp only
    by_contra hcommon
    -- Otherwise the later of the two first pages lies in both.
    exact hclear (max found index) (by omega) (by omega)
      (Or.inr (Or.inl ⟨held, hheld, (inAllocation_iff hstart).mpr (by omega)⟩))
  · dsimp only
    rw [(hmark page (by omega)).1, Bool.or_eq_true, decide_eq_true_iff, ok.bits page hpage,
      ← hnew page]
    constructor
    · rintro (hin | hlt | ⟨held, hheld, hin⟩ | hkept | hset)
      · exact Or.inr (Or.inl ⟨_, List.mem_cons_self, hin⟩)
      · exact Or.inl hlt
      · exact Or.inr (Or.inl ⟨held, List.mem_cons_of_mem _ hheld, hin⟩)
      · exact Or.inr (Or.inr (Or.inl hkept))
      · exact Or.inr (Or.inr (Or.inr hset))
    · rintro (hlt | ⟨held, hheld, hin⟩ | hkept | hset)
      · exact Or.inr (Or.inl hlt)
      · rcases List.mem_cons.mp hheld with rfl | hheld
        · exact Or.inl hin
        · exact Or.inr (Or.inr (Or.inl ⟨held, hheld, hin⟩))
      · exact Or.inr (Or.inr (Or.inr (Or.inl hkept)))
      · exact Or.inr (Or.inr (Or.inr (Or.inr hset)))
  · obtain ⟨held, hheld, hin⟩ := hheld
    rcases List.mem_cons.mp hheld with rfl | hheld
    · obtain ⟨hlow, hhigh⟩ := (hnew page).mp hin
      exact Bool.eq_false_iff.mpr fun hset => hclear page hlow hhigh (Or.inr (Or.inr (Or.inr hset)))
    · exact ok.fresh page hpage ⟨held, hheld, hin⟩

/-- What is freed is nobody's any more. -/
theorem free_ok (haligned : region.PageAligned) (ok : Ok region initial managed) {ptr : ℕ}
    (permitted : Permitted region managed (.op (.freeRegion ptr))) :
    ∃ after, managed.owned.alloc.freeRegion ptr = some after ∧ Ok region initial
      ⟨⟨after, managed.owned.live.filter fun held => held.1 ≠ ptr⟩, managed.kept⟩ := by
  obtain ⟨freed, hfreed, rfl, hunkept⟩ := permitted
  obtain ⟨index, hstart, hn, hbehind, hinside, hrun⟩ := ok.places freed hfreed
  obtain ⟨after, hfree, hsame, hspec⟩ :=
    freeRegion_run haligned ok.same hstart hn hinside (hrun hunkept)
  have hout : ∀ held ∈ managed.owned.live, held.1 ≠ freed.1 → ∀ page,
      InAllocation region held page → ¬ InAllocation region freed page :=
    fun held hheld hne page hin hin' =>
      hne (congrArg Prod.fst (ok.held_unique hheld hfreed hin hin'))
  have hothers : ∀ page, ¬ InAllocation region freed page → Held region managed page →
      ∃ held ∈ managed.owned.live.filter fun held => held.1 ≠ freed.1,
        InAllocation region held page := by
    rintro page hnot ⟨held, hheld, hin⟩
    refine ⟨held, List.mem_filter.mpr ⟨hheld, decide_eq_true fun heq => hnot ?_⟩, hin⟩
    -- Two allocations with one start share their first page.
    obtain ⟨index', hstart', hn', -⟩ := ok.places held hheld
    have hfirst : InAllocation region held index' := (inAllocation_iff hstart').mpr (by omega)
    have hfirst' : InAllocation region freed index' :=
      (inAllocation_iff (heq ▸ hstart')).mpr (by omega)
    rw [← ok.held_unique hheld hfreed hfirst hfirst']
    exact hin
  refine ⟨after, hfree, hsame, fun held hheld => ?_, ok.disjoint.filter _, fun page hpage => ?_,
    fun page hpage hheld => ?_⟩
  · obtain ⟨hheld, hne⟩ := List.mem_filter.mp hheld
    obtain ⟨index', hstart', hn', hbehind', hinside', hrun'⟩ := ok.places held hheld
    refine ⟨index', hstart', hn', hbehind', hinside', fun hunkept' =>
      (hrun' hunkept').congr fun page hlow hhigh => ?_⟩
    obtain ⟨hreserved, hcontinues⟩ := hspec page (by omega)
    rw [hreserved, hcontinues, decide_eq_false (hout held hheld (of_decide_eq_true hne) page
      ((inAllocation_iff hstart').mpr ⟨hlow, hhigh⟩))]
    exact ⟨Bool.and_true _, rfl⟩
  · rw [(hspec page hpage).1, Bool.and_eq_true, ok.bits page hpage, Bool.not_eq_true',
      decide_eq_false_iff_not]
    constructor
    · rintro ⟨hlt | hheld | hkept | hset, hnot⟩
      · exact Or.inl hlt
      · exact Or.inr (Or.inl (hothers page hnot hheld))
      · exact Or.inr (Or.inr (Or.inl hkept))
      · exact Or.inr (Or.inr (Or.inr hset))
    · rintro (hlt | ⟨held, hheld, hin⟩ | hkept | hset)
      · refine ⟨Or.inl hlt, fun hin => ?_⟩
        rw [inAllocation_iff hstart] at hin
        omega
      · obtain ⟨hheld, hne⟩ := List.mem_filter.mp hheld
        exact ⟨Or.inr (Or.inl ⟨held, hheld, hin⟩),
          hout held hheld (of_decide_eq_true hne) page hin⟩
      · exact ⟨Or.inr (Or.inr (Or.inl hkept)), fun hin => hunkept page hpage hin hkept⟩
      · refine ⟨Or.inr (Or.inr (Or.inr hset)), fun hin => ?_⟩
        rw [ok.fresh page hpage ⟨freed, hfreed, hin⟩] at hset
        cases hset
  · obtain ⟨held, hheld, hin⟩ := hheld
    exact ok.fresh page hpage ⟨held, (List.mem_filter.mp hheld).1, hin⟩

theorem store_ok (ok : Ok region initial managed) {ptr : ℕ} {value : Byte}
    (legal : Legal managed.owned (.store ptr value)) :
    Ok region initial ⟨⟨{ managed.owned.alloc with
        memory := update managed.owned.alloc.memory
          (ptr - managed.owned.alloc.region.start) value }, managed.owned.live⟩,
      managed.kept⟩ := by
  obtain ⟨held, hheld, hlow, -⟩ := legal
  obtain ⟨index, hstart, -, hbehind, -, -⟩ := ok.places held hheld
  rw [ok.same]
  have hbits : ∀ page < region.pageNumber.toNat,
      reserved (update managed.owned.alloc.memory (ptr - region.start) value) page =
          reserved managed.owned.alloc.memory page ∧
        continues region
            (update managed.owned.alloc.memory (ptr - region.start) value) page =
          continues region managed.owned.alloc.memory page :=
    fun page hpage => store_bits hbehind (hstart ▸ hlow) hpage
  refine ⟨ok.same, fun other hother => ?_, ok.disjoint, fun page hpage => ?_, ok.fresh⟩
  · obtain ⟨index', hstart', hn', hbehind', hinside', hrun'⟩ := ok.places other hother
    exact ⟨index', hstart', hn', hbehind', hinside', fun hunkept =>
      (hrun' hunkept).congr fun page _ hlt => hbits page (by omega)⟩
  · dsimp only
    rw [(hbits page hpage).1]
    exact ok.bits page hpage

/-- The pages of the range are reserved, and no others. -/
theorem reserve_ok (haligned : region.PageAligned) (hspace : region.InAddressSpace)
    (ok : Ok region initial managed) {range : VirtualRegion} (hrange : range.PageAligned)
    (hinside : region.Contains range) {after : RegionPageAllocator}
    (h : managed.owned.alloc.markRangeAsReserved range = some after) :
    Ok region initial
      ⟨⟨after, managed.owned.live⟩, (range.start, range.pageNumber.toNat) :: managed.kept⟩ := by
  obtain ⟨index, hstart, hend, rfl⟩ :=
    markRange_spec haligned hspace hrange hinside ok.same h
  obtain ⟨hpages, -, -⟩ := bitmap_sizes region
  have hmark := markAsReserved_spec region range.pageNumber.toNat index managed.owned.alloc.memory
    (by omega)
  have hnew : ∀ page, InAllocation region (range.start, range.pageNumber.toNat) page ↔
      index ≤ page ∧ page < index + range.pageNumber.toNat := fun page => inAllocation_iff hstart
  refine ⟨ok.same, fun held hheld => ?_, ok.disjoint, fun page hpage => ?_, ok.fresh⟩
  · obtain ⟨index', hstart', hn', hbehind', hinside', hrun'⟩ := ok.places held hheld
    refine ⟨index', hstart', hn', hbehind', hinside', fun hunkept => ?_⟩
    have hunkept' : ∀ page < region.pageNumber.toNat, InAllocation region held page →
        ¬ Kept region managed page := by
      rintro page hpage hin ⟨kept, hkept, hin'⟩
      exact hunkept page hpage hin ⟨kept, List.mem_cons_of_mem _ hkept, hin'⟩
    refine (hrun' hunkept').congr fun page hlow hhigh => ?_
    obtain ⟨hreserved, hcontinues⟩ := hmark page (by omega)
    have hout : ¬ (index ≤ page ∧ page < index + range.pageNumber.toNat) := by
      rw [← hnew page]
      exact fun hin => hunkept page (by omega) ((inAllocation_iff hstart').mpr ⟨hlow, hhigh⟩)
        ⟨_, List.mem_cons_self, hin⟩
    rw [hreserved, hcontinues, if_neg hout, decide_eq_false hout]
    exact ⟨rfl, rfl⟩
  · dsimp only
    rw [(hmark page (by omega)).1, Bool.or_eq_true, decide_eq_true_iff, ok.bits page hpage,
      ← hnew page]
    constructor
    · rintro (hin | hlt | hheld | ⟨kept, hkept, hin⟩ | hset)
      · exact Or.inr (Or.inr (Or.inl ⟨_, List.mem_cons_self, hin⟩))
      · exact Or.inl hlt
      · exact Or.inr (Or.inl hheld)
      · exact Or.inr (Or.inr (Or.inl ⟨kept, List.mem_cons_of_mem _ hkept, hin⟩))
      · exact Or.inr (Or.inr (Or.inr hset))
    · rintro (hlt | hheld | ⟨kept, hkept, hin⟩ | hset)
      · exact Or.inr (Or.inl hlt)
      · exact Or.inr (Or.inr (Or.inl hheld))
      · rcases List.mem_cons.mp hkept with rfl | hkept
        · exact Or.inl hin
        · exact Or.inr (Or.inr (Or.inr (Or.inl ⟨kept, hkept, hin⟩)))
      · exact Or.inr (Or.inr (Or.inr (Or.inr hset)))

/-- **One call** that is permitted keeps the account. -/
theorem call_ok (haligned : region.PageAligned) (hspace : region.InAddressSpace)
    (ok : Ok region initial managed) {c : Call} (permitted : Permitted region managed c)
    {moved : Managed × Option ℕ} (h : managed.call c = some moved) :
    Ok region initial moved.1 := by
  cases c with
  | op op =>
      obtain ⟨stepped, hstep, rfl⟩ := Option.map_eq_some_iff.mp h
      cases op with
      | allocatePages nPages =>
          cases hsearch : managed.owned.alloc.searchForFree nPages with
          | none =>
              simp only [step, allocatePages, hsearch, Option.some.injEq] at hstep
              subst hstep
              exact ok
          | some found =>
              have hn : 1 ≤ nPages := (searchForFree_isSome_iff.mp
                (Option.isSome_iff_exists.mpr ⟨found, hsearch⟩)).1
              simp only [step, allocatePages, hsearch, Option.some.injEq] at hstep
              subst hstep
              exact allocate_ok ok hn hsearch
      | freeRegion ptr =>
          obtain ⟨after, hfree, hok⟩ := free_ok haligned ok permitted
          simp only [step, hfree, Option.map_some, Option.some.injEq] at hstep
          subst hstep
          exact hok
      | store ptr value =>
          cases hstep
          exact store_ok ok permitted
  | markAsReserved range =>
      obtain ⟨after, hmark, rfl⟩ := Option.map_eq_some_iff.mp h
      exact reserve_ok haligned hspace ok permitted.1 permitted.2 hmark

/-! ## What an allocation finds -/

/-- That many consecutive pages from `start` on hold no bitmap and belong to no allocation and no
reserved range. -/
def Available (region : VirtualRegion) (managed : Managed) (nPages start : ℕ) : Prop :=
  start + nPages ≤ region.pageNumber.toNat ∧ ∀ page < start + nPages, start ≤ page →
    2 * region.bytesPerBitmap.toNat ≤ page * pageBytes ∧ ¬ Held region managed page ∧
      ¬ Kept region managed page

instance (region : VirtualRegion) (managed : Managed) (nPages start : ℕ) :
    Decidable (Available region managed nPages start) := inferInstanceAs (Decidable (_ ∧ _))

/-- An allocation for which there are pages succeeds. -/
def Succeeds (region : VirtualRegion) (managed : Managed) : Call → Prop
  | .op (.allocatePages nPages) => (∃ start, Available region managed nPages start) →
      (managed.owned.alloc.allocatePages nPages).2.isSome = true
  | _ => True

/-- Where there are pages for an allocation, it is one of at least one page, and there are such pages
at or behind the page that was freed last (page 0 before that), no bit of which was set in the memory
that the allocator was made in. -/
def Finds (region : VirtualRegion) (initial : Memory Byte) (managed : Managed) : Call → Prop
  | .op (.allocatePages nPages) => (∃ start, Available region managed nPages start) →
      1 ≤ nPages ∧ ∃ start, managed.owned.alloc.lastFreed ≤ start ∧
        Available region managed nPages start ∧
          ∀ page < start + nPages, start ≤ page → reserved initial page = false
  | _ => True

theorem holdsBitmap_iff {page : ℕ} :
    2 * region.bytesPerBitmap.toNat ≤ page * pageBytes ↔ region.pagesNeeded.toNat ≤ page := by
  have hneeded := pagesNeeded_toNat region
  have hpos : 1 ≤ region.bytesPerBitmap.toNat := by
    rw [bytesPerBitmap_toNat]
    exact Nat.le_add_left 1 _
  unfold pageBytes
  omega

/-- Where the bits are accounted for, an allocation succeeds where the search can find it pages. -/
theorem succeeds_iff (ok : Ok region initial managed) (c : Call) :
    Succeeds region managed c ↔ Finds region initial managed c := by
  cases c with
  | markAsReserved range => exact Iff.rfl
  | op op =>
      cases op with
      | freeRegion ptr => exact Iff.rfl
      | store ptr value => exact Iff.rfl
      | allocatePages nPages =>
          refine imp_congr_right fun _ => ?_
          have hfound : (managed.owned.alloc.allocatePages nPages).2.isSome =
              (managed.owned.alloc.searchForFree nPages).isSome := by
            unfold allocatePages
            cases managed.owned.alloc.searchForFree nPages with
            | none => rfl
            | some found => rfl
          rw [hfound, searchForFree_isSome_iff, ok.same]
          refine and_congr_right fun _ => exists_congr fun start => and_congr_right fun _ => ?_
          constructor
          · rintro ⟨hinside, hfree⟩
            have hclear : ∀ page < start + nPages, start ≤ page →
                ¬ (page < region.pagesNeeded.toNat ∨ Held region managed page ∨
                  Kept region managed page ∨ reserved initial page = true) := by
              intro page hhigh hlow htaken
              rw [← ok.bits page (by omega), hfree page hlow hhigh] at htaken
              cases htaken
            refine ⟨⟨hinside, fun page hhigh hlow => ?_⟩, fun page hhigh hlow => ?_⟩
            · have hnot := hclear page hhigh hlow
              push Not at hnot
              exact ⟨holdsBitmap_iff.mpr hnot.1, hnot.2.1, hnot.2.2.1⟩
            · exact Bool.eq_false_iff.mpr fun hset =>
                hclear page hhigh hlow (Or.inr (Or.inr (Or.inr hset)))
          · rintro ⟨⟨hinside, havailable⟩, hinitial⟩
            refine ⟨hinside, fun page hlow hhigh => Bool.eq_false_iff.mpr fun hset => ?_⟩
            obtain ⟨hbehind, hheld, hkept⟩ := havailable page hhigh hlow
            rcases (ok.bits page (by omega)).mp hset with hlt | hheld' | hkept' | hset'
            · have := holdsBitmap_iff.mp hbehind
              omega
            · exact hheld hheld'
            · exact hkept hkept'
            · rw [hinitial page hhigh hlow] at hset'
              cases hset'

/-- **What an allocator finds.**  Over any region and any contents of its memory, and whatever its
callers do, every allocation for which there are pages succeeds exactly when there are such pages,
at least one of them, at or behind the page freed last, none of them set from the start. -/
theorem run_succeeds_iff (haligned : region.PageAligned) (hspace : region.InAddressSpace)
    (memory : Memory Byte) (calls : List Call)
    (permitted : StepsMeet call (Permitted region) ⟨⟨new region memory, []⟩, []⟩ calls) :
    StepsMeet call (Succeeds region) ⟨⟨new region memory, []⟩, []⟩ calls ↔
      StepsMeet call (Finds region memory) ⟨⟨new region memory, []⟩, []⟩ calls := by
  have hexact := @stepsMeet_iff _ _ _ call
    (fun managed c => Permitted region managed c ∧ Succeeds region managed c)
    (fun managed c => Permitted region managed c ∧ Finds region memory managed c)
    (Ok region memory) (fun _ c ok => and_congr_right fun _ => succeeds_iff ok c)
    (fun _ _ _ ok cond h => call_ok haligned hspace ok cond.1 h) calls _ (new_ok region memory)
  rw [stepsMeet_and, stepsMeet_and, and_iff_right permitted, and_iff_right permitted] at hexact
  exact hexact

/-- Two pages are allocated and freed, the lower first.  Then the seven pages behind the bitmaps are
free, and an allocation of seven pages fails: it looks at six of them. -/
theorem run_succeeds_fails : ∃ calls,
    StepsMeet call (Permitted ⟨0x40000000, 0x8000⟩)
        ⟨⟨new ⟨0x40000000, 0x8000⟩ fun _ => 0, []⟩, []⟩ calls ∧
      ¬ StepsMeet call (Succeeds ⟨0x40000000, 0x8000⟩)
        ⟨⟨new ⟨0x40000000, 0x8000⟩ fun _ => 0, []⟩, []⟩ calls := by
  refine ⟨[.op (.allocatePages 1), .op (.allocatePages 1), .op (.freeRegion 0x40001000),
    .op (.freeRegion 0x40002000), .op (.allocatePages 7)], by decide +kernel, fun succeeds => ?_⟩
  have hrun : ((runSteps call ⟨⟨new ⟨0x40000000, 0x8000⟩ fun _ => 0, []⟩, []⟩
      [.op (.allocatePages 1), .op (.allocatePages 1), .op (.freeRegion 0x40001000),
        .op (.freeRegion 0x40002000)]).map fun final =>
      (decide (Available ⟨0x40000000, 0x8000⟩ final.1 7 1),
        (final.1.owned.alloc.allocatePages 7).2)) = some (true, none) := by decide +kernel
  obtain ⟨final, hfinal, hpair⟩ := Option.map_eq_some_iff.mp hrun
  obtain ⟨havailable, hnone⟩ := Prod.ext_iff.mp hpair
  have hlast : (final.1.owned.alloc.allocatePages 7).2.isSome = true :=
    succeeds.at (n := 4) hfinal rfl ⟨1, of_decide_eq_true havailable⟩
  rw [hnone] at hlast
  cases hlast

/-- With one page of the eight set from the start, the first allocation of a page succeeds. -/
theorem run_succeeds_first : StepsMeet call (Succeeds ⟨0x40000000, 0x8000⟩)
    ⟨⟨new ⟨0x40000000, 0x8000⟩ fun i => if i = 0 then 0x80 else 0, []⟩, []⟩
      [.markAsReserved ⟨0x40001000, 0x1000⟩, .op (.allocatePages 1)] := by
  refine (run_succeeds_iff (by decide) (by decide) _ _ (by decide +kernel)).mpr ?_
  refine ⟨trivial, fun moved hmoved => ⟨fun _ => ⟨le_rfl, 2, ?_⟩, fun _ _ => trivial⟩⟩
  have hfinds : ((call ⟨⟨new ⟨0x40000000, 0x8000⟩ fun i => if i = 0 then 0x80 else 0, []⟩, []⟩
      (.markAsReserved ⟨0x40001000, 0x1000⟩)).map fun moved =>
      decide (moved.1.owned.alloc.lastFreed ≤ 2 ∧ Available ⟨0x40000000, 0x8000⟩ moved.1 1 2)) =
        some true := by decide +kernel
  obtain ⟨moved', hmoved', hdecide⟩ := Option.map_eq_some_iff.mp hfinds
  obtain rfl : moved' = moved := Option.some_inj.mp (hmoved'.symm.trans hmoved)
  obtain ⟨hlow, havailable⟩ := of_decide_eq_true hdecide
  exact ⟨hlow, havailable, by decide +kernel⟩

end Managed
end RegionPageAllocator
end BekOS
