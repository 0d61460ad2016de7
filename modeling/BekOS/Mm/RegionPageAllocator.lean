import BekOS.Lib.Bitmap
import BekOS.Lib.PartialRun
import BekOS.Mm.PageAllocator
import Mathlib.Data.List.Pairwise

/-!
# `RegionPageAllocator`

The allocator of one region of pages.  It keeps two bitmaps in the first pages
of the region itself: a set bit of the first says that the page is reserved, and
a set bit of the second that the reservation goes on with the next page.  The
length of an allocation is recorded nowhere else.

The memory of the region is part of the state, by offset from its start, because
its owner writes to the allocated pages and the bitmaps lie among them.  The
constructor clears nothing: the bits of the other pages are what the memory held
before.
-/

namespace BekOS

open PartialRun Function

/-- A region of virtual memory. -/
structure VirtualRegion where
  start : ℕ
  size : U64
  deriving DecidableEq

namespace VirtualRegion

/-- `PAGE_SIZE` -/
def pageBytes : ℕ := 4096

/-- `page_aligned`. -/
def PageAligned (region : VirtualRegion) : Prop :=
  region.start % pageBytes = 0 ∧ region.size.toNat % pageBytes = 0
deriving Decidable

/-- `page_number` -/
def pageNumber (region : VirtualRegion) : U64 := region.size / 4096

/-- `bytes_per_bitmap`: one bit for each page, rounded up. -/
def bytesPerBitmap (region : VirtualRegion) : U64 := (region.pageNumber - 1) / 8 + 1

/-- `pages_needed` for both bitmaps. -/
def pagesNeeded (region : VirtualRegion) : U64 := (region.bytesPerBitmap * 2 - 1) / 4096 + 1

end VirtualRegion

open VirtualRegion

/-- The allocator. -/
structure RegionPageAllocator where
  region : VirtualRegion
  memory : Memory Byte
  lastFreed : ℕ

namespace RegionPageAllocator

/-! ## The functions -/

/-- Where `m_free_bitmap` lies in the region. -/
def freeBitmap : ℕ := 0

/-- Where `m_continuation_bitmap` lies: behind the free bitmap. -/
def continuationBitmap (region : VirtualRegion) : ℕ := region.bytesPerBitmap.toNat

/-- The loop of `mark_as_reserved`, with `n` pages to go. -/
def markAsReserved (region : VirtualRegion) : ℕ → ℕ → Memory Byte → Memory Byte
  | 0, _, mem => mem
  | n + 1, index, mem =>
      markAsReserved region n (index + 1)
        (setBit (setBit mem freeBitmap index true) (continuationBitmap region) index
          (n != 0))

/-- The loop of `mark_region_as_free`, for at most `fuel` pages; `none` when it
has not come to the end of the allocation by then. -/
def markRegionAsFree (region : VirtualRegion) : ℕ → ℕ → Memory Byte → Option (Memory Byte)
  | 0, _, _ => none
  | fuel + 1, index, mem =>
      let mem := setBit mem freeBitmap index false
      if testBit mem (continuationBitmap region) index then
        markRegionAsFree region fuel (index + 1) mem
      else some mem

/-- The loop of `search_for_free`, with `remaining` pages ahead of `index`.
`none` is the `-1` it returns when it has found nothing. -/
def searchFrom (mem : Memory Byte) (nPages : ℕ) : ℕ → ℕ → ℕ → ℕ → Option ℕ
  | 0, _, _, _ => none
  | remaining + 1, index, regionBegin, regionSize =>
      if testBit mem freeBitmap index then
        searchFrom mem nPages remaining (index + 1) (index + 1) 0
      else if regionSize + 1 = nPages then some regionBegin
      else searchFrom mem nPages remaining (index + 1) regionBegin (regionSize + 1)

/-- The constructor: the pages of the bitmaps are reserved. -/
def new (region : VirtualRegion) (memory : Memory Byte) : RegionPageAllocator where
  region := region
  memory := markAsReserved region region.pagesNeeded.toNat 0 memory
  lastFreed := 0

/-- The search starts where a region was freed last. -/
def searchForFree (alloc : RegionPageAllocator) (nPages : ℕ) : Option ℕ :=
  searchFrom alloc.memory nPages (alloc.region.pageNumber.toNat - alloc.lastFreed)
    alloc.lastFreed alloc.lastFreed 0

/-- Allocate `nPages` contiguous pages; the address of the first. -/
def allocatePages (alloc : RegionPageAllocator) (nPages : ℕ) :
    RegionPageAllocator × Option ℕ :=
  match alloc.searchForFree nPages with
  | some index =>
      ({ alloc with memory := markAsReserved alloc.region nPages index alloc.memory },
        some (alloc.region.start + index * pageBytes))
  | none => (alloc, none)

/-- Free the region whose first page `ptr` lies in. -/
def freeRegion (alloc : RegionPageAllocator) (ptr : ℕ) : Option RegionPageAllocator :=
  let index := (ptr - ptr % pageBytes - alloc.region.start) / pageBytes
  (markRegionAsFree alloc.region alloc.region.pageNumber.toNat index alloc.memory).map
    fun memory => { alloc with memory := memory, lastFreed := index }

/-! ## What the functions do to the bitmaps -/

/-- The page is reserved. -/
def reserved (mem : Memory Byte) (page : ℕ) : Bool := testBit mem freeBitmap page

/-- The reservation goes on with the next page. -/
def continues (region : VirtualRegion) (mem : Memory Byte) (page : ℕ) : Bool :=
  testBit mem (continuationBitmap region) page

section Bitmaps

variable {region : VirtualRegion} {mem : Memory Byte}

theorem bytesPerBitmap_toNat (region : VirtualRegion) : region.bytesPerBitmap.toNat =
    (region.pageNumber.toNat + (2 ^ 64 - 1)) % 2 ^ 64 / 8 + 1 := by
  unfold bytesPerBitmap
  rw [BitVec.toNat_add, BitVec.toNat_udiv, BitVec.toNat_sub]
  simp only [BitVec.ofNat_eq_ofNat, BitVec.toNat_ofNat, Nat.reducePow, Nat.reduceMod]
  omega

theorem pagesNeeded_toNat (region : VirtualRegion) :
    region.pagesNeeded.toNat = (2 * region.bytesPerBitmap.toNat - 1) / 4096 + 1 := by
  have hbytes := bytesPerBitmap_toNat region
  unfold pagesNeeded
  rw [BitVec.toNat_add, BitVec.toNat_udiv, BitVec.toNat_sub, BitVec.toNat_mul]
  simp only [BitVec.ofNat_eq_ofNat, BitVec.toNat_ofNat, Nat.reducePow, Nat.reduceMod]
  omega

/-- The sizes of the bitmaps: a bit for every page, and room for both of them in
the pages that are reserved for them. -/
theorem bitmap_sizes (region : VirtualRegion) :
    region.pageNumber.toNat ≤ 8 * region.bytesPerBitmap.toNat ∧
      2 * region.bytesPerBitmap.toNat ≤ region.pagesNeeded.toNat * pageBytes ∧
      region.pagesNeeded.toNat ≤ 8 * region.bytesPerBitmap.toNat := by
  have hsize := region.size.isLt
  have hpages : region.pageNumber.toNat = region.size.toNat / 4096 := by
    simp [pageNumber, BitVec.toNat_udiv]
  have hbytes := bytesPerBitmap_toNat region
  have hneeded := pagesNeeded_toNat region
  unfold pageBytes
  omega

theorem reserved_setBit_continuation {page index : ℕ} {val : Bool}
    (h : page < 8 * region.bytesPerBitmap.toNat) :
    reserved (setBit mem (continuationBitmap region) index val) page = reserved mem page :=
  testBit_setBit_apart (by
    unfold freeBitmap continuationBitmap
    omega)

theorem continues_setBit_free {page index : ℕ} {val : Bool}
    (h : index < 8 * region.bytesPerBitmap.toNat) :
    continues region (setBit mem freeBitmap index val) page = continues region mem page :=
  testBit_setBit_apart (by
    unfold freeBitmap continuationBitmap
    omega)

variable (region) in
/-- **`mark_as_reserved`** reserves its pages, as one run, and no other. -/
theorem markAsReserved_spec :
    ∀ (n index : ℕ) (mem : Memory Byte), index + n ≤ 8 * region.bytesPerBitmap.toNat →
      ∀ page < 8 * region.bytesPerBitmap.toNat,
        reserved (markAsReserved region n index mem) page =
            (decide (index ≤ page ∧ page < index + n) || reserved mem page) ∧
          continues region (markAsReserved region n index mem) page =
            if index ≤ page ∧ page < index + n then decide (page + 1 ≠ index + n)
            else continues region mem page := by
  intro n
  induction n with
  | zero =>
      intro index mem _ page _
      unfold markAsReserved
      rw [decide_eq_false (by omega), Bool.false_or, if_neg (by omega)]
      exact ⟨rfl, rfl⟩
  | succ n ih =>
      intro index mem hbound page hpage
      unfold markAsReserved
      obtain ⟨hreserved, hcontinues⟩ := ih (index + 1)
        (setBit (setBit mem freeBitmap index true) (continuationBitmap region) index (n != 0))
        (by omega) page hpage
      rw [hreserved, hcontinues, reserved_setBit_continuation hpage]
      by_cases heq : page = index
      · -- The page of this round: the later rounds do not come back to it.
        subst heq
        rw [decide_eq_false (by omega), Bool.false_or, if_neg (by omega),
          decide_eq_true (by omega), Bool.true_or, if_pos (by omega)]
        refine ⟨testBit_setBit_self, ?_⟩
        unfold continues
        rw [testBit_setBit_self]
        cases n with
        | zero => simp
        | succ n => simp
      · have hold : reserved (setBit mem freeBitmap index true) page = reserved mem page :=
          testBit_setBit_ne heq
        have hcont : continues region (setBit (setBit mem freeBitmap index true)
            (continuationBitmap region) index (n != 0)) page = continues region mem page := by
          refine (testBit_setBit_ne heq).trans (continues_setBit_free (by omega))
        rw [hold, hcont]
        by_cases hin : index ≤ page ∧ page < index + (n + 1)
        · rw [decide_eq_true (by omega), if_pos (by omega), decide_eq_true hin, if_pos hin]
          exact ⟨rfl, decide_eq_decide.mpr (by omega)⟩
        · rw [decide_eq_false (by omega), if_neg (by omega), decide_eq_false hin, if_neg hin]
          exact ⟨rfl, rfl⟩

/-- The pages of one allocation: all reserved, and all but the last go on. -/
def IsRun (region : VirtualRegion) (mem : Memory Byte) (index n : ℕ) : Prop :=
  ∀ page, index ≤ page → page < index + n →
    reserved mem page = true ∧ continues region mem page = decide (page + 1 ≠ index + n)

variable (region) in
/-- **`mark_region_as_free`** releases the pages of the run it starts at, and no
other page. -/
theorem markRegionAsFree_spec :
    ∀ (fuel n index : ℕ) (mem : Memory Byte), 1 ≤ n → n ≤ fuel →
      index + n ≤ 8 * region.bytesPerBitmap.toNat →
      (∀ page, index ≤ page → page < index + n →
        continues region mem page = decide (page + 1 ≠ index + n)) →
      ∃ mem', markRegionAsFree region fuel index mem = some mem' ∧
        ∀ page < 8 * region.bytesPerBitmap.toNat,
          reserved mem' page =
              (reserved mem page && !decide (index ≤ page ∧ page < index + n)) ∧
            continues region mem' page = continues region mem page := by
  intro fuel
  induction fuel with
  | zero =>
      intro n index mem hn hfuel
      omega
  | succ fuel ih =>
      intro n index mem hn hfuel hbound hrun
      have hcont : ∀ page, continues region (setBit mem freeBitmap index false) page =
          continues region mem page := fun page => continues_setBit_free (by omega)
      have hhere : continues region (setBit mem freeBitmap index false) index =
          decide (index + 1 ≠ index + n) := (hcont index).trans (hrun index (by omega) (by omega))
      have hself : reserved (setBit mem freeBitmap index false) index = false :=
        testBit_setBit_self
      have hother : ∀ page ≠ index,
          reserved (setBit mem freeBitmap index false) page = reserved mem page :=
        fun page hne => testBit_setBit_ne hne
      unfold markRegionAsFree
      dsimp only
      change ∃ mem', (if continues region (setBit mem freeBitmap index false) index = true then _
        else _) = some mem' ∧ _
      rw [hhere]
      by_cases hlast : n = 1
      · subst hlast
        rw [if_neg (by simp)]
        refine ⟨_, rfl, fun page _ => ⟨?_, hcont page⟩⟩
        by_cases heq : page = index
        · subst heq
          rw [hself, decide_eq_true (by omega)]
          simp
        · rw [hother page heq, decide_eq_false (by omega)]
          simp
      · rw [if_pos (decide_eq_true (by omega))]
        obtain ⟨mem', hmem', hspec⟩ := ih (n - 1) (index + 1)
          (setBit mem freeBitmap index false) (by omega) (by omega) (by omega)
          (fun page hlow hhigh => by
            rw [hcont page, hrun page (by omega) (by omega)]
            exact decide_eq_decide.mpr (by omega))
        refine ⟨mem', hmem', fun page hpage => ?_⟩
        obtain ⟨hreserved, hcontinues⟩ := hspec page hpage
        rw [hreserved, hcontinues]
        refine ⟨?_, hcont page⟩
        by_cases heq : page = index
        · subst heq
          rw [hself, decide_eq_true (by omega : page ≤ page ∧ page < page + n)]
          simp
        · rw [hother page heq]
          congr 2
          exact decide_eq_decide.mpr (by omega)

/-- **`search_for_free`** finds that many pages in a row, none of them reserved. -/
theorem searchFrom_spec {nPages : ℕ} :
    ∀ {remaining index regionBegin regionSize found : ℕ},
      searchFrom mem nPages remaining index regionBegin regionSize = some found →
      regionBegin + regionSize = index →
      (∀ page, regionBegin ≤ page → page < index → reserved mem page = false) →
      found + nPages ≤ index + remaining ∧
        ∀ page, found ≤ page → page < found + nPages → reserved mem page = false := by
  intro remaining
  induction remaining with
  | zero =>
      intro index regionBegin regionSize found h
      cases h
  | succ remaining ih =>
      intro index regionBegin regionSize found h hlength hfree
      unfold searchFrom at h
      split_ifs at h with hbit hfound
      · obtain ⟨hbound, hpages⟩ := ih h (by omega) (by omega)
        exact ⟨by omega, hpages⟩
      · cases h
        refine ⟨by omega, fun page hlow hhigh => ?_⟩
        by_cases heq : page = index
        · subst heq
          exact Bool.eq_false_iff.mpr hbit
        · exact hfree page hlow (by omega)
      · obtain ⟨hbound, hpages⟩ := ih h (by omega) (fun page hlow hhigh => by
          by_cases heq : page = index
          · subst heq
            exact Bool.eq_false_iff.mpr hbit
          · exact hfree page hlow (by omega))
        exact ⟨by omega, hpages⟩

end Bitmaps

/-! ## Runs -/

/-- An allocator together with what its callers hold: the address and the number
of pages of every allocation that has not been freed. -/
structure Owned where
  alloc : RegionPageAllocator
  live : List (ℕ × ℕ)

/-- What happens to an allocator: the two calls, and the stores its callers make
into the pages they hold. -/
inductive Op where
  | allocatePages (nPages : ℕ)
  | freeRegion (ptr : ℕ)
  | store (ptr : ℕ) (value : Byte)

/-- One of them; `none` when `mark_region_as_free` does not come to an end. -/
def step (owned : Owned) : Op → Option (Owned × Option ℕ)
  | .allocatePages nPages =>
      match owned.alloc.allocatePages nPages with
      | (alloc, some ptr) => some ({ alloc := alloc, live := (ptr, nPages) :: owned.live }, some ptr)
      | (alloc, none) => some ({ owned with alloc := alloc }, none)
  | .freeRegion ptr =>
      (owned.alloc.freeRegion ptr).map fun alloc =>
        ({ alloc := alloc, live := owned.live.filter fun held => held.1 ≠ ptr }, none)
  | .store ptr value =>
      some ({ owned with
        alloc := { owned.alloc with
          memory := update owned.alloc.memory (ptr - owned.alloc.region.start) value } },
        none)

/-- Callers ask for at least one page, free the starts of allocations they hold,
and store into the pages they hold. -/
def Legal (owned : Owned) : Op → Prop
  | .allocatePages nPages => 1 ≤ nPages
  | .freeRegion ptr => ∃ held ∈ owned.live, held.1 = ptr
  | .store ptr _ =>
      ∃ held ∈ owned.live, held.1 ≤ ptr ∧ ptr < held.1 + held.2 * pageBytes

instance (owned : Owned) : (op : Op) → Decidable (Legal owned op)
  | .allocatePages nPages => inferInstanceAs (Decidable (1 ≤ nPages))
  | .freeRegion ptr => inferInstanceAs (Decidable (∃ held ∈ owned.live, held.1 = ptr))
  | .store ptr _ => inferInstanceAs (Decidable (∃ held ∈ owned.live,
      held.1 ≤ ptr ∧ ptr < held.1 + held.2 * pageBytes))

/-- Two allocations have no byte in common. -/
def Disjoint (held other : ℕ × ℕ) : Prop :=
  held.1 + held.2 * pageBytes ≤ other.1 ∨ other.1 + other.2 * pageBytes ≤ held.1

instance : Std.Symm Disjoint where
  symm _ _ := Or.symm

/-- The page lies in the allocation. -/
def InAllocation (region : VirtualRegion) (held : ℕ × ℕ) (page : ℕ) : Prop :=
  held.1 ≤ region.start + page * pageBytes ∧
    region.start + page * pageBytes < held.1 + held.2 * pageBytes
deriving Decidable

/-- **What the callers rely on.**  Their allocations lie in the region, behind
the pages of the bitmaps, apart from each other; and freeing one of them
releases its pages and no other. -/
structure Sound (region : VirtualRegion) (owned : Owned) : Prop where
  inside : ∀ held ∈ owned.live, held.1 + held.2 * pageBytes ≤ region.start + region.size.toNat
  behind : ∀ held ∈ owned.live, region.start + region.pagesNeeded.toNat * pageBytes ≤ held.1
  disjoint : owned.live.Pairwise Disjoint
  releases : ∀ held ∈ owned.live, ∃ after, owned.alloc.freeRegion held.1 = some after ∧
    ∀ page < region.pageNumber.toNat,
      reserved after.memory page =
        (reserved owned.alloc.memory page && !decide (InAllocation region held page))

/-- The invariant: every allocation is a run of reserved pages, and the pages of
the bitmaps are reserved. -/
structure Ok (region : VirtualRegion) (owned : Owned) : Prop where
  same : owned.alloc.region = region
  runs : ∀ held ∈ owned.live, ∃ index, held.1 = region.start + index * pageBytes ∧
    1 ≤ held.2 ∧ region.pagesNeeded.toNat ≤ index ∧
    index + held.2 ≤ region.pageNumber.toNat ∧ IsRun region owned.alloc.memory index held.2
  disjoint : owned.live.Pairwise Disjoint
  header : ∀ page < region.pagesNeeded.toNat, page < region.pageNumber.toNat →
    reserved owned.alloc.memory page = true

section Runs

variable {region : VirtualRegion} {owned : Owned}

theorem pageNumber_bytes (region : VirtualRegion) :
    region.pageNumber.toNat * pageBytes ≤ region.size.toNat := by
  have : region.pageNumber.toNat = region.size.toNat / 4096 := by
    simp [pageNumber, BitVec.toNat_udiv]
  unfold pageBytes
  omega

variable {held : ℕ × ℕ} {index ptr : ℕ}

theorem inAllocation_iff {page : ℕ} (hstart : held.1 = region.start + index * pageBytes) :
    InAllocation region held page ↔ index ≤ page ∧ page < index + held.2 := by
  unfold InAllocation pageBytes at *
  omega

theorem disjoint_iff {other : ℕ × ℕ} {index' : ℕ}
    (hstart : held.1 = region.start + index * pageBytes)
    (hstart' : other.1 = region.start + index' * pageBytes) :
    Disjoint held other ↔ index + held.2 ≤ index' ∨ index' + other.2 ≤ index := by
  unfold Disjoint pageBytes at *
  omega

theorem index_of_start (haligned : region.PageAligned)
    (hptr : ptr = region.start + index * pageBytes) :
    (ptr - ptr % pageBytes - region.start) / pageBytes = index := by
  obtain ⟨hstart, -⟩ := haligned
  unfold pageBytes at *
  omega

theorem freeRegion_run (haligned : region.PageAligned) {alloc : RegionPageAllocator}
    (hsame : alloc.region = region) (hstart : held.1 = region.start + index * pageBytes)
    (hn : 1 ≤ held.2) (hinside : index + held.2 ≤ region.pageNumber.toNat)
    (hrun : IsRun region alloc.memory index held.2) :
    ∃ after, alloc.freeRegion held.1 = some after ∧ after.region = region ∧
      ∀ page < region.pageNumber.toNat,
        reserved after.memory page =
            (reserved alloc.memory page && !decide (InAllocation region held page)) ∧
          continues region after.memory page = continues region alloc.memory page := by
  obtain ⟨hpages, -, -⟩ := bitmap_sizes region
  obtain ⟨mem', hfree, hspec⟩ := markRegionAsFree_spec region
    region.pageNumber.toNat held.2 index alloc.memory hn (by omega) (by omega)
    fun page hlow hhigh => (hrun page hlow hhigh).2
  refine ⟨{ alloc with memory := mem', lastFreed := index }, ?_, hsame, fun page hpage => ?_⟩
  · unfold freeRegion
    rw [hsame, index_of_start haligned hstart]
    dsimp only
    rw [hfree, Option.map_some]
  · obtain ⟨hreserved, hcontinues⟩ := hspec page (by omega)
    refine ⟨?_, hcontinues⟩
    dsimp only
    rw [hreserved]
    congr 2
    exact decide_eq_decide.mpr (inAllocation_iff hstart).symm

theorem freeRegion_spec (haligned : region.PageAligned) (ok : Ok region owned)
    (hheld : held ∈ owned.live) :
    ∃ after, owned.alloc.freeRegion held.1 = some after ∧ after.region = region ∧
      ∀ page < region.pageNumber.toNat,
        reserved after.memory page =
            (reserved owned.alloc.memory page && !decide (InAllocation region held page)) ∧
          continues region after.memory page = continues region owned.alloc.memory page := by
  obtain ⟨index, hstart, hn, -, hinside, hrun⟩ := ok.runs held hheld
  exact freeRegion_run haligned ok.same hstart hn hinside hrun

theorem Ok.sound (haligned : region.PageAligned) (ok : Ok region owned) :
    Sound region owned where
  inside := by
    intro held hheld
    obtain ⟨index, hstart, -, -, hinside, -⟩ := ok.runs held hheld
    have := pageNumber_bytes region
    unfold pageBytes at *
    omega
  behind := by
    intro held hheld
    obtain ⟨index, hstart, -, hbehind, -⟩ := ok.runs held hheld
    unfold pageBytes at *
    omega
  disjoint := ok.disjoint
  releases := by
    intro held hheld
    obtain ⟨after, hfree, -, hspec⟩ := freeRegion_spec haligned ok hheld
    exact ⟨after, hfree, fun page hpage => (hspec page hpage).1⟩

theorem IsRun.congr {mem mem' : Memory Byte} {index n : ℕ} (run : IsRun region mem index n)
    (h : ∀ page, index ≤ page → page < index + n → reserved mem' page = reserved mem page ∧
      continues region mem' page = continues region mem page) :
    IsRun region mem' index n := fun page hlow hhigh => by
  obtain ⟨hreserved, hcontinues⟩ := h page hlow hhigh
  rw [hreserved, hcontinues]
  exact run page hlow hhigh

theorem searchForFree_spec {alloc : RegionPageAllocator} (hregion : alloc.region = region)
    {nPages found : ℕ} (h : alloc.searchForFree nPages = some found) :
    found + nPages ≤ region.pageNumber.toNat ∧
      ∀ page, found ≤ page → page < found + nPages → reserved alloc.memory page = false := by
  unfold searchForFree at h
  rw [hregion] at h
  have hstart : alloc.lastFreed < region.pageNumber.toNat := by
    by_contra hbeyond
    rw [Nat.sub_eq_zero_of_le (by omega)] at h
    cases h
  obtain ⟨hbound, hfree⟩ := searchFrom_spec h rfl fun page hlow hhigh => by omega
  exact ⟨by omega, hfree⟩

/-- **`allocate_pages`** hands out a run of its own. -/
theorem allocatePages_ok (ok : Ok region owned) {nPages : ℕ} (hn : 1 ≤ nPages) :
    ∃ moved, step owned (.allocatePages nPages) = some moved ∧ Ok region moved.1 := by
  cases hsearch : owned.alloc.searchForFree nPages with
  | none => exact ⟨(owned, none), by simp only [step, allocatePages, hsearch], ok⟩
  | some found =>
      obtain ⟨hinside, hfree⟩ := searchForFree_spec ok.same hsearch
      obtain ⟨hpages, -, -⟩ := bitmap_sizes region
      have hmark := markAsReserved_spec region nPages found owned.alloc.memory
        (by omega)
      have hstep : step owned (.allocatePages nPages) = some
          ({ alloc := { owned.alloc with
              region := region
              memory := markAsReserved region nPages found owned.alloc.memory }
             live := (region.start + found * pageBytes, nPages) :: owned.live },
            some (region.start + found * pageBytes)) := by
        simp only [step, allocatePages, hsearch, ok.same]
      refine ⟨_, hstep, ⟨rfl, ?_, ?_, ?_⟩⟩
      · intro held hheld
        rcases List.mem_cons.mp hheld with rfl | hheld
        · refine ⟨found, rfl, hn, ?_, hinside, fun page hlow hhigh => ?_⟩
          · -- The first page was not reserved, and those of the bitmaps are.
            by_contra hheader
            have := ok.header found (by omega) (by omega)
            rw [hfree found le_rfl (by omega)] at this
            cases this
          · obtain ⟨hreserved, hcontinues⟩ := hmark page (by omega)
            rw [hreserved, hcontinues, if_pos ⟨hlow, hhigh⟩, decide_eq_true ⟨hlow, hhigh⟩]
            exact ⟨rfl, rfl⟩
        · obtain ⟨index, hstart, hn', hbehind, hinside', hrun⟩ := ok.runs held hheld
          refine ⟨index, hstart, hn', hbehind, hinside', hrun.congr fun page hlow hhigh => ?_⟩
          obtain ⟨hreserved, hcontinues⟩ := hmark page (by omega)
          have hout : ¬ (found ≤ page ∧ page < found + nPages) := by
            rintro ⟨hlow', hhigh'⟩
            have := (hrun page hlow hhigh).1
            rw [hfree page hlow' hhigh'] at this
            cases this
          rw [hreserved, hcontinues, if_neg hout, decide_eq_false hout]
          exact ⟨rfl, rfl⟩
      · refine List.pairwise_cons.mpr ⟨fun held hheld => ?_, ok.disjoint⟩
        obtain ⟨index, hstart, hn', hbehind, hinside', hrun⟩ := ok.runs held hheld
        rw [disjoint_iff rfl hstart]
        dsimp only
        by_contra hcommon
        -- Otherwise the later of the two first pages lies in both.
        have := (hrun (max found index) (by omega) (by omega)).1
        rw [hfree (max found index) (by omega) (by omega)] at this
        cases this
      · intro page hpage hlt
        dsimp only
        rw [(hmark page (by omega)).1, ok.header page hpage hlt, Bool.or_true]

/-- **`free_region`** leaves the other allocations as they are. -/
theorem freeRegion_ok (haligned : region.PageAligned) (ok : Ok region owned)
    (legal : ∃ held ∈ owned.live, held.1 = ptr) :
    ∃ moved, step owned (.freeRegion ptr) = some moved ∧ Ok region moved.1 := by
  obtain ⟨freed, hfreed, rfl⟩ := legal
  obtain ⟨after, hfree, hregion, hspec⟩ := freeRegion_spec haligned ok hfreed
  obtain ⟨index, hstart, hn, hbehind, hinside, -⟩ := ok.runs freed hfreed
  refine ⟨({ alloc := after, live := owned.live.filter fun held => held.1 ≠ freed.1 }, none), ?_,
    hregion, fun held hheld => ?_, ok.disjoint.filter _, fun page hpage hlt => ?_⟩
  · simp only [step, hfree, Option.map_some]
  · obtain ⟨hheld, hne⟩ := List.mem_filter.mp hheld
    obtain ⟨index', hstart', hn', hbehind', hinside', hrun'⟩ := ok.runs held hheld
    have hne' : held.1 ≠ freed.1 := by simpa using hne
    have hapart := ok.disjoint.forall hheld hfreed fun heq => hne' (congrArg Prod.fst heq)
    rw [disjoint_iff hstart' hstart] at hapart
    refine ⟨index', hstart', hn', hbehind', hinside', hrun'.congr fun page hlow hhigh => ?_⟩
    obtain ⟨hreserved, hcontinues⟩ := hspec page (by omega)
    rw [hreserved, hcontinues]
    refine ⟨?_, rfl⟩
    have hout : ¬ InAllocation region freed page := by
      rw [inAllocation_iff hstart]
      omega
    rw [decide_eq_false hout]
    exact Bool.and_true _
  · rw [(hspec page hlt).1, ok.header page hpage hlt]
    have hout : ¬ InAllocation region freed page := by
      rw [inAllocation_iff hstart]
      omega
    rw [decide_eq_false hout]
    rfl

theorem store_bits {mem : Memory Byte} {value : Byte} (hbehind : region.pagesNeeded.toNat ≤ index)
    (hlow : region.start + index * pageBytes ≤ ptr) {page : ℕ}
    (hpage : page < region.pageNumber.toNat) :
    reserved (update mem (ptr - region.start) value) page = reserved mem page ∧
      continues region (update mem (ptr - region.start) value) page =
        continues region mem page := by
  obtain ⟨hpages, hbitmaps, -⟩ := bitmap_sizes region
  have hbeyond : 2 * region.bytesPerBitmap.toNat ≤ ptr - region.start := by
    unfold pageBytes at *
    omega
  refine ⟨testBit_congr (update_of_ne ?_ _ _),
    testBit_congr (update_of_ne ?_ _ _)⟩
  · unfold freeBitmap
    omega
  · unfold continuationBitmap
    omega

theorem store_ok (ok : Ok region owned) {value : Byte} (legal : Legal owned (.store ptr value)) :
    ∃ moved, step owned (.store ptr value) = some moved ∧ Ok region moved.1 := by
  obtain ⟨held, hheld, hlow, hhigh⟩ := legal
  obtain ⟨index, hstart, hn, hbehind, hinside, -⟩ := ok.runs held hheld
  have hbits : ∀ page < region.pageNumber.toNat,
      reserved (update owned.alloc.memory (ptr - region.start) value) page =
          reserved owned.alloc.memory page ∧
        continues region (update owned.alloc.memory (ptr - region.start) value) page =
          continues region owned.alloc.memory page :=
    fun page hpage => store_bits hbehind (hstart ▸ hlow) hpage
  have hstep : step owned (.store ptr value) = some
      ({ owned with
        alloc := { owned.alloc with
          region := region
          memory := update owned.alloc.memory (ptr - region.start) value } }, none) := by
    simp only [step, ok.same]
  refine ⟨_, hstep, ⟨rfl, fun other hother => ?_, ok.disjoint, fun page hpage hlt => ?_⟩⟩
  · obtain ⟨index', hstart', hn', hbehind', hinside', hrun'⟩ := ok.runs other hother
    exact ⟨index', hstart', hn', hbehind', hinside',
      hrun'.congr fun page _ hlt => hbits page (by omega)⟩
  · rw [(hbits page hlt).1]
    exact ok.header page hpage hlt

/-- **One step** keeps the invariant. -/
theorem step_ok (haligned : region.PageAligned) (ok : Ok region owned) (op : Op)
    (legal : Legal owned op) : ∃ moved, step owned op = some moved ∧ Ok region moved.1 := by
  cases op with
  | allocatePages nPages => exact allocatePages_ok ok legal
  | freeRegion ptr => exact freeRegion_ok haligned ok legal
  | store ptr value => exact store_ok ok legal

theorem new_ok (region : VirtualRegion) (memory : Memory Byte) :
    Ok region { alloc := new region memory, live := [] } where
  same := rfl
  runs := nofun
  disjoint := List.Pairwise.nil
  header := by
    intro page hpage _
    obtain ⟨-, -, hneeded⟩ := bitmap_sizes region
    have hmark := (markAsReserved_spec region region.pagesNeeded.toNat 0 memory
      (by omega) page (by omega)).1
    refine hmark.trans ?_
    rw [decide_eq_true (by omega), Bool.true_or]

/-- **The allocations of every run are sound.**  From the constructor, over a
page-aligned region with any contents, whatever the callers allocate, free and
store in the pages they hold. -/
theorem run_sound (region : VirtualRegion) (haligned : region.PageAligned)
    (memory : Memory Byte) (ops : List Op)
    (legal : StepsMeet step Legal { alloc := new region memory, live := [] } ops) (n : ℕ) :
    ∃ final, runSteps step { alloc := new region memory, live := [] } (ops.take n) = some final ∧
      Sound region final.1 := by
  have keeps : ∀ owned op, Ok region owned → Legal owned op →
      ∃ moved, step owned op = some moved ∧ Ok region moved.1 :=
    fun _ op ok legal => step_ok haligned ok op legal
  obtain ⟨final, hrun, ok⟩ := runSteps_completes keeps (new_ok region memory) legal n
  exact ⟨final, hrun, ok.sound haligned⟩

/-- Eight pages over memory that was not cleared: two neighbours, the first of
them freed and its pages handed out again. -/
theorem run_sound_neighbours :
    ∃ final, runSteps step
        { alloc := new ⟨0x40000000, 0x8000⟩ fun i => BitVec.ofNat 8 (i * 37), live := [] }
        ([.allocatePages 2, .allocatePages 3, .store 0x40003FFF 0xAA, .freeRegion 0x40001000,
          .allocatePages 1, .allocatePages 1].take 6) = some final ∧
      Sound ⟨0x40000000, 0x8000⟩ final.1 :=
  run_sound ⟨0x40000000, 0x8000⟩ (by decide) (fun i => BitVec.ofNat 8 (i * 37)) _
    (by decide +kernel) 6

end Runs

end RegionPageAllocator

end BekOS
