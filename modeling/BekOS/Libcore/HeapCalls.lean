import BekOS.Libcore.HeapInvariant

/-!
# The calls of the user allocator

What `allocate`, `free` and `get_size_of_allocation` do to a heap whose blocks are known, and what
the kernel is asked for and given back.
-/

namespace BekOS.Allocator

/-! ## What the kernel is asked for -/

/-- What the kernel is asked for by `allocate`, if anything. -/
def asks (heap : Heap) (size : U64) : Option ℕ :=
  if size = 0 then none
  else
    let wanted := alignUp size 8
    if wanted ≥ sizeForSeparateLargeBlock then some (alignUp (wanted + 16) pageSize).toNat
    else if (findBest heap.memory wanted.toNat loopBound (0, 0) 0 heap.freeBlocks).map Prod.fst =
        some 0 then some defaultLargeBlockSize
    else none

/-- The regions with the one that `allocate` has asked for. -/
def taking (regions : List Span) (heap : Heap) (size : U64) : Option ℕ → List Span
  | none => regions
  | some start =>
      match asks heap size with
      | none => regions
      | some len => ⟨start, len⟩ :: regions

/-- A call that asks for memory gets none. -/
def Denied (heap : Heap) (size : U64) (region : Option ℕ) : Prop :=
  size = 0 ∨ (asks heap size).isSome ∧ region = none

/-- The region that `free` gives back to the kernel, if any. -/
def released (heap : Heap) (ptr : ℕ) : Option Span :=
  (findHuge heap.memory ptr loopBound 0 heap.hugeBlockHead).bind fun found =>
    if found.2 ≠ 0 then some ⟨found.2, size heap.memory found.2⟩ else none

/-- The regions without the one that `free` gives back. -/
def giving (regions : List Span) (heap : Heap) (ptr : ℕ) : List Span :=
  match released heap ptr with
  | none => regions
  | some region => regions.erase region

/-- A region of the kernel begins with a page, is not empty, and lies apart from those that the
process has. -/
structure Granted (regions : List Span) (region : Span) : Prop where
  start_pos : 0 < region.start
  page : 4096 ∣ region.start
  len_pos : 0 < region.len
  stop_le : region.stop ≤ 2 ^ 64
  apart : ∀ other ∈ regions, region.Apart other

/-- So large a size can be rounded up, with a header. -/
def Rounds (size : U64) : Prop := size.toNat + headerSize ≤ 2 ^ 64

/-- The data of a block is as it was. -/
def SameData (block : Span) (memory memory' : Memory Byte) : Prop :=
  ∀ i, headerSize ≤ i → i < block.len → memory' (block.start + i) = memory (block.start + i)

section Asking

variable {heap heap' : Heap} {regions regions' spans : List Span} {size : U64} {region : Option ℕ}
  {block : Span} {memory memory' : Memory Byte} {start n ptr : ℕ}

theorem taking_of_asks (h : asks heap size = none) : taking regions heap size region = regions := by
  cases region <;> simp only [taking, h]

theorem taking_some (hregion : region = some block.start)
    (hasks : asks heap size = some block.len) :
    taking regions heap size region = block :: regions := by
  simp only [hregion, taking, hasks]

theorem not_denied_of_some (hregion : region = some start) (hasks : asks heap size = some n) :
    ¬ Denied heap size region := by
  rintro (hzero | ⟨-, hnone⟩)
  · exact Option.some_ne_none n (hasks.symm.trans (if_pos hzero))
  · exact Option.some_ne_none start (hregion.symm.trans hnone)

theorem not_denied_of_none (hsize : size ≠ 0) (hasks : asks heap size = none) :
    ¬ Denied heap size region := by
  rintro (hzero | ⟨hsome, -⟩)
  · exact hsize hzero
  · rw [hasks] at hsome
    exact Bool.false_ne_true hsome

theorem giving_congr (h : released heap' ptr = released heap ptr) :
    giving regions heap' ptr = giving regions heap ptr := by
  unfold giving
  rw [h]

theorem Granted.perm (h : Granted regions block) (hperm : regions.Perm regions') :
    Granted regions' block :=
  ⟨h.start_pos, h.page, h.len_pos, h.stop_le, fun other hother =>
    h.apart other (hperm.mem_iff.mpr hother)⟩

theorem SameData.refl (block : Span) (memory : Memory Byte) : SameData block memory memory :=
  fun _ _ _ => rfl

theorem Within.sameData (h : Within spans memory memory')
    (hapart : ∀ span ∈ spans, block.Apart span ∨ span = Allocator.header block.start) :
    SameData block memory memory' := by
  refine fun i hi hi' => h _ fun span hspan hcovers => ?_
  rcases hapart span hspan with hapart | rfl
  · unfold Span.Apart Span.Covers Span.stop at *
    omega
  · exact absurd hcovers.2 (Nat.not_lt.mpr (Nat.add_le_add_left hi _))

end Asking

section Rounding

variable {size : U64}

theorem toNat_alignUp_eight (h : Rounds size) :
    (alignUp size 8).toNat = (size.toNat + 7) / 8 * 8 := by
  unfold Rounds headerSize at h
  have hsum : (size + 8 - 1).toNat = size.toNat + 7 := by bv_omega
  rw [alignUp, ceilDiv, BitVec.toNat_mul, BitVec.toNat_udiv, hsum]
  show (size.toNat + 7) / 8 * 8 % 2 ^ 64 = _
  omega

theorem wanted_alignUp (hsize : size ≠ 0) (hrounds : Rounds size) :
    Wanted (alignUp size 8).toNat ∧ size.toNat ≤ (alignUp size 8).toNat := by
  have hpos : size.toNat ≠ 0 := fun h => hsize (BitVec.eq_of_toNat_eq h)
  unfold Wanted minBlockSize
  rw [toNat_alignUp_eight hrounds]
  omega

/-- A number of pages holds the bytes, unless the sum has wrapped around to none. -/
theorem le_alignUp_pageSize {bytes : U64} (h : 0 < (alignUp bytes pageSize).toNat) :
    bytes.toNat ≤ (alignUp bytes pageSize).toNat ∧ 4096 ≤ (alignUp bytes pageSize).toNat ∧
      8 ∣ (alignUp bytes pageSize).toNat := by
  by_cases hsum : bytes.toNat + 4095 < 2 ^ 64
  · have hlen : (alignUp bytes pageSize).toNat = (bytes.toNat + 4095) / 4096 * 4096 % 2 ^ 64 := by
      rw [alignUp, BitVec.toNat_mul, toNat_ceilDiv_pageSize hsum, toNat_pageSize]
    omega
  · have hwrapped : (bytes + pageSize - 1).toNat < 4096 := by
      have hlt := bytes.isLt
      unfold pageSize
      bv_omega
    have hnone : (alignUp bytes pageSize).toNat = 0 := by
      rw [alignUp, ceilDiv, BitVec.toNat_mul, BitVec.toNat_udiv, toNat_pageSize,
        Nat.div_eq_of_lt hwrapped, Nat.zero_mul, Nat.zero_mod]
    exact absurd hnone (Nat.pos_iff_ne_zero.mp h)

/-- The bytes of a region that is asked for, with the header. -/
theorem le_hugeSize (hrounds : Rounds size)
    (hpos : 0 < (alignUp (alignUp size 8 + 16) pageSize).toNat) :
    headerSize + size.toNat ≤ (alignUp (alignUp size 8 + 16) pageSize).toNat := by
  have hround := toNat_alignUp_eight hrounds
  have hheader : (alignUp size 8 + 16).toNat = ((alignUp size 8).toNat + 16) % 2 ^ 64 := rfl
  have hle := (le_alignUp_pageSize hpos).1
  unfold Rounds headerSize at *
  by_cases hfull : (alignUp size 8).toNat + 16 < 2 ^ 64
  · rw [Nat.mod_eq_of_lt hfull] at hheader
    omega
  · have hzero : alignUp size 8 + 16 = 0 := BitVec.eq_of_toNat_eq (by
      rw [hheader]
      show _ % 2 ^ 64 = 0
      omega)
    rw [hzero] at hpos
    exact absurd hpos (by decide)

end Rounding

/-! ## `allocate` -/

/-- What `allocate` leaves, and what it gives: nothing, or one more block that is not free. -/
structure Allocated (heap : Heap) (blocks blocks' : Blocks) (size : U64) (region : Option ℕ)
    (result : AllocatedRegion) : Prop where
  live : blocks.live ⊆ blocks'.live
  huge : blocks.huge ⊆ blocks'.huge
  regions : ∀ regions, regions.Perm (blocks.slabs ++ blocks.huge) →
    (taking regions heap size region).Perm (blocks'.slabs ++ blocks'.huge)
  result : result = none ∧ blocks' = blocks ∧ Denied heap size region ∨
    ∃ block, result = some (block.start + headerSize, block.len - headerSize) ∧
      (block :: (blocks.live ++ blocks.huge)).Perm (blocks'.live ++ blocks'.huge) ∧
      headerSize + size.toNat ≤ block.len ∧ ¬ Denied heap size region

section Allocate

variable {heap : Heap} {blocks : Blocks} {size align : U64} {region : Option ℕ}

theorem asks_small (hsize : size ≠ 0) (hlarge : ¬ alignUp size 8 ≥ sizeForSeparateLargeBlock) :
    asks heap size =
      if (findBest heap.memory (alignUp size 8).toNat loopBound (0, 0) 0 heap.freeBlocks).map
        Prod.fst = some 0 then some defaultLargeBlockSize
      else none :=
  (if_neg hsize).trans (if_neg hlarge)

theorem Allocated.null (hdenied : Denied heap size region) :
    Allocated heap blocks blocks size region none where
  live := List.Subset.refl _
  huge := List.Subset.refl _
  regions regions hperm := by
    rcases hdenied with hzero | ⟨-, rfl⟩
    · rwa [taking_of_asks (if_pos hzero)]
    · exact hperm
  result := Or.inl ⟨rfl, rfl, hdenied⟩

/-- **`allocate`** leaves a heap that holds, and all data as it was. -/
theorem allocate_holds (holds : heap.Holds blocks) (halign : align ≤ pageSize)
    (hrounds : Rounds size)
    (hgranted : ∀ start, region = some start → ∀ len, asks heap size = some len →
      Granted (blocks.slabs ++ blocks.huge) ⟨start, len⟩) :
    ∃ heap' result blocks', allocate heap size align region = some (heap', result) ∧
      heap'.Holds blocks' ∧ Allocated heap blocks blocks' size region result ∧
      ∀ other ∈ blocks.live ++ blocks.huge, SameData other heap.memory heap'.memory := by
  have hpage : ¬ align > pageSize := by bv_omega
  have hnull (hdenied : Denied heap size region)
      (hdone : allocate heap size align region = some (heap, none)) :
      ∃ heap' result blocks', allocate heap size align region = some (heap', result) ∧
        heap'.Holds blocks' ∧ Allocated heap blocks blocks' size region result ∧
        ∀ other ∈ blocks.live ++ blocks.huge, SameData other heap.memory heap'.memory :=
    ⟨heap, none, blocks, hdone, holds, .null hdenied, fun other _ => SameData.refl other _⟩
  obtain ⟨free, live, huge, slabs⟩ := blocks
  by_cases hsize : size = 0
  · exact hnull (Or.inl hsize) (if_pos hsize)
  obtain ⟨hwanted, hmore⟩ := wanted_alignUp hsize hrounds
  unfold allocate at hnull ⊢
  rw [if_neg hsize, if_neg hpage] at hnull ⊢
  dsimp only at hnull ⊢
  by_cases hlarge : alignUp size 8 ≥ sizeForSeparateLargeBlock
  · have hasks : asks heap size = some (alignUp (alignUp size 8 + 16) pageSize).toNat :=
      (if_neg hsize).trans (if_pos hlarge)
    rw [if_pos hlarge] at hnull ⊢
    cases region with
    | none => exact hnull (Or.inr ⟨hasks ▸ rfl, rfl⟩) rfl
    | some start =>
        obtain ⟨hstart, hfirst, hpos, hstop, hapart⟩ := hgranted start rfl _ hasks
        obtain ⟨-, hpages, hdvd⟩ := le_alignUp_pageSize hpos
        obtain ⟨block, hblock⟩ : ∃ block : Span, block =
          ⟨start, (alignUp (alignUp size 8 + 16) pageSize).toNat⟩ := ⟨_, rfl⟩
        rw [← hblock] at hfirst hstop hapart
        have hlen : (alignUp (alignUp size 8 + 16) pageSize).toNat = block.len := hblock ▸ rfl
        have hbegin : start = block.start := hblock ▸ rfl
        subst hbegin
        rw [hlen] at hpages hdvd hasks
        obtain ⟨heap', hdone, hholds, hwithin⟩ := allocateHuge_holds holds hlen
          ⟨hstart, (by decide : headerSize + minBlockSize ≤ 4096).trans hpages, hstop,
            (by decide : 8 ∣ 4096).trans hfirst, hdvd⟩ hfirst hapart
        refine ⟨heap', _, _, congrArg some hdone, hholds, ⟨List.Subset.refl _,
          List.subset_cons_self .., fun regions hperm => ?_, Or.inr ⟨block, rfl,
            List.perm_middle.symm, hlen ▸ le_hugeSize hrounds hpos,
            not_denied_of_some rfl hasks⟩⟩, fun other hother => hwithin.sameData ?_⟩
        · rw [taking_some rfl hasks]
          exact (hperm.cons block).trans List.perm_middle.symm
        · have hnew := hholds.laid
          refine List.forall_mem_singleton.mpr (Or.inl ?_)
          refine (hholds.fits block (by simp)).apart_header ?_
          rcases List.mem_append.mp hother with hlive | hhuge
          · exact hnew.apart_huge (by simp [hlive]) block List.mem_cons_self
          · exact ((List.pairwise_cons.mp hnew.huge_apart).1 other hhuge).symm
  · rw [if_neg hlarge] at hnull ⊢
    obtain ⟨hfits, -⟩ := List.forall_mem_append.mp holds.fits
    obtain ⟨found, hfound, hwhich⟩ := @findBest_eq heap.memory heap.freeBlocks 0 loopBound
      (alignUp size 8).toNat free (0, 0) holds.free hfits
      (length_lt_loopBound hfits (holds.laid.sorted.imp Or.inl))
    rcases hwhich with rfl | ⟨before, block, after, rfl, rfl, hroom⟩
    · have hasks : asks heap size = some defaultLargeBlockSize := by
        rw [asks_small hsize hlarge, hfound]
        exact if_pos rfl
      cases region with
      | none =>
          refine hnull (Or.inr ⟨hasks ▸ rfl, rfl⟩) ?_
          unfold allocateSmall
          rw [hfound]
          rfl
      | some start =>
          obtain ⟨hstart, hfirst, -, hstop, hapart⟩ := hgranted start rfl _ hasks
          have hroom : headerSize + (alignUp size 8).toNat ≤ defaultLargeBlockSize := by
            have hsmall : (alignUp size 8).toNat < 4096 := Nat.lt_of_not_le hlarge
            unfold headerSize defaultLargeBlockSize
            omega
          have hslab : Fits ⟨start, defaultLargeBlockSize⟩ := ⟨hstart,
            (by decide : headerSize + minBlockSize ≤ defaultLargeBlockSize), hstop,
            (by decide : 8 ∣ 4096).trans hfirst, (by decide : 8 ∣ defaultLargeBlockSize)⟩
          obtain ⟨inserted, heap', free', hinsert, hdone, hholds, hwithin⟩ :=
            takeSlab_holds holds hslab rfl hapart hwanted hroom
          refine ⟨heap', _, _, ?_, hholds, ⟨List.subset_cons_self .., List.Subset.refl _,
            fun regions hperm => ?_, Or.inr ⟨taken ⟨start, defaultLargeBlockSize⟩
              (alignUp size 8).toNat, by rw [start_taken], List.Perm.refl _,
              (Nat.add_le_add_left hmore _).trans (fits_taken hslab hwanted hroom).2.1,
              not_denied_of_some rfl hasks⟩⟩, fun other hother => hwithin.sameData ?_⟩
          · unfold allocateSmall
            rw [hfound]
            show (do
              let inserted ← insertBlock { heap with
                memory := setSize (setNext heap.memory start 0) start defaultLargeBlockSize } start
              return takeBlock inserted.1 start inserted.2 (alignUp size 8).toNat) = _
            rw [hinsert]
            exact congrArg some hdone
          · rw [@taking_some _ _ _ _ ⟨start, defaultLargeBlockSize⟩ rfl hasks]
            exact hperm.cons _
          · obtain ⟨hslabs, hlarge⟩ := List.forall_mem_append.mp hapart
            refine List.forall_mem_cons.mpr ⟨Or.inl ?_, fun span hspan =>
              Or.inl (holds.laid.apart_free hother span hspan)⟩
            rcases List.mem_append.mp hother with hlive | hhuge
            · exact (holds.laid.tiles.apart_of_regions holds.laid.slabs_pos hslab.len_pos hslabs
                (List.mem_append_right _ hlive)).symm
            · exact (hlarge other hhuge).symm
    · have hblock := hfits block (by simp)
      obtain ⟨heap', hdone, hholds, hwithin⟩ := takeFound_holds holds hwanted hroom
      have hpos : block.start ≠ 0 := Nat.pos_iff_ne_zero.mp hblock.start_pos
      have hasks : asks heap size = none := by
        rw [asks_small hsize hlarge, hfound]
        exact if_neg fun h => hpos (Option.some.inj h)
      refine ⟨heap', _, _, ?_, hholds, ⟨List.subset_cons_self .., List.Subset.refl _,
        fun regions hperm => by rwa [taking_of_asks hasks],
        Or.inr ⟨taken block (alignUp size 8).toNat, by rw [start_taken], List.Perm.refl _,
          (Nat.add_le_add_left hmore _).trans (fits_taken hblock hwanted hroom).2.1,
          not_denied_of_none hsize hasks⟩⟩, fun other hother => hwithin.sameData
            fun span hspan => Or.inl (holds.laid.apart_free hother span ?_)⟩
      · unfold allocateSmall
        rw [hfound]
        exact (if_pos hpos).trans (congrArg some hdone)
      · simp only [List.mem_append, List.mem_cons, List.not_mem_nil, or_false] at hspan ⊢
        tauto

end Allocate

/-! ## `free` and `get_size_of_allocation` -/

section Free

variable {heap : Heap} {blocks : Blocks} {block other : Span}

/-- The pointer to the data of a small block is that of no huge one. -/
theorem findHuge_live (holds : heap.Holds blocks) (hblock : block ∈ blocks.live) :
    ∃ previous, findHuge heap.memory (block.start + headerSize) loopBound 0 heap.hugeBlockHead =
      some (previous, 0) := by
  have hfits : ∀ other ∈ blocks.huge, Fits other := fun other hother =>
    holds.fits other (by simp [hother])
  rcases findHuge_eq holds.huge hfits (length_lt_loopBound hfits holds.laid.huge_apart) with
    ⟨before, other, after, hhuge, hptr, -⟩ | ⟨-, hfound⟩
  · have hother : other ∈ blocks.huge := by simp [hhuge]
    exact absurd (Nat.add_right_cancel hptr) ((holds.fits block (by simp [hblock])).start_ne
      (hfits other hother) (holds.laid.apart_huge (by simp [hblock]) other hother))
  · exact hfound

/-- That of a huge one is found. -/
theorem findHuge_huge (holds : heap.Holds blocks) (hblock : block ∈ blocks.huge) :
    ∃ before after, blocks.huge = before ++ block :: after ∧
      findHuge heap.memory (block.start + headerSize) loopBound 0 heap.hugeBlockHead =
        some (lastOf before 0, block.start) := by
  have hfits : ∀ other ∈ blocks.huge, Fits other := fun other hother =>
    holds.fits other (by simp [hother])
  rcases findHuge_eq holds.huge hfits (length_lt_loopBound hfits holds.laid.huge_apart) with
    ⟨before, other, after, hhuge, hptr, hfound⟩ | ⟨hnone, -⟩
  · have hother : other ∈ blocks.huge := by simp [hhuge]
    have hsame : block = other := by
      by_contra hne
      exact (hfits block hblock).start_ne (hfits other hother)
        (holds.laid.huge_apart.forall hblock hother hne) (Nat.add_right_cancel hptr)
    exact ⟨before, after, hsame ▸ hhuge, hsame ▸ hfound⟩
  · exact absurd rfl (hnone block hblock)

theorem released_huge (holds : heap.Holds blocks) (hblock : block ∈ blocks.huge) :
    released heap (block.start + headerSize) = some block := by
  obtain ⟨before, after, -, hfound⟩ := findHuge_huge holds hblock
  have hpos : block.start ≠ 0 :=
    Nat.pos_iff_ne_zero.mp (holds.fits block (by simp [hblock])).start_pos
  rw [released, hfound, Option.bind_some, if_pos hpos, holds.huge.sizes block hblock]

theorem released_live (holds : heap.Holds blocks) (hblock : block ∈ blocks.live) :
    released heap (block.start + headerSize) = none := by
  obtain ⟨previous, hfound⟩ := findHuge_live holds hblock
  rw [released, hfound, Option.bind_some, if_neg fun h => h rfl]

theorem released_null (holds : heap.Holds blocks) : released heap 0 = none := by
  have hfits : ∀ other ∈ blocks.huge, Fits other := fun other hother =>
    holds.fits other (by simp [hother])
  rcases @findHuge_eq _ _ 0 _ _ 0 holds.huge hfits
    (length_lt_loopBound hfits holds.laid.huge_apart) with
    ⟨_, block, _, -, hptr, -⟩ | ⟨-, previous, hfound⟩
  · exact absurd hptr.symm (Nat.succ_ne_zero _)
  · rw [released, hfound, Option.bind_some, if_neg fun h => h rfl]

theorem inRange_of_holds (holds : heap.Holds blocks) (hblock : block ∈ blocks.live ++ blocks.huge) :
    block.start + headerSize ≠ 0 ∧ heap.inRange (block.start + headerSize) = true :=
  ⟨Nat.succ_ne_zero _, (holds.tracked block hblock).2⟩

theorem free_live_eq (holds : heap.Holds blocks) (hblock : block ∈ blocks.live) :
    Allocator.free heap (block.start + headerSize) =
      freeSmall heap (block.start + headerSize) := by
  obtain ⟨previous, hfound⟩ := findHuge_live holds hblock
  obtain ⟨hptr, hrange⟩ := inRange_of_holds holds (List.mem_append_left _ hblock)
  unfold Allocator.free
  rw [if_neg hptr, if_pos hrange, hfound, Option.bind_eq_bind, Option.bind_some,
    if_neg fun h => h rfl]

/-- **`free`** leaves a heap that holds without the block, and the data of the others. -/
theorem free_holds (holds : heap.Holds blocks) (hblock : block ∈ blocks.live ++ blocks.huge)
    (hsane : block ∈ blocks.live → Sane block) :
    ∃ heap' blocks', Allocator.free heap (block.start + headerSize) = some heap' ∧
      heap'.Holds blocks' ∧
      (block :: (blocks'.live ++ blocks'.huge)).Perm (blocks.live ++ blocks.huge) ∧
      (∀ regions, regions.Perm (blocks.slabs ++ blocks.huge) →
        (giving regions heap (block.start + headerSize)).Perm (blocks'.slabs ++ blocks'.huge)) ∧
      ∀ other ∈ blocks.live ++ blocks.huge, other.Apart block →
        SameData other heap.memory heap'.memory := by
  have hfits := holds.fits
  rcases List.mem_append.mp hblock with hlive | hhuge
  · have hdone := free_live_eq holds hlive
    have hnone := released_live holds hlive
    obtain ⟨free, live, huge, slabs⟩ := blocks
    have hperm : live.Perm (block :: live.erase block) := List.perm_cons_erase hlive
    obtain ⟨memory, first, free', hfreed, hholds, hwithin⟩ :=
      freeSmall_holds (holds.perm hperm) (hsane hlive)
    refine ⟨_, _, hdone.trans hfreed, hholds, (hperm.append_right huge).symm,
      fun regions hregions => ?_, fun other hother hapart => hwithin.sameData ?_⟩
    · rw [giving, hnone]
      exact hregions
    · exact List.forall_mem_cons.mpr ⟨Or.inl hapart, fun span hspan =>
        Or.inl (holds.laid.apart_free hother span hspan)⟩
  · have hreleased := released_huge holds hhuge
    obtain ⟨before, after, hsplit, hfound⟩ := findHuge_huge holds hhuge
    obtain ⟨hptr, hrange⟩ := inRange_of_holds holds hblock
    have hpos : block.start ≠ 0 :=
      Nat.pos_iff_ne_zero.mp (hfits block (List.mem_append_right _ hblock)).start_pos
    obtain ⟨free, live, huge, slabs⟩ := blocks
    cases hsplit
    obtain ⟨memory, first, hdone, hholds, hwithin⟩ := removeHuge_holds holds
    have hmiddle (front : List Span) :
        (front ++ (before ++ block :: after)).Perm (block :: (front ++ (before ++ after))) := by
      rw [← List.append_assoc, ← List.append_assoc]
      exact List.perm_middle
    refine ⟨_, _, ?_, hholds, (hmiddle live).symm, fun regions hregions => ?_,
      fun other hother _ => hwithin.sameData (List.forall_mem_map.mpr fun span hspan => ?_)⟩
    · unfold Allocator.free
      rw [if_neg hptr, if_pos hrange, hfound]
      exact (if_pos hpos).trans (congrArg some hdone)
    · rw [giving, hreleased]
      exact (List.cons_perm_iff_perm_erase.mp (hregions.trans (hmiddle slabs)).symm).2.symm
    · have hmem : span ∈ free ++ (live ++ (before ++ block :: after)) := by simp [hspan]
      rcases holds.laid.eq_or_apart (List.mem_append_right _ hother) hmem with rfl | hapart
      · exact Or.inr rfl
      · exact Or.inl ((hfits span hmem).apart_header hapart)

theorem free_live_fails (holds : heap.Holds blocks) (hblock : block ∈ blocks.live)
    (hinsane : ¬ Sane block) :
    Allocator.free heap (block.start + headerSize) = none := by
  have hinsane : sizeSane heap.memory block.start = false :=
    (sizeSane_eq (holds.live block hblock)).trans (decide_eq_false hinsane)
  rw [free_live_eq holds hblock, freeSmall, Nat.add_sub_cancel, hinsane]
  rfl

theorem getSizeOfAllocation_huge (holds : heap.Holds blocks) (hblock : block ∈ blocks.huge) :
    getSizeOfAllocation heap (block.start + headerSize) = some (block.len - headerSize) := by
  obtain ⟨before, after, hhuge, hfound⟩ := findHuge_huge holds hblock
  obtain ⟨hptr, hrange⟩ := inRange_of_holds holds (List.mem_append_right _ hblock)
  have hpos : block.start ≠ 0 :=
    Nat.pos_iff_ne_zero.mp (holds.fits block (by simp [hblock])).start_pos
  unfold getSizeOfAllocation
  rw [if_neg hptr, if_pos hrange, hfound]
  refine (if_pos hpos).trans (congrArg some ?_)
  rw [dataSize, holds.huge.sizes block hblock]

theorem getSizeOfAllocation_live (holds : heap.Holds blocks) (hblock : block ∈ blocks.live) :
    getSizeOfAllocation heap (block.start + headerSize) =
      if Sane block then some (block.len - headerSize) else none := by
  obtain ⟨previous, hfound⟩ := findHuge_live holds hblock
  obtain ⟨hptr, hrange⟩ := inRange_of_holds holds (List.mem_append_left _ hblock)
  have hsane := sizeSane_eq (holds.live block hblock)
  have hsize : dataSize heap.memory block.start = block.len - headerSize := by
    rw [dataSize, holds.live block hblock]
  unfold getSizeOfAllocation
  rw [if_neg hptr, if_pos hrange, hfound, Option.bind_eq_bind, Option.bind_some,
    if_neg fun h => h rfl, Nat.add_sub_cancel, hsize, hsane]
  simp only [decide_eq_true_eq]
  rfl

end Free

end BekOS.Allocator
