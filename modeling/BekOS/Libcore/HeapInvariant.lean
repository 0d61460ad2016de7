import BekOS.Libcore.HeapBlocks
import Mathlib.Data.List.Chain

/-!
# What holds of the user heap

The free blocks and the live ones are what the slabs are cut into, and huge blocks lie apart.  Two
free blocks touch only where a slab ends: what is freed is joined with its neighbours, but a slab is
put into the list as it is.
-/

namespace BekOS.Allocator

/-! ## Spans -/

/-- The blocks of a heap, and the slabs that the small ones are in. -/
structure Blocks where
  free : List Span
  live : List Span
  huge : List Span
  slabs : List Span

/-- A free block lies in front of another; if it touches it, a slab ends there. -/
def Before (slabs : List Span) (block other : Span) : Prop :=
  block.stop < other.start ∨ block.stop = other.start ∧ ∃ slab ∈ slabs, slab.stop = block.stop

/-- How the blocks lie. -/
structure Laid (blocks : Blocks) : Prop where
  tiles : Tiles (blocks.free ++ blocks.live) blocks.slabs
  order : blocks.free.IsChain (Before blocks.slabs)
  fits : ∀ block ∈ blocks.free ++ blocks.live ++ blocks.huge, Fits block
  slabs_pos : ∀ slab ∈ blocks.slabs, 0 < slab.len
  huge_apart : blocks.huge.Pairwise Span.Apart
  huge_slabs : ∀ block ∈ blocks.huge, ∀ slab ∈ blocks.slabs, block.Apart slab
  pages : ∀ block ∈ blocks.huge, 4096 ∣ block.start

section Laid

variable {blocks : Blocks} {slabs slabs' before after free live huge : List Span}
  {block other slab : Span} {wanted : ℕ}

theorem Before.le (h : Before slabs block other) : block.stop ≤ other.start :=
  h.elim Nat.le_of_lt fun h => h.1.le

theorem Before.mono (h : Before slabs block other) (hsubset : slabs ⊆ slabs') :
    Before slabs' block other :=
  h.imp_right fun ⟨htouch, slab, hslab, hstop⟩ => ⟨htouch, slab, hsubset hslab, hstop⟩

theorem sorted_of_chain (horder : free.IsChain (Before slabs)) :
    free.Pairwise fun block other => block.stop ≤ other.start := by
  have htrans : IsTrans Span fun block other => block.stop ≤ other.start :=
    ⟨fun _ _ _ h h' => h.trans ((Nat.le_add_right _ _).trans h')⟩
  exact (horder.imp fun _ _ => Before.le).pairwise

theorem Laid.sorted (laid : Laid blocks) :
    blocks.free.Pairwise fun block other => block.stop ≤ other.start := sorted_of_chain laid.order

theorem Fits.len_pos (h : Fits block) : 0 < block.len := lt_of_lt_of_le (by decide) h.room

theorem Laid.apart_small (laid : Laid blocks) (hblock : block ∈ blocks.huge)
    (hother : other ∈ blocks.free ++ blocks.live) : block.Apart other :=
  laid.tiles.apart_of_regions laid.slabs_pos (laid.fits block (by simp [hblock])).len_pos
    (laid.huge_slabs block hblock) hother

theorem Laid.apart_huge (laid : Laid blocks) (hother : other ∈ blocks.free ++ blocks.live) :
    ∀ block ∈ blocks.huge, other.Apart block :=
  fun _ hblock => (laid.apart_small hblock hother).symm

theorem Laid.apart (laid : Laid blocks) :
    (blocks.free ++ (blocks.live ++ blocks.huge)).Pairwise Span.Apart := by
  rw [← List.append_assoc]
  exact List.pairwise_append.mpr ⟨laid.tiles.apart, laid.huge_apart,
    fun _ hsmall _ hhuge => (laid.apart_small hhuge hsmall).symm⟩

theorem Laid.apart_free (laid : Laid blocks) (hother : other ∈ blocks.live ++ blocks.huge) :
    ∀ block ∈ blocks.free, other.Apart block := fun block hblock =>
  ((List.pairwise_append.mp laid.apart).2.2 block hblock other hother).symm

theorem Laid.eq_or_apart (laid : Laid blocks)
    (hblock : block ∈ blocks.free ++ (blocks.live ++ blocks.huge))
    (hother : other ∈ blocks.free ++ (blocks.live ++ blocks.huge)) :
    block = other ∨ block.Apart other :=
  or_iff_not_imp_left.mpr (laid.apart.forall hblock hother)

/-- The order of the live blocks does not matter. -/
theorem Laid.perm (laid : Laid blocks) (hperm : blocks.live.Perm live) :
    Laid { blocks with live } where
  tiles := laid.tiles.perm (hperm.append_left _)
  order := laid.order
  fits block hblock := laid.fits block (by simpa [hperm.mem_iff] using hblock)
  slabs_pos := laid.slabs_pos
  huge_apart := laid.huge_apart
  huge_slabs := laid.huge_slabs
  pages := laid.pages

/-! ### Cutting -/

/-- A block is cut in two tiles, or is one. -/
theorem tiles_cut {spans : List Span} (h : Tiles (block :: spans) slabs) :
    Tiles (taken block wanted :: (remainder block wanted ++ spans)) slabs := by
  unfold taken remainder
  split_ifs with hcut
  · unfold CanCut headerSize minBlockSize at hcut
    have hjoins : Span.Joins ⟨block.start, headerSize + wanted⟩
        ⟨block.start + (headerSize + wanted), block.len - headerSize - wanted⟩ block := by
      refine ⟨rfl, rfl, ?_⟩
      unfold Span.stop headerSize
      dsimp only
      omega
    refine (tiles_join_iff hjoins (Nat.add_pos_left (by decide) _) ?_).mp h
    unfold headerSize
    dsimp only
    omega
  · exact h

/-- The list without what was taken of a block. -/
theorem chain_cut (hfront : before.IsChain (Before slabs)) (hback : after.IsChain (Before slabs))
    (hblock : Fits block) (hwanted : Wanted wanted)
    (hbefore : ∀ other ∈ before, other.stop ≤ block.start)
    (hafter : ∀ other ∈ after.head?, Before slabs block other) :
    (before ++ (remainder block wanted ++ after)).IsChain (Before slabs) := by
  have hrest := remainder_inside hblock hwanted
  have hlen := hblock.len_pos
  unfold remainder at hrest ⊢
  split_ifs at hrest ⊢ with hcut
  · obtain ⟨hstart, hend⟩ := List.forall_mem_singleton.mp hrest
    refine List.isChain_append.mpr ⟨hfront, List.isChain_cons.mpr ⟨fun other hother => ?_, hback⟩,
      fun other hother first hfirst => ?_⟩
    · have := hafter other hother
      unfold Before at *
      rwa [hend]
    · cases hfirst
      exact Or.inl ((hbefore other (List.mem_of_mem_getLast? hother)).trans_lt
        (lt_of_lt_of_le (Nat.lt_add_of_pos_right (show 0 < headerSize by decide)) hstart))
  · refine List.isChain_append.mpr ⟨hfront, hback, fun other hother next hnext => ?_⟩
    have hle := hbefore other (List.mem_of_mem_getLast? hother)
    have hle' := (hafter next hnext).le
    unfold Span.stop at *
    exact Or.inl (by unfold Span.stop; omega)

/-- The blocks with one taken that is a tile, and lies between those in front and those behind. -/
theorem laid_cut (htiles : Tiles (block :: (before ++ (after ++ live))) slabs)
    (hfront : before.IsChain (Before slabs)) (hback : after.IsChain (Before slabs))
    (hbefore : ∀ other ∈ before, other.stop ≤ block.start)
    (hafter : ∀ other ∈ after.head?, Before slabs block other)
    (hfits : ∀ other ∈ block :: (before ++ after ++ live ++ huge), Fits other)
    (hpos : ∀ slab ∈ slabs, 0 < slab.len) (huge_apart : huge.Pairwise Span.Apart)
    (huge_slabs : ∀ block ∈ huge, ∀ slab ∈ slabs, block.Apart slab)
    (pages : ∀ block ∈ huge, 4096 ∣ block.start) (hwanted : Wanted wanted)
    (hroom : headerSize + wanted ≤ block.len) :
    Laid ⟨before ++ (remainder block wanted ++ after), taken block wanted :: live, huge,
      slabs⟩ := by
  obtain ⟨hblock, hothers⟩ := List.forall_mem_cons.mp hfits
  refine ⟨(@tiles_cut _ _ wanted _ htiles).perm ?_,
    chain_cut hfront hback hblock hwanted hbefore hafter, fun other hother => ?_, hpos, huge_apart,
    huge_slabs, pages⟩
  · refine List.Perm.trans (List.Perm.cons _ ?_) List.perm_middle.symm
    rw [List.append_assoc, List.append_assoc]
    exact List.perm_append_comm_assoc ..
  · have hcases : other ∈ remainder block wanted ∨ other = taken block wanted ∨
        other ∈ before ++ after ++ live ++ huge := by
      simp only [List.mem_append, List.mem_cons] at hother ⊢
      tauto
    rcases hcases with hrest | rfl | hold
    · exact (fits_remainder hblock hwanted other hrest).1
    · exact (fits_taken hblock hwanted hroom).1
    · exact hothers other hold

/-- **Taking** a free block, or the front of it. -/
theorem Laid.take (laid : Laid ⟨before ++ block :: after, live, huge, slabs⟩)
    (hwanted : Wanted wanted) (hroom : headerSize + wanted ≤ block.len) :
    Laid ⟨before ++ (remainder block wanted ++ after), taken block wanted :: live, huge,
      slabs⟩ := by
  obtain ⟨hfront, hbehind, -⟩ := List.isChain_append.mp laid.order
  obtain ⟨hhead, hback⟩ := List.isChain_cons.mp hbehind
  refine laid_cut (laid.tiles.perm ?_) hfront hback (fun other hother =>
    (List.pairwise_append.mp laid.sorted).2.2 other hother block List.mem_cons_self) hhead
    (fun other hother => laid.fits other ?_) laid.slabs_pos laid.huge_apart laid.huge_slabs
    laid.pages hwanted hroom
  · rw [List.append_assoc]
    exact List.perm_middle
  · simp only [List.mem_append, List.mem_cons] at hother ⊢
    tauto

/-- **A new slab**, of which the front is taken. -/
theorem Laid.takeSlab (laid : Laid ⟨before ++ after, live, huge, slabs⟩)
    (hslab : Fits slab) (hapart : ∀ other ∈ slabs ++ huge, slab.Apart other)
    (hbefore : ∀ other ∈ before, other.stop ≤ slab.start)
    (hafter : ∀ other ∈ after, slab.stop ≤ other.start)
    (hwanted : Wanted wanted) (hroom : headerSize + wanted ≤ slab.len) :
    Laid ⟨before ++ (remainder slab wanted ++ after), taken slab wanted :: live, huge,
      slab :: slabs⟩ := by
  obtain ⟨hslabs, hhuge⟩ := List.forall_mem_append.mp hapart
  obtain ⟨hfront, hback, -⟩ := List.isChain_append.mp laid.order
  have hmono : ∀ block other, Before slabs block other → Before (slab :: slabs) block other :=
    fun _ _ h => h.mono (List.subset_cons_self ..)
  have htiles := laid.tiles.cons hslab.len_pos fun other hother =>
    laid.tiles.apart_of_regions laid.slabs_pos hslab.len_pos hslabs hother
  rw [List.append_assoc] at htiles
  refine laid_cut htiles (hfront.imp hmono) (hback.imp hmono) hbefore (fun other hother => ?_)
    (List.forall_mem_cons.mpr ⟨hslab, laid.fits⟩) (List.forall_mem_cons.mpr ⟨hslab.len_pos,
      laid.slabs_pos⟩) laid.huge_apart (fun block hblock => List.forall_mem_cons.mpr
        ⟨(hhuge block hblock).symm, laid.huge_slabs block hblock⟩) laid.pages hwanted hroom
  exact (Nat.eq_or_lt_of_le (hafter other (List.mem_of_mem_head? hother))).elim
    (fun htouch => Or.inr ⟨htouch, slab, List.mem_cons_self, rfl⟩) Or.inl

/-- **A huge block** of its own. -/
theorem Laid.addHuge (laid : Laid ⟨free, live, huge, slabs⟩) (hblock : Fits block)
    (hpage : 4096 ∣ block.start) (hapart : ∀ other ∈ slabs ++ huge, block.Apart other) :
    Laid ⟨free, live, block :: huge, slabs⟩ := by
  obtain ⟨hslabs, hhuge⟩ := List.forall_mem_append.mp hapart
  obtain ⟨hsmall, hlarge⟩ := List.forall_mem_append.mp laid.fits
  exact ⟨laid.tiles, laid.order, List.forall_mem_append.mpr ⟨hsmall, List.forall_mem_cons.mpr
    ⟨hblock, hlarge⟩⟩, laid.slabs_pos, List.pairwise_cons.mpr ⟨hhuge, laid.huge_apart⟩,
    List.forall_mem_cons.mpr ⟨hslabs, laid.huge_slabs⟩,
    List.forall_mem_cons.mpr ⟨hpage, laid.pages⟩⟩

/-- And without one. -/
theorem Laid.removeHuge (laid : Laid ⟨free, live, before ++ block :: after, slabs⟩) :
    Laid ⟨free, live, before ++ after, slabs⟩ := by
  have hsublist : (before ++ after).Sublist (before ++ block :: after) :=
    (List.sublist_cons_self block after).append_left before
  obtain ⟨hsmall, hlarge⟩ := List.forall_mem_append.mp laid.fits
  exact ⟨laid.tiles, laid.order, List.forall_mem_append.mpr ⟨hsmall, fun other hother =>
    hlarge other (hsublist.subset hother)⟩, laid.slabs_pos, laid.huge_apart.sublist hsublist,
    fun other hother => laid.huge_slabs other (hsublist.subset hother),
    fun other hother => laid.pages other (hsublist.subset hother)⟩

/-! ### Joining -/

/-- The list with a block back between its neighbours. -/
def joinAround (before : List Span) (block : Span) (after : List Span) : List Span :=
  match before.getLast? with
  | none => joinNext block after
  | some last => before.dropLast ++ joinNext last (joinNext block after)

theorem joinAround_concat : joinAround (before ++ [other]) block after =
    before ++ joinNext other (joinNext block after) := by
  rw [joinAround, List.getLast?_concat, List.dropLast_concat]

theorem joinNext_head : ∀ first ∈ (joinNext block after).head?, first.start = block.start := by
  cases after with
  | nil =>
      rintro first ⟨⟩
      rfl
  | cons other after =>
      rw [joinNext]
      split_ifs <;> rintro first ⟨⟩ <;> rfl

theorem headD_joinNext : ((joinNext block after).map Span.start).headD 0 = block.start := by
  cases after with
  | nil => rfl
  | cons other after =>
      rw [joinNext]
      split_ifs <;> rfl

theorem joins_of_touch (htouch : block.stop = other.start) :
    Span.Joins block other ⟨block.start, block.len + other.len⟩ :=
  ⟨rfl, htouch, by unfold Span.stop at *; dsimp only; omega⟩

theorem sorted_joinNext
    (h : (before ++ block :: after).Pairwise fun block other => block.stop ≤ other.start) :
    (before ++ joinNext block after).Pairwise fun block other => block.stop ≤ other.start := by
  cases after with
  | nil => exact h
  | cons other after =>
      rw [joinNext]
      split_ifs with htouch
      · obtain ⟨hfront, hbehind, hcross⟩ := List.pairwise_append.mp h
        obtain ⟨hsecond, hlast⟩ := List.pairwise_cons.mp (List.pairwise_cons.mp hbehind).2
        have hstop := (joins_of_touch htouch).last
        refine List.pairwise_append.mpr ⟨hfront, List.pairwise_cons.mpr
          ⟨fun later hlater => hstop.ge.trans (hsecond later hlater), hlast⟩,
          fun earlier hearlier => List.forall_mem_cons.mpr
            ⟨hcross earlier hearlier block List.mem_cons_self, fun later hlater => ?_⟩⟩
        exact hcross earlier hearlier later (by simp [hlater])
      · exact h

theorem chain_joinNext (hchain : after.IsChain (Before slabs))
    (hle : ∀ other ∈ after, block.stop ≤ other.start) :
    (joinNext block after).IsChain (Before slabs) := by
  cases after with
  | nil => exact List.isChain_singleton _
  | cons other after =>
      obtain ⟨hhead, htail⟩ := List.isChain_cons.mp hchain
      rw [joinNext]
      split_ifs with htouch
      · refine List.isChain_cons.mpr ⟨fun next hnext => ?_, htail⟩
        have := hhead next hnext
        unfold Before at *
        rwa [← (joins_of_touch htouch).last]
      · exact List.isChain_cons_cons.mpr
          ⟨Or.inl (Nat.lt_of_le_of_ne (hle other List.mem_cons_self) htouch), hchain⟩

theorem tiles_joinNext {spans : List Span} (h : Tiles (block :: after ++ spans) slabs) :
    Tiles (joinNext block after ++ spans) slabs := by
  cases after with
  | nil => exact h
  | cons other after =>
      rw [joinNext]
      split_ifs with htouch
      · exact (tiles_join_iff (joins_of_touch htouch) (h.pos block (by simp))
          (h.pos other (by simp))).mpr h
      · exact h

theorem fits_joinNext (hfits : ∀ other ∈ block :: after, Fits other) :
    ∀ other ∈ joinNext block after, Fits other := by
  cases after with
  | nil => exact hfits
  | cons other after =>
      rw [joinNext]
      split_ifs with htouch
      · obtain ⟨hblock, hrest⟩ := List.forall_mem_cons.mp hfits
        obtain ⟨hother, hafter⟩ := List.forall_mem_cons.mp hrest
        exact List.forall_mem_cons.mpr ⟨⟨hblock.start_pos, hblock.room.trans (Nat.le_add_right _ _),
          (joins_of_touch htouch).last.symm.trans_le hother.stop_le, hblock.start_dvd,
          Nat.dvd_add hblock.len_dvd hother.len_dvd⟩, hafter⟩
      · exact hfits

/-- **Giving back** a live block. -/
theorem Laid.giveBack (laid : Laid ⟨before ++ after, block :: live, huge, slabs⟩)
    (hbefore : ∀ other ∈ before, other.stop ≤ block.start)
    (hafter : ∀ other ∈ after, block.stop ≤ other.start) :
    Laid ⟨joinAround before block after, live, huge, slabs⟩ := by
  obtain ⟨hfront, hback, -⟩ := List.isChain_append.mp laid.order
  have hchain := chain_joinNext hback hafter
  obtain ⟨hsmall, hlarge⟩ := List.forall_mem_append.mp laid.fits
  have hjoined := @fits_joinNext after block (List.forall_mem_cons.mpr ⟨hsmall block (by simp),
    fun other hother => hsmall other (by simp [hother])⟩)
  have htiles : Tiles (joinNext block after ++ (before ++ live)) slabs := by
    refine tiles_joinNext (laid.tiles.perm (List.perm_middle.trans (List.Perm.cons _ ?_)))
    rw [List.append_assoc]
    exact List.perm_append_comm_assoc ..
  have hreplace {free : List Span} (tiles : Tiles (free ++ live) slabs)
      (order : free.IsChain (Before slabs)) (hfits : ∀ other ∈ free, Fits other) :
      Laid ⟨free, live, huge, slabs⟩ :=
    ⟨tiles, order, List.forall_mem_append.mpr ⟨List.forall_mem_append.mpr ⟨hfits,
      fun other hother => hsmall other (by simp [hother])⟩, hlarge⟩, laid.slabs_pos,
      laid.huge_apart, laid.huge_slabs, laid.pages⟩
  rcases List.eq_nil_or_concat' before with rfl | ⟨front, last, rfl⟩
  · exact hreplace htiles hchain hjoined
  · rw [joinAround_concat]
    have hle : ∀ other ∈ joinNext block after, last.stop ≤ other.start := by
      have hsorted := @sorted_joinNext [] after block (List.pairwise_cons.mpr
        ⟨hafter, sorted_of_chain hback⟩)
      have hfirst := @joinNext_head after block
      cases hjoin : joinNext block after with
      | nil => exact List.forall_mem_nil _
      | cons first rest =>
          rw [List.nil_append, hjoin] at hsorted
          rw [hjoin] at hfirst
          have hstart := (hbefore last (by simp)).trans_eq (hfirst first rfl).symm
          exact List.forall_mem_cons.mpr ⟨hstart, fun later hlater => hstart.trans
            ((Nat.le_add_right _ _).trans ((List.pairwise_cons.mp hsorted).1 later hlater))⟩
    refine hreplace ?_ ?_ ?_
    · refine (@tiles_joinNext slabs (joinNext block after) last (front ++ live)
        (htiles.perm ?_)).perm ?_
      · rw [List.append_assoc, List.singleton_append]
        exact (List.perm_middle.append_left _).trans List.perm_middle
      · rw [List.append_assoc]
        exact List.perm_append_comm_assoc ..
    · obtain ⟨hfront', -, hcross⟩ := List.isChain_append.mp hfront
      refine List.isChain_append.mpr ⟨hfront', chain_joinNext hchain hle,
        fun other hother next hnext => ?_⟩
      have := hcross other hother last rfl
      unfold Before at *
      rwa [joinNext_head next hnext]
    · exact List.forall_mem_append.mpr ⟨fun other hother => hsmall other (by simp [hother]),
        fits_joinNext (List.forall_mem_cons.mpr ⟨hsmall last (by simp), hjoined⟩)⟩

end Laid

/-! ## The heap -/

/-- The lists of a heap are those of its blocks, and every block that is live has its size in its
header and its data in the range that is tracked. -/
structure Heap.Holds (heap : Heap) (blocks : Blocks) : Prop where
  laid : Laid blocks
  free : Listed heap.memory heap.freeBlocks blocks.free 0
  huge : Listed heap.memory heap.hugeBlockHead blocks.huge 0
  live : ∀ block ∈ blocks.live, size heap.memory block.start = block.len
  tracked : ∀ block ∈ blocks.live ++ blocks.huge,
    0 < heap.heapStart ∧ heap.inRange (block.start + headerSize)

section Holds

variable {heap : Heap} {blocks : Blocks} {memory memory' : Memory Byte} {first wanted : ℕ}
  {free live huge slabs spans before after : List Span} {block slab : Span}

theorem Within.size_eq (hwithin : Within spans memory memory') (hfits : Fits block)
    (hapart : ∀ span ∈ spans, block.Apart span) :
    size memory' block.start = size memory block.start :=
  (hwithin.header fun span hspan => (hfits.apart_header (hapart span hspan).symm).symm).2

theorem Heap.Holds.perm (holds : heap.Holds blocks) (hperm : blocks.live.Perm live) :
    heap.Holds { blocks with live } where
  laid := holds.laid.perm hperm
  free := holds.free
  huge := holds.huge
  live block hblock := holds.live block (hperm.mem_iff.mpr hblock)
  tracked block hblock := holds.tracked block (by simpa [hperm.mem_iff] using hblock)

theorem Heap.Holds.fits (holds : heap.Holds blocks) :
    ∀ block ∈ blocks.free ++ (blocks.live ++ blocks.huge), Fits block := by
  rw [← List.append_assoc]
  exact holds.laid.fits

/-- What lies apart from all that has changed is as it was. -/
theorem Heap.Holds.frame (holds : heap.Holds blocks) (hwithin : Within spans heap.memory memory) :
    ((∀ other ∈ blocks.free, ∀ span ∈ spans, other.Apart span) →
        Listed memory heap.freeBlocks blocks.free 0) ∧
      ((∀ other ∈ blocks.huge, ∀ span ∈ spans, other.Apart span) →
        Listed memory heap.hugeBlockHead blocks.huge 0) ∧
      ∀ other ∈ blocks.live, (∀ span ∈ spans, other.Apart span) →
        size memory other.start = other.len := by
  have hfits := holds.fits
  refine ⟨holds.free.frame hwithin fun other hother => hfits other (by simp [hother]),
    holds.huge.frame hwithin fun other hother => hfits other (by simp [hother]),
    fun other hother hapart => ?_⟩
  rw [hwithin.size_eq (hfits other (by simp [hother])) hapart, holds.live other hother]

/-- The check that is made of a small block. -/
def Sane (block : Span) : Prop :=
  headerSize + minBlockSize ≤ block.len ∧ block.len < headerSize + 4096
deriving Decidable

theorem sizeSane_eq (hsize : size memory block.start = block.len) :
    sizeSane memory block.start = decide (Sane block) := by
  have hpage : sizeForSeparateLargeBlock.toNat = 4096 := rfl
  unfold sizeSane dataSize Sane headerSize minBlockSize
  rw [hsize, hpage]
  exact decide_eq_decide.mpr (by omega)

/-! ### Giving back -/

theorem freeSmall_of_insert {start previous : ℕ} {inserted : Heap}
    (hsane : sizeSane heap.memory start = true)
    (hinsert : insertBlock heap start = some (inserted, previous)) :
    freeSmall heap (start + headerSize) = some { inserted with
      memory :=
        if previous ≠ 0 then
          coalesce (coalesce inserted.memory start (next inserted.memory start)) previous start
        else coalesce inserted.memory start (next inserted.memory start) } := by
  unfold freeSmall
  dsimp only
  rw [Nat.add_sub_cancel, if_pos hsane, hinsert]
  rfl

/-- **`free_small`** puts a block into the list, and joins it with its neighbours. -/
theorem freeSmall_eq (hlisted : Listed heap.memory heap.freeBlocks free 0)
    (hsorted : free.Pairwise fun block other => block.stop ≤ other.start)
    (hfits : ∀ other ∈ block :: free, Fits other) (hapart : ∀ other ∈ free, block.Apart other)
    (hsize : size heap.memory block.start = block.len) (hsane : Sane block) :
    ∃ before after memory first, free = before ++ after ∧
      (∀ other ∈ before, other.stop ≤ block.start) ∧ (∀ other ∈ after, block.stop ≤ other.start) ∧
      freeSmall heap (block.start + headerSize) =
        some { heap with memory, freeBlocks := first } ∧
      Listed memory first (joinAround before block after) 0 ∧
      Within (block :: free) heap.memory memory := by
  obtain ⟨hblock, hfits⟩ := List.forall_mem_cons.mp hfits
  obtain ⟨before, after, memory, first, rfl, hbefore, hafter, hinsert, hinserted, hwithin⟩ :=
    insertBlock_eq hlisted hsorted hfits hblock hapart hsize
  obtain ⟨hfitsFront, hfitsBack⟩ := List.forall_mem_append.mp hfits
  have hall : ∀ other ∈ before ++ block :: after, Fits other :=
    List.forall_mem_append.mpr ⟨hfitsFront, List.forall_mem_cons.mpr ⟨hblock, hfitsBack⟩⟩
  have hwhole : (before ++ block :: after).Pairwise fun block other =>
      block.stop ≤ other.start := by
    obtain ⟨hfront, hback, hcross⟩ := List.pairwise_append.mp hsorted
    exact List.pairwise_append.mpr ⟨hfront, List.pairwise_cons.mpr ⟨hafter, hback⟩,
      fun other hother => List.forall_mem_cons.mpr ⟨hbefore other hother, hcross other hother⟩⟩
  obtain ⟨hnext, hwithinNext⟩ := coalesce_spec hinserted hall (hwhole.imp Or.inl)
  have hwithinNext := hwithin.trans (hwithinNext.subset (List.cons_subset_cons _
    (List.nil_subset _)))
  have hdone := freeSmall_of_insert (sizeSane_eq hsize ▸ decide_eq_true hsane) hinsert
  rcases List.eq_nil_or_concat' before with rfl | ⟨front, last, rfl⟩
  · rw [if_neg fun h => h rfl] at hdone
    exact ⟨[], after, _, first, rfl, hbefore, hafter, hdone, hnext, hwithinNext⟩
  · have hlast := hfitsFront last (by simp)
    have hjoined := sorted_joinNext hwhole
    rw [lastOf_concat, if_pos (Nat.pos_iff_ne_zero.mp hlast.start_pos)] at hdone
    rw [List.append_assoc, List.singleton_append] at hnext hjoined
    obtain ⟨middle, -, hfound⟩ := listed_append.mp hnext
    obtain ⟨-, -, htail⟩ := listed_cons.mp hfound
    have hlead : next (coalesce memory block.start (next memory block.start)) last.start =
        block.start := by
      rw [htail.first_eq]
      exact headD_joinNext
    obtain ⟨hboth, hwithinBoth⟩ := coalesce_spec hnext (List.forall_mem_append.mpr
      ⟨fun other hother => hfitsFront other (by simp [hother]), List.forall_mem_cons.mpr
        ⟨hlast, fits_joinNext (List.forall_mem_cons.mpr ⟨hblock, hfitsBack⟩)⟩⟩)
      (hjoined.imp Or.inl)
    rw [hlead] at hboth hwithinBoth
    refine ⟨front ++ [last], after, _, first, rfl, hbefore, hafter, hdone, ?_,
      hwithinNext.trans (hwithinBoth.subset ?_)⟩
    · rw [joinAround_concat]
      exact hboth
    · simp

/-- **Giving back** a live block: the heap holds without it. -/
theorem freeSmall_holds (holds : heap.Holds ⟨free, block :: live, huge, slabs⟩)
    (hsane : Sane block) :
    ∃ memory first free', freeSmall heap (block.start + headerSize) =
        some { heap with memory, freeBlocks := first } ∧
      Heap.Holds { heap with memory, freeBlocks := first } ⟨free', live, huge, slabs⟩ ∧
      Within (block :: free) heap.memory memory := by
  have laid := holds.laid
  have hfits := holds.fits
  have hfree : ∀ other ∈ block :: (live ++ huge), ∀ span ∈ free, other.Apart span :=
    fun other hother => laid.apart_free hother
  obtain ⟨before, after, memory, first, rfl, hbefore, hafter, hdone, hlisted, hwithin⟩ :=
    freeSmall_eq holds.free laid.sorted (List.forall_mem_cons.mpr ⟨hfits block (by simp),
      fun other hother => hfits other (List.mem_append_left _ hother)⟩) (hfree block (by simp))
      (holds.live block List.mem_cons_self) hsane
  have hothers := List.pairwise_cons.mp (List.pairwise_append.mp laid.apart).2.1
  have hapart : ∀ other ∈ live ++ huge, ∀ span ∈ block :: (before ++ after), other.Apart span :=
    fun other hother => List.forall_mem_cons.mpr ⟨(hothers.1 other hother).symm,
      hfree other (List.mem_cons_of_mem _ hother)⟩
  obtain ⟨-, hhuge, hlive⟩ := holds.frame hwithin
  refine ⟨memory, first, _, hdone, ⟨laid.giveBack hbefore hafter, hlisted, ?_, ?_, ?_⟩, hwithin⟩
  · exact hhuge fun other hother => hapart other (List.mem_append_right _ hother)
  · exact fun other hother => hlive other (List.mem_cons_of_mem _ hother)
      (hapart other (List.mem_append_left _ hother))
  · exact fun other hother => holds.tracked other (List.mem_cons_of_mem _ hother)

/-- **A huge block** is taken out of its list. -/
theorem removeHuge_holds (holds : heap.Holds ⟨free, live, before ++ block :: after, slabs⟩) :
    ∃ memory first, heap.linkHuge (lastOf before 0) (next heap.memory block.start) =
        { heap with memory, hugeBlockHead := first } ∧
      Heap.Holds { heap with memory, hugeBlockHead := first }
        ⟨free, live, before ++ after, slabs⟩ ∧
      Within (headers before) heap.memory memory := by
  have laid := holds.laid.removeHuge
  have hfits := (List.forall_mem_append.mp laid.fits).2
  have hfitsFront := (List.forall_mem_append.mp hfits).1
  obtain ⟨middle, hlead, hfound⟩ := listed_append.mp holds.huge
  obtain ⟨rfl, -, htail⟩ := listed_cons.mp hfound
  obtain ⟨hlisted, hwithin⟩ := hlead.append_link htail hfits laid.huge_apart
  have hapart : ∀ other ∈ free ++ live, ∀ span ∈ headers before, other.Apart span :=
    fun other hother => List.forall_mem_map.mpr fun span hspan =>
      (hfitsFront span hspan).apart_header
        (laid.apart_huge hother span (List.mem_append_left _ hspan))
  obtain ⟨hfree, -, hlive⟩ := holds.frame hwithin
  refine ⟨_, _, linkHuge_eq, ⟨laid, ?_, hlisted, ?_, fun other hother => holds.tracked other ?_⟩,
    hwithin⟩
  · exact hfree fun other hother => hapart other (List.mem_append_left _ hother)
  · exact fun other hother => hlive other hother (hapart other (List.mem_append_right _ hother))
  · simp only [List.mem_append, List.mem_cons] at hother ⊢
    tauto

/-! ### Tracking -/

theorem inRange_updateRange {ptr : ℕ} (hptr : 0 < ptr) :
    0 < (heap.updateRange ptr).heapStart ∧ (heap.updateRange ptr).inRange ptr := by
  unfold Heap.updateRange Heap.inRange
  dsimp only
  rw [decide_eq_true_eq]
  split_ifs <;> omega

theorem inRange_updateRange_of {ptr other : ℕ} (hstart : 0 < heap.heapStart)
    (hother : heap.inRange other) (hptr : 0 < ptr) :
    0 < (heap.updateRange ptr).heapStart ∧ (heap.updateRange ptr).inRange other := by
  unfold Heap.updateRange
  unfold Heap.inRange at *
  dsimp only
  rw [decide_eq_true_eq] at *
  split_ifs <;> omega

theorem tracked_update (h : ∀ other ∈ live, 0 < heap.heapStart ∧
      heap.inRange (other.start + headerSize)) :
    ∀ other ∈ block :: live, 0 < (heap.updateRange (block.start + headerSize)).heapStart ∧
      (heap.updateRange (block.start + headerSize)).inRange (other.start + headerSize) :=
  List.forall_mem_cons.mpr ⟨inRange_updateRange (Nat.succ_pos _), fun other hother =>
    inRange_updateRange_of (h other hother).1 (h other hother).2 (Nat.succ_pos _)⟩

/-! ### Allocating -/

/-- **A region of its own.** -/
theorem allocateHuge_holds {size : U64} (holds : heap.Holds ⟨free, live, huge, slabs⟩)
    (hlen : (alignUp (size + 16) pageSize).toNat = block.len) (hblock : Fits block)
    (hpage : 4096 ∣ block.start)
    (hapart : ∀ other ∈ slabs ++ huge, block.Apart other) :
    ∃ heap', allocateHuge heap size (some block.start) =
        (heap', some (block.start + headerSize, block.len - headerSize)) ∧
      heap'.Holds ⟨free, live, block :: huge, slabs⟩ ∧
      Within [header block.start] heap.memory heap'.memory := by
  have laid := holds.laid.addHuge hblock hpage hapart
  have hfits := holds.fits
  have hheader : ∀ other ∈ free ++ live ++ huge, ∀ span ∈ [header block.start],
      other.Apart span := by
    refine fun other hother => List.forall_mem_singleton.mpr (hblock.apart_header ?_)
    rcases List.mem_append.mp hother with hsmall | hhuge
    · exact laid.apart_huge hsmall block List.mem_cons_self
    · exact ((List.pairwise_cons.mp laid.huge_apart).1 other hhuge).symm
  have hlt : block.len < 2 ^ 64 := by
    have hstop := hblock.stop_le
    have hpos := hblock.start_pos
    unfold Span.stop at hstop
    omega
  obtain ⟨written, hwritten⟩ : ∃ written, written =
    setSize (setNext heap.memory block.start heap.hugeBlockHead) block.start block.len := ⟨_, rfl⟩
  have hwithin : Within [header block.start] heap.memory written :=
    hwritten ▸ within_setNext.trans within_setSize
  have hnext : next written block.start = heap.hugeBlockHead := by
    rw [hwritten, next_setSize, next_setNext (holds.huge.first_lt fun other hother =>
      hfits other (by simp [hother]))]
  obtain ⟨hfree, hhuge, hlive⟩ := holds.frame hwithin
  refine ⟨Heap.updateRange { heap with memory := written, hugeBlockHead := block.start }
    (block.start + headerSize), ?_, ⟨laid, ?_, listed_cons.mpr ⟨rfl, hwritten ▸ size_setSize hlt,
      ?_⟩, ?_, fun other hother => ?_⟩, hwithin⟩
  · unfold allocateHuge
    dsimp only
    rw [hlen, hwritten]
  · exact hfree fun other hother => hheader other (by simp [hother])
  · show Listed written (next written block.start) huge 0
    rw [hnext]
    exact hhuge fun other hother => hheader other (by simp [hother])
  · exact fun other hother => hlive other hother (hheader other (by simp [hother]))
  · exact tracked_update holds.tracked other (List.perm_middle.mem_iff.mp hother)

/-- **A block is taken** out of the list, or the front of one. -/
theorem takeBlock_holds
    (hlisted : Listed heap.memory heap.freeBlocks (before ++ block :: after) 0)
    (hfits : ∀ other ∈ before ++ block :: after ++ (live ++ huge), Fits other)
    (hdisjoint : (before ++ block :: after).Pairwise Span.Apart) (hwanted : Wanted wanted)
    (laid : Laid ⟨before ++ (remainder block wanted ++ after), taken block wanted :: live, huge,
      slabs⟩)
    (hhuge : Listed heap.memory heap.hugeBlockHead huge 0)
    (hlive : ∀ other ∈ live, size heap.memory other.start = other.len)
    (htracked : ∀ other ∈ live ++ huge,
      0 < heap.heapStart ∧ heap.inRange (other.start + headerSize))
    (hapart : ∀ other ∈ live ++ huge, ∀ span ∈ before ++ [block], other.Apart span) :
    ∃ heap', takeBlock heap block.start (lastOf before 0) wanted =
        (heap', some (block.start + headerSize, (taken block wanted).len - headerSize)) ∧
      heap'.Holds ⟨before ++ (remainder block wanted ++ after), taken block wanted :: live, huge,
        slabs⟩ ∧
      Within (before ++ [block]) heap.memory heap'.memory := by
  obtain ⟨hfitsFree, hfits⟩ := List.forall_mem_append.mp hfits
  obtain ⟨memory, first, hdone, hrest, hsize, hwithin⟩ :=
    takeBlock_eq hlisted hfitsFree hdisjoint hwanted
  refine ⟨Heap.updateRange { heap with memory, freeBlocks := first } (block.start + headerSize),
    hdone, ⟨laid, hrest, ?_, List.forall_mem_cons.mpr ⟨?_, ?_⟩, ?_⟩, hwithin⟩
  · exact hhuge.frame hwithin (fun other hother => hfits other (List.mem_append_right _ hother))
      fun other hother => hapart other (List.mem_append_right _ hother)
  · rw [start_taken]
    exact hsize
  · intro other hother
    have hmem : other ∈ live ++ huge := List.mem_append_left _ hother
    exact (hwithin.size_eq (hfits other hmem) (hapart other hmem)).trans (hlive other hother)
  · have htracked := @tracked_update { heap with memory, freeBlocks := first } (live ++ huge)
      (taken block wanted) htracked
    rwa [start_taken] at htracked

/-- **A free block** that was found becomes a live one. -/
theorem takeFound_holds (holds : heap.Holds ⟨before ++ block :: after, live, huge, slabs⟩)
    (hwanted : Wanted wanted) (hroom : headerSize + wanted ≤ block.len) :
    ∃ heap', takeBlock heap block.start (lastOf before 0) wanted =
        (heap', some (block.start + headerSize, (taken block wanted).len - headerSize)) ∧
      heap'.Holds ⟨before ++ (remainder block wanted ++ after), taken block wanted :: live, huge,
        slabs⟩ ∧
      Within (before ++ [block]) heap.memory heap'.memory := by
  have laid := holds.laid
  refine takeBlock_holds holds.free holds.fits (laid.sorted.imp Or.inl) hwanted
    (laid.take hwanted hroom) holds.huge holds.live holds.tracked fun other hother span hspan =>
      laid.apart_free hother span ?_
  simp only [List.mem_append, List.mem_cons, List.not_mem_nil, or_false] at hspan ⊢
  tauto

/-- **A new slab** whose front becomes a live block. -/
theorem takeSlab_holds (holds : heap.Holds ⟨free, live, huge, slabs⟩) (hslab : Fits slab)
    (hlen : slab.len = defaultLargeBlockSize) (hapart : ∀ other ∈ slabs ++ huge, slab.Apart other)
    (hwanted : Wanted wanted) (hroom : headerSize + wanted ≤ slab.len) :
    ∃ inserted heap' free', insertBlock { heap with
        memory := setSize (setNext heap.memory slab.start 0) slab.start defaultLargeBlockSize }
          slab.start = some inserted ∧
      takeBlock inserted.1 slab.start inserted.2 wanted =
        (heap', some (slab.start + headerSize, (taken slab wanted).len - headerSize)) ∧
      heap'.Holds ⟨free', taken slab wanted :: live, huge, slab :: slabs⟩ ∧
      Within (slab :: free) heap.memory heap'.memory := by
  have laid := holds.laid
  obtain ⟨hfitsFree, hfits⟩ := List.forall_mem_append.mp holds.fits
  obtain ⟨hslabs, hlarge⟩ := List.forall_mem_append.mp hapart
  have hall : ∀ other ∈ free ++ (live ++ huge), other.Apart slab := by
    rw [← List.append_assoc]
    exact List.forall_mem_append.mpr ⟨fun other hother => (laid.tiles.apart_of_regions
      laid.slabs_pos hslab.len_pos hslabs hother).symm, fun other hother =>
        (hlarge other hother).symm⟩
  obtain ⟨hfree, hothers⟩ := List.forall_mem_append.mp hall
  obtain ⟨written, hwritten⟩ : ∃ written, written =
    setSize (setNext heap.memory slab.start 0) slab.start defaultLargeBlockSize := ⟨_, rfl⟩
  have hwithin : Within [slab] heap.memory written := hwritten ▸
    (within_setNext.trans within_setSize).mono (List.forall_mem_singleton.mpr
      ⟨slab, List.mem_singleton_self _, Nat.le_refl _, hslab.header_stop⟩)
  have hsize : size written slab.start = slab.len := by
    rw [hwritten, hlen]
    exact size_setSize (by decide)
  rw [← hwritten]
  have hlisted := (holds.frame hwithin).1 fun other hother =>
    List.forall_mem_singleton.mpr (hfree other hother)
  obtain ⟨before, after, memory, first, rfl, hbefore, hafter, hinsert, hinserted, hwithin'⟩ :=
    @insertBlock_eq { heap with memory := written } slab _ hlisted laid.sorted hfitsFree hslab
      (fun other hother => (hfree other hother).symm) hsize
  have hboth := (hwithin.subset (List.cons_subset_cons _ (List.nil_subset _))).trans hwithin'
  have hapart' : ∀ other ∈ live ++ huge, ∀ span ∈ slab :: (before ++ after), other.Apart span :=
    fun other hother => List.forall_mem_cons.mpr ⟨hothers other hother, laid.apart_free hother⟩
  obtain ⟨-, hhuge, hlive⟩ := holds.frame hboth
  have hspans : before ++ [slab] ⊆ slab :: (before ++ after) := by simp
  obtain ⟨hfitsFront, hfitsBack⟩ := List.forall_mem_append.mp hfitsFree
  obtain ⟨heap', hdone, hheld, htaken⟩ := @takeBlock_holds
    { heap with memory, freeBlocks := first } wanted live huge (slab :: slabs) before after slab
    hinserted (List.forall_mem_append.mpr ⟨List.forall_mem_append.mpr ⟨hfitsFront,
      List.forall_mem_cons.mpr ⟨hslab, hfitsBack⟩⟩, hfits⟩)
    ((List.perm_middle.pairwise_iff Span.Apart.symm).mpr (List.pairwise_cons.mpr
      ⟨fun other hother => (hfree other hother).symm, laid.sorted.imp Or.inl⟩)) hwanted
    (laid.takeSlab hslab hapart hbefore hafter hwanted hroom)
    (hhuge fun other hother => hapart' other (List.mem_append_right _ hother))
    (fun other hother => hlive other hother (hapart' other (List.mem_append_left _ hother)))
    holds.tracked fun other hother span hspan => hapart' other hother span (hspans hspan)
  exact ⟨_, heap', _, hinsert, hdone, hheld, hboth.trans (htaken.subset hspans)⟩

end Holds

end BekOS.Allocator
