import BekOS.Lib.SinglyLinked
import BekOS.Libcore.Allocator
import Mathlib.Data.List.Pairwise

/-!
# The lists of the user allocator

A list of blocks is in the headers of the blocks, and so in the memory that the blocks are made of.
Here is what each operation on such a list does to the list, and that it changes nothing outside
the blocks.
-/

namespace BekOS.Allocator

/-! ## What changes -/

/-- The header of a block. -/
def header (start : ℕ) : Span := ⟨start, headerSize⟩

/-- The headers of some blocks. -/
def headers (blocks : List Span) : List Span := blocks.map fun block => header block.start

/-- Nothing has changed outside these spans. -/
def Within (spans : List Span) (memory memory' : Memory Byte) : Prop :=
  ∀ i, (∀ span ∈ spans, ¬ span.Covers i) → memory' i = memory i

instance : Std.Symm Span.Apart := ⟨fun _ _ => Span.Apart.symm⟩

section Within

variable {memory memory' memory'' : Memory Byte} {spans spans' : List Span}
  {part whole other : Span} {start value : ℕ}

theorem apart_of_inside (h : other.Apart whole) (hstart : whole.start ≤ part.start)
    (hstop : part.stop ≤ whole.stop) : other.Apart part := by
  unfold Span.Apart at *
  omega

theorem Within.mono (h : Within spans memory memory')
    (hinside : ∀ span ∈ spans, ∃ whole ∈ spans', whole.start ≤ span.start ∧
      span.stop ≤ whole.stop) : Within spans' memory memory' := by
  refine fun i hi => h i fun span hspan hcovers => ?_
  obtain ⟨whole, hwhole, hstart, hstop⟩ := hinside span hspan
  exact hi whole hwhole ⟨hstart.trans hcovers.1, hcovers.2.trans_le hstop⟩

theorem Within.subset (h : Within spans memory memory') (hsubset : spans ⊆ spans') :
    Within spans' memory memory' :=
  h.mono fun span hspan => ⟨span, hsubset hspan, Nat.le_refl _, Nat.le_refl _⟩

theorem Within.trans (h : Within spans memory memory') (h' : Within spans memory' memory'') :
    Within spans memory memory'' := fun i hi => (h' i hi).trans (h i hi)

/-- A header that lies apart stays. -/
theorem Within.header (h : Within spans memory memory')
    (hapart : ∀ span ∈ spans, (header start).Apart span) :
    next memory' start = next memory start ∧ size memory' start = size memory start := by
  have hsame : ∀ i < headerSize, memory' (start + i) = memory (start + i) := by
    refine fun i hi => h _ fun span hspan => ?_
    have := hapart span hspan
    unfold Span.Apart Span.Covers Span.stop Allocator.header at *
    dsimp only at this
    omega
  refine ⟨leRead_congr fun i hi => hsame i (hi.trans (by decide)), leRead_congr fun i hi => ?_⟩
  rw [Nat.add_assoc]
  exact hsame _ (by unfold headerSize; omega)

theorem within_setNext : Within [header start] memory (setNext memory start value) := by
  refine fun i hi => leWrite_of_not_mem fun hmem => hi _ (List.mem_singleton_self _) ?_
  unfold Span.Covers Span.stop header headerSize
  dsimp only
  omega

theorem within_setSize : Within [header start] memory (setSize memory start value) := by
  refine fun i hi => leWrite_of_not_mem fun hmem => hi _ (List.mem_singleton_self _) ?_
  unfold Span.Covers Span.stop header headerSize
  dsimp only
  omega

theorem next_setNext (hvalue : value < 2 ^ 64) : next (setNext memory start value) start = value :=
  (leRead_leWrite ..).trans (Nat.mod_eq_of_lt hvalue)

theorem size_setSize (hvalue : value < 2 ^ 64) : size (setSize memory start value) start = value :=
  (leRead_leWrite ..).trans (Nat.mod_eq_of_lt hvalue)

@[simp] theorem size_setNext : size (setNext memory start value) start = size memory start :=
  leRead_leWrite_of_disjoint (Or.inr (Nat.le_refl _))

@[simp] theorem next_setSize : next (setSize memory start value) start = next memory start :=
  leRead_leWrite_of_disjoint (Or.inl (Nat.le_refl _))

end Within

/-! ## Blocks -/

/-- A span that can be a block: with room for the least data, at addresses that there are. -/
structure Fits (block : Span) : Prop where
  start_pos : 0 < block.start
  room : headerSize + minBlockSize ≤ block.len
  stop_le : block.stop ≤ 2 ^ 64
  start_dvd : 8 ∣ block.start
  len_dvd : 8 ∣ block.len

/-- The blocks from `first` to `last`, with their sizes. -/
structure Listed (memory : Memory Byte) (first : ℕ) (blocks : List Span) (last : ℕ) : Prop where
  linked : Linked (next memory) first (blocks.map Span.start) last
  sizes : ∀ block ∈ blocks, size memory block.start = block.len

section Blocks

variable {memory memory' : Memory Byte} {first last : ℕ} {block other : Span}
  {blocks before after spans : List Span}

theorem Fits.header_stop (h : Fits block) : (header block.start).stop ≤ block.stop :=
  Nat.add_le_add_left (Nat.le_of_add_right_le h.room) _

theorem Fits.start_lt (h : Fits block) : block.start < 2 ^ 64 := by
  have hstop := h.stop_le
  have hroom := h.room
  unfold Span.stop headerSize at *
  omega

theorem Fits.apart_header (h : Fits block) (hapart : other.Apart block) :
    other.Apart (header block.start) :=
  apart_of_inside hapart (Nat.le_refl _) h.header_stop

theorem Fits.start_ne (h : Fits block) (h' : Fits other) (hapart : block.Apart other) :
    block.start ≠ other.start := by
  have hroom := h.room
  have hroom' := h'.room
  unfold headerSize at *
  unfold Span.Apart Span.stop at hapart
  omega

theorem Within.ofHeaders (h : Within (headers blocks) memory memory')
    (hfits : ∀ block ∈ blocks, Fits block) : Within blocks memory memory' :=
  h.mono (List.forall_mem_map.mpr fun block hblock =>
    ⟨block, hblock, Nat.le_refl _, (hfits block hblock).header_stop⟩)

theorem listed_cons : Listed memory first (block :: blocks) last ↔
    first = block.start ∧ size memory block.start = block.len ∧
      Listed memory (next memory block.start) blocks last := by
  refine ⟨fun ⟨⟨hfirst, hrest⟩, hsizes⟩ => ?_, fun ⟨hfirst, hsize, hrest⟩ =>
    ⟨⟨hfirst, hrest.linked⟩, List.forall_mem_cons.mpr ⟨hsize, hrest.sizes⟩⟩⟩
  obtain ⟨hsize, hsizes⟩ := List.forall_mem_cons.mp hsizes
  exact ⟨hfirst, hsize, hrest, hsizes⟩

theorem listed_append : Listed memory first (before ++ after) last ↔
    ∃ middle, Listed memory first before middle ∧ Listed memory middle after last := by
  constructor
  · rintro ⟨hlinked, hsizes⟩
    rw [List.map_append] at hlinked
    obtain ⟨middle, hfront, hback⟩ := linked_append.mp hlinked
    obtain ⟨hbefore, hafter⟩ := List.forall_mem_append.mp hsizes
    exact ⟨middle, ⟨hfront, hbefore⟩, hback, hafter⟩
  · rintro ⟨middle, hfront, hback⟩
    refine ⟨?_, List.forall_mem_append.mpr ⟨hfront.sizes, hback.sizes⟩⟩
    rw [List.map_append]
    exact linked_append.mpr ⟨middle, hfront.linked, hback.linked⟩

/-- **A list whose blocks lie apart** from all that has changed. -/
theorem Listed.frame (h : Listed memory first blocks last) (hwithin : Within spans memory memory')
    (hfits : ∀ block ∈ blocks, Fits block)
    (hapart : ∀ block ∈ blocks, ∀ span ∈ spans, block.Apart span) :
    Listed memory' first blocks last := by
  have hheader : ∀ block ∈ blocks, next memory' block.start = next memory block.start ∧
      size memory' block.start = size memory block.start := fun block hblock =>
    hwithin.header fun span hspan =>
      ((hfits block hblock).apart_header (hapart block hblock span hspan).symm).symm
  exact ⟨h.linked.congr (List.forall_mem_map.mpr fun block hblock => (hheader block hblock).1),
    fun block hblock => (hheader block hblock).2.trans (h.sizes block hblock)⟩

theorem Listed.first_eq (h : Listed memory first blocks last) :
    first = (blocks.map Span.start).headD last := h.linked.first_eq

theorem Listed.first_lt (h : Listed memory first blocks 0) (hfits : ∀ block ∈ blocks, Fits block) :
    first < 2 ^ 64 := by
  rw [h.first_eq]
  cases blocks with
  | nil => exact Nat.two_pow_pos 64
  | cons block blocks => exact (hfits block List.mem_cons_self).start_lt

/-- There are fewer blocks than addresses. -/
theorem length_lt_loopBound (hfits : ∀ block ∈ blocks, Fits block)
    (hapart : blocks.Pairwise Span.Apart) : blocks.length < loopBound := by
  have hpos : ∀ start ∈ blocks.map Span.start, 0 < start ∧ start < 2 ^ 64 :=
    List.forall_mem_map.mpr fun block hblock =>
      ⟨(hfits block hblock).start_pos, (hfits block hblock).start_lt⟩
  have hstarts : (0 :: blocks.map Span.start).Nodup := by
    refine List.nodup_cons.mpr ⟨fun hzero => absurd (hpos 0 hzero).1 (Nat.lt_irrefl 0),
      List.pairwise_map.mpr (hapart.imp_of_mem fun hblock hother h => ?_)⟩
    exact (hfits _ hblock).start_ne (hfits _ hother) h
  have hrange : (0 :: blocks.map Span.start) ⊆ List.range (2 ^ 64) := by
    intro start hstart
    rcases List.mem_cons.mp hstart with rfl | hstart
    · exact List.mem_range.mpr (Nat.two_pow_pos 64)
    · exact List.mem_range.mpr (hpos start hstart).2
  have hlength := (List.subperm_of_subset hstarts hrange).length_le
  rwa [List.length_range, List.length_cons, List.length_map] at hlength

end Blocks

/-! ## Linking -/

/-- The pointer to what comes behind a block, or the first one, is set (`linkFree`, `linkHuge`). -/
def link (memory : Memory Byte) (first previous target : ℕ) : Memory Byte × ℕ :=
  if previous = 0 then (memory, target) else (setNext memory previous target, first)

/-- The last block that one meets, or the one before. -/
def lastOf (blocks : List Span) (last : ℕ) : ℕ := (blocks.map Span.start).getLastD last

section Linking

variable {memory : Memory Byte} {heap : Heap} {first previous last target : ℕ} {block : Span}
  {blocks before after : List Span}

theorem linkFree_eq : heap.linkFree previous target =
    { heap with
      memory := (link heap.memory heap.freeBlocks previous target).1
      freeBlocks := (link heap.memory heap.freeBlocks previous target).2 } := by
  unfold Heap.linkFree link
  split_ifs <;> rfl

theorem linkHuge_eq : heap.linkHuge previous target =
    { heap with
      memory := (link heap.memory heap.hugeBlockHead previous target).1
      hugeBlockHead := (link heap.memory heap.hugeBlockHead previous target).2 } := by
  unfold Heap.linkHuge link
  split_ifs <;> rfl

@[simp] theorem lastOf_cons : lastOf (block :: blocks) last = lastOf blocks block.start := by
  rw [lastOf, List.map_cons, List.getLastD_cons]
  rfl

@[simp] theorem lastOf_concat : lastOf (blocks ++ [block]) last = block.start := by
  rw [lastOf, List.map_append, List.map_singleton, List.getLastD_concat]

/-- **The blocks in front** stay what they are, and lead to the target. -/
theorem Listed.link (h : Listed memory first blocks last) (hfits : ∀ block ∈ blocks, Fits block)
    (hapart : blocks.Pairwise Span.Apart) (htarget : target < 2 ^ 64) :
    Listed (link memory first (lastOf blocks 0) target).1
        (link memory first (lastOf blocks 0) target).2 blocks target ∧
      Within (headers blocks) memory (Allocator.link memory first (lastOf blocks 0) target).1 := by
  rcases List.eq_nil_or_concat' blocks with rfl | ⟨front, block, rfl⟩
  · exact ⟨⟨rfl, List.forall_mem_nil _⟩, fun _ _ => rfl⟩
  · obtain ⟨hfitsFront, hblock⟩ := List.forall_mem_append.mp hfits
    have hblock := List.forall_mem_singleton.mp hblock
    obtain ⟨middle, hfront, hlast⟩ := listed_append.mp h
    obtain ⟨rfl, hsize, -⟩ := listed_cons.mp hlast
    rw [lastOf_concat, Allocator.link, if_neg (Nat.pos_iff_ne_zero.mp hblock.start_pos)]
    refine ⟨listed_append.mpr ⟨block.start, hfront.frame within_setNext hfitsFront ?_,
      listed_cons.mpr ⟨rfl, size_setNext.trans hsize, next_setNext htarget,
        List.forall_mem_nil _⟩⟩, within_setNext.subset ?_⟩
    · exact fun other hother => List.forall_mem_singleton.mpr (hblock.apart_header
        ((List.pairwise_append.mp hapart).2.2 other hother block (List.mem_singleton_self _)))
    · simp [headers]

/-- **A list with another back**, that begins at the target. -/
theorem Listed.append_link (h : Listed memory first before last)
    (h' : Listed memory target after 0) (hfits : ∀ block ∈ before ++ after, Fits block)
    (hapart : (before ++ after).Pairwise Span.Apart) :
    Listed (Allocator.link memory first (lastOf before 0) target).1
        (Allocator.link memory first (lastOf before 0) target).2 (before ++ after) 0 ∧
      Within (headers before) memory (Allocator.link memory first (lastOf before 0) target).1 := by
  obtain ⟨hfitsFront, hfitsBack⟩ := List.forall_mem_append.mp hfits
  obtain ⟨hfront, -, hcross⟩ := List.pairwise_append.mp hapart
  obtain ⟨hlink, hwithin⟩ := h.link hfitsFront hfront (h'.first_lt hfitsBack)
  refine ⟨listed_append.mpr ⟨target, hlink, h'.frame hwithin hfitsBack fun block hblock =>
    List.forall_mem_map.mpr fun other hother => ?_⟩, hwithin⟩
  exact (hfitsFront other hother).apart_header (hcross other hother block hblock).symm

end Linking

/-! ## The loops -/

section Loops

variable {memory : Memory Byte} {heap : Heap} {first last fuel wanted : ℕ} {block other : Span}
  {blocks before after : List Span} {best : ℕ × ℕ}

/-- The place of a block in a list that is sorted: behind those in front of it. -/
theorem findPlace_eq {place : ℕ} (hlisted : Listed memory first blocks 0)
    (hsorted : blocks.Pairwise fun block other => block.stop ≤ other.start)
    (hfits : ∀ block ∈ blocks, Fits block) (hfuel : blocks.length < fuel) :
    ∃ before after, blocks = before ++ after ∧ (∀ block ∈ before, block.start ≤ place) ∧
      (∀ block ∈ after, place < block.start) ∧
      findPlace memory place fuel last first =
        some (lastOf before last, (after.map Span.start).headD 0) := by
  induction blocks generalizing first last fuel with
  | nil =>
      cases hlisted.first_eq
      cases fuel with
      | zero => exact absurd hfuel (Nat.not_lt_zero _)
      | succ fuel =>
          exact ⟨[], [], rfl, List.forall_mem_nil _, List.forall_mem_nil _, if_pos (Or.inl rfl)⟩
  | cons block blocks ih =>
      obtain ⟨rfl, -, hrest⟩ := listed_cons.mp hlisted
      obtain ⟨hbehind, hsorted⟩ := List.pairwise_cons.mp hsorted
      obtain ⟨hblock, hfits⟩ := List.forall_mem_cons.mp hfits
      cases fuel with
      | zero => exact absurd hfuel (Nat.not_lt_zero _)
      | succ fuel =>
          by_cases hplace : block.start > place
          · refine ⟨[], block :: blocks, rfl, List.forall_mem_nil _,
              List.forall_mem_cons.mpr ⟨hplace, fun other hother => ?_⟩, if_pos (Or.inr hplace)⟩
            exact hplace.trans_le (Nat.le_of_add_right_le (hbehind other hother))
          · obtain ⟨before, after, rfl, hbefore, hafter, hfound⟩ :=
              @ih _ block.start fuel hrest hsorted hfits (Nat.lt_of_succ_lt_succ hfuel)
            refine ⟨block :: before, after, rfl,
              List.forall_mem_cons.mpr ⟨Nat.le_of_not_lt hplace, hbefore⟩, hafter, ?_⟩
            have hzero := Nat.pos_iff_ne_zero.mp hblock.start_pos
            rw [findPlace, if_neg (not_or.mpr ⟨hzero, hplace⟩), hfound, lastOf_cons]

/-- A block that is found is one of the list, and large enough. -/
theorem findBest_eq (hlisted : Listed memory first blocks 0) (hfits : ∀ block ∈ blocks, Fits block)
    (hfuel : blocks.length < fuel) :
    ∃ found, findBest memory wanted fuel best last first = some found ∧ (found = best ∨
      ∃ before block after, blocks = before ++ block :: after ∧
        found = (block.start, lastOf before last) ∧ headerSize + wanted ≤ block.len) := by
  induction blocks generalizing first last best fuel with
  | nil =>
      cases hlisted.first_eq
      cases fuel with
      | zero => exact absurd hfuel (Nat.not_lt_zero _)
      | succ fuel => exact ⟨best, if_pos rfl, Or.inl rfl⟩
  | cons block blocks ih =>
      obtain ⟨rfl, hsize, hrest⟩ := listed_cons.mp hlisted
      obtain ⟨hblock, hfits⟩ := List.forall_mem_cons.mp hfits
      cases fuel with
      | zero => exact absurd hfuel (Nat.not_lt_zero _)
      | succ fuel =>
          have hlater (best : ℕ × ℕ) :=
            @ih _ block.start fuel best hrest hfits (Nat.lt_of_succ_lt_succ hfuel)
          have hlarge (h : dataSize memory block.start ≥ wanted) :
              headerSize + wanted ≤ block.len := by
            have hroom := hblock.room
            unfold dataSize at h
            rw [hsize] at h
            omega
          rw [findBest, if_neg (Nat.pos_iff_ne_zero.mp hblock.start_pos)]
          split_ifs with hbetter hsplit
          · obtain ⟨found, hfound, hwhich⟩ := hlater (block.start, last)
            refine ⟨found, hfound, Or.inr ?_⟩
            rcases hwhich with rfl | ⟨before, other, after, rfl, rfl, hother⟩
            · exact ⟨[], block, blocks, rfl, rfl, hlarge hbetter.1⟩
            · exact ⟨block :: before, other, after, rfl, by rw [lastOf_cons], hother⟩
          · exact ⟨_, rfl, Or.inr ⟨[], block, blocks, rfl, rfl, hlarge hbetter.1⟩⟩
          · obtain ⟨found, hfound, hwhich⟩ := hlater best
            refine ⟨found, hfound, hwhich.imp_right ?_⟩
            rintro ⟨before, other, after, rfl, rfl, hother⟩
            exact ⟨block :: before, other, after, rfl, by rw [lastOf_cons], hother⟩

/-- A huge block is found by its data; otherwise nothing is. -/
theorem findHuge_eq {ptr : ℕ} (hlisted : Listed memory first blocks 0)
    (hfits : ∀ block ∈ blocks, Fits block) (hfuel : blocks.length < fuel) :
    (∃ before block after, blocks = before ++ block :: after ∧ ptr = block.start + headerSize ∧
      findHuge memory ptr fuel last first = some (lastOf before last, block.start)) ∨
    ((∀ block ∈ blocks, ptr ≠ block.start + headerSize) ∧
      ∃ previous, findHuge memory ptr fuel last first = some (previous, 0)) := by
  induction blocks generalizing first last fuel with
  | nil =>
      cases hlisted.first_eq
      cases fuel with
      | zero => exact absurd hfuel (Nat.not_lt_zero _)
      | succ fuel => exact Or.inr ⟨List.forall_mem_nil _, last, if_pos rfl⟩
  | cons block blocks ih =>
      obtain ⟨rfl, -, hrest⟩ := listed_cons.mp hlisted
      obtain ⟨hblock, hfits⟩ := List.forall_mem_cons.mp hfits
      cases fuel with
      | zero => exact absurd hfuel (Nat.not_lt_zero _)
      | succ fuel =>
          rw [findHuge, if_neg (Nat.pos_iff_ne_zero.mp hblock.start_pos)]
          by_cases hptr : ptr = block.start + headerSize
          · exact Or.inl ⟨[], block, blocks, rfl, hptr, if_pos hptr⟩
          · rw [if_neg hptr]
            rcases @ih _ block.start fuel hrest hfits (Nat.lt_of_succ_lt_succ hfuel) with
              ⟨before, other, after, rfl, hother, hfound⟩ | ⟨hnone, hfound⟩
            · exact Or.inl ⟨block :: before, other, after, rfl, hother, by rw [hfound, lastOf_cons]⟩
            · exact Or.inr ⟨List.forall_mem_cons.mpr ⟨hptr, hnone⟩, hfound⟩

/-- **What `insert_block` does** with a block whose size is set. -/
theorem insertBlock_eq (hlisted : Listed heap.memory heap.freeBlocks blocks 0)
    (hsorted : blocks.Pairwise fun block other => block.stop ≤ other.start)
    (hfits : ∀ other ∈ blocks, Fits other) (hblock : Fits block)
    (hapart : ∀ other ∈ blocks, block.Apart other)
    (hsize : size heap.memory block.start = block.len) :
    ∃ before after memory first, blocks = before ++ after ∧
      (∀ other ∈ before, other.stop ≤ block.start) ∧ (∀ other ∈ after, block.stop ≤ other.start) ∧
      insertBlock heap block.start =
        some ({ heap with memory, freeBlocks := first }, lastOf before 0) ∧
      Listed memory first (before ++ block :: after) 0 ∧
      Within (block :: blocks) heap.memory memory := by
  have hdisjoint : blocks.Pairwise Span.Apart := hsorted.imp Or.inl
  obtain ⟨before, after, rfl, hfront, hback, hfound⟩ := @findPlace_eq _ _ 0 loopBound blocks
    block.start hlisted hsorted hfits (length_lt_loopBound hfits hdisjoint)
  have hroom := hblock.room
  have hbefore : ∀ other ∈ before, other.stop ≤ block.start := fun other hother => by
    have hstart := hfront other hother
    have := hapart other (List.mem_append_left _ hother)
    unfold Span.Apart Span.stop headerSize at *
    omega
  have hafter : ∀ other ∈ after, block.stop ≤ other.start := fun other hother => by
    have hstart := hback other hother
    have hroom' := (hfits other (List.mem_append_right _ hother)).room
    have := hapart other (List.mem_append_right _ hother)
    unfold Span.Apart Span.stop headerSize at *
    omega
  obtain ⟨hfitsFront, hfitsBack⟩ := List.forall_mem_append.mp hfits
  have hheader : ∀ other ∈ before ++ after, ∀ span ∈ [header block.start], other.Apart span :=
    fun other hother => List.forall_mem_singleton.mpr
      (hblock.apart_header (hapart other hother).symm)
  obtain ⟨following, hlead, htail⟩ := listed_append.mp hlisted
  rw [← htail.first_eq] at hfound
  have hlead := hlead.frame (@within_setNext heap.memory block.start following) hfitsFront
    fun other hother => hheader other (List.mem_append_left _ hother)
  have htail' := htail.frame (@within_setNext heap.memory block.start following) hfitsBack
    fun other hother => hheader other (List.mem_append_right _ hother)
  have hwhole : (before ++ block :: after).Pairwise Span.Apart :=
    (List.perm_middle.pairwise_iff Span.Apart.symm).mpr (List.pairwise_cons.mpr ⟨hapart, hdisjoint⟩)
  obtain ⟨hdone, hwithin⟩ := hlead.append_link (listed_cons.mpr ⟨rfl, size_setNext.trans hsize, by
    rwa [next_setNext (htail.first_lt hfitsBack)]⟩)
    (List.forall_mem_append.mpr ⟨hfitsFront, List.forall_mem_cons.mpr ⟨hblock, hfitsBack⟩⟩) hwhole
  refine ⟨before, after, _, _, rfl, hbefore, hafter, ?_, hdone, ?_⟩
  · unfold insertBlock
    rw [hfound, Option.map_some, linkFree_eq]
  · refine (within_setNext.mono (List.forall_mem_singleton.mpr
      ⟨block, List.mem_cons_self, Nat.le_refl _, hblock.header_stop⟩)).trans
      ((hwithin.ofHeaders hfitsFront).subset fun span hspan => ?_)
    exact List.mem_cons_of_mem _ (List.mem_append_left _ hspan)

end Loops

/-! ## Cutting a block -/

/-- The block can be cut behind so much data. -/
def CanCut (block : Span) (wanted : ℕ) : Prop :=
  headerSize * 2 + wanted + minBlockSize ≤ block.len
deriving Decidable

/-- What is taken of a block. -/
def taken (block : Span) (wanted : ℕ) : Span :=
  if CanCut block wanted then ⟨block.start, headerSize + wanted⟩ else block

/-- What is left of it. -/
def remainder (block : Span) (wanted : ℕ) : List Span :=
  if CanCut block wanted then
    [⟨block.start + (headerSize + wanted), block.len - headerSize - wanted⟩]
  else []

/-- What can be asked of a block: whole words, and not nothing. -/
def Wanted (wanted : ℕ) : Prop := minBlockSize ≤ wanted ∧ 8 ∣ wanted

section Cutting

variable {memory : Memory Byte} {heap : Heap} {first wanted : ℕ} {block : Span}
  {before after : List Span}

@[simp] theorem start_taken : (taken block wanted).start = block.start := by
  unfold taken
  split_ifs <;> rfl

/-- The block that is taken is in the one that was found, with its data. -/
theorem fits_taken (hblock : Fits block) (hwanted : Wanted wanted)
    (hroom : headerSize + wanted ≤ block.len) :
    Fits (taken block wanted) ∧ headerSize + wanted ≤ (taken block wanted).len ∧
      (taken block wanted).stop ≤ block.stop := by
  have hstop : (⟨block.start, headerSize + wanted⟩ : Span).stop ≤ block.stop :=
    Nat.add_le_add_left hroom _
  unfold taken
  split_ifs with hcut
  · exact ⟨⟨hblock.start_pos, Nat.add_le_add_left hwanted.1 _, hstop.trans hblock.stop_le,
      hblock.start_dvd, Nat.dvd_add (by decide) hwanted.2⟩, Nat.le_refl _, hstop⟩
  · exact ⟨hblock, hroom, Nat.le_refl _⟩

/-- The rest is a block again, that begins where the other ends. -/
theorem fits_remainder (hblock : Fits block) (hwanted : Wanted wanted) :
    ∀ rest ∈ remainder block wanted, Fits rest ∧ (taken block wanted).stop = rest.start ∧
      rest.stop = block.stop := by
  unfold remainder taken
  split_ifs with hcut
  · obtain ⟨hstart, -, hstop, hstart_dvd, hlen_dvd⟩ := hblock
    have hmore : headerSize + wanted ≤ block.len := by
      unfold CanCut headerSize minBlockSize at hcut
      unfold headerSize
      omega
    have hend : block.start + (headerSize + wanted) + (block.len - headerSize - wanted) =
        block.start + block.len := by omega
    refine List.forall_mem_singleton.mpr ⟨⟨Nat.add_pos_left hstart _, ?_, hend.trans_le hstop,
      Nat.dvd_add hstart_dvd (Nat.dvd_add (by decide) hwanted.2),
      Nat.dvd_sub (Nat.dvd_sub hlen_dvd (by decide)) hwanted.2⟩, rfl, hend⟩
    unfold CanCut at hcut
    dsimp only
    omega
  · exact List.forall_mem_nil _

/-- The rest is in the block, behind the header. -/
theorem remainder_inside (hblock : Fits block) (hwanted : Wanted wanted) :
    ∀ rest ∈ remainder block wanted, (header block.start).stop ≤ rest.start ∧
      rest.stop = block.stop := by
  refine fun rest hrest => ⟨?_, (fits_remainder hblock hwanted rest hrest).2.2⟩
  have hstart := (fits_remainder hblock hwanted rest hrest).2.1
  unfold remainder at hrest
  split_ifs at hrest with hcut
  · rw [List.mem_singleton.mp hrest]
    show block.start + headerSize ≤ block.start + (headerSize + wanted)
    omega
  · exact absurd hrest List.not_mem_nil

/-- What `allocate` does with the header of a block that it has found. -/
theorem cutBlock_spec (hblock : Fits block) (hsize : size memory block.start = block.len) :
    ∃ memory', (if canBeSplit memory block.start wanted then splitBlock memory block.start wanted
        else memory) = memory' ∧ size memory' block.start = (taken block wanted).len ∧
      Listed memory' (next memory' block.start) (remainder block wanted)
        (next memory block.start) ∧
      Within [block] memory memory' := by
  have hsplit : canBeSplit memory block.start wanted = decide (CanCut block wanted) := by
    unfold canBeSplit CanCut
    rw [hsize]
    rfl
  rw [hsplit]
  by_cases hcut : CanCut block wanted
  · obtain ⟨second, hsecond⟩ : ∃ second, second = block.start + (headerSize + wanted) := ⟨_, rfl⟩
    have hstop := hblock.stop_le
    have hroom := hcut
    unfold CanCut minBlockSize at hroom
    unfold Span.stop at hstop
    have hpos := hblock.start_pos
    have happly : (header block.start).Apart (header second) :=
      Or.inl (by rw [hsecond]; exact Nat.add_le_add_left (Nat.le_add_right _ _) _)
    have hfirst : ∀ span ∈ [header second], (header block.start).Apart span :=
      List.forall_mem_singleton.mpr happly
    have hother : ∀ span ∈ [header block.start], (header second).Apart span :=
      List.forall_mem_singleton.mpr happly.symm
    have hend : blockEnd (setSize memory block.start (headerSize + wanted)) block.start =
        second := by
      rw [blockEnd, size_setSize (by omega), hsecond]
    have hdata : dataSize memory block.start - wanted = block.len - headerSize - wanted := by
      rw [dataSize, hsize]
    rw [if_pos (decide_eq_true hcut), taken, remainder, if_pos hcut, if_pos hcut, splitBlock, hend,
      hdata, ← hsecond]
    refine ⟨_, rfl, ?_, ?_, ?_⟩
    · rw [size_setNext, (within_setSize.header hfirst).2, (within_setNext.header hfirst).2,
        size_setSize (by omega)]
    · rw [next_setNext (by omega)]
      refine listed_cons.mpr ⟨rfl, ?_, ?_, List.forall_mem_nil _⟩
      · rw [(within_setNext.header hother).2, size_setSize (by omega)]
      · refine ((within_setNext.header hother).1.trans ?_ : _ = _)
        rw [next_setSize, next_setNext (leRead_lt ..), next_setSize]
    · have hinside : ∀ span ∈ [header block.start, header second],
          ∃ whole ∈ [block], whole.start ≤ span.start ∧ span.stop ≤ whole.stop := by
        refine List.forall_mem_cons.mpr ⟨⟨block, List.mem_singleton_self _, Nat.le_refl _,
          hblock.header_stop⟩, List.forall_mem_singleton.mpr
          ⟨block, List.mem_singleton_self _, ?_, ?_⟩⟩
        · rw [hsecond]
          exact Nat.le_add_right _ _
        · unfold Span.stop header
          dsimp only
          omega
      refine Within.mono (((within_setSize.subset ?_).trans (within_setNext.subset ?_)).trans
        ((within_setSize.subset ?_).trans (within_setNext.subset ?_))) hinside <;> simp
  · rw [if_neg (by simpa using hcut), taken, remainder, if_neg hcut, if_neg hcut]
    exact ⟨memory, rfl, hsize, ⟨rfl, List.forall_mem_nil _⟩, fun _ _ => rfl⟩

/-- **What `allocate` does** with the block that it has found. -/
theorem takeBlock_eq (hlisted : Listed heap.memory heap.freeBlocks (before ++ block :: after) 0)
    (hfits : ∀ other ∈ before ++ block :: after, Fits other)
    (hapart : (before ++ block :: after).Pairwise Span.Apart) (hwanted : Wanted wanted) :
    ∃ memory first, takeBlock heap block.start (lastOf before 0) wanted =
        (Heap.updateRange { heap with memory, freeBlocks := first } (block.start + headerSize),
          some (block.start + headerSize, (taken block wanted).len - headerSize)) ∧
      Listed memory first (before ++ (remainder block wanted ++ after)) 0 ∧
      size memory block.start = (taken block wanted).len ∧
      Within (before ++ [block]) heap.memory memory := by
  have hblock := hfits block (by simp)
  obtain ⟨hfitsFront, hfitsBehind⟩ := List.forall_mem_append.mp hfits
  have hfitsBack := (List.forall_mem_cons.mp hfitsBehind).2
  obtain ⟨hfront, hbehind, hcross⟩ := List.pairwise_append.mp hapart
  obtain ⟨hback, hbackward⟩ := List.pairwise_cons.mp hbehind
  have hbefore : ∀ other ∈ before, other.Apart block := fun other hother =>
    hcross other hother block List.mem_cons_self
  have hrest := remainder_inside hblock hwanted
  have hinside : ∀ other : Span, other.Apart block → ∀ rest ∈ remainder block wanted,
      other.Apart rest := fun other hother rest hmem => apart_of_inside hother
    ((Nat.le_add_right _ _).trans (hrest rest hmem).1) (hrest rest hmem).2.le
  obtain ⟨middle, hlead, hfound⟩ := listed_append.mp hlisted
  obtain ⟨rfl, hsize, htail⟩ := listed_cons.mp hfound
  obtain ⟨memory, hmemory, hlen, hcut, hwithin⟩ := @cutBlock_spec _ wanted _ hblock hsize
  have hfitsRest : ∀ other ∈ remainder block wanted ++ after, Fits other :=
    List.forall_mem_append.mpr
      ⟨fun rest hmem => (fits_remainder hblock hwanted rest hmem).1, hfitsBack⟩
  have hcleared := @within_setNext memory block.start 0
  -- The blocks in front, and those behind, are listed as before.
  have hlead := (hlead.frame hwithin hfitsFront fun other hother =>
    List.forall_mem_singleton.mpr (hbefore other hother)).frame hcleared hfitsFront
      fun other hother => List.forall_mem_singleton.mpr (hblock.apart_header (hbefore other hother))
  have hlater := (listed_append.mpr ⟨_, hcut, htail.frame hwithin hfitsBack fun other hother =>
      List.forall_mem_singleton.mpr (hback other hother).symm⟩).frame hcleared hfitsRest
    (List.forall_mem_append.mpr ⟨fun rest hmem => List.forall_mem_singleton.mpr
      (Or.inr (hrest rest hmem).1), fun other hother => List.forall_mem_singleton.mpr
        (hblock.apart_header (hback other hother).symm)⟩)
  have hpairs : (before ++ (remainder block wanted ++ after)).Pairwise Span.Apart := by
    have hrests : (remainder block wanted).Pairwise Span.Apart := by
      unfold remainder
      split_ifs
      · exact List.pairwise_singleton ..
      · exact List.Pairwise.nil
    refine List.pairwise_append.mpr ⟨hfront, List.pairwise_append.mpr ⟨hrests, hbackward,
      fun rest hmem other hother => (hinside other (hback other hother).symm rest hmem).symm⟩,
      fun other hother => List.forall_mem_append.mpr ⟨hinside other (hbefore other hother),
        fun later hlater => hcross other hother later (List.mem_cons_of_mem _ hlater)⟩⟩
  obtain ⟨hdone, hlinked⟩ := hlead.append_link hlater
    (List.forall_mem_append.mpr ⟨hfitsFront, hfitsRest⟩) hpairs
  have hkept := (hlinked.header (List.forall_mem_map.mpr fun other hother =>
    ((hfitsFront other hother).apart_header
      (hblock.apart_header (hbefore other hother)).symm))).2.trans (size_setNext.trans hlen)
  refine ⟨_, _, ?_, hdone, hkept, ?_⟩
  · simp only [takeBlock, hmemory, linkFree_eq, dataSize, hkept]
  · refine (hwithin.subset fun _ h => List.mem_append_right _ h).trans
      ((hcleared.mono (List.forall_mem_singleton.mpr ⟨block, by simp, Nat.le_refl _,
        hblock.header_stop⟩)).trans ((hlinked.ofHeaders hfitsFront).subset ?_))
    exact fun _ h => List.mem_append_left _ h

end Cutting

/-! ## Joining blocks -/

/-- A block, with the next one in it if that is where it ends. -/
def joinNext (block : Span) : List Span → List Span
  | [] => [block]
  | other :: after =>
      if block.stop = other.start then ⟨block.start, block.len + other.len⟩ :: after
      else block :: other :: after

section Joining

variable {memory : Memory Byte} {first : ℕ} {block : Span} {before after : List Span}

/-- **What `free` does** with two neighbours. -/
theorem coalesce_spec (hlisted : Listed memory first (before ++ block :: after) 0)
    (hfits : ∀ other ∈ before ++ block :: after, Fits other)
    (hapart : (before ++ block :: after).Pairwise Span.Apart) :
    Listed (coalesce memory block.start (next memory block.start)) first
        (before ++ joinNext block after) 0 ∧
      Within [block] memory (coalesce memory block.start (next memory block.start)) := by
  obtain ⟨hfitsFront, hfitsBehind⟩ := List.forall_mem_append.mp hfits
  obtain ⟨hblock, hfitsBack⟩ := List.forall_mem_cons.mp hfitsBehind
  obtain ⟨-, hbehind, hcross⟩ := List.pairwise_append.mp hapart
  have hback := (List.pairwise_cons.mp hbehind).1
  obtain ⟨middle, hlead, hfound⟩ := listed_append.mp hlisted
  obtain ⟨rfl, hsize, htail⟩ := listed_cons.mp hfound
  have hend : blockEnd memory block.start = block.stop := by
    rw [blockEnd, hsize]
    rfl
  have hpos := hblock.start_pos
  unfold coalesce
  rw [hend]
  cases after with
  | nil =>
      have hnone : ¬ (([] : List Span).map Span.start).headD 0 = block.stop :=
        Nat.ne_of_lt (Nat.add_pos_left hpos _)
      rw [htail.first_eq, if_neg hnone]
      exact ⟨hlisted, fun _ _ => rfl⟩
  | cons other after =>
      obtain ⟨hnext, hother, hrest⟩ := listed_cons.mp htail
      rw [hnext, joinNext]
      by_cases htouch : block.stop = other.start
      · rw [if_pos htouch.symm, if_pos htouch]
        obtain ⟨hfitsOther, hfitsAfter⟩ := List.forall_mem_cons.mp hfitsBack
        obtain ⟨happly, hafter⟩ := List.forall_mem_cons.mp hback
        have hlen : block.len + other.len < 2 ^ 64 := by
          have hstop := hfitsOther.stop_le
          unfold Span.stop at *
          omega
        have hheader : ∀ span ∈ [header block.start], (header other.start).Apart span :=
          List.forall_mem_singleton.mpr (hblock.apart_header
            (hfitsOther.apart_header happly).symm)
        dsimp only
        rw [hsize, hother, (within_setSize.header hheader).1]
        have hwithin : Within [header block.start] memory (setNext (setSize memory block.start
            (block.len + other.len)) block.start (next memory other.start)) :=
          within_setSize.trans within_setNext
        refine ⟨listed_append.mpr ⟨block.start, hlead.frame hwithin hfitsFront fun span hspan =>
          List.forall_mem_singleton.mpr (hblock.apart_header
            (hcross span hspan block List.mem_cons_self)), listed_cons.mpr
          ⟨rfl, size_setNext.trans (size_setSize hlen), ?_⟩⟩, hwithin.mono
            (List.forall_mem_singleton.mpr ⟨block, List.mem_singleton_self _, Nat.le_refl _,
              hblock.header_stop⟩)⟩
        rw [next_setNext (leRead_lt ..)]
        exact hrest.frame hwithin hfitsAfter fun span hspan =>
          List.forall_mem_singleton.mpr (hblock.apart_header (hafter span hspan).symm)
      · rw [if_neg fun h => htouch h.symm, if_neg htouch]
        exact ⟨hlisted, fun _ _ => rfl⟩

end Joining

end BekOS.Allocator
