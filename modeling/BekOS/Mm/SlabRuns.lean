import BekOS.Mm.SlabAllocator

/-!
# Runs of a `SlabAllocator`

Each block keeps its invariant (`Held`): the objects on its free list and the live ones are
together its objects, each once.  What a call does to one block leaves the others as they are,
because their objects lie elsewhere.
-/

namespace BekOS

open PartialRun Function

namespace SlabAllocator

variable {objSize blkSize : U64} {block other ptr head : ℕ} {next next' : ℕ → ℕ}

/-! ## The objects of a block -/

theorem mem_objects : ptr ∈ objects objSize blkSize block ↔
    ∃ i < (SlabBlock.countObjects objSize blkSize).toNat,
      block + SlabBlock.dataOffset objSize + i * objSize.toNat = ptr := by
  simp only [objects, List.mem_map, List.mem_range]

@[simp] theorem length_objects (objSize blkSize : U64) (block : ℕ) :
    (objects objSize blkSize block).length = (SlabBlock.countObjects objSize blkSize).toNat := by
  rw [objects, List.length_map, List.length_range]

theorem Layout.object_bounds (layout : Layout objSize blkSize)
    (h : ptr ∈ objects objSize blkSize block) :
    block + 48 ≤ ptr ∧ block + SlabBlock.dataOffset objSize ≤ ptr ∧
      ptr + objSize.toNat ≤ block + SlabBlock.dataOffset objSize +
        (SlabBlock.countObjects objSize blkSize).toNat * objSize.toNat ∧
      ptr + objSize.toNat ≤ block + blkSize.toNat := by
  obtain ⟨i, hi, rfl⟩ := mem_objects.mp h
  have hheader := layout.header_le
  have hobjects := layout.objects_le
  have hi' : (i + 1) * objSize.toNat ≤
      (SlabBlock.countObjects objSize blkSize).toNat * objSize.toNat :=
    Nat.mul_le_mul_right _ hi
  rw [Nat.succ_mul] at hi'
  omega

theorem Layout.object_within (layout : Layout objSize blkSize)
    (h : ptr ∈ objects objSize blkSize block) : Within blkSize block ptr := by
  have hbounds := layout.object_bounds h
  have hsize := layout.size_pos
  exact ⟨by omega, by omega⟩

theorem Layout.object_mod (layout : Layout objSize blkSize) (hblock : block % blkSize.toNat = 0)
    (h : ptr ∈ objects objSize blkSize block) : ptr % objSize.toNat = 0 := by
  obtain ⟨i, -, rfl⟩ := mem_objects.mp h
  have hdvd : objSize.toNat ∣ block :=
    Nat.dvd_trans (Nat.dvd_of_mod_eq_zero layout.block_mod) (Nat.dvd_of_mod_eq_zero hblock)
  have hoffset := Nat.dvd_of_mod_eq_zero layout.offset_mod
  exact Nat.mod_eq_zero_of_dvd (Nat.dvd_add (Nat.dvd_add hdvd hoffset) (Nat.dvd_mul_left _ _))

theorem objects_apart {ptr' : ℕ} (h : ptr ∈ objects objSize blkSize block)
    (h' : ptr' ∈ objects objSize blkSize block) (hne : ptr ≠ ptr') :
    ptr + objSize.toNat ≤ ptr' ∨ ptr' + objSize.toNat ≤ ptr := by
  obtain ⟨i, -, rfl⟩ := mem_objects.mp h
  obtain ⟨j, -, rfl⟩ := mem_objects.mp h'
  rcases Nat.lt_trichotomy i j with hlt | rfl | hlt
  · left
    have hmul := Nat.mul_le_mul_right objSize.toNat hlt
    rw [Nat.succ_mul] at hmul
    omega
  · exact absurd rfl hne
  · right
    have hmul := Nat.mul_le_mul_right objSize.toNat hlt
    rw [Nat.succ_mul] at hmul
    omega

theorem Layout.objects_nodup (layout : Layout objSize blkSize) (block : ℕ) :
    (objects objSize blkSize block).Nodup := by
  have hsize := layout.size_pos
  refine List.Nodup.map (fun i j hij => ?_) List.nodup_range
  exact Nat.eq_of_mul_eq_mul_right (by omega : 0 < objSize.toNat) (by omega)

theorem Within.block_eq (h : Within blkSize block ptr) (hblock : block % blkSize.toNat = 0) :
    ptr / blkSize.toNat * blkSize.toNat = block := by
  obtain ⟨hlow, hhigh⟩ := h
  obtain ⟨q, rfl⟩ := Nat.dvd_of_mod_eq_zero hblock
  have hpos : 0 < blkSize.toNat := by omega
  have hq : ptr / blkSize.toNat = q :=
    Nat.div_eq_of_lt_le (by rwa [Nat.mul_comm]) (by rw [Nat.succ_mul, Nat.mul_comm]; exact hhigh)
  rw [hq, Nat.mul_comm]

theorem Within.eq (h : Within blkSize block ptr) (h' : Within blkSize other ptr)
    (hblock : block % blkSize.toNat = 0) (hother : other % blkSize.toNat = 0) : block = other :=
  (h.block_eq hblock).symm.trans (h'.block_eq hother)

/-! ## Free lists -/

/-- The free list that begins with `head` goes through these objects. -/
def FreeChain (next : ℕ → ℕ) : ℕ → List ℕ → Prop
  | head, [] => head = 0
  | head, element :: rest => head = element ∧ element ≠ 0 ∧ FreeChain next (next element) rest

theorem FreeChain.congr {elements : List ℕ} (h : FreeChain next head elements)
    (hnext : ∀ element ∈ elements, next' element = next element) :
    FreeChain next' head elements := by
  induction elements generalizing head with
  | nil => exact h
  | cons element rest ih =>
      obtain ⟨hfirst, hrest⟩ := List.forall_mem_cons.mp hnext
      refine ⟨h.1, h.2.1, ?_⟩
      rw [hfirst]
      exact ih h.2.2 hrest

/-- **The constructor's loop** links the objects, the last one first. -/
theorem linkObjects_chain {dataBegin : ℕ} (hsize : 0 < objSize.toNat) (hbegin : dataBegin ≠ 0)
    (next : ℕ → ℕ) (n : ℕ) :
    FreeChain (SlabBlock.linkObjects dataBegin objSize next n).1
        (SlabBlock.linkObjects dataBegin objSize next n).2
        ((List.range n).map fun i => dataBegin + i * objSize.toNat).reverse ∧
      ∀ ptr, ptr ∉ (List.range n).map (fun i => dataBegin + i * objSize.toNat) →
        (SlabBlock.linkObjects dataBegin objSize next n).1 ptr = next ptr := by
  induction n with
  | zero => exact ⟨rfl, fun _ _ => rfl⟩
  | succ n ih =>
      obtain ⟨hchain, hothers⟩ := ih
      have hnew : dataBegin + n * objSize.toNat ∉
          (List.range n).map (fun i => dataBegin + i * objSize.toNat) := by
        intro hmem
        obtain ⟨i, hi, heq⟩ := List.mem_map.mp hmem
        have hlt := Nat.mul_lt_mul_of_pos_right (List.mem_range.mp hi) hsize
        omega
      rw [List.range_succ, List.map_append, List.reverse_append]
      have hself : (SlabBlock.linkObjects dataBegin objSize next (n + 1)).1
          (dataBegin + n * objSize.toNat) = (SlabBlock.linkObjects dataBegin objSize next n).2 :=
        update_self _ _ _
      have helement : dataBegin + n * objSize.toNat ≠ 0 := by omega
      refine ⟨⟨rfl, helement, ?_⟩, fun ptr hptr => ?_⟩
      · rw [hself]
        refine hchain.congr fun element hmem => update_of_ne ?_ _ _
        exact ne_of_mem_of_not_mem (List.mem_reverse.mp hmem) hnew
      · rw [List.mem_append, not_or] at hptr
        show update _ _ _ ptr = _
        rw [update_of_ne (fun heq => hptr.2 (List.mem_singleton.mpr heq)),
          hothers ptr hptr.1]

/-! ## The invariant -/

/-- The live objects of a block. -/
def liveIn (blkSize : U64) (block : ℕ) (live : List ℕ) : List ℕ :=
  live.filter (Within blkSize block ·)

theorem mem_liveIn {live : List ℕ} :
    ptr ∈ liveIn blkSize block live ↔ ptr ∈ live ∧ Within blkSize block ptr := by
  rw [liveIn, List.mem_filter, decide_eq_true_iff]

/-- A block: its header is right, and its objects are free or live. -/
structure Held (objSize blkSize : U64) (header : SlabBlock) (next : ℕ → ℕ) (live : List ℕ)
    (block : ℕ) : Prop where
  objectSize_eq : header.objectSize = objSize
  total_eq : header.totalObjects = SlabBlock.countObjects objSize blkSize
  allocated_eq : header.allocatedObjects = (liveIn blkSize block live).length
  parts : ∃ elements, FreeChain next header.freelistHead elements ∧
    (elements ++ liveIn blkSize block live).Perm (objects objSize blkSize block)

variable {header : SlabBlock} {live live' : List ℕ}

theorem Held.mem_objects (held : Held objSize blkSize header next live block) (h : ptr ∈ live)
    (hwithin : Within blkSize block ptr) : ptr ∈ objects objSize blkSize block := by
  obtain ⟨elements, -, hperm⟩ := held.parts
  exact hperm.mem_iff.mp (List.mem_append_right _ (mem_liveIn.mpr ⟨h, hwithin⟩))

theorem Held.congr (held : Held objSize blkSize header next live block)
    (hlive : liveIn blkSize block live' = liveIn blkSize block live)
    (hnext : ∀ ptr ∈ objects objSize blkSize block, ptr ∉ live → next' ptr = next ptr)
    (layout : Layout objSize blkSize) : Held objSize blkSize header next' live' block := by
  obtain ⟨elements, hchain, hperm⟩ := held.parts
  refine ⟨held.objectSize_eq, held.total_eq, by rw [hlive, held.allocated_eq], elements,
    hchain.congr fun element hmem => hnext element ?_ fun hmem' => ?_, by rwa [hlive]⟩
  · exact hperm.mem_iff.mp (List.mem_append_left _ hmem)
  · have hobject := hperm.mem_iff.mp (List.mem_append_left _ hmem)
    have hnodup := hperm.nodup_iff.mpr (layout.objects_nodup block)
    exact (List.nodup_append.mp hnodup).2.2 element hmem element
      (mem_liveIn.mpr ⟨hmem', layout.object_within hobject⟩) rfl

theorem Held.full_iff (held : Held objSize blkSize header next live block)
    (layout : Layout objSize blkSize) :
    header.allocatedObjects = SlabBlock.countObjects objSize blkSize ↔
      ∀ ptr ∈ objects objSize blkSize block, ptr ∈ live := by
  obtain ⟨elements, hchain, hperm⟩ := held.parts
  have hlength := hperm.length_eq
  have hcount := layout.count_pos
  rw [List.length_append, length_objects] at hlength
  rw [held.allocated_eq]
  constructor
  · intro hfull ptr hptr
    have hnone : elements = [] := List.eq_nil_of_length_eq_zero (by omega)
    rw [hnone, List.nil_append] at hperm
    exact (mem_liveIn.mp (hperm.mem_iff.mpr hptr)).1
  · intro hall
    cases elements with
    | nil =>
        rw [List.length_nil] at hlength
        omega
    | cons element rest =>
        have hobject := hperm.mem_iff.mp (List.mem_append_left _ List.mem_cons_self)
        have hnodup := hperm.nodup_iff.mpr (layout.objects_nodup block)
        exact absurd rfl ((List.nodup_append.mp hnodup).2.2 element List.mem_cons_self element
          (mem_liveIn.mpr ⟨hall element hobject, layout.object_within hobject⟩))

/-- The invariant. -/
structure Ok (objSize blkSize : U64) (owned : Owned) : Prop where
  objSize_eq : owned.slab.objSize = objSize
  blkSize_eq : owned.slab.blkSize = blkSize
  blocks_nodup : owned.blocks.Nodup
  block_base : ∀ block ∈ owned.blocks, block ≠ 0 ∧ block % blkSize.toNat = 0
  held : ∀ block ∈ owned.blocks,
    Held objSize blkSize (owned.slab.headers block) owned.slab.next owned.live block
  live_nodup : owned.live.Nodup
  live_within : ∀ ptr ∈ owned.live, ∃ block ∈ owned.blocks, Within blkSize block ptr
  listed : ∃ items, owned.slab.lists.Represents items ∧
    (items .freeBlocks ++ items .fullBlocks).Perm owned.blocks ∧
    ∀ block ∈ owned.blocks, block ∈ items .fullBlocks ↔
      (owned.slab.headers block).allocatedObjects = SlabBlock.countObjects objSize blkSize

variable {owned : Owned}

theorem Ok.sound (ok : Ok objSize blkSize owned) (layout : Layout objSize blkSize) :
    Sound objSize blkSize owned where
  distinct := ok.live_nodup
  placed := by
    intro ptr hptr
    obtain ⟨block, hblock, hwithin⟩ := ok.live_within ptr hptr
    have hobject := (ok.held block hblock).mem_objects hptr hwithin
    obtain ⟨hheader, -, -, hend⟩ := layout.object_bounds hobject
    exact ⟨layout.object_mod (ok.block_base block hblock).2 hobject, block, hblock, hheader, hend⟩
  counted := fun block hblock => (ok.held block hblock).allocated_eq
  listed := by
    obtain ⟨items, hitems, hperm, hfull⟩ := ok.listed
    exact ⟨ok.blocks_nodup, items, hitems, hperm, fun block hblock =>
      (hfull block hblock).trans ((ok.held block hblock).full_iff layout)⟩

/-! ## What a call does to a block -/

theorem liveIn_cons_within (h : Within blkSize block ptr) :
    liveIn blkSize block (ptr :: live) = ptr :: liveIn blkSize block live := by
  rw [liveIn, List.filter_cons, if_pos (decide_eq_true h), liveIn]

theorem liveIn_cons_not_within (h : ¬ Within blkSize block ptr) :
    liveIn blkSize block (ptr :: live) = liveIn blkSize block live := by
  rw [liveIn, List.filter_cons, if_neg (by rwa [decide_eq_true_iff]), liveIn]

theorem liveIn_erase_not_within (hnodup : live.Nodup) (h : ¬ Within blkSize block ptr) :
    liveIn blkSize block (live.erase ptr) = liveIn blkSize block live := by
  rw [liveIn, liveIn, hnodup.erase_eq_filter, List.filter_filter]
  refine List.filter_congr fun other _ => ?_
  by_cases hother : Within blkSize block other
  · have hne : other ≠ ptr := fun heq => h (heq ▸ hother)
    simp [hother, hne]
  · simp [hother]

/-- **Taking an object** of a block that has a free one. -/
theorem Held.take (held : Held objSize blkSize header next live block)
    (layout : Layout objSize blkSize)
    (hfree : header.allocatedObjects ≠ SlabBlock.countObjects objSize blkSize) :
    header.freelistHead ≠ 0 ∧ header.freelistHead ∉ live ∧
      Within blkSize block header.freelistHead ∧
      Held objSize blkSize
        { header with
          allocatedObjects := header.allocatedObjects + 1
          freelistHead := next header.freelistHead }
        next (header.freelistHead :: live) block := by
  obtain ⟨elements, hchain, hperm⟩ := held.parts
  have hlength := hperm.length_eq
  rw [List.length_append, length_objects] at hlength
  cases elements with
  | nil =>
      rw [List.length_nil] at hlength
      have hcount := layout.count_pos
      exact absurd (held.allocated_eq.trans (by omega)) hfree
  | cons element rest =>
      obtain ⟨hhead, hnonzero, hrest⟩ := hchain
      have hobject : element ∈ objects objSize blkSize block :=
        hperm.mem_iff.mp (List.mem_append_left _ List.mem_cons_self)
      have hwithin := layout.object_within hobject
      have hnodup := hperm.nodup_iff.mpr (layout.objects_nodup block)
      have hnot : element ∉ live := fun hmem =>
        (List.nodup_append.mp hnodup).2.2 element List.mem_cons_self element
          (mem_liveIn.mpr ⟨hmem, hwithin⟩) rfl
      rw [hhead]
      refine ⟨hnonzero, hnot, hwithin, held.objectSize_eq, held.total_eq, ?_, rest, hrest, ?_⟩
      · rw [liveIn_cons_within hwithin, List.length_cons, held.allocated_eq]
        push_cast
        rfl
      · rw [liveIn_cons_within hwithin]
        exact List.perm_middle.trans hperm

/-- **Giving an object back** to its block. -/
theorem Held.give (held : Held objSize blkSize header next live block)
    (layout : Layout objSize blkSize) (hptr : ptr ∈ live)
    (hwithin : Within blkSize block ptr) :
    Held objSize blkSize
      { header with allocatedObjects := header.allocatedObjects - 1, freelistHead := ptr }
      (update next ptr header.freelistHead) (live.erase ptr) block := by
  obtain ⟨elements, hchain, hperm⟩ := held.parts
  have hobject := held.mem_objects hptr hwithin
  have hbounds := layout.object_bounds hobject
  have hlive : (liveIn blkSize block live).Perm (ptr :: liveIn blkSize block (live.erase ptr)) := by
    have h := (List.perm_cons_erase hptr).filter (decide <| Within blkSize block ·)
    rwa [List.filter_cons, if_pos (decide_eq_true hwithin)] at h
  have hnodup := hperm.nodup_iff.mpr (layout.objects_nodup block)
  have hnot : ptr ∉ elements := fun hmem =>
    (List.nodup_append.mp hnodup).2.2 ptr hmem ptr (mem_liveIn.mpr ⟨hptr, hwithin⟩) rfl
  refine ⟨held.objectSize_eq, held.total_eq, ?_, ptr :: elements, ⟨rfl, by omega, ?_⟩, ?_⟩
  · have hlength := hlive.length_eq
    rw [List.length_cons] at hlength
    dsimp only
    rw [held.allocated_eq, hlength]
    push_cast
    omega
  · rw [update_self]
    exact hchain.congr fun element hmem =>
      update_of_ne (ne_of_mem_of_not_mem hmem hnot) _ _
  · calc (ptr :: elements ++ liveIn blkSize block (live.erase ptr)).Perm
          (elements ++ ptr :: liveIn blkSize block (live.erase ptr)) := List.perm_middle.symm
      _ |>.Perm (elements ++ liveIn blkSize block live) := hlive.symm.append_left elements
      _ |>.Perm (objects objSize blkSize block) := hperm

theorem Held.new (layout : Layout objSize blkSize)
    (hlive : liveIn blkSize block live = []) (hblock : block ≠ 0) :
    Held objSize blkSize (SlabBlock.new block objSize blkSize next).1
      (SlabBlock.new block objSize blkSize next).2 live block := by
  have hsize : 0 < objSize.toNat := by
    have := layout.size_pos
    omega
  have hbegin : block + SlabBlock.dataOffset objSize ≠ 0 := by omega
  have hlinked := linkObjects_chain hsize hbegin next
    (SlabBlock.countObjects objSize blkSize).toNat
  refine ⟨rfl, rfl, by rw [hlive]; rfl, _, hlinked.1, ?_⟩
  rw [hlive, List.append_nil]
  exact List.reverse_perm _

theorem new_next (h : ptr ∉ objects objSize blkSize block) (layout : Layout objSize blkSize)
    (hblock : block ≠ 0) : (SlabBlock.new block objSize blkSize next).2 ptr = next ptr := by
  have hsize : 0 < objSize.toNat := by
    have := layout.size_pos
    omega
  have hbegin : block + SlabBlock.dataOffset objSize ≠ 0 := by omega
  have hlinked := linkObjects_chain hsize hbegin next
    (SlabBlock.countObjects objSize blkSize).toNat
  exact hlinked.2 ptr h

/-! ## What a call does to the allocator -/

theorem Ok.ne_of_free (ok : Ok objSize blkSize owned) (layout : Layout objSize blkSize)
    {object element : ℕ} (hobject : object ∈ owned.live)
    (hptr : object ≤ ptr ∧ ptr < object + objSize.toNat) (hblock : block ∈ owned.blocks)
    (helement : element ∈ objects objSize blkSize block) (hfree : element ∉ owned.live) :
    element ≠ ptr := by
  rintro rfl
  obtain ⟨other, hother, hwithin⟩ := ok.live_within object hobject
  have hobject' := (ok.held other hother).mem_objects hobject hwithin
  have hbounds := layout.object_bounds hobject'
  have hsize := layout.size_pos
  have heq : block = other := (layout.object_within helement).eq ⟨by omega, by omega⟩
    (ok.block_base block hblock).2 (ok.block_base other hother).2
  subst heq
  have hapart := objects_apart helement hobject' fun heq => hfree (heq ▸ hobject)
  omega

/-- **A store** into a live object. -/
theorem Ok.store (ok : Ok objSize blkSize owned) (layout : Layout objSize blkSize) {object : ℕ}
    (hobject : object ∈ owned.live) (hptr : object ≤ ptr ∧ ptr < object + objSize.toNat)
    (value : ℕ) :
    Ok objSize blkSize { owned with
      slab := { owned.slab with next := update owned.slab.next ptr value } } :=
  { ok with
    held := fun block hblock => (ok.held block hblock).congr rfl
      (fun _ helement hfree =>
        update_of_ne (ok.ne_of_free layout hobject hptr hblock helement hfree) _ _)
      layout }

/-- **A new block** is put into the list of those with free objects. -/
theorem Ok.addBlock (ok : Ok objSize blkSize owned) (layout : Layout objSize blkSize) {region : ℕ}
    (hzero : region ≠ 0) (hmod : region % blkSize.toNat = 0) (hnew : region ∉ owned.blocks) :
    ∃ slab, owned.slab.addBlock region = some slab ∧
      Ok objSize blkSize { owned with slab := slab, blocks := region :: owned.blocks } ∧
      slab.lists.empty .freeBlocks = false := by
  obtain ⟨items, hitems, hperm, hfull⟩ := ok.listed
  have hnone : ∀ k, region ∉ items k := fun k hmem => hnew (hperm.mem_iff.mp (by
    cases k with
    | freeBlocks => exact List.mem_append_left _ hmem
    | fullBlocks => exact List.mem_append_right _ hmem))
  have hnodes : ∀ k, ∀ item ∈ items k,
      update owned.slab.lists.nodes region IntrusiveLists.unlinked item =
        owned.slab.lists.nodes item := fun k item hmem =>
    update_of_ne (ne_of_mem_of_not_mem hmem (hnone k)) _ _
  have hunlinked : (update owned.slab.lists.nodes region IntrusiveLists.unlinked
      region).listHead = none := by
    rw [update_self]
    rfl
  obtain ⟨lists, happend, hlists, -⟩ := (hitems.congr hnodes).append (k := .freeBlocks) hunlinked
  -- The objects of the other blocks lie elsewhere.
  have hother : ∀ block ∈ owned.blocks, ∀ ptr, Within blkSize block ptr →
      ¬ Within blkSize region ptr := fun block hblock ptr hwithin hwithin' =>
    hnew (hwithin.eq hwithin' (ok.block_base block hblock).2 hmod ▸ hblock)
  have hlive : liveIn blkSize region owned.live = [] := by
    refine List.filter_eq_nil_iff.mpr fun ptr hptr => ?_
    obtain ⟨block, hblock, hwithin⟩ := ok.live_within ptr hptr
    rw [decide_eq_true_iff]
    exact hother block hblock ptr hwithin
  have hadd : owned.slab.addBlock region = some
      { owned.slab with
        lists := lists
        headers := update owned.slab.headers region
          (SlabBlock.new region owned.slab.objSize owned.slab.blkSize owned.slab.next).1
        next := (SlabBlock.new region owned.slab.objSize owned.slab.blkSize owned.slab.next).2 } := by
    rw [SlabAllocator.addBlock, happend]
    rfl
  refine ⟨_, hadd, ⟨ok.objSize_eq, ok.blkSize_eq,
    List.nodup_cons.mpr ⟨hnew, ok.blocks_nodup⟩, List.forall_mem_cons.mpr ⟨⟨hzero, hmod⟩,
      ok.block_base⟩, List.forall_mem_cons.mpr ⟨?_, fun block hblock => ?_⟩, ok.live_nodup,
      fun ptr hptr => ?_, _, hlists, ?_, List.forall_mem_cons.mpr ⟨?_, fun block hblock => ?_⟩⟩, ?_⟩
  · dsimp only
    rw [update_self, ok.objSize_eq, ok.blkSize_eq]
    exact Held.new layout hlive hzero
  · have hne : block ≠ region := ne_of_mem_of_not_mem hblock hnew
    dsimp only
    rw [update_of_ne hne, ok.objSize_eq, ok.blkSize_eq]
    refine (ok.held block hblock).congr rfl (fun ptr hptr _ => ?_) layout
    refine new_next (fun hmem => ?_) layout hzero
    exact hother block hblock ptr (layout.object_within hptr) (layout.object_within hmem)
  · obtain ⟨block, hblock, hwithin⟩ := ok.live_within ptr hptr
    exact ⟨block, List.mem_cons_of_mem _ hblock, hwithin⟩
  · rw [update_self, update_of_ne (by decide), List.append_assoc]
    exact List.perm_middle.trans (hperm.cons region)
  · have hcount := layout.count_pos
    dsimp only
    rw [update_of_ne (by decide), update_self, ok.objSize_eq, ok.blkSize_eq]
    refine iff_of_false (hnone .fullBlocks) ?_
    show (0 : ℤ) ≠ _
    omega
  · have hne : block ≠ region := ne_of_mem_of_not_mem hblock hnew
    dsimp only
    rw [update_of_ne (by decide), update_of_ne hne]
    exact hfull block hblock
  · refine Bool.eq_false_iff.mpr fun hempty => ?_
    have hnil := hlists.empty_iff.mp hempty
    rw [update_self] at hnil
    exact List.append_ne_nil_of_right_ne_nil _ (List.cons_ne_nil _ _) hnil

/-- **An object** is taken of the first block with a free one. -/
theorem Ok.takeObject (ok : Ok objSize blkSize owned) (layout : Layout objSize blkSize)
    (hempty : owned.slab.lists.empty .freeBlocks = false) :
    ∃ slab ptr, owned.slab.takeObject = some (slab, ptr) ∧ ptr ≠ 0 ∧
      Ok objSize blkSize { owned with slab := slab, live := ptr :: owned.live } := by
  obtain ⟨items, hitems, hperm, hfull⟩ := ok.listed
  obtain ⟨this, rest, hfirst⟩ : ∃ this rest, items .freeBlocks = this :: rest :=
    List.exists_cons_of_ne_nil fun hnil => by
      rw [hitems.empty_iff.mpr hnil] at hempty
      cases hempty
  have hmem : this ∈ items .freeBlocks := by
    rw [hfirst]
    exact List.mem_cons_self
  have hthis : this ∈ owned.blocks := hperm.mem_iff.mp (List.mem_append_left _ hmem)
  have hnotFull : this ∉ items .fullBlocks := fun hmem' =>
    absurd (hitems.eq_of_mem hmem hmem') (by decide)
  have held := ok.held this hthis
  obtain ⟨hnonzero, hnotLive, hwithin, held'⟩ := held.take layout
    fun heq => hnotFull ((hfull this hthis).mpr heq)
  obtain ⟨header, hheader⟩ : ∃ header, header = owned.slab.headers this := ⟨_, rfl⟩
  rw [← hheader] at held hnonzero hnotLive hwithin held'
  obtain ⟨taken, htaken⟩ : ∃ taken : SlabBlock, taken =
      { header with
        allocatedObjects := header.allocatedObjects + 1
        freelistHead := owned.slab.next header.freelistHead } := ⟨_, rfl⟩
  rw [← htaken] at held'
  have hallocate : header.allocate owned.slab.next = (taken, header.freelistHead) := by
    rw [SlabBlock.allocate, if_neg hnonzero, htaken]
  have hstart : (owned.slab.lists.heads .freeBlocks).first = some this := by
    rw [hitems.heads_eq, hfirst]
    rfl
  -- The other blocks stay as they are, and only this one may have become full.
  have hheld : ∀ block ∈ owned.blocks, Held objSize blkSize
      (update owned.slab.headers this taken block) owned.slab.next
      (header.freelistHead :: owned.live) block := fun block hblock => by
    by_cases hne : block = this
    · rw [hne, update_self]
      exact held'
    · rw [update_of_ne hne]
      refine (ok.held block hblock).congr (liveIn_cons_not_within fun hwithin' => hne ?_)
        (fun _ _ _ => rfl) layout
      exact hwithin'.eq hwithin (ok.block_base block hblock).2 (ok.block_base this hthis).2
  have hlive : ∀ ptr ∈ header.freelistHead :: owned.live,
      ∃ block ∈ owned.blocks, Within blkSize block ptr :=
    List.forall_mem_cons.mpr ⟨⟨this, hthis, hwithin⟩, ok.live_within⟩
  have hnodup := List.nodup_cons.mpr ⟨hnotLive, ok.live_nodup⟩
  have hsame : ∀ block ∈ owned.blocks, block ≠ this →
      (update owned.slab.headers this taken block).allocatedObjects =
        (owned.slab.headers block).allocatedObjects := fun block _ hne => by
    rw [update_of_ne hne]
  unfold SlabAllocator.takeObject
  rw [hstart]
  dsimp only
  rw [← hheader, hallocate]
  dsimp only
  by_cases hlast : taken.allocatedObjects = taken.totalObjects
  · obtain ⟨lists, hremove, hlists, hnode, -⟩ := hitems.remove hmem
    have hunlinked : (lists.nodes this).listHead = none := by
      rw [hnode]
      rfl
    obtain ⟨lists', happend, hlists', -⟩ := hlists.append (k := .fullBlocks) hunlinked
    rw [if_pos hlast, hremove, Option.bind_some, happend]
    refine ⟨_, _, rfl, hnonzero, ok.objSize_eq, ok.blkSize_eq, ok.blocks_nodup, ok.block_base, hheld,
      hnodup, hlive, _, hlists', ?_, fun block hblock => ?_⟩
    · rw [update_self, update_of_ne (by decide), update_self,
        update_of_ne (by decide), hfirst, List.erase_cons_head, ← List.append_assoc]
      refine (List.perm_append_singleton _ _).trans ?_
      rwa [hfirst] at hperm
    · dsimp only
      rw [update_self, update_of_ne (by decide)]
      by_cases hne : block = this
      · rw [hne, update_self]
        exact iff_of_true (List.mem_append_right _ (List.mem_singleton.mpr rfl))
          (hlast.trans held'.total_eq)
      · rw [hsame block hblock hne, ← hfull block hblock, List.mem_append, List.mem_singleton,
          or_iff_left hne]
  · rw [if_neg hlast]
    refine ⟨_, _, rfl, hnonzero, ok.objSize_eq, ok.blkSize_eq, ok.blocks_nodup, ok.block_base, hheld,
      hnodup, hlive, items, hitems, hperm, fun block hblock => ?_⟩
    dsimp only
    by_cases hne : block = this
    · rw [hne, update_self]
      exact iff_of_false hnotFull fun heq => hlast (heq.trans held'.total_eq.symm)
    · rw [hsame block hblock hne, ← hfull block hblock]

/-- **`free`** of a live object. -/
theorem Ok.free (ok : Ok objSize blkSize owned) (layout : Layout objSize blkSize)
    (hptr : ptr ∈ owned.live) :
    ∃ slab, owned.slab.free ptr = some slab ∧
      Ok objSize blkSize { owned with slab := slab, live := owned.live.erase ptr } := by
  obtain ⟨this, hthis, hwithin⟩ := ok.live_within ptr hptr
  obtain ⟨items, hitems, hperm, hfull⟩ := ok.listed
  have held := ok.held this hthis
  have hobject := held.mem_objects hptr hwithin
  have hbounds := layout.object_bounds hobject
  have hbase := (ok.block_base this hthis).2
  have hblockOf : owned.slab.blockOf ptr = this := by
    rw [blockOf, ok.blkSize_eq, hwithin.block_eq hbase]
  obtain ⟨header, hheader⟩ : ∃ header, header = owned.slab.headers this := ⟨_, rfl⟩
  rw [← hheader] at held
  have held' := held.give layout hptr hwithin
  have hsize := layout.size_pos
  have hchecks : (ptr ≥ header.dataBegin this ∧ ptr < header.dataEnd this) ∧
      ptr % header.objectSize.toNat = 0 := by
    unfold SlabBlock.dataEnd SlabBlock.dataBegin
    rw [held.objectSize_eq, held.total_eq, layout.end_eq]
    exact ⟨⟨by omega, by omega⟩, layout.object_mod hbase hobject⟩
  have hcount : header.allocatedObjects ≤ SlabBlock.countObjects objSize blkSize := by
    obtain ⟨elements, -, hparts⟩ := held.parts
    have hlength := hparts.length_eq
    rw [List.length_append, length_objects] at hlength
    rw [held.allocated_eq]
    have := layout.count_pos
    omega
  obtain ⟨given, hgiven⟩ : ∃ given : SlabBlock, given =
      { header with allocatedObjects := header.allocatedObjects - 1, freelistHead := ptr } :=
    ⟨_, rfl⟩
  rw [← hgiven] at held'
  have hdeallocate : header.deallocate this owned.slab.next ptr =
      some (given, update owned.slab.next ptr header.freelistHead) := by
    rw [SlabBlock.deallocate, if_pos hchecks, hgiven]
  have hnotFull : given.allocatedObjects ≠ SlabBlock.countObjects objSize blkSize := by
    rw [hgiven]
    dsimp only
    omega
  have hheld : ∀ block ∈ owned.blocks, Held objSize blkSize
      (update owned.slab.headers this given block)
      (update owned.slab.next ptr header.freelistHead) (owned.live.erase ptr) block :=
    fun block hblock => by
      by_cases hne : block = this
      · rw [hne, update_self]
        exact held'
      · have hapart : ¬ Within blkSize block ptr := fun hwithin' =>
          hne (hwithin'.eq hwithin (ok.block_base block hblock).2 hbase)
        rw [update_of_ne hne]
        refine (ok.held block hblock).congr (liveIn_erase_not_within ok.live_nodup hapart)
          (fun element helement _ => update_of_ne ?_ _ _) layout
        rintro rfl
        exact hapart (layout.object_within helement)
  have hlive : ∀ other ∈ owned.live.erase ptr, ∃ block ∈ owned.blocks, Within blkSize block other :=
    fun other hother => ok.live_within other (List.mem_of_mem_erase hother)
  have hnodup := ok.live_nodup.erase ptr
  unfold SlabAllocator.free
  dsimp only
  rw [hblockOf, ← hheader]
  by_cases hwas : header.allocatedObjects = header.totalObjects
  · have hmem : this ∈ items .fullBlocks :=
      (hfull this hthis).mpr (hheader ▸ hwas.trans held.total_eq)
    have hnotFree : this ∉ items .freeBlocks := fun hmem' =>
      absurd (hitems.eq_of_mem hmem hmem') (by decide)
    obtain ⟨lists, hremove, hlists, hnode, -⟩ := hitems.remove hmem
    have hunlinked : (lists.nodes this).listHead = none := by
      rw [hnode]
      rfl
    obtain ⟨lists', happend, hlists', -⟩ := hlists.append (k := .freeBlocks) hunlinked
    rw [if_pos hwas, hremove, Option.bind_some, happend, Option.bind_some, hdeallocate]
    refine ⟨_, rfl, ok.objSize_eq, ok.blkSize_eq, ok.blocks_nodup, ok.block_base, hheld, hnodup,
      hlive, _, hlists', ?_, fun block hblock => ?_⟩
    · rw [update_self, update_of_ne (by decide), update_of_ne (by decide),
        update_self, List.append_assoc, List.singleton_append]
      exact ((List.perm_cons_erase hmem).symm.append_left _).trans hperm
    · dsimp only
      rw [update_of_ne (by decide), update_self]
      by_cases hne : block = this
      · rw [hne, update_self]
        exact iff_of_false (fun hmem' => ((hitems.nodup _).mem_erase_iff.mp hmem').1 rfl) hnotFull
      · rw [update_of_ne hne, ← hfull block hblock]
        exact List.mem_erase_of_ne hne
  · rw [if_neg hwas, Option.bind_some, hdeallocate]
    refine ⟨_, rfl, ok.objSize_eq, ok.blkSize_eq, ok.blocks_nodup, ok.block_base, hheld, hnodup,
      hlive, items, hitems, hperm, fun block hblock => ?_⟩
    dsimp only
    by_cases hne : block = this
    · rw [hne, update_self]
      refine iff_of_false (fun hmem => hwas ?_) hnotFull
      rw [hheader, (hfull this hthis).mp hmem, ← held.total_eq, hheader]
    · rw [update_of_ne hne, ← hfull block hblock]

/-! ## Runs -/

/-- **One step** succeeds, keeps the invariant and returns no null pointer. -/
theorem Ok.step (ok : Ok objSize blkSize owned) (layout : Layout objSize blkSize) (op : Op)
    (legal : Legal owned op) :
    ∃ moved, SlabAllocator.step owned op = some moved ∧ Ok objSize blkSize moved.1 ∧
      moved.2 ≠ some 0 := by
  cases op with
  | allocate region =>
      cases hempty : owned.slab.lists.empty .freeBlocks with
      | true =>
          obtain ⟨hzero, hmod, -, hnew⟩ := legal hempty
          rw [ok.blkSize_eq] at hmod
          obtain ⟨added, hadd, ok₁, hfree⟩ := ok.addBlock layout hzero hmod hnew
          obtain ⟨slab, ptr, htake, hnonzero, ok₂⟩ := ok₁.takeObject layout hfree
          dsimp only at htake
          have hallocate : owned.slab.allocate region = some (slab, ptr) := by
            rw [SlabAllocator.allocate, if_pos hempty, hadd, Option.bind_some, htake]
          refine ⟨(_, some ptr), ?_, ok₂, fun heq => hnonzero (Option.some_inj.mp heq)⟩
          rw [SlabAllocator.step, hallocate, Option.map_some, if_pos hempty]
      | false =>
          have hempty' : ¬ owned.slab.lists.empty .freeBlocks = true := Bool.eq_false_iff.mp hempty
          obtain ⟨slab, ptr, htake, hnonzero, ok₁⟩ := ok.takeObject layout hempty
          have hallocate : owned.slab.allocate region = some (slab, ptr) := by
            rw [SlabAllocator.allocate, if_neg hempty', htake]
          refine ⟨(_, some ptr), ?_, ok₁, fun heq => hnonzero (Option.some_inj.mp heq)⟩
          rw [SlabAllocator.step, hallocate, Option.map_some, if_neg hempty']
  | free ptr =>
      obtain ⟨slab, hfree, ok'⟩ := ok.free layout legal
      exact ⟨_, by rw [SlabAllocator.step, hfree]; rfl, ok', (Option.some_ne_none _).symm⟩
  | store ptr value =>
      obtain ⟨object, hobject, hlow, hhigh⟩ := legal
      rw [ok.objSize_eq] at hhigh
      exact ⟨_, rfl, ok.store layout hobject ⟨hlow, by omega⟩ value, (Option.some_ne_none _).symm⟩

theorem ok_new {slab : SlabAllocator} (hnew : SlabAllocator.new objSize = some slab) :
    Ok objSize (defaultBlockSize objSize) ⟨slab, [], []⟩ := by
  unfold SlabAllocator.new at hnew
  split_ifs at hnew
  cases hnew
  exact ⟨rfl, rfl, List.nodup_nil, List.forall_mem_nil _, List.forall_mem_nil _, List.nodup_nil,
    List.forall_mem_nil _, fun _ => [], ⟨fun _ => rfl, fun _ => List.nodup_nil, fun _ => trivial⟩,
    List.Perm.nil, List.forall_mem_nil _⟩

theorem legal_of_wraps {slab : SlabAllocator} (hnew : SlabAllocator.new objSize = some slab)
    (hwraps : defaultBlockSize objSize = 0) (op : Op) : ¬ Legal ⟨slab, [], []⟩ op := by
  unfold SlabAllocator.new at hnew
  split_ifs at hnew
  cases hnew
  intro legal
  cases op with
  | allocate region =>
      obtain ⟨hzero, hmod, -⟩ := legal rfl
      dsimp only at hmod
      rw [hwraps] at hmod
      exact hzero ((Nat.mod_zero region).symm.trans hmod)
  | free ptr => exact List.not_mem_nil legal
  | store ptr value =>
      obtain ⟨object, hobject, -⟩ := legal
      exact List.not_mem_nil hobject

/-- **Every run of a slab allocator is sound**, whatever the power of two that its objects have
as their size: each call ends, no null pointer is returned, and the live objects, the counters
and the lists of blocks agree. -/
theorem run_within_blocks {k : ℕ} (hk : 5 ≤ k) (hbits : k < 64) {slab : SlabAllocator}
    (hnew : SlabAllocator.new (BitVec.ofNat 64 (2 ^ k)) = some slab) {ops : List Op}
    (legal : StepsMeet SlabAllocator.step Legal ⟨slab, [], []⟩ ops) (n : ℕ) :
    ∃ final, runSteps SlabAllocator.step ⟨slab, [], []⟩ (ops.take n) = some final ∧
      Sound (BitVec.ofNat 64 (2 ^ k)) (defaultBlockSize (BitVec.ofNat 64 (2 ^ k))) final.1 ∧
      ∀ out ∈ final.2, out ≠ some 0 := by
  have ok := ok_new hnew
  by_cases hsmall : k < 60
  · have layout := layout_default k (List.mem_range'_1.mpr ⟨hk, by omega⟩)
    obtain ⟨final, hrun, ok', houts⟩ := runSteps_completes_allowed (· ≠ some 0)
      (fun owned op ok legal => ok.step layout op legal) ok legal n
    exact ⟨final, hrun, ok'.sound layout, houts⟩
  · have hwraps := defaultBlockSize_wraps k (List.mem_range'_1.mpr ⟨by omega, by omega⟩)
    cases ops with
    | nil =>
        refine ⟨(⟨slab, [], []⟩, []), by simp, ⟨List.nodup_nil, List.forall_mem_nil _,
          List.forall_mem_nil _, List.nodup_nil, ?_⟩, List.forall_mem_nil _⟩
        obtain ⟨items, hitems, hperm, -⟩ := ok.listed
        exact ⟨items, hitems, hperm, List.forall_mem_nil _⟩
    | cons op rest => exact absurd legal.1 (legal_of_wraps hnew hwraps op)

/-- Two objects of the largest size that the kernel has a slab for, the first of them written to
and freed while the other is live. -/
theorem run_within_blocks_kilobyte : ∃ slab, SlabAllocator.new (BitVec.ofNat 64 (2 ^ 10)) = some slab ∧
    ∃ final, runSteps SlabAllocator.step ⟨slab, [], []⟩
        ([.allocate 0x10000, .allocate 0, .store 0x13C08 7, .free 0x13C00].take 4) = some final ∧
      Sound (BitVec.ofNat 64 (2 ^ 10)) (defaultBlockSize (BitVec.ofNat 64 (2 ^ 10))) final.1 ∧
      ∀ out ∈ final.2, out ≠ some 0 :=
  ⟨_, rfl, run_within_blocks (by decide) (by decide) rfl (by decide +kernel) 4⟩

end SlabAllocator

end BekOS
