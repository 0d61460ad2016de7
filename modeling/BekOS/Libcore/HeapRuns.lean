import BekOS.Libcore.HeapCalls

/-!
# Runs of the user allocator

A program allocates, frees and reallocates, and writes to what it holds.  The kernel gives it pages
that it does not have yet.
-/

namespace BekOS.Allocator

/-! ## What a program does -/

/-- What a program does with its heap.  A call says what the kernel gives if it is asked. -/
inductive HeapOp where
  | allocate (size align : U64) (region : Option ℕ)
  | free (ptr : ℕ)
  | realloc (ptr : ℕ) (size : U64) (region : Option ℕ)
  | write (memory : Memory Byte)

/-- The heap, what the program holds, with the sizes that it has asked for, and the regions that the
kernel has given. -/
structure UserHeap where
  heap : Heap
  live : List Span
  regions : List Span

/-- The check on a small block fails: there is a page of data in it, or more. -/
def Refuses (heap : Heap) (ptr : ℕ) : Prop :=
  ptr ≠ 0 ∧ released heap ptr = none ∧ 4096 ≤ dataSize heap.memory (ptr - headerSize)

/-- `realloc` has the contents moved. -/
def moves (heap : Heap) (ptr : ℕ) (size : U64) : Bool :=
  ptr ≠ 0 ∧ (getSizeOfAllocation heap ptr).any fun dataSize => size.toNat > dataSize

/-- A region that is held is in the data of its block. -/
structure Serves (block region : Span) : Prop where
  start : region.start = block.start + headerSize
  room : headerSize + region.len ≤ block.len

/-- The bytes in these regions are as they were. -/
def Kept (regions : List Span) (memory memory' : Memory Byte) : Prop :=
  ∀ region ∈ regions, ∀ i < region.len, memory' (region.start + i) = memory (region.start + i)

/-- What is held without what a pointer points to. -/
def without (live : List Span) (ptr : ℕ) : List Span := live.eraseP fun region => region.start = ptr

/-- What is held with a new region, unless it is null. -/
def holding (live : List Span) (ptr : ℕ) (size : U64) : List Span :=
  if ptr = 0 then live else ⟨ptr, size.toNat⟩ :: live

namespace UserHeap

/-- A call or a write; `none` when a check fails. -/
def step (state : UserHeap) : HeapOp → Option UserHeap
  | .allocate size align region =>
      (allocate state.heap size align region).map fun done =>
        { heap := done.1, live := holding state.live (pointer done.2) size
          regions := taking state.regions state.heap size region }
  | .free ptr =>
      (Allocator.free state.heap ptr).map fun heap =>
        { heap, live := without state.live ptr, regions := giving state.regions state.heap ptr }
  | .realloc ptr size region =>
      (realloc state.heap ptr size region).map fun done =>
        { heap := done.1, live := holding (without state.live ptr) done.2 size
          regions :=
            if ptr = 0 then taking state.regions state.heap size region
            else if moves state.heap ptr size then
              giving (taking state.regions state.heap size region) state.heap ptr
            else state.regions }
  | .write memory => some { state with heap := { state.heap with memory } }

/-- The kernel gives what is asked for where there is nothing yet. -/
def GrantedOf (state : UserHeap) (size : U64) (region : Option ℕ) : Prop :=
  ∀ start, region = some start → ∀ len, asks state.heap size = some len →
    Granted state.regions ⟨start, len⟩

/-- The program holds what the pointer points to. -/
def HeldAt (state : UserHeap) (ptr : ℕ) : Prop := ∃ held ∈ state.live, held.start = ptr

/-- What a program sees to: it frees what it holds, and writes to what it holds; no size is so near
the end of 64 bits that it cannot be rounded up, with a header. -/
def Allows (state : UserHeap) : HeapOp → Prop
  | .allocate size align region => align ≤ pageSize ∧ Rounds size ∧ state.GrantedOf size region
  | .free ptr => ptr = 0 ∨ state.HeldAt ptr
  | .realloc ptr size region => (ptr = 0 ∨ state.HeldAt ptr) ∧ Rounds size ∧
      state.GrantedOf size region
  | .write memory => ∀ i, (∀ region ∈ state.live, ¬ region.Covers i) →
      memory i = state.heap.memory i

/-- A heap before the first call. -/
def initial (memory : Memory Byte) : UserHeap := ⟨⟨memory, 0, 0, 0, 0⟩, [], []⟩

/-- What a program can come to. -/
inductive Reaches : UserHeap → Prop
  | initial (memory : Memory Byte) : Reaches (initial memory)
  | step {state state' : UserHeap} {op : HeapOp} (hreaches : Reaches state)
      (hallows : state.Allows op) (hstep : state.step op = some state') : Reaches state'

/-! ## What one can count on -/

/-- The lists of the heap, the regions of the kernel and what is held agree on the blocks: no block
is lost, and none is in two of them. -/
structure Sound (state : UserHeap) (blocks : Blocks) : Prop where
  free : Listed state.heap.memory state.heap.freeBlocks blocks.free 0
  huge : Listed state.heap.memory state.heap.hugeBlockHead blocks.huge 0
  regions : state.regions.Perm (blocks.slabs ++ blocks.huge)
  tiles : Tiles (blocks.free ++ blocks.live) blocks.slabs
  apart : (blocks.free ++ (blocks.live ++ blocks.huge)).Pairwise Span.Apart
  sorted : blocks.free.Pairwise fun block other => block.stop ≤ other.start
  touching : blocks.free.IsChain (Before blocks.slabs)
  held : ∃ owners, owners.Perm (blocks.live ++ blocks.huge) ∧
    List.Forall₂ Serves owners state.live
  held_apart : state.live.Pairwise Span.Apart
  aligned : ∀ region ∈ state.live, 8 ∣ region.start
  pages : ∀ block ∈ blocks.huge, 4096 ∣ block.start

/-- The calls that fail a check: `free` of a small block with a page of data, and `realloc` of one,
or of a block with more data than can be copied. -/
def Fails (state : UserHeap) : HeapOp → Prop
  | .free ptr => Refuses state.heap ptr
  | .realloc ptr size region => Refuses state.heap ptr ∨ ptr ≠ 0 ∧ region ≠ none ∧
      ∃ block, released state.heap ptr = some block ∧ maxMemcopy + headerSize < block.len ∧
        block.len < headerSize + size.toNat
  | _ => False

/-- What `realloc` does with what is held; for null, it is `allocate`. -/
def Reallocates (state : UserHeap) (ptr : ℕ) (size : U64) (region : Option ℕ)
    (state' : UserHeap) : Prop :=
  Kept (without state.live ptr) state.heap.memory state'.heap.memory ∧
    ((state'.live = without state.live ptr ∧
        (ptr = 0 ∨ moves state.heap ptr size = true) ∧ Denied state.heap size region) ∨
      ∃ target, target ≠ 0 ∧ state'.live = ⟨target, size.toNat⟩ :: without state.live ptr ∧
        ¬ ((ptr = 0 ∨ moves state.heap ptr size = true) ∧ Denied state.heap size region) ∧
        ∀ held ∈ state.live, held.start = ptr → ∀ i < held.len, i < size.toNat →
          state'.heap.memory (target + i) = state.heap.memory (ptr + i))

/-- What a call leaves of what is held, and what it gives. -/
def Leaves (state : UserHeap) : HeapOp → UserHeap → Prop
  | .allocate size _ region, state' => state.Reallocates 0 size region state'
  | .free ptr, state' => state'.live = without state.live ptr ∧
      Kept state'.live state.heap.memory state'.heap.memory
  | .realloc ptr size region, state' => state.Reallocates ptr size region state'
  | .write _, state' => state'.live = state.live

end UserHeap

/-! ## The blocks behind what is held -/

section Blocks

variable {heap : Heap} {blocks : Blocks} {live owners before after : List Span}
  {block other region : Span} {memory memory' memory'' : Memory Byte}

/-- Other data in the blocks. -/
theorem Heap.Holds.write (holds : heap.Holds blocks)
    (hsame : ∀ block ∈ blocks.free ++ (blocks.live ++ blocks.huge), ∀ i < headerSize,
      memory (block.start + i) = heap.memory (block.start + i)) :
    Heap.Holds { heap with memory } blocks := by
  have hnext : ∀ block ∈ blocks.free ++ (blocks.live ++ blocks.huge),
      next memory block.start = next heap.memory block.start := fun block hblock =>
    leRead_congr fun i hi => hsame block hblock i (hi.trans (by decide))
  have hsize : ∀ block ∈ blocks.free ++ (blocks.live ++ blocks.huge),
      size memory block.start = size heap.memory block.start := by
    refine fun block hblock => leRead_congr fun i hi => ?_
    rw [Nat.add_assoc]
    exact hsame block hblock _ (by unfold headerSize; omega)
  have hlisted {first : ℕ} {list : List Span} (h : Listed heap.memory first list 0)
      (hmem : ∀ block ∈ list, block ∈ blocks.free ++ (blocks.live ++ blocks.huge)) :
      Listed memory first list 0 :=
    ⟨h.linked.congr (List.forall_mem_map.mpr fun block hblock => hnext block (hmem block hblock)),
      fun block hblock => (hsize block (hmem block hblock)).trans (h.sizes block hblock)⟩
  exact ⟨holds.laid, hlisted holds.free fun block hblock => by simp [hblock],
    hlisted holds.huge fun block hblock => by simp [hblock],
    fun block hblock => (hsize block (by simp [hblock])).trans (holds.live block hblock),
    holds.tracked⟩

/-- What is held has no place in common with a block that is not its own. -/
theorem Serves.not_covers (hserves : Serves block region) {i : ℕ}
    (hapart : block = other ∨ block.Apart other) (hother : headerSize ≤ other.len)
    (hi : i < headerSize) : ¬ region.Covers (other.start + i) := by
  obtain ⟨hstart, hroom⟩ := hserves
  unfold Span.Covers Span.stop
  rcases hapart with rfl | hapart
  · omega
  · unfold Span.Apart Span.stop at hapart
    omega

/-- One of two lists that belong together is taken apart where the other is. -/
theorem forall₂_append_cons (h : List.Forall₂ Serves owners (before ++ region :: after)) :
    ∃ front block back, owners = front ++ block :: back ∧ Serves block region ∧
      List.Forall₂ Serves (front ++ back) (before ++ after) := by
  induction before generalizing owners with
  | nil =>
      obtain ⟨block, back, hserves, hback, rfl⟩ := List.forall₂_cons_right_iff.mp h
      exact ⟨[], block, back, rfl, hserves, hback⟩
  | cons other before ih =>
      obtain ⟨first, rest, hfirst, hrest, rfl⟩ := List.forall₂_cons_right_iff.mp h
      obtain ⟨front, block, back, rfl, hserves, hothers⟩ := ih hrest
      exact ⟨first :: front, block, back, rfl, hserves, List.Forall₂.cons hfirst hothers⟩

theorem kept_of_serves (h : List.Forall₂ Serves owners live)
    (hdata : ∀ block ∈ owners, SameData block memory memory') : Kept live memory memory' := by
  intro region hregion i hi
  obtain ⟨before, after, rfl⟩ := List.append_of_mem hregion
  obtain ⟨front, block, back, rfl, ⟨hstart, hroom⟩, -⟩ := forall₂_append_cons h
  rw [hstart, Nat.add_assoc]
  exact hdata block (by simp) _ (Nat.le_add_right _ _) (by omega)

theorem Kept.trans (h : Kept live memory memory') (h' : Kept live memory' memory'') :
    Kept live memory memory'' :=
  fun region hregion i hi => (h' region hregion i hi).trans (h region hregion i hi)

theorem Kept.mono {regions : List Span} (h : Kept live memory memory') (hsubset : regions ⊆ live) :
    Kept regions memory memory' := fun region hregion => h region (hsubset hregion)

theorem holding_of_ne {ptr : ℕ} {size : U64} (hptr : ptr ≠ 0) :
    holding live ptr size = ⟨ptr, size.toNat⟩ :: live := if_neg hptr

theorem realloc_of_move {heap' : Heap} {ptr n : ℕ} {size : U64} {region : Option ℕ}
    {result : AllocatedRegion} (hptr : ptr ≠ 0) (hdata : getSizeOfAllocation heap ptr = some n)
    (hmoves : size.toNat > n) (hdone : allocate heap size 8 region = some (heap', result)) :
    realloc heap ptr size region = (copyOver heap' ptr n result).bind fun copied =>
      (free copied ptr).map fun freed => (freed, pointer result) := by
  unfold realloc
  rw [if_neg hptr, hdata, Option.bind_eq_bind, Option.bind_some, if_pos hmoves, hdone,
    Option.bind_eq_bind, Option.bind_some]
  refine congrArg _ (funext fun copied => ?_)
  cases free copied ptr <;> rfl

end Blocks

/-- The blocks of a heap, and for each region that is held the block that it is in. -/
structure Right (state : UserHeap) (blocks : Blocks) (owners : List Span) : Prop where
  holds : state.heap.Holds blocks
  regions : state.regions.Perm (blocks.slabs ++ blocks.huge)
  owned : owners.Perm (blocks.live ++ blocks.huge)
  serves : List.Forall₂ Serves owners state.live

namespace Right

variable {state : UserHeap} {blocks : Blocks} {owners : List Span} {size align : U64}
  {region : Option ℕ} {block held : Span} {memory : Memory Byte} {ptr n : ℕ}

theorem initial (memory : Memory Byte) : Right (.initial memory) ⟨[], [], [], []⟩ [] where
  holds := ⟨⟨tiles_nil, List.isChain_nil, List.forall_mem_nil _, List.forall_mem_nil _,
    List.Pairwise.nil, List.forall_mem_nil _, List.forall_mem_nil _⟩,
    ⟨rfl, List.forall_mem_nil _⟩, ⟨rfl, List.forall_mem_nil _⟩, List.forall_mem_nil _,
    List.forall_mem_nil _⟩
  regions := List.Perm.nil
  owned := List.Perm.nil
  serves := List.Forall₂.nil

theorem mem (right : Right state blocks owners) (hblock : block ∈ owners) :
    block ∈ blocks.free ++ (blocks.live ++ blocks.huge) :=
  List.mem_append_right _ (right.owned.mem_iff.mp hblock)

theorem fits (right : Right state blocks owners) (hblock : block ∈ owners) : Fits block :=
  right.holds.fits block (right.mem hblock)

theorem apart (right : Right state blocks owners) : owners.Pairwise Span.Apart :=
  (right.owned.pairwise_iff Span.Apart.symm).mpr
    (List.pairwise_append.mp right.holds.laid.apart).2.1

theorem exists_owner (right : Right state blocks owners) (hheld : held ∈ state.live) :
    ∃ block ∈ owners, Serves block held := by
  obtain ⟨before, after, hlive⟩ := List.append_of_mem hheld
  obtain ⟨front, block, back, rfl, hserves, -⟩ := forall₂_append_cons (hlive ▸ right.serves)
  exact ⟨block, by simp, hserves⟩

/-- **What is held lies apart.** -/
theorem live_apart (right : Right state blocks owners) : state.live.Pairwise Span.Apart := by
  have hserves := right.serves
  have hapart := right.apart
  generalize state.live = live at hserves
  clear right
  induction hserves with
  | nil => exact List.Pairwise.nil
  | @cons block region owners live hfirst hrest ih =>
      obtain ⟨hblock, hothers⟩ := List.pairwise_cons.mp hapart
      refine List.pairwise_cons.mpr ⟨fun other hother => ?_, ih hothers⟩
      obtain ⟨before, after, rfl⟩ := List.append_of_mem hother
      obtain ⟨front, owner, back, rfl, ⟨hstart, hroom⟩, -⟩ := forall₂_append_cons hrest
      have happly := hblock owner (by simp)
      obtain ⟨hstart', hroom'⟩ := hfirst
      unfold Span.Apart Span.stop at *
      omega

theorem sound (right : Right state blocks owners) : state.Sound blocks where
  free := right.holds.free
  huge := right.holds.huge
  regions := right.regions
  tiles := right.holds.laid.tiles
  apart := right.holds.laid.apart
  sorted := right.holds.laid.sorted
  touching := right.holds.laid.order
  held := ⟨owners, right.owned, right.serves⟩
  held_apart := right.live_apart
  aligned held hheld := by
    obtain ⟨block, hblock, hserves⟩ := right.exists_owner hheld
    rw [hserves.start]
    exact Nat.dvd_add (right.fits hblock).start_dvd (by decide)
  pages := right.holds.laid.pages

/-- **Writing** to what is held. -/
theorem write (right : Right state blocks owners)
    (hsame : ∀ i, (∀ held ∈ state.live, ¬ held.Covers i) → memory i = state.heap.memory i) :
    Right { state with heap := { state.heap with memory } } blocks owners where
  holds := by
    refine right.holds.write fun block hblock i hi => hsame _ fun held hheld => ?_
    obtain ⟨owner, howner, hserves⟩ := right.exists_owner hheld
    exact hserves.not_covers (right.holds.laid.eq_or_apart (right.mem howner) hblock)
      (Nat.le_of_add_right_le (right.holds.fits block hblock).room) hi
  regions := right.regions
  owned := right.owned
  serves := right.serves

/-- **`allocate`** gives a block of its own, or nothing. -/
theorem allocate (right : Right state blocks owners) (halign : align ≤ pageSize)
    (hrounds : Rounds size) (hgranted : state.GrantedOf size region) :
    ∃ heap' result blocks' owners',
      Allocator.allocate state.heap size align region = some (heap', result) ∧
      Right ⟨heap', holding state.live (pointer result) size,
        taking state.regions state.heap size region⟩ blocks' owners' ∧
      blocks.live ⊆ blocks'.live ∧ blocks.huge ⊆ blocks'.huge ∧
      Kept state.live state.heap.memory heap'.memory ∧
      (result = none ∧ Denied state.heap size region ∨
        ∃ block, result = some (block.start + headerSize, block.len - headerSize) ∧
          owners' = block :: owners ∧ ¬ Denied state.heap size region) := by
  obtain ⟨heap', result, blocks', hdone, hholds, ⟨hlive, hhuge, hregions, hresult⟩, hdata⟩ :=
    allocate_holds right.holds halign hrounds fun start hstart len hlen =>
      (hgranted start hstart len hlen).perm right.regions
  have hkept : Kept state.live state.heap.memory heap'.memory :=
    kept_of_serves right.serves fun block hblock => hdata block (right.owned.mem_iff.mp hblock)
  have htaken := hregions _ right.regions
  rcases hresult with ⟨rfl, rfl, hdenied⟩ | ⟨block, rfl, hperm, hroom, hgiven⟩
  · exact ⟨heap', none, blocks', owners, hdone, ⟨hholds, htaken, right.owned, right.serves⟩,
      hlive, hhuge, hkept, Or.inl ⟨rfl, hdenied⟩⟩
  · refine ⟨heap', _, blocks', block :: owners, hdone, ⟨hholds, htaken,
      (right.owned.cons block).trans hperm, ?_⟩, hlive, hhuge, hkept,
      Or.inr ⟨block, rfl, rfl, hgiven⟩⟩
    show List.Forall₂ Serves _ (holding state.live (block.start + headerSize) size)
    have hpos : block.start + headerSize ≠ 0 := Nat.succ_ne_zero _
    rw [holding_of_ne hpos]
    exact List.Forall₂.cons ⟨rfl, hroom⟩ right.serves

/-- The block of a pointer that the program holds. -/
theorem find (right : Right state blocks owners) (hheld : state.HeldAt ptr) :
    ∃ front block back, owners = front ++ block :: back ∧ ptr = block.start + headerSize ∧
      (∀ held ∈ state.live, held.start = ptr → Serves block held) ∧
      List.Forall₂ Serves (front ++ back) (without state.live ptr) := by
  obtain ⟨held, hmem, hstart⟩ := hheld
  obtain ⟨first, before, after, -, hfirst, hlive, hwithout⟩ :=
    List.exists_of_eraseP (p := fun region : Span => region.start = ptr) hmem
      (by simpa using hstart)
  obtain ⟨front, block, back, rfl, hserves, hothers⟩ := forall₂_append_cons (hlive ▸ right.serves)
  have hptr : ptr = block.start + headerSize :=
    (of_decide_eq_true hfirst).symm.trans hserves.start
  refine ⟨front, block, back, rfl, hptr, fun other hother hsame => ?_, ?_⟩
  on_goal 2 => rwa [without, hwithout]
  obtain ⟨owner, howner, hserves'⟩ := right.exists_owner hother
  have hblock : block ∈ front ++ block :: back := by simp
  rcases right.holds.laid.eq_or_apart (right.mem howner) (right.mem hblock) with rfl | hapart
  · exact hserves'
  · have hne := (right.fits howner).start_ne (right.fits hblock) hapart
    have := hserves'.start
    omega

theorem refuses_iff (right : Right state blocks owners) (hblock : block ∈ blocks.live) :
    Refuses state.heap (block.start + headerSize) ↔ ¬ Sane block := by
  have hroom := (right.holds.fits block (by simp [hblock])).room
  unfold Refuses Sane dataSize
  rw [released_live right.holds hblock, Nat.add_sub_cancel, right.holds.live block hblock]
  unfold headerSize at *
  refine ⟨fun ⟨_, _, hmost⟩ hsane => ?_, fun hinsane => ⟨Nat.succ_ne_zero _, rfl, ?_⟩⟩ <;> omega

theorem sane (right : Right state blocks owners) (hblock : block ∈ blocks.live)
    (haccepts : ¬ Refuses state.heap (block.start + headerSize)) : Sane block :=
  not_not.mp fun h => haccepts ((right.refuses_iff hblock).mpr h)

/-- **Giving back** what is held, unless the check fails. -/
theorem free (right : Right state blocks owners) (hheld : state.HeldAt ptr)
    (haccepts : ¬ Refuses state.heap ptr) :
    ∃ heap' blocks' owners', Allocator.free state.heap ptr = some heap' ∧
      Right ⟨heap', without state.live ptr, giving state.regions state.heap ptr⟩ blocks' owners' ∧
      Kept (without state.live ptr) state.heap.memory heap'.memory := by
  obtain ⟨front, block, back, rfl, rfl, -, hserves⟩ := right.find hheld
  have hmem : block ∈ front ++ block :: back := by simp
  obtain ⟨heap', blocks', hdone, hholds, hperm, hregions, hdata⟩ := free_holds right.holds
    (right.owned.mem_iff.mp hmem) fun hlive => right.sane hlive haccepts
  have howned := List.perm_middle.symm.trans (right.owned.trans hperm.symm)
  refine ⟨heap', blocks', front ++ back, hdone, ⟨hholds, hregions _ right.regions,
    (List.perm_cons block).mp howned, hserves⟩, kept_of_serves hserves fun other hother =>
      hdata other (right.owned.mem_iff.mp (List.perm_middle.mem_iff.mpr
        (List.mem_cons_of_mem _ hother))) ?_⟩
  exact ((List.pairwise_cons.mp ((List.perm_middle.pairwise_iff Span.Apart.symm).mp
    right.apart)).1 other hother).symm

/-- **The check fails** in `free` and in `get_size_of_allocation`. -/
theorem refused (right : Right state blocks owners) (hheld : state.HeldAt ptr)
    (hrefuses : Refuses state.heap ptr) :
    Allocator.free state.heap ptr = none ∧ getSizeOfAllocation state.heap ptr = none := by
  obtain ⟨front, block, back, rfl, rfl, -, -⟩ := right.find hheld
  have hblock := right.owned.mem_iff.mp (by simp : block ∈ front ++ block :: back)
  rcases List.mem_append.mp hblock with hlive | hhuge
  · have hinsane := (right.refuses_iff hlive).mp hrefuses
    exact ⟨free_live_fails right.holds hlive hinsane,
      (getSizeOfAllocation_live right.holds hlive).trans (if_neg hinsane)⟩
  · exact absurd ((released_huge right.holds hhuge).symm.trans hrefuses.2.1)
      (Option.some_ne_none _)

/-- The data of the block of a pointer, that is huge or not. -/
theorem size_eq (right : Right state blocks owners) (hheld : state.HeldAt ptr)
    (haccepts : ¬ Refuses state.heap ptr) :
    ∃ front block back, owners = front ++ block :: back ∧ ptr = block.start + headerSize ∧
      List.Forall₂ Serves (front ++ back) (without state.live ptr) ∧
      getSizeOfAllocation state.heap ptr = some (block.len - headerSize) ∧
      (∀ held ∈ state.live, held.start = ptr → held.len ≤ block.len - headerSize) ∧
      (released state.heap ptr = none ∧ block.len < headerSize + 4096 ∨
        released state.heap ptr = some block) := by
  obtain ⟨front, block, back, rfl, rfl, hserves, hothers⟩ := right.find hheld
  refine ⟨front, block, back, rfl, rfl, hothers, ?_, fun held hheld hstart =>
    Nat.le_sub_of_add_le' (hserves held hheld hstart).room, ?_⟩ <;>
    rcases List.mem_append.mp (right.owned.mem_iff.mp (by simp : block ∈ front ++ block :: back))
      with hlive | hhuge
  · rw [getSizeOfAllocation_live right.holds hlive, if_pos (right.sane hlive haccepts)]
  · exact getSizeOfAllocation_huge right.holds hhuge
  · exact Or.inl ⟨released_live right.holds hlive, (right.sane hlive haccepts).2⟩
  · exact Or.inr (released_huge right.holds hhuge)

/-- A block that is still there is what it was. -/
theorem same_class {state' : UserHeap} {blocks' : Blocks} {owners' : List Span}
    (right : Right state blocks owners) (right' : Right state' blocks' owners')
    (hlive : blocks.live ⊆ blocks'.live) (hhuge : blocks.huge ⊆ blocks'.huge)
    (hheld : state.HeldAt ptr) (haccepts : ¬ Refuses state.heap ptr) :
    ¬ Refuses state'.heap ptr ∧ released state'.heap ptr = released state.heap ptr := by
  obtain ⟨front, block, back, rfl, rfl, -, -⟩ := right.find hheld
  have hblock := right.owned.mem_iff.mp (by simp : block ∈ front ++ block :: back)
  rcases List.mem_append.mp hblock with h | h
  · rw [released_live right'.holds (hlive h), released_live right.holds h,
      right'.refuses_iff (hlive h), ← right.refuses_iff h]
    exact ⟨haccepts, rfl⟩
  · have hreleased := released_huge right'.holds (hhuge h)
    rw [hreleased, released_huge right.holds h]
    exact ⟨fun hrefuses => absurd (hreleased.symm.trans hrefuses.2.1) (Option.some_ne_none _), rfl⟩

/-- **`realloc`** of what is too small, unless the copy fails. -/
theorem realloc_moves (right : Right state blocks owners) (hheld : state.HeldAt ptr)
    (haccepts : ¬ Refuses state.heap ptr) (hdata : getSizeOfAllocation state.heap ptr = some n)
    (hlens : ∀ held ∈ state.live, held.start = ptr → held.len ≤ n) (hmoves : size.toNat > n)
    (hrounds : Rounds size) (hgranted : state.GrantedOf size region)
    (hcopies : n ≤ maxMemcopy ∨ Denied state.heap size region) :
    ∃ heap' target blocks' owners',
      realloc state.heap ptr size region = some (heap', target) ∧
      Right ⟨heap', holding (without state.live ptr) target size,
        giving (taking state.regions state.heap size region) state.heap ptr⟩ blocks' owners' ∧
      Kept (without state.live ptr) state.heap.memory heap'.memory ∧
      ((target = 0 ∧ Denied state.heap size region) ∨
        target ≠ 0 ∧ ¬ Denied state.heap size region ∧
          ∀ held ∈ state.live, held.start = ptr → ∀ i < held.len,
            heap'.memory (target + i) = state.heap.memory (ptr + i)) := by
  obtain ⟨front, owner, back, howners, hptr, -, -⟩ := right.find hheld
  have hwithout : without state.live ptr ⊆ state.live := List.eraseP_subset
  obtain ⟨heap₁, result, blocks₁, owners₁, hdone, right₁, hlive, hhuge, hkept, hresult⟩ :=
    right.allocate (by decide : (8 : U64) ≤ pageSize) hrounds hgranted
  have hrealloc := realloc_of_move (hptr ▸ Nat.succ_ne_zero _) hdata hmoves hdone
  rcases hresult with ⟨rfl, hdenied⟩ | ⟨block, rfl, rfl, hgiven⟩
  · -- The old block is given back although there is no new one.
    obtain ⟨haccepts₁, hreleased⟩ := right.same_class right₁ hlive hhuge hheld haccepts
    obtain ⟨heap₂, blocks₂, owners₂, hfreed, right₂, hkept₂⟩ := right₁.free hheld haccepts₁
    rw [giving_congr hreleased] at right₂
    refine ⟨heap₂, 0, blocks₂, owners₂, ?_, right₂, (hkept.mono hwithout).trans hkept₂,
      Or.inl ⟨rfl, hdenied⟩⟩
    rw [hrealloc, copyOver, Option.bind_some, hfreed]
    rfl
  · obtain ⟨target, htarget⟩ : ∃ target, target = block.start + headerSize := ⟨_, rfl⟩
    have hpos : target ≠ 0 := htarget ▸ Nat.succ_ne_zero _
    rw [pointer, Option.map_some, Option.getD_some, ← htarget, holding_of_ne hpos] at right₁
    have right₂ := @write _ _ _ (copyRange heap₁.memory target heap₁.memory ptr n) right₁
      fun i hi => copyRange_of_not_mem fun hmem => hi _ List.mem_cons_self
        ⟨hmem.1, hmem.2.trans_le (Nat.add_le_add_left (Nat.le_of_lt hmoves) _)⟩
    obtain ⟨haccepts₂, hreleased⟩ := right.same_class right₂ hlive hhuge hheld haccepts
    obtain ⟨heap₃, blocks₃, owners₃, hfreed, right₃, hkept₃⟩ := right₂.free
      (hheld.imp fun held h => ⟨List.mem_cons_of_mem _ h.1, h.2⟩) haccepts₂
    have hmove : without (⟨target, size.toNat⟩ :: state.live) ptr =
        ⟨target, size.toNat⟩ :: without state.live ptr := by
      refine List.eraseP_cons_of_neg fun hsame => ?_
      have hne := (right₁.fits List.mem_cons_self).start_ne (right.fits (by simp [howners]))
        ((List.pairwise_cons.mp right₁.apart).1 owner (by simp [howners]))
      have hsame : target = ptr := of_decide_eq_true hsame
      omega
    dsimp only at hkept₃
    rw [hmove] at right₃ hkept₃
    rw [giving_congr hreleased, ← holding_of_ne hpos] at right₃
    refine ⟨heap₃, target, blocks₃, owners₃, ?_, right₃, ?_, Or.inr ⟨hpos, hgiven, ?_⟩⟩
    · rw [hrealloc, copyOver, memcopy, if_pos (hcopies.resolve_right hgiven), Option.map_some,
        Option.bind_some, ← htarget, hfreed]
      rfl
    · refine (hkept.mono hwithout).trans (Kept.trans ?_ (hkept₃.mono (List.subset_cons_self ..)))
      refine fun other hother i hi => copyRange_of_not_mem fun hmem => ?_
      have hapart := (List.pairwise_cons.mp right₁.live_apart).1 other (hwithout hother)
      unfold Span.Apart Span.stop at hapart
      dsimp only at hapart
      omega
    · intro held hmem hstart i hi
      have hlen := hlens held hmem hstart
      have hsource := hkept held hmem i hi
      rw [hstart] at hsource
      have hread := hkept₃ _ List.mem_cons_self i (show i < size.toNat by omega)
      refine hread.trans ((copyRange_of_mem (Nat.le_add_right _ _) (by omega)).trans ?_)
      rwa [Nat.add_sub_cancel_left]

/-! ## Steps -/

theorem without_zero (right : Right state blocks owners) : without state.live 0 = state.live := by
  refine List.eraseP_of_forall_not fun held hheld hnull => ?_
  obtain ⟨block, -, hserves⟩ := right.exists_owner hheld
  exact Nat.succ_ne_zero _ (hserves.start.symm.trans (of_decide_eq_true hnull))

/-- `allocate`, as `realloc` of null. -/
theorem allocate_step (right : Right state blocks owners) (halign : align ≤ pageSize)
    (hrounds : Rounds size) (hgranted : state.GrantedOf size region) :
    ∃ heap' result blocks' owners',
      Allocator.allocate state.heap size align region = some (heap', result) ∧
      Right ⟨heap', holding state.live (pointer result) size,
        taking state.regions state.heap size region⟩ blocks' owners' ∧
      state.Reallocates 0 size region ⟨heap', holding state.live (pointer result) size,
        taking state.regions state.heap size region⟩ := by
  obtain ⟨heap', result, blocks', owners', hdone, right', -, -, hkept, hresult⟩ :=
    right.allocate halign hrounds hgranted
  have hzero := right.without_zero
  refine ⟨heap', result, blocks', owners', hdone, right', hzero.symm ▸ hkept, ?_⟩
  rw [hzero]
  rcases hresult with ⟨rfl, hdenied⟩ | ⟨block, rfl, -, hgiven⟩
  · exact Or.inl ⟨rfl, Or.inl rfl, hdenied⟩
  · have hpos : block.start + headerSize ≠ 0 := Nat.succ_ne_zero _
    refine Or.inr ⟨_, hpos, holding_of_ne hpos, fun h => hgiven h.2, fun held hheld hstart => ?_⟩
    obtain ⟨owner, -, hserves⟩ := right.exists_owner hheld
    exact absurd (hserves.start.symm.trans hstart) (Nat.succ_ne_zero _)

/-- The step for `realloc` of what is held. -/
theorem realloc_step (right : Right state blocks owners) (hheld : state.HeldAt ptr)
    (hrounds : Rounds size) (hgranted : state.GrantedOf size region)
    (haccepts : ¬ state.Fails (.realloc ptr size region)) :
    ∃ state' blocks' owners', state.step (.realloc ptr size region) = some state' ∧
      Right state' blocks' owners' ∧ state.Reallocates ptr size region state' := by
  obtain ⟨hsane, hcopy⟩ := not_or.mp haccepts
  obtain ⟨front, block, back, rfl, hptr, hserves, hdata, hlens, hclass⟩ :=
    right.size_eq hheld hsane
  have hnull : ptr ≠ 0 := hptr ▸ Nat.succ_ne_zero _
  have hroom := (right.fits (by simp : block ∈ front ++ block :: back)).room
  obtain ⟨n, hn⟩ : ∃ n, n = block.len - headerSize := ⟨_, rfl⟩
  rw [← hn] at hdata hlens
  have hmoves : moves state.heap ptr size = decide (size.toNat > n) := by
    simp only [moves, hdata, Option.any_some, hnull, ne_eq, not_false_eq_true, true_and,
      decide_eq_true_eq]
  unfold UserHeap.step UserHeap.Reallocates
  dsimp only
  rw [if_neg hnull, hmoves]
  by_cases hlarger : size.toNat > n
  · have hsize : size ≠ 0 := fun hzero => by
      rw [hzero] at hlarger
      exact Nat.not_lt_zero n hlarger
    have hcopies : n ≤ maxMemcopy ∨ Denied state.heap size region := by
      by_contra! hneither
      obtain ⟨hmany, hgiven⟩ := hneither
      have hmany' : 4096 < n := lt_of_le_of_lt (by decide : 4096 ≤ maxMemcopy) hmany
      have hreleased := hclass.resolve_left fun h => by omega
      refine hcopy ⟨hnull, fun hregion => hgiven (Or.inr ⟨?_, hregion⟩), block, hreleased,
        by omega, by omega⟩
      have hlarge : alignUp size 8 ≥ sizeForSeparateLargeBlock := by
        by_contra hsmall
        have hless := (wanted_alignUp hsize hrounds).2.trans_lt (Nat.lt_of_not_le hsmall)
        exact absurd (hless.trans hmany') (Nat.lt_asymm hlarger)
      rw [asks, if_neg hsize]
      exact if_pos hlarge ▸ rfl
    obtain ⟨heap', target, blocks', owners', hdone, right', hkept, hwhich⟩ :=
      right.realloc_moves hheld hsane hdata hlens hlarger hrounds hgranted hcopies
    refine ⟨_, blocks', owners', by rw [hdone]; rfl, ?_, hkept, ?_⟩
    · rw [if_pos (decide_eq_true hlarger)]
      exact right'
    · rw [decide_eq_true hlarger]
      rcases hwhich with ⟨rfl, hdenied⟩ | ⟨hpos, hgiven, hcopied⟩
      · exact Or.inl ⟨rfl, Or.inr rfl, hdenied⟩
      · exact Or.inr ⟨target, hpos, holding_of_ne hpos, fun h => hgiven h.2,
          fun held hmem hstart i hi _ => hcopied held hmem hstart i hi⟩
  · -- The block is large enough, and stays where it is.
    have hdone : realloc state.heap ptr size region = some (state.heap, ptr) := by
      unfold realloc
      rw [if_neg hnull, hdata, Option.bind_eq_bind, Option.bind_some, if_neg hlarger]
      rfl
    refine ⟨⟨state.heap, ⟨ptr, size.toNat⟩ :: without state.live ptr, state.regions⟩, blocks,
      block :: (front ++ back), ?_, ⟨right.holds, right.regions,
        List.perm_middle.symm.trans right.owned, List.Forall₂.cons ⟨hptr, ?_⟩ hserves⟩,
      fun _ _ _ _ => rfl, Or.inr ⟨ptr, hnull, rfl, ?_, fun _ _ _ _ _ _ => rfl⟩⟩
    · rw [hdone, if_neg (by simpa using hlarger), Option.map_some, holding_of_ne hnull]
    · dsimp only
      omega
    · rw [decide_eq_false hlarger]
      simp [hnull]

/-- **A step** that fails no check. -/
theorem step_some {op : HeapOp} (right : Right state blocks owners) (hallows : state.Allows op)
    (haccepts : ¬ state.Fails op) :
    ∃ state' blocks' owners', state.step op = some state' ∧ Right state' blocks' owners' ∧
      state.Leaves op state' := by
  cases op with
  | allocate size align region =>
      obtain ⟨halign, hrounds, hgranted⟩ := hallows
      obtain ⟨heap', result, blocks', owners', hdone, right', hgives⟩ :=
        right.allocate_step halign hrounds hgranted
      exact ⟨_, blocks', owners', congrArg (Option.map _) hdone, right', hgives⟩
  | free ptr =>
      by_cases hnull : ptr = 0
      · subst hnull
        refine ⟨state, blocks, owners, ?_, right, right.without_zero.symm, fun _ _ _ _ => rfl⟩
        unfold UserHeap.step
        dsimp only
        rw [giving, released_null right.holds, right.without_zero, Allocator.free, if_pos rfl]
        rfl
      · obtain ⟨heap', blocks', owners', hdone, right', hkept⟩ :=
          right.free (hallows.resolve_left hnull) haccepts
        exact ⟨_, blocks', owners', congrArg (Option.map _) hdone, right', rfl, hkept⟩
  | realloc ptr size region =>
      obtain ⟨hheld, hrounds, hgranted⟩ := hallows
      by_cases hnull : ptr = 0
      · subst hnull
        obtain ⟨heap', result, blocks', owners', hdone, right', hgives⟩ :=
          right.allocate_step (by decide : (8 : U64) ≤ pageSize) hrounds hgranted
        refine ⟨_, blocks', owners', ?_, right', hgives⟩
        unfold UserHeap.step realloc
        dsimp only
        rw [if_pos rfl, if_pos rfl, hdone, right.without_zero]
        rfl
      · exact right.realloc_step (hheld.resolve_left hnull) hrounds hgranted haccepts
  | write memory => exact ⟨_, blocks, owners, rfl, right.write hallows, rfl⟩

/-- **A step that fails a check.** -/
theorem step_none {op : HeapOp} (right : Right state blocks owners) (hallows : state.Allows op)
    (hfails : state.Fails op) : state.step op = none := by
  cases op with
  | allocate size align region => exact hfails.elim
  | free ptr =>
      have hheld := hallows.resolve_left hfails.1
      exact congrArg (Option.map _) (right.refused hheld hfails).1
  | realloc ptr size region =>
      obtain ⟨hheld, hrounds, hgranted⟩ := hallows
      refine congrArg (Option.map _) (?_ : realloc state.heap ptr size region = none)
      by_cases hrefuses : Refuses state.heap ptr
      · unfold realloc
        rw [if_neg hrefuses.1, (right.refused (hheld.resolve_left hrefuses.1) hrefuses).2,
          Option.bind_eq_bind, Option.bind_none]
      · obtain ⟨hnull, hregion, block, hreleased, hmany, hlarger⟩ := hfails.resolve_left hrefuses
        obtain ⟨front, other, back, rfl, hptr, -, hdata, -, hclass⟩ :=
          right.size_eq (hheld.resolve_left hnull) hrefuses
        have hsame : block = other := by
          rcases hclass with ⟨hnone, -⟩ | hother
          · exact absurd (hreleased.symm.trans hnone) (Option.some_ne_none _)
          · exact Option.some.inj (hreleased.symm.trans hother)
        subst hsame
        obtain ⟨heap', result, blocks', owners', hdone, -, -, -, -, hresult⟩ :=
          right.allocate (by decide : (8 : U64) ≤ pageSize) hrounds hgranted
        have hmoves : size.toNat > block.len - headerSize := by omega
        rcases hresult with ⟨-, hzero | ⟨-, hnothing⟩⟩ | ⟨target, rfl, -⟩
        · rw [hzero] at hmoves
          exact absurd hmoves (Nat.not_lt_zero _)
        · exact absurd hnothing hregion
        · rw [realloc_of_move hnull hdata hmoves hdone, copyOver, memcopy, if_neg (by omega)]
          rfl
  | write memory => exact hfails.elim

end Right

/-! ## Runs -/

namespace UserHeap

variable {state state' : UserHeap} {op : HeapOp}

/-- Every heap that a program comes to has its blocks. -/
theorem Reaches.right (hreaches : Reaches state) : ∃ blocks owners, Right state blocks owners := by
  induction hreaches with
  | initial memory => exact ⟨_, _, Right.initial memory⟩
  | @step state state' op _ hallows hstep ih =>
      obtain ⟨blocks, owners, right⟩ := ih
      by_cases hfails : state.Fails op
      · rw [right.step_none hallows hfails] at hstep
        exact absurd hstep.symm (Option.some_ne_none _)
      · obtain ⟨next, blocks', owners', hnext, right', -⟩ := right.step_some hallows hfails
        cases hstep.symm.trans hnext
        exact ⟨blocks', owners', right'⟩

/-- **The heap is sound** after every run of calls and writes. -/
theorem reaches_sound (hreaches : Reaches state) : ∃ blocks, state.Sound blocks := by
  obtain ⟨blocks, owners, right⟩ := hreaches.right
  exact ⟨blocks, right.sound⟩

/-- A call for 24 bytes, where the kernel gives 16 pages from the address 0x1000 on. -/
def allocateFirst : HeapOp := .allocate 24 8 (some 0x1000)

theorem reaches_allocate {memory : Memory Byte} {size : U64} {start len : ℕ}
    (hrounds : Rounds size) (hasks : asks (initial memory).heap size = some len)
    (hregion : Granted [] ⟨start, len⟩)
    (hstep : (initial memory).step (.allocate size 8 (some start)) = some state) :
    Reaches state := by
  have hallows : (initial memory).Allows (.allocate size 8 (some start)) := by
    refine ⟨by decide, hrounds, ?_⟩
    rintro _ ⟨⟩ other hother
    obtain rfl := Option.some.inj (hasks.symm.trans hother)
    exact hregion
  exact .step (.initial memory) hallows hstep

theorem reaches_first (hstep : (initial fun _ => 0).step allocateFirst = some state) :
    Reaches state :=
  reaches_allocate (by unfold Rounds headerSize; decide)
    (by decide +kernel : asks _ 24 = some 0x10000)
    ⟨by decide, by decide, by decide, by decide, List.forall_mem_nil _⟩ hstep

theorem reaches_sound_first : ∃ state, (initial fun _ => 0).step allocateFirst = some state ∧
    ∃ blocks, state.Sound blocks := by
  obtain ⟨state, hstep⟩ := Option.isSome_iff_exists.mp
    (by decide +kernel : ((initial fun _ => 0).step allocateFirst).isSome = true)
  exact ⟨state, hstep, reaches_sound (reaches_first hstep)⟩

/-- **Which checks fail**, after every run. -/
theorem step_eq_none_iff (hreaches : Reaches state) (hallows : state.Allows op) :
    state.step op = none ↔ state.Fails op := by
  obtain ⟨blocks, owners, right⟩ := hreaches.right
  refine ⟨fun hnone => ?_, right.step_none hallows⟩
  by_contra haccepts
  obtain ⟨next, -, -, hnext, -⟩ := right.step_some hallows haccepts
  exact Option.some_ne_none next (hnext.symm.trans hnone)

/-- A call for three megabytes, where the kernel gives a region for them. -/
def allocateLarge : HeapOp := .allocate 0x300000 8 (some 0x1000)

/-- Three megabytes cannot be made four: there is more to be copied than `memcopy` copies. -/
theorem step_eq_none_large : ∃ state, (initial fun _ => 0).step allocateLarge = some state ∧
    state.step (.realloc 0x1010 0x400000 (some 0x800000)) = none := by
  obtain ⟨state, hstep⟩ := Option.isSome_iff_exists.mp
    (by decide +kernel : ((initial fun _ => 0).step allocateLarge).isSome = true)
  have hstate : (some state).map (fun state => (state.live, state.regions,
      asks state.heap 0x400000, released state.heap 0x1010)) = some ([⟨0x1010, 0x300000⟩],
        [⟨0x1000, 0x301000⟩], some 0x401000, some ⟨0x1000, 0x301000⟩) := by
    rw [← hstep]
    decide +kernel
  simp only [Option.map_some, Option.some.injEq, Prod.mk.injEq] at hstate
  obtain ⟨hlive, hregions, hasks, hreleased⟩ := hstate
  have hreaches : Reaches state := reaches_allocate (by unfold Rounds headerSize; decide)
    (by decide +kernel : asks _ 0x300000 = some 0x301000)
    ⟨by decide, by decide, by decide, by decide, List.forall_mem_nil _⟩ hstep
  have hallows : state.Allows (.realloc 0x1010 0x400000 (some 0x800000)) := by
    refine ⟨Or.inr ⟨⟨0x1010, 0x300000⟩, hlive ▸ List.mem_cons_self, rfl⟩,
      by unfold Rounds headerSize; decide, ?_⟩
    rintro start ⟨⟩ len hlen
    obtain rfl := Option.some.inj (hasks.symm.trans hlen)
    rw [hregions]
    exact ⟨by decide, by decide, by decide, by decide, List.forall_mem_singleton.mpr (by decide)⟩
  exact ⟨state, hstep, (step_eq_none_iff hreaches hallows).mpr (Or.inr ⟨by decide, by decide, _,
    hreleased, by decide, by decide⟩)⟩

/-- **What a program holds keeps its bytes**, and is moved with them. -/
theorem step_leaves (hreaches : Reaches state) (hallows : state.Allows op)
    (hstep : state.step op = some state') : state.Leaves op state' := by
  obtain ⟨blocks, owners, right⟩ := hreaches.right
  by_cases hfails : state.Fails op
  · rw [right.step_none hallows hfails] at hstep
    exact absurd hstep.symm (Option.some_ne_none _)
  · obtain ⟨next, -, -, hnext, -, hleaves⟩ := right.step_some hallows hfails
    cases hstep.symm.trans hnext
    exact hleaves

/-- The first block is made larger: what is in it is moved. -/
theorem step_leaves_larger : ∃ state state', (initial fun _ => 0).step allocateFirst = some state ∧
    state.step (.realloc 0x1010 48 none) = some state' ∧
    state.Leaves (.realloc 0x1010 48 none) state' := by
  obtain ⟨state, hstep⟩ := Option.isSome_iff_exists.mp
    (by decide +kernel : ((initial fun _ => 0).step allocateFirst).isSome = true)
  have hstate : (some state).map (fun state => (state.live,
      (state.step (.realloc 0x1010 48 none)).isSome)) = some ([⟨0x1010, 24⟩], true) := by
    rw [← hstep]
    decide +kernel
  simp only [Option.map_some, Option.some.injEq, Prod.mk.injEq] at hstate
  obtain ⟨state', hmoved⟩ := Option.isSome_iff_exists.mp hstate.2
  have hallows : state.Allows (.realloc 0x1010 48 none) := by
    refine ⟨Or.inr ⟨⟨0x1010, 24⟩, hstate.1 ▸ List.mem_cons_self, rfl⟩,
      by unfold Rounds headerSize; decide, ?_⟩
    rintro start ⟨⟩
  exact ⟨state, state', hstep, hmoved, step_leaves (reaches_first hstep) hallows hmoved⟩

end UserHeap

end BekOS.Allocator
