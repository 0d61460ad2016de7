import BekOS.Library.Bitset
import BekOS.Lib.PartialRun
import BekOS.Mm.Addresses

/-!
# `BitmapAllocator`

The allocator of `kmalloc` for what is neither small nor a whole page: chunks of
128 bytes, with one bit for each of them in a bitmap behind the last chunk.  The
memory of the area is part of the state, by offset from `m_data`, because the
bitmap lies in it; the constructor does not clear it.

`set_range` may go on past the end of its range (`BitsetView.rangeEnd`) and
`find_first_fit` may lose the alignment (`BitsetView.staysAligned`), so what the
callers rely on is shown for the runs that do not come to that.
-/

namespace BekOS

open PartialRun

/-- The allocator. -/
structure BitmapAllocator where
  data : ℕ
  chunkCount : ℕ
  allocatedChunks : ℕ
  memory : Memory Byte

namespace BitmapAllocator

/-! ## The functions -/

/-- `chunk_size` -/
def chunkSize : ℕ := 128

/-- `chunks_needed`, and `chunks_to_free`. -/
def chunksFor (size : U64) : ℕ := (ceilDiv size 128).toNat

/-- `calculate_chunk_count`: a chunk takes its bytes and one bit. -/
def calculateChunkCount (size : U64) : U64 := size * 8 / (128 * 8 + 1)

/-- `m_bitmap` -/
def bitmap (alloc : BitmapAllocator) : BitsetView where
  data := alloc.chunkCount * chunkSize
  length := alloc.chunkCount

/-- The constructor, with its check that chunks and bitmap fit. -/
def new (data : ℕ) (size : U64) (memory : Memory Byte) : Option BitmapAllocator :=
  let chunkCount := calculateChunkCount size
  if chunkCount * 128 + ceilDiv chunkCount 8 ≤ size then
    some { data := data, chunkCount := chunkCount.toNat, allocatedChunks := 0, memory := memory }
  else none

/-- `chunk_alignment` -/
def chunkAlignment (alignment : U64) : ℕ := (ceilDiv alignment 128).toNat

/-- `align_offset` -/
def alignOffset (alloc : BitmapAllocator) (alignment : U64) : ℕ :=
  alloc.data / chunkSize % chunkAlignment alignment

/-- `allocate`; `none` when a check fails, a null pointer when nothing fits. -/
def allocate (alloc : BitmapAllocator) (size alignment : U64) :
    Option (BitmapAllocator × Option ℕ) :=
  if (ceilDiv alignment 128 * 128) % alignment = 0 ∧ alloc.data % chunkSize = 0 then
    (alloc.bitmap.findFirstFit alloc.memory (chunksFor size) false 0 (chunkAlignment alignment)
        (alloc.alignOffset alignment) BitsetView.unlimited).bind fun result =>
      if result.isInvalid then some (alloc, none)
      else
        (alloc.bitmap.setRange alloc.memory result.index (chunksFor size) true).map fun memory =>
          ({ alloc with
              memory := memory
              allocatedChunks := alloc.allocatedChunks + chunksFor size },
            some (alloc.data + result.index * chunkSize))
  else none

/-- `free` -/
def free (alloc : BitmapAllocator) (ptr : ℕ) (size : U64) : Option BitmapAllocator :=
  if alloc.data ≤ ptr ∧ ptr < alloc.data + chunkSize * alloc.chunkCount then
    (alloc.bitmap.setRange alloc.memory ((ptr - alloc.data) / chunkSize) (chunksFor size)
        false).map fun memory =>
      { alloc with
        memory := memory
        allocatedChunks := alloc.allocatedChunks - chunksFor size }
  else none

/-- `total_bytes` -/
def totalBytes (alloc : BitmapAllocator) : ℕ := alloc.chunkCount * chunkSize

/-- `free_bytes` -/
def freeBytes (alloc : BitmapAllocator) : ℕ :=
  (alloc.chunkCount - alloc.allocatedChunks) * chunkSize

/-! ## Runs -/

/-- A block that has been allocated and not freed. -/
structure Block where
  ptr : ℕ
  size : U64
  alignment : U64
  deriving DecidableEq

/-- An allocator together with the live blocks. -/
structure Owned where
  alloc : BitmapAllocator
  live : List Block

/-- What happens to an allocator: the two calls, and the stores of its callers
into their blocks. -/
inductive Op where
  | allocate (size alignment : U64)
  | free (ptr : ℕ) (size : U64)
  | store (ptr : ℕ) (value : Byte)

/-- The block is the one that `free(ptr, size)` names. -/
def Block.named (ptr : ℕ) (size : U64) (block : Block) : Bool :=
  block.ptr == ptr && block.size == size

/-- One of them; `none` when a check fails. -/
def step (owned : Owned) : Op → Option (Owned × Option ℕ)
  | .allocate size alignment =>
      (owned.alloc.allocate size alignment).map fun done =>
        match done.2 with
        | some ptr => ({ alloc := done.1, live := ⟨ptr, size, alignment⟩ :: owned.live }, some ptr)
        | none => ({ owned with alloc := done.1 }, none)
  | .free ptr size =>
      (owned.alloc.free ptr size).map fun alloc =>
        ({ alloc := alloc, live := owned.live.eraseP (Block.named ptr size) }, none)
  | .store ptr value =>
      some ({ owned with
        alloc := { owned.alloc with
          memory := Function.update owned.alloc.memory (ptr - owned.alloc.data) value } }, none)

/-- Alignments are powers of two, a block is freed with its size, and stores go
into live blocks. -/
def Legal (owned : Owned) : Op → Prop
  | .allocate _ alignment => ∃ k ∈ List.range 64, alignment.toNat = 2 ^ k
  | .free ptr size => ∃ block ∈ owned.live, block.named ptr size = true
  | .store ptr _ => ∃ block ∈ owned.live, block.ptr ≤ ptr ∧ ptr < block.ptr + block.size.toNat

/-- The chunks of a block, in an area that begins at `data`. -/
def Block.chunks (data : ℕ) (block : Block) : List ℕ :=
  List.range' ((block.ptr - data) / chunkSize) (chunksFor block.size)

/-- The chunks of the blocks. -/
def ownedChunks (data : ℕ) (live : List Block) : List ℕ := live.flatMap (Block.chunks data)

/-- The call does not come to the defects of `bek::ceil_div`, `find_first_fit` and
`set_range`: the size does not wrap around when it is rounded up, the search
stays aligned, and what is cleared past the end of a freed block belongs to no
other block. -/
def Exact (owned : Owned) : Op → Prop
  | .allocate size alignment =>
      size.toNat + 127 < 2 ^ 64 ∧
        owned.alloc.bitmap.staysAligned owned.alloc.memory (chunksFor size) false
          (chunkAlignment alignment) BitsetView.unlimited owned.alloc.chunkCount
          (alignUpTo (0 + owned.alloc.alignOffset alignment) (chunkAlignment alignment) -
            owned.alloc.alignOffset alignment) = true
  | .free ptr size =>
      let start := (ptr - owned.alloc.data) / chunkSize
      ∀ chunk ∈ ownedChunks owned.alloc.data (owned.live.eraseP (Block.named ptr size)),
        ¬ (start + chunksFor size ≤ chunk ∧
          chunk < BitsetView.rangeEnd start (start + chunksFor size))
  | .store _ _ => True

instance (owned : Owned) : (op : Op) → Decidable (Legal owned op)
  | .allocate _ alignment =>
      inferInstanceAs (Decidable (∃ k ∈ List.range 64, alignment.toNat = 2 ^ k))
  | .free ptr size =>
      inferInstanceAs (Decidable (∃ block ∈ owned.live, block.named ptr size = true))
  | .store ptr _ => inferInstanceAs (Decidable (∃ block ∈ owned.live,
      block.ptr ≤ ptr ∧ ptr < block.ptr + block.size.toNat))

instance (owned : Owned) : (op : Op) → Decidable (Exact owned op)
  | .allocate _ _ => inferInstanceAs (Decidable (_ ∧ _))
  | .free ptr size => inferInstanceAs (Decidable (∀ chunk ∈
      ownedChunks owned.alloc.data (owned.live.eraseP (Block.named ptr size)), ¬ (_ ∧ _)))
  | .store _ _ => .isTrue trivial

/-- Two blocks have no byte in common. -/
def Block.Disjoint (block other : Block) : Prop :=
  min (block.ptr + block.size.toNat) (other.ptr + other.size.toNat) ≤ max block.ptr other.ptr
deriving Decidable

/-- **What the callers rely on.** -/
structure Sound (data chunkCount : ℕ) (owned : Owned) : Prop where
  disjoint : owned.live.Pairwise Block.Disjoint
  inside : ∀ block ∈ owned.live,
    data ≤ block.ptr ∧ block.ptr + block.size.toNat ≤ data + chunkCount * chunkSize
  aligned : ∀ block ∈ owned.live, block.ptr % block.alignment.toNat = 0
  accounted : owned.alloc.freeBytes +
      (owned.live.map fun block => chunksFor block.size * chunkSize).sum = owned.alloc.totalBytes

/-- The invariant: each chunk is of one live block at most, and the chunks of live
blocks are marked. -/
structure Ok (data chunkCount : ℕ) (owned : Owned) : Prop where
  data_eq : owned.alloc.data = data
  count_eq : owned.alloc.chunkCount = chunkCount
  blocks : ∀ block ∈ owned.live, ∃ index, block.ptr = data + index * chunkSize ∧
    block.size.toNat ≤ chunksFor block.size * chunkSize ∧
    index + chunksFor block.size ≤ chunkCount ∧ block.ptr % block.alignment.toNat = 0
  nodup : (ownedChunks data owned.live).Nodup
  marked : ∀ chunk ∈ ownedChunks data owned.live,
    testBit owned.alloc.memory (chunkCount * chunkSize) chunk = true
  allocated_eq : owned.alloc.allocatedChunks = (ownedChunks data owned.live).length

section Proofs

variable {data chunkCount : ℕ} {owned : Owned}

theorem toNat_ceilDiv_chunk {a : U64} (h : a.toNat + 127 < 2 ^ 64) :
    (ceilDiv a 128).toNat = (a.toNat + 127) / 128 := by
  have hsum : (a + 128 - 1).toNat = a.toNat + 127 := by bv_omega
  rw [ceilDiv, BitVec.toNat_udiv, hsum]
  rfl

theorem Block.mem_chunks {block : Block} {index chunk : ℕ}
    (hptr : block.ptr = data + index * chunkSize) :
    chunk ∈ block.chunks data ↔ index ≤ chunk ∧ chunk < index + chunksFor block.size := by
  have hindex : (block.ptr - data) / chunkSize = index := by
    unfold chunkSize at *
    omega
  rw [Block.chunks, hindex, List.mem_range'_1]

theorem Ok.chunk_lt (ok : Ok data chunkCount owned) :
    ∀ chunk ∈ ownedChunks data owned.live, chunk < chunkCount := by
  intro chunk hchunk
  obtain ⟨block, hblock, hmem⟩ := List.mem_flatMap.mp hchunk
  obtain ⟨index, hptr, -, hinside, -⟩ := ok.blocks block hblock
  rw [Block.mem_chunks hptr] at hmem
  omega

theorem Block.disjoint_of_chunks {block other : Block} {index index' : ℕ}
    (hptr : block.ptr = data + index * chunkSize)
    (hptr' : other.ptr = data + index' * chunkSize)
    (hsize : block.size.toNat ≤ chunksFor block.size * chunkSize)
    (hsize' : other.size.toNat ≤ chunksFor other.size * chunkSize)
    (h : List.Disjoint (block.chunks data) (other.chunks data)) : block.Disjoint other := by
  by_contra hcommon
  unfold Block.Disjoint chunkSize at *
  -- The later of the two first chunks is in both.
  have hmem : max index index' ∈ block.chunks data := by
    rw [Block.mem_chunks (by unfold chunkSize; exact hptr)]
    omega
  have hmem' : max index index' ∈ other.chunks data := by
    rw [Block.mem_chunks (by unfold chunkSize; exact hptr')]
    omega
  exact h hmem hmem'

theorem length_ownedChunks (data : ℕ) (live : List Block) :
    (ownedChunks data live).length * chunkSize =
      (live.map fun block => chunksFor block.size * chunkSize).sum := by
  induction live with
  | nil => rfl
  | cons block rest ih =>
      rw [List.map_cons, List.sum_cons, ← ih, ← Nat.add_mul]
      simp [ownedChunks, Block.chunks]

theorem Ok.sound (ok : Ok data chunkCount owned) : Sound data chunkCount owned where
  disjoint := by
    refine (List.nodup_flatMap.mp ok.nodup).2.imp_of_mem fun hblock hother hdisjoint => ?_
    obtain ⟨index, hptr, hsize, -⟩ := ok.blocks _ hblock
    obtain ⟨index', hptr', hsize', -⟩ := ok.blocks _ hother
    exact Block.disjoint_of_chunks hptr hptr' hsize hsize' hdisjoint
  inside := by
    intro block hblock
    obtain ⟨index, hptr, hsize, hinside, -⟩ := ok.blocks block hblock
    unfold chunkSize at *
    omega
  aligned := by
    intro block hblock
    obtain ⟨-, -, -, -, haligned⟩ := ok.blocks block hblock
    exact haligned
  accounted := by
    have hle : (ownedChunks data owned.live).length ≤ (List.range chunkCount).length :=
      (ok.nodup.subperm fun chunk hchunk => List.mem_range.mpr (ok.chunk_lt chunk hchunk)).length_le
    rw [List.length_range] at hle
    rw [← length_ownedChunks data, freeBytes, totalBytes, ok.count_eq, ok.allocated_eq,
      ← Nat.add_mul, Nat.sub_add_cancel hle]

theorem aligned_start {alignment offset : ℕ} (h : offset < alignment) :
    (alignUpTo (0 + offset) alignment - offset + offset) % alignment = 0 := by
  have hdivide := Nat.div_add_mod' (0 + offset + alignment - 1) alignment
  have hlt := Nat.mod_lt (0 + offset + alignment - 1) (Nat.zero_lt_of_lt h)
  unfold alignUpTo
  rw [Nat.sub_add_cancel (by omega)]
  exact Nat.mul_mod_left _ _

variable {alignment size : U64} {moved : Owned × Option ℕ} {ptr : ℕ}

theorem aligned_ptr {index : ℕ} (hdata : data % chunkSize = 0)
    (hcheck : (ceilDiv alignment 128 * 128) % alignment = 0)
    (hpower : ∃ k ∈ List.range 64, alignment.toNat = 2 ^ k)
    (haligned : (index + data / chunkSize % chunkAlignment alignment) %
      chunkAlignment alignment = 0) : (data + index * chunkSize) % alignment.toNat = 0 := by
  obtain ⟨k, hk, halignment⟩ := hpower
  have hbound : alignment.toNat ≤ 2 ^ 63 := by
    rw [halignment]
    exact Nat.pow_le_pow_right (by decide) (by have := List.mem_range.mp hk; omega)
  have hceil : chunkAlignment alignment = (alignment.toNat + 127) / 128 :=
    toNat_ceilDiv_chunk (by omega)
  have hproduct : (ceilDiv alignment 128 * 128).toNat = chunkAlignment alignment * 128 := by
    rw [BitVec.toNat_mul]
    change chunkAlignment alignment * 128 % 2 ^ 64 = _
    rw [Nat.mod_eq_of_lt (by omega)]
  have hdivides : alignment.toNat ∣ chunkAlignment alignment * 128 := by
    have := congrArg BitVec.toNat hcheck
    rw [BitVec.toNat_umod, hproduct] at this
    exact Nat.dvd_of_mod_eq_zero this
  rw [Nat.add_mod_mod] at haligned
  have hchunks : data + index * chunkSize = (index + data / chunkSize) * 128 := by
    unfold chunkSize at *
    omega
  rw [hchunks]
  refine Nat.mod_eq_zero_of_dvd (hdivides.trans ?_)
  exact Nat.mul_dvd_mul_right (Nat.dvd_of_mod_eq_zero haligned) 128

/-- **`allocate`** marks chunks that were nobody's. -/
theorem allocate_ok (ok : Ok data chunkCount owned)
    (legal : Legal owned (.allocate size alignment))
    (exact_ : Exact owned (.allocate size alignment))
    (hstep : step owned (.allocate size alignment) = some moved) :
    Ok data chunkCount moved.1 := by
  obtain ⟨hsize, hstays⟩ := exact_
  obtain ⟨done, hdone, rfl⟩ := Option.map_eq_some_iff.mp hstep
  unfold allocate at hdone
  split_ifs at hdone with hchecks
  obtain ⟨hcheck, hdata⟩ := hchecks
  obtain ⟨result, hfit, hdone⟩ := Option.bind_eq_some_iff.mp hdone
  unfold BitsetView.findFirstFit at hfit
  split_ifs at hfit with hoffset
  split_ifs at hdone with hinvalid
  · cases hdone
    exact ok
  · obtain ⟨memory, hset, rfl⟩ := Option.map_eq_some_iff.mp hdone
    have hvalid : result ≠ { index := 0, size := 0 } := by
      rintro rfl
      exact hinvalid rfl
    obtain ⟨hindex, hlength, hinside, hfree⟩ :=
      (BitsetView.fitFrom_spec hfit).resolve_left hvalid
    have haligned := (BitsetView.fitFrom_aligned hfit hstays
      (aligned_start hoffset)).resolve_left hvalid
    obtain ⟨-, hfills⟩ := BitsetView.setRange_spec hset
    have hbase : owned.alloc.bitmap.data = chunkCount * chunkSize := by
      rw [bitmap, ok.count_eq]
    have hcount : owned.alloc.bitmap.length = chunkCount := ok.count_eq
    have hptr : owned.alloc.data + result.index * chunkSize = data + result.index * chunkSize := by
      rw [ok.data_eq]
    have hnew : ∀ chunk, chunk ∈ Block.chunks data
        ⟨data + result.index * chunkSize, size, alignment⟩ ↔
          result.index ≤ chunk ∧ chunk < result.index + chunksFor size :=
      fun chunk => Block.mem_chunks rfl
    dsimp only
    rw [hptr]
    refine ⟨ok.data_eq, ok.count_eq, fun block hblock => ?_, ?_, fun chunk hchunk => ?_, ?_⟩
    · rcases List.mem_cons.mp hblock with rfl | hblock
      · refine ⟨result.index, rfl, ?_, by dsimp only; omega, ?_⟩
        · have := toNat_ceilDiv_chunk hsize
          unfold chunksFor chunkSize
          dsimp only
          omega
        · rw [ok.data_eq] at hdata
          rw [alignOffset, ok.data_eq] at haligned
          exact aligned_ptr hdata hcheck legal haligned
      · exact ok.blocks block hblock
    · refine List.nodup_append.mpr ⟨List.nodup_range', ok.nodup, fun chunk hchunk other hother => ?_⟩
      rintro rfl
      rw [hnew] at hchunk
      have := ok.marked chunk hother
      rw [← hbase, hfree chunk hchunk.1 (by omega)] at this
      cases this
    · have hkeeps := hfills chunk
      rw [hbase] at hkeeps
      rw [hkeeps]
      split_ifs with hin
      · rfl
      · rcases List.mem_append.mp hchunk with hchunk | hchunk
        · have := BitsetView.le_rangeEnd result.index (result.index + chunksFor size)
          rw [hnew] at hchunk
          omega
        · exact ok.marked chunk hchunk
    · dsimp only
      rw [ok.allocated_eq]
      simp [ownedChunks, Block.chunks, Nat.add_comm]

/-- **`free`** clears the chunks of its block, and of no other block if it is
`Exact`. -/
theorem free_ok (ok : Ok data chunkCount owned) (legal : Legal owned (.free ptr size))
    (exact_ : Exact owned (.free ptr size)) (hstep : step owned (.free ptr size) = some moved) :
    Ok data chunkCount moved.1 := by
  obtain ⟨alloc, halloc, rfl⟩ := Option.map_eq_some_iff.mp hstep
  unfold free at halloc
  split_ifs at halloc
  obtain ⟨memory, hset, rfl⟩ := Option.map_eq_some_iff.mp halloc
  obtain ⟨-, hfills⟩ := BitsetView.setRange_spec hset
  have hbase : owned.alloc.bitmap.data = chunkCount * chunkSize := by
    rw [bitmap, ok.count_eq]
  obtain ⟨named, hmem, hnamed⟩ := legal
  obtain ⟨freed, before, after, -, hfreed, hlive, herase⟩ := List.exists_of_eraseP hmem hnamed
  simp only [Block.named, Bool.and_eq_true, beq_iff_eq] at hfreed
  obtain ⟨rfl, rfl⟩ := hfreed
  unfold Exact at exact_
  dsimp only at exact_
  rw [herase, ok.data_eq] at exact_
  rw [ok.data_eq] at hfills
  obtain ⟨index, hptr, -, hinside, -⟩ := ok.blocks freed (by rw [hlive]; simp)
  have hindex : (freed.ptr - data) / chunkSize = index := by
    unfold chunkSize at *
    omega
  rw [hindex] at exact_ hfills
  have hsplit : ownedChunks data owned.live =
      ownedChunks data before ++ (freed.chunks data ++ ownedChunks data after) := by
    rw [hlive]
    simp [ownedChunks]
  have hleft : ownedChunks data (before ++ after) =
      ownedChunks data before ++ ownedChunks data after := by simp [ownedChunks]
  have hnodup := ok.nodup
  rw [hsplit] at hnodup
  have hmiddle : List.Disjoint (freed.chunks data) (ownedChunks data (before ++ after)) := by
    intro chunk hchunk hother
    rw [hleft] at hother
    obtain ⟨-, hrest, hapart⟩ := List.nodup_append.mp hnodup
    rcases List.mem_append.mp hother with hother | hother
    · exact hapart chunk hother chunk (List.mem_append_left _ hchunk) rfl
    · exact (List.nodup_append.mp hrest).2.2 chunk hchunk chunk hother rfl
  have hsub : ∀ chunk ∈ ownedChunks data (before ++ after), chunk ∈ ownedChunks data owned.live := by
    intro chunk hchunk
    rw [hleft] at hchunk
    rw [hsplit]
    rcases List.mem_append.mp hchunk with hchunk | hchunk
    · exact List.mem_append_left _ hchunk
    · exact List.mem_append_right _ (List.mem_append_right _ hchunk)
  dsimp only
  rw [herase]
  refine ⟨ok.data_eq, ok.count_eq, fun block hblock => ok.blocks block ?_, ?_,
    fun chunk hchunk => ?_, ?_⟩
  · rw [hlive]
    rcases List.mem_append.mp hblock with hblock | hblock
    · exact List.mem_append_left _ hblock
    · exact List.mem_append_right _ (List.mem_cons_of_mem _ hblock)
  · rw [hleft]
    exact hnodup.sublist (List.Sublist.append_left (List.sublist_append_right _ _) _)
  · have hkeeps := hfills chunk
    rw [hbase] at hkeeps
    rw [hkeeps, if_neg, ok.marked chunk (hsub chunk hchunk)]
    intro hcleared
    have hbeyond := exact_ chunk hchunk
    refine hmiddle ((Block.mem_chunks hptr).mpr ?_) hchunk
    omega
  · dsimp only
    rw [ok.allocated_eq, hsplit, hleft]
    simp [Block.chunks]
    omega

/-- **One step** keeps the invariant. -/
theorem step_ok (ok : Ok data chunkCount owned) (op : Op) (legal : Legal owned op)
    (exact_ : Exact owned op) (hstep : step owned op = some moved) :
    Ok data chunkCount moved.1 := by
  cases op with
  | allocate size alignment => exact allocate_ok ok legal exact_ hstep
  | free ptr size => exact free_ok ok legal exact_ hstep
  | store ptr value =>
      obtain ⟨block, hblock, hlow, hhigh⟩ := legal
      obtain ⟨index, hptr, hsize, hinside, -⟩ := ok.blocks block hblock
      cases hstep
      refine ⟨ok.data_eq, ok.count_eq, ok.blocks, ok.nodup, fun chunk hchunk => ?_,
        ok.allocated_eq⟩
      rw [← ok.marked chunk hchunk]
      -- The store lies in a block, and the bitmap behind all of them.
      refine testBit_congr (Function.update_of_ne ?_ _ _)
      rw [ok.data_eq]
      unfold chunkSize at *
      omega

/-! ### Blocks in another order -/

theorem ownedChunks_perm {live live' : List Block} (h : live.Perm live') :
    (ownedChunks data live).Perm (ownedChunks data live') :=
  h.flatMap_right _

theorem Ok.perm {alloc : BitmapAllocator} {live live' : List Block}
    (ok : Ok data chunkCount ⟨alloc, live⟩) (h : live.Perm live') :
    Ok data chunkCount ⟨alloc, live'⟩ where
  data_eq := ok.data_eq
  count_eq := ok.count_eq
  blocks := fun block hblock => ok.blocks block (h.mem_iff.mpr hblock)
  nodup := (ownedChunks_perm h).nodup_iff.mp ok.nodup
  marked := fun chunk hchunk => ok.marked chunk ((ownedChunks_perm h).mem_iff.mpr hchunk)
  allocated_eq := ok.allocated_eq.trans (ownedChunks_perm h).length_eq

theorem Exact.perm {alloc : BitmapAllocator} {live rest : List Block} {block : Block}
    (h : Exact ⟨alloc, live⟩ (.free block.ptr block.size)) (hperm : live.Perm (block :: rest)) :
    Exact ⟨alloc, block :: rest⟩ (.free block.ptr block.size) := by
  have hnamed : block.named block.ptr block.size = true := by simp [Block.named]
  obtain ⟨erased, before, after, -, herased, hlive, herase⟩ :=
    List.exists_of_eraseP (hperm.mem_iff.mpr List.mem_cons_self) hnamed
  simp only [Block.named, Bool.and_eq_true, beq_iff_eq] at herased
  unfold Exact at h ⊢
  dsimp only at h ⊢
  intro chunk hchunk
  refine h chunk ?_
  rw [List.eraseP_cons_of_pos hnamed] at hchunk
  -- Both are what is left of the same chunks.
  have hsame : erased.chunks alloc.data = block.chunks alloc.data := by
    rw [Block.chunks, Block.chunks, herased.1, herased.2]
  have hsplit : live.Perm (erased :: live.eraseP (Block.named block.ptr block.size)) := by
    rw [herase, hlive]
    exact List.perm_middle
  have hchunks := @ownedChunks_perm alloc.data _ _ (hperm.symm.trans hsplit)
  simp only [ownedChunks, List.flatMap_cons, hsame] at hchunks
  exact ((List.perm_append_left_iff _).mp hchunks).mem_iff.mp hchunk

theorem allocate_strict {alloc alloc' : BitmapAllocator}
    (h : alloc.allocate size alignment = some (alloc', some ptr)) :
    ∃ index, ptr = alloc.data + index * chunkSize ∧
      index + chunksFor size < alloc.chunkCount := by
  unfold allocate at h
  split_ifs at h
  obtain ⟨result, -, h⟩ := Option.bind_eq_some_iff.mp h
  split_ifs at h
  · cases h
  · obtain ⟨memory, hset, heq⟩ := Option.map_eq_some_iff.mp h
    cases heq
    have hlength : result.index + chunksFor size < alloc.bitmap.length :=
      (BitsetView.setRange_spec hset).1
    exact ⟨result.index, rfl, hlength⟩

/-- **`free` passes its checks** for a block that ends before the last chunk. -/
theorem free_some {alloc : BitmapAllocator} {index : ℕ}
    (hptr : ptr = alloc.data + index * chunkSize)
    (hstrict : index + chunksFor size < alloc.chunkCount) :
    ∃ alloc', alloc.free ptr size = some alloc' := by
  have hindex : (ptr - alloc.data) / chunkSize = index := by
    unfold chunkSize at *
    omega
  obtain ⟨memory, hset⟩ := @BitsetView.setRange_some alloc.bitmap false index (chunksFor size)
    alloc.memory hstrict
  rw [free, if_pos (by unfold chunkSize at *; omega), hindex, hset]
  exact ⟨_, rfl⟩

end Proofs

/-- **The blocks of every run are sound**, as long as its calls stay `Exact`. -/
theorem blocks_sound (data : ℕ) (size : U64) (memory : Memory Byte) (alloc : BitmapAllocator)
    (hnew : new data size memory = some alloc) (ops : List Op)
    (meets : StepsMeet step (fun owned op => Legal owned op ∧ Exact owned op)
      { alloc := alloc, live := [] } ops) (n : ℕ) (final : Owned × List (Option ℕ))
    (hrun : runSteps step { alloc := alloc, live := [] } (ops.take n) = some final) :
    Sound data (calculateChunkCount size).toNat final.1 := by
  have start : Ok data (calculateChunkCount size).toNat { alloc := alloc, live := [] } := by
    unfold new at hnew
    dsimp only at hnew
    split_ifs at hnew
    cases hnew
    exact ⟨rfl, rfl, nofun, List.nodup_nil, nofun, rfl⟩
  have keeps : ∀ owned op moved, Ok data (calculateChunkCount size).toNat owned →
      (Legal owned op ∧ Exact owned op) → step owned op = some moved →
      Ok data (calculateChunkCount size).toNat moved.1 :=
    fun _ op _ ok meet hstep => step_ok ok op meet.1 meet.2 hstep
  exact (runSteps_invariant keeps start (meets.take n) hrun).sound

/-- Blocks that end in either half of sixteen chunks, an aligned one, and a block
freed between its neighbours. -/
theorem blocks_sound_neighbours :
    ∃ final, runSteps step { alloc := ⟨0x10000, 24, 0, fun _ => 0⟩, live := [] }
        ([.allocate 1280 1, .allocate 128 1, .allocate 200 256, .store 0x10000 0xAA,
          .free 0x10500 128, .allocate 100 128].take 6) = some final ∧
      Sound 0x10000 (calculateChunkCount 3080).toNat final.1 := by
  have hcompletes : (runSteps step { alloc := ⟨0x10000, 24, 0, fun _ => 0⟩, live := [] }
      ([.allocate 1280 1, .allocate 128 1, .allocate 200 256, .store 0x10000 0xAA,
        .free 0x10500 128, .allocate 100 128].take 6)).isSome = true := by decide +kernel
  obtain ⟨final, hrun⟩ := Option.isSome_iff_exists.mp hcompletes
  exact ⟨final, hrun, blocks_sound 0x10000 3080 (fun _ => 0) ⟨0x10000, 24, 0, fun _ => 0⟩ rfl _
    (by decide +kernel) 6 final hrun⟩

/-- **Three ways to lose them.**  In an area that begins at an odd chunk, freeing
chunk 0 clears the byte that also holds chunk 1, whose block is still live; past
a hole of one chunk the search for two aligned chunks goes on at odd ones; and a
size that wraps around takes no chunk at all. -/
theorem blocks_sound_fails :
    (¬ ∀ final, runSteps step { alloc := ⟨0x10080, 24, 0, fun _ => 0⟩, live := [] }
        [.allocate 128 256, .allocate 128 1, .free 0x10080 128, .allocate 256 1] = some final →
      Sound 0x10080 24 final.1) ∧
    (¬ ∀ final, runSteps step { alloc := ⟨0x10000, 24, 0, fun _ => 0⟩, live := [] }
        [.allocate 1280 1, .allocate 128 1, .allocate 128 1, .free 0x10500 128,
          .allocate 256 256] = some final →
      Sound 0x10000 24 final.1) ∧
    (¬ ∀ final, runSteps step { alloc := ⟨0x10000, 24, 0, fun _ => 0⟩, live := [] }
        [.allocate 0xFFFFFFFFFFFFFFFF 1] = some final → Sound 0x10000 24 final.1) := by
  refine ⟨fun h => ?_, fun h => ?_, fun h => ?_⟩
  · have hlive : (runSteps step { alloc := ⟨0x10080, 24, 0, fun _ => 0⟩, live := [] }
        [.allocate 128 256, .allocate 128 1, .free 0x10080 128, .allocate 256 1]).map
          (fun final => final.1.live) = some [⟨0x10080, 256, 1⟩, ⟨0x10100, 128, 256⟩] := by
      decide +kernel
    obtain ⟨final, hrun, hfinal⟩ := Option.map_eq_some_iff.mp hlive
    have sound := (h final hrun).disjoint
    rw [hfinal] at sound
    exact absurd ((List.pairwise_cons.mp sound).1 _ (List.mem_singleton.mpr rfl)) (by decide)
  · have hlive : (runSteps step { alloc := ⟨0x10000, 24, 0, fun _ => 0⟩, live := [] }
        [.allocate 1280 1, .allocate 128 1, .allocate 128 1, .free 0x10500 128,
          .allocate 256 256]).map (fun final => final.1.live) =
        some [⟨0x10680, 256, 256⟩, ⟨0x10580, 128, 1⟩, ⟨0x10000, 1280, 1⟩] := by
      decide +kernel
    obtain ⟨final, hrun, hfinal⟩ := Option.map_eq_some_iff.mp hlive
    have sound := (h final hrun).aligned
    rw [hfinal] at sound
    exact absurd (sound _ List.mem_cons_self) (by decide)
  · have hlive : (runSteps step { alloc := ⟨0x10000, 24, 0, fun _ => 0⟩, live := [] }
        [.allocate 0xFFFFFFFFFFFFFFFF 1]).map (fun final => final.1.live) =
        some [⟨0x10000, 0xFFFFFFFFFFFFFFFF, 1⟩] := by
      decide +kernel
    obtain ⟨final, hrun, hfinal⟩ := Option.map_eq_some_iff.mp hlive
    have sound := (h final hrun).inside
    rw [hfinal] at sound
    exact absurd (sound _ List.mem_cons_self).2 (by decide)

end BitmapAllocator

end BekOS
