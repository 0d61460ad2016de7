import BekOS.Filesystem.BlockCache

/-!
# What fetching a block does

`Fetched` says everything a call of `fetch` can do: find the block, create it, or
create it and purge another one, which nobody refers to and which is written back if
it is dirty.  What a cache and its device hold together, the contents of the blocks,
is the same before and after, as long as what is written back gets there.
-/

namespace BekOS

open Hashtable Function

theorem hashRespects_nat (hash : ℕ → ℕ) : HashRespects hash := fun key other h => by
  rw [eq_of_beq h]

theorem update_eq (map : RefMap ℕ ℕ) (key : ℕ) (val : Option ℕ) (other : ℕ) :
    map.update key val other = if other = key then val else map other := by
  unfold RefMap.update
  by_cases h : other = key
  · rw [if_pos h, if_pos (beq_iff_eq.mpr h)]
  · rw [if_neg h, if_neg fun heq => h (beq_iff_eq.mp heq)]

namespace BlockCache

variable {hash : ℕ → ℕ} {moves : BlockMoves} {pointers : List ℕ} {cache cache' : BlockCache}
  {device device' : BlockDevice} {key id : ℕ} {needsContent : Bool}

/-- The objects in the cache, by the number of their block. -/
def heldBlocks (hash : ℕ → ℕ) (cache : BlockCache) : RefMap ℕ ℕ := cache.items.held hash

/-- The dirty range is a range of the block. -/
def RangeOk (moves : BlockMoves) (item : BlockCacheItem) : Prop :=
  item.size = moves.size ∧ item.dirtyStart ≤ item.dirtyEnd ∧ item.dirtyEnd ≤ moves.size

/-- The table is well formed; a block is in the cache under one number, and exists; and
dirty ranges are ranges of the block. -/
structure Ok (hash : ℕ → ℕ) (moves : BlockMoves) (cache : BlockCache) : Prop where
  wf : cache.items.hashtable.WellFormed hash
  inj : ∀ key key' id, cache.heldBlocks hash key = some id →
    cache.heldBlocks hash key' = some id → key = key'
  known : ∀ key id, cache.heldBlocks hash key = some id → id < cache.created
  ranges : ∀ id < cache.created, RangeOk moves (cache.blocks id)

/-- What a call of `fetch` can do. -/
inductive Fetched (hash : ℕ → ℕ) (moves : BlockMoves) (pointers : List ℕ) (cache : BlockCache)
    (device : BlockDevice) (key : ℕ) (needsContent : Bool) :
    BlockCache → BlockDevice → ℕ → Prop
  | found {cache' : BlockCache} {id : ℕ} (present : cache.heldBlocks hash key = some id)
      (same : cache'.heldBlocks hash = cache.heldBlocks hash)
      (blocks : cache'.blocks = cache.blocks) (created : cache'.created = cache.created) :
      Fetched hash moves pointers cache device key needsContent cache' device id
  | loaded {cache' : BlockCache} {device' : BlockDevice} {data : Memory Byte}
      (absent : cache.heldBlocks hash key = none)
      (load : moves.load device (cache.scratch cache.created) key needsContent =
        some (device', data))
      (same : cache'.heldBlocks hash = (cache.heldBlocks hash).update key (some cache.created))
      (blocks : cache'.blocks =
        update cache.blocks cache.created (.create data moves.size))
      (created : cache'.created = cache.created + 1) :
      Fetched hash moves pointers cache device key needsContent cache' device' cache.created
  | replaced {cache' : BlockCache} {device₁ device' : BlockDevice} {data : Memory Byte}
      {victim id : ℕ} {item : BlockCacheItem}
      (absent : cache.heldBlocks hash key = none)
      (load : moves.load device (cache.scratch cache.created) key needsContent =
        some (device₁, data))
      (other : victim ≠ key) (present : cache.heldBlocks hash victim = some id)
      (free : id ∉ pointers)
      (purge : moves.purge device₁ victim (cache.blocks id) = some (device', item))
      (same : cache'.heldBlocks hash =
        ((cache.heldBlocks hash).update key (some cache.created)).update victim none)
      (blocks : cache'.blocks = update
        (update cache.blocks cache.created (.create data moves.size)) id item)
      (created : cache'.created = cache.created + 1) :
      Fetched hash moves pointers cache device key needsContent cache' device' cache.created

theorem refCount_eq_one {fresh : ℕ} (h : refCount fresh pointers id = 1) :
    id ≠ fresh ∧ id ∉ pointers := by
  unfold refCount at h
  constructor
  · rintro rfl
    rw [if_pos rfl] at h
    omega
  · intro hmem
    have := List.count_pos_iff.mpr hmem
    omega

/-- **`fetch`** does one of these. -/
theorem Ok.fetch (ok : cache.Ok hash moves)
    (h : BlockCache.fetch hash moves pointers cache device key needsContent =
      some ((cache', device'), id)) :
    Fetched hash moves pointers cache device key needsContent cache' device' id ∧
      cache'.items.hashtable.WellFormed hash := by
  have respects := hashRespects_nat hash
  obtain ⟨⟨items, found⟩, hfind, h⟩ := Option.bind_eq_some_iff.mp h
  obtain ⟨hfound, wf', hheld, hempty⟩ := LruCache.find_held ok.wf respects hfind
  cases found with
  | some id' =>
      cases h
      exact ⟨.found hfound.symm hheld rfl rfl, wf'⟩
  | none =>
      have hslot := hempty (LruCache.hasEmpty_of_find_none ok.wf hfind)
      obtain ⟨⟨device₁, data⟩, hload, h⟩ := Option.bind_eq_some_iff.mp h
      have habsent : items.held hash key = none := by
        rw [hheld]
        exact hfound.symm
      have hcount : ∀ id, refCount cache.created pointers id = 1 →
          refCount cache.created pointers id = 1 := fun _ h => h
      obtain ⟨items', purged, hset, wf'', -, hcases⟩ := LruCache.set_held wf' respects hslot
        habsent cache.created hcount
      unfold store at h
      rw [hset, Option.bind_some] at h
      rw [hheld] at hcases
      rcases hcases with ⟨rfl, hsame⟩ | ⟨victim, id', rfl, hone, hpresent, hsame⟩
      · cases h
        exact ⟨.loaded hfound.symm hload hsame rfl rfl, wf''⟩
      · obtain ⟨done, hback, h⟩ := Option.bind_eq_some_iff.mp h
        rw [if_pos rfl, Option.some_inj, Prod.mk.injEq] at h
        obtain ⟨rfl, rfl⟩ := h
        obtain ⟨⟨device₂, item⟩, hpurge, hdone⟩ := Option.map_eq_some_iff.mp hback
        cases hdone
        obtain ⟨hfresh, hfree⟩ := refCount_eq_one hone
        have hother : victim ≠ key := by
          rintro rfl
          rw [update_eq, if_pos rfl] at hpresent
          exact hfresh (Option.some_inj.mp hpresent).symm
        rw [update_eq, if_neg hother] at hpresent
        have hblock : update cache.blocks cache.created
            (BlockCacheItem.create data moves.size) id' = cache.blocks id' :=
          update_of_ne hfresh _ _
        refine ⟨.replaced hfound.symm hload hother hpresent hfree ?_ hsame rfl rfl, wf''⟩
        rwa [← hblock]

theorem exists_fetch (ok : cache.Ok hash moves) (held : (cache.heldBlocks hash key).isSome)
    (pointers : List ℕ) (device : BlockDevice) (needsContent : Bool) :
    ∃ cache' id, BlockCache.fetch hash moves pointers cache device key needsContent =
      some ((cache', device), id) ∧ cache'.heldBlocks hash = cache.heldBlocks hash := by
  have respects := hashRespects_nat hash
  have hheld : cache.items.held hash key ≠ none := Option.isSome_iff_ne_none.mp held
  obtain ⟨⟨items, found⟩, hfind⟩ := LruCache.exists_find ok.wf respects (Or.inr hheld)
  obtain ⟨hfound, -, hsame, -⟩ := LruCache.find_held ok.wf respects hfind
  obtain ⟨id, rfl⟩ := Option.ne_none_iff_exists'.mp (hfound ▸ hheld)
  refine ⟨{ cache with items := items }, id, ?_, hsame⟩
  rw [BlockCache.fetch, hfind, Option.bind_some]

theorem purge_cases {key : ℕ} {item item' : BlockCacheItem}
    (h : moves.purge device key item = some (device', item')) :
    (¬ item.IsDirty ∧ device' = device ∧ item' = item) ∨
      ∃ addr, item.IsDirty ∧ moves.writeAddr key = some addr ∧ item' = item.clearDirty ∧
        device' = device.blockingWrite (addr + (moves.dirtyRange item).1) item.data
          (moves.dirtyRange item).1 ((moves.dirtyRange item).2 - (moves.dirtyRange item).1) := by
  unfold BlockMoves.purge at h
  split_ifs at h with hdirty
  · obtain ⟨addr, haddr, h⟩ := Option.map_eq_some_iff.mp h
    cases h
    exact Or.inr ⟨addr, hdirty, haddr, rfl, rfl⟩
  · cases h
    exact Or.inl ⟨hdirty, rfl, rfl⟩

theorem purged_item {key : ℕ} {item item' : BlockCacheItem}
    (h : moves.purge device key item = some (device', item')) :
    item'.data = item.data ∧ item'.size = item.size ∧ ¬ item'.IsDirty ∧
      (item'.dirtyStart = 0 ∧ item'.dirtyEnd = 0 ∨
        item'.dirtyStart = item.dirtyStart ∧ item'.dirtyEnd = item.dirtyEnd) := by
  rcases purge_cases h with ⟨hclean, -, rfl⟩ | ⟨addr, -, -, rfl, -⟩
  · exact ⟨rfl, rfl, hclean, Or.inr ⟨rfl, rfl⟩⟩
  · exact ⟨rfl, rfl, not_not_intro rfl, Or.inl ⟨rfl, rfl⟩⟩

theorem rangeOk_create (data : Memory Byte) : RangeOk moves (.create data moves.size) :=
  ⟨rfl, Nat.le_refl 0, Nat.zero_le _⟩

theorem RangeOk.purge {item item' : BlockCacheItem} (ok : RangeOk moves item)
    (h : moves.purge device key item = some (device', item')) : RangeOk moves item' := by
  obtain ⟨-, hsize, -, hrange⟩ := purged_item h
  unfold RangeOk
  rw [hsize]
  refine ⟨ok.1, ?_⟩
  rcases hrange with ⟨hstart, hend⟩ | ⟨hstart, hend⟩
  · rw [hstart, hend]
    exact ⟨Nat.le_refl 0, Nat.zero_le _⟩
  · rw [hstart, hend]
    exact ok.2

theorem Ok.of_created (ok : cache.Ok hash moves)
    (wf : cache'.items.hashtable.WellFormed hash) (created : cache'.created = cache.created + 1)
    (from_old : ∀ key' id, cache'.heldBlocks hash key' = some id →
      key' = key ∧ id = cache.created ∨ cache.heldBlocks hash key' = some id)
    (ranges : ∀ id < cache.created + 1, RangeOk moves (cache'.blocks id)) :
    cache'.Ok hash moves := by
  refine ⟨wf, ?_, ?_, ?_⟩
  · intro key₁ key₂ id h₁ h₂
    rcases from_old key₁ id h₁ with ⟨rfl, rfl⟩ | hold₁
    · rcases from_old key₂ _ h₂ with ⟨rfl, -⟩ | hold₂
      · rfl
      · exact absurd (ok.known key₂ _ hold₂) (lt_irrefl _)
    · rcases from_old key₂ id h₂ with ⟨rfl, rfl⟩ | hold₂
      · exact absurd (ok.known key₁ _ hold₁) (lt_irrefl _)
      · exact ok.inj key₁ key₂ id hold₁ hold₂
  · intro key' id h
    rw [created]
    rcases from_old key' id h with ⟨-, rfl⟩ | hold
    · exact Nat.lt_succ_self _
    · exact Nat.lt_succ_of_lt (ok.known key' id hold)
  · rw [created]
    exact ranges

theorem Ok.ranges_created (ok : cache.Ok hash moves) (data : Memory Byte) :
    ∀ id < cache.created + 1,
      RangeOk moves (update cache.blocks cache.created (.create data moves.size) id) := by
  intro id hid
  by_cases hfresh : id = cache.created
  · rw [hfresh, update_self]
    exact rangeOk_create data
  · rw [update_of_ne hfresh]
    exact ok.ranges id (by omega)

/-- **Fetching** keeps the cache well formed. -/
theorem Fetched.ok (ok : cache.Ok hash moves)
    (h : Fetched hash moves pointers cache device key needsContent cache' device' id)
    (wf : cache'.items.hashtable.WellFormed hash) : cache'.Ok hash moves := by
  cases h with
  | found present same blocks created =>
      refine ⟨wf, ?_, ?_, ?_⟩
      · rw [same]
        exact ok.inj
      · rw [same, created]
        exact ok.known
      · rw [blocks, created]
        exact ok.ranges
  | loaded absent load same blocks created =>
      have hold : ∀ key' id, cache'.heldBlocks hash key' = some id →
          key' = key ∧ id = cache.created ∨ cache.heldBlocks hash key' = some id := by
        intro key' id h
        rw [same, update_eq] at h
        split_ifs at h with hkey
        · exact Or.inl ⟨hkey, (Option.some_inj.mp h).symm⟩
        · exact Or.inr h
      refine ok.of_created wf created hold ?_
      rw [blocks]
      exact ok.ranges_created _
  | replaced absent load other present free purge same blocks created =>
      have hold : ∀ key' id, cache'.heldBlocks hash key' = some id →
          key' = key ∧ id = cache.created ∨ cache.heldBlocks hash key' = some id := by
        intro key' id h
        rw [same, update_eq, update_eq] at h
        split_ifs at h with hvictim hkey
        · exact Or.inl ⟨hkey, (Option.some_inj.mp h).symm⟩
        · exact Or.inr h
      refine ok.of_created wf created hold fun id hid => ?_
      rw [blocks, update_apply]
      split_ifs with hvictim
      · have range : RangeOk moves (cache.blocks _) := ok.ranges _ (ok.known _ _ present)
        exact range.purge purge
      · exact ok.ranges_created _ id hid

theorem Fetched.present
    (h : Fetched hash moves pointers cache device key needsContent cache' device' id) :
    cache'.heldBlocks hash key = some id := by
  cases h with
  | found present same blocks created => rw [same, present]
  | loaded absent load same blocks created => rw [same, update_eq, if_pos rfl]
  | replaced absent load other present free purge same blocks created =>
      rw [same, update_eq, if_neg other.symm, update_eq, if_pos rfl]

end BlockCache

/-! ## Contents -/

/-- No write to the device has failed. -/
def BlockDevice.WritesSucceed (device : BlockDevice) : Prop :=
  ∀ transfer ∈ device.transfers, transfer.write = true → transfer.result = .Success

namespace BlockMoves

variable {moves : BlockMoves} {device device' : BlockDevice} {key : ℕ}

/-- Where a block stands on the device. -/
def home (moves : BlockMoves) (key : ℕ) : ℕ := (moves.writeAddr key).getD 0

/-- The blocks of these numbers are read from where they are written to, and stand apart
from each other. -/
structure Apart (moves : BlockMoves) (valid : ℕ → Prop) : Prop where
  read_eq : ∀ key, valid key → moves.readAddr key = some (moves.home key)
  write_eq : ∀ key, valid key → moves.writeAddr key = some (moves.home key)
  apart : ∀ key key', valid key → valid key' → key ≠ key' →
    moves.home key + moves.size ≤ moves.home key' ∨ moves.home key' + moves.size ≤ moves.home key

/-- The byte of the block is to be written back. -/
def DirtyAt (moves : BlockMoves) (item : BlockCacheItem) (i : ℕ) : Prop :=
  item.IsDirty ∧ (moves.dirtyRange item).1 ≤ i ∧ i < (moves.dirtyRange item).2

theorem load_eq {memory data : Memory Byte} {addr : ℕ} (hread : moves.readAddr key = some addr)
    (h : moves.load device memory key true = some (device', data)) :
    device'.bytes = device.bytes ∧ ∀ i < moves.size, data i = device.bytes (addr + i) := by
  rw [load, if_pos rfl, hread, Option.bind_some] at h
  split_ifs at h with hsuccess
  rw [Option.some_inj, BlockDevice.blockingRead, if_pos hsuccess, Prod.mk.injEq] at h
  obtain ⟨rfl, rfl⟩ := h
  refine ⟨rfl, fun i hi => ?_⟩
  rw [copyRange_of_mem (Nat.zero_le i) (by omega), Nat.sub_zero]

theorem load_bytes {memory data : Memory Byte} {needsContent : Bool}
    (h : moves.load device memory key needsContent = some (device', data)) :
    device'.bytes = device.bytes := by
  unfold load at h
  split_ifs at h
  · obtain ⟨addr, -, h⟩ := Option.bind_eq_some_iff.mp h
    split_ifs at h
    cases h
    rfl
  · cases h
    rfl

theorem purge_bytes {item item' : BlockCacheItem} {addr : ℕ}
    (hwrite : moves.writeAddr key = some addr) (range : BlockCache.RangeOk moves item)
    (clean : ∀ i < moves.size, ¬ moves.DirtyAt item i → item.data i = device.bytes (addr + i))
    (h : moves.purge device key item = some (device', item')) (success : device'.WritesSucceed) :
    (∀ i < moves.size, device'.bytes (addr + i) = item.data i) ∧
      ∀ a, ¬ (addr ≤ a ∧ a < addr + moves.size) → device'.bytes a = device.bytes a := by
  rcases BlockCache.purge_cases h with ⟨hclean, rfl, -⟩ | ⟨addr', hdirty, haddr', -, rfl⟩
  · exact ⟨fun i hi => (clean i hi fun hdirty => hclean hdirty.1).symm, fun _ _ => rfl⟩
  · rw [hwrite, Option.some_inj] at haddr'
    subst haddr'
    set range' := moves.dirtyRange item with hrange'
    have hbounds : range'.1 ≤ range'.2 ∧ range'.2 ≤ moves.size := by
      rw [hrange', dirtyRange]
      split_ifs
      · exact ⟨Nat.zero_le _, Nat.le_refl _⟩
      · exact range.2
    have hresult : device.result true (addr + range'.1) (range'.2 - range'.1) = .Success :=
      success ⟨true, _, _, _⟩ List.mem_cons_self rfl
    have hbytes : (device.blockingWrite (addr + range'.1) item.data range'.1
        (range'.2 - range'.1)).bytes =
        copyRange device.bytes (addr + range'.1) item.data range'.1 (range'.2 - range'.1) :=
      if_pos hresult
    rw [hbytes]
    constructor
    · intro i hi
      by_cases hin : range'.1 ≤ i ∧ i < range'.2
      · rw [copyRange_of_mem (by omega) (by omega)]
        congr 1
        omega
      · rw [copyRange_of_not_mem (by omega)]
        exact (clean i hi fun hdirtyAt => hin hdirtyAt.2).symm
    · exact fun a ha => copyRange_of_not_mem (by omega)

end BlockMoves

namespace BlockCache

variable {hash : ℕ → ℕ} {moves : BlockMoves} {pointers : List ℕ} {cache cache' : BlockCache}
  {device device' : BlockDevice} {key id : ℕ} {needsContent : Bool} {valid : ℕ → Prop}

/-- What is not to be written back is as on the device. -/
structure Backed (hash : ℕ → ℕ) (moves : BlockMoves) (valid : ℕ → Prop) (cache : BlockCache)
    (device : BlockDevice) : Prop where
  valid : ∀ key id, cache.heldBlocks hash key = some id → valid key
  clean : ∀ key id, cache.heldBlocks hash key = some id → ∀ i < moves.size,
    ¬ moves.DirtyAt (cache.blocks id) i →
      (cache.blocks id).data i = device.bytes (moves.home key + i)

/-- **The contents of a block**: what the cache has of it, or else the device. -/
def contents (hash : ℕ → ℕ) (moves : BlockMoves) (cache : BlockCache) (device : BlockDevice)
    (key : ℕ) : Memory Byte :=
  match cache.heldBlocks hash key with
  | some id => (cache.blocks id).data
  | none => fun i => device.bytes (moves.home key + i)

theorem contents_of_held (h : cache.heldBlocks hash key = some id) :
    cache.contents hash moves device key = (cache.blocks id).data := by
  rw [contents, h]

theorem contents_of_absent (h : cache.heldBlocks hash key = none) (i : ℕ) :
    cache.contents hash moves device key i = device.bytes (moves.home key + i) := by
  rw [contents, h]

/-- What a fetch leaves of the other blocks: their contents, and the device beyond all of
them. -/
structure Spares (hash : ℕ → ℕ) (moves : BlockMoves) (valid : ℕ → Prop) (cache : BlockCache)
    (device : BlockDevice) (key : ℕ) (cache' : BlockCache) (device' : BlockDevice) : Prop where
  numbered : ∀ key' id, cache'.heldBlocks hash key' = some id → key' ≠ key → valid key'
  clean : ∀ key' id, cache'.heldBlocks hash key' = some id → key' ≠ key → ∀ i < moves.size,
    ¬ moves.DirtyAt (cache'.blocks id) i →
      (cache'.blocks id).data i = device'.bytes (moves.home key' + i)
  others : ∀ key', valid key' → key' ≠ key → ∀ i < moves.size,
    cache'.contents hash moves device' key' i = cache.contents hash moves device key' i
  beyond : ∀ a, (∀ key', valid key' → ¬ (moves.home key' ≤ a ∧ a < moves.home key' + moves.size)) →
    device'.bytes a = device.bytes a

/-- **Fetching** spares the other blocks.  The block itself is the one that was there, or
it is one that has been loaded. -/
theorem Fetched.spares (ok : cache.Ok hash moves) (backed : cache.Backed hash moves valid device)
    (apart : moves.Apart valid) (hvalid : valid key)
    (h : Fetched hash moves pointers cache device key needsContent cache' device' id)
    (success : device'.WritesSucceed) :
    Spares hash moves valid cache device key cache' device' ∧
      (cache.heldBlocks hash key = some id ∧ cache'.blocks = cache.blocks ∧ device' = device ∨
        cache.heldBlocks hash key = none ∧ ∃ device₁ data,
          moves.load device (cache.scratch cache.created) key needsContent = some (device₁, data) ∧
            cache'.blocks id = .create data moves.size ∧
            ∀ i < moves.size, device'.bytes (moves.home key + i) =
              device.bytes (moves.home key + i)) := by
  cases h with
  | found present same blocks created =>
      refine ⟨⟨?_, ?_, ?_, fun _ _ => rfl⟩, Or.inl ⟨present, blocks, rfl⟩⟩
      · rw [same]
        exact fun key' id held _ => backed.valid key' id held
      · rw [same, blocks]
        exact fun key' id held _ => backed.clean key' id held
      · intro key' _ _ i _
        rw [BlockCache.contents, BlockCache.contents, same, blocks]
  | @loaded _ data absent load same blocks created =>
      have hbytes := BlockMoves.load_bytes load
      have hheld : ∀ key', cache'.heldBlocks hash key' =
          if key' = key then some cache.created else cache.heldBlocks hash key' := fun key' => by
        rw [same, update_eq]
      have hfresh : cache'.blocks cache.created = .create data moves.size := by
        rw [blocks, update_self]
      have hold : ∀ key' id, cache.heldBlocks hash key' = some id →
          cache'.blocks id = cache.blocks id := fun key' id h => by
        have := ok.known key' id h
        rw [blocks, update_of_ne (by omega)]
      refine ⟨⟨?_, ?_, ?_, fun _ _ => by rw [hbytes]⟩,
        Or.inr ⟨absent, _, data, load, hfresh, fun _ _ => by rw [hbytes]⟩⟩
      · intro key' id' h hkey
        rw [hheld, if_neg hkey] at h
        exact backed.valid key' id' h
      · intro key' id' h hkey i hi hclean
        rw [hheld, if_neg hkey] at h
        rw [hbytes]
        rw [hold key' id' h] at hclean ⊢
        exact backed.clean key' id' h i hi hclean
      · intro key' _ hkey i _
        cases hheld' : cache.heldBlocks hash key' with
        | none =>
            rw [contents_of_absent (by rw [hheld, if_neg hkey, hheld']),
              contents_of_absent hheld', hbytes]
        | some id' =>
            rw [contents_of_held (by rw [hheld, if_neg hkey, hheld']),
              contents_of_held hheld', hold key' id' hheld']
  | @replaced _ device₁ data victim id₁ item absent load other present free purge same blocks
      created =>
      have hbytes := BlockMoves.load_bytes load
      have hvictim := backed.valid victim id₁ present
      have hknown := ok.known victim id₁ present
      obtain ⟨hwritten, hbeyond⟩ := BlockMoves.purge_bytes (apart.write_eq victim hvictim)
        (ok.ranges id₁ hknown)
        (fun i hi hclean => by rw [hbytes]; exact backed.clean victim id₁ present i hi hclean)
        purge success
      -- No other block stands where the one that was purged stands.
      have hstays : ∀ key', valid key' → key' ≠ victim → ∀ i < moves.size,
          device'.bytes (moves.home key' + i) = device.bytes (moves.home key' + i) := by
        intro key' hkey' hne i hi
        have := apart.apart key' victim hkey' hvictim hne
        rw [hbeyond _ (by omega), hbytes]
      have hheld : ∀ key', cache'.heldBlocks hash key' =
          if key' = victim then none
          else if key' = key then some cache.created else cache.heldBlocks hash key' :=
        fun key' => by rw [same, update_eq, update_eq]
      have hfresh : cache'.blocks cache.created = .create data moves.size := by
        rw [blocks, update_of_ne (by omega), update_self]
      have hold : ∀ key' id, key' ≠ victim → cache.heldBlocks hash key' = some id →
          cache'.blocks id = cache.blocks id := fun key' id hne h => by
        have := ok.known key' id h
        have hid : id ≠ id₁ := fun heq => hne (ok.inj key' victim id₁ (heq ▸ h) present)
        rw [blocks, update_of_ne hid, update_of_ne (by omega)]
      refine ⟨⟨?_, ?_, ?_, ?_⟩,
        Or.inr ⟨absent, _, data, load, hfresh, hstays key hvalid other.symm⟩⟩
      · intro key' id' h hkey
        rw [hheld] at h
        split_ifs at h with hgone
        exact backed.valid key' id' h
      · intro key' id' h hkey i hi hclean
        rw [hheld] at h
        split_ifs at h with hgone
        rw [hold key' id' hgone h] at hclean ⊢
        rw [hstays key' (backed.valid key' id' h) hgone i hi]
        exact backed.clean key' id' h i hi hclean
      · intro key' hkey' hkey i hi
        by_cases hgone : key' = victim
        · subst hgone
          rw [contents_of_absent (by rw [hheld, if_pos rfl]), contents_of_held present]
          exact hwritten i hi
        · cases hheld' : cache.heldBlocks hash key' with
          | none =>
              rw [contents_of_absent (by rw [hheld, if_neg hgone, if_neg hkey, hheld']),
                contents_of_absent hheld', hstays key' hkey' hgone i hi]
          | some id' =>
              rw [contents_of_held (by rw [hheld, if_neg hgone, if_neg hkey, hheld']),
                contents_of_held hheld', hold key' id' hgone hheld']
      · intro a ha
        rw [hbeyond a (ha victim hvictim), hbytes]

/-- **Fetching changes no contents**, and nothing of the device beyond the blocks. -/
theorem Fetched.contents (ok : cache.Ok hash moves) (backed : cache.Backed hash moves valid device)
    (apart : moves.Apart valid) (hvalid : valid key)
    (h : Fetched hash moves pointers cache device key true cache' device' id)
    (success : device'.WritesSucceed) :
    cache'.Backed hash moves valid device' ∧
      (∀ key', valid key' → ∀ i < moves.size,
        cache'.contents hash moves device' key' i = cache.contents hash moves device key' i) ∧
      ∀ a, (∀ key', valid key' → ¬ (moves.home key' ≤ a ∧ a < moves.home key' + moves.size)) →
        device'.bytes a = device.bytes a := by
  have present := h.present
  obtain ⟨spares, hblock⟩ := h.spares ok backed apart hvalid success
  -- The block itself has its contents from before, and what is clean of it is as on the device.
  have hself : (∀ i < moves.size, ¬ moves.DirtyAt (cache'.blocks id) i →
        (cache'.blocks id).data i = device'.bytes (moves.home key + i)) ∧
      ∀ i < moves.size, (cache'.blocks id).data i = cache.contents hash moves device key i := by
    rcases hblock with ⟨held, hblocks, rfl⟩ | ⟨absent, device₁, data, load, hfresh, hhome⟩
    · rw [hblocks, contents_of_held held]
      exact ⟨backed.clean key id held, fun _ _ => rfl⟩
    · obtain ⟨-, hdata⟩ := BlockMoves.load_eq (apart.read_eq key hvalid) load
      rw [hfresh]
      refine ⟨fun i hi _ => ?_, fun i hi => ?_⟩
      · rw [hhome i hi]
        exact hdata i hi
      · rw [contents_of_absent absent]
        exact hdata i hi
  refine ⟨⟨?_, ?_⟩, ?_, spares.beyond⟩
  · intro key' id' held
    by_cases hkey : key' = key
    · rwa [hkey]
    · exact spares.numbered key' id' held hkey
  · intro key' id' held
    by_cases hkey : key' = key
    · rw [hkey, present, Option.some_inj] at held
      rw [hkey, ← held]
      exact hself.1
    · exact spares.clean key' id' held hkey
  · intro key' hkey' i hi
    by_cases hkey : key' = key
    · rw [hkey, contents_of_held present]
      exact hself.2 i hi
    · exact spares.others key' hkey' hkey i hi

end BlockCache

end BekOS
