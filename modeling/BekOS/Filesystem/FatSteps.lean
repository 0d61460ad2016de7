import BekOS.Filesystem.BlockFetch
import BekOS.Filesystem.DirectoryLoops
import BekOS.Filesystem.FileAllocationTable

/-!
# The steps of the FAT operations

Whatever an operation of `FileAllocationTable` computes, it touches the caches and
the device in a few ways only: it fetches a block, or changes one that is in a cache
and marks it dirty.  `BlockStep` is one of these, and every operation is a sequence
of them; so what they all keep, every operation keeps.
-/

namespace BekOS.FileAllocationTable

open Relation

variable {hash : ℕ → ℕ} {fat fat' : FileAllocationTable} {pointers : List ℕ} {id : ℕ}

/-- Both caches are well formed. -/
structure Ok (hash : ℕ → ℕ) (fat : FileAllocationTable) : Prop where
  clusters : fat.clusterCache.Ok hash fat.info.clusterMoves
  sectors : fat.fatCache.Ok hash fat.info.fatMoves

/-- One change of the caches or the device. -/
inductive BlockStep (hash : ℕ → ℕ) (fat : FileAllocationTable) : FileAllocationTable → Prop
  | sector {pointers : List ℕ} {sector : ℕ} {fat' : FileAllocationTable} {id : ℕ}
      (fetched : fat.fetchFatSector hash pointers sector = some (fat', id)) :
      BlockStep hash fat fat'
  | cluster {cluster : ℕ} {needsContent : Bool} {fat' : FileAllocationTable} {id : ℕ}
      (fetched : fat.fetchCluster hash cluster needsContent = some (fat', id)) :
      BlockStep hash fat fat'
  | markSector {sector id : ℕ} (held : fat.fatCache.heldBlocks hash sector = some id)
      (f : Memory Byte → Memory Byte) : BlockStep hash fat (fat.writeSector id f)
  | markCluster {cluster id start stop : ℕ} {data : Memory Byte} {written : BlockCacheItem}
      (held : fat.clusterCache.heldBlocks hash cluster = some id)
      (marked : ((fat.clusterCache.blocks id).withData data).addDirtyRegion start stop =
        some written) :
      BlockStep hash fat { fat with clusterCache := fat.clusterCache.modify id fun _ => written }
  | hint (freeClusterHint : ℕ) :
      BlockStep hash fat { fat with freeClusterHint := freeClusterHint }
  | readPast (byteOffset length : ℕ) :
      BlockStep hash fat { fat with device := fat.device.record false byteOffset length }

/-- A sequence of such changes. -/
abbrev Steps (hash : ℕ → ℕ) : FileAllocationTable → FileAllocationTable → Prop :=
  ReflTransGen (BlockStep hash)

/-! ## Fetching -/

theorem Ok.fetchFatSector (ok : fat.Ok hash) {sector : ℕ}
    (h : fat.fetchFatSector hash pointers sector = some (fat', id)) :
    ∃ cache device, fat' = { fat with fatCache := cache, device := device } ∧
      sector < fat.info.fatSectors ∧
      BlockCache.Fetched hash fat.info.fatMoves pointers fat.fatCache fat.device sector true
        cache device id ∧ fat'.Ok hash := by
  unfold FileAllocationTable.fetchFatSector at h
  split_ifs at h with hsector
  obtain ⟨⟨⟨cache, device⟩, id'⟩, hfetch, h⟩ := Option.map_eq_some_iff.mp h
  cases h
  obtain ⟨hfetched, wf⟩ := ok.sectors.fetch hfetch
  exact ⟨cache, device, rfl, hsector, hfetched, ok.clusters, hfetched.ok ok.sectors wf⟩

theorem Ok.fetchCluster (ok : fat.Ok hash) {cluster : ℕ} {needsContent : Bool}
    (h : fat.fetchCluster hash cluster needsContent = some (fat', id)) :
    ∃ cache device, fat' = { fat with clusterCache := cache, device := device } ∧
      BlockCache.Fetched hash fat.info.clusterMoves [] fat.clusterCache fat.device cluster
        needsContent cache device id ∧ fat'.Ok hash := by
  obtain ⟨⟨⟨cache, device⟩, id'⟩, hfetch, h⟩ := Option.map_eq_some_iff.mp h
  cases h
  obtain ⟨hfetched, wf⟩ := ok.clusters.fetch hfetch
  exact ⟨cache, device, rfl, hfetched, hfetched.ok ok.clusters wf, ok.sectors⟩

/-! ## Changing blocks -/

@[simp] theorem writeSector_info (f : Memory Byte → Memory Byte) :
    (fat.writeSector id f).info = fat.info := rfl

theorem Ok.mount (info : FATInfo) (device : BlockDevice) (scratch : ℕ → Memory Byte) :
    (mount info device scratch).Ok hash := by
  have hnew : ∀ moves : BlockMoves, ∀ max ≥ 1, (BlockCache.new max scratch).Ok hash moves := by
    intro moves max hmax
    have hnone : ∀ key, (BlockCache.new max scratch).heldBlocks hash key = none :=
      LruCache.held_new (hashRespects_nat hash) hmax
    refine ⟨(LruCache.new_slots hmax).1, ?_, ?_, nofun⟩
    · intro key key' id h
      rw [hnone] at h
      cases h
    · intro key id h
      rw [hnone] at h
      cases h
  exact ⟨hnew _ _ (by decide), hnew _ _ (by decide)⟩

end BekOS.FileAllocationTable

namespace BekOS.BlockCache

variable {hash : ℕ → ℕ} {moves : BlockMoves} {cache : BlockCache} {id : ℕ}

theorem Ok.modify (ok : cache.Ok hash moves) {f : BlockCacheItem → BlockCacheItem}
    (range : id < cache.created → RangeOk moves (f (cache.blocks id))) :
    (cache.modify id f).Ok hash moves := by
  refine ⟨ok.wf, ok.inj, ok.known, fun other hother => ?_⟩
  show RangeOk moves (Function.update cache.blocks id (f (cache.blocks id)) other)
  rw [Function.update_apply]
  split_ifs with heq
  · exact range (heq ▸ hother)
  · exact ok.ranges other hother

theorem RangeOk.withData {item : BlockCacheItem} (range : RangeOk moves item) (data : Memory Byte) :
    RangeOk moves (item.withData data) := range

theorem RangeOk.setWholeDirty {item : BlockCacheItem} (range : RangeOk moves item) :
    RangeOk moves item.setWholeDirty :=
  ⟨range.1, Nat.zero_le _, range.1.le⟩

theorem RangeOk.addDirtyRegion {item item' : BlockCacheItem} {start stop : ℕ}
    (range : RangeOk moves item) (h : item.addDirtyRegion start stop = some item') :
    RangeOk moves item' := by
  obtain ⟨hsize, hle, hend⟩ := range
  unfold BlockCacheItem.addDirtyRegion at h
  split_ifs at h with hbounds
  · cases h
    refine ⟨hsize, ?_, ?_⟩
    · show min start item.dirtyStart ≤ max stop item.dirtyEnd
      omega
    · show max stop item.dirtyEnd ≤ moves.size
      omega
  · cases h
    exact ⟨hsize, hbounds.1, by rw [← hsize]; exact hbounds.2⟩

end BekOS.BlockCache

namespace BekOS.FileAllocationTable

open Relation

variable {hash : ℕ → ℕ} {fat fat' : FileAllocationTable}  {id : ℕ}

theorem Ok.writeSector (ok : fat.Ok hash) (f : Memory Byte → Memory Byte) :
    (fat.writeSector id f).Ok hash :=
  ⟨ok.clusters, ok.sectors.modify
    (f := fun sector => (sector.withData (f sector.data)).setWholeDirty) fun hid =>
      ((ok.sectors.ranges id hid).withData _).setWholeDirty⟩

theorem Ok.markCluster (ok : fat.Ok hash) {start stop : ℕ} {data : Memory Byte}
    {written : BlockCacheItem}
    (marked : ((fat.clusterCache.blocks id).withData data).addDirtyRegion start stop =
      some written) :
    ({ fat with clusterCache := fat.clusterCache.modify id fun _ => written } :
      FileAllocationTable).Ok hash :=
  ⟨ok.clusters.modify (f := fun _ => written) fun hid =>
    ((ok.clusters.ranges id hid).withData data).addDirtyRegion marked, ok.sectors⟩

theorem Ok.withHint (ok : fat.Ok hash) (freeClusterHint : ℕ) :
    ({ fat with freeClusterHint := freeClusterHint } : FileAllocationTable).Ok hash :=
  ⟨ok.clusters, ok.sectors⟩

/-- **One step** keeps the caches well formed. -/
theorem BlockStep.ok (step : BlockStep hash fat fat') (ok : fat.Ok hash) :
    fat'.Ok hash ∧ fat'.info = fat.info := by
  cases step with
  | sector fetched =>
      obtain ⟨cache, device, rfl, -, -, ok'⟩ := ok.fetchFatSector fetched
      exact ⟨ok', rfl⟩
  | cluster fetched =>
      obtain ⟨cache, device, rfl, -, ok'⟩ := ok.fetchCluster fetched
      exact ⟨ok', rfl⟩
  | markSector held f => exact ⟨ok.writeSector f, rfl⟩
  | markCluster held marked => exact ⟨ok.markCluster marked, rfl⟩
  | hint n => exact ⟨ok.withHint n, rfl⟩
  | readPast offset length => exact ⟨⟨ok.clusters, ok.sectors⟩, rfl⟩

theorem Steps.ok (steps : Steps hash fat fat') (ok : fat.Ok hash) :
    fat'.Ok hash ∧ fat'.info = fat.info := by
  induction steps with
  | refl => exact ⟨ok, rfl⟩
  | tail _ step ih =>
      obtain ⟨ok', hinfo⟩ := step.ok ih.1
      exact ⟨ok', hinfo.trans ih.2⟩

/-! ## Operations as sequences of steps -/

variable {cluster size : ℕ} {write : Bool} {list : FATRawEntryList}

theorem getNextCluster_steps {next : ℕ} (h : fat.getNextCluster hash cluster = some (fat', next)) :
    Steps hash fat fat' := by
  obtain ⟨fetched, hfetch, h⟩ := Option.map_eq_some_iff.mp h
  cases h
  exact .single (.sector hfetch)

theorem linkCluster_steps (ok : fat.Ok hash) {current candidate sector index found : ℕ}
    (held : fat.fatCache.heldBlocks hash index = some sector)
    (h : fat.linkCluster hash current candidate sector = some (fat', found)) :
    Steps hash fat fat' := by
  obtain ⟨⟨fat₁, original⟩, hfetch, h⟩ := Option.map_eq_some_iff.mp h
  cases h
  obtain ⟨cache, device, rfl, -, hfetched, -⟩ :=
    ((ok.writeSector _).withHint _).fetchFatSector hfetch
  exact (((ReflTransGen.single (.markSector held _)).tail (.hint _)).tail (.sector hfetch)).tail
    (.markSector hfetched.present _)

theorem allocateFrom_steps {current : ℕ} :
    ∀ (remaining : ℕ) {fat fat' : FileAllocationTable} {candidate index sector found : ℕ},
      fat.Ok hash → fat.fatCache.heldBlocks hash index = some sector →
      allocateFrom hash current remaining fat candidate index sector = some (fat', found) →
      Steps hash fat fat' := by
  intro remaining
  induction remaining with
  | zero =>
      intro fat fat' candidate index sector found _ _ h
      cases h
      exact .refl
  | succ remaining ih =>
      intro fat fat' candidate index sector found ok held h
      obtain ⟨⟨fat₁, sector₁⟩, hsector, h⟩ := Option.bind_eq_some_iff.mp h
      obtain ⟨hsteps, ok₁, held₁⟩ : Steps hash fat fat₁ ∧ fat₁.Ok hash ∧
          fat₁.fatCache.heldBlocks hash (fat.info.fatSectorIndexAndOffsetFor candidate).1 =
            some sector₁ := by
        split_ifs at hsector with hsame
        · obtain ⟨cache, device, rfl, -, hfetched, ok₁⟩ := ok.fetchFatSector hsector
          exact ⟨.single (.sector hsector), ok₁, hfetched.present⟩
        · cases hsector
          rw [not_not.mp hsame]
          exact ⟨.refl, ok, held⟩
      dsimp only at h
      split_ifs at h
      · exact hsteps.trans (ih ok₁ held₁ h)
      · exact hsteps.trans (linkCluster_steps ok₁ held₁ h)

theorem allocateNextCluster_steps (ok : fat.Ok hash) {found : ℕ}
    (h : fat.allocateNextCluster hash cluster = some (fat', found)) : Steps hash fat fat' := by
  obtain ⟨⟨fat₁, sector⟩, hfetch, h⟩ := Option.bind_eq_some_iff.mp h
  obtain ⟨cache, device, rfl, -, hfetched, ok₁⟩ := ok.fetchFatSector hfetch
  exact (ReflTransGen.single (.sector hfetch)).trans
    (allocateFrom_steps _ ok₁ hfetched.present h)

theorem extendFrom_steps :
    ∀ (fuel : ℕ) {fat fat' : FileAllocationTable} {cluster currentSize : ℕ} {result : Bool},
      fat.Ok hash → extendFrom hash size fuel fat cluster currentSize = some (fat', result) →
      Steps hash fat fat' := by
  intro fuel
  induction fuel with
  | zero => exact fun _ h => nomatch h
  | succ fuel ih =>
      intro fat fat' cluster currentSize result ok h
      rw [extendFrom] at h
      split_ifs at h with hsize
      · obtain ⟨⟨fat₁, next⟩, hnext, h⟩ := Option.bind_eq_some_iff.mp h
        have hsteps := getNextCluster_steps hnext
        have ok₁ := (hsteps.ok ok).1
        dsimp only at h
        split_ifs at h with htype
        · obtain ⟨⟨fat₂, allocated⟩, hallocate, h⟩ := Option.bind_eq_some_iff.mp h
          have hsteps₂ : Steps hash fat fat₂ :=
            hsteps.trans (allocateNextCluster_steps ok₁ hallocate)
          dsimp only at h
          split_ifs at h with hzero
          · cases h
            exact hsteps₂
          · exact hsteps₂.trans (ih (Steps.ok hsteps₂ ok).1 h)
        · exact hsteps.trans (ih ok₁ h)
      · cases h
        exact .refl

theorem extendFile_steps (ok : fat.Ok hash) {result : Bool}
    (h : fat.extendFile hash cluster size = some (fat', result)) : Steps hash fat fat' :=
  extendFrom_steps _ ok h

theorem skipClusters_steps :
    ∀ (count : ℕ) {fat fat' : FileAllocationTable} {cluster : ℕ} {result : Option ℕ},
      skipClusters hash count fat cluster = some (fat', result) → Steps hash fat fat' := by
  intro count
  induction count with
  | zero =>
      intro fat fat' cluster result h
      cases h
      exact .refl
  | succ count ih =>
      intro fat fat' cluster result h
      obtain ⟨⟨fat₁, next⟩, hnext, h⟩ := Option.bind_eq_some_iff.mp h
      have hsteps := getNextCluster_steps hnext
      dsimp only at h
      split_ifs at h with htype
      · cases h
        exact hsteps
      · exact hsteps.trans (ih h)

theorem transferPart_steps (ok : fat.Ok hash) {buffer buffer' : Memory Byte}
    {byteOffset length completed : ℕ}
    (h : fat.transferPart hash buffer cluster byteOffset length completed write =
      some (fat', buffer')) : Steps hash fat fat' := by
  obtain ⟨⟨fat₁, id⟩, hfetch, h⟩ := Option.bind_eq_some_iff.mp h
  obtain ⟨cache, device, rfl, hfetched, -⟩ := ok.fetchCluster hfetch
  dsimp only at h
  split_ifs at h with hwrite
  · obtain ⟨written, hmarked, h⟩ := Option.map_eq_some_iff.mp h
    cases h
    exact (ReflTransGen.single (.cluster hfetch)).tail (.markCluster hfetched.present hmarked)
  · cases h
    exact .single (.cluster hfetch)

theorem transferFrom_steps {within : ℕ} :
    ∀ (fuel : ℕ) {fat fat' : FileAllocationTable} {buffer buffer' : Memory Byte}
      {cluster completed : ℕ} {result : Bool},
      fat.Ok hash → transferFrom hash size within write fuel fat buffer cluster completed =
        some (fat', buffer', result) → Steps hash fat fat' := by
  intro fuel
  induction fuel with
  | zero => exact fun _ h => nomatch h
  | succ fuel ih =>
      intro fat fat' buffer buffer' cluster completed result ok h
      rw [transferFrom] at h
      by_cases hmore : completed < size
      · rw [if_pos hmore] at h
        obtain ⟨⟨fat₁, buffer₁⟩, hpart, h⟩ := Option.bind_eq_some_iff.mp h
        have hsteps := transferPart_steps ok hpart
        generalize min (size - completed) _ = length at h
        dsimp only at h
        by_cases hdone : completed + length = size
        · rw [if_pos hdone] at h
          cases h
          exact hsteps
        · rw [if_neg hdone] at h
          obtain ⟨⟨fat₂, next⟩, hnext, h⟩ := Option.bind_eq_some_iff.mp h
          have hsteps₂ : Steps hash fat fat₂ := hsteps.trans (getNextCluster_steps hnext)
          dsimp only at h
          split_ifs at h with htype
          · cases h
            exact hsteps₂
          · exact hsteps₂.trans (ih (Steps.ok hsteps₂ ok).1 h)
      · rw [if_neg hmore] at h
        cases h
        exact .refl

theorem doDataInterchange_steps (ok : fat.Ok hash) {buffer buffer' : Memory Byte} {offset : ℕ}
    {result : Bool} (h : fat.doDataInterchange hash buffer cluster offset size write =
      some (fat', buffer', result)) : Steps hash fat fat' := by
  obtain ⟨⟨fat₁, start⟩, hskip, h⟩ := Option.bind_eq_some_iff.mp h
  have hsteps := skipClusters_steps _ hskip
  cases start with
  | none =>
      cases h
      exact hsteps
  | some start => exact hsteps.trans (transferFrom_steps _ (hsteps.ok ok).1 h)

/-! ## Directories -/

theorem chainFrom_steps :
    ∀ (fuel : ℕ) {fat fat' : FileAllocationTable} {cluster : ℕ} {chain : List ℕ},
      chainFrom hash fuel fat cluster = some (fat', chain) → Steps hash fat fat' := by
  intro fuel
  induction fuel with
  | zero => exact fun h => nomatch h
  | succ fuel ih =>
      intro fat fat' cluster chain h
      obtain ⟨⟨fat₁, next⟩, hnext, h⟩ := Option.bind_eq_some_iff.mp h
      have hsteps := getNextCluster_steps hnext
      dsimp only at h
      split_ifs at h with htype
      · obtain ⟨⟨fat₂, rest⟩, hrest, h⟩ := Option.map_eq_some_iff.mp h
        cases h
        exact hsteps.trans (ih hrest)
      · cases h
        exact hsteps

theorem createList_steps {startCluster startIndex : ℕ}
    (h : fat.createList hash startCluster startIndex = some (fat', list)) :
    Steps hash fat fat' := by
  obtain ⟨⟨fat₁, chain⟩, hchain, h⟩ := Option.bind_eq_some_iff.mp h
  dsimp only at h
  split_ifs at h with hindex
  cases h
  exact chainFrom_steps _ hchain

theorem readEntry_steps (ok : fat.Ok hash) {chain : List ℕ} {i j : ℕ} {entry : RawFATEntry}
    (h : readEntry hash chain fat i j = some (fat', entry)) : Steps hash fat fat' := by
  obtain ⟨cluster, -, h⟩ := Option.bind_eq_some_iff.mp h
  obtain ⟨done, hdone, h⟩ := Option.map_eq_some_iff.mp h
  cases h
  exact doDataInterchange_steps ok hdone

theorem forEach_steps {β ρ : Type} {chain : List ℕ} {body : β → RawFATEntry × ℕ → Except ρ β}
    (ok : fat.Ok hash) {acc : β} {result : Except ρ β}
    (h : list.forEach (readEntry hash chain) body fat acc = some (fat', result)) :
    Steps hash fat fat' := by
  have hread : ∀ fat₁ i j fat₂ entry, Steps hash fat fat₁ →
      readEntry hash chain fat₁ i j = some (fat₂, entry) → Steps hash fat fat₂ :=
    fun fat₁ i j fat₂ entry hsteps h => hsteps.trans (readEntry_steps (Steps.ok hsteps ok).1 h)
  exact FATRawEntryList.forEach_keeps hread h .refl

theorem getEntries_steps (ok : fat.Ok hash) {startCluster : ℕ} {entries : List LocatedFATEntry}
    (h : fat.getEntries hash startCluster = some (fat', entries)) : Steps hash fat fat' := by
  obtain ⟨⟨fat₁, list⟩, hcreate, h⟩ := Option.bind_eq_some_iff.mp h
  have hsteps := createList_steps hcreate
  obtain ⟨⟨fat₂, result⟩, hloop, h⟩ := Option.map_eq_some_iff.mp h
  cases result with
  | error none => nomatch none
  | ok scan =>
      cases h
      exact hsteps.trans (forEach_steps (Steps.ok hsteps ok).1 hloop)

theorem getEntry_steps (ok : fat.Ok hash) {location : FATEntryLocation}
    {result : Except ErrorCode BasicFATEntry}
    (h : fat.getEntry hash location = some (fat', result)) : Steps hash fat fat' := by
  obtain ⟨⟨fat₁, list⟩, hcreate, h⟩ := Option.bind_eq_some_iff.mp h
  have hsteps := createList_steps hcreate
  obtain ⟨⟨fat₂, found⟩, hloop, h⟩ := Option.map_eq_some_iff.mp h
  have hloop' := hsteps.trans (forEach_steps (Steps.ok hsteps ok).1 hloop)
  cases found with
  | ok scan =>
      cases h
      exact hloop'
  | error entry =>
      cases h
      exact hloop'

theorem getRootEntries_steps (ok : fat.Ok hash) {entries : List LocatedFATEntry}
    (h : fat.getRootEntries hash = some (fat', entries)) : Steps hash fat fat' := by
  unfold getRootEntries at h
  split_ifs at h with htype
  · cases h
    exact .single (.readPast _ _)
  · exact getEntries_steps ok h

theorem setEntry_steps (ok : fat.Ok hash) {directoryIndex : ℕ} {entry : RawFATEntry}
    (h : fat.setEntry hash list directoryIndex entry = some fat') : Steps hash fat fat' := by
  obtain ⟨cluster, -, h⟩ := Option.bind_eq_some_iff.mp h
  obtain ⟨done, hdone, h⟩ := Option.map_eq_some_iff.mp h
  cases h
  exact doDataInterchange_steps ok hdone

theorem updateEntry_steps (ok : fat.Ok hash) {location : FATEntryLocation}
    {entry : BasicFATEntry} {result : Except ErrorCode FATEntryLocation}
    (h : fat.updateEntry hash location entry = some (fat', result)) : Steps hash fat fat' := by
  obtain ⟨⟨fat₁, list⟩, hcreate, h⟩ := Option.bind_eq_some_iff.mp h
  have hsteps := createList_steps hcreate
  obtain ⟨⟨fat₂, found⟩, hloop, h⟩ := Option.bind_eq_some_iff.mp h
  have hsteps₂ : Steps hash fat fat₂ :=
    hsteps.trans (forEach_steps (Steps.ok hsteps ok).1 hloop)
  cases found with
  | ok _ =>
      cases h
      exact hsteps₂
  | error slot =>
      obtain ⟨fat₃, hset, h⟩ := Option.map_eq_some_iff.mp h
      cases h
      exact hsteps₂.trans (setEntry_steps (Steps.ok hsteps₂ ok).1 hset)

end BekOS.FileAllocationTable
